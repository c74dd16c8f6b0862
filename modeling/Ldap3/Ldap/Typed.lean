import Ldap3.Ldap.Wire

/-!
# Typed values

A control and an extended operation carry an object identifier and a value, and the identifier says
what the value is. A `Registry` has a reader for each identifier it knows: there may be no value,
the octets themselves may be meant, or they are an encoding of a tree that is read in turn. To read
a request with a registry is to read it as `Grammar` does and then its values by their identifiers.

What is read so is determined by the octets, as far as these fit the address space
(`Registry.Reads.unique`). So if each control of a request is read as what it was meant to be, the
octets sent are read as the list of these meanings, and as no other (`controls_iff`), and so is an
extended operation (`extended_iff`).
-/

namespace Ldap3

theorem exists_mem_right {α β : Type} {R : α → β → Prop} {as : List α} {bs : List β}
    (h : List.Forall₂ R as bs) {a : α} (ha : a ∈ as) : ∃ b ∈ bs, R a b := by
  induction h with
  | nil => exact absurd ha List.not_mem_nil
  | @cons a' b as bs hab _ ih =>
    rcases List.mem_cons.1 ha with rfl | ha
    · exact ⟨b, List.mem_cons_self, hab⟩
    · obtain ⟨b', hb', hab'⟩ := ih ha
      exact ⟨b', List.mem_cons_of_mem _ hb', hab'⟩

namespace Grammar

/-! ### Readers -/

/-- How the value of an identifier is read as one of the meanings. -/
inductive ValueReader (μ : Type) where
  /-- There is no value. -/
  | absent (m : μ)
  /-- The octets as they are. -/
  | octets (read : List UInt8 → μ)
  /-- The tree they encode. -/
  | tree (read : StructureTag → Option μ)
  /-- The tree they encode, or no value. -/
  | optionalTree (m : μ) (read : StructureTag → Option μ)

namespace ValueReader

variable {μ : Type}

/-- An encoding of a tree with the meaning. -/
def ReadsTree (read : StructureTag → Option μ) (val : Option (List UInt8)) (m : μ) : Prop :=
  ∃ w t, val = some w ∧ Ber t w ∧ read t = some m

/-- What a value means. -/
def Reads : ValueReader μ → Option (List UInt8) → μ → Prop
  | absent m', val, m => val = none ∧ m = m'
  | octets read, val, m => ∃ w, val = some w ∧ m = read w
  | tree read, val, m => ReadsTree read val m
  | optionalTree m' read, val, m => (val = none ∧ m = m') ∨ ReadsTree read val m

variable {val : Option (List UInt8)} {m m' : μ}

/-- What the writer makes of a tree is read as the tree is. -/
theorem readsTree_encodeInto {read : StructureTag → Option μ} {t : StructureTag}
    (hids : t.IdsLe 30) (hread : read t = some m)
    (hlt : ∀ w ∈ some (encodeInto t), w.length < 2 ^ 64) :
    ReadsTree read (some (encodeInto t)) m :=
  ⟨_, t, rfl, ber_encodeInner hids (hlt _ rfl), hread⟩

theorem ReadsTree.unique {read : StructureTag → Option μ} (h : ReadsTree read val m)
    (h' : ReadsTree read val m') (hlt : ∀ w ∈ val, w.length < 2 ^ 64) : m' = m := by
  obtain ⟨w, t, rfl, hber, hread⟩ := h
  obtain ⟨w', t', heq, hber', hread'⟩ := h'
  obtain rfl := Option.some.inj heq
  obtain rfl := hber.unique hber' (hlt w rfl)
  exact Option.some.inj (hread'.symm.trans hread)

/-- A value has one meaning at most. -/
theorem Reads.unique {r : ValueReader μ} (h : r.Reads val m) (h' : r.Reads val m')
    (hlt : ∀ w ∈ val, w.length < 2 ^ 64) : m' = m := by
  cases r with
  | absent m₀ => exact h'.2.trans h.2.symm
  | octets read =>
    obtain ⟨w, rfl, rfl⟩ := h
    obtain ⟨w', heq, rfl⟩ := h'
    rw [Option.some.inj heq]
  | tree read => exact ReadsTree.unique h h' hlt
  | optionalTree m₀ read =>
    rcases h with ⟨rfl, rfl⟩ | h
    · rcases h' with ⟨-, rfl⟩ | ⟨w, t, heq, -⟩
      · rfl
      · cases heq
    · rcases h' with ⟨rfl, -⟩ | h'
      · obtain ⟨w, t, heq, -⟩ := h
        cases heq
      · exact h.unique h' hlt

end ValueReader

/-- The identifiers that are known, each with its reader. -/
abbrev Registry (μ : Type) := List (String × ValueReader μ)

namespace Registry

variable {μ : Type} {reg : Registry μ}

/-- What the value of an identifier means. -/
def Reads (reg : Registry μ) (oid : List UInt8) (val : Option (List UInt8)) (m : μ) : Prop :=
  ∃ name r, oid = asBytes name ∧ reg.lookup name = some r ∧ r.Reads val m

theorem Reads.unique {oid : List UInt8} {val : Option (List UInt8)} {m m' : μ}
    (h : reg.Reads oid val m) (h' : reg.Reads oid val m')
    (hlt : ∀ w ∈ val, w.length < 2 ^ 64) : m' = m := by
  obtain ⟨name, r, rfl, hr, hm⟩ := h
  obtain ⟨name', r', hname, hr', hm'⟩ := h'
  obtain rfl := asBytes_injective hname
  obtain rfl := Option.some.inj (hr.symm.trans hr')
  exact hm.unique hm' hlt

/-- A control with the meaning and the criticality. -/
def ReadsControl (reg : Registry μ) (c : RequestControl) (x : μ × Bool) : Prop :=
  reg.Reads c.controlType c.controlValue x.1 ∧ c.criticality = x.2

theorem ReadsControl.unique {c : RequestControl} {x x' : μ × Bool} (h : reg.ReadsControl c x)
    (h' : reg.ReadsControl c x') (hlt : ∀ w ∈ c.controlValue, w.length < 2 ^ 64) : x' = x :=
  Prod.ext (h.1.unique h'.1 hlt) (h'.2.symm.trans h.2)

theorem ReadsControl.unique_list {cs : List RequestControl} {xs xs' : List (μ × Bool)}
    (h : List.Forall₂ reg.ReadsControl cs xs) (h' : List.Forall₂ reg.ReadsControl cs xs')
    (hlt : ∀ c ∈ cs, ∀ w ∈ c.controlValue, w.length < 2 ^ 64) : xs' = xs := by
  induction h generalizing xs' with
  | nil => exact List.forall₂_nil_left_iff.1 h'
  | @cons c x cs xs hx _ ih =>
    obtain ⟨x', xs', hx', hxs', rfl⟩ := List.forall₂_cons_left_iff.1 h'
    rw [List.forall_mem_cons] at hlt
    rw [ih hxs' hlt.2, hx.unique hx' hlt.1]

end Registry

/-! ### Requests -/

/-- Octets that are a request with controls of the meanings and criticalities. -/
def ReadsControls {κ : Type} (reg : Registry κ) (w : List UInt8) (xs : List (κ × Bool)) : Prop :=
  ∃ m cs, Grammar.Reads w m ∧ m.controls = some cs ∧ List.Forall₂ reg.ReadsControl cs xs

/-- Octets that are an extended request with the meaning. -/
def ReadsExtended {μ : Type} (reg : Registry μ) (w : List UInt8) (x : μ) : Prop :=
  ∃ m name val, Grammar.Reads w m ∧ m.protocolOp = .extendedRequest name val ∧
    reg.Reads name val x

/-- A component that may be missing, told by whether it can be read, and the components after
it. -/
def optional {α : Type} (read : StructureTag → Option α) :
    List StructureTag → Option α × List StructureTag
  | [] => (none, [])
  | t :: ts => match read t with
    | some a => (some a, ts)
    | none => (none, t :: ts)

end Grammar

/-! ### Octets inside a tree -/

/-- The octets are the content of a primitive element of the tree. -/
inductive Inside (v : List UInt8) : StructureTag → Prop
  | here (cls : TagClass) (id : UInt64) : Inside v ⟨cls, id, .P v⟩
  | child (cls : TagClass) (id : UInt64) {t : StructureTag} {ts : List StructureTag} (ht : t ∈ ts)
      (h : Inside v t) : Inside v ⟨cls, id, .C ts⟩

theorem length_le_of_bers {t : StructureTag} {ts : List StructureTag} {c : List UInt8} (ht : t ∈ ts)
    (h : Bers ts c) : ∃ w, Ber t w ∧ w.length ≤ c.length := by
  induction ts generalizing c with
  | nil => exact absurd ht List.not_mem_nil
  | cons u ts ih =>
    obtain ⟨w₁, w₂, hu, hts, rfl⟩ := h
    rw [List.length_append]
    rcases List.mem_cons.1 ht with rfl | ht
    · exact ⟨w₁, hu, Nat.le_add_right _ _⟩
    · obtain ⟨w, hw, hle⟩ := ih ht hts
      exact ⟨w, hw, hle.trans (Nat.le_add_left _ _)⟩

/-- They are part of every encoding. -/
theorem Inside.length_le {v w : List UInt8} {t : StructureTag} (h : Inside v t) (hw : Ber t w) :
    v.length ≤ w.length := by
  induction h generalizing w with
  | here cls id =>
    obtain ⟨-, l, -, rfl⟩ := hw
    simp only [List.length_cons, List.length_append]
    omega
  | child cls id ht _ ih =>
    obtain ⟨-, l, c, hc, -, rfl⟩ := hw
    obtain ⟨w, hw, hle⟩ := length_le_of_bers ht hc
    have hv := ih hw
    simp only [List.length_cons, List.length_append]
    omega

theorem inside_buildTag {rc : RawControl} {v : List UInt8} (h : rc.val = some v) :
    Inside v (buildTag rc) := by
  rw [buildTag, h, Tag.ofSequence, Tag.intoStructure, Tag.intoStructures_eq_map]
  refine .child _ _ (t := (Tag.ofOctetString v).intoStructure) ?_ (.here _ _)
  exact List.mem_map_of_mem (List.mem_append_right _ List.mem_cons_self)

/-- The value of a control is part of the message. -/
theorem inside_outstruct {id : RequestId} {req : Tag} {rcs : List RawControl} {rc : RawControl}
    {v : List UInt8} (hrc : rc ∈ rcs) (h : rc.val = some v) :
    Inside v (outstruct id req (some rcs)) := by
  rw [outstruct, Tag.ofSequence, Tag.intoStructure, Tag.intoStructures_eq_map]
  refine .child _ _ (List.mem_map_of_mem (List.mem_append_right _ List.mem_cons_self)) ?_
  exact .child _ _ (List.mem_map_of_mem hrc) (inside_buildTag h)

/-- So is the value of an extended operation. -/
theorem inside_outstruct_extended {id : RequestId} {exop : Exop} {req : Tag}
    {controls : Option (List RawControl)} {v : List UInt8} (hreq : Request.extended exop = .ok req)
    (h : exop.val = some v) : Inside v (outstruct id req controls) := by
  rcases exop with ⟨- | name, val⟩
  · cases hreq
  obtain rfl := Except.ok.inj hreq
  obtain rfl : val = some v := h
  have hinside : Inside v (Tag.sequence 23 .application
      [.octetString 0 .context (asBytes name), .octetString 1 .context v]).intoStructure :=
    .child _ _ (List.mem_cons_of_mem _ List.mem_cons_self) (.here _ _)
  cases controls with
  | none =>
    rw [outstruct, Tag.ofSequence, Tag.intoStructure, Tag.intoStructures_eq_map]
    exact .child _ _ (List.mem_map_of_mem (List.mem_cons_of_mem _ List.mem_cons_self)) hinside
  | some rcs =>
    rw [outstruct, Tag.ofSequence, Tag.intoStructure, Tag.intoStructures_eq_map]
    exact .child _ _ (List.mem_map_of_mem (List.mem_cons_of_mem _ List.mem_cons_self)) hinside

/-! ### What a typed request says -/

section Requests

variable {S : Type} [AsRef S]

namespace IssuedRequest

variable (r : IssuedRequest S)

theorem ber_encoded : Ber (outstruct r.id r.req r.controls) r.encoded := by
  obtain ⟨hids, -⟩ := Grammar.operation_request r.request_eq r.in_range
  exact ber_encodeInner (idsLe_outstruct r.controls hids) (Nat.lt_of_le_of_lt r.fits (by decide))

/-- What is inside a request fits the address space with it. -/
theorem length_lt_of_inside {v : List UInt8} (h : Inside v (outstruct r.id r.req r.controls)) :
    v.length < 2 ^ 64 :=
  Nat.lt_of_le_of_lt ((h.length_le r.ber_encoded).trans r.fits) (by decide)

theorem length_val_lt {rcs : List RawControl} (hrcs : r.controls = some rcs) {rc : RawControl}
    (hrc : rc ∈ rcs) : ∀ w ∈ rc.val, w.length < 2 ^ 64 := by
  intro w hw
  refine r.length_lt_of_inside ?_
  rw [hrcs]
  exact inside_outstruct hrc hw

theorem length_exopVal_lt {exop : Exop} (hcall : r.call = .extended exop) :
    ∀ w ∈ exop.val, w.length < 2 ^ 64 := by
  intro w hw
  have hreq := r.request_eq
  rw [hcall] at hreq
  exact r.length_lt_of_inside (inside_outstruct_extended hreq hw)

end IssuedRequest

namespace Grammar

/-- What a request with a list of controls is read as has a reading for each of them. -/
theorem ReadsControls.forall₂ {κ : Type} {reg : Registry κ} {r : IssuedRequest S}
    {rcs : List RawControl} (hrcs : r.controls = some rcs) {xs : List (κ × Bool)}
    (h : ReadsControls reg r.encoded xs) :
    List.Forall₂ (fun rc x ↦ reg.ReadsControl (RawControl.request rc) x) rcs xs := by
  obtain ⟨m, hm, hreads⟩ := r.reads_encoded_iff
  obtain ⟨op, -, rfl⟩ := Option.map_eq_some_iff.1 hm
  obtain ⟨m', cs, hm', hcs, hall⟩ := h
  obtain rfl := (hreads m').1 hm'
  rw [hrcs] at hcs
  obtain rfl := Option.some.inj hcs
  exact List.forall₂_map_left_iff.1 hall

/-- **Controls.** If every control of a request means what it should, the octets are read as a
request with controls of these meanings, and as no other. -/
theorem controls_iff {κ : Type} {reg : Registry κ} (r : IssuedRequest S) {rcs : List RawControl}
    (hrcs : r.controls = some rcs) {xs : List (κ × Bool)}
    (h : List.Forall₂ (fun rc x ↦ reg.ReadsControl (RawControl.request rc) x) rcs xs)
    (xs' : List (κ × Bool)) : ReadsControls reg r.encoded xs' ↔ xs' = xs := by
  constructor
  · intro h'
    refine Registry.ReadsControl.unique_list (List.forall₂_map_left_iff.2 h)
      (List.forall₂_map_left_iff.2 (h'.forall₂ hrcs)) fun c hc w hw ↦ ?_
    obtain ⟨rc, hrc, rfl⟩ := List.mem_map.1 hc
    exact r.length_val_lt hrcs hrc w hw
  · rintro rfl
    obtain ⟨m, hm, hreads⟩ := r.reads_encoded_iff
    obtain ⟨op, -, rfl⟩ := Option.map_eq_some_iff.1 hm
    refine ⟨_, _, (hreads _).2 rfl, by rw [hrcs]; rfl, ?_⟩
    exact List.forall₂_map_left_iff.2 h

/-- **Extended operations.** If the operation means what it should, the octets are read as a request
with this meaning, and with no other. -/
theorem extended_iff {μ : Type} {reg : Registry μ} (r : IssuedRequest S) {exop : Exop}
    (hcall : r.call = .extended exop) {name : String} (hname : exop.name = some name) {x : μ}
    (h : reg.Reads (asBytes name) exop.val x) (x' : μ) :
    ReadsExtended reg r.encoded x' ↔ x' = x := by
  obtain ⟨m, hm, hreads⟩ := r.reads_encoded_iff
  rw [IssuedRequest.meaning, hcall, Call.operation, hname] at hm
  obtain rfl := Option.some.inj hm
  constructor
  · rintro ⟨m', name', val, hm', hop, hx'⟩
    obtain rfl := (hreads m').1 hm'
    cases hop
    exact h.unique hx' (r.length_exopVal_lt hcall)
  · rintro rfl
    exact ⟨_, _, _, (hreads _).2 rfl, rfl, h⟩

end Grammar

end Requests

end Ldap3
