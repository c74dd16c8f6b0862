import Ldap3.Controls.ContentSync
import Ldap3.Controls.PagedResults
import Ldap3.Ldap.Peer
import Ldap3.Ldap.Typed
import Ldap3.Search.Entry

/-!
# Response controls

A control of a response reaches the caller as a `Control`, with its type if that is recognized. The
caller goes by the type and calls `RawControl::parse` for the value, which is what `PagedResults`
does as well (`Controls.PagedResults.parse_eq`).

What a server may say in a control is a `ResponseValue`. A value has several trees, each of them
several encodings, and so has the message around it. However the server chooses, each control is at
its place, has the type that belongs to its identifier, and is parsed as what the server said
(`responseControls_read`).
-/

namespace Ldap3

/-! ### Parsing -/

/-- `ControlParser`. -/
class ControlParser (T : Type) where
  parse : List UInt8 → Except Fault T

/-- `RawControl::parse`. -/
def RawControl.parse {T : Type} [ControlParser T] (rc : RawControl) : Except Fault T := do
  ControlParser.parse (← expect rc.val "value")

/-- `PagedResults::parse`, with the texts of its panics. -/
def Controls.PagedResults.parseVal (val : List UInt8) : Except Fault Controls.PagedResults := do
  match parseTag val with
  | .error _ => throw (.panic "failed to parse paged results value components")
  | .ok (_, tag) =>
    let prComps ← expect tag.expectConstructed "paged results components"
    let sizeTag ← expect prComps.head? "element"
    let size ← expect
      (sizeTag.matchClass .universal >>= (·.matchId Types.integer) >>= (·.expectPrimitive))
      "paged results size"
    let cookieTag ← expect prComps.tail.head? "element"
    let cookie ← expect cookieTag.expectPrimitive "octet string"
    return ⟨asI32 (parseUint size), cookie⟩

instance : ControlParser Controls.PagedResults := ⟨Controls.PagedResults.parseVal⟩

instance : ControlParser ReadEntryResp := ⟨ReadEntryResp.parse⟩

instance : ControlParser SyncState := ⟨SyncState.parse⟩

instance : ControlParser SyncDone := ⟨SyncDone.parse⟩

theorem toOption_expect_bind {α γ : Type} (o : Option α) (msg : String) (f : α → Except Fault γ) :
    (expect o msg >>= f).toOption = o.bind fun a ↦ (f a).toOption := by
  cases o <;> rfl

/-- The adapter parses a control as its caller would. -/
theorem Controls.PagedResults.parse_eq (rc : RawControl) :
    Controls.PagedResults.parse rc =
      (rc.parse : Except Fault Controls.PagedResults).toOption := by
  rw [RawControl.parse, toOption_expect_bind, Controls.PagedResults.parse]
  refine congrArg _ (funext fun val ↦ ?_)
  change _ = (Controls.PagedResults.parseVal val).toOption
  rw [Controls.PagedResults.parseVal]
  rcases parseTag val with e | ⟨rest, tag⟩
  · rfl
  · simp only [toOption_expect_bind]
    rfl

/-- The value of a control. -/
inductive ParsedControl where
  | pagedResults (pr : Controls.PagedResults)
  | preReadResp (re : ReadEntryResp)
  | postReadResp (re : ReadEntryResp)
  | syncState (s : SyncState)
  | syncDone (d : SyncDone)

/-- What a caller gets who goes by the type of a control. There are types without a parser. -/
def Control.parsed (c : Control) : Option (Except Fault ParsedControl) :=
  match c.knownType with
  | some .pagedResults => some (c.raw.parse.map .pagedResults)
  | some .preReadResp => some (c.raw.parse.map .preReadResp)
  | some .postReadResp => some (c.raw.parse.map .postReadResp)
  | some .syncState => some (c.raw.parse.map .syncState)
  | some .syncDone => some (c.raw.parse.map .syncDone)
  | some .manageDsaIt | some .matchedValues | none => none

/-! ### What a server says -/

/-- What a server may say in a control. The attributes of an entry are a set, so no name occurs
twice. -/
inductive ResponseValue where
  | pagedResults (size : ℕ) (cookie : List UInt8) (size_lt : size < 2 ^ 31)
  | preRead (e : SearchResultEntry) (nodup : e.names.Nodup)
  | postRead (e : SearchResultEntry) (nodup : e.names.Nodup)
  | syncState (s : SyncState)
  | syncDone (d : SyncDone)

namespace ResponseValue

def controlType : ResponseValue → ControlType
  | pagedResults _ _ _ => .pagedResults
  | preRead _ _ => .preReadResp
  | postRead _ _ => .postReadResp
  | syncState _ => .syncState
  | syncDone _ => .syncDone

/-- The identifier the protocol has for it. -/
def oid : ResponseValue → String
  | pagedResults _ _ _ => "1.2.840.113556.1.4.319"
  | preRead _ _ => "1.3.6.1.1.13.1"
  | postRead _ _ => "1.3.6.1.1.13.2"
  | syncState _ => "1.3.6.1.4.1.4203.1.9.1.2"
  | syncDone _ => "1.3.6.1.4.1.4203.1.9.1.3"

/-- A tree of the value. -/
def IsTag : ResponseValue → StructureTag → Prop
  | pagedResults size cookie _, t => ∃ v, Response.Denotes v size ∧
      t = ⟨.universal, Types.sequence,
        .C [⟨.universal, Types.integer, .P v⟩, octetStringTag cookie]⟩
  | preRead e _, t | postRead e _, t => t = e.tag
  | syncState s, t => s.IsTag t
  | syncDone d, t => d.IsTag t

/-- The control is one that says so. -/
def Says (x : ResponseValue) (c : ResponseControl) : Prop :=
  c.ctype = x.oid ∧ ∃ w t, c.val = some w ∧ Ber t w ∧ x.IsTag t

end ResponseValue

/-- The maps have every attribute of the entry, in the map for its kind and with all its values, and
nothing else. -/
structure ReadEntryResp.Holds (re : ReadEntryResp) (e : SearchResultEntry) : Prop where
  text : ∀ a ∈ e.attributes, ¬Binary a.vals →
    re.binAttrs a.type = none ∧ ∃ vals, re.attrs a.type = some vals ∧ vals.map asBytes = a.vals
  binary : ∀ a ∈ e.attributes, Binary a.vals →
    re.attrs a.type = none ∧ ∃ vals, re.binAttrs a.type = some vals ∧ vals.Perm a.vals
  no_others : ∀ d ∉ e.names, re.attrs d = none ∧ re.binAttrs d = none

/-- What was parsed is what was said. -/
def ResponseValue.Agrees : ResponseValue → ParsedControl → Prop
  | pagedResults size cookie _, .pagedResults pr => pr = ⟨size, cookie⟩
  | preRead e _, .preReadResp re => re.Holds e
  | postRead e _, .postReadResp re => re.Holds e
  | syncState s, .syncState s' => s' = s
  | syncDone d, .syncDone d' => d' = d
  | _, _ => False

/-! ### One control -/

theorem Controls.PagedResults.parseVal_of_denotes {size : ℕ} {v cookie w : List UInt8}
    (hv : Response.Denotes v size) (hsize : size < 2 ^ 31)
    (hw : Ber ⟨.universal, Types.sequence,
      .C [⟨.universal, Types.integer, .P v⟩, octetStringTag cookie]⟩ w)
    (hlt : w.length < 2 ^ 64) : parseVal w = .ok ⟨size, cookie⟩ := by
  have hread : asI32 (parseUint v) = size :=
    Response.asI32_of_denotes hv (Int.natCast_nonneg size) (by exact_mod_cast hsize)
  rw [parseVal, parseTag_of_ber_nil hw hlt, ← hread]
  rfl

namespace SearchResultEntry

variable {e : SearchResultEntry}

theorem parts_cons (dn : String) (a : PartialAttribute) (attributes : List PartialAttribute)
    (d : String) :
    parts ⟨dn, a :: attributes⟩ d =
      (if a.type = d then [a.vals] else []) ++ parts ⟨dn, attributes⟩ d := by
  by_cases hname : a.type = d <;> simp [parts, hname]

/-- An attribute whose name occurs once has one part. -/
theorem parts_of_nodup (h : e.names.Nodup) {a : PartialAttribute} (ha : a ∈ e.attributes) :
    e.parts a.type = [a.vals] := by
  rcases e with ⟨dn, attributes⟩
  induction attributes with
  | nil => exact absurd ha List.not_mem_nil
  | cons b attributes ih =>
    obtain ⟨hb, hnodup⟩ := List.nodup_cons.1 h
    rw [parts_cons]
    rcases List.mem_cons.1 ha with rfl | ha
    · rw [if_pos rfl, parts_eq_nil_iff.2 hb]
      rfl
    · have hne : b.type ≠ a.type := fun heq ↦ hb (heq ▸ List.mem_map_of_mem ha)
      rw [if_neg hne]
      exact ih hnodup ha

theorem holds_attrVals (h : e.names.Nodup) :
    (⟨e.attrVals.attrVals, e.attrVals.binAttrVals⟩ : ReadEntryResp).Holds e where
  text a ha htext := by
    have hall : ∀ vals ∈ [a.vals], ¬Binary vals := by simpa using htext
    refine ⟨(binAttrs_run e a.type).trans ?_, texts a.vals, (attrs_run e a.type).trans ?_,
      map_texts htext⟩
    · rw [parts_of_nodup h ha]
      exact binaryVals_eq_none_iff.2 hall
    · rw [parts_of_nodup h ha]
      exact textVals_of_forall (List.cons_ne_nil _ _) hall
  binary a ha hbinary := by
    have hall : ∀ vals ∈ [a.vals], Binary vals := by simpa using hbinary
    refine ⟨(attrs_run e a.type).trans ?_, stored a.vals, (binAttrs_run e a.type).trans ?_,
      stored_perm a.vals⟩
    · rw [parts_of_nodup h ha]
      exact textVals_eq_none_iff.2 hall
    · rw [parts_of_nodup h ha, binaryVals_of_forall (List.cons_ne_nil _ _) hall,
        List.flatMap_singleton]
  no_others d hd := by
    have hnil := parts_eq_nil_iff.2 hd
    have hattrs := attrs_run e d
    have hbin := binAttrs_run e d
    rw [hnil] at hattrs hbin
    exact ⟨hattrs, hbin⟩

end SearchResultEntry

namespace ResponseValue

variable {x : ResponseValue} {c : ResponseControl}

theorem lookup_oid (x : ResponseValue) : CONTROLS.lookup x.oid = some x.controlType := by
  cases x <;> rfl

/-- A parser that succeeds on the value succeeds on the control. -/
theorem parse_of_val {T : Type} [ControlParser T] {w : List UInt8} {a : T} (hval : c.val = some w)
    (h : ControlParser.parse w = .ok a) : c.control.raw.parse = .ok a := by
  have hraw : c.control.raw.val = some w := hval
  rw [RawControl.parse, hraw]
  exact h

theorem Says.parse_pagedResults {size : ℕ} {cookie : List UInt8} {hsize : size < 2 ^ 31}
    (h : (pagedResults size cookie hsize).Says c) (hlt : ∀ w ∈ c.val, w.length < 2 ^ 64) :
    c.control.raw.parse = .ok (⟨size, cookie⟩ : Controls.PagedResults) := by
  obtain ⟨-, w, t, hval, hw, v, hv, rfl⟩ := h
  exact parse_of_val hval (Controls.PagedResults.parseVal_of_denotes hv hsize hw (hlt w hval))

/-- **A control is parsed as what it says.** -/
theorem Says.parsed (h : x.Says c) (hlt : ∀ w ∈ c.val, w.length < 2 ^ 64) :
    c.control.knownType = some x.controlType ∧
      ∃ p, c.control.parsed = some (.ok p) ∧ x.Agrees p := by
  have hknown : c.control.knownType = some x.controlType := by
    rw [← x.lookup_oid, ← h.1]
    rfl
  refine ⟨hknown, ?_⟩
  rw [Control.parsed, hknown]
  obtain ⟨-, w, t, hval, hw, ht⟩ := id h
  have hlt' : w.length < 2 ^ 64 := hlt w hval
  cases x with
  | pagedResults size cookie hsize =>
    exact ⟨_, congrArg some (congrArg _ (h.parse_pagedResults hlt)), rfl⟩
  | preRead e hnodup =>
    obtain rfl : t = e.tag := ht
    have hparse := e.readEntry_parse_of_ber hw hlt'
    exact ⟨_, congrArg some (congrArg _ (parse_of_val hval hparse)), e.holds_attrVals hnodup⟩
  | postRead e hnodup =>
    obtain rfl : t = e.tag := ht
    have hparse := e.readEntry_parse_of_ber hw hlt'
    exact ⟨_, congrArg some (congrArg _ (parse_of_val hval hparse)), e.holds_attrVals hnodup⟩
  | syncState s =>
    exact ⟨_, congrArg some (congrArg _ (parse_of_val hval (SyncState.parse_of_isTag ht hw hlt'))),
      rfl⟩
  | syncDone d =>
    exact ⟨_, congrArg some (congrArg _ (parse_of_val hval (SyncDone.parse_of_isTag ht hw hlt'))),
      rfl⟩

end ResponseValue

/-! ### The controls of a message -/

theorem inside_responseControl {c : ResponseControl} {w : List UInt8} (hval : c.val = some w) :
    Inside w c.tag := by
  rw [ResponseControl.tag, hval]
  exact .child _ _ (List.mem_cons_of_mem _ (List.mem_append_right _ List.mem_cons_self))
    (.here .universal Types.octetString)

/-- The value of a control fits the address space with its message. -/
theorem ServerMessage.length_val_lt (m : ServerMessage) {cs : List ResponseControl}
    (hcs : m.controls = some cs) {c : ResponseControl} (hc : c ∈ cs) :
    ∀ w ∈ c.val, w.length < 2 ^ 64 := by
  intro w hw
  have hinside : Inside w (serverEnvelope m.idOctets m.op m.controls) := by
    rw [serverEnvelope, hcs]
    refine .child _ _ (List.mem_cons_of_mem _ (List.mem_cons_of_mem _ List.mem_cons_self)) ?_
    exact .child _ _ (List.mem_map_of_mem hc) (inside_responseControl hw)
  exact Nat.lt_of_le_of_lt ((hinside.length_le m.ber).trans m.fits) (by decide)

/-- **Response controls come back as the server sent them.** A message with controls is decoded with
each of them at its place. If a control says something the crate has a parser for, it has the type
for it, and is parsed as what it says. The controls are those of the result, if the message is
one. -/
theorem responseControls_read (m : ServerMessage) {cs : List ResponseControl}
    (hcs : m.controls = some cs) (rest : List UInt8) :
    ∃ ctrls, decodeInner (m.octets ++ rest) =
        (.ok (some (m.id, .structureTag m.op, ctrls)), rest) ∧
      List.Forall₂ (fun c ctrl ↦ ctrl.raw = ⟨c.ctype, c.crit.getD 0 ≠ 0, c.val⟩ ∧
        ∀ x : ResponseValue, x.Says c → ctrl.knownType = some x.controlType ∧
          ∃ p, ctrl.parsed = some (.ok p) ∧ x.Agrees p) cs ctrls ∧
      ∀ (r : Response) (rc : List UInt8), Response.Denotes rc r.rc → m.op = r.opTag rc →
        opResult (.structureTag m.op, ctrls) = .ok (r.result ctrls) := by
  refine ⟨cs.map ResponseControl.control, ?_, ?_, ?_⟩
  · rw [m.decodeInner_octets, ServerMessage.decoded, hcs]
    rfl
  · rw [List.forall₂_map_right_iff, List.forall₂_same]
    exact fun c hc ↦ ⟨rfl, fun x hx ↦ hx.parsed (m.length_val_lt hcs hc)⟩
  · intro r rc hrc hop
    rw [hop]
    exact r.opResult_opTag hrc _

/-- The entry after a Modify. -/
def modifiedEntry : SearchResultEntry :=
  ⟨"cn=a", [⟨"mail", [[0x61]]⟩]⟩

def modifyControls : List ResponseControl :=
  [⟨"1.3.6.1.1.13.2", none, some (encodeInto modifiedEntry.tag)⟩]

/-- Its result. -/
def modifyResult : Response :=
  { Response.bindResponse with op := 7 }

theorem ber_modifiedEntry : Ber modifiedEntry.tag (encodeInto modifiedEntry.tag) := by
  refine ber_encodeInner ?_ (by decide +kernel)
  simp [modifiedEntry, SearchResultEntry.tag, PartialAttribute.tag, octetStringTag,
    StructureTag.IdsLe, Types.sequence, Types.set, Types.octetString]

theorem ber_modifyResult : Ber (serverEnvelope [1] (modifyResult.opTag [0]) (some modifyControls))
    (encodeInto (serverEnvelope [1] (modifyResult.opTag [0]) (some modifyControls))) := by
  refine ber_encodeInner ?_ (by decide +kernel)
  simp [serverEnvelope, modifyResult, modifyControls, ResponseControl.tag, Response.bindResponse,
    Response.opTag, Response.components, StructureTag.IdsLe, Types.sequence, Types.integer,
    Types.enumerated, Types.octetString]

def modifyMessage : ServerMessage where
  id := 1
  op := modifyResult.opTag [0]
  controls := some modifyControls
  idOctets := [1]
  octets := encodeInto (serverEnvelope [1] (modifyResult.opTag [0]) (some modifyControls))
  id_range := firstId_range
  denotes := denotes_firstId
  op_cls := rfl
  ber := ber_modifyResult
  fits := by decide +kernel

theorem responseControls_read_modify :
    ∃ ctrl re, decodeInner modifyMessage.octets =
        (.ok (some (1, .structureTag modifyMessage.op, [ctrl])), []) ∧
      ctrl.parsed = some (.ok (.postReadResp re)) ∧ re.Holds modifiedEntry := by
  obtain ⟨ctrls, hdec, hall, -⟩ := responseControls_read modifyMessage rfl []
  obtain ⟨ctrl, ctrls', ⟨-, hread⟩, hrest, rfl⟩ := List.forall₂_cons_left_iff.1 hall
  obtain rfl := List.forall₂_nil_left_iff.1 hrest
  have hnodup : modifiedEntry.names.Nodup := List.nodup_singleton "mail"
  obtain ⟨-, p, hp, hagrees⟩ := hread (.postRead modifiedEntry hnodup)
    ⟨rfl, _, _, rfl, ber_modifiedEntry, rfl⟩
  rw [List.append_nil] at hdec
  cases p with
  | postReadResp re => exact ⟨ctrl, re, hdec, hp, hagrees⟩
  | _ => exact hagrees.elim

end Ldap3
