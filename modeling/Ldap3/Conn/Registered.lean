import Ldap3.Conn.Client
import Ldap3.Conn.Requests

/-!
# Registered slots and the ids in use

Whether an id with a response slot in one of the driver's maps is in use, so that `next_msgid`
does not give it out a second time.

An id is in use from its allocation; its slot is registered only later, when the driver takes the
operation. In between the operation is *pending*. The ids of pending operations and of registered
slots are all in use as long as nothing releases a pending operation's id: `Slots` is that
invariant. A scrub travels on a channel of its own, so it can overtake the operation it was sent
for, and the driver then registers a slot with an id that was released. `InOrder` is the condition
that this does not happen.
-/

namespace Ldap3

/-- Taking an id out of a map leaves the other keys. -/
theorem update_none {m : RequestId → Option ℕ} {id id' : RequestId} {o : ℕ}
    (h : Function.update m id none id' = some o) : id' ≠ id ∧ m id' = some o := by
  rw [Function.update_apply] at h
  split at h
  · cases h
  · rename_i hne
    exact ⟨hne, h⟩

theorem update_none_ne_none {m : RequestId → Option ℕ} {id id' : RequestId}
    (h : Function.update m id none id' ≠ none) : id' ≠ id ∧ m id' ≠ none := by
  obtain ⟨o, ho⟩ := Option.ne_none_iff_exists'.1 h
  obtain ⟨hne, hsome⟩ := update_none ho
  exact ⟨hne, by rw [hsome]; simp⟩

namespace Conn

/-! ### Pending operations and registered slots -/

/-- An operation that will have a slot is on its way to the driver. -/
def Pending (c : Conn) (o : ℕ) : Prop :=
  o < c.numOps ∧ (c.ops o).phase ≠ .taken ∧ ((c.ops o).op = .single ∨ (c.ops o).op = .search)

instance (c : Conn) (o : ℕ) : Decidable (c.Pending o) :=
  inferInstanceAs (Decidable (_ ∧ _))

/-- The id is a key of one of the driver's maps. -/
def Registered (c : Conn) (id : RequestId) : Prop :=
  c.resultmap id ≠ none ∨ c.searchmap id ≠ none

instance (c : Conn) (id : RequestId) : Decidable (c.Registered id) :=
  inferInstanceAs (Decidable (_ ∨ _))

/-- The removal of an id from the maps leaves the other ids. -/
theorem registered_unregister {c : Conn} {id id' : RequestId}
    (h : (c.unregister id).Registered id') : id' ≠ id ∧ c.Registered id' := by
  rcases h with h | h
  · exact ⟨(update_none_ne_none h).1, Or.inl (update_none_ne_none h).2⟩
  · exact ⟨(update_none_ne_none h).1, Or.inr (update_none_ne_none h).2⟩

/-- The id is neither of a pending operation nor registered, except for the id that is about to be
taken out of the maps. -/
def Releasable (c : Conn) (id removed : RequestId) : Prop :=
  (∀ o < c.numOps, c.Pending o → (c.ops o).id ≠ id) ∧ (id ≠ removed → ¬c.Registered id)

instance (c : Conn) (id removed : RequestId) : Decidable (c.Releasable id removed) :=
  inferInstanceAs (Decidable (_ ∧ _))

/-- The id that a turn of the driver releases though nobody answered it, and the id it takes out of
the maps. -/
def releases (c : Conn) : Act → Option (RequestId × RequestId)
  | .turnScrub => c.idScrubRx.head?.map fun id ↦ (id, id)
  | .turnOp true => do
    let o ← c.rx.head?
    match (c.ops o).op with
    | .abandon msgid => some ((c.ops o).id, msgid)
    | _ => none
  | _ => none

/-- **The condition on a turn of the driver**: what it releases is not the id of a pending
operation, and an Abandon does not release the id of a registered slot. -/
def InOrder (c : Conn) (a : Act) : Prop :=
  ∀ r ∈ c.releases a, c.Releasable r.1 r.2

instance (c : Conn) (a : Act) : Decidable (c.InOrder a) :=
  inferInstanceAs (Decidable (∀ r ∈ c.releases a, c.Releasable r.1 r.2))

end Conn

/-- The ids of pending operations and of registered slots are in use, and no two of these have the
same id. -/
structure Slots (c : Conn) : Prop where
  rx_queued : ∀ o ∈ c.rx, o < c.numOps ∧ (c.ops o).phase = .queued
  rx_nodup : c.rx.Nodup
  pending_mem : ∀ o, c.Pending o → (c.ops o).id ∈ c.msgmap.inUse
  pending_inj : ∀ o o', c.Pending o → c.Pending o' → (c.ops o).id = (c.ops o').id → o = o'
  pending_free : ∀ o, c.Pending o → ¬c.Registered (c.ops o).id
  registered_mem : ∀ id, c.Registered id → id ∈ c.msgmap.inUse

namespace Slots

variable {c c' : Conn}

theorem init : Slots Conn.init where
  rx_queued _ ho := absurd ho List.not_mem_nil
  rx_nodup := List.nodup_nil
  pending_mem _ ho := absurd ho.1 (Nat.not_lt_zero _)
  pending_inj _ _ ho := absurd ho.1 (Nat.not_lt_zero _)
  pending_free _ ho := absurd ho.1 (Nat.not_lt_zero _)
  registered_mem _ hid := hid.elim (absurd rfl) (absurd rfl)

/-- What makes no operation pending and no id registered keeps the invariant, unless it releases
the id of one that stays so. -/
theorem frame (h : Slots c)
    (hrx : ∀ o ∈ c'.rx, o < c'.numOps ∧ (c'.ops o).phase = .queued) (hnodup : c'.rx.Nodup)
    (hpending : ∀ o, c'.Pending o → c.Pending o ∧ (c'.ops o).id = (c.ops o).id)
    (hregistered : ∀ id, c'.Registered id → c.Registered id)
    (hinUse : ∀ id ∈ c.msgmap.inUse,
      (∃ o, c'.Pending o ∧ (c'.ops o).id = id) ∨ c'.Registered id → id ∈ c'.msgmap.inUse) :
    Slots c' where
  rx_queued := hrx
  rx_nodup := hnodup
  pending_mem o ho := by
    obtain ⟨hp, hid⟩ := hpending o ho
    exact hinUse _ (hid ▸ h.pending_mem o hp) (Or.inl ⟨o, ho, rfl⟩)
  pending_inj o o' ho ho' heq := by
    obtain ⟨hp, hid⟩ := hpending o ho
    obtain ⟨hp', hid'⟩ := hpending o' ho'
    exact h.pending_inj o o' hp hp' (hid ▸ hid' ▸ heq)
  pending_free o ho hreg := by
    obtain ⟨hp, hid⟩ := hpending o ho
    exact h.pending_free o hp (hid ▸ hregistered _ hreg)
  registered_mem id hid := hinUse id (h.registered_mem id (hregistered id hid)) (Or.inr hid)

/-- Pending operations stay as they are if requests do. -/
theorem pending_congr {o : ℕ} (hnum : c'.numOps = c.numOps)
    (hop : (c'.ops o).id = (c.ops o).id ∧ (c'.ops o).op = (c.ops o).op ∧
      (c'.ops o).phase = (c.ops o).phase) (ho : c'.Pending o) :
    c.Pending o ∧ (c'.ops o).id = (c.ops o).id := by
  obtain ⟨hid, hop, hphase⟩ := hop
  rw [Conn.Pending, hnum, hop, hphase] at ho
  exact ⟨ho, hid⟩

/-- What touches neither the queue nor the requests. -/
theorem frame_ops (h : Slots c) (hnum : c'.numOps = c.numOps) (hrx : c'.rx.Sublist c.rx)
    (hop : ∀ o, (c'.ops o).id = (c.ops o).id ∧ (c'.ops o).op = (c.ops o).op ∧
      (c'.ops o).phase = (c.ops o).phase)
    (hregistered : ∀ id, c'.Registered id → c.Registered id)
    (hinUse : ∀ id ∈ c.msgmap.inUse,
      (∃ o, c.Pending o ∧ (c.ops o).id = id) ∨ c'.Registered id → id ∈ c'.msgmap.inUse) :
    Slots c' := by
  refine h.frame ?_ (h.rx_nodup.sublist hrx) (fun o ↦ pending_congr hnum (hop o)) hregistered ?_
  · intro o ho
    rw [hnum, (hop o).2.2]
    exact h.rx_queued o (hrx.subset ho)
  · rintro id hid (⟨o, ho, rfl⟩ | hreg)
    · obtain ⟨hp, hid'⟩ := pending_congr hnum (hop o) ho
      exact hinUse _ hid (Or.inl ⟨o, hp, hid'.symm⟩)
    · exact hinUse id hid (Or.inr hreg)

/-! ### Actions of the handles -/

/-- The new id is in use, and was not a key of the maps before. -/
theorem alloc (h : Slots c) {op : LdapOp} {req : Tag} {controls : Option (List RawControl)}
    (hs : c.alloc op req controls = some c') : Slots c' := by
  obtain ⟨id, hfree, rfl⟩ := Conn.alloc_spec hs
  set c' : Conn := { c with
    msgmap := ⟨⟨id, insert id c.msgmap.inUse⟩, false⟩
    numOps := c.numOps + 1
    ops := Function.update c.ops c.numOps (.new id op req controls) }
  have hnew : c'.ops c.numOps = .new id op req controls := Function.update_self ..
  have hold : ∀ o < c.numOps, c'.ops o = c.ops o := fun o ho ↦
    Function.update_of_ne (ne_of_lt ho) ..
  -- A pending operation is an old one with an id in use, or the new one with a free id.
  have hcases : ∀ o, c'.Pending o →
      (c.Pending o ∧ c'.ops o = c.ops o) ∨ (o = c.numOps ∧ (c'.ops o).id = id) := by
    intro o ho
    rcases Nat.lt_succ_iff_lt_or_eq.1 ho.1 with hlt | rfl
    · refine Or.inl ⟨⟨hlt, ?_⟩, hold o hlt⟩
      rw [← hold o hlt]
      exact ho.2
    · exact Or.inr ⟨rfl, by rw [hnew]; rfl⟩
  constructor
  · intro o ho
    obtain ⟨hlt, hphase⟩ := h.rx_queued o ho
    exact ⟨Nat.lt_succ_of_lt hlt, hold o hlt ▸ hphase⟩
  · exact h.rx_nodup
  · intro o ho
    rcases hcases o ho with ⟨hp, heq⟩ | ⟨-, heq⟩
    · rw [heq]
      exact Finset.mem_insert_of_mem (h.pending_mem o hp)
    · rw [heq]
      exact Finset.mem_insert_self ..
  · intro o o' ho ho' hid
    rcases hcases o ho with ⟨hp, heq⟩ | ⟨rfl, heq⟩ <;>
      rcases hcases o' ho' with ⟨hp', heq'⟩ | ⟨rfl, heq'⟩
    · rw [heq, heq'] at hid
      exact h.pending_inj o o' hp hp' hid
    · rw [heq, heq'] at hid
      exact absurd (hid ▸ h.pending_mem o hp) hfree
    · rw [heq, heq'] at hid
      exact absurd (hid ▸ h.pending_mem o' hp') hfree
    · rfl
  · intro o ho hreg
    rcases hcases o ho with ⟨hp, heq⟩ | ⟨-, heq⟩
    · rw [heq] at hreg
      exact h.pending_free o hp hreg
    · rw [heq] at hreg
      exact hfree (h.registered_mem id hreg)
  · intro id' hreg
    exact Finset.mem_insert_of_mem (h.registered_mem id' hreg)

/-- Queueing changes only the phase. -/
theorem enqueue (h : Slots c) {o : ℕ} (ho : o < c.numOps)
    (hphase : (c.ops o).phase = .allocated) :
    Slots { c.setOp o fun op ↦ { op with phase := .queued } with rx := c.rx ++ [o] } := by
  set c' : Conn := { c.setOp o fun op ↦ { op with phase := .queued } with rx := c.rx ++ [o] }
  have hself : c'.ops o = { c.ops o with phase := .queued } := Function.update_self ..
  have hother : ∀ o' ≠ o, c'.ops o' = c.ops o' := fun o' hne ↦ Function.update_of_ne hne _ _
  have hne : ∀ o' ∈ c.rx, o' ≠ o := by
    rintro o' ho' rfl
    simp [(h.rx_queued o' ho').2] at hphase
  have hpending : ∀ o', c'.Pending o' → c.Pending o' ∧ (c'.ops o').id = (c.ops o').id := by
    intro o' ho'
    by_cases heq : o' = o
    · subst heq
      obtain ⟨hlt, -, hop⟩ := ho'
      rw [hself] at hop ⊢
      exact ⟨⟨hlt, by simp [hphase], hop⟩, rfl⟩
    · rw [Conn.Pending, hother o' heq] at ho'
      exact ⟨ho', by rw [hother o' heq]⟩
  refine h.frame ?_ ?_ hpending (fun _ h ↦ h) fun _ hid _ ↦ hid
  · intro o' ho'
    rcases List.mem_append.1 ho' with ho' | ho'
    · rw [hother o' (hne o' ho')]
      exact h.rx_queued o' ho'
    · obtain rfl := List.mem_singleton.1 ho'
      rw [hself]
      exact ⟨ho, rfl⟩
  · refine List.nodup_append.2 ⟨h.rx_nodup, List.nodup_singleton o, ?_⟩
    rintro o' ho' o'' ho'' rfl
    exact hne o' ho' (List.mem_singleton.1 ho'')

theorem dropReply (h : Slots c) (o : ℕ) : Slots (c.dropReply o) :=
  h.frame_ops rfl (List.Sublist.refl _)
    (c.setOp_request o (f := fun op ↦ { op with replyOpen := false }) ⟨rfl, rfl, rfl⟩)
    (fun _ h ↦ h) fun _ hid _ ↦ hid

theorem dropItems (h : Slots c) (o : ℕ) : Slots (c.dropItems o) :=
  h.frame_ops rfl (List.Sublist.refl _)
    (c.setOp_request o (f := fun op ↦ { op with itemsOpen := false }) ⟨rfl, rfl, rfl⟩)
    (fun _ h ↦ h) fun _ hid _ ↦ hid

theorem sendScrub (h : Slots c) (id : RequestId) :
    Slots { c with idScrubRx := c.idScrubRx ++ [id] } :=
  h.frame_ops rfl (List.Sublist.refl _) (fun _ ↦ ⟨rfl, rfl, rfl⟩) (fun _ h ↦ h) fun _ hid _ ↦ hid

/-- A call that gets no id changes nothing that counts here. -/
theorem noId (h : Slots c) : Slots { c with msgmap := ⟨c.msgmap.map, true⟩ } :=
  h.frame_ops rfl (List.Sublist.refl _) (fun _ ↦ ⟨rfl, rfl, rfl⟩) (fun _ h ↦ h) fun _ hid _ ↦ hid

/-! ### Turns of the driver -/

/-- A scrub that is in order releases an id without an operation on its way. -/
theorem turnScrub (h : Slots c) (hgood : c.InOrder .turnScrub) {reqId : RequestId}
    {ids : List RequestId} (hids : c.idScrubRx = reqId :: ids) :
    Slots ((({ c with idScrubRx := ids }.unregister reqId).erase reqId).record
      (.scrubbed reqId)) := by
  obtain ⟨hpending, -⟩ := hgood (reqId, reqId) (by rw [Conn.releases, hids]; rfl)
  refine h.frame_ops rfl (List.Sublist.refl _) (fun _ ↦ ⟨rfl, rfl, rfl⟩)
    (fun id hreg ↦ (Conn.registered_unregister (c := { c with idScrubRx := ids }) hreg).2) ?_
  rintro id hid (⟨o, ho, rfl⟩ | hreg)
  · exact Finset.mem_erase.2 ⟨hpending o ho.1 ho, hid⟩
  · exact Finset.mem_erase.2
      ⟨(Conn.registered_unregister (c := { c with idScrubRx := ids }) hreg).1, hid⟩

theorem stop (h : Slots c) (why : Status) : Slots (c.stop why) := by
  refine h.frame_ops rfl (List.nil_sublist _) (fun _ ↦ ⟨rfl, rfl, rfl⟩) ?_ fun _ hid _ ↦ hid
  rintro id (hreg | hreg) <;> exact absurd rfl hreg

theorem record (h : Slots c) (e : Event) : Slots (c.record e) :=
  h.frame_ops rfl (List.Sublist.refl _) (fun _ ↦ ⟨rfl, rfl, rfl⟩) (fun _ h ↦ h) fun _ hid _ ↦ hid

theorem sendReply (h : Slots c) (o : ℕ) (r : Tag × List Control) : Slots (c.sendReply o r) := by
  refine h.frame_ops rfl (List.Sublist.refl _) (c.setOp_request o ?_) (fun _ h ↦ h)
    fun _ hid _ ↦ hid
  split <;> exact ⟨rfl, rfl, rfl⟩

/-- An operation that was taken is not pending any more. -/
theorem take (h : Slots c) {o : ℕ} {rx : List ℕ} (hrx : c.rx = o :: rx) :
    Slots (c.take o rx) ∧ ∀ o', (c.take o rx).Pending o' → o' ≠ o ∧ c.Pending o' := by
  set c' : Conn := c.take o rx
  have hself : c'.ops o = { c.ops o with phase := .taken } := c.take_ops_self o rx
  have hother : ∀ o' ≠ o, c'.ops o' = c.ops o' := fun o' hne ↦ c.take_ops_of_ne rx hne
  have hnodup : o ∉ rx ∧ rx.Nodup := List.nodup_cons.1 (hrx ▸ h.rx_nodup)
  have hpending : ∀ o', c'.Pending o' → o' ≠ o ∧ c.Pending o' := by
    intro o' ho'
    have hne : o' ≠ o := by
      rintro rfl
      exact ho'.2.1 (by rw [hself])
    rw [Conn.Pending, hother o' hne] at ho'
    exact ⟨hne, ho'⟩
  refine ⟨h.frame ?_ hnodup.2 ?_ (fun _ h ↦ h) fun _ hid _ ↦ hid, hpending⟩
  · intro o' ho'
    have hne : o' ≠ o := fun heq ↦ hnodup.1 (heq ▸ ho')
    rw [hother o' hne]
    exact h.rx_queued o' (hrx ▸ List.mem_cons_of_mem _ ho')
  · intro o' ho'
    obtain ⟨hne, hp⟩ := hpending o' ho'
    exact ⟨hp, by rw [hother o' hne]⟩

/-- A slot is registered. -/
theorem register (h : Slots c) {id : RequestId} (hid : id ∈ c.msgmap.inUse)
    (hfree : ∀ o, c.Pending o → (c.ops o).id ≠ id) (hmsgmap : c'.msgmap = c.msgmap)
    (hnum : c'.numOps = c.numOps) (hops : c'.ops = c.ops) (hrx : c'.rx = c.rx)
    (hregistered : ∀ id', c'.Registered id' → id' = id ∨ c.Registered id') : Slots c' := by
  have hpending : ∀ o, c'.Pending o → c.Pending o := by
    intro o ho
    rwa [Conn.Pending, hnum, hops] at ho
  constructor
  · rw [hrx, hnum, hops]
    exact h.rx_queued
  · rw [hrx]
    exact h.rx_nodup
  · intro o ho
    rw [hops, hmsgmap]
    exact h.pending_mem o (hpending o ho)
  · intro o o' ho ho' heq
    rw [hops] at heq
    exact h.pending_inj o o' (hpending o ho) (hpending o' ho') heq
  · intro o ho hreg
    rw [hops] at hreg
    rcases hregistered _ hreg with heq | hreg
    · exact hfree o (hpending o ho) heq
    · exact h.pending_free o (hpending o ho) hreg
  · intro id' hreg
    rw [hmsgmap]
    rcases hregistered id' hreg with rfl | hreg
    · exact hid
    · exact h.registered_mem id' hreg

/-- **An operation that is taken** is registered under an id in use, and an Abandon that is in order
leaves the other slots theirs. -/
theorem turnOp (h : Slots c) {written : Bool} (hgood : c.InOrder (.turnOp written))
    (hs : c.turnOp written = some c') : Slots c' := by
  obtain ⟨o, rx, hrx, hturn⟩ := Conn.turnOp_cases hs
  obtain ⟨ho, hqueued⟩ := h.rx_queued o (hrx ▸ List.mem_cons_self)
  obtain ⟨htake, hpending⟩ := h.take hrx
  set c₁ : Conn := c.take o rx
  have hids : ∀ o', o' ≠ o → (c₁.ops o').id = (c.ops o').id := fun o' hne ↦ by
    rw [show c₁.ops o' = c.ops o' from c.take_ops_of_ne rx hne]
  -- The operation was pending, so its id is in use and nobody else's.
  have hfree : (c.ops o).op = .single ∨ (c.ops o).op = .search →
      (c.ops o).id ∈ c₁.msgmap.inUse ∧ ∀ o', c₁.Pending o' → (c₁.ops o').id ≠ (c.ops o).id := by
    intro hop
    have hp : c.Pending o := ⟨ho, by simp [hqueued], hop⟩
    refine ⟨h.pending_mem o hp, fun o' ho' hid ↦ ?_⟩
    obtain ⟨hne, hp'⟩ := hpending o' ho'
    rw [hids o' hne] at hid
    exact hne (h.pending_inj o' o hp' hp hid)
  have hinsert : ∀ (m : RequestId → Option ℕ) id', Function.update m (c.ops o).id (some o) id' ≠
      none → id' = (c.ops o).id ∨ m id' ≠ none := by
    intro m id' hne
    rw [Function.update_apply] at hne
    split at hne
    · exact Or.inl ‹_›
    · exact Or.inr hne
  cases hturn with
  | lost => exact htake.stop _
  | single hop =>
    obtain ⟨hmem, hfree⟩ := hfree (Or.inl hop)
    refine htake.register hmem hfree rfl rfl rfl rfl ?_
    rintro id' (hreg | hreg)
    · rcases hinsert _ _ hreg with heq | hreg
      · exact Or.inl heq
      · exact Or.inr (Or.inl hreg)
    · exact Or.inr (Or.inr hreg)
  | search hop =>
    obtain ⟨hmem, hfree⟩ := hfree (Or.inr hop)
    refine sendReply ?_ o _
    refine htake.register hmem hfree rfl rfl rfl rfl ?_
    rintro id' (hreg | hreg)
    · exact Or.inr (Or.inl hreg)
    · rcases hinsert _ _ hreg with heq | hreg
      · exact Or.inl heq
      · exact Or.inr (Or.inr hreg)
  | @abandon msgid hop =>
    have hrel : c.Releasable (c.ops o).id msgid := by
      refine hgood ((c.ops o).id, msgid) ?_
      simp [Conn.releases, hrx, hop]
    refine sendReply ?_ o _
    have hunreg : ∀ id', (c₁.unregister msgid).Registered id' → id' ≠ msgid ∧ c.Registered id' :=
      fun id' hreg ↦ Conn.registered_unregister hreg
    refine htake.frame_ops rfl (List.Sublist.refl _) (fun _ ↦ ⟨rfl, rfl, rfl⟩)
      (fun id' hreg ↦ (hunreg id' hreg).2) ?_
    rintro id' hid' (⟨o', ho', rfl⟩ | hreg)
    · obtain ⟨hne, hp'⟩ := hpending o' ho'
      refine Finset.mem_erase.2 ⟨?_, hid'⟩
      rw [hids o' hne]
      exact hrel.1 o' hp'.1 hp'
    · obtain ⟨hne, hreg⟩ := hunreg id' hreg
      refine Finset.mem_erase.2 ⟨?_, hid'⟩
      rintro rfl
      exact hrel.2 hne hreg
  | abandonPoisoned => exact (htake.record _).stop _
  | unbind =>
    refine sendReply ?_ o _
    exact htake.frame_ops rfl (List.Sublist.refl _) (fun _ ↦ ⟨rfl, rfl, rfl⟩) (fun _ h ↦ h)
      fun _ hid _ ↦ hid

/-- A final message removes the id from the set together with the slot. -/
theorem turnResp (h : Slots c) (id : RequestId) (tag : Tag) (controls : List Control) :
    Slots (c.turnResp id tag controls) := by
  generalize hs : c.turnResp id tag controls = c'
  cases Conn.turnResp_cases hs with
  | @item o item remove hslot hitem =>
    rw [Conn.sendItem_eq]
    refine h.frame_ops rfl (List.Sublist.refl _) (c.setOp_request o ?_) ?_
      fun _ hid _ ↦ hid
    · split <;> exact ⟨rfl, rfl, rfl⟩
    · rintro id' (hreg | hreg)
      · exact Or.inl hreg
      · refine Or.inr ?_
        simp only [Conn.record] at hreg
        split at hreg
        · exact (update_none_ne_none hreg).2
        · exact hreg
  | panicked | failed => exact h.stop _
  | @result o hsearch hslot =>
    have hid : c.Registered id := Or.inl (by rw [hslot]; simp)
    refine h.frame_ops rfl (List.Sublist.refl _) (c.setOp_request o ?_) ?_ ?_
    · split <;> exact ⟨rfl, rfl, rfl⟩
    · rintro id' (hreg | hreg)
      · exact Or.inl (update_none_ne_none hreg).2
      · exact Or.inr hreg
    · rintro id' hid' (⟨o', ho', rfl⟩ | hreg)
      · exact Finset.mem_erase.2 ⟨fun heq ↦ h.pending_free o' ho' (heq ▸ hid), hid'⟩
      · refine Finset.mem_erase.2 ⟨?_, hid'⟩
        rintro rfl
        rcases hreg with hreg | hreg
        · exact (update_none_ne_none hreg).1 rfl
        · exact hreg hsearch
  | @resultPoisoned o =>
    -- The loop ends, and no slot is left.
    refine h.frame_ops rfl (List.nil_sublist _) (c.setOp_request o ?_) ?_ fun _ hid _ ↦ hid
    · split <;> exact ⟨rfl, rfl, rfl⟩
    · rintro id' (hreg | hreg) <;> exact absurd rfl hreg
  | unregistered =>
    exact h.frame_ops rfl (List.Sublist.refl _) (fun _ ↦ ⟨rfl, rfl, rfl⟩) (fun _ h ↦ h)
      fun _ hid _ ↦ hid

/-- One step keeps the invariant, if it meets the condition. -/
theorem step (h : Slots c) {a : Conn.Act} (hgood : c.InOrder a) (hs : c.step a = some c') :
    Slots c' := by
  cases Conn.step_cases hs with
  | alloc hs => exact h.alloc hs
  | noId => exact h.noId
  | enqueue ho hphase => exact h.enqueue ho hphase
  | dropReply => exact h.dropReply _
  | dropItems => exact h.dropItems _
  | sendScrub => exact h.sendScrub _
  | loseScrub => exact h
  | turnScrub hids => exact h.turnScrub hgood hids
  | scrubPoisoned => exact h.stop _
  | turnOp hs => exact h.turnOp hgood hs
  | turnResp => exact h.turnResp _ _ _
  | stop => exact h.stop _

end Slots

/-! ### Runs -/

/-- Every turn of the driver meets the condition. -/
def World.InOrder (w : World) (m : Move) : Prop :=
  ∀ a ∈ m.turn?, w.core.InOrder a

instance (w : World) (m : Move) : Decidable (w.InOrder m) :=
  inferInstanceAs (Decidable (∀ a ∈ m.turn?, w.core.InOrder a))

/-- **No registered slot has a released id**, in any run in which a scrub does not overtake the
operation it was sent for and an Abandon does not release somebody else's id. So `next_msgid` does
not give out the id of a registered slot. -/
theorem inUse_of_registered {w : World}
    (h : Machine.Reach World.step World.InOrder World.init w) :
    (∀ id, w.core.Registered id → id ∈ w.core.msgmap.inUse) ∧
      ∀ id m, nextMsgid w.core.msgmap.map = some (.ok (id, m)) → ¬w.core.Registered id := by
  have hcore : Machine.Reach Conn.step Conn.InOrder Conn.init w.core := by
    refine h.map fun {s s' l} hgood hs ↦ World.reach_step ?_ hs ?_
    · intro c a ha
      cases a <;> first | rintro r ⟨⟩ | cases ha
    · rintro a rfl
      exact hgood a rfl
  have hslots : Slots w.core :=
    hcore.invariant Slots.init fun {s s' l} hinv hgood hs ↦ hinv.step hgood hs
  refine ⟨hslots.registered_mem, fun id m hnext hreg ↦ ?_⟩
  exact (nextMsgid_spec hnext).1 (hslots.registered_mem id hreg)

/-- A Search, an abandoned operation and a scrubbed one, and an operation after them. -/
def orderlyRun : List Move :=
  [.newStream 0 false, .alloc 0 .search .ofNull none, .send 0, .turn (.turnOp true),
    .receive 0, .alloc 1 .single .ofNull none, .send 1, .alloc 2 .single .ofNull none,
    .send 2, .turn (.turnOp true), .turn (.turnOp true), .timeout 2, .turn .turnScrub,
    .alloc 2 (.abandon 2) .ofNull none, .send 2, .turn (.turnOp true), .receive 2, .fail 1,
    .alloc 1 .single .ofNull none, .send 1, .turn (.turnOp true)]

/-- Three handles: a Search whose items come in, an operation whose response is abandoned by another
handle, and one that times out and is scrubbed in time. The Search and an operation made after all
this are registered, with ids in use. -/
theorem inUse_of_registered_three :
    ∃ w, Machine.run World.step World.InOrder World.init orderlyRun = some w ∧
      w.core.Registered 1 ∧ w.core.Registered 5 ∧ 1 ∈ w.core.msgmap.inUse ∧
      5 ∈ w.core.msgmap.inUse ∧ 3 ∉ w.core.msgmap.inUse := by
  have hsome : (Machine.run World.step World.InOrder World.init orderlyRun).map
      (fun w ↦ decide (w.core.Registered 1 ∧ w.core.Registered 5 ∧ 3 ∉ w.core.msgmap.inUse)) =
        some true := by
    decide +kernel
  obtain ⟨w, hw, hreg⟩ := Option.map_eq_some_iff.1 hsome
  obtain ⟨h1, h5, h3⟩ := of_decide_eq_true hreg
  have hinUse := (inUse_of_registered (Machine.reach_of_run hw)).1
  exact ⟨w, hw, h1, h5, hinUse 1 h1, hinUse 5 h5, h3⟩

/-- A scrub that overtakes its operation: the operation times out before the driver took it, the
driver takes the scrub first, and then registers the operation. -/
theorem scrub_overtakes :
    ∃ w, Machine.Reach World.step Machine.any World.init w ∧
      w.core.Registered 1 ∧ 1 ∉ w.core.msgmap.inUse := by
  have hsome : (Machine.run World.step Machine.any World.init
      [.alloc 0 .single .ofNull none, .send 0, .timeout 0, .turn .turnScrub,
        .turn (.turnOp true)]).map
      (fun w ↦ decide (w.core.Registered 1 ∧ 1 ∉ w.core.msgmap.inUse)) = some true := by
    decide +kernel
  obtain ⟨w, hw, hreg⟩ := Option.map_eq_some_iff.1 hsome
  exact ⟨w, Machine.reach_of_run hw, of_decide_eq_true hreg⟩

end Ldap3
