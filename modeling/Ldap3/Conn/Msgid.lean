import Ldap3.Conn.Requests
import Ldap3.Lib.Circle

/-!
# Message ids

`Ldap::next_msgid` over whole runs. The ids are the places of a circle, and the loop goes round it
from the id given out last, until it meets an id that is not in use or is back where it started.
At the very start the last id is `0`, which the loop never comes back to; it need not, since then no
id is in use. This and the range of the ids is the invariant `Msgmap.Valid`, which allocations and
releases in any order keep.

The map is behind a mutex, which a panic poisons. The loop panics only if all ids are in use, and
stays so: nothing is released any more, because the driver panics on the poisoned mutex too
(`nextMsgid_of_reach`).

The map of a connection is in such a state after every run of the driver (`Conn.reach_msgmap`).
-/

open Machine

namespace Ldap3

/-! ### The loop -/

/-- `id` is the first id on the circle after the last one that is not in use. -/
def Msgmap.FirstFree (m : Msgmap) (id : RequestId) : Prop :=
  Circle.FirstAfter i32Max (· ∉ m.inUse) m.last id

/-- `next_ldap_id += 1` in a build with overflow checks. -/
def checkedI32 (n : ℤ) : Except Fault RequestId :=
  if InI32 n then .ok n else .error (.panic "attempt to add with overflow")

/-- The loop of `next_msgid` with overflow checks. -/
def checkedMsgidLoop (m : Msgmap) : (fuel : ℕ) → RequestId → Option (Except Fault RequestId)
  | 0, _ => none
  | fuel + 1, nextLdapId =>
    match if nextLdapId = i32Max then .ok 1 else checkedI32 (nextLdapId + 1) with
    | .error e => some (.error e)
    | .ok nextLdapId =>
      if nextLdapId ∉ m.inUse then
        some (.ok nextLdapId)
      else if nextLdapId = m.last then
        some (.error (.panic "LDAP message id wraparound with no free slots"))
      else
        checkedMsgidLoop m fuel nextLdapId

/-- `Ldap::next_msgid` with overflow checks. -/
def checkedMsgid (m : Msgmap) : Option (Except Fault (RequestId × Msgmap)) :=
  (checkedMsgidLoop m (2 ^ 31) m.last).map fun r ↦ r.map fun id ↦ (id, ⟨id, insert id m.inUse⟩)

/-- One round of the loop, on the circle. -/
theorem nextMsgidLoop_succ (m : Msgmap) (fuel : ℕ) (id : RequestId) :
    nextMsgidLoop m (fuel + 1) id =
      if Circle.next i32Max id ∉ m.inUse then
        some (.ok (Circle.next i32Max id))
      else if Circle.next i32Max id = m.last then
        some (.error (.panic "LDAP message id wraparound with no free slots"))
      else
        nextMsgidLoop m fuel (Circle.next i32Max id) :=
  rfl

/-- From a place in front of the circle or on it no increment overflows. -/
theorem checkedMsgidLoop_eq {m : Msgmap} {id : ℤ} (h0 : 0 ≤ id) (hle : id ≤ i32Max)
    (fuel : ℕ) : checkedMsgidLoop m fuel id = nextMsgidLoop m fuel id := by
  induction fuel generalizing id with
  | zero => rfl
  | succ fuel ih =>
    have hmax : (0 : ℤ) < i32Max := by decide
    have hnext := Circle.next_mem hmax h0 hle
    have hinc : (if id = i32Max then .ok 1 else checkedI32 (id + 1)) =
        Except.ok (Circle.next i32Max id) := by
      rw [Circle.next]
      split_ifs with hid
      · rfl
      · have hlt : id < 2147483647 := lt_of_le_of_ne hle hid
        exact if_pos ⟨by omega, by omega⟩
    have hrest := ih (show 0 ≤ Circle.next i32Max id by omega) hnext.2
    rw [checkedMsgidLoop, hinc, nextMsgidLoop_succ, ← hrest]

/-- The loop stops at the first free id, unless it comes back before that. -/
theorem nextMsgidLoop_of_free {m : Msgmap} {k fuel : ℕ} {id : RequestId}
    (hfree : (Circle.next i32Max)^[k + 1] id ∉ m.inUse)
    (hused : ∀ l < k, (Circle.next i32Max)^[l + 1] id ∈ m.inUse)
    (hback : ∀ l < k, (Circle.next i32Max)^[l + 1] id ≠ m.last) (hfuel : k < fuel) :
    nextMsgidLoop m fuel id = some (.ok ((Circle.next i32Max)^[k + 1] id)) := by
  induction k generalizing id fuel with
  | zero =>
    obtain ⟨fuel, rfl⟩ := Nat.exists_eq_succ_of_ne_zero hfuel.ne'
    exact if_pos hfree
  | succ k ih =>
    obtain ⟨fuel, rfl⟩ := Nat.exists_eq_succ_of_ne_zero (Nat.ne_of_gt (Nat.zero_lt_of_lt hfuel))
    have hround := @ih fuel (Circle.next i32Max id) hfree (fun l hl ↦ hused (l + 1) (by omega))
      (fun l hl ↦ hback (l + 1) (by omega)) (by omega)
    have hmem : Circle.next i32Max id ∈ m.inUse := hused 0 (by omega)
    have hne : Circle.next i32Max id ≠ m.last := hback 0 (by omega)
    rw [nextMsgidLoop_succ, if_neg (not_not.2 hmem), if_neg hne, hround]
    rfl

/-- The loop panics when it is back and has met used ids only. -/
theorem nextMsgidLoop_of_back {m : Msgmap} {k fuel : ℕ} {id : RequestId}
    (hback : (Circle.next i32Max)^[k + 1] id = m.last)
    (hused : ∀ l ≤ k, (Circle.next i32Max)^[l + 1] id ∈ m.inUse) (hfuel : k < fuel) :
    nextMsgidLoop m fuel id =
      some (.error (.panic "LDAP message id wraparound with no free slots")) := by
  induction k generalizing id fuel with
  | zero =>
    obtain ⟨fuel, rfl⟩ := Nat.exists_eq_succ_of_ne_zero hfuel.ne'
    have hmem : Circle.next i32Max id ∈ m.inUse := hused 0 (Nat.le_refl 0)
    rw [nextMsgidLoop_succ, if_neg (not_not.2 hmem)]
    exact if_pos hback
  | succ k ih =>
    obtain ⟨fuel, rfl⟩ := Nat.exists_eq_succ_of_ne_zero (Nat.ne_of_gt (Nat.zero_lt_of_lt hfuel))
    have hround := @ih fuel (Circle.next i32Max id) hback (fun l hl ↦ hused (l + 1) (by omega))
      (by omega)
    have hmem : Circle.next i32Max id ∈ m.inUse := hused 0 (by omega)
    rw [nextMsgidLoop_succ, if_neg (not_not.2 hmem), hround, ite_self]

/-! ### The invariant -/

/-- The last id is in front of the circle or on it, and the ids in use are on it. Before the first
allocation none is in use. -/
structure Msgmap.Valid (m : Msgmap) : Prop where
  nonneg : (0 : ℤ) ≤ m.last
  le_max : (m.last : ℤ) ≤ i32Max
  inUse_mem : ∀ id ∈ m.inUse, 1 ≤ id ∧ id ≤ i32Max
  inUse_of_zero : m.last = 0 → m.inUse = ∅

/-- All ids are in use. -/
def Msgmap.Full (m : Msgmap) : Prop :=
  ∀ id, 1 ≤ id → id ≤ i32Max → id ∈ m.inUse

namespace Msgmap.Valid

variable {m : Msgmap}

theorem init : Valid ⟨0, ∅⟩ :=
  ⟨le_rfl, by decide, fun _ h ↦ absurd h (Finset.notMem_empty _), fun _ ↦ rfl⟩

theorem insert (h : m.Valid) {id : ℤ} (h1 : 1 ≤ id) (hle : id ≤ i32Max) :
    Valid ⟨id, Insert.insert id m.inUse⟩ := by
  have h0 : 0 ≤ id := by omega
  have hne : id ≠ 0 := by omega
  refine ⟨h0, hle, fun id' hid' ↦ ?_, fun hid ↦ absurd hid hne⟩
  rcases Finset.mem_insert.1 hid' with rfl | hmem
  · exact ⟨h1, hle⟩
  · exact h.inUse_mem id' hmem

theorem erase (h : m.Valid) (id : RequestId) : Valid ⟨m.last, m.inUse.erase id⟩ := by
  refine ⟨h.nonneg, h.le_max, fun id' hid' ↦ h.inUse_mem id' (Finset.mem_of_mem_erase hid'),
    fun h0 ↦ ?_⟩
  rw [h.inUse_of_zero h0, Finset.erase_empty]

/-- While an id is free, the loop finds the first one. -/
theorem nextMsgid_of_free (h : m.Valid) (hfree : ∃ id, 1 ≤ id ∧ id ≤ i32Max ∧ id ∉ m.inUse) :
    ∃ id, nextMsgid m = some (.ok (id, ⟨id, Insert.insert id m.inUse⟩)) ∧ m.FirstFree id ∧
      1 ≤ id ∧ id ≤ i32Max ∧ id ∉ m.inUse := by
  have hmax : (0 : ℤ) < i32Max := by decide
  obtain ⟨k, hk, hout, hbefore⟩ := Circle.exists_firstAfter h.nonneg h.le_max hfree
  obtain ⟨h1, hle⟩ := Circle.iterate_next_mem hmax h.nonneg h.le_max k
  have hback : ∀ l < k, (Circle.next i32Max)^[l + 1] m.last ≠ m.last := by
    intro l hl heq
    have hturn := Circle.le_of_iterate_next_eq hmax h.nonneg h.le_max heq
    omega
  have hloop := @nextMsgidLoop_of_free m k (2 ^ 31) m.last hout
    (fun l hl ↦ not_not.1 (hbefore l hl)) hback (by rw [i32Max] at hk; omega)
  refine ⟨_, ?_, ⟨k, rfl, hout, hbefore⟩, h1, hle, hout⟩
  rw [nextMsgid, hloop]
  rfl

/-- If none is, the loop goes round once and panics. -/
theorem nextMsgid_of_full (h : m.Valid) (hfull : m.Full) :
    nextMsgid m = some (.error (.panic "LDAP message id wraparound with no free slots")) := by
  have hlast : (1 : ℤ) ≤ m.last := by
    by_contra hlt
    have hempty := h.inUse_of_zero (le_antisymm (Int.lt_add_one_iff.1 (not_le.1 hlt)) h.nonneg)
    have hmem := hfull 1 le_rfl (by decide)
    rw [hempty] at hmem
    exact Finset.notMem_empty _ hmem
  obtain ⟨k, hk⟩ : ∃ k : ℕ, (k : ℤ) + 1 = i32Max := ⟨2147483646, by decide⟩
  have hused : ∀ l ≤ k, (Circle.next i32Max)^[l + 1] m.last ∈ m.inUse := by
    rintro l -
    obtain ⟨h1, hle⟩ := Circle.iterate_next_mem (show 0 < i32Max by decide) h.nonneg h.le_max l
    exact hfull _ h1 hle
  have hloop := @nextMsgidLoop_of_back m k (2 ^ 31) m.last
    (Circle.iterate_next_self hlast hk h.le_max) hused (by rw [i32Max] at hk; omega)
  rw [nextMsgid, hloop]
  rfl

theorem checkedMsgid_eq (h : m.Valid) : checkedMsgid m = nextMsgid m := by
  rw [checkedMsgid, nextMsgid, checkedMsgidLoop_eq h.nonneg h.le_max]

end Msgmap.Valid

/-! ### The mutex -/

namespace MsgmapMutex

/-- `next_msgid` with overflow checks. -/
def checkedMsgid (s : MsgmapMutex) : Option (Except Fault RequestId × MsgmapMutex) :=
  if s.poisoned then
    some (.error (.panic "msgmap mutex (inc id)"), s)
  else
    (Ldap3.checkedMsgid s.map).map fun
      | .ok (id, m) => (.ok id, ⟨m, false⟩)
      | .error e => (.error e, ⟨s.map, true⟩)

/-- What is done to the map. -/
inductive Act where
  /-- A handle asks for an id. -/
  | nextMsgid
  /-- The driver releases an id. -/
  | remove (id : RequestId)

def step (s : MsgmapMutex) : Act → Option MsgmapMutex
  | .nextMsgid => s.nextMsgid.map Prod.snd
  | .remove id => s.remove id

/-- The map is valid, and full if the mutex is poisoned. -/
structure Valid (s : MsgmapMutex) : Prop where
  map : s.map.Valid
  full_of_poisoned : s.poisoned → s.map.Full

variable {s s' : MsgmapMutex}

theorem exists_free_of_not_full {m : Msgmap} (h : ¬m.Full) :
    ∃ id, 1 ≤ id ∧ id ≤ i32Max ∧ id ∉ m.inUse := by
  simpa [Msgmap.Full] using h

/-- The call while an id is free. -/
theorem Valid.nextMsgid_of_free (h : s.Valid)
    (hfree : ∃ id, 1 ≤ id ∧ id ≤ i32Max ∧ id ∉ s.map.inUse) :
    ∃ id, s.nextMsgid = some (.ok id, ⟨⟨id, insert id s.map.inUse⟩, false⟩) ∧ s.map.FirstFree id ∧
      1 ≤ id ∧ id ≤ i32Max ∧ id ∉ s.map.inUse := by
  have hpois : ¬s.poisoned := by
    intro hpois
    obtain ⟨id, h1, hle, hout⟩ := hfree
    exact hout (h.full_of_poisoned hpois id h1 hle)
  obtain ⟨id, hnext, hid⟩ := h.map.nextMsgid_of_free hfree
  refine ⟨id, ?_, hid⟩
  rw [MsgmapMutex.nextMsgid, if_neg hpois, hnext]
  rfl

/-- The call when no id is free. -/
theorem Valid.nextMsgid_of_full (h : s.Valid) (hfull : s.map.Full) :
    ∃ msg, s.nextMsgid = some (.error (.panic msg), ⟨s.map, true⟩) := by
  rcases s with ⟨m, - | -⟩
  · refine ⟨"LDAP message id wraparound with no free slots", ?_⟩
    rw [MsgmapMutex.nextMsgid, if_neg Bool.false_ne_true,
      h.map.nextMsgid_of_full hfull]
    rfl
  · exact ⟨_, rfl⟩

theorem Valid.step (h : s.Valid) {a : Act} (hs : s.step a = some s') : s'.Valid := by
  cases a with
  | nextMsgid =>
    by_cases hfull : s.map.Full
    · obtain ⟨msg, hnext⟩ := h.nextMsgid_of_full hfull
      rw [MsgmapMutex.step, hnext] at hs
      obtain rfl := Option.some.inj hs
      exact ⟨h.map, fun _ ↦ hfull⟩
    · obtain ⟨id, hnext, -, h1, hle, -⟩ := h.nextMsgid_of_free (exists_free_of_not_full hfull)
      rw [MsgmapMutex.step, hnext] at hs
      obtain rfl := Option.some.inj hs
      exact ⟨h.map.insert h1 hle, Bool.noConfusion⟩
  | remove id =>
    rw [MsgmapMutex.step, remove] at hs
    split_ifs at hs
    obtain rfl := Option.some.inj hs
    exact ⟨h.map.erase id, Bool.noConfusion⟩

theorem valid_of_reach (h : Reach step any init s) : s.Valid :=
  h.invariant ⟨.init, Bool.noConfusion⟩ fun hs _ hstep ↦ hs.step hstep

end MsgmapMutex

/-- **Message ids.** In every state reached by allocations and releases a call of `next_msgid` ends.
If an id is free, it gives out the first free one after the last one, which was not in use, and
changes nothing else; it panics exactly when all ids are in use. No increment overflows. -/
theorem nextMsgid_of_reach {s : MsgmapMutex} (h : Reach MsgmapMutex.step any .init s) :
    ∃ r s', s.nextMsgid = some (r, s') ∧
      ((∃ id, 1 ≤ id ∧ id ≤ i32Max ∧ id ∉ s.map.inUse) →
        ∃ id, r = .ok id ∧ s.map.FirstFree id ∧ 1 ≤ id ∧ id ≤ i32Max ∧ id ∉ s.map.inUse ∧
          s' = ⟨⟨id, insert id s.map.inUse⟩, false⟩) ∧
      ((∃ msg, r = .error (.panic msg)) ↔ ∀ id, 1 ≤ id → id ≤ i32Max → id ∈ s.map.inUse) ∧
      s.checkedMsgid = s.nextMsgid := by
  have hvalid := MsgmapMutex.valid_of_reach h
  have hchecked : s.checkedMsgid = s.nextMsgid := by
    rw [MsgmapMutex.checkedMsgid, hvalid.map.checkedMsgid_eq]
    rfl
  by_cases hfull : s.map.Full
  · obtain ⟨msg, hnext⟩ := hvalid.nextMsgid_of_full hfull
    refine ⟨_, _, hnext, ?_, ⟨fun _ ↦ hfull, fun _ ↦ ⟨msg, rfl⟩⟩, hchecked⟩
    rintro ⟨id, h1, hle, hout⟩
    exact absurd (hfull id h1 hle) hout
  · obtain ⟨id, hnext, hfirst, h1, hle, hout⟩ :=
      hvalid.nextMsgid_of_free (MsgmapMutex.exists_free_of_not_full hfull)
    refine ⟨_, _, hnext, fun _ ↦ ⟨id, rfl, hfirst, h1, hle, hout, rfl⟩, ?_, hchecked⟩
    refine ⟨?_, fun hall ↦ absurd hall hfull⟩
    rintro ⟨msg, heq⟩
    cases heq

/-- The first id released while the second is in use. -/
theorem nextMsgid_of_reach_released :
    ∃ id s', MsgmapMutex.nextMsgid ⟨⟨2, {2}⟩, false⟩ = some (.ok id, s') ∧
      Msgmap.FirstFree ⟨2, {2}⟩ id := by
  have hreach : Reach MsgmapMutex.step any .init ⟨⟨2, {2}⟩, false⟩ := by
    have hsteps : Reach MsgmapMutex.step any .init ⟨⟨2, ({2, 1} : Finset ℤ).erase 1⟩, false⟩ :=
      @reach_of_run _ _ _ _ _ _ _ [.nextMsgid, .nextMsgid, .remove 1] rfl
    rwa [show ({2, 1} : Finset ℤ).erase 1 = {2} by decide] at hsteps
  obtain ⟨r, s', hnext, hfree, -⟩ := nextMsgid_of_reach hreach
  obtain ⟨id, rfl, hfirst, -⟩ := hfree ⟨1, by decide, by decide, by decide⟩
  exact ⟨id, s', hnext, hfirst⟩

/-! ### The map of a connection -/

namespace Conn

/-- The map and its mutex stay as they are, or an id is released. -/
def Frees (c c' : Conn) : Prop :=
  c'.msgmap = c.msgmap ∨ ∃ id, c.msgmap.remove id = some c'.msgmap

variable {c c' : Conn}

/-- Behind a mutex that is not poisoned an id is erased. -/
theorem Frees.of_erase {id : RequestId} (hlock : c.msgmap.poisoned = false)
    (hmap : c'.msgmap = ⟨⟨c.msgmap.last, c.msgmap.inUse.erase id⟩, false⟩) : c.Frees c' := by
  refine .inr ⟨id, ?_⟩
  rw [MsgmapMutex.remove, hlock, hmap]
  rfl

theorem frees_turnOp {written : Bool} (hs : c.turnOp written = some c') : c.Frees c' := by
  obtain ⟨o, rx, -, hturn⟩ := turnOp_cases hs
  cases hturn with
  | lost => exact .inl rfl
  | single => exact .inl rfl
  | search => exact .inl rfl
  | abandon _ hlock => exact .of_erase hlock rfl
  | abandonPoisoned => exact .inl rfl
  | unbind => exact .inl rfl

theorem frees_turnResp (c : Conn) (id : RequestId) (tag : Tag) (controls : List Control) :
    c.Frees (c.turnResp id tag controls) := by
  generalize hs : c.turnResp id tag controls = c'
  cases turnResp_cases hs with
  | item =>
    rw [sendItem_eq]
    exact .inl rfl
  | result _ _ hlock => exact .of_erase hlock rfl
  | resultPoisoned => exact .inl rfl
  | panicked | failed | unregistered => exact .inl rfl

/-- What is done to the connection is a call of `next_msgid`, a release, or nothing to the map. -/
theorem reach_msgmap_step {a : Act} (hs : c.step a = some c') :
    Reach MsgmapMutex.step any c.msgmap c'.msgmap := by
  have hfrees : c.Frees c' → Reach MsgmapMutex.step any c.msgmap c'.msgmap := by
    rintro (heq | ⟨id, heq⟩)
    · rw [heq]
      exact .init
    · exact .single (l := .remove id) trivial heq
  cases step_cases hs with
  | alloc hs =>
    rw [alloc] at hs
    split at hs
    · rename_i id m hnext
      obtain rfl := Option.some.inj hs
      refine .single (l := .nextMsgid) trivial ?_
      rw [MsgmapMutex.step, hnext]
      rfl
    · cases hs
  | noId hno =>
    rw [noId] at hno
    split at hno
    · rename_i e m hnext
      refine .single (l := .nextMsgid) trivial ?_
      rw [MsgmapMutex.step, hnext, ← Option.some.inj hno]
      rfl
    · cases hno
  | turnScrub _ _ hlock => exact hfrees (.of_erase hlock rfl)
  | turnOp hs => exact hfrees (frees_turnOp hs)
  | turnResp => exact hfrees (frees_turnResp c _ _ _)
  | enqueue | dropReply | dropItems | sendScrub | loseScrub | scrubPoisoned | stop =>
    exact hfrees (.inl rfl)

/-- **The ids of a connection** are allocated and released as above, whatever is done to it, and
its mutex is poisoned by the same calls. -/
theorem reach_msgmap (h : Reach step any init c) : Reach MsgmapMutex.step any .init c.msgmap :=
  h.map (f := msgmap) fun _ hs ↦ reach_msgmap_step hs

/-- The map of a connection is valid, and full if its mutex is poisoned. -/
theorem valid_msgmap (h : Reach step any init c) : c.msgmap.Valid :=
  MsgmapMutex.valid_of_reach (reach_msgmap h)

/-- An operation can be made in every state of a connection, unless all ids are in use. -/
theorem exists_alloc_iff (h : Reach step any init c) (op : LdapOp) (req : Tag)
    (controls : Option (List RawControl)) :
    (∃ c', c.alloc op req controls = some c') ↔ ¬c.msgmap.Full := by
  have hvalid := valid_msgmap h
  constructor
  · rintro ⟨c', hs⟩ hfull
    obtain ⟨msg, hnext⟩ := hvalid.nextMsgid_of_full hfull
    rw [alloc, hnext] at hs
    cases hs
  · intro hfull
    obtain ⟨id, hnext, -⟩ := hvalid.nextMsgid_of_free (MsgmapMutex.exists_free_of_not_full hfull)
    rw [alloc, hnext]
    exact ⟨_, rfl⟩

/-- Then a call panics, and this is the only way in which one does. -/
theorem exists_noId_iff (h : Reach step any init c) :
    (∃ c', c.noId = some c') ↔ c.msgmap.Full := by
  have hvalid := valid_msgmap h
  constructor
  · rintro ⟨c', hs⟩
    by_contra hfull
    obtain ⟨id, hnext, -⟩ := hvalid.nextMsgid_of_free (MsgmapMutex.exists_free_of_not_full hfull)
    rw [noId, hnext] at hs
    cases hs
  · intro hfull
    obtain ⟨msg, hnext⟩ := hvalid.nextMsgid_of_full hfull
    rw [noId, hnext]
    exact ⟨_, rfl⟩

end Conn

end Ldap3
