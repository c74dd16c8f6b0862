import Ldap3.Conn.Driver

/-!
# Operations and their ids

Operations are made by an allocation, with an id that was free (`Conn.alloc_spec`), and never
change their ids and kinds after it. `Conn.Keeps` says so of two states, and `Conn.keeps_step` of
every action but the allocation. The invariants of the driver use it wherever an operation is
named by its number.

What an action asks for and what it does is said once, in `Conn.Step`, with `Conn.OpTurn` and
`Conn.RespTurn` for the branches of the driver. Every invariant is proved by cases on these.
-/

namespace Ldap3

/-! ### The ids given out -/

theorem nextMsgidLoop_not_mem {m : Msgmap} {fuel : ℕ} {id id' : RequestId}
    (h : nextMsgidLoop m fuel id = some (.ok id')) : id' ∉ m.inUse := by
  induction fuel generalizing id with
  | zero => cases h
  | succ fuel ih =>
    simp only [nextMsgidLoop] at h
    generalize (if id = i32Max then 1 else id + 1) = next at h
    split_ifs at h with hfree hlast
    · cases h
    · exact ih h
    · obtain rfl := Except.ok.inj (Option.some.inj h)
      exact hfree

/-- An id that is given out was free, and is in use then. -/
theorem nextMsgid_spec {m m' : Msgmap} {id : RequestId}
    (h : nextMsgid m = some (.ok (id, m'))) : id ∉ m.inUse ∧ m' = ⟨id, insert id m.inUse⟩ := by
  rw [nextMsgid] at h
  rcases hloop : nextMsgidLoop m (2 ^ 31) m.last with - | (e | id')
  · rw [hloop] at h
    cases h
  · rw [hloop] at h
    cases h
  · rw [hloop] at h
    obtain ⟨rfl, rfl⟩ := Prod.mk.inj (Except.ok.inj (Option.some.inj h))
    exact ⟨nextMsgidLoop_not_mem hloop, rfl⟩

namespace MsgmapMutex

variable {s s' : MsgmapMutex} {id : RequestId}

theorem nextMsgid_spec (h : s.nextMsgid = some (.ok id, s')) :
    id ∉ s.inUse ∧ s' = ⟨⟨id, insert id s.inUse⟩, false⟩ := by
  rw [nextMsgid] at h
  split at h
  · cases h
  · obtain ⟨r, hnext, hr⟩ := Option.map_eq_some_iff.1 h
    rcases r with e | ⟨id', m⟩
    · cases hr
    · cases hr
      obtain ⟨hfree, rfl⟩ := Ldap3.nextMsgid_spec hnext
      exact ⟨hfree, rfl⟩

/-- A call that panics leaves the mutex poisoned, and the map as it was. -/
theorem nextMsgid_error {e : Fault} (h : s.nextMsgid = some (.error e, s')) :
    s' = ⟨s.map, true⟩ := by
  rw [nextMsgid] at h
  split at h
  · rename_i hpoisoned
    obtain ⟨-, rfl⟩ := Prod.mk.inj (Option.some.inj h)
    rw [← hpoisoned]
  · obtain ⟨r, -, hr⟩ := Option.map_eq_some_iff.1 h
    rcases r with e | ⟨id', m⟩
    · exact (Prod.mk.inj hr).2.symm
    · cases hr

end MsgmapMutex

namespace Conn

/-- What is done to the channels of an operation leaves the requests alone. -/
theorem setOp_request (c : Conn) (o : ℕ) {f : Op → Op}
    (hf : (f (c.ops o)).id = (c.ops o).id ∧ (f (c.ops o)).op = (c.ops o).op ∧
      (f (c.ops o)).phase = (c.ops o).phase) (o' : ℕ) :
    ((c.setOp o f).ops o').id = (c.ops o').id ∧ ((c.setOp o f).ops o').op = (c.ops o').op ∧
      ((c.setOp o f).ops o').phase = (c.ops o').phase := by
  by_cases heq : o' = o
  · rw [heq, setOp_ops_self]
    exact hf
  · rw [c.setOp_ops_of_ne f heq]
    exact ⟨rfl, rfl, rfl⟩

/-- What an allocation does. -/
theorem alloc_spec {c c' : Conn} {op : LdapOp} {req : Tag} {controls : Option (List RawControl)}
    (hs : c.alloc op req controls = some c') :
    ∃ id ∉ c.msgmap.inUse, c' = { c with
      msgmap := ⟨⟨id, insert id c.msgmap.inUse⟩, false⟩
      numOps := c.numOps + 1
      ops := Function.update c.ops c.numOps (.new id op req controls) } := by
  rw [alloc] at hs
  split at hs
  · rename_i id m hnext
    obtain ⟨hfree, rfl⟩ := MsgmapMutex.nextMsgid_spec hnext
    exact ⟨id, hfree, (Option.some.inj hs).symm⟩
  · cases hs

/-- An id is only given out behind a mutex that is not poisoned. -/
theorem lock_of_alloc {c c' : Conn} {op : LdapOp} {req : Tag}
    {controls : Option (List RawControl)} (hs : c.alloc op req controls = some c') :
    c.msgmap.poisoned = false := by
  by_contra hpoisoned
  rw [alloc, MsgmapMutex.nextMsgid, if_pos (Bool.not_eq_false _ ▸ hpoisoned)] at hs
  cases hs

/-- Without an id nothing is done but to poison the mutex, which may be poisoned already. -/
theorem noId_spec {c c' : Conn} (hs : c.noId = some c') :
    c' = { c with msgmap := ⟨c.msgmap.map, true⟩ } := by
  rw [noId] at hs
  split at hs
  · rename_i e m hnext
    obtain rfl := MsgmapMutex.nextMsgid_error hnext
    exact (Option.some.inj hs).symm
  · cases hs

/-! ### The lock -/

/-- An id is taken out of the set behind a mutex that is not poisoned. -/
def erase (c : Conn) (id : RequestId) : Conn :=
  { c with msgmap := ⟨⟨c.msgmap.last, c.msgmap.inUse.erase id⟩, false⟩ }

theorem release_eq_some {c c' : Conn} {id : RequestId} (h : c.release id = some c') :
    c.msgmap.poisoned = false ∧ c' = c.erase id := by
  rw [release, MsgmapMutex.remove] at h
  split at h
  · cases h
  · exact ⟨Bool.eq_false_iff.2 ‹_›, (Option.some.inj h).symm⟩

theorem release_eq_none {c : Conn} {id : RequestId} (h : c.release id = none) :
    c.msgmap.poisoned = true := by
  rw [release, MsgmapMutex.remove] at h
  split at h
  · assumption
  · cases h

/-! ### What the driver does with an operation -/

/-- The operation at the front of the queue is taken off it. -/
def take (c : Conn) (o : ℕ) (rx : List ℕ) : Conn :=
  { c.setOp o fun op ↦ { op with phase := .taken } with rx := rx }

theorem take_ops_self (c : Conn) (o : ℕ) (rx : List ℕ) :
    (c.take o rx).ops o = { c.ops o with phase := .taken } :=
  Function.update_self ..

theorem take_ops_of_ne (c : Conn) {o o' : ℕ} (rx : List ℕ) (h : o' ≠ o) :
    (c.take o rx).ops o' = c.ops o' :=
  Function.update_of_ne h _ _

/-- The branches of `turnOp`. -/
inductive OpTurn (c : Conn) (o : ℕ) (rx : List ℕ) : (written : Bool) → Conn → Prop
  | lost : OpTurn c o rx false ((c.take o rx).stop (.failed "socket send error"))
  | single (hop : (c.ops o).op = .single) : OpTurn c o rx true
      { (c.take o rx).record (.wrote o) with
        resultmap := Function.update c.resultmap (c.ops o).id (some o) }
  | search (hop : (c.ops o).op = .search) : OpTurn c o rx true
      (({ c.take o rx with
        searchmap := Function.update c.searchmap (c.ops o).id (some o) }.record
          (.wrote o)).sendReply o nullResult)
  | abandon {msgid : RequestId} (hop : (c.ops o).op = .abandon msgid)
      (hlock : c.msgmap.poisoned = false) : OpTurn c o rx true
      ((((((c.take o rx).record (.wrote o)).unregister msgid).erase (c.ops o).id).record
        (.abandoned msgid)).sendReply o nullResult)
  | abandonPoisoned {msgid : RequestId} (hop : (c.ops o).op = .abandon msgid)
      (hlock : c.msgmap.poisoned = true) : OpTurn c o rx true
      (((c.take o rx).record (.wrote o)).stop (.panicked "msgmap mutex (abandon)"))
  | unbind (hop : (c.ops o).op = .unbind) : OpTurn c o rx true
      (((c.take o rx).record (.wrote o)).sendReply o nullResult)

theorem turnOp_cases {c c' : Conn} {written : Bool} (hs : c.turnOp written = some c') :
    ∃ o rx, c.rx = o :: rx ∧ OpTurn c o rx written c' := by
  rw [turnOp] at hs
  split at hs
  · cases hs
  rename_i o rx hrx
  refine ⟨o, rx, hrx, ?_⟩
  rcases written with - | -
  · obtain rfl := Option.some.inj hs
    split <;> exact .lost
  cases hop : (c.ops o).op with
  | single =>
    simp only [hop, reduceCtorEq, if_false, if_true] at hs
    exact Option.some.inj hs ▸ .single hop
  | search =>
    simp only [hop, if_true] at hs
    exact Option.some.inj hs ▸ .search hop
  | abandon msgid =>
    simp only [hop, reduceCtorEq, if_false, if_true] at hs
    split at hs
    · obtain ⟨hlock, rfl⟩ := release_eq_some ‹_›
      exact Option.some.inj hs ▸ .abandon hop hlock
    · rename_i hnone
      have hlock := release_eq_none hnone
      exact Option.some.inj hs ▸ .abandonPoisoned hop hlock
  | unbind =>
    simp only [hop, reduceCtorEq, if_false, if_true] at hs
    exact Option.some.inj hs ▸ .unbind hop

/-! ### What the driver does with a message -/

/-- The branches of `turnResp`. -/
inductive RespTurn (c : Conn) (id : RequestId) (tag : Tag) (controls : List Control) : Conn → Prop
  | item {o : ℕ} {item : SearchItem} {remove : Bool} (hslot : c.searchmap id = some o)
      (hitem : searchItem tag = .ok (item, remove)) : RespTurn c id tag controls
      ((c.sendItem id o item controls remove).record (.decoded id tag controls))
  | panicked {o : ℕ} {msg : String} (hslot : c.searchmap id = some o)
      (hitem : searchItem tag = .error (.panic msg)) : RespTurn c id tag controls
      (c.stop (.panicked msg))
  | failed {o : ℕ} {msg : String} (hslot : c.searchmap id = some o)
      (hitem : searchItem tag = .error (.error msg)) : RespTurn c id tag controls
      (c.stop (.failed msg))
  | result {o : ℕ} (hsearch : c.searchmap id = none) (hslot : c.resultmap id = some o)
      (hlock : c.msgmap.poisoned = false) : RespTurn c id tag controls
      ((({ c with resultmap := Function.update c.resultmap id none }.sendReply o
        (tag, controls)).record (.decoded id tag controls)).erase id)
  | resultPoisoned {o : ℕ} (hsearch : c.searchmap id = none) (hslot : c.resultmap id = some o)
      (hlock : c.msgmap.poisoned = true) : RespTurn c id tag controls
      ((({ c with resultmap := Function.update c.resultmap id none }.sendReply o
        (tag, controls)).record (.decoded id tag controls)).stop
          (.panicked "msgmap mutex (stream rx)"))
  | unregistered (hsearch : c.searchmap id = none) (hresult : c.resultmap id = none) :
    RespTurn c id tag controls (c.record (.decoded id tag controls))

theorem turnResp_cases {c c' : Conn} {id : RequestId} {tag : Tag} {controls : List Control}
    (hs : c.turnResp id tag controls = c') : RespTurn c id tag controls c' := by
  rw [turnResp] at hs
  split at hs
  · rename_i o hslot
    split at hs
    · exact hs ▸ .item hslot ‹_›
    · exact hs ▸ .panicked hslot ‹_›
    · exact hs ▸ .failed hslot ‹_›
  · rename_i hsearch
    split at hs
    · rename_i o hslot
      dsimp only at hs
      split at hs
      · obtain ⟨hlock, rfl⟩ := release_eq_some ‹_›
        exact hs ▸ .result hsearch hslot hlock
      · rename_i hnone
        have hlock := release_eq_none hnone
        exact hs ▸ .resultPoisoned hsearch hslot hlock
    · exact hs ▸ .unregistered hsearch ‹_›

/-! ### What a step does -/

/-- The actions, each with what it asks for. -/
inductive Step (c : Conn) : Act → Conn → Prop
  | alloc {op : LdapOp} {req : Tag} {controls : Option (List RawControl)} {c' : Conn}
      (hs : c.alloc op req controls = some c') : Step c (.alloc op req controls) c'
  | noId (hs : c.noId = some { c with msgmap := ⟨c.msgmap.map, true⟩ }) : Step c .noId
      { c with msgmap := ⟨c.msgmap.map, true⟩ }
  | enqueue {o : ℕ} (ho : o < c.numOps) (hphase : (c.ops o).phase = .allocated)
      (hrun : c.status = .running) : Step c (.enqueue o)
      { c.setOp o fun op ↦ { op with phase := .queued } with rx := c.rx ++ [o] }
  | dropReply {o : ℕ} (ho : o < c.numOps) : Step c (.dropReply o) (c.dropReply o)
  | dropItems {o : ℕ} (ho : o < c.numOps) : Step c (.dropItems o) (c.dropItems o)
  | sendScrub {id : RequestId} (hrun : c.status = .running) : Step c (.sendScrub id)
      { c with idScrubRx := c.idScrubRx ++ [id] }
  | loseScrub {id : RequestId} (hrun : c.status ≠ .running) : Step c (.sendScrub id) c
  | turnScrub {id : RequestId} {ids : List RequestId} (hids : c.idScrubRx = id :: ids)
      (hrun : c.status = .running) (hlock : c.msgmap.poisoned = false) : Step c .turnScrub
      ((({ c with idScrubRx := ids }.unregister id).erase id).record (.scrubbed id))
  | scrubPoisoned {id : RequestId} {ids : List RequestId} (hids : c.idScrubRx = id :: ids)
      (hrun : c.status = .running) (hlock : c.msgmap.poisoned = true) : Step c .turnScrub
      (c.stop (.panicked "msgmap mutex (id_scrub)"))
  | turnOp {written : Bool} {c' : Conn} (hs : c.turnOp written = some c')
      (hrun : c.status = .running) : Step c (.turnOp written) c'
  | turnResp {id : RequestId} {tag : Tag} {controls : List Control}
      (hrun : c.status = .running) : Step c (.turnResp id tag controls)
      (c.turnResp id tag controls)
  | stop {why : Status} (hrun : c.status = .running) (hwhy : why ≠ .running) :
    Step c (.stop why) (c.stop why)

theorem step_cases {c c' : Conn} {a : Act} (hs : c.step a = some c') : Step c a c' := by
  cases a with
  | alloc op req controls => exact .alloc hs
  | noId =>
    obtain rfl := noId_spec hs
    exact .noId hs
  | enqueue o =>
    simp only [step, Conn.enqueue, Option.ite_none_right_eq_some, Option.some.injEq] at hs
    obtain ⟨⟨ho, hphase, hrun⟩, rfl⟩ := hs
    exact .enqueue ho hphase hrun
  | dropReply o =>
    obtain ⟨ho, hs⟩ := Option.ite_none_right_eq_some.1 hs
    exact Option.some.inj hs ▸ .dropReply ho
  | dropItems o =>
    obtain ⟨ho, hs⟩ := Option.ite_none_right_eq_some.1 hs
    exact Option.some.inj hs ▸ .dropItems ho
  | sendScrub id =>
    obtain rfl := Option.some.inj hs
    rw [Conn.sendScrub]
    split
    · exact .sendScrub ‹_›
    · exact .loseScrub ‹_›
  | turnScrub =>
    obtain ⟨hrun, hs⟩ := Option.ite_none_right_eq_some.1 hs
    rw [Conn.turnScrub] at hs
    split at hs
    · cases hs
    · rename_i id ids hids
      dsimp only at hs
      split at hs
      · obtain ⟨hlock, rfl⟩ := release_eq_some ‹_›
        exact Option.some.inj hs ▸ .turnScrub hids hrun hlock
      · rename_i hnone
        have hlock := release_eq_none hnone
        exact Option.some.inj hs ▸ .scrubPoisoned hids hrun hlock
  | turnOp written =>
    obtain ⟨hrun, hs⟩ := Option.ite_none_right_eq_some.1 hs
    exact .turnOp hs hrun
  | turnResp id tag controls =>
    obtain ⟨hrun, hs⟩ := Option.ite_none_right_eq_some.1 hs
    exact Option.some.inj hs ▸ .turnResp hrun
  | stop why =>
    obtain ⟨⟨hrun, hwhy⟩, hs⟩ := Option.ite_none_right_eq_some.1 hs
    exact Option.some.inj hs ▸ .stop hrun hwhy

/-! ### What stays -/

/-- No operation is made, and the operations keep their ids and kinds. -/
structure Keeps (c c' : Conn) : Prop where
  numOps_eq : c'.numOps = c.numOps
  id_eq : ∀ o, (c'.ops o).id = (c.ops o).id
  op_eq : ∀ o, (c'.ops o).op = (c.ops o).op

variable {c c' : Conn}

theorem Keeps.of_ops (hnum : c'.numOps = c.numOps) (hops : c'.ops = c.ops) : c.Keeps c' :=
  ⟨hnum, fun o ↦ by rw [hops], fun o ↦ by rw [hops]⟩

/-- One operation changes, and keeps its id and kind. -/
theorem Keeps.of_update {o : ℕ} {op : Op} (hnum : c'.numOps = c.numOps)
    (hops : c'.ops = Function.update c.ops o op)
    (hop : op.id = (c.ops o).id ∧ op.op = (c.ops o).op) : c.Keeps c' := by
  refine ⟨hnum, fun o' ↦ ?_, fun o' ↦ ?_⟩ <;> rw [hops, Function.update_apply]
  · split
    · rename_i heq
      rw [hop.1, heq]
    · rfl
  · split
    · rename_i heq
      rw [hop.2, heq]
    · rfl

theorem Keeps.trans {c'' : Conn} (h : c.Keeps c') (h' : c'.Keeps c'') : c.Keeps c'' :=
  ⟨h'.numOps_eq.trans h.numOps_eq, fun o ↦ (h'.id_eq o).trans (h.id_eq o),
    fun o ↦ (h'.op_eq o).trans (h.op_eq o)⟩

theorem keeps_sendReply (c : Conn) (o : ℕ) (r : Tag × List Control) :
    c.Keeps (c.sendReply o r) := by
  refine .of_update rfl rfl ?_
  dsimp only
  split <;> exact ⟨rfl, rfl⟩

theorem keeps_turnOp {written : Bool} (hs : c.turnOp written = some c') : c.Keeps c' := by
  obtain ⟨o, rx, -, hturn⟩ := turnOp_cases hs
  have htake : c.Keeps (c.take o rx) := .of_update rfl rfl ⟨rfl, rfl⟩
  cases hturn with
  | lost => exact htake.trans (.of_ops rfl rfl)
  | single => exact htake.trans (.of_ops rfl rfl)
  | search =>
    refine .trans ?_ (keeps_sendReply _ o _)
    exact htake.trans (.of_ops rfl rfl)
  | abandon =>
    refine .trans ?_ (keeps_sendReply _ o _)
    exact htake.trans (.of_ops rfl rfl)
  | abandonPoisoned => exact htake.trans (.of_ops rfl rfl)
  | unbind =>
    refine .trans ?_ (keeps_sendReply _ o _)
    exact htake.trans (.of_ops rfl rfl)

theorem keeps_turnResp (c : Conn) (id : RequestId) (tag : Tag) (controls : List Control) :
    c.Keeps (c.turnResp id tag controls) := by
  generalize hs : c.turnResp id tag controls = c'
  cases turnResp_cases hs with
  | item =>
    rw [sendItem_eq]
    refine .of_update rfl rfl ?_
    dsimp only
    split <;> exact ⟨rfl, rfl⟩
  | result | resultPoisoned =>
    refine .of_update rfl rfl ?_
    dsimp only
    split <;> exact ⟨rfl, rfl⟩
  | panicked | failed | unregistered => exact .of_ops rfl rfl

/-- **Operations are only made by an allocation**, and keep their ids and kinds. -/
theorem keeps_step {a : Act} (hs : c.step a = some c')
    (ha : ∀ op req controls, a ≠ .alloc op req controls) : c.Keeps c' := by
  cases step_cases hs with
  | alloc => exact absurd rfl (ha _ _ _)
  | enqueue => exact .of_update rfl rfl ⟨rfl, rfl⟩
  | dropReply | dropItems => exact .of_update rfl rfl ⟨rfl, rfl⟩
  | turnOp hs => exact keeps_turnOp hs
  | turnResp => exact keeps_turnResp c _ _ _
  | noId | sendScrub | loseScrub | turnScrub | scrubPoisoned | stop => exact .of_ops rfl rfl

/-- Operations are never forgotten. -/
theorem numOps_step {a : Act} (hs : c.step a = some c') : c.numOps ≤ c'.numOps := by
  by_cases ha : ∃ op req controls, a = .alloc op req controls
  · obtain ⟨op, req, controls, rfl⟩ := ha
    obtain ⟨id, -, rfl⟩ := alloc_spec hs
    exact Nat.le_succ _
  · refine (keeps_step hs fun op req controls heq ↦ ha ⟨op, req, controls, heq⟩).numOps_eq.ge

end Conn

end Ldap3
