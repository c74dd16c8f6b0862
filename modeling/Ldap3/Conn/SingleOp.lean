import Ldap3.Conn.Client
import Ldap3.Conn.Survival

/-!
# One operation at a time

`LdapConnAsync::turn` as the loop it is in the source, with its mode. In the mode `SingleOp` the
loop is meant to carry one operation through and to hand the connection back: `new_tcp` uses it for
StartTLS, and waits for the connection and for the response of the operation together.

The branches of `select!` are what can be ready, `Ready`, and a branch leads on in one of four ways,
`Flow`: to the test of the mode behind the `select!`, back to its head by `continue`, out of the
loop by `break`, or out of the function by `return`. In the mode `Continuous` the loop is a run of
the driver (`reach_of_turn`).

The test of the mode lets every branch but the one with `continue` end the loop, whatever it was
about. **Single operations** (`singleOp_iff`): the operation is carried through exactly when it is
the first thing that is ready and its response the second, or when an I/O error ends the loop.
-/

namespace Ldap3

/-- `LoopMode`. -/
inductive LoopMode where
  | singleOp
  | continuous
  deriving DecidableEq

/-- What a branch of the `select!` in `turn` finds. -/
inductive Ready where
  /-- An id to be scrubbed. -/
  | scrub
  /-- All senders of ids to be scrubbed are gone. -/
  | scrubClosed
  /-- An operation. Writing it succeeds or not. -/
  | op (written : Bool)
  /-- All senders of operations are gone. -/
  | opClosed
  /-- A request for the peer certificate. -/
  | misc
  /-- All senders of such requests are gone. -/
  | miscClosed
  /-- A message from the server. -/
  | resp (id : RequestId) (tag : Tag) (controls : List Control)
  /-- The end of the stream. -/
  | eof
  /-- An I/O error of the stream. -/
  | ioError (msg : String)

/-- How a branch leads on. -/
inductive Flow where
  /-- To the end of the `select!`. -/
  | next (c : Conn)
  | continue (c : Conn)
  | break (c : Conn)
  /-- `return Err(..)`, or a panic; the connection is dropped. -/
  | return (c : Conn)

namespace Conn

/-- A branch in which the loop ended, by `return` or a panic, leads out of the function. -/
def leadsOn (f : Conn → Flow) (c : Conn) : Flow :=
  if c.status = .running then f c else .return c

/-- One `select!`, and the branch it takes. -/
def select (c : Conn) : Ready → Option Flow
  | .scrub => c.turnScrub.map (leadsOn .next)
  | .scrubClosed => if c.idScrubRx = [] then some (.next c) else none
  | .op written => do
    let o ← c.rx.head?
    let c' ← c.turnOp written
    some (c'.leadsOn (if (c.ops o).op = .single then .continue else .next))
  | .opClosed => if c.rx = [] then some (.break c) else none
  | .misc => some (.next c)
  | .miscClosed => some (.break c)
  | .resp id tag controls => some ((c.turnResp id tag controls).leadsOn .next)
  | .eof => some (.break c)
  | .ioError msg => some (.return (c.stop (.failed msg)))

/-- `LdapConnAsync::turn` on what is ready one time after the other: the connection returned in
`Ok`, or the one dropped with an error. Without a value as long as the loop runs. -/
def turn (mode : LoopMode) (c : Conn) : List Ready → Option (Except Conn Conn)
  | [] => none
  | r :: rs =>
    c.select r >>= fun
    | .next c' => if mode = .singleOp then some (.ok c') else turn mode c' rs
    | .continue c' => turn mode c' rs
    | .break c' => some (.ok c')
    | .return c' => some (.error c')

/-! ### The loop as a run of the driver -/

theorem leadsOn_of_running {c : Conn} (hrun : c.status = .running) (f : Conn → Flow) :
    c.leadsOn f = f c :=
  if_pos hrun

/-- A branch that does not lead out of the function has left the loop running. -/
theorem leadsOn_spec {c c' : Conn} {f : Conn → Flow}
    (hf : c.leadsOn f = .next c' ∨ c.leadsOn f = .continue c' ∨ c.leadsOn f = .break c') :
    c.status = .running ∧ (f c = .next c' ∨ f c = .continue c' ∨ f c = .break c') := by
  rw [leadsOn] at hf
  split at hf
  · exact ⟨‹_›, hf⟩
  · simp at hf

/-- The action is one of the driver's. -/
def DriverOnly (_ : Conn) (a : Act) : Prop :=
  a.isTurn = true

/-- A branch that does not return leaves the loop running, and is an action of the driver if it
does anything. -/
theorem select_spec {c c' : Conn} {r : Ready} {f : Flow} (hrun : c.status = .running)
    (h : c.select r = some f) (hf : f = .next c' ∨ f = .continue c' ∨ f = .break c') :
    c'.status = .running ∧ Machine.Reach step DriverOnly c c' := by
  cases r with
  | scrub =>
    obtain ⟨c₁, hscrub, rfl⟩ := Option.map_eq_some_iff.1 h
    obtain ⟨hrun₁, hf⟩ := leadsOn_spec hf
    obtain rfl : c₁ = c' := by simpa using hf
    have hdriver : c.DriverOnly .turnScrub := rfl
    exact ⟨hrun₁, .single hdriver (by rw [step, if_pos hrun, hscrub])⟩
  | op written =>
    obtain ⟨o, -, h⟩ := Option.bind_eq_some_iff.1 h
    obtain ⟨c₁, hop, h⟩ := Option.bind_eq_some_iff.1 h
    obtain rfl := Option.some.inj h
    obtain ⟨hrun₁, hf⟩ := leadsOn_spec hf
    obtain rfl : c₁ = c' := by split at hf <;> simpa using hf
    have hdriver : c.DriverOnly (.turnOp written) := rfl
    exact ⟨hrun₁, .single hdriver (by rw [step, if_pos hrun, hop])⟩
  | resp id tag controls =>
    obtain rfl := Option.some.inj h
    obtain ⟨hrun₁, hf⟩ := leadsOn_spec hf
    obtain rfl : c.turnResp id tag controls = c' := by simpa using hf
    have hdriver : c.DriverOnly (.turnResp id tag controls) := rfl
    exact ⟨hrun₁, .single hdriver (by rw [step, if_pos hrun])⟩
  | ioError msg =>
    obtain rfl := Option.some.inj h
    simp at hf
  | scrubClosed =>
    simp only [select] at h
    split at h
    · obtain rfl := Option.some.inj h
      obtain rfl : c = c' := by simpa using hf
      exact ⟨hrun, .init⟩
    · cases h
  | opClosed =>
    simp only [select] at h
    split at h
    · obtain rfl := Option.some.inj h
      obtain rfl : c = c' := by simpa using hf
      exact ⟨hrun, .init⟩
    · cases h
  | misc | miscClosed | eof =>
    obtain rfl := Option.some.inj h
    obtain rfl : c = c' := by simpa using hf
    exact ⟨hrun, .init⟩

/-- **The continuous loop is a run of the driver.** -/
theorem reach_of_turn {c c' : Conn} {rs : List Ready} (hrun : c.status = .running)
    (h : turn .continuous c rs = some (.ok c')) : Machine.Reach step DriverOnly c c' := by
  induction rs generalizing c with
  | nil => cases h
  | cons r rs ih =>
    rw [turn] at h
    rcases hflow : c.select r with - | (c₁ | c₁ | c₁ | c₁) <;>
      rw [hflow] at h
    · cases h
    · obtain ⟨hrun₁, hreach⟩ := select_spec hrun hflow (.inl rfl)
      exact hreach.trans (ih hrun₁ h)
    · obtain ⟨hrun₁, hreach⟩ := select_spec hrun hflow (.inr (.inl rfl))
      exact hreach.trans (ih hrun₁ h)
    · obtain rfl := Except.ok.inj (Option.some.inj h)
      exact (select_spec hrun hflow (.inr (.inr rfl))).2
    · cases Option.some.inj h

/-! ### The single operation -/

/-- One operation with a single response waits in the queue of a connection that has no others, and
whose mutex is not poisoned. -/
structure OneQueued (c : Conn) (o : ℕ) : Prop where
  running : c.status = .running
  lock : c.msgmap.poisoned = false
  rx_eq : c.rx = [o]
  single : (c.ops o).op = .single
  replyOpen : (c.ops o).replyOpen = true
  reply_eq : (c.ops o).reply = none
  resultmap_eq : ∀ id, c.resultmap id = none
  searchmap_eq : ∀ id, c.searchmap id = none

/-- The sender of the operation's result exists. -/
def Awaited (c : Conn) (o : ℕ) : Prop :=
  o ∈ c.rx ∨ ∃ id, c.resultmap id = some o

/-- What `new_tcp` relies on: a connection that is handed back wrote the operation, delivered its
response, and waits for nothing; and no caller waits for one that was dropped. -/
def CarriedThrough (o : ℕ) : Except Conn Conn → Prop
  | .ok c => .wrote o ∈ c.log ∧ (c.ops o).reply ≠ none ∧ c.rx = [] ∧ ∀ id, c.resultmap id = none
  | .error c => ¬c.Awaited o

/-- An I/O error ends the loop, or the operation is the first thing that is ready and its response
the second. -/
def AnsweredFirst (id : RequestId) : List Ready → Prop
  | .ioError _ :: _ => True
  | .op false :: _ => True
  | .op true :: .ioError _ :: _ => True
  | .op true :: .resp id' _ _ :: _ => id' = id
  | _ => False

/-- The operation was written, and the connection waits for its response only. -/
structure Written (c : Conn) (o : ℕ) : Prop where
  running : c.status = .running
  lock : c.msgmap.poisoned = false
  wrote : .wrote o ∈ c.log
  rx_eq : c.rx = []
  replyOpen : (c.ops o).replyOpen = true
  reply_eq : (c.ops o).reply = none
  resultmap_eq : c.resultmap = Function.update (fun _ ↦ none) (c.ops o).id (some o)
  searchmap_eq : ∀ id, c.searchmap id = none

variable {c : Conn} {o : ℕ}

/-- A connection that was dropped has no senders. -/
theorem not_awaited_stop (c : Conn) (o : ℕ) (why : Status) : ¬(c.stop why).Awaited o := by
  rintro (hrx | ⟨id, hid⟩)
  · exact absurd hrx List.not_mem_nil
  · cases hid

/-- A scrub is processed. -/
theorem turnScrub_spec {c' : Conn} (hrun : c.status = .running) (hlock : c.msgmap.poisoned = false)
    (hs : c.turnScrub = some c') : c'.status = .running ∧ c'.rx = c.rx ∧ c'.ops = c.ops := by
  have hstep : c.step .turnScrub = some c' := by rw [step, if_pos hrun, hs]
  cases step_cases hstep with
  | turnScrub => exact ⟨hrun, rfl, rfl⟩
  | scrubPoisoned _ _ hpoisoned =>
    rw [hlock] at hpoisoned
    cases hpoisoned

/-- The operation is written. -/
theorem OneQueued.select_op (h : OneQueued c o) :
    ∃ c', c.select (.op true) = some (.continue c') ∧ Written c' o ∧
      (c'.ops o).id = (c.ops o).id := by
  have hselect : c.select (.op true) = some (.continue
      { ({ c.setOp o fun op ↦ { op with phase := .taken } with rx := [] } : Conn).record
          (.wrote o) with
        resultmap := Function.update c.resultmap (c.ops o).id (some o) }) := by
    simp [select, turnOp, h.rx_eq, h.single, record, setOp, leadsOn, h.running]
  refine ⟨_, hselect, ?_, by simp [record, setOp]⟩
  exact
    { running := h.running
      lock := h.lock
      wrote := by simp [record]
      rx_eq := rfl
      replyOpen := by simp [record, setOp, h.replyOpen]
      reply_eq := by simp [record, setOp, h.reply_eq]
      resultmap_eq := by simp [record, setOp, funext h.resultmap_eq]
      searchmap_eq := h.searchmap_eq }

/-- The operation is not written. -/
theorem OneQueued.select_op_error (h : OneQueued c o) :
    ∃ c' : Conn, c.select (.op false) = some (.return (c'.stop (.failed "socket send error"))) := by
  refine ⟨{ c.setOp o fun op ↦ { op with phase := .taken } with rx := [] }, ?_⟩
  simp [select, turnOp, h.rx_eq, h.single, leadsOn, stop]

/-- Whatever else is ready leaves the operation in the queue, or is an I/O error. -/
theorem OneQueued.select_other (h : OneQueued c o) {r : Ready} {f : Flow}
    (hr : ∀ written, r ≠ .op written) (hs : c.select r = some f) :
    (∃ c', (f = .next c' ∨ f = .break c') ∧ c'.rx = [o]) ∨
      ∃ msg, r = .ioError msg ∧ f = .return (c.stop (.failed msg)) := by
  cases r with
  | op written => exact absurd rfl (hr written)
  | scrub =>
    obtain ⟨c', hscrub, rfl⟩ := Option.map_eq_some_iff.1 hs
    obtain ⟨hrun, hrx, -⟩ := turnScrub_spec h.running h.lock hscrub
    exact .inl ⟨c', .inl (leadsOn_of_running hrun _), hrx.trans h.rx_eq⟩
  | scrubClosed =>
    simp only [select] at hs
    split at hs
    · exact .inl ⟨c, .inl (Option.some.inj hs).symm, h.rx_eq⟩
    · cases hs
  | opClosed => simp [select, h.rx_eq] at hs
  | misc => exact .inl ⟨c, .inl (Option.some.inj hs).symm, h.rx_eq⟩
  | miscClosed | eof => exact .inl ⟨c, .inr (Option.some.inj hs).symm, h.rx_eq⟩
  | resp id tag controls =>
    have hresp : c.turnResp id tag controls = c.record (.decoded id tag controls) := by
      simp [turnResp, h.searchmap_eq id, h.resultmap_eq id]
    rw [select, hresp, leadsOn_of_running (show (c.record _).status = .running from h.running)] at hs
    exact .inl ⟨_, .inl (Option.some.inj hs).symm, h.rx_eq⟩
  | ioError msg => exact .inr ⟨msg, rfl, (Option.some.inj hs).symm⟩

/-- The response reaches the caller, and nothing is left to wait for. -/
theorem Written.select_resp (h : Written c o) (tag : Tag) (controls : List Control) :
    ∃ c', c.select (.resp (c.ops o).id tag controls) = some (.next c') ∧
      CarriedThrough o (.ok c') := by
  have hslot : c.resultmap (c.ops o).id = some o := by simp [h.resultmap_eq]
  have hresp : c.turnResp (c.ops o).id tag controls =
      (({ c with resultmap := Function.update c.resultmap (c.ops o).id none }.sendReply o
        (tag, controls)).record (.decoded (c.ops o).id tag controls)).erase (c.ops o).id := by
    have hlock : c.msgmap.poisoned = false := h.lock
    simp [turnResp, h.searchmap_eq, hslot, release, MsgmapMutex.remove, erase, record, sendReply,
      setOp, hlock]
  refine ⟨_, by rw [select, leadsOn_of_running]; rw [hresp]; exact h.running, ?_⟩
  rw [hresp]
  refine ⟨?_, ?_, h.rx_eq, fun id ↦ ?_⟩
  · simp [record, erase, sendReply, setOp, h.wrote]
  · simp [record, erase, sendReply, setOp, h.replyOpen]
  · simp [record, erase, sendReply, setOp, h.resultmap_eq]

/-- Whatever else is ready leaves the operation without a response, or is an I/O error. -/
theorem Written.select_other (h : Written c o) {r : Ready} {f : Flow}
    (hr : ∀ tag controls, r ≠ .resp (c.ops o).id tag controls) (hs : c.select r = some f) :
    (∃ c', (f = .next c' ∨ f = .break c') ∧ (c'.ops o).reply = none) ∨
      ∃ msg, r = .ioError msg ∧ f = .return (c.stop (.failed msg)) := by
  cases r with
  | op written => simp [select, h.rx_eq] at hs
  | scrub =>
    obtain ⟨c', hscrub, rfl⟩ := Option.map_eq_some_iff.1 hs
    obtain ⟨hrun, -, hops⟩ := turnScrub_spec h.running h.lock hscrub
    exact .inl ⟨c', .inl (leadsOn_of_running hrun _), hops ▸ h.reply_eq⟩
  | scrubClosed =>
    simp only [select] at hs
    split at hs
    · exact .inl ⟨c, .inl (Option.some.inj hs).symm, h.reply_eq⟩
    · cases hs
  | opClosed =>
    simp only [select] at hs
    split at hs
    · exact .inl ⟨c, .inr (Option.some.inj hs).symm, h.reply_eq⟩
    · cases hs
  | misc => exact .inl ⟨c, .inl (Option.some.inj hs).symm, h.reply_eq⟩
  | miscClosed | eof => exact .inl ⟨c, .inr (Option.some.inj hs).symm, h.reply_eq⟩
  | resp id tag controls =>
    have hid : id ≠ (c.ops o).id := by
      rintro rfl
      exact hr tag controls rfl
    have hresp : c.turnResp id tag controls = c.record (.decoded id tag controls) := by
      simp [turnResp, h.searchmap_eq id, h.resultmap_eq, hid]
    rw [select, hresp, leadsOn_of_running (show (c.record _).status = .running from h.running)] at hs
    exact .inl ⟨_, .inl (Option.some.inj hs).symm, h.reply_eq⟩
  | ioError msg => exact .inr ⟨msg, rfl, (Option.some.inj hs).symm⟩

/-- In the mode `SingleOp` a branch that does not go back by `continue` is the last one. -/
theorem turn_singleOp_of_select {c' : Conn} {r : Ready} {f : Flow} {rs : List Ready}
    {res : Except Conn Conn} (hs : c.select r = some f) (hf : f = .next c' ∨ f = .break c')
    (h : turn .singleOp c (r :: rs) = some res) : res = .ok c' := by
  rw [turn, hs] at h
  rcases hf with rfl | rfl <;> exact (Option.some.inj h).symm

theorem turn_singleOp_of_return {c' : Conn} {r : Ready} {rs : List Ready}
    {res : Except Conn Conn} (hs : c.select r = some (.return c'))
    (h : turn .singleOp c (r :: rs) = some res) : res = .error c' := by
  rw [turn, hs] at h
  exact (Option.some.inj h).symm

/-- What a connection that waits for the response makes of the next thing that is ready. -/
theorem Written.carriedThrough_iff (h : Written c o) {rs : List Ready} {res : Except Conn Conn}
    (hturn : turn .singleOp c rs = some res) :
    CarriedThrough o res ↔ AnsweredFirst (c.ops o).id (.op true :: rs) := by
  rcases rs with - | ⟨r, rs⟩
  · cases hturn
  by_cases hr : ∃ tag controls, r = .resp (c.ops o).id tag controls
  · obtain ⟨tag, controls, rfl⟩ := hr
    obtain ⟨c', hs, hdone⟩ := h.select_resp tag controls
    rw [turn_singleOp_of_select hs (.inl rfl) hturn]
    exact ⟨fun _ ↦ rfl, fun _ ↦ hdone⟩
  push Not at hr
  rcases hs : c.select r with - | f
  · rw [turn, hs] at hturn
    cases hturn
  rcases h.select_other hr hs with ⟨c', hf, hreply⟩ | ⟨msg, rfl, rfl⟩
  · rw [turn_singleOp_of_select hs hf hturn]
    refine ⟨fun hdone ↦ absurd hreply hdone.2.1, fun hfirst ↦ ?_⟩
    -- Of the branches that end the turn only an answer would carry the operation through.
    cases r with
    | ioError msg =>
      obtain rfl := Option.some.inj hs
      simp at hf
    | resp id tag controls =>
      obtain rfl : id = (c.ops o).id := hfirst
      exact absurd rfl (hr tag controls)
    | _ => exact hfirst.elim
  · rw [turn_singleOp_of_return hs hturn]
    exact ⟨fun _ ↦ trivial, fun _ ↦ not_awaited_stop c o _⟩

/-- **Single operations.** The mode carries the queued operation through exactly when it is the
first thing that is ready and its response the second, or when an I/O error ends the loop. -/
theorem singleOp_iff (h : OneQueued c o) {rs : List Ready} {res : Except Conn Conn}
    (hturn : turn .singleOp c rs = some res) :
    CarriedThrough o res ↔ AnsweredFirst (c.ops o).id rs := by
  rcases rs with - | ⟨r, rs⟩
  · cases hturn
  by_cases hr : ∃ written, r = .op written
  · obtain ⟨written, rfl⟩ := hr
    cases written with
    | false =>
      obtain ⟨c', hs⟩ := h.select_op_error
      rw [turn_singleOp_of_return hs hturn]
      exact ⟨fun _ ↦ trivial, fun _ ↦ not_awaited_stop c' o _⟩
    | true =>
      obtain ⟨c', hs, hwritten, hid⟩ := h.select_op
      rw [turn, hs] at hturn
      rw [← hid]
      exact hwritten.carriedThrough_iff hturn
  push Not at hr
  rcases hs : c.select r with - | f
  · rw [turn, hs] at hturn
    cases hturn
  rcases h.select_other hr hs with ⟨c', hf, hrx⟩ | ⟨msg, rfl, rfl⟩
  · rw [turn_singleOp_of_select hs hf hturn]
    refine ⟨fun hdone ↦ ?_, fun hfirst ↦ ?_⟩
    -- The returned connection has the operation in its queue.
    · rw [hdone.2.2.1] at hrx
      cases hrx
    · cases r with
      | ioError msg =>
        obtain rfl := Option.some.inj hs
        simp at hf
      | op written => exact absurd rfl (hr written)
      | _ => exact hfirst.elim
  · rw [turn_singleOp_of_return hs hturn]
    exact ⟨fun _ ↦ trivial, fun _ ↦ not_awaited_stop c o _⟩

/-- A connection with a queued extended request, which is written and answered. -/
theorem singleOp_iff_answered :
    ∃ c res, OneQueued c 0 ∧ turn .singleOp c [.op true, .resp 1 .ofNull []] = some (.ok res) ∧
      (CarriedThrough 0 (.ok res) ↔ AnsweredFirst 1 [.op true, .resp 1 .ofNull []]) := by
  let queued : Conn := { init with
    numOps := 1
    ops := fun _ ↦ { Op.new 1 .single .ofNull none with phase := .queued }
    rx := [0] }
  have hqueued : OneQueued queued 0 := ⟨rfl, rfl, rfl, rfl, rfl, rfl, fun _ ↦ rfl, fun _ ↦ rfl⟩
  exact ⟨queued, _, hqueued, rfl, singleOp_iff hqueued rfl⟩

/-- A message that nobody asked for ends the turn before the operation is sent: the connection is
handed back with the operation still queued. -/
theorem singleOp_unsolicited :
    let notice : Tag := .structureTag ⟨.application, 24, .C [⟨.universal, 10, .P [52]⟩,
      ⟨.universal, 4, .P []⟩, ⟨.universal, 4, .P []⟩]⟩
    ∃ c res, Machine.Reach step Machine.any init c ∧ OneQueued c 0 ∧
      turn .singleOp c [.resp 0 notice []] = some (.ok res) ∧ res.rx = [0] ∧
      ¬CarriedThrough 0 (.ok res) := by
  intro notice
  have hinit : Machine.Reach step Machine.any init init := .init
  have halloc := hinit.step (l := Act.alloc .single .ofNull none) trivial rfl
  have hqueued := halloc.step (l := Act.enqueue 0) trivial rfl
  refine ⟨_, _, hqueued, ⟨rfl, rfl, rfl, rfl, rfl, rfl, fun _ ↦ rfl, fun _ ↦ rfl⟩, rfl, rfl, ?_⟩
  rintro ⟨-, -, hrx, -⟩
  cases hrx

end Conn

end Ldap3
