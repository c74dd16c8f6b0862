import Ldap3.Conn.SingleOp
import Ldap3.Conn.Wire
import Ldap3.Exop.Requests

/-!
# StartTLS in the clear

What goes on between the connection of a socket and the TLS handshake when `new_tcp` is to use
StartTLS. A task of its own carries the new connection through `turn` in the mode `SingleOp`, while
`try_join!` waits for that task and for `extended(StartTLS)` together. `Clear` is the state of both,
with the octets that came in and went out so far; the program has no record of these.

The peer and the network are not trusted here. What they can do is in the moves: any octets can
come in, cut in any way, before or after the request; a read or a write can fail. **The exchange**
(`Clear.exchange_of_reach`): in no run does anything go out but the request, or a part of it; and
if the wait ends with a result, it is what the first message that came in says, and that message
has the id of the request.
-/

namespace Ldap3

/-- The errors of setting a connection up: those of `LdapError` that no operation returns, with the
others in `ldap`. -/
inductive SetupError where
  | emptyUnixPath
  | portInUnixPath
  | mismatchedStreamType
  | unknownScheme (scheme : String)
  | io (msg : String)
  | tls (msg : String)
  | ldapResult (result : LdapResult)
  | ldap (e : LdapError)
  | panic
  deriving DecidableEq

namespace StartTLS

/-- The tree `extended(StartTLS)` builds. -/
def req : Tag :=
  .sequence 23 .application [.octetString 0 .context (asBytes STARTTLS_OID)]

example : Request.extended exop = .ok req :=
  rfl

/-- The octets of the request, which is the first on its connection. -/
def request : List UInt8 :=
  encode 1 req none

end StartTLS

/-- A connection in the clear, with the task that turns it. -/
structure Clear where
  core : Conn
  /-- The read buffer. -/
  buf : List UInt8
  /-- A read gave nothing. -/
  eof : Bool
  /-- What came in so far. -/
  received : List UInt8
  /-- What went out so far. -/
  sent : List UInt8
  /-- The task sent the connection back. -/
  returned : Bool

/-- What can happen to it. -/
inductive ClearMove where
  /-- `extended(StartTLS)` sends the operation to the driver. -/
  | call
  /-- The driver sends the operation to the server. -/
  | send
  /-- The stream fails when it has taken some octets of the operation. -/
  | sendError (taken : ℕ)
  /-- A read of the socket, at the end of which it gives nothing. -/
  | read (chunk : List UInt8)
  /-- A read fails. -/
  | readError (msg : String)
  /-- The driver takes what the stream has for it. -/
  | next

namespace Clear

def init : Clear :=
  ⟨Conn.init, [], false, [], [], false⟩

/-- The task is in its loop. -/
def Turning (s : Clear) : Prop :=
  s.returned = false ∧ s.core.status = .running

instance (s : Clear) : Decidable s.Turning :=
  inferInstanceAs (Decidable (_ ∧ _))

/-- A branch of the `select!`, and the test of the mode behind it. -/
def branch (s : Clear) (r : Ready) : Option Clear :=
  if s.Turning then
    (s.core.select r).map fun
      | .next c | .break c => { s with core := c, returned := true }
      | .continue c | .return c => { s with core := c }
  else
    none

/-- `op_call` up to the wait for the response. Without a driver the operation stays where it is. -/
def opCall (c : Conn) : Option Conn :=
  (c.alloc .single StartTLS.req none).map fun c ↦ (c.enqueue 0).getD c

def call (s : Clear) : Option Clear :=
  if s.core.numOps = 0 then (opCall s.core).map fun c ↦ { s with core := c } else none

def send (s : Clear) (written : Bool) (octets : List UInt8 → List UInt8) : Option Clear := do
  let o ← s.core.rx.head?
  let s' ← s.branch (.op written)
  some { s' with sent := s.sent ++ octets (s.core.request o) }

/-- The stream is read when the decoder waits and the end was not seen. -/
def read (s : Clear) (chunk : List UInt8) : Option Clear :=
  match decodeInner s.buf with
  | (.ok none, _) =>
    if s.Turning ∧ s.eof = false then
      some { s with
        buf := s.buf ++ chunk
        eof := chunk.isEmpty
        received := s.received ++ chunk }
    else
      none
  | _ => none

/-- `stream.next`, with `decode_eof` at the end. -/
def next (s : Clear) : Option Clear :=
  match decodeInner s.buf with
  | (.ok (some (id, tag, controls)), buf) =>
    (s.branch (.resp id tag controls)).map fun s ↦ { s with buf := buf }
  | (.ok none, _) =>
    if s.eof then
      s.branch (if s.buf.isEmpty then .eof else .ioError "bytes remaining on stream")
    else
      none
  | (.error (.error msg), _) => s.branch (.ioError msg)
  | (.error (.panic msg), _) =>
    if s.Turning then some { s with core := s.core.stop (.panicked msg) } else none

/-- **One move of the caller, of the task or of the peer.** -/
def step (s : Clear) : ClearMove → Option Clear
  | .call => s.call
  | .send => s.send true id
  | .sendError taken => s.send false (·.take taken)
  | .read chunk => s.read chunk
  | .readError msg => s.branch (.ioError msg)
  | .next => s.next

/-- What `try_join!` comes to; without a value as long as it waits. A connection that was sent back
keeps the sender of the response, so the wait goes on without end if there is no response in it. -/
def joined (s : Clear) : Option (Except SetupError LdapResultExt) :=
  if s.returned then
    (s.core.ops 0).reply.map fun response ↦ (opResult response).mapError fun _ ↦ .panic
  else
    match s.core.status with
    | .running | .closed => none
    | .panicked _ => some (.error (.ldap .resultRecv))
    | .failed _ =>
      if s.core.numOps = 0 then none
      else if (s.core.ops 0).phase = .allocated then some (.error (.ldap .opSend))
      else some (.error (.ldap .resultRecv))

/-! ### What a move does -/

variable {s s' : Clear}

/-- Of the branches only the one that sends goes back to the head of the loop, and what is not sent
and not a message of an operation leaves the operations alone. -/
theorem select_other {c : Conn} {r : Ready} {f : Flow} (hrun : c.status = .running)
    (hop : ∀ b, r ≠ .op b)
    (hresp : ∀ id tag controls, r = .resp id tag controls →
      c.searchmap id = none ∧ c.resultmap id = none) (h : c.select r = some f) :
    ∃ c', c'.ops = c.ops ∧
      (f = .next c' ∨ f = .break c' ∨ f = .return c' ∧ c'.status ≠ .running) := by
  cases r with
  | op b => exact absurd rfl (hop b)
  | scrub =>
    obtain ⟨c', hscrub, rfl⟩ := Option.map_eq_some_iff.1 h
    have hops : c'.ops = c.ops := by
      have hstep : c.step .turnScrub = some c' := by rw [Conn.step, if_pos hrun, hscrub]
      cases Conn.step_cases hstep <;> rfl
    refine ⟨c', hops, ?_⟩
    by_cases hrun' : c'.status = .running
    · exact .inl (Conn.leadsOn_of_running hrun' _)
    · exact .inr (.inr ⟨if_neg hrun', hrun'⟩)
  | scrubClosed =>
    obtain ⟨-, h⟩ := Option.ite_none_right_eq_some.1 h
    exact ⟨c, rfl, .inl (Option.some.inj h).symm⟩
  | opClosed =>
    obtain ⟨-, h⟩ := Option.ite_none_right_eq_some.1 h
    exact ⟨c, rfl, .inr (.inl (Option.some.inj h).symm)⟩
  | misc => exact ⟨c, rfl, .inl (Option.some.inj h).symm⟩
  | miscClosed | eof => exact ⟨c, rfl, .inr (.inl (Option.some.inj h).symm)⟩
  | resp id tag controls =>
    obtain ⟨hsearch, hresult⟩ := hresp id tag controls rfl
    have hturn : c.turnResp id tag controls = c.record (.decoded id tag controls) := by
      simp [Conn.turnResp, hsearch, hresult]
    rw [Conn.select, hturn] at h
    obtain rfl := Option.some.inj h
    refine ⟨c.record (.decoded id tag controls), rfl, ?_⟩
    by_cases hrun : (c.record (.decoded id tag controls)).status = .running
    · exact .inl (if_pos hrun)
    · exact .inr (.inr ⟨if_neg hrun, hrun⟩)
  | ioError msg =>
    exact ⟨c.stop (.failed msg), rfl, .inr (.inr ⟨(Option.some.inj h).symm, by simp [Conn.stop]⟩)⟩

/-- A branch of these is the last one. -/
theorem branch_other {r : Ready} (hop : ∀ b, r ≠ .op b)
    (hresp : ∀ id tag controls, r = .resp id tag controls →
      s.core.searchmap id = none ∧ s.core.resultmap id = none) (h : s.branch r = some s') :
    ¬s'.Turning ∧ s'.core.ops = s.core.ops ∧ s'.sent = s.sent := by
  obtain ⟨⟨-, hrun⟩, h⟩ := Option.ite_none_right_eq_some.1 h
  obtain ⟨f, hselect, rfl⟩ := Option.map_eq_some_iff.1 h
  obtain ⟨c', hops, rfl | rfl | ⟨rfl, hstop⟩⟩ := select_other hrun hop hresp hselect
  · exact ⟨fun hturning ↦ Bool.noConfusion hturning.1, hops, rfl⟩
  · exact ⟨fun hturning ↦ Bool.noConfusion hturning.1, hops, rfl⟩
  · exact ⟨fun hturning ↦ hstop hturning.2, hops, rfl⟩

/-! ### The stages of the exchange -/

/-- The connection with the operation in its queue. -/
def queued : Conn :=
  { Conn.init.setOp 0 fun _ ↦ { Op.new 1 .single StartTLS.req none with phase := .queued } with
    msgmap := ⟨⟨1, insert 1 ∅⟩, false⟩
    numOps := 1
    rx := [0] }

/-- The operation was sent, and its response is awaited. -/
def written : Conn :=
  { (queued.setOp 0 fun op ↦ { op with phase := .taken }).record (.wrote 0) with
    rx := []
    resultmap := Function.update (fun _ ↦ none) 1 (some 0) }

/-- The response came. -/
def answered (tag : Tag) (controls : List Control) : Conn :=
  written.turnResp 1 tag controls

theorem exists_alloc_init : ∃ c, Conn.init.alloc .single StartTLS.req none = some c ∧
    c.enqueue 0 = some queued := by
  have hops : Function.update (Function.update Conn.init.ops 0 (.new 1 .single StartTLS.req none)) 0
      { Op.new 1 .single StartTLS.req none with phase := .queued } =
      Function.update Conn.init.ops 0
        { Op.new 1 .single StartTLS.req none with phase := .queued } :=
    Function.update_idem ..
  refine ⟨_, rfl, ?_⟩
  rw [queued, Conn.setOp, ← hops]
  rfl

theorem opCall_init : opCall Conn.init = some queued := by
  obtain ⟨c, hc, henqueue⟩ := exists_alloc_init
  rw [opCall, hc, Option.map_some, henqueue, Option.getD_some]

theorem opCall_spec {c c' : Conn} (hnum : c.numOps = 0) (h : opCall c = some c') :
    c'.status = c.status ∧ (c'.ops 0).reply = none := by
  obtain ⟨c₁, hc₁, rfl⟩ := Option.map_eq_some_iff.1 h
  obtain ⟨id, -, rfl⟩ := Conn.alloc_spec hc₁
  rw [Conn.enqueue, hnum]
  split
  · exact ⟨rfl, by simp [Conn.setOp, Op.new]⟩
  · exact ⟨rfl, by simp [Op.new]⟩

theorem request_queued : queued.request 0 = StartTLS.request :=
  rfl

theorem resultmap_written {id : RequestId} (hid : id ≠ 1) : written.resultmap id = none := by
  show Function.update (fun _ ↦ none) 1 (some 0) id = none
  exact Function.update_of_ne hid _ _

/-- The exchange, as the connection sees it. -/
theorem reach_answered (tag : Tag) (controls : List Control) :
    Machine.Reach Conn.step Machine.any Conn.init (answered tag controls) := by
  obtain ⟨c, hc, henqueue⟩ := exists_alloc_init
  have halloc : Machine.Reach Conn.step Machine.any Conn.init c :=
    .single (l := Conn.Act.alloc .single StartTLS.req none) trivial hc
  have hqueued : Machine.Reach Conn.step Machine.any Conn.init queued :=
    halloc.step (l := Conn.Act.enqueue 0) trivial henqueue
  have hwritten : Machine.Reach Conn.step Machine.any Conn.init written :=
    hqueued.step (l := Conn.Act.turnOp true) trivial rfl
  exact hwritten.step (l := Conn.Act.turnResp 1 tag controls) trivial rfl

/-- **How far the exchange is.** -/
inductive Stage (s : Clear) : Prop
  /-- Nothing happened but reads. -/
  | idle (hcore : s.core = Conn.init) (hbuf : s.received = s.buf) (hsent : s.sent = [])
      (hturning : s.Turning)
  | queued (hcore : s.core = queued) (hbuf : s.received = s.buf) (hsent : s.sent = [])
      (hturning : s.Turning)
  | written (hcore : s.core = written) (hbuf : s.received = s.buf)
      (hsent : s.sent = StartTLS.request) (hturning : s.Turning)
  | answered (tag : Tag) (controls : List Control) (hcore : s.core = answered tag controls)
      (hdec : decodeInner s.received = (.ok (some (1, tag, controls)), s.buf))
      (hsent : s.sent = StartTLS.request) (hreturned : s.returned = true)
  /-- The task is over, and there will be no response. -/
  | ended (hover : ¬s.Turning) (hreply : (s.core.ops 0).reply = none)
      (hsent : s.sent <+: StartTLS.request)

/-- The end of the task by another branch than the one of the response. -/
theorem Stage.of_branch {r : Ready} (hop : ∀ b, r ≠ .op b)
    (hresp : ∀ id tag controls, r = .resp id tag controls →
      s.core.searchmap id = none ∧ s.core.resultmap id = none)
    (hreply : (s.core.ops 0).reply = none) (hsent : s.sent <+: StartTLS.request)
    (h : s.branch r = some s') : Stage s' := by
  obtain ⟨hover, hops, hsent'⟩ := branch_other hop hresp h
  exact .ended hover (hops ▸ hreply) (hsent' ▸ hsent)

/-- As long as the task turns, nothing was taken from the stream. -/
theorem Stage.of_turning (h : Stage s) (hturning : s.Turning) :
    s.received = s.buf ∧ s.sent <+: StartTLS.request ∧ (s.core.ops 0).reply = none ∧
      (∀ id, s.core.searchmap id = none) ∧
      ((∀ id, s.core.resultmap id = none) ∨
        s.core = Clear.written ∧ s.sent = StartTLS.request) := by
  cases h with
  | idle hcore hbuf hsent =>
    rw [hcore, hsent]
    exact ⟨hbuf, List.nil_prefix, rfl, fun _ ↦ rfl, .inl fun _ ↦ rfl⟩
  | queued hcore hbuf hsent =>
    rw [hcore, hsent]
    exact ⟨hbuf, List.nil_prefix, rfl, fun _ ↦ rfl, .inl fun _ ↦ rfl⟩
  | written hcore hbuf hsent =>
    rw [hcore, hsent]
    exact ⟨hbuf, List.prefix_rfl, rfl, fun _ ↦ rfl, .inr ⟨rfl, rfl⟩⟩
  | answered tag controls hcore hdec hsent hreturned =>
    rw [hturning.1] at hreturned
    cases hreturned
  | ended hover => exact absurd hturning hover

theorem Stage.call (h : Stage s) (hs : s.call = some s') : Stage s' := by
  obtain ⟨hnum, hs⟩ := Option.ite_none_right_eq_some.1 hs
  cases h with
  | idle hcore hbuf hsent hturning =>
    rw [hcore, opCall_init] at hs
    obtain rfl := Option.some.inj hs
    exact .queued rfl hbuf hsent ⟨hturning.1, rfl⟩
  | queued hcore | written hcore | answered _ _ hcore =>
    rw [hcore] at hnum
    cases hnum
  | ended hover hreply hsent =>
    obtain ⟨c, hc, rfl⟩ := Option.map_eq_some_iff.1 hs
    obtain ⟨hstatus, hreply⟩ := opCall_spec hnum hc
    exact .ended (fun h ↦ hover ⟨h.1, hstatus ▸ h.2⟩) hreply hsent

/-- A request goes out, or breaks off. -/
theorem Stage.send (h : Stage s) {sent : Bool} {octets : List UInt8 → List UInt8}
    (hs : s.send sent octets = some s') (hfront : ∀ w, octets w <+: w)
    (hwhole : sent = true → ∀ w, octets w = w) : Stage s' := by
  obtain ⟨o, ho, hs⟩ := Option.bind_eq_some_iff.1 hs
  obtain ⟨s₁, hbranch, hs⟩ := Option.bind_eq_some_iff.1 hs
  obtain rfl := Option.some.inj hs
  obtain ⟨hturning, hbranch⟩ := Option.ite_none_right_eq_some.1 hbranch
  cases h with
  | idle hcore | written hcore =>
    rw [hcore] at ho
    cases ho
  | queued hcore hbuf hsent =>
    rw [hcore] at ho hbranch
    obtain rfl : 0 = o := Option.some.inj ho
    cases sent with
    | true =>
      obtain rfl := Option.some.inj hbranch
      refine .written rfl hbuf ?_ ⟨hturning.1, rfl⟩
      rw [hsent, hwhole rfl, hcore]
      rfl
    | false =>
      obtain rfl := Option.some.inj hbranch
      have hstop : Status.failed "socket send error" ≠ .running := by simp
      refine .ended (fun h ↦ hstop h.2) rfl ?_
      show s.sent ++ octets (s.core.request 0) <+: StartTLS.request
      rw [hsent, hcore, List.nil_append, request_queued]
      exact hfront _
  | answered _ _ _ _ _ hreturned =>
    rw [hturning.1] at hreturned
    cases hreturned
  | ended hover => exact absurd hturning hover

theorem Stage.read (h : Stage s) {chunk : List UInt8} (hs : s.read chunk = some s') : Stage s' := by
  simp only [Clear.read] at hs
  split at hs
  · obtain ⟨⟨hturning, -⟩, hs⟩ := Option.ite_none_right_eq_some.1 hs
    obtain rfl := Option.some.inj hs
    cases h with
    | idle hcore hbuf hsent => exact .idle hcore (congrArg (· ++ chunk) hbuf) hsent hturning
    | queued hcore hbuf hsent => exact .queued hcore (congrArg (· ++ chunk) hbuf) hsent hturning
    | written hcore hbuf hsent => exact .written hcore (congrArg (· ++ chunk) hbuf) hsent hturning
    | answered _ _ _ _ _ hreturned =>
      rw [hturning.1] at hreturned
      cases hreturned
    | ended hover => exact absurd hturning hover
  · cases hs

/-- A message ends the task. -/
theorem Stage.message (h : Stage s) {id : RequestId} {tag : Tag} {controls : List Control}
    {buf : List UInt8} (hdec : decodeInner s.buf = (.ok (some (id, tag, controls)), buf))
    (hs : s.branch (.resp id tag controls) = some s') : Stage { s' with buf := buf } := by
  have hturning := (Option.ite_none_right_eq_some.1 hs).1
  obtain ⟨hbuf, hsent, hreply, hsearch, hresult⟩ := h.of_turning hturning
  by_cases hnone : s.core.resultmap id = none
  · obtain ⟨hover, hops, hsent'⟩ := branch_other (fun _ h ↦ by cases h)
      (fun _ _ _ h ↦ by cases h; exact ⟨hsearch id, hnone⟩) hs
    exact .ended hover (hops ▸ hreply) (hsent' ▸ hsent)
  · obtain ⟨hcore, hsent⟩ := hresult.resolve_left fun h ↦ hnone (h id)
    rw [hcore] at hnone
    obtain rfl : id = 1 := by
      by_contra hid
      exact hnone (resultmap_written hid)
    rw [Clear.branch, if_pos hturning, hcore] at hs
    obtain rfl := Option.some.inj hs
    exact .answered tag controls rfl (hbuf ▸ hdec) hsent rfl

theorem Stage.next (h : Stage s) (hs : s.next = some s') : Stage s' := by
  have hother : ∀ {r : Ready}, s.branch r = some s' → (∀ b, r ≠ .op b) →
      (∀ id tag controls, r ≠ .resp id tag controls) → Stage s' := by
    intro r hs hop hresp
    have hturning := (Option.ite_none_right_eq_some.1 hs).1
    obtain ⟨-, hsent, hreply, -⟩ := h.of_turning hturning
    exact .of_branch hop (fun id tag controls h ↦ absurd h (hresp id tag controls)) hreply hsent hs
  simp only [Clear.next] at hs
  split at hs
  · rename_i id tag controls buf hdec
    obtain ⟨s₁, hs₁, rfl⟩ := Option.map_eq_some_iff.1 hs
    exact h.message hdec hs₁
  · -- The end of the stream, inside a message or not.
    obtain ⟨-, hs⟩ := Option.ite_none_right_eq_some.1 hs
    split at hs <;> exact hother hs (fun _ h ↦ by cases h) fun _ _ _ h ↦ by cases h
  · exact hother hs (fun _ h ↦ by cases h) fun _ _ _ h ↦ by cases h
  · obtain ⟨hturning, hs⟩ := Option.ite_none_right_eq_some.1 hs
    obtain rfl := Option.some.inj hs
    obtain ⟨-, hsent, hreply, -⟩ := h.of_turning hturning
    exact .ended (fun h ↦ by simp [Conn.stop] at h; cases h.2) hreply hsent

theorem Stage.step (h : Stage s) {m : ClearMove} (hs : s.step m = some s') : Stage s' := by
  cases m with
  | call => exact h.call hs
  | send => exact h.send hs (fun w ↦ List.prefix_rfl) fun _ _ ↦ rfl
  | sendError taken => exact h.send hs (fun w ↦ w.take_prefix taken) fun h ↦ Bool.noConfusion h
  | read chunk => exact h.read hs
  | readError msg =>
    have hturning := (Option.ite_none_right_eq_some.1 hs).1
    obtain ⟨-, hsent, hreply, -⟩ := h.of_turning hturning
    exact .of_branch (fun _ h ↦ by cases h) (fun _ _ _ h ↦ by cases h) hreply hsent hs
  | next => exact h.next hs

theorem Stage.of_reach (h : Machine.Reach Clear.step Machine.any init s) : Stage s :=
  h.invariant (.idle rfl rfl rfl ⟨rfl, rfl⟩) fun h _ hs ↦ h.step hs

/-! ### The exchange -/

/-- The response as the caller gets it. -/
structure Answered (s : Clear) (tag : Tag) (controls : List Control) (ext : LdapResultExt) :
    Prop where
  core_eq : s.core = Clear.answered tag controls
  read : decodeInner s.received = (.ok (some (1, tag, controls)), s.buf)
  sent_eq : s.sent = StartTLS.request
  result : opResult (tag, controls) = .ok ext

/-- The wait ends with a result after the response only. -/
theorem Stage.of_joined (h : Stage s) {ext : LdapResultExt} (hj : s.joined = some (.ok ext)) :
    ∃ tag controls, Answered s tag controls ext := by
  rw [joined] at hj
  split at hj
  · rename_i hreturned
    obtain ⟨response, hreply, hext⟩ := Option.map_eq_some_iff.1 hj
    cases h with
    | answered tag controls hcore hdec hsent =>
      refine ⟨tag, controls, hcore, hdec, hsent, ?_⟩
      rw [hcore] at hreply
      obtain rfl : (tag, controls) = response := Option.some.inj hreply
      rcases hres : opResult (tag, controls) with e | ext'
      · rw [hres] at hext
        cases hext
      · rw [hres] at hext
        exact congrArg _ (Except.ok.inj hext)
    | idle _ _ _ hturning | queued _ _ _ hturning | written _ _ _ hturning =>
      rw [hturning.1] at hreturned
      cases hreturned
    | ended _ hnone =>
      rw [hnone] at hreply
      cases hreply
  · split at hj
    · cases hj
    · cases hj
    · cases Option.some.inj hj
    · split at hj
      · cases hj
      · split at hj <;> cases Option.some.inj hj

end Clear

/-- The request as the first one on its connection. -/
def StartTLS.issued : IssuedRequest String where
  id := 1
  call := .extended StartTLS.exop
  opts := {}
  controls := none
  req := StartTLS.req
  id_range := firstId_range
  in_range := trivial
  request_eq := rfl
  fits := by decide +kernel

/-- A server reads the request as what it is. -/
theorem StartTLS.readsExtended_request (x : Grammar.ExopMeaning) :
    Grammar.ReadsExtended Grammar.requestExops StartTLS.request x ↔ x = .startTLS :=
  readsExtended_iff (e := .startTLS) StartTLS.issued rfl x

namespace Clear

variable {s : Clear}

/-- **The exchange.** Whatever happens, nothing goes out in the clear but the request, or a part of
it. If the wait for the task and the call ends with a result, a server reads what went out as
StartTLS, and the result is what the first message that came in says, which has the id of the
request; nothing after this message was looked at. -/
theorem exchange_of_reach (h : Machine.Reach Clear.step Machine.any init s) :
    s.sent <+: StartTLS.request ∧ ∀ ext, s.joined = some (.ok ext) →
      (∀ x, Grammar.ReadsExtended Grammar.requestExops s.sent x ↔ x = .startTLS) ∧
        ∃ tag controls, decodeInner s.received = (.ok (some (1, tag, controls)), s.buf) ∧
          opResult (tag, controls) = .ok ext := by
  have hstage := Stage.of_reach h
  constructor
  · cases hstage with
    | idle _ _ hsent | queued _ _ hsent =>
      rw [hsent]
      exact List.nil_prefix
    | written _ _ hsent | answered _ _ _ _ hsent => rw [hsent]
    | ended _ _ hsent => exact hsent
  · intro ext hj
    obtain ⟨tag, controls, hans⟩ := hstage.of_joined hj
    exact ⟨hans.sent_eq ▸ StartTLS.readsExtended_request, tag, controls, hans.read, hans.result⟩

/-- The response comes in two parts, the second with an octet that does not belong to it. -/
theorem exchange_of_reach_granted :
    ∃ s ext, Machine.run Clear.step Machine.any init
        [.call, .send, .read [0x30, 0x0C, 0x02, 0x01],
          .read [0x01, 0x78, 0x07, 0x0A, 0x01, 0x00, 0x04, 0x00, 0x04, 0x00, 0x30],
          .next] = some s ∧
      s.joined = some (.ok ext) ∧ ext.result.rc = 0 ∧ s.buf = [0x30] ∧
      ∀ x, Grammar.ReadsExtended Grammar.requestExops s.sent x ↔ x = .startTLS := by
  have hsome : (Machine.run Clear.step Machine.any init
      [.call, .send, .read [0x30, 0x0C, 0x02, 0x01],
        .read [0x01, 0x78, 0x07, 0x0A, 0x01, 0x00, 0x04, 0x00, 0x04, 0x00, 0x30], .next]).map
      (fun s ↦ (s.buf, s.joined.map fun r ↦ r.map fun ext ↦ ext.result.rc)) =
        some ([0x30], some (.ok 0)) := by
    decide +kernel
  obtain ⟨s, hs, hstate⟩ := Option.map_eq_some_iff.1 hsome
  simp only [Prod.mk.injEq] at hstate
  obtain ⟨hbuf, hjoined⟩ := hstate
  obtain ⟨r, hr, hrc⟩ := Option.map_eq_some_iff.1 hjoined
  cases r with
  | ok ext => exact ⟨s, ext, hs, hr, Except.ok.inj hrc, hbuf,
      ((exchange_of_reach (Machine.reach_of_run hs)).2 ext hr).1⟩
  | error e => cases hrc

/-! ### A server that answers -/

/-- The response is awaited, and the octets came in. -/
def awaiting (octets : List UInt8) : Clear :=
  ⟨written, octets, false, octets, StartTLS.request, false⟩

theorem run_request :
    Machine.run Clear.step Machine.any init [.call, .send] = some (awaiting []) := by
  have hcall : init.step .call = some ⟨queued, [], false, [], [], false⟩ := by
    rw [step, call, if_pos (show init.core.numOps = 0 from rfl)]
    show (opCall Conn.init).map _ = _
    rw [opCall_init]
    rfl
  have hsend : (⟨queued, [], false, [], [], false⟩ : Clear).step .send = some (awaiting []) := rfl
  simp only [Machine.run, Machine.any, if_true, hcall, hsend, Option.bind_eq_bind,
    Option.bind_some]

variable {m : ServerMessage}

/-- Pieces of a message that is not complete are read one after another. -/
theorem run_reads {cs : List (List UInt8)} {p q : List UInt8} (hcs : ∀ c ∈ cs, c ≠ [])
    (heq : p ++ cs.flatten ++ q = m.octets) :
    Machine.run Clear.step Machine.any (awaiting p) (cs.map .read) =
      some (awaiting (p ++ cs.flatten)) := by
  induction cs generalizing p with
  | nil => rw [List.flatten_nil, List.append_nil]; rfl
  | cons c cs ih =>
    rw [List.forall_mem_cons] at hcs
    rw [List.flatten_cons, ← List.append_assoc] at heq ⊢
    have hread : (awaiting p).step (.read c) = some (awaiting (p ++ c)) := by
      have hdec := m.decodeInner_octets []
      rw [List.append_nil, ← heq, List.append_assoc, List.append_assoc] at hdec
      have hwait := stable_decodeInner.wait_of_append hdec (by simp [hcs.1])
      have hempty : c.isEmpty = false := by simp [hcs.1]
      show (awaiting p).read c = _
      simp only [Clear.read, awaiting, hwait, hempty]
      rfl
    rw [List.map_cons, Machine.run, if_pos (show Machine.any _ _ from trivial), hread]
    exact ih hcs.2 heq

/-- **The response is read.** With the last octets of the message anything else may come in. -/
theorem run_answered (hid : m.id = 1) {cs : List (List UInt8)} {q : List UInt8}
    (hcs : ∀ c ∈ cs, c ≠ []) (hq : q ≠ []) (heq : cs.flatten ++ q = m.octets)
    (rest : List UInt8) :
    Machine.run Clear.step Machine.any init
        ([.call, .send] ++ cs.map .read ++ [.read (q ++ rest), .next]) =
      some ⟨answered m.decoded.2.1 m.decoded.2.2, rest, false, m.octets ++ rest, StartTLS.request,
        true⟩ := by
  have hdec := m.decodeInner_octets rest
  have hread : (awaiting cs.flatten).step (.read (q ++ rest)) =
      some (awaiting (m.octets ++ rest)) := by
    have hwhole := m.decodeInner_octets []
    rw [List.append_nil, ← heq] at hwhole
    have hwait := stable_decodeInner.wait_of_append hwhole hq
    have hempty : (q ++ rest).isEmpty = false := by simp [hq]
    show (awaiting cs.flatten).read (q ++ rest) = _
    simp only [Clear.read, awaiting, hwait, hempty, ← heq, List.append_assoc]
    rfl
  have hnext : (awaiting (m.octets ++ rest)).step .next =
      some ⟨answered m.decoded.2.1 m.decoded.2.2, rest, false, m.octets ++ rest,
        StartTLS.request, true⟩ := by
    show (awaiting (m.octets ++ rest)).next = _
    rw [ServerMessage.decoded, hid] at hdec
    simp only [Clear.next, awaiting, hdec]
    rfl
  have hreads := run_reads (p := []) hcs (by rw [List.nil_append, heq])
  rw [Machine.run_append, Machine.run_append, run_request, Option.bind_eq_bind, Option.bind_some,
    hreads, Option.bind_some, List.nil_append]
  simp only [Machine.run, Machine.any, if_true, hread, hnext, Option.bind_eq_bind,
    Option.bind_some]

/-- What comes of the wait is what the response says. -/
theorem joined_answered {r : Response} {rc : List UInt8} (hrc : Response.Denotes rc r.rc)
    (hop : m.op = r.opTag rc) (buf received sent : List UInt8) :
    joined ⟨answered m.decoded.2.1 m.decoded.2.2, buf, false, received, sent, true⟩ =
      some (.ok (r.result m.decoded.2.2)) := by
  have hresult := r.opResult_opTag hrc m.decoded.2.2
  rw [← hop] at hresult
  show some ((opResult (.structureTag m.op, m.decoded.2.2)).mapError _) = _
  rw [hresult]
  rfl

end Clear

end Ldap3
