import Ldap3.Conn.Dispatch
import Ldap3.Protocol.Chunks

/-!
# The driver on its stream

The driver of `Ldap3.Conn.Driver` takes messages and writes requests. Here it is put on the octets:
`self.stream` is `tokio_util`'s `Framed` around a socket, so a message is taken by decoding the read
buffer, the buffer grows by reads of any size, and a request is written by appending its encoding
to what was sent. The stream ends when a read gives nothing; a frame that is cut off by the end is
an error.

What the socket does is in the moves: what a read gives, whether a write goes through, and where it
breaks off if it does not. `received` and `sent` are all the octets that came in and went out. The
program has no such records; the results speak about them.

**Streams** (`Wire.streams_of_reach`). Whatever the peer sends and whoever moves, the driver handles
the messages that the octets received are decoded to, in order; and what it sends is the requests
it took from its queue, whole, in order, and each of them once. Only when it stops can a last
message be read that it did not handle, or a last request be cut off.
-/

namespace Ldap3

open Framing

/-! ### Requests stay what they are -/

namespace Conn

/-- What is written for an operation. -/
def request (c : Conn) (o : ℕ) : List UInt8 :=
  encode (c.ops o).id (c.ops o).req (c.ops o).controls

/-- The operation asks for the same, and once it was taken it stays so. -/
def Steady (op op' : Op) : Prop :=
  (op'.id = op.id ∧ op'.op = op.op ∧ op'.req = op.req ∧ op'.controls = op.controls) ∧
    (op.phase = .taken → op'.phase = .taken)

theorem Steady.refl (op : Op) : Steady op op :=
  ⟨⟨rfl, rfl, rfl, rfl⟩, id⟩

theorem Steady.trans {op op' op'' : Op} (h : Steady op op') (h' : Steady op' op'') :
    Steady op op'' := by
  obtain ⟨⟨hid, hop, hreq, hctrls⟩, hphase⟩ := h
  obtain ⟨⟨hid', hop', hreq', hctrls'⟩, hphase'⟩ := h'
  exact ⟨⟨hid'.trans hid, hop'.trans hop, hreq'.trans hreq, hctrls'.trans hctrls⟩,
    fun h ↦ hphase' (hphase h)⟩

/-- What happens to an operation. Only the two actions that drop a receiver close one. -/
inductive Update (a : Act) (o : ℕ) (op : Op) : Op → Prop
  | queued (hphase : op.phase = .allocated) : Update a o op { op with phase := .queued }
  | taken : Update a o op { op with phase := .taken }
  | reply (r : Tag × List Control) : Update a o op { op with reply := some r }
  | item (i : SearchItem × List Control) : Update a o op { op with items := op.items ++ [i] }
  | dropReply (ha : a = .dropReply o) : Update a o op { op with replyOpen := false }
  | dropItems (ha : a = .dropItems o) : Update a o op { op with itemsOpen := false }

abbrev Updates (a : Act) (o : ℕ) : Op → Op → Prop :=
  Relation.ReflTransGen (Update a o)

variable {c c' : Conn} {a : Act} {o : ℕ}

theorem updates_setOp (c : Conn) (o' : ℕ) {f : Op → Op}
    (hf : o' = o → Updates a o (c.ops o') (f (c.ops o'))) :
    Updates a o (c.ops o) ((c.setOp o' f).ops o) := by
  by_cases heq : o' = o
  · rw [← heq, setOp_ops_self, heq]
    exact heq ▸ hf heq
  · rw [c.setOp_ops_of_ne f fun h ↦ heq h.symm]

theorem updates_take (c : Conn) (o' : ℕ) (rx : List ℕ) :
    Updates a o (c.ops o) ((c.take o' rx).ops o) :=
  c.updates_setOp o' (f := fun op ↦ { op with phase := .taken }) fun _ ↦ .single .taken

theorem updates_sendReply (c : Conn) (o' : ℕ) (r : Tag × List Control) :
    Updates a o (c.ops o) ((c.sendReply o' r).ops o) := by
  refine c.updates_setOp o' fun _ ↦ ?_
  split
  · exact .single (.reply r)
  · exact .refl

theorem updates_turnOp {written : Bool} (hs : c.turnOp written = some c') :
    Updates a o (c.ops o) (c'.ops o) := by
  obtain ⟨o', rx, -, hturn⟩ := turnOp_cases hs
  have htake := c.updates_take (a := a) (o := o) o' rx
  cases hturn with
  | lost | single | abandonPoisoned => exact htake
  | search | abandon | unbind =>
    refine .trans ?_ (updates_sendReply _ o' _)
    exact htake

theorem updates_turnResp (c : Conn) (id : RequestId) (tag : Tag) (controls : List Control) :
    Updates a o (c.ops o) ((c.turnResp id tag controls).ops o) := by
  generalize hs : c.turnResp id tag controls = c'
  cases turnResp_cases hs with
  | item =>
    rw [sendItem_eq]
    refine c.updates_setOp _ fun _ ↦ ?_
    split
    · exact .single (.item _)
    · exact .refl
  | result | resultPoisoned => exact updates_sendReply _ _ _
  | panicked | failed | unregistered => exact .refl

/-- **What a step does to an operation** that was made before. -/
theorem updates_step (hs : c.step a = some c') (ho : o < c.numOps) :
    Updates a o (c.ops o) (c'.ops o) := by
  cases step_cases hs with
  | @alloc op req controls _ hs =>
    obtain ⟨id, -, rfl⟩ := alloc_spec hs
    have hold := Function.update_of_ne (Nat.ne_of_lt ho) (Op.new id op req controls) c.ops
    simp only [hold]
    exact .refl
  | @enqueue o' _ hphase =>
    exact c.updates_setOp o' (f := fun op ↦ { op with phase := .queued })
      fun _ ↦ .single (.queued hphase)
  | @dropReply o' =>
    exact c.updates_setOp o' (f := fun op ↦ { op with replyOpen := false })
      fun heq ↦ .single (.dropReply (congrArg Act.dropReply heq))
  | @dropItems o' =>
    exact c.updates_setOp o' (f := fun op ↦ { op with itemsOpen := false })
      fun heq ↦ .single (.dropItems (congrArg Act.dropItems heq))
  | turnOp hs => exact updates_turnOp hs
  | turnResp => exact c.updates_turnResp _ _ _
  | noId | sendScrub | loseScrub | turnScrub | scrubPoisoned | stop => exact .refl

theorem Update.steady {op op' : Op} (h : Update a o op op') : Steady op op' := by
  refine ⟨by cases h <;> exact ⟨rfl, rfl, rfl, rfl⟩, fun htaken ↦ ?_⟩
  cases h with
  | queued hphase =>
    rw [hphase] at htaken
    cases htaken
  | taken => rfl
  | reply | item | dropReply | dropItems => exact htaken

/-- **Requests never change**, and a request that was taken is not taken again. -/
theorem steady_step (hs : c.step a = some c') (ho : o < c.numOps) :
    Steady (c.ops o) (c'.ops o) := by
  have hupdates := updates_step hs ho
  generalize c.ops o = op, c'.ops o = op' at hupdates ⊢
  induction hupdates with
  | refl => exact .refl _
  | tail _ hupdate ih => exact ih.trans hupdate.steady

end Conn

/-! ### The log and the stream -/

namespace Event

def decoded? : Event → Option Decoded
  | .decoded id tag controls => some (id, tag, controls)
  | _ => none

def wrote? : Event → Option ℕ
  | .wrote o => some o
  | _ => none

end Event

namespace Conn

/-- The messages the driver took from the stream. -/
def messages (c : Conn) : List Decoded :=
  c.log.filterMap Event.decoded?

/-- The operations the driver wrote to the stream. -/
def written (c : Conn) : List ℕ :=
  c.log.filterMap Event.wrote?

variable {c c' : Conn}

/-- An event of another kind. -/
theorem stream_concat {e : Event} (hlog : c'.log = c.log ++ [e]) (hd : e.decoded? = none)
    (hw : e.wrote? = none) : c'.messages = c.messages ∧ c'.written = c.written := by
  rw [messages, written, hlog, List.filterMap_append, List.filterMap_append]
  simp [hd, hw, messages, written]

/-- Nothing is handled or written where the loop ends. -/
theorem stream_stop (c : Conn) (why : Status) :
    (c.stop why).messages = c.messages ∧ (c.stop why).written = c.written :=
  stream_concat rfl rfl rfl

/-- A request that goes out. -/
theorem stream_turnOp_true (hs : c.turnOp true = some c') :
    ∃ o rx, c.rx = o :: rx ∧ c'.messages = c.messages ∧ c'.written = c.written ++ [o] ∧
      c'.numOps = c.numOps ∧ (c'.ops o).phase = .taken := by
  obtain ⟨o, rx, hrx, hturn⟩ := turnOp_cases hs
  have htaken : ((c.take o rx).ops o).phase = .taken := by rw [c.take_ops_self]
  have hreply : ∀ (c : Conn) r, (c.ops o).phase = .taken →
      ((c.sendReply o r).ops o).phase = .taken := by
    intro c r htaken
    rw [sendReply, setOp_ops_self]
    split <;> exact htaken
  refine ⟨o, rx, hrx, ?_⟩
  cases hturn with
  | single => exact ⟨by simp [messages, record, take, setOp, Event.decoded?],
      by simp [written, record, take, setOp, Event.wrote?], rfl, htaken⟩
  | search => exact ⟨by simp [messages, record, take, setOp, sendReply, Event.decoded?],
      by simp [written, record, take, setOp, sendReply, Event.wrote?], rfl, hreply _ _ htaken⟩
  | abandon => exact ⟨by simp [messages, record, take, setOp, sendReply, erase, unregister,
      Event.decoded?], by simp [written, record, take, setOp, sendReply, erase, unregister,
      Event.wrote?], rfl, hreply _ _ htaken⟩
  | abandonPoisoned => exact ⟨by simp [messages, record, take, setOp, stop, Event.decoded?],
      by simp [written, record, take, setOp, stop, Event.wrote?], rfl, htaken⟩
  | unbind => exact ⟨by simp [messages, record, take, setOp, sendReply, Event.decoded?],
      by simp [written, record, take, setOp, sendReply, Event.wrote?], rfl, hreply _ _ htaken⟩

/-- A request that does not go out ends the loop. -/
theorem stream_turnOp_false (hs : c.turnOp false = some c') :
    ∃ o rx, c.rx = o :: rx ∧ c'.messages = c.messages ∧ c'.written = c.written ∧
      c'.status ≠ .running ∧ c'.numOps = c.numOps ∧ (c'.ops o).phase = .taken := by
  obtain ⟨o, rx, hrx, hturn⟩ := turnOp_cases hs
  cases hturn with
  | lost =>
    obtain ⟨hm, hw⟩ := stream_stop (c.take o rx) (.failed "socket send error")
    exact ⟨o, rx, hrx, hm, hw, by simp [stop], rfl,
      congrArg Op.phase (c.take_ops_self o rx)⟩

/-- A message is handled, or it ends the loop. -/
theorem stream_turnResp (c : Conn) (id : RequestId) (tag : Tag) (controls : List Control) :
    (c.turnResp id tag controls).written = c.written ∧
      ((c.turnResp id tag controls).messages = c.messages ++ [(id, tag, controls)] ∨
        (c.turnResp id tag controls).messages = c.messages ∧
          (c.turnResp id tag controls).status ≠ .running) := by
  generalize hs : c.turnResp id tag controls = c'
  have hrecord : ∀ c₁ : Conn, c₁.log = c.log →
      (c₁.record (.decoded id tag controls)).written = c.written ∧
        (c₁.record (.decoded id tag controls)).messages =
          c.messages ++ [(id, tag, controls)] := by
    intro c₁ hlog
    rw [written, messages, record, hlog]
    simp [Event.wrote?, Event.decoded?, written, messages]
  cases turnResp_cases hs with
  | item =>
    rw [sendItem_eq]
    obtain ⟨hw, hm⟩ := hrecord { c.setOp _ _ with searchmap := _ } rfl
    exact ⟨hw, Or.inl hm⟩
  | @panicked o msg =>
    obtain ⟨hm, hw⟩ := stream_stop c (.panicked msg)
    exact ⟨hw, Or.inr ⟨hm, by simp [stop]⟩⟩
  | @failed o msg =>
    obtain ⟨hm, hw⟩ := stream_stop c (.failed msg)
    exact ⟨hw, Or.inr ⟨hm, by simp [stop]⟩⟩
  | result =>
    obtain ⟨hw, hm⟩ := hrecord ({ c with resultmap := _ }.sendReply _ _) rfl
    exact ⟨hw, Or.inl hm⟩
  | resultPoisoned =>
    -- The result is delivered before the loop ends.
    obtain ⟨hm', hw'⟩ := stream_stop (({ c with resultmap := _ }.sendReply _ _).record
      (.decoded id tag controls)) (.panicked "msgmap mutex (stream rx)")
    obtain ⟨hw, hm⟩ := hrecord ({ c with resultmap := _ }.sendReply _ _) rfl
    exact ⟨hw'.trans hw, Or.inl (hm'.trans hm)⟩
  | unregistered =>
    obtain ⟨hw, hm⟩ := hrecord c rfl
    exact ⟨hw, Or.inl hm⟩

/-- The other actions leave the stream alone. -/
theorem stream_step {a : Act} (hs : c.step a = some c') (hop : ∀ b, a ≠ .turnOp b)
    (hresp : ∀ id tag controls, a ≠ .turnResp id tag controls) :
    c'.messages = c.messages ∧ c'.written = c.written ∧
      (c'.status = .running → c.status = .running) := by
  cases step_cases hs with
  | alloc hs =>
    obtain ⟨id, -, rfl⟩ := alloc_spec hs
    exact ⟨rfl, rfl, fun h ↦ h⟩
  | noId | enqueue | sendScrub | loseScrub => exact ⟨rfl, rfl, fun h ↦ h⟩
  | dropReply | dropItems | turnScrub =>
    exact and_assoc.1 ⟨stream_concat rfl rfl rfl, fun h ↦ h⟩
  | scrubPoisoned =>
    exact and_assoc.1 ⟨stream_concat rfl rfl rfl, fun h ↦ (nomatch h)⟩
  | turnOp => exact absurd rfl (hop _)
  | turnResp => exact absurd rfl (hresp _ _ _)
  | stop hrun hwhy =>
    exact and_assoc.1 ⟨stream_concat rfl rfl rfl, fun h ↦ absurd h hwhy⟩

end Conn

theorem mem_written {c : Conn} {o : ℕ} : o ∈ c.written ↔ .wrote o ∈ c.log := by
  rw [Conn.written, List.mem_filterMap]
  constructor
  · rintro ⟨e, he, hw⟩
    cases e with
    | wrote o' =>
      obtain rfl := Option.some.inj hw
      exact he
    | _ => cases hw
  · exact fun h ↦ ⟨_, h, rfl⟩

/-- The log grows at its end, and a message is logged by the turn that handles it. -/
theorem Conn.log_step {c c' : Conn} {a : Act} (hs : c.step a = some c') :
    ∃ es, c'.log = c.log ++ es ∧
      ∀ id tag controls, .decoded id tag controls ∈ es → a = .turnResp id tag controls := by
  have hone : ∀ {e : Event}, c'.log = c.log ++ [e] →
      (∀ id tag controls, e = .decoded id tag controls → a = .turnResp id tag controls) →
      ∃ es, c'.log = c.log ++ es ∧
        ∀ id tag controls, .decoded id tag controls ∈ es → a = .turnResp id tag controls :=
    fun hlog he ↦ ⟨_, hlog, fun id tag controls hmem ↦
      he id tag controls (List.mem_singleton.1 hmem).symm⟩
  have hnone : c'.log = c.log → ∃ es, c'.log = c.log ++ es ∧
      ∀ id tag controls, .decoded id tag controls ∈ es → a = .turnResp id tag controls :=
    fun hlog ↦ ⟨[], by rw [hlog, List.append_nil], fun _ _ _ h ↦ absurd h List.not_mem_nil⟩
  cases step_cases hs with
  | alloc hs =>
    obtain ⟨id, -, rfl⟩ := alloc_spec hs
    exact hnone rfl
  | noId | enqueue | sendScrub | loseScrub => exact hnone rfl
  | dropReply | dropItems | turnScrub | scrubPoisoned | stop =>
    exact hone rfl fun _ _ _ h ↦ nomatch h
  | turnOp hs =>
    obtain ⟨o, rx, -, hturn⟩ := turnOp_cases hs
    cases hturn with
    | lost | single | search | unbind => exact hone rfl fun _ _ _ h ↦ nomatch h
    | @abandon msgid =>
      refine ⟨[.wrote o, .abandoned msgid], ?_, fun id tag controls hmem ↦ ?_⟩
      · exact List.append_assoc c.log [.wrote o] [.abandoned msgid]
      · simp at hmem
    | abandonPoisoned =>
      refine ⟨[.wrote o, .ended], ?_, fun id tag controls hmem ↦ ?_⟩
      · exact List.append_assoc c.log [.wrote o] [.ended]
      · simp at hmem
  | @turnResp id tag controls =>
    generalize hturn : c.turnResp id tag controls = c₁ at hone
    cases turnResp_cases hturn with
    | item =>
      rw [sendItem_eq] at hone ⊢
      exact hone rfl fun _ _ _ h ↦ by cases h; rfl
    | panicked | failed => exact hone rfl fun _ _ _ h ↦ nomatch h
    | result | unregistered => exact hone rfl fun _ _ _ h ↦ by cases h; rfl
    | resultPoisoned =>
      refine ⟨[.decoded id tag controls, .ended], ?_, fun id' tag' controls' hmem ↦ ?_⟩
      · exact List.append_assoc c.log [.decoded id tag controls] [.ended]
      · obtain ⟨rfl, rfl, rfl⟩ : id' = id ∧ tag' = tag ∧ controls' = controls := by
          simpa using hmem
        rfl

/-! ### The stream -/

/-- A connection with the handles that use it and the stream the driver reads and writes. -/
structure Wire where
  world : World
  /-- The read buffer. -/
  buf : List UInt8
  /-- A read gave nothing. -/
  eof : Bool
  /-- What came in so far. -/
  received : List UInt8
  /-- What went out so far. -/
  sent : List UInt8

/-- What a handle can do, or the driver on its stream. -/
inductive WireMove where
  /-- A move of a handle. -/
  | handle (m : Move)
  | turnScrub
  /-- The driver sends the operation at the front of its queue. -/
  | send
  /-- The stream fails when it has taken some octets of the operation. -/
  | sendError (taken : ℕ)
  /-- A read of the socket, at the end of which it gives nothing. -/
  | read (chunk : List UInt8)
  /-- A read fails. -/
  | readError (msg : String)
  /-- The driver takes what the stream has for it. -/
  | next
  /-- A channel to the driver is closed. -/
  | close

namespace Wire

def init : Wire :=
  ⟨World.init, [], false, [], []⟩

def driver (n : Wire) : Conn :=
  n.world.core

/-- A turn of the driver. -/
def turn (n : Wire) (a : Conn.Act) : Option Wire :=
  (n.world.step (.turn a)).map fun w ↦ { n with world := w }

/-- `stream.send`. The octets go out with the turn of the driver. -/
def send (n : Wire) (written : Bool) (octets : List UInt8 → List UInt8) : Option Wire := do
  let o ← n.driver.rx.head?
  let n' ← n.turn (.turnOp written)
  some { n' with sent := n.sent ++ octets (n.driver.request o) }

/-- The stream is read when the decoder waits and the end was not seen. -/
def read (n : Wire) (chunk : List UInt8) : Option Wire :=
  match decodeInner n.buf with
  | (.ok none, _) =>
    if n.driver.status = .running ∧ n.eof = false then
      some { n with
        buf := n.buf ++ chunk
        eof := chunk.isEmpty
        received := n.received ++ chunk }
    else
      none
  | _ => none

/-- `stream.next`, with `decode_eof` at the end. -/
def next (n : Wire) : Option Wire :=
  match decodeInner n.buf with
  | (.ok (some (id, tag, controls)), buf) =>
    (n.turn (.turnResp id tag controls)).map fun n ↦ { n with buf := buf }
  | (.ok none, _) =>
    if n.eof then
      if n.buf.isEmpty then n.turn (.stop .closed)
      else n.turn (.stop (.failed "bytes remaining on stream"))
    else
      none
  | (.error (.error msg), _) => n.turn (.stop (.failed msg))
  | (.error (.panic msg), _) => n.turn (.stop (.panicked msg))

/-- **One move of a handle, or one turn of the driver on its stream.** -/
def step (n : Wire) : WireMove → Option Wire
  | .handle m =>
    if m.turn? = none then (n.world.step m).map fun w ↦ { n with world := w } else none
  | .turnScrub => n.turn .turnScrub
  | .send => n.send true id
  | .sendError taken => n.send false (·.take taken)
  | .read chunk => n.read chunk
  | .readError msg => n.turn (.stop (.failed msg))
  | .next => n.next
  | .close => n.turn (.stop .closed)

/-! ### What a move does -/

section

variable {n n' : Wire}

theorem turn_spec {a : Conn.Act} (hs : n.turn a = some n') :
    ∃ w, n.world.step (.turn a) = some w ∧ n' = { n with world := w } ∧
      n.driver.step a = some w.core := by
  obtain ⟨w, hw, rfl⟩ := Option.map_eq_some_iff.1 hs
  refine ⟨w, hw, rfl, ?_⟩
  simp only [World.step, World.act] at hw
  split at hw
  · obtain ⟨c, hc, rfl⟩ := Option.map_eq_some_iff.1 hw
    exact hc
  · cases hw

/-- The moves, as what becomes of the connection and of the octets. -/
inductive Step (n : Wire) : Wire → Prop
  | quiet {w : World} {m : Move} (hw : n.world.step m = some w)
      (hop : ∀ b, m ≠ .turn (.turnOp b))
      (hresp : ∀ id tag controls, m ≠ .turn (.turnResp id tag controls)) :
      Step n { n with world := w }
  | send {w : World} {o : ℕ} {rx : List ℕ} (hw : n.world.step (.turn (.turnOp true)) = some w)
      (hrx : n.driver.rx = o :: rx) :
      Step n { n with world := w, sent := n.sent ++ n.driver.request o }
  | sendError {w : World} {o taken : ℕ} {rx : List ℕ}
      (hw : n.world.step (.turn (.turnOp false)) = some w) (hrx : n.driver.rx = o :: rx) :
      Step n { n with world := w, sent := n.sent ++ (n.driver.request o).take taken }
  | read {chunk : List UInt8} (hwait : decodeInner n.buf = (.ok none, n.buf))
      (hrun : n.driver.status = .running) :
      Step n { n with
        buf := n.buf ++ chunk, eof := chunk.isEmpty, received := n.received ++ chunk }
  | next {w : World} {id : RequestId} {tag : Tag} {controls : List Control} {buf : List UInt8}
      (hdec : decodeInner n.buf = (.ok (some (id, tag, controls)), buf))
      (hw : n.world.step (.turn (.turnResp id tag controls)) = some w) :
      Step n { n with world := w, buf := buf }

theorem step_turn {a : Conn.Act} (hs : n.turn a = some n') (hop : ∀ b, a ≠ .turnOp b)
    (hresp : ∀ id tag controls, a ≠ .turnResp id tag controls) : Step n n' := by
  obtain ⟨w, hw, rfl, -⟩ := turn_spec hs
  exact .quiet hw (fun b h ↦ hop b (Move.turn.inj h)) fun id tag controls h ↦
    hresp id tag controls (Move.turn.inj h)

theorem step_send {written : Bool} {octets : List UInt8 → List UInt8}
    (hs : n.send written octets = some n') :
    ∃ o rx w, n.driver.rx = o :: rx ∧ n.world.step (.turn (.turnOp written)) = some w ∧
      n' = { n with world := w, sent := n.sent ++ octets (n.driver.request o) } := by
  obtain ⟨o, ho, hs⟩ := Option.bind_eq_some_iff.1 hs
  obtain ⟨n₁, hturn, hs⟩ := Option.bind_eq_some_iff.1 hs
  obtain rfl := Option.some.inj hs
  obtain ⟨w, hw, rfl, -⟩ := turn_spec hturn
  obtain ⟨rx, hrx⟩ := List.head?_eq_some_iff.1 ho
  exact ⟨o, rx, w, hrx, hw, rfl⟩

theorem step_cases {m : WireMove} (hs : n.step m = some n') : Step n n' := by
  cases m with
  | handle m =>
    obtain ⟨hm, hs⟩ := Option.ite_none_right_eq_some.1 hs
    obtain ⟨w, hw, rfl⟩ := Option.map_eq_some_iff.1 hs
    refine .quiet hw ?_ ?_
    · rintro b rfl
      cases hm
    · rintro id tag controls rfl
      cases hm
  | turnScrub | readError | close =>
    exact step_turn hs (fun _ h ↦ nomatch h) fun _ _ _ h ↦ nomatch h
  | send =>
    obtain ⟨o, rx, w, hrx, hw, rfl⟩ := step_send hs
    exact .send hw hrx
  | sendError taken =>
    obtain ⟨o, rx, w, hrx, hw, rfl⟩ := step_send hs
    exact .sendError hw hrx
  | read chunk =>
    simp only [step, Wire.read] at hs
    split at hs
    · rename_i buf hdec
      obtain ⟨⟨hrun, -⟩, hs⟩ := Option.ite_none_right_eq_some.1 hs
      obtain rfl := Option.some.inj hs
      obtain rfl := stable_decodeInner.wait hdec
      exact .read hdec hrun
    · cases hs
  | next =>
    simp only [step, Wire.next] at hs
    split at hs
    · rename_i id tag controls buf hdec
      obtain ⟨n₁, hturn, rfl⟩ := Option.map_eq_some_iff.1 hs
      obtain ⟨w, hw, rfl, -⟩ := turn_spec hturn
      exact .next hdec hw
    · -- The end of the stream, inside a message or not.
      split at hs
      · split at hs <;> exact step_turn hs (fun _ h ↦ nomatch h) fun _ _ _ h ↦ nomatch h
      · cases hs
    · exact step_turn hs (fun _ h ↦ nomatch h) fun _ _ _ h ↦ nomatch h
    · exact step_turn hs (fun _ h ↦ nomatch h) fun _ _ _ h ↦ nomatch h

/-- **Refinement.** On the connection a move is a move of a handle or a turn of the driver, or
nothing. -/
theorem reach_world (hs : Step n n') :
    Machine.Reach World.step Machine.any n.world n'.world := by
  cases hs with
  | quiet hw | send hw | sendError hw | next _ hw => exact .single trivial hw
  | read => exact .init

theorem reach_driver (hs : Step n n') :
    Machine.Reach Conn.step Machine.any n.driver n'.driver :=
  (reach_world hs).map (f := World.core) fun _ hw ↦
    World.reach_step (fun _ _ _ ↦ trivial) hw fun _ _ ↦ trivial

end

end Wire

/-! ### What stays -/

namespace Conn

theorem steady_reach {c c' : Conn} {good : Conn → Act → Prop}
    (h : Machine.Reach Conn.step good c c') :
    c.numOps ≤ c'.numOps ∧ ∀ o < c.numOps, Steady (c.ops o) (c'.ops o) := by
  refine h.invariant (P := fun c' ↦ c.numOps ≤ c'.numOps ∧
    ∀ o < c.numOps, Steady (c.ops o) (c'.ops o)) ⟨Nat.le_refl _, fun _ _ ↦ .refl _⟩ ?_
  intro c₁ c₂ a hinv _ hs
  exact ⟨hinv.1.trans (numOps_step hs), fun o ho ↦
    (hinv.2 o ho).trans (steady_step hs (Nat.lt_of_lt_of_le ho hinv.1))⟩

/-- The action takes nothing from the stream and writes nothing to it. -/
def Quiet (_ : Conn) (a : Act) : Prop :=
  (∀ b, a ≠ .turnOp b) ∧ ∀ id tag controls, a ≠ .turnResp id tag controls

/-- The stream is where it was. -/
structure Rests (c c' : Conn) : Prop where
  messages_eq : c'.messages = c.messages
  written_eq : c'.written = c.written
  running : c'.status = .running → c.status = .running
  log : ∃ es, c'.log = c.log ++ es ∧ ∀ id tag controls, .decoded id tag controls ∉ es

theorem rests_of_reach {c c' : Conn} (h : Machine.Reach Conn.step Quiet c c') : c.Rests c' := by
  refine h.invariant (P := fun c' ↦ c.Rests c') ⟨rfl, rfl, id, [], (List.append_nil _).symm,
    fun _ _ _ ↦ List.not_mem_nil⟩ ?_
  intro c₁ c₂ a hinv hgood hs
  obtain ⟨hm, hw, hrun⟩ := stream_step hs hgood.1 hgood.2
  obtain ⟨es, hlog, hnone⟩ := hinv.log
  obtain ⟨es', hlog', hnone'⟩ := log_step hs
  constructor
  · exact hm.trans hinv.messages_eq
  · exact hw.trans hinv.written_eq
  · exact fun h ↦ hinv.running (hrun h)
  · refine ⟨es ++ es', by rw [hlog', hlog, List.append_assoc], fun id tag controls hmem ↦ ?_⟩
    rcases List.mem_append.1 hmem with hmem | hmem
    · exact hnone id tag controls hmem
    · exact hgood.2 id tag controls (hnone' id tag controls hmem)

end Conn

namespace Wire

variable {n n' : Wire}

theorem rests_quiet {w : World} {m : Move} (hw : n.world.step m = some w)
    (hop : ∀ b, m ≠ .turn (.turnOp b))
    (hresp : ∀ id tag controls, m ≠ .turn (.turnResp id tag controls)) :
    n.driver.Rests w.core := by
  refine Conn.rests_of_reach (World.reach_step ?_ hw ?_)
  · intro c a ha
    exact ⟨fun b h ↦ (by rw [h] at ha; cases ha),
      fun id tag controls h ↦ (by rw [h] at ha; cases ha)⟩
  · rintro a rfl
    exact ⟨fun b h ↦ hop b (by rw [h]), fun id tag controls h ↦ hresp id tag controls (by rw [h])⟩

/-- The operations whose requests were begun, in order. -/
structure Begun (n : Wire) (os : List ℕ) : Prop where
  nodup : os.Nodup
  taken : ∀ o ∈ os, o < n.driver.numOps ∧ (n.driver.ops o).phase = .taken
  written : n.driver.written <+: os
  length_le : os.length ≤ n.driver.written.length + 1
  sent : n.sent <+: (os.map n.driver.request).flatten
  running : n.driver.status = .running →
    n.driver.written = os ∧ n.sent = (os.map n.driver.request).flatten

theorem map_request {c c' : Conn} (os : List ℕ) (hlt : ∀ o ∈ os, o < c.numOps)
    (h : ∀ o < c.numOps, Conn.Steady (c.ops o) (c'.ops o)) :
    os.map c'.request = os.map c.request := by
  refine List.map_congr_left fun o ho ↦ ?_
  obtain ⟨⟨hid, -, hreq, hctrls⟩, -⟩ := h o (hlt o ho)
  rw [Conn.request, Conn.request, hid, hreq, hctrls]

/-- Moves that write nothing. -/
theorem Begun.frame {os : List ℕ} (h : Begun n os) (hs : Step n n') (hsent : n'.sent = n.sent)
    (hwritten : n'.driver.written = n.driver.written)
    (hrun : n'.driver.status = .running → n.driver.status = .running) : Begun n' os := by
  obtain ⟨hnum, hsteady⟩ := Conn.steady_reach (reach_driver hs)
  have hmap := map_request os (fun o ho ↦ (h.taken o ho).1) hsteady
  constructor
  · exact h.nodup
  · intro o ho
    obtain ⟨hlt, htaken⟩ := h.taken o ho
    exact ⟨Nat.lt_of_lt_of_le hlt hnum, (hsteady o hlt).2 htaken⟩
  · exact hwritten ▸ h.written
  · exact hwritten ▸ h.length_le
  · rw [hsent, hmap]
    exact h.sent
  · intro hrunning
    obtain ⟨hw, hs⟩ := h.running (hrun hrunning)
    rw [hwritten, hsent, hmap]
    exact ⟨hw, hs⟩

/-- The next operation is taken from the queue of a running driver. -/
theorem Begun.concat {os : List ℕ} {o : ℕ} {rx : List ℕ} {w : World} {written : Bool}
    {octets : List UInt8} (h : Begun n os) (hm : Conn.Mapped n.driver)
    (hrx : n.driver.rx = o :: rx) (hrun : n.driver.status = .running)
    (hs : n.driver.step (.turnOp written) = some w.core) (hnum : w.core.numOps = n.driver.numOps)
    (htaken : (w.core.ops o).phase = .taken) (hfront : octets <+: n.driver.request o)
    (hwritten : w.core.written <+: os ++ [o] ∧ os.length ≤ w.core.written.length)
    (hrun' : w.core.status = .running → w.core.written = os ++ [o] ∧
      octets = n.driver.request o) :
    Begun { n with world := w, sent := n.sent ++ octets } (os ++ [o]) := by
  obtain ⟨hlt, hqueued⟩ := hm.rx_queued o (hrx ▸ List.mem_cons_self)
  obtain ⟨-, hsent⟩ := h.running hrun
  have hsteady : ∀ o' < n.driver.numOps, Conn.Steady (n.driver.ops o') (w.core.ops o') :=
    fun o' ho' ↦ Conn.steady_step hs ho'
  have hnew : o ∉ os := fun ho ↦ by
    rw [(h.taken o ho).2] at hqueued
    cases hqueued
  have hall : ∀ o' ∈ os ++ [o], o' < n.driver.numOps := by
    intro o' ho'
    rcases List.mem_append.1 ho' with ho' | ho'
    · exact (h.taken o' ho').1
    · rwa [List.mem_singleton.1 ho']
  have hmap := map_request _ hall hsteady
  have hflat : ((os ++ [o]).map n.driver.request).flatten = n.sent ++ n.driver.request o := by
    rw [List.map_append, List.flatten_append, ← hsent, List.map_singleton, List.flatten_singleton]
  constructor
  · exact List.nodup_append.2 ⟨h.nodup, List.nodup_singleton o, fun o' ho' o'' ho'' heq ↦
      hnew (List.mem_singleton.1 ho'' ▸ heq ▸ ho')⟩
  · intro o' ho'
    refine ⟨hnum ▸ hall o' ho', ?_⟩
    rcases List.mem_append.1 ho' with ho' | ho'
    · exact (hsteady o' (h.taken o' ho').1).2 (h.taken o' ho').2
    · rw [List.mem_singleton.1 ho']
      exact htaken
  · exact hwritten.1
  · show (os ++ [o]).length ≤ w.core.written.length + 1
    rw [List.length_append, List.length_singleton]
    exact Nat.succ_le_succ hwritten.2
  · show n.sent ++ octets <+: ((os ++ [o]).map w.core.request).flatten
    rw [hmap, hflat]
    exact (List.prefix_append_right_inj _).2 hfront
  · intro hrunning
    obtain ⟨hw, rfl⟩ := hrun' hrunning
    show w.core.written = _ ∧ _ = ((os ++ [o]).map w.core.request).flatten
    rw [hmap, hflat]
    exact ⟨hw, rfl⟩

/-- The driver's part of a move that is a turn. -/
theorem core_of_turn {w w' : World} {a : Conn.Act} (hs : w.step (.turn a) = some w') :
    w.core.step a = some w'.core := by
  simp only [World.step, World.act] at hs
  split at hs
  · obtain ⟨c, hc, rfl⟩ := Option.map_eq_some_iff.1 hs
    exact hc
  · cases hs

/-- A move begins at most one request more. -/
theorem Begun.step {os : List ℕ} (h : Begun n os) (hm : Conn.Mapped n.driver) (hs : Step n n') :
    ∃ es, Begun n' (os ++ es) := by
  have hstep := hs
  cases hs with
  | @quiet w m hw hop hresp =>
    have hrest := rests_quiet hw hop hresp
    refine ⟨[], ?_⟩
    rw [List.append_nil]
    exact h.frame hstep rfl hrest.written_eq hrest.running
  | @send w o rx hw hrx =>
    have hcore := core_of_turn hw
    obtain ⟨hrun, hturn⟩ := Option.ite_none_right_eq_some.1 hcore
    obtain ⟨o', rx', hrx', -, hwrote, hnum, htaken⟩ := Conn.stream_turnOp_true hturn
    obtain ⟨rfl, -⟩ := List.cons.inj (hrx.symm.trans hrx')
    have hwritten : w.core.written = os ++ [o] := by
      rw [hwrote, ← (h.running hrun).1]
      rfl
    refine ⟨[o], h.concat hm hrx hrun hcore hnum htaken List.prefix_rfl ⟨?_, ?_⟩ fun _ ↦
      ⟨hwritten, rfl⟩⟩
    · rw [hwritten]
    · rw [hwritten, List.length_append]
      omega
  | @sendError w o taken rx hw hrx =>
    have hcore := core_of_turn hw
    obtain ⟨hrun, hturn⟩ := Option.ite_none_right_eq_some.1 hcore
    obtain ⟨o', rx', hrx', -, hwrote, hstop, hnum, htaken⟩ := Conn.stream_turnOp_false hturn
    obtain ⟨rfl, -⟩ := List.cons.inj (hrx.symm.trans hrx')
    have hwritten : w.core.written = os := hwrote.trans (h.running hrun).1
    refine ⟨[o], h.concat hm hrx hrun hcore hnum htaken (List.take_prefix _ _) ⟨?_, ?_⟩ fun h ↦
      absurd h hstop⟩
    · rw [hwritten]
      exact List.prefix_append _ _
    · rw [hwritten]
  | read =>
    refine ⟨[], ?_⟩
    rw [List.append_nil]
    exact h.frame hstep rfl rfl fun h ↦ h
  | @next w id tag controls buf hdec hw =>
    have hcore := core_of_turn hw
    obtain ⟨hrun, hturn⟩ := Option.ite_none_right_eq_some.1 hcore
    have hwrote := (n.driver.stream_turnResp id tag controls).1
    rw [show n.driver.turnResp id tag controls = w.core from Option.some.inj hturn] at hwrote
    refine ⟨[], ?_⟩
    rw [List.append_nil]
    exact h.frame hstep rfl hwrote fun _ ↦ hrun

/-- The messages read and those handled. -/
structure Handled (n : Wire) (ms : List Decoded) : Prop where
  takes : Takes decodeInner n.received ms n.buf
  messages : n.driver.messages <+: ms
  length_le : ms.length ≤ n.driver.messages.length + 1
  running : n.driver.status = .running → n.driver.messages = ms

/-- A move that takes nothing from the buffer. -/
theorem Handled.frame {ms : List Decoded} (h : Handled n ms)
    (htakes : Takes decodeInner n'.received ms n'.buf)
    (hmsgs : n'.driver.messages = n.driver.messages)
    (hrun : n'.driver.status = .running → n.driver.status = .running) : Handled n' ms :=
  ⟨htakes, hmsgs ▸ h.messages, hmsgs ▸ h.length_le, fun h' ↦ hmsgs.trans (h.running (hrun h'))⟩

/-- A move reads at most one message more. -/
theorem Handled.step {ms : List Decoded} (h : Handled n ms) (hs : Step n n') :
    ∃ ms', Handled n' ms' := by
  cases hs with
  | @quiet w m hw hop hresp =>
    have hrest := rests_quiet hw hop hresp
    exact ⟨ms, h.frame h.takes hrest.messages_eq hrest.running⟩
  | @send w o rx hw hrx =>
    obtain ⟨hrun, hturn⟩ := Option.ite_none_right_eq_some.1 (core_of_turn hw)
    obtain ⟨_, _, -, hmsgs, -⟩ := Conn.stream_turnOp_true hturn
    exact ⟨ms, h.frame h.takes hmsgs fun _ ↦ hrun⟩
  | @sendError w o taken rx hw hrx =>
    obtain ⟨hrun, hturn⟩ := Option.ite_none_right_eq_some.1 (core_of_turn hw)
    obtain ⟨_, _, -, hmsgs, -⟩ := Conn.stream_turnOp_false hturn
    exact ⟨ms, h.frame h.takes hmsgs fun _ ↦ hrun⟩
  | @read chunk hwait hrun =>
    exact ⟨ms, h.frame (h.takes.append_right stable_decodeInner chunk) rfl fun h ↦ h⟩
  | @next w id tag controls buf hdec hw =>
    obtain ⟨hrun, hturn⟩ := Option.ite_none_right_eq_some.1 (core_of_turn hw)
    obtain rfl := h.running hrun
    obtain ⟨-, hmsgs⟩ := n.driver.stream_turnResp id tag controls
    rw [show n.driver.turnResp id tag controls = w.core from Option.some.inj hturn] at hmsgs
    refine ⟨_, h.takes.concat hdec, ?_, ?_, fun hrunning ↦ ?_⟩
    · show w.core.messages <+: _
      rcases hmsgs with hmsgs | ⟨hmsgs, -⟩
      · rw [hmsgs]
      · rw [hmsgs]
        exact List.prefix_append _ _
    · show (n.driver.messages ++ [(id, tag, controls)]).length ≤ w.core.messages.length + 1
      rw [List.length_append, List.length_singleton]
      rcases hmsgs with hmsgs | ⟨hmsgs, -⟩ <;> simp [hmsgs]
    · rcases hmsgs with hmsgs | ⟨-, hstop⟩
      · exact hmsgs
      · exact absurd hrunning hstop

theorem sent_step (hs : Step n n') : n.sent <+: n'.sent := by
  cases hs with
  | quiet | read | next => exact List.prefix_rfl
  | send | sendError => exact List.prefix_append _ _

/-- A message is logged when it is taken off the buffer by a driver that runs. -/
theorem log_step (hs : Step n n') : ∃ es, n'.driver.log = n.driver.log ++ es ∧
    ∀ id tag controls, .decoded id tag controls ∈ es →
      n.driver.status = .running ∧
        ∃ buf, decodeInner n.buf = (.ok (some (id, tag, controls)), buf) := by
  have hturn : ∀ {w : World} {a : Conn.Act}, n.world.step (.turn a) = some w →
      (∀ id tag controls, a = .turnResp id tag controls → n.driver.status = .running ∧
        ∃ buf, decodeInner n.buf = (.ok (some (id, tag, controls)), buf)) →
      ∃ es, w.core.log = n.driver.log ++ es ∧ ∀ id tag controls, .decoded id tag controls ∈ es →
        n.driver.status = .running ∧
          ∃ buf, decodeInner n.buf = (.ok (some (id, tag, controls)), buf) := by
    intro w a hw ha
    obtain ⟨es, hlog, hes⟩ := Conn.log_step (core_of_turn hw)
    exact ⟨es, hlog, fun id tag controls hmem ↦ ha id tag controls (hes id tag controls hmem)⟩
  cases hs with
  | quiet hw hop hresp =>
    obtain ⟨es, hlog, hnone⟩ := (rests_quiet hw hop hresp).log
    exact ⟨es, hlog, fun id tag controls hmem ↦ absurd hmem (hnone id tag controls)⟩
  | send hw | sendError hw => exact hturn hw fun _ _ _ h ↦ nomatch h
  | read => exact ⟨[], (List.append_nil _).symm, fun _ _ _ h ↦ absurd h List.not_mem_nil⟩
  | next hdec hw =>
    refine hturn hw fun id tag controls h ↦ ?_
    cases h
    exact ⟨(Option.ite_none_right_eq_some.1 (core_of_turn hw)).1, _, hdec⟩

/-- Only a read takes octets from the socket. -/
theorem received_step {m : WireMove} (hs : n.step m = some n') :
    n'.received = n.received ∨ ∃ chunk, m = .read chunk := by
  have hturn : ∀ {a : Conn.Act} {n₁ : Wire}, n.turn a = some n₁ → n₁.received = n.received := by
    intro a n₁ h
    obtain ⟨w, -, rfl, -⟩ := turn_spec h
    rfl
  cases m with
  | handle m =>
    obtain ⟨-, hs⟩ := Option.ite_none_right_eq_some.1 hs
    obtain ⟨w, -, rfl⟩ := Option.map_eq_some_iff.1 hs
    exact Or.inl rfl
  | turnScrub | readError | close => exact Or.inl (hturn hs)
  | send | sendError =>
    obtain ⟨o, rx, w, -, -, rfl⟩ := step_send hs
    exact Or.inl rfl
  | read chunk => exact Or.inr ⟨chunk, rfl⟩
  | next =>
    simp only [step, Wire.next] at hs
    split at hs
    · obtain ⟨n₁, hn₁, rfl⟩ := Option.map_eq_some_iff.1 hs
      exact Or.inl (show n₁.received = n.received from hturn hn₁)
    · split at hs
      · split at hs <;> exact Or.inl (hturn hs)
      · cases hs
    · exact Or.inl (hturn hs)
    · exact Or.inl (hturn hs)

/-- A read makes no operation. -/
theorem read_spec {chunk : List UInt8} (hs : n.step (.read chunk) = some n') :
    n'.driver.numOps = n.driver.numOps ∧ n'.received = n.received ++ chunk := by
  simp only [step, Wire.read] at hs
  split at hs
  · obtain ⟨-, hs⟩ := Option.ite_none_right_eq_some.1 hs
    obtain rfl := Option.some.inj hs
    exact ⟨rfl, rfl⟩
  · cases hs

/-- **The invariant of the streams.** -/
structure Streams (n : Wire) : Prop where
  mapped : Conn.Mapped n.driver
  handled : ∃ ms, Handled n ms
  begun : ∃ os, Begun n os

/-- One move keeps the invariant. -/
theorem Streams.step (h : Streams n) {m : WireMove} (hs : n.step m = some n') : Streams n' := by
  obtain ⟨hmapped, ⟨ms, hhandled⟩, os, hbegun⟩ := h
  obtain ⟨es, hbegun'⟩ := hbegun.step hmapped (step_cases hs)
  have hmapped' := (reach_driver (step_cases hs)).invariant hmapped fun h _ hs ↦ h.step hs
  exact ⟨hmapped', hhandled.step (step_cases hs), os ++ es, hbegun'⟩

theorem Streams.init : Streams Wire.init where
  mapped := Conn.Mapped.init
  handled := ⟨[], .nil, List.nil_prefix, Nat.zero_le _, fun _ ↦ rfl⟩
  begun := ⟨[], List.nodup_nil, fun _ h ↦ absurd h List.not_mem_nil, List.nil_prefix,
    Nat.zero_le _, List.nil_prefix, fun _ ↦ ⟨rfl, rfl⟩⟩

theorem Streams.of_reach (h : Machine.Reach Wire.step Machine.any Wire.init n) : Streams n :=
  h.invariant .init fun h _ hs ↦ h.step hs

/-- **The driver is faithful to its stream.** In every run, whatever the peer sends and however the
octets are cut into reads: the messages the driver handled are those that the octets received are
decoded to, in order, and the buffer holds the rest. What it sent is the requests of operations it
took, in order, each operation once and whole. Where it has stopped, there may be one message more
that it did not handle, and one request more that it did not write to its end. -/
theorem streams_of_reach (h : Machine.Reach Wire.step Machine.any Wire.init n) :
    (∃ ms, Takes decodeInner n.received ms n.buf ∧ n.driver.messages <+: ms ∧
        ms.length ≤ n.driver.messages.length + 1 ∧
        (n.driver.status = .running → n.driver.messages = ms)) ∧
      ∃ os, os.Nodup ∧ (∀ o ∈ os, o < n.driver.numOps ∧ (n.driver.ops o).phase = .taken) ∧
        n.driver.written <+: os ∧ os.length ≤ n.driver.written.length + 1 ∧
        n.sent <+: (os.map n.driver.request).flatten ∧
        (n.driver.status = .running →
          n.driver.written = os ∧ n.sent = (os.map n.driver.request).flatten) := by
  obtain ⟨-, ⟨ms, hhandled⟩, os, hbegun⟩ := Streams.of_reach h
  exact ⟨⟨ms, hhandled.takes, hhandled.messages, hhandled.length_le, hhandled.running⟩, os,
    hbegun.nodup, hbegun.taken, hbegun.written, hbegun.length_le, hbegun.sent, hbegun.running⟩

/-- A request goes out, and its response comes in two reads. -/
theorem streams_of_reach_reply :
    ∃ n, Machine.run Wire.step Machine.any Wire.init
        [.handle (.alloc 0 .single (.octetString 10 .application []) none), .handle (.send 0),
          .send, .read [0x30, 0x0C, 0x02, 0x01, 0x01, 0x6B, 0x07],
          .read [0x0A, 0x01, 0x00, 0x04, 0x00, 0x04, 0x00], .next, .handle (.receive 0)] = some n ∧
      n.driver.written = [0] ∧ n.sent = [0x30, 0x05, 0x02, 0x01, 0x01, 0x4A, 0x00] ∧
      ∃ ms, Takes decodeInner n.received ms n.buf ∧ n.driver.messages = ms := by
  have hsome : (Machine.run Wire.step Machine.any Wire.init
      [.handle (.alloc 0 .single (.octetString 10 .application []) none), .handle (.send 0), .send,
        .read [0x30, 0x0C, 0x02, 0x01, 0x01, 0x6B, 0x07],
        .read [0x0A, 0x01, 0x00, 0x04, 0x00, 0x04, 0x00], .next, .handle (.receive 0)]).map
      (fun n ↦ (n.driver.status, n.driver.written, n.sent)) =
        some (.running, [0], [0x30, 0x05, 0x02, 0x01, 0x01, 0x4A, 0x00]) := by
    decide +kernel
  obtain ⟨n, hn, hstate⟩ := Option.map_eq_some_iff.1 hsome
  simp only [Prod.mk.injEq] at hstate
  obtain ⟨⟨ms, htakes, -, -, hall⟩, -⟩ := streams_of_reach (Machine.reach_of_run hn)
  exact ⟨n, hn, hstate.2.1, hstate.2.2, ms, htakes, hall hstate.1⟩

/-! ### Runs that go on -/

/-- The same wire with a longer past. -/
def after (n : Wire) (received sent : List UInt8) : Wire :=
  { n with received := received ++ n.received, sent := sent ++ n.sent }

variable {r t : List UInt8}

theorem turn_after {a : Conn.Act} (hs : n.turn a = some n') :
    (n.after r t).turn a = some (n'.after r t) := by
  obtain ⟨w, hw, rfl⟩ := Option.map_eq_some_iff.1 hs
  exact Option.map_eq_some_iff.2 ⟨w, hw, rfl⟩

/-- The records of the past decide nothing. -/
theorem step_after {m : WireMove} (hs : n.step m = some n') :
    (n.after r t).step m = some (n'.after r t) := by
  cases m with
  | handle m =>
    obtain ⟨hm, hs⟩ := Option.ite_none_right_eq_some.1 hs
    obtain ⟨w, hw, rfl⟩ := Option.map_eq_some_iff.1 hs
    exact Option.ite_none_right_eq_some.2 ⟨hm, Option.map_eq_some_iff.2 ⟨w, hw, rfl⟩⟩
  | turnScrub | readError | close => exact turn_after hs
  | send | sendError =>
    obtain ⟨o, ho, hs⟩ := Option.bind_eq_some_iff.1 hs
    obtain ⟨n₁, hturn, hs⟩ := Option.bind_eq_some_iff.1 hs
    obtain rfl := Option.some.inj hs
    refine Option.bind_eq_some_iff.2 ⟨o, ho, Option.bind_eq_some_iff.2 ⟨_, turn_after hturn, ?_⟩⟩
    simp only [after, List.append_assoc]
    rfl
  | read chunk =>
    simp only [step, Wire.read] at hs ⊢
    split at hs
    · rename_i hdec
      obtain ⟨hcond, hs⟩ := Option.ite_none_right_eq_some.1 hs
      obtain rfl := Option.some.inj hs
      rw [show (n.after r t).buf = n.buf from rfl, hdec]
      refine Option.ite_none_right_eq_some.2 ⟨hcond, ?_⟩
      simp only [after, List.append_assoc]
    · cases hs
  | next =>
    simp only [step, Wire.next] at hs ⊢
    rw [show (n.after r t).buf = n.buf from rfl]
    split at hs
    · obtain ⟨n₁, hturn, rfl⟩ := Option.map_eq_some_iff.1 hs
      exact Option.map_eq_some_iff.2 ⟨_, turn_after hturn, rfl⟩
    · obtain ⟨heof, hs⟩ := Option.ite_none_right_eq_some.1 hs
      refine Option.ite_none_right_eq_some.2 ⟨heof, ?_⟩
      split at hs
      · rename_i hnil
        exact (if_pos hnil).trans (turn_after hs)
      · rename_i hnil
        exact (if_neg hnil).trans (turn_after hs)
    · exact turn_after hs
    · exact turn_after hs

theorem reach_after (h : Machine.Reach Wire.step Machine.any n n') :
    Machine.Reach Wire.step Machine.any (n.after r t) (n'.after r t) :=
  h.map fun _ hs ↦ .single trivial (step_after hs)

/-- What was handled and written stays so. -/
theorem log_reach (h : Machine.Reach Wire.step Machine.any n n') :
    n.driver.log <+: n'.driver.log := by
  refine h.invariant (P := fun n' ↦ n.driver.log <+: n'.driver.log) List.prefix_rfl ?_
  intro n₁ n₂ m hlog _ hs
  obtain ⟨es, heq, -⟩ := log_step (step_cases hs)
  rw [heq]
  exact hlog.trans (List.prefix_append _ _)

/-- What is handled and sent in a run on a stream that is new, by a driver that need not be. -/
structure Since (n n' : Wire) : Prop where
  messages : ∃ ms, Takes decodeInner n'.received ms n'.buf ∧
    n'.driver.messages <+: n.driver.messages ++ ms ∧
    (n'.driver.status = .running → n'.driver.messages = n.driver.messages ++ ms)
  requests : ∃ os, (n.driver.written ++ os).Nodup ∧
    n'.sent <+: (os.map n'.driver.request).flatten ∧
    (n'.driver.status = .running →
      n'.driver.written = n.driver.written ++ os ∧ n'.sent = (os.map n'.driver.request).flatten)

/-- **Streams are read from where they begin.** The driver of a new stream handles what comes in
through it, whatever it handled before. -/
theorem since_of_reach (hpast : Streams (n.after r t)) (hbuf : n.buf = [])
    (hnew : n.received = [] ∧ n.sent = []) (hrun : n.driver.status = .running)
    (h : Machine.Reach Wire.step Machine.any n n') : Since n n' := by
  have hlog := log_reach h
  have hlater : Streams (n'.after r t) :=
    (reach_after h).invariant hpast fun h _ hs ↦ h.step hs
  obtain ⟨-, ⟨ms₀, hhandled₀⟩, os₀, hbegun₀⟩ := hpast
  obtain ⟨-, ⟨ms, hhandled⟩, os, hbegun⟩ := hlater
  constructor
  · obtain rfl : n.driver.messages = ms₀ := hhandled₀.running hrun
    have hprefix : n.driver.messages <+: ms :=
      (hlog.filterMap Event.decoded?).trans hhandled.messages
    obtain ⟨ms, rfl⟩ := hprefix
    have htakes : Takes decodeInner (n.after r t).received n.driver.messages n.buf :=
      hhandled₀.takes
    rw [hbuf, after, hnew.1, List.append_nil] at htakes
    exact ⟨ms, htakes.of_append stable_decodeInner hhandled.takes, hhandled.messages,
      hhandled.running⟩
  · obtain ⟨rfl, hsent₀⟩ := hbegun₀.running hrun
    have hprefix : n.driver.written <+: os :=
      (hlog.filterMap Event.wrote?).trans hbegun.written
    obtain ⟨os, rfl⟩ := hprefix
    have hdriver : Machine.Reach Conn.step Machine.any n.driver n'.driver :=
      h.map (f := Wire.driver) fun _ hs ↦ reach_driver (step_cases hs)
    have hmap := map_request n.driver.written (fun o ho ↦ (hbegun₀.taken o ho).1)
      (Conn.steady_reach hdriver).2
    have hflat : ((n.driver.written ++ os).map n'.driver.request).flatten =
        t ++ (os.map n'.driver.request).flatten := by
      rw [List.map_append, List.flatten_append, hmap]
      refine congrArg (· ++ _) (hsent₀.symm.trans ?_)
      rw [after, hnew.2, List.append_nil]
    refine ⟨os, hbegun.nodup, ?_, fun hrunning ↦ ?_⟩
    · have hsent : t ++ n'.sent <+: ((n.driver.written ++ os).map n'.driver.request).flatten :=
        hbegun.sent
      rw [hflat] at hsent
      exact (List.prefix_append_right_inj t).1 hsent
    · obtain ⟨hwritten, hsent⟩ := hbegun.running hrunning
      have heq : t ++ n'.sent = t ++ (os.map n'.driver.request).flatten := hflat ▸ hsent
      exact ⟨hwritten, List.append_cancel_left heq⟩

end Wire

end Ldap3
