import Ldap3.Conn.Driver

/-!
# Handles and search streams

The other side of the connection: the `Ldap` handles of `src/ldap.rs` with `op_call`, and the
`SearchStream` of `src/search.rs` in its direct and its adapted form. Any number of handles share
one connection. A stream has a handle of its own, the clone made by `streaming_search_with`, so a
stream is a part of its handle here.

A move of a handle is what it does between two points where another task can come in: it takes an
id, sends the operation, receives the response or gives up on it, reads an item, finishes a
stream. `World.step` carries out a move of a handle or a turn of the driver, and a run is any
sequence of them, so every interleaving of the handles and every choice of `select!` is a run.

Adapters are user code around the inner calls. What they do to other handles are moves like any
other; what they do to their own stream is that the outermost call returns when they want it to
(`nextEnd`, `nextErr`), and, in `PagedResults`, that a stream takes over the handle and the
channel of another one (`pageTurn`).

The maps `owner` and `timedOut` record which handle allocated an operation and which operations
were given up after a timeout. The program has no such maps; the results speak about them.
-/

namespace Ldap3

/-- `StreamState`. -/
inductive StreamState where
  | fresh
  | active
  | done
  | closed
  | error
  deriving DecidableEq

/-- `SearchStream`, without its handle. -/
structure Stream where
  /-- The vector of adapters is not empty. -/
  adapted : Bool
  state : StreamState
  /-- The operation whose items are received. -/
  rx : Option ℕ
  /-- The number of items received. -/
  read : ℕ
  res : Option LdapResult
  deriving DecidableEq

/-- `SearchStream::new`. -/
def Stream.new (adapted : Bool) : Stream :=
  ⟨adapted, .fresh, none, 0, none⟩

/-- `Ldap`, with the stream it belongs to. -/
structure Handle where
  lastId : RequestId
  /-- The operation `op_call` is waiting for. -/
  call : Option ℕ
  stream : Option Stream
  /-- The handle was dropped. -/
  gone : Bool
  deriving DecidableEq

/-- A clone of a handle. -/
def Handle.new : Handle :=
  ⟨0, none, none, false⟩

/-- The handle can be used for a call. -/
def Handle.idle (hd : Handle) : Prop :=
  hd.gone = false ∧ hd.call = none

/-- The stream was not started. -/
def Stream.unstarted (s : Stream) : Prop :=
  s.state = .fresh ∧ s.rx = none

instance (hd : Handle) : Decidable hd.idle :=
  inferInstanceAs (Decidable (_ ∧ _))

instance (s : Stream) : Decidable s.unstarted :=
  inferInstanceAs (Decidable (_ ∧ _))

/-- A connection with the handles that use it. -/
structure World where
  core : Conn
  handles : ℕ → Handle
  owner : ℕ → ℕ
  timedOut : ℕ → Bool

/-- What a handle can do, or the driver. -/
inductive Move where
  /-- `streaming_search_with` clones a handle and makes a stream. -/
  | newStream (h : ℕ) (adapted : Bool)
  /-- `op_call` takes an id. -/
  | alloc (h : ℕ) (op : LdapOp) (req : Tag) (controls : Option (List RawControl))
  /-- `op_call` panics for want of an id. -/
  | noId (h : ℕ)
  /-- `op_call` sends the operation. -/
  | send (h : ℕ)
  /-- `op_call` receives the response and returns. -/
  | receive (h : ℕ)
  /-- `op_call` finds the sender of the response gone. -/
  | fail (h : ℕ)
  /-- `op_call` times out. -/
  | timeout (h : ℕ)
  /-- `next_inner` receives an item. -/
  | next (h : ℕ)
  /-- `next_inner` times out. -/
  | nextTimeout (h : ℕ)
  /-- `next_inner` finds the sender of the items gone. -/
  | nextClosed (h : ℕ)
  /-- The outermost `next` of an adapted stream returns `Ok(None)`. -/
  | nextEnd (h : ℕ)
  /-- The outermost `next` of an adapted stream returns an error of an adapter. -/
  | nextErr (h : ℕ)
  /-- `PagedResults::next` replaces the handle and the channel of the stream `h` with those of the
  stream `h'`. -/
  | pageTurn (h h' : ℕ)
  /-- `finish`. -/
  | finish (h : ℕ)
  /-- The handle is dropped, and its stream with it. -/
  | drop (h : ℕ)
  /-- A turn of the driver. -/
  | turn (a : Conn.Act)

/-- The action is one of the driver's. -/
def Conn.Act.isTurn : Conn.Act → Bool
  | .turnScrub => true
  | .turnOp _ => true
  | .turnResp _ _ _ => true
  | .stop _ => true
  | _ => false

/-- The turn of the driver in a move. -/
def Move.turn? : Move → Option Conn.Act
  | .turn a => some a
  | _ => none

namespace World

/-- A new connection with its handles. -/
def init : World where
  core := Conn.init
  handles _ := Handle.new
  owner _ := 0
  timedOut _ := false

/-- Carry out an action on the connection. -/
def act (w : World) (a : Conn.Act) : Option World :=
  (w.core.step a).map fun c ↦ { w with core := c }

def setHandle (w : World) (h : ℕ) (f : Handle → Handle) : World :=
  { w with handles := Function.update w.handles h (f (w.handles h)) }

def setStream (w : World) (h : ℕ) (f : Stream → Stream) : World :=
  w.setHandle h fun hd ↦ { hd with stream := hd.stream.map f }

/-- The receiver of the items is dropped, if the stream has one. -/
def dropItems (w : World) (h : ℕ) : Option World :=
  match (w.handles h).stream >>= Stream.rx with
  | none => some w
  | some o => w.act (.dropItems o)

/-- `self.rx = None`. -/
def dropRx (w : World) (h : ℕ) : Option World :=
  (w.dropItems h).map fun w ↦ w.setStream h fun s ↦ { s with rx := none }

def newStream (w : World) (h : ℕ) (adapted : Bool) : Option World :=
  if w.handles h = Handle.new then
    some (w.setHandle h fun hd ↦ { hd with stream := some (.new adapted) })
  else
    none

/-- The beginning of `op_call`. A Search is called by `start_inner` only, which makes the channel
for the items. -/
def alloc (w : World) (h : ℕ) (op : LdapOp) (req : Tag) (controls : Option (List RawControl)) :
    Option World :=
  if (w.handles h).idle ∧ (op = .search → ∃ s ∈ (w.handles h).stream, s.unstarted) then do
    let o := w.core.numOps
    let w ← w.act (.alloc op req controls)
    let w := w.setHandle h fun hd ↦ { hd with lastId := (w.core.ops o).id, call := some o }
    let w := if op = .search then w.setStream h fun s ↦ { s with rx := some o } else w
    some { w with owner := Function.update w.owner o h }
  else
    none

/-- The beginning of `op_call` when it panics. Nothing of the handle has changed by then. -/
def noId (w : World) (h : ℕ) : Option World :=
  if (w.handles h).idle then w.act .noId else none

def send (w : World) (h : ℕ) : Option World := do
  let o ← (w.handles h).call
  w.act (.enqueue o)

/-- The result of the call decides what becomes of a stream that is being started. -/
def endCall (w : World) (h : ℕ) (o : ℕ) (started : StreamState) : World :=
  w.setHandle h fun hd ↦ { hd with
    call := none
    stream := if (w.core.ops o).op = .search then hd.stream.map fun s ↦ { s with state := started }
      else hd.stream }

def receive (w : World) (h : ℕ) : Option World := do
  let o ← (w.handles h).call
  if (w.core.ops o).reply ≠ none then some (w.endCall h o .active) else none

/-- The sender of an operation's response was dropped before it was used. -/
def replyClosed (w : World) (o : ℕ) : Prop :=
  w.core.status ≠ .running ∨
    (w.core.ops o).phase = .taken ∧ w.core.resultmap (w.core.ops o).id ≠ some o

instance (w : World) (o : ℕ) : Decidable (w.replyClosed o) :=
  inferInstanceAs (Decidable (_ ∨ _))

def fail (w : World) (h : ℕ) : Option World := do
  let o ← (w.handles h).call
  if (w.core.ops o).reply = none ∧ w.replyClosed o then
    let w ← w.act (.dropReply o)
    some (w.endCall h o .error)
  else
    none

def timeout (w : World) (h : ℕ) : Option World := do
  let o ← (w.handles h).call
  let w ← w.act (.dropReply o)
  let w ← w.act (.sendScrub (w.handles h).lastId)
  some { w.endCall h o .error with timedOut := Function.update w.timedOut o true }

/-- The stream, if `next` can be called on it. -/
def activeStream (w : World) (h : ℕ) : Option Stream := do
  let s ← (w.handles h).stream
  if (w.handles h).idle ∧ s.state = .active then some s else none

def next (w : World) (h : ℕ) : Option World := do
  let s ← w.activeStream h
  let o ← s.rx
  let (item, controls) ← (w.core.ops o).items[s.read]?
  let w := w.setStream h fun s ↦ { s with read := s.read + 1 }
  match item with
  | .entry _ => some w
  | .referral _ => some w
  | .done res =>
    let w := w.setStream h fun s ↦ { s with res := some { res with ctrls := controls } }
    w.dropRx h

def nextTimeout (w : World) (h : ℕ) : Option World := do
  let s ← w.activeStream h
  let o ← s.rx
  let w ← w.act (.sendScrub (w.handles h).lastId)
  let w := w.setStream h fun s ↦ { s with state := .error }
  some { w with timedOut := Function.update w.timedOut o true }

/-- All senders of the operation's items were dropped. -/
def itemsClosed (w : World) (o : ℕ) : Prop :=
  w.core.status ≠ .running ∨
    (w.core.ops o).phase = .taken ∧ w.core.searchmap (w.core.ops o).id ≠ some o

instance (w : World) (o : ℕ) : Decidable (w.itemsClosed o) :=
  inferInstanceAs (Decidable (_ ∨ _))

def nextClosed (w : World) (h : ℕ) : Option World := do
  let s ← w.activeStream h
  let o ← s.rx
  if (w.core.ops o).items.length ≤ s.read ∧ w.itemsClosed o then
    let w ← w.dropRx h
    some (w.setStream h fun s ↦ { s with state := .error })
  else
    none

/-- The end of `next` on an adapted stream. -/
def nextReturn (w : World) (h : ℕ) (state : StreamState) : Option World := do
  let s ← w.activeStream h
  if s.adapted then some (w.setStream h fun s ↦ { s with state := state }) else none

def pageTurn (w : World) (h h' : ℕ) : Option World := do
  let s ← w.activeStream h
  let s' ← w.activeStream h'
  let o ← s'.rx
  if h ≠ h' ∧ s.adapted ∧ s.rx = none ∧ s.res ≠ none ∧ s'.adapted = false then
    let w := w.setHandle h fun hd ↦ { hd with
      lastId := (w.handles h').lastId
      stream := some { s with rx := some o, read := s'.read } }
    let w := w.setHandle h' fun hd ↦ { hd with stream := none, gone := true }
    some { w with owner := Function.update w.owner o h }
  else
    none

/-- `finish_inner`. On a closed stream `finish` does nothing. -/
def finish (w : World) (h : ℕ) : Option World := do
  let s ← (w.handles h).stream
  if (w.handles h).idle ∧ s.state ≠ .closed then
    let scrubbed := if s.state ≠ .done then w.act (.sendScrub (w.handles h).lastId) else some w
    let w ← scrubbed
    (w.setStream h fun s ↦ { s with state := .closed, res := none }).dropRx h
  else
    none

def drop (w : World) (h : ℕ) : Option World :=
  if (w.handles h).idle then do
    let w ← w.dropItems h
    some (w.setHandle h fun hd ↦ { hd with gone := true })
  else
    none

/-- **One move of a handle, or one turn of the driver.** -/
def step (w : World) : Move → Option World
  | .newStream h adapted => w.newStream h adapted
  | .alloc h op req controls => w.alloc h op req controls
  | .noId h => w.noId h
  | .send h => w.send h
  | .receive h => w.receive h
  | .fail h => w.fail h
  | .timeout h => w.timeout h
  | .next h => w.next h
  | .nextTimeout h => w.nextTimeout h
  | .nextClosed h => w.nextClosed h
  | .nextEnd h => w.nextReturn h .done
  | .nextErr h => w.nextReturn h .error
  | .pageTurn h h' => w.pageTurn h h'
  | .finish h => w.finish h
  | .drop h => w.drop h
  | .turn a => if a.isTurn then w.act a else none

/-! ### What a move does to the connection -/

section

variable {w w' : World} {good : Conn → Conn.Act → Prop}

theorem reach_act {a : Conn.Act} (hgood : good w.core a) (h : w.act a = some w') :
    Machine.Reach Conn.step good w.core w'.core := by
  obtain ⟨c, hc, rfl⟩ := Option.map_eq_some_iff.1 h
  exact .single hgood hc

variable (hhandle : ∀ c a, a.isTurn = false → good c a)
include hhandle

theorem reach_dropItems {h : ℕ} (hs : w.dropItems h = some w') :
    Machine.Reach Conn.step good w.core w'.core := by
  rw [dropItems] at hs
  split at hs
  · obtain rfl := Option.some.inj hs
    exact .init
  · exact reach_act (hhandle _ _ rfl) hs

theorem reach_dropRx {h : ℕ} (hs : w.dropRx h = some w') :
    Machine.Reach Conn.step good w.core w'.core := by
  obtain ⟨w₁, hdrop, rfl⟩ := Option.map_eq_some_iff.1 hs
  have hreach := reach_dropItems hhandle hdrop
  exact hreach

/-- **Refinement.** A move is a sequence of actions on the connection, and a move of a handle is
one of actions of handles. -/
theorem reach_step {m : Move} (hs : w.step m = some w')
    (hturn : ∀ a, m = .turn a → good w.core a) :
    Machine.Reach Conn.step good w.core w'.core := by
  cases m with
  | newStream h adapted =>
    simp only [step, newStream] at hs
    split at hs
    · obtain rfl := Option.some.inj hs
      exact .init
    · cases hs
  | alloc h op req controls =>
    simp only [step, alloc] at hs
    split at hs
    · obtain ⟨w₁, hact, hs⟩ := Option.bind_eq_some_iff.1 hs
      obtain rfl := Option.some.inj hs
      have hreach := reach_act (hhandle _ _ rfl) hact
      split <;> exact hreach
    · cases hs
  | noId h =>
    obtain ⟨-, hact⟩ := Option.ite_none_right_eq_some.1 hs
    exact reach_act (hhandle _ _ rfl) hact
  | send h =>
    obtain ⟨o, -, hact⟩ := Option.bind_eq_some_iff.1 hs
    exact reach_act (hhandle _ _ rfl) hact
  | receive h =>
    obtain ⟨o, -, hs⟩ := Option.bind_eq_some_iff.1 hs
    split at hs
    · obtain rfl := Option.some.inj hs
      exact .init
    · cases hs
  | fail h =>
    obtain ⟨o, -, hs⟩ := Option.bind_eq_some_iff.1 hs
    split at hs
    · obtain ⟨w₁, hact, hs⟩ := Option.bind_eq_some_iff.1 hs
      obtain rfl := Option.some.inj hs
      have hreach := reach_act (hhandle _ _ rfl) hact
      exact hreach
    · cases hs
  | timeout h =>
    obtain ⟨o, -, hs⟩ := Option.bind_eq_some_iff.1 hs
    obtain ⟨w₁, hact₁, hs⟩ := Option.bind_eq_some_iff.1 hs
    obtain ⟨w₂, hact₂, hs⟩ := Option.bind_eq_some_iff.1 hs
    obtain rfl := Option.some.inj hs
    -- The receiver of the response goes first, then the id is given to the driver.
    have hreach := (reach_act (hhandle _ _ rfl) hact₁).trans (reach_act (hhandle _ _ rfl) hact₂)
    exact hreach
  | next h =>
    obtain ⟨s, -, hs⟩ := Option.bind_eq_some_iff.1 hs
    obtain ⟨o, -, hs⟩ := Option.bind_eq_some_iff.1 hs
    obtain ⟨⟨item, controls⟩, -, hs⟩ := Option.bind_eq_some_iff.1 hs
    cases item with
    | entry t =>
      obtain rfl := Option.some.inj hs
      exact .init
    | referral t =>
      obtain rfl := Option.some.inj hs
      exact .init
    | done res =>
      have hreach : Machine.Reach Conn.step good _ w'.core := reach_dropRx hhandle hs
      exact hreach
  | nextTimeout h =>
    obtain ⟨s, -, hs⟩ := Option.bind_eq_some_iff.1 hs
    obtain ⟨o, -, hs⟩ := Option.bind_eq_some_iff.1 hs
    obtain ⟨w₁, hact, hs⟩ := Option.bind_eq_some_iff.1 hs
    obtain rfl := Option.some.inj hs
    have hreach := reach_act (hhandle _ _ rfl) hact
    exact hreach
  | nextClosed h =>
    obtain ⟨s, -, hs⟩ := Option.bind_eq_some_iff.1 hs
    obtain ⟨o, -, hs⟩ := Option.bind_eq_some_iff.1 hs
    split at hs
    · obtain ⟨w₁, hdrop, hs⟩ := Option.bind_eq_some_iff.1 hs
      obtain rfl := Option.some.inj hs
      have hreach := reach_dropRx hhandle hdrop
      exact hreach
    · cases hs
  | nextEnd h =>
    obtain ⟨s, -, hs⟩ := Option.bind_eq_some_iff.1 hs
    split at hs
    · obtain rfl := Option.some.inj hs
      exact .init
    · cases hs
  | nextErr h =>
    obtain ⟨s, -, hs⟩ := Option.bind_eq_some_iff.1 hs
    split at hs
    · obtain rfl := Option.some.inj hs
      exact .init
    · cases hs
  | pageTurn h h' =>
    obtain ⟨s, -, hs⟩ := Option.bind_eq_some_iff.1 hs
    obtain ⟨s', -, hs⟩ := Option.bind_eq_some_iff.1 hs
    obtain ⟨o, -, hs⟩ := Option.bind_eq_some_iff.1 hs
    split at hs
    · obtain rfl := Option.some.inj hs
      exact .init
    · cases hs
  | finish h =>
    obtain ⟨s, -, hs⟩ := Option.bind_eq_some_iff.1 hs
    split at hs
    · obtain ⟨w₁, hscrub, hs⟩ := Option.bind_eq_some_iff.1 hs
      -- `finish` scrubs the id unless the stream was read to its end.
      have hdrop := reach_dropRx hhandle hs
      split at hscrub
      · exact (reach_act (hhandle _ _ rfl) hscrub).trans hdrop
      · obtain rfl := Option.some.inj hscrub
        exact hdrop
    · cases hs
  | drop h =>
    simp only [step, drop] at hs
    split at hs
    · obtain ⟨w₁, hdrop, hs⟩ := Option.bind_eq_some_iff.1 hs
      obtain rfl := Option.some.inj hs
      have hreach := reach_dropItems hhandle hdrop
      exact hreach
    · cases hs
  | turn a =>
    simp only [step] at hs
    split at hs
    · exact reach_act (hturn a rfl) hs
    · cases hs

end

end World

end Ldap3
