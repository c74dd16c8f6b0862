import Ldap3.Lib.Machine
import Ldap3.Result
import Mathlib.Data.Finset.Erase
import Mathlib.Data.Int.Notation

/-!
# The connection driver

`LdapConnAsync::turn` of `src/conn.rs` in its continuous mode, and the channels between it and the
handles. The driver owns two maps from message ids to the channels of the operations waiting for a
response, and shares with the handles the set of message ids in use. Its loop waits on four
sources and takes any that is ready:

* ids to be scrubbed, `turnScrub`;
* operations to be sent, `turnOp`;
* messages from the server, `turnResp`;
* the end of a channel or of the stream, `stop`, where the loop ends.

A fifth source asks for the peer certificate, which touches nothing modelled here.

The set of ids is behind a mutex. `next_msgid` holds the lock when it panics because all ids are in
use, and this poisons the mutex: from then on every `lock().expect(..)` panics, those of the driver
among them. `noId` is the action of a handle that gets no id.

An operation is numbered by its place in the order of allocation, and the number stands for the
operation's channels: the oneshot channel every operation has for its result, and the unbounded
channel of a Search for its items. What was sent on them is recorded with the operation. The moves
of the handles are here only as the actions they can carry out on a connection, in any order;
which sequences of them the handles really carry out is the subject of `Ldap3.Conn.Client`.

The log records what the driver did and what became of the receivers, oldest first. It is not part
of the program: nothing reads it, and the results speak about it.
-/

namespace Ldap3

/-! ### Message ids -/

/-- `i32::MAX`. -/
def i32Max : RequestId := 2147483647

/-- `msgmap`: the last id given out, and the ids in use. -/
structure Msgmap where
  last : RequestId
  inUse : Finset RequestId

/-- The loop of `next_msgid`; without a value as long as it runs. -/
def nextMsgidLoop (m : Msgmap) : (fuel : ℕ) → RequestId → Option (Except Fault RequestId)
  | 0, _ => none
  | fuel + 1, nextLdapId =>
    let nextLdapId := if nextLdapId = i32Max then 1 else nextLdapId + 1
    if nextLdapId ∉ m.inUse then
      some (.ok nextLdapId)
    else if nextLdapId = m.last then
      some (.error (.panic "LDAP message id wraparound with no free slots"))
    else
      nextMsgidLoop m fuel nextLdapId

/-- `Ldap::next_msgid`. One round for every id is enough to come back to where it started. -/
def nextMsgid (m : Msgmap) : Option (Except Fault (RequestId × Msgmap)) :=
  (nextMsgidLoop m (2 ^ 31) m.last).map fun r ↦ r.map fun id ↦ (id, ⟨id, insert id m.inUse⟩)

/-- The map behind its mutex. -/
structure MsgmapMutex extends map : Msgmap where
  poisoned : Bool

namespace MsgmapMutex

/-- The map of a new connection, as `conn_pair` makes it. -/
def init : MsgmapMutex :=
  ⟨⟨0, ∅⟩, false⟩

/-- `Ldap::next_msgid`, with the lock held while it runs. -/
def nextMsgid (s : MsgmapMutex) : Option (Except Fault RequestId × MsgmapMutex) :=
  if s.poisoned then
    some (.error (.panic "msgmap mutex (inc id)"), s)
  else
    (Ldap3.nextMsgid s.map).map fun
      | .ok (id, m) => (.ok id, ⟨m, false⟩)
      | .error e => (.error e, ⟨s.map, true⟩)

/-- `remove` on the locked map; on a poisoned one the driver panics. -/
def remove (s : MsgmapMutex) (id : RequestId) : Option MsgmapMutex :=
  if s.poisoned then none else some ⟨⟨s.map.last, s.map.inUse.erase id⟩, false⟩

end MsgmapMutex

/-! ### Operations -/

/-- `LdapOp`. The sender in a Search is the operation's own item channel. -/
inductive LdapOp where
  | single
  | search
  | abandon (msgid : RequestId)
  | unbind
  deriving DecidableEq

/-- `SearchItem`. -/
inductive SearchItem where
  | entry (t : StructureTag)
  | referral (t : StructureTag)
  | done (res : LdapResult)

/-- Where an operation's request is. -/
inductive Phase where
  /-- It has an id and is not sent to the driver yet. -/
  | allocated
  /-- It is in the driver's queue. -/
  | queued
  /-- The driver took it. -/
  | taken
  deriving DecidableEq

/-- An operation, with the state of its channels. -/
structure Op where
  id : RequestId
  op : LdapOp
  req : Tag
  controls : Option (List RawControl)
  phase : Phase
  /-- The receiver of the result exists. -/
  replyOpen : Bool
  /-- What was sent on the result channel. -/
  reply : Option (Tag × List Control)
  /-- The receiver of the items exists. -/
  itemsOpen : Bool
  /-- What was sent on the item channel. -/
  items : List (SearchItem × List Control)

/-- An operation that just got its id. -/
def Op.new (id : RequestId) (op : LdapOp) (req : Tag) (controls : Option (List RawControl)) : Op :=
  ⟨id, op, req, controls, .allocated, true, none, true, []⟩

/-! ### Connections -/

/-- What a run leaves behind. -/
inductive Event where
  /-- The driver wrote the request of the operation to the server. -/
  | wrote (o : ℕ)
  /-- The driver took a message with the id from the server, and delivered or dropped it. -/
  | decoded (id : RequestId) (tag : Tag) (controls : List Control)
  /-- The driver processed a scrub of the id. -/
  | scrubbed (id : RequestId)
  /-- The driver processed an Abandon of the id. -/
  | abandoned (id : RequestId)
  /-- The receiver of the operation's result was dropped. -/
  | replyDropped (o : ℕ)
  /-- The receiver of the operation's items was dropped. -/
  | itemsDropped (o : ℕ)
  /-- The driver's loop ended. -/
  | ended

/-- Whether the loop runs, or how it ended. -/
inductive Status where
  | running
  /-- `Ok`: a channel or the stream was closed. -/
  | closed
  | failed (msg : String)
  | panicked (msg : String)
  deriving DecidableEq

/-- The driver with the channels it is connected to. -/
structure Conn where
  msgmap : MsgmapMutex
  numOps : ℕ
  ops : ℕ → Op
  /-- Operations on their way to the driver. -/
  rx : List ℕ
  /-- Ids on their way to be scrubbed. -/
  idScrubRx : List RequestId
  resultmap : RequestId → Option ℕ
  searchmap : RequestId → Option ℕ
  status : Status
  log : List Event

namespace Conn

/-- A new connection. -/
def init : Conn where
  msgmap := .init
  numOps := 0
  ops _ := Op.new 0 .single (.ofNull) none
  rx := []
  idScrubRx := []
  resultmap _ := none
  searchmap _ := none
  status := .running
  log := []

def setOp (c : Conn) (o : ℕ) (f : Op → Op) : Conn :=
  { c with ops := Function.update c.ops o (f (c.ops o)) }

@[simp] theorem setOp_ops_self (c : Conn) (o : ℕ) (f : Op → Op) :
    (c.setOp o f).ops o = f (c.ops o) := by
  simp [setOp]

theorem setOp_ops_of_ne (c : Conn) {o o' : ℕ} (f : Op → Op) (h : o' ≠ o) :
    (c.setOp o f).ops o' = c.ops o' := by
  simp [setOp, h]

def record (c : Conn) (e : Event) : Conn :=
  { c with log := c.log ++ [e] }

/-- `msgmap.lock().expect(..)` and `msgmap.1.remove`. -/
def release (c : Conn) (id : RequestId) : Option Conn :=
  (c.msgmap.remove id).map fun m ↦ { c with msgmap := m }

/-- `remove` on both maps. -/
def unregister (c : Conn) (id : RequestId) : Conn :=
  { c with
    resultmap := Function.update c.resultmap id none
    searchmap := Function.update c.searchmap id none }

/-- `tx.send` of an operation's result; without a receiver it is lost. -/
def sendReply (c : Conn) (o : ℕ) (r : Tag × List Control) : Conn :=
  c.setOp o fun op ↦ if op.replyOpen then { op with reply := some r } else op

/-- The loop ends: the driver and the receivers it owns are dropped. -/
def stop (c : Conn) (why : Status) : Conn :=
  { c with
    rx := []
    idScrubRx := []
    resultmap := fun _ ↦ none
    searchmap := fun _ ↦ none
    status := why
    log := c.log ++ [.ended] }

/-! ### What handles do -/

/-- The first half of `op_call`: the operation gets its id. -/
def alloc (c : Conn) (op : LdapOp) (req : Tag) (controls : Option (List RawControl)) :
    Option Conn :=
  match c.msgmap.nextMsgid with
  | some (.ok id, m) =>
    some { c with
      msgmap := m
      numOps := c.numOps + 1
      ops := Function.update c.ops c.numOps (.new id op req controls) }
  | _ => none

/-- The first half of `op_call` when it panics in `next_msgid`. -/
def noId (c : Conn) : Option Conn :=
  match c.msgmap.nextMsgid with
  | some (.error _, m) => some { c with msgmap := m }
  | _ => none

/-- `self.tx.send` of an operation. -/
def enqueue (c : Conn) (o : ℕ) : Option Conn :=
  if o < c.numOps ∧ (c.ops o).phase = .allocated ∧ c.status = .running then
    some { c.setOp o fun op ↦ { op with phase := .queued } with rx := c.rx ++ [o] }
  else
    none

/-- The receiver of an operation's result is dropped. -/
def dropReply (c : Conn) (o : ℕ) : Conn :=
  (c.setOp o fun op ↦ { op with replyOpen := false }).record (.replyDropped o)

/-- The receiver of an operation's items is dropped. -/
def dropItems (c : Conn) (o : ℕ) : Conn :=
  (c.setOp o fun op ↦ { op with itemsOpen := false }).record (.itemsDropped o)

/-- `self.id_scrub_tx.send`; without a driver it is lost. -/
def sendScrub (c : Conn) (id : RequestId) : Conn :=
  if c.status = .running then { c with idScrubRx := c.idScrubRx ++ [id] } else c

/-! ### What the driver does -/

/-- The branch of `id_scrub_rx`. -/
def turnScrub (c : Conn) : Option Conn :=
  match c.idScrubRx with
  | [] => none
  | reqId :: ids =>
    let c := { c with idScrubRx := ids }.unregister reqId
    match c.release reqId with
    | some c => some (c.record (.scrubbed reqId))
    | none => some (c.stop (.panicked "msgmap mutex (id_scrub)"))

/-- The null result sent for an operation that has no response. -/
def nullResult : Tag × List Control :=
  (.ofNull, [])

/-- The branch of `rx`. Writing to the stream succeeds or not. -/
def turnOp (c : Conn) (written : Bool) : Option Conn :=
  match c.rx with
  | [] => none
  | o :: rx =>
    let op := c.ops o
    let c := { c.setOp o fun op ↦ { op with phase := .taken } with rx := rx }
    let c :=
      if op.op = .search then { c with searchmap := Function.update c.searchmap op.id (some o) }
      else c
    if written then
      let c := c.record (.wrote o)
      match op.op with
      | .single => some { c with resultmap := Function.update c.resultmap op.id (some o) }
      | .search => some (c.sendReply o nullResult)
      | .abandon msgid =>
        let c := c.unregister msgid
        match c.release op.id with
        | some c => some ((c.record (.abandoned msgid)).sendReply o nullResult)
        | none => some (c.stop (.panicked "msgmap mutex (abandon)"))
      | .unbind => some (c.sendReply o nullResult)
    else
      some (c.stop (.failed "socket send error"))

/-- The item made of a message for a Search, and whether it is the last one. -/
def searchItem (tag : Tag) : Except Fault (SearchItem × Bool) :=
  match tag with
  | .structureTag protoop =>
    if protoop.id = 4 ∨ protoop.id = 25 then
      return (.entry protoop, false)
    else if protoop.id = 5 then do
      let res ← LdapResult.ofTag (.structureTag protoop)
      return (.done res, true)
    else if protoop.id = 19 then
      return (.referral protoop, false)
    else
      throw (.panic ("unrecognized op id: " ++ toString protoop.id))
  | _ => throw (.panic "unmatched tag structure")

/-- `tx.send` of an item and the removal of the channel after the last one, or if it has no
receiver. -/
def sendItem (c : Conn) (id : RequestId) (o : ℕ) (item : SearchItem) (controls : List Control)
    (remove : Bool) : Conn :=
  let c' :=
    if (c.ops o).itemsOpen then
      c.setOp o fun op ↦ { op with items := op.items ++ [(item, controls)] }
    else c
  if remove ∨ ¬(c.ops o).itemsOpen then
    { c' with searchmap := Function.update c'.searchmap id none }
  else
    c'

theorem sendItem_eq (c : Conn) (id : RequestId) (o : ℕ) (item : SearchItem)
    (controls : List Control) (remove : Bool) :
    c.sendItem id o item controls remove =
      { c.setOp o (fun op ↦
          if op.itemsOpen then { op with items := op.items ++ [(item, controls)] } else op) with
        searchmap :=
          if remove ∨ ¬(c.ops o).itemsOpen then Function.update c.searchmap id none
          else c.searchmap } := by
  by_cases hopen : (c.ops o).itemsOpen <;> cases remove <;> simp [sendItem, setOp, hopen]

/-- The branch of `stream`, for a decoded message. -/
def turnResp (c : Conn) (id : RequestId) (tag : Tag) (controls : List Control) : Conn :=
  match c.searchmap id with
  | some o =>
    match searchItem tag with
    | .ok (item, remove) => (c.sendItem id o item controls remove).record (.decoded id tag controls)
    | .error (.panic msg) => c.stop (.panicked msg)
    | .error (.error msg) => c.stop (.failed msg)
  | none =>
    match c.resultmap id with
    | some o =>
      let c := ({ c with resultmap := Function.update c.resultmap id none }.sendReply o
        (tag, controls)).record (.decoded id tag controls)
      match c.release id with
      | some c => c
      | none => c.stop (.panicked "msgmap mutex (stream rx)")
    | none => c.record (.decoded id tag controls)

/-! ### Steps -/

/-- What can be done to a connection. -/
inductive Act where
  | alloc (op : LdapOp) (req : Tag) (controls : Option (List RawControl))
  | noId
  | enqueue (o : ℕ)
  | dropReply (o : ℕ)
  | dropItems (o : ℕ)
  | sendScrub (id : RequestId)
  | turnScrub
  | turnOp (written : Bool)
  | turnResp (id : RequestId) (tag : Tag) (controls : List Control)
  | stop (why : Status)

/-- Carry out an action. The driver acts only as long as its loop runs. -/
def step (c : Conn) : Act → Option Conn
  | .alloc op req controls => c.alloc op req controls
  | .noId => c.noId
  | .enqueue o => c.enqueue o
  | .dropReply o => if o < c.numOps then some (c.dropReply o) else none
  | .dropItems o => if o < c.numOps then some (c.dropItems o) else none
  | .sendScrub id => some (c.sendScrub id)
  | .turnScrub => if c.status = .running then c.turnScrub else none
  | .turnOp written => if c.status = .running then c.turnOp written else none
  | .turnResp id tag controls =>
    if c.status = .running then some (c.turnResp id tag controls) else none
  | .stop why => if c.status = .running ∧ why ≠ .running then some (c.stop why) else none

end Conn

end Ldap3
