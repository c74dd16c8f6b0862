import Ldap3.Conn.Demux
import Ldap3.Conn.Wire
import Ldap3.Ldap.Peer

/-!
# A client and its server

The connection as a closed system: the client on its stream, the octets on their way in the two
directions, and a server that goes by the protocol. The server reads requests off the octets that
have arrived, and sends messages that carry the id of a request it has read, or no id, in any
number, in any order, and in any encoding; the network cuts the octets as it likes. The handles of
the client call what they like, when they like, and give up when they like.

**Every caller gets the answers to what it asked** (`Network.answered_of_reach`): what the server
reads is what callers asked for, each request once; what a call returns is the first message that
the server sent for the request of this call; and the items a stream is given are made of the first
messages the server sent for the request of this stream, in order and without a gap. It rests on
both directions of the stream (`Wire.Streams`), on the demultiplexer (`Demux`), and on the order of
things: no message for a request is handled before the request is written (`Causal`).
-/

namespace Ldap3

open Framing Grammar

/-! ### Messages for an id -/

/-- The messages that carry an id. -/
def forId (id : RequestId) (ds : List Decoded) : List (Tag × List Control) :=
  ds.filterMap fun d ↦ if d.1 = id then some d.2 else none

theorem forId_prefix {id : RequestId} {ds ds' : List Decoded} (h : ds <+: ds') :
    forId id ds <+: forId id ds' := by
  obtain ⟨es, rfl⟩ := h
  rw [forId, forId, List.filterMap_append]
  exact List.prefix_append _ _

theorem exists_mem_of_forId_ne_nil {id : RequestId} {ds : List Decoded} (h : forId id ds ≠ []) :
    ∃ d ∈ ds, d.1 = id := by
  obtain ⟨x, hx⟩ := List.exists_mem_of_ne_nil _ h
  obtain ⟨d, hd, hsome⟩ := List.mem_filterMap.1 hx
  exact ⟨d, hd, (Option.ite_none_right_eq_some.1 hsome).1⟩

theorem forId_messages (id : RequestId) (c : Conn) :
    forId id c.messages = c.log.filterMap (Event.message id) := by
  rw [forId, Conn.messages, List.filterMap_filterMap]
  refine List.filterMap_congr fun e _ ↦ ?_
  cases e <;> rfl

/-! ### The order of things -/

/-- The request of an operation is written before a message with its id is handled. -/
def Causal (log : List Event) : Prop :=
  ∀ (o : ℕ) pre tag controls post,
    log = pre ++ .decoded (o + 1) tag controls :: post → .wrote o ∈ pre

theorem Causal.append {log es : List Event} (h : Causal log)
    (hes : ∀ (o : ℕ) tag controls, .decoded (o + 1) tag controls ∈ es → .wrote o ∈ log) :
    Causal (log ++ es) := by
  intro o pre tag controls post heq
  rcases List.append_eq_append_iff.1 heq with ⟨l, rfl, hes'⟩ | ⟨l, hlog, hpost⟩
  · refine List.mem_append_left _ (hes o tag controls ?_)
    rw [hes']
    exact List.mem_append_right _ List.mem_cons_self
  · rcases l with - | ⟨e, l⟩
    · -- The message is the first of the new events.
      rw [List.append_nil] at hlog
      rw [List.nil_append] at hpost
      rw [← hlog]
      refine hes o tag controls ?_
      rw [← hpost]
      exact List.mem_cons_self
    · obtain ⟨rfl, -⟩ := List.cons.inj hpost
      exact h o pre tag controls l hlog

/-- Then what is delivered to an operation is the first messages with its id that were handled. -/
theorem Causal.delivered_prefix {log : List Event} (h : Causal log) (op : LdapOp) (o : ℕ) :
    delivered op o (o + 1) log <+: log.filterMap (Event.message (o + 1)) := by
  have hheard : heard op o log <+: log := List.takeWhile_prefix _
  refine List.IsPrefix.trans ?_ (hheard.filterMap _)
  rw [delivered]
  obtain ⟨rest, hrest⟩ := hheard
  by_cases hwrote : ∃ e ∈ heard op o log, Event.isWrote o e
  · obtain ⟨pre, e, hsplit, he, hno⟩ := Window.exists_split_after hwrote
    rw [Window.window]
    generalize Window.after (Event.isWrote o) (heard op o log) = post at hsplit ⊢
    -- There are no messages with the id up to the event that opens the window.
    have hpre : pre.filterMap (Event.message (o + 1)) = [] := by
      refine List.filterMap_eq_nil_iff.2 fun e' he' ↦ ?_
      cases e' with
      | decoded id tag controls =>
        by_cases hid : id = o + 1
        · obtain ⟨pre₁, post₁, rfl⟩ := List.append_of_mem he'
          subst hid
          have hmem := h o pre₁ tag controls (post₁ ++ (e :: post ++ rest)) (by
            rw [← hrest, hsplit]
            simp)
          exact absurd (by simp [Event.isWrote]) (hno _ (List.mem_append_left _ hmem))
        · exact if_neg hid
      | _ => rfl
    have hopen : Event.message (o + 1) e = none := by
      cases e with
      | wrote => rfl
      | _ => cases he
    rw [hsplit, List.filterMap_append, hpre, List.nil_append, List.filterMap_cons, hopen]
    exact (Window.upto_prefix _ _).filterMap _
  · rw [Window.window_eq_nil hwrote]
    exact List.nil_prefix

/-! ### The network -/

structure Server where
  /-- What it has read, in order. -/
  requests : List LdapRequest
  /-- What it has sent, in order. -/
  responses : List ServerMessage

structure Network (S : Type) [AsRef S] where
  client : Wire
  /-- What the operations of the client were called for. -/
  calls : List (ClientRequest S)
  toServer : List UInt8
  toClient : List UInt8
  server : Server

inductive NetworkMove (S : Type) [AsRef S] where
  /-- A handle begins a call. -/
  | invoke (h : ℕ) (c : ClientRequest S)
  /-- The client does something else: it neither begins a call nor reads. -/
  | client (m : WireMove)
  /-- The next octets arrive at the client. -/
  | deliver (count : ℕ)
  /-- The client sees the end of the stream. -/
  | hangup
  /-- The server reads a request off the octets that have arrived. -/
  | serve (s : ServerRead)
  /-- The server sends a message. -/
  | respond (m : ServerMessage)

def WireMove.isRead : WireMove → Bool
  | .read _ => true
  | _ => false

namespace Network

variable {S : Type} [AsRef S]

def init : Network S :=
  ⟨Wire.init, [], [], [], [], []⟩

/-- The client moves, and what it writes is on its way. -/
def act (n : Network S) (m : WireMove) : Option (Network S) := do
  let client ← n.client.step m
  some { n with
    client := client
    toServer := n.toServer ++ client.sent.drop n.client.sent.length }

/-- A call begins, unless its request has no room in memory. -/
def invoke (n : Network S) (h : ℕ) (c : ClientRequest S) : Option (Network S) := do
  let o := n.client.driver.numOps
  let n ← n.act (.handle (.alloc h c.call.ldapOp c.req c.controls))
  if (n.client.driver.request o).length ≤ usizeMax then some { n with calls := n.calls ++ [c] }
  else none

/-- **One move of the client, of the server, or of the network.** -/
def step (n : Network S) : NetworkMove S → Option (Network S)
  | .invoke h c => n.invoke h c
  | .client m => do
    let n' ← n.act m
    if m.isRead = false ∧ n'.client.driver.numOps = n.client.driver.numOps then some n' else none
  | .deliver count =>
    if n.toClient.take count ≠ [] then
      (n.act (.read (n.toClient.take count))).map fun n' ↦
        { n' with toClient := n.toClient.drop count }
    else
      none
  | .hangup => n.act (.read [])
  | .serve s =>
    if s.octets <+: n.toServer then
      some { n with
        toServer := n.toServer.drop s.octets.length
        server := { n.server with requests := n.server.requests ++ [s.request] } }
    else
      none
  | .respond m =>
    if m.id = 0 ∨ ∃ r ∈ n.server.requests, r.messageId = m.id then
      some { n with
        toClient := n.toClient ++ m.octets
        server := { n.server with responses := n.server.responses ++ [m] } }
    else
      none

/-- What the server sent for an operation. -/
def answers (n : Network S) (o : ℕ) : List (Tag × List Control) :=
  forId (n.client.driver.ops o).id (n.server.responses.map ServerMessage.decoded)

/-- What the caller of an operation asked for. -/
def meaning (n : Network S) (o : ℕ) : Option LdapRequest :=
  n.calls[o]? >>= fun c ↦ c.meaning (n.client.driver.ops o).id

/-! ### The invariant -/

variable {n n' : Network S}

/-- The calls are those of the client's operations. -/
structure Called (n : Network S) : Prop where
  length_eq : n.calls.length = n.client.driver.numOps
  call_eq : ∀ o c, n.calls[o]? = some c → (n.client.driver.ops o).op = c.call.ldapOp ∧
    (n.client.driver.ops o).req = c.req ∧ (n.client.driver.ops o).controls = c.controls
  fits : ∀ o < n.client.driver.numOps, (n.client.driver.request o).length ≤ usizeMax

/-- The server has read the requests of the first of the operations that were begun, and what is on
its way to the server follows them. -/
structure Served (n : Network S) (os : List ℕ) (k : ℕ) : Prop where
  begun : Wire.Begun n.client os
  le : k ≤ os.length
  sent_eq : n.client.sent = ((os.take k).map n.client.driver.request).flatten ++ n.toServer
  requests_eq : n.server.requests.map some = (os.take k).map n.meaning

/-- The server's messages are for requests it has read, and they arrive as they were sent. -/
structure Answered (n : Network S) : Prop where
  read : ∀ m ∈ n.server.responses, m.id = 0 ∨ ∃ r ∈ n.server.requests, r.messageId = m.id
  received_eq : n.client.received ++ n.toClient =
    (n.server.responses.map ServerMessage.octets).flatten

/-- **The invariant of the network.** -/
structure Consistent (n : Network S) : Prop where
  reach : Machine.Reach Wire.step Machine.any Wire.init n.client
  called : Called n
  served : ∃ os k, Served n os k
  answered : Answered n
  causal : Causal n.client.driver.log

theorem Consistent.demux (h : Consistent n) (hle : (n.client.driver.numOps : ℤ) ≤ i32Max) :
    Demux n.client.driver := by
  refine Demux.of_reach (h.reach.map (f := Wire.driver) fun {s s' l} _ hs ↦ ?_) hle
  exact Wire.reach_driver (Wire.step_cases hs)

/-- A request that was read is that of an operation whose request was written. -/
theorem Served.exists_of_mem {os : List ℕ} {k : ℕ} (h : Served n os k) {r : LdapRequest}
    (hr : r ∈ n.server.requests) : ∃ o ∈ os.take k, n.meaning o = some r := by
  have hmem : some r ∈ n.server.requests.map some := List.mem_map_of_mem hr
  rw [h.requests_eq] at hmem
  exact List.mem_map.1 hmem

theorem messageId_of_meaning {o : ℕ} {r : LdapRequest} (h : n.meaning o = some r) :
    r.messageId = (n.client.driver.ops o).id := by
  obtain ⟨c, -, hc⟩ := Option.bind_eq_some_iff.1 h
  exact c.messageId_of_meaning hc

/-! ### Moves of the client -/

section Act

variable {m : WireMove} {client : Wire}

/-- What the client asks for and has written is not changed by what it does. -/
theorem Served.act {os : List ℕ} {k : ℕ} (h : Served n os k) (hc : Consistent n)
    (hs : n.client.step m = some client) (hclient : n'.client = client)
    (hto : n'.toServer = n.toServer ++ client.sent.drop n.client.sent.length)
    (hserver : n'.server.requests = n.server.requests) (hcalls : n.calls <+: n'.calls) :
    ∃ es, Served n' (os ++ es) k := by
  have hstep := Wire.step_cases hs
  obtain ⟨es, hbegun⟩ := h.begun.step (Wire.Streams.of_reach hc.reach).mapped hstep
  obtain ⟨-, hsteady⟩ := Conn.steady_reach (Wire.reach_driver hstep)
  obtain ⟨new, hnew⟩ := Wire.sent_step hstep
  have htake : (os ++ es).take k = os.take k := List.take_append_of_le_length h.le
  have hlt : ∀ o ∈ os.take k, o < n.client.driver.numOps :=
    fun o ho ↦ (h.begun.taken o (List.mem_of_mem_take ho)).1
  subst hclient
  refine ⟨es, hbegun, ?_, ?_, ?_⟩
  · rw [List.length_append]
    exact Nat.le_add_right_of_le h.le
  · have hdrop : n'.client.sent.drop n.client.sent.length = new := by
      rw [← hnew, List.drop_left]
    rw [htake, Wire.map_request _ hlt hsteady, hto, hdrop, ← hnew, ← List.append_assoc, ← h.sent_eq]
  · rw [htake, hserver, h.requests_eq]
    refine List.map_congr_left fun o ho ↦ ?_
    have hcall : n'.calls[o]? = n.calls[o]? := by
      obtain ⟨cs, hcs⟩ := hcalls
      rw [← hcs, List.getElem?_append_left (by rw [hc.called.length_eq]; exact hlt o ho)]
    rw [meaning, meaning, hcall, (hsteady o (hlt o ho)).1.1]

/-- A message the client handles is one the server sent. -/
theorem Consistent.mem_responses (hc : Consistent n) {d : Decoded} {buf : List UInt8}
    (hdec : decodeInner n.client.buf = (.ok (some d), buf)) :
    ∃ m ∈ n.server.responses, m.decoded = d := by
  obtain ⟨-, ⟨ms, hhandled⟩, -⟩ := Wire.Streams.of_reach hc.reach
  have hfront := ServerMessage.prefix_of_takes (hhandled.takes.concat hdec) hc.answered.received_eq
  exact List.mem_map.1 (hfront.subset (List.mem_append_right _ List.mem_cons_self))

/-- The request for it was written. -/
theorem Consistent.wrote (hc : Consistent n) (hle : (n.client.driver.numOps : ℤ) ≤ i32Max)
    {o : ℕ} {tag : Tag} {controls : List Control} {buf : List UInt8}
    (hrun : n.client.driver.status = .running)
    (hdec : decodeInner n.client.buf = (.ok (some (o + 1, tag, controls)), buf)) :
    .wrote o ∈ n.client.driver.log := by
  obtain ⟨m, hm, hdecoded⟩ := hc.mem_responses hdec
  have hid : m.id = o + 1 := congrArg Prod.fst hdecoded
  obtain ⟨os, k, hserved⟩ := hc.served
  rcases hc.answered.read m hm with h0 | ⟨r, hr, hrid⟩
  · have hpos : (o : ℤ) + 1 = 0 := hid.symm.trans h0
    omega
  · obtain ⟨o', ho', hmeaning⟩ := hserved.exists_of_mem hr
    have hbegun := List.mem_of_mem_take ho'
    have hlt := (hserved.begun.taken o' hbegun).1
    have hid' := messageId_of_meaning hmeaning
    rw [(hc.demux hle).id_eq o' hlt, hrid, hid] at hid'
    have heq : (o : ℤ) + 1 = o' + 1 := hid'
    obtain rfl : o = o' := by omega
    rw [← mem_written, (hserved.begun.running hrun).1]
    exact hbegun

/-- Whatever the client does keeps the invariant, if the calls and the octets are accounted for. -/
theorem Consistent.act (hc : Consistent n) (hle : (n.client.driver.numOps : ℤ) ≤ i32Max)
    (hs : n.client.step m = some client) (hclient : n'.client = client)
    (hto : n'.toServer = n.toServer ++ client.sent.drop n.client.sent.length)
    (hserver : n'.server = n.server) (hcalls : n.calls <+: n'.calls) (hcalled : Called n')
    (hreceived : client.received ++ n'.toClient = n.client.received ++ n.toClient) :
    Consistent n' := by
  subst hclient
  constructor
  · exact hc.reach.step trivial hs
  · exact hcalled
  · obtain ⟨os, k, hserved⟩ := hc.served
    obtain ⟨es, hserved'⟩ := hserved.act hc hs rfl hto (by rw [hserver]) hcalls
    exact ⟨os ++ es, k, hserved'⟩
  · exact ⟨by rw [hserver]; exact hc.answered.read,
      by rw [hserver, hreceived]; exact hc.answered.received_eq⟩
  · obtain ⟨es, hlog, hes⟩ := Wire.log_step (Wire.step_cases hs)
    rw [hlog]
    refine hc.causal.append fun o tag controls hmem ↦ ?_
    obtain ⟨hrun, buf, hdec⟩ := hes _ _ _ hmem
    exact hc.wrote hle hrun hdec

end Act

theorem act_spec {m : WireMove} (hs : n.act m = some n') :
    ∃ client, n.client.step m = some client ∧ n' = { n with
      client := client
      toServer := n.toServer ++ client.sent.drop n.client.sent.length } := by
  obtain ⟨client, hclient, hs⟩ := Option.bind_eq_some_iff.1 hs
  exact ⟨client, hclient, (Option.some.inj hs).symm⟩

/-- The calls stay those of the operations while none is made. -/
theorem Called.act {m : WireMove} {client : Wire} (h : Called n)
    (hs : n.client.step m = some client) (hnum : client.driver.numOps = n.client.driver.numOps)
    (hclient : n'.client = client) (hcalls : n'.calls = n.calls) : Called n' := by
  obtain ⟨-, hsteady⟩ := Conn.steady_reach (Wire.reach_driver (Wire.step_cases hs))
  subst hclient
  constructor
  · rw [hcalls, hnum, h.length_eq]
  · intro o c hc
    rw [hcalls] at hc
    have hlt : o < n.client.driver.numOps := h.length_eq ▸ (List.getElem?_eq_some_iff.1 hc).1
    obtain ⟨⟨-, hop, hreq, hctrls⟩, -⟩ := hsteady o hlt
    rw [hop, hreq, hctrls]
    exact h.call_eq o c hc
  · intro o ho
    rw [hnum] at ho
    have hmap := Wire.map_request [o] (by simpa using ho) hsteady
    rw [List.singleton_inj.1 hmap]
    exact h.fits o ho

/-- What an allocation makes. -/
theorem alloc_spec {n n' : Wire} {h : ℕ} {op : LdapOp} {req : Tag}
    {controls : Option (List RawControl)}
    (hs : n.step (.handle (.alloc h op req controls)) = some n') :
    n'.driver.numOps = n.driver.numOps + 1 ∧ (n'.driver.ops n.driver.numOps).op = op ∧
      (n'.driver.ops n.driver.numOps).req = req ∧
      (n'.driver.ops n.driver.numOps).controls = controls := by
  obtain ⟨w', hw, rfl⟩ := Option.map_eq_some_iff.1
    (show (n.world.alloc h op req controls).map _ = some n' from hs)
  obtain ⟨-, hw⟩ := Option.ite_none_right_eq_some.1 hw
  obtain ⟨w₁, hact, hw⟩ := Option.bind_eq_some_iff.1 hw
  obtain rfl := Option.some.inj hw
  obtain ⟨c, hc, rfl⟩ := Option.map_eq_some_iff.1 hact
  obtain ⟨id, -, rfl⟩ := Conn.alloc_spec hc
  split <;> simp [World.setStream, World.setHandle, Wire.driver, Op.new]

/-- A call is that of the operation it makes. -/
theorem Called.invoke {h : ℕ} {c : ClientRequest S} (hcalled : Called n)
    (hs : n.client.step (.handle (.alloc h c.call.ldapOp c.req c.controls)) = some n'.client)
    (hfits : (n'.client.driver.request n.client.driver.numOps).length ≤ usizeMax)
    (hcalls : n'.calls = n.calls ++ [c]) : Called n' := by
  obtain ⟨-, hsteady⟩ := Conn.steady_reach (Wire.reach_driver (Wire.step_cases hs))
  obtain ⟨hnum, hnew⟩ := alloc_spec hs
  constructor
  · rw [hcalls, List.length_append, hcalled.length_eq, List.length_singleton, hnum]
  · intro o c' hc'
    rw [hcalls] at hc'
    rcases Nat.lt_or_ge o n.calls.length with hlt | hge
    · rw [List.getElem?_append_left hlt] at hc'
      obtain ⟨⟨-, hop, hreq, hctrls⟩, -⟩ := hsteady o (hcalled.length_eq ▸ hlt)
      rw [hop, hreq, hctrls]
      exact hcalled.call_eq o c' hc'
    · rw [List.getElem?_append_right hge] at hc'
      have hlt : o - n.calls.length < 1 := (List.getElem?_eq_some_iff.1 hc').1
      obtain rfl : o = n.client.driver.numOps := by
        rw [← hcalled.length_eq]
        omega
      rw [hcalled.length_eq, Nat.sub_self] at hc'
      obtain rfl := Option.some.inj hc'
      exact hnew
  · intro o ho
    rw [hnum] at ho
    rcases Nat.lt_succ_iff_lt_or_eq.1 ho with hlt | rfl
    · have hmap := Wire.map_request [o] (by simpa using hlt) hsteady
      rw [List.singleton_inj.1 hmap]
      exact hcalled.fits o hlt
    · exact hfits

/-! ### Moves of the server -/

/-- The server reads the request that was written next. -/
theorem Consistent.serve (hc : Consistent n) (hle : (n.client.driver.numOps : ℤ) ≤ i32Max)
    {s : ServerRead} (hs : s.octets <+: n.toServer) :
    Consistent { n with
      toServer := n.toServer.drop s.octets.length
      server := { n.server with requests := n.server.requests ++ [s.request] } } := by
  obtain ⟨os, k, hserved⟩ := hc.served
  obtain ⟨rest, hrest⟩ := hs
  refine ⟨hc.reach, ⟨hc.called.length_eq, hc.called.call_eq, hc.called.fits⟩, ?_,
    ⟨fun m hm ↦ ?_, hc.answered.received_eq⟩, hc.causal⟩
  · obtain ⟨more, hmore⟩ := hserved.begun.sent
    -- What is on its way begins with the first request that was not read.
    have hflat : s.octets ++ (rest ++ more) =
        ((os.drop k).map n.client.driver.request).flatten := by
      rw [hserved.sent_eq, ← hrest, ← List.take_append_drop k os] at hmore
      simp only [List.map_append, List.flatten_append, List.append_assoc] at hmore
      rw [List.take_append_drop] at hmore
      exact List.append_cancel_left hmore
    rcases hdrop : os.drop k with - | ⟨o, os'⟩
    · rw [hdrop] at hflat
      exact absurd (List.append_eq_nil_iff.1 hflat).1 (s.reads.ne_nil s.fits)
    · have hmem : o ∈ os := List.mem_of_mem_drop (hdrop ▸ List.mem_cons_self)
      have hlt := (hserved.begun.taken o hmem).1
      obtain ⟨c, hcall⟩ : ∃ c, n.calls[o]? = some c :=
        ⟨_, List.getElem?_eq_getElem (hc.called.length_eq ▸ hlt)⟩
      obtain ⟨-, hreq, hctrls⟩ := hc.called.call_eq o c hcall
      have hid : (n.client.driver.ops o).id = o + 1 := (hc.demux hle).id_eq o hlt
      have hrequest : n.client.driver.request o =
          encode (n.client.driver.ops o).id c.req c.controls := by
        rw [Conn.request, hreq, hctrls]
      have hrange : 0 ≤ (n.client.driver.ops o).id ∧ (n.client.driver.ops o).id < 2 ^ 31 := by
        have hmax : (o : ℤ) + 1 ≤ 2147483647 := by
          refine le_trans ?_ hle
          exact_mod_cast hlt
        rw [hid]
        exact ⟨show (0 : ℤ) ≤ o + 1 by omega, show (o : ℤ) + 1 < 2 ^ 31 by omega⟩
      rw [hdrop, List.map_cons, List.flatten_cons, hrequest] at hflat
      obtain ⟨hw, -, hmeaning⟩ := c.serve_eq hrange (hrequest ▸ hc.called.fits o hlt) s hflat
      have htake : os.take (k + 1) = os.take k ++ [o] := by
        have hget : os[k]? = some o := by rw [← List.head?_drop, hdrop, List.head?_cons]
        rw [List.take_add_one, hget, Option.toList_some]
      refine ⟨os, k + 1, hserved.begun, ?_, ?_, ?_⟩
      · have hlen := congrArg List.length hdrop
        rw [List.length_drop, List.length_cons] at hlen
        omega
      · show n.client.sent = _ ++ n.toServer.drop s.octets.length
        rw [htake, ← hrest, List.drop_left, List.map_append, List.flatten_append,
          List.map_singleton, List.flatten_singleton, hrequest, ← hw, List.append_assoc, hrest]
        exact hserved.sent_eq
      · show (n.server.requests ++ [s.request]).map some = (os.take (k + 1)).map n.meaning
        rw [htake, List.map_append, List.map_append, hserved.requests_eq, List.map_singleton,
          List.map_singleton]
        refine congrArg (_ ++ [·]) ?_
        rw [meaning, hcall]
        exact hmeaning.symm
  · rcases hc.answered.read m hm with hnone | ⟨r, hr, hid⟩
    · exact Or.inl hnone
    · exact Or.inr ⟨r, List.mem_append_left _ hr, hid⟩

theorem Consistent.respond (hc : Consistent n) {m : ServerMessage}
    (hm : m.id = 0 ∨ ∃ r ∈ n.server.requests, r.messageId = m.id) :
    Consistent { n with
      toClient := n.toClient ++ m.octets
      server := { n.server with responses := n.server.responses ++ [m] } } := by
  obtain ⟨os, k, hserved⟩ := hc.served
  refine ⟨hc.reach, ⟨hc.called.length_eq, hc.called.call_eq, hc.called.fits⟩,
    ⟨os, k, hserved.begun, hserved.le, hserved.sent_eq, hserved.requests_eq⟩, ⟨?_, ?_⟩, hc.causal⟩
  · intro m' hm'
    rcases List.mem_append.1 hm' with hm' | hm'
    · exact hc.answered.read m' hm'
    · rw [List.mem_singleton.1 hm']
      exact hm
  · show n.client.received ++ (n.toClient ++ m.octets) = _
    rw [← List.append_assoc, hc.answered.received_eq, List.map_append, List.flatten_append,
      List.map_singleton, List.flatten_singleton]

/-! ### Runs -/

theorem Consistent.init : Consistent (Network.init : Network S) where
  reach := .init
  called := ⟨rfl, fun _ _ h ↦ (by cases h), fun o ho ↦ absurd ho (Nat.not_lt_zero o)⟩
  served := ⟨[], 0, ⟨List.nodup_nil, fun _ h ↦ absurd h List.not_mem_nil, List.nil_prefix,
    Nat.zero_le _, List.nil_prefix, fun _ ↦ ⟨rfl, rfl⟩⟩, Nat.le_refl 0, rfl, rfl⟩
  answered := ⟨fun _ h ↦ absurd h List.not_mem_nil, rfl⟩
  causal := fun o pre tag controls post h ↦ by
    have hlen := congrArg List.length h
    rw [List.length_append, List.length_cons] at hlen
    exact absurd hlen (by simp [Network.init, Wire.init, Wire.driver, World.init, Conn.init])

theorem numOps_step {l : NetworkMove S} (hs : n.step l = some n') :
    n.client.driver.numOps ≤ n'.client.driver.numOps := by
  have hact : ∀ {m : WireMove} {n₁ : Network S}, n.act m = some n₁ →
      ∀ n₂ : Network S, n₂.client = n₁.client →
        n.client.driver.numOps ≤ n₂.client.driver.numOps := by
    intro m n₁ h n₂ hn₂
    obtain ⟨client, hclient, rfl⟩ := act_spec h
    rw [hn₂]
    exact (Conn.steady_reach (Wire.reach_driver (Wire.step_cases hclient))).1
  cases l with
  | invoke h c =>
    obtain ⟨n₁, hn₁, hs⟩ := Option.bind_eq_some_iff.1 hs
    obtain ⟨-, hs⟩ := Option.ite_none_right_eq_some.1 hs
    obtain rfl := Option.some.inj hs
    exact hact hn₁ _ rfl
  | client m =>
    obtain ⟨n₁, hn₁, hs⟩ := Option.bind_eq_some_iff.1 hs
    obtain ⟨-, hs⟩ := Option.ite_none_right_eq_some.1 hs
    obtain rfl := Option.some.inj hs
    exact hact hn₁ _ rfl
  | deliver count =>
    obtain ⟨-, hs⟩ := Option.ite_none_right_eq_some.1 hs
    obtain ⟨n₁, hn₁, rfl⟩ := Option.map_eq_some_iff.1 hs
    exact hact hn₁ _ rfl
  | hangup => exact hact hs _ rfl
  | serve | respond =>
    obtain ⟨-, hs⟩ := Option.ite_none_right_eq_some.1 hs
    obtain rfl := Option.some.inj hs
    exact Nat.le_refl _

/-- **One move keeps the invariant**, as long as the ids do not wrap around. -/
theorem Consistent.step (hc : Consistent n) {l : NetworkMove S}
    (hle : (n'.client.driver.numOps : ℤ) ≤ i32Max) (hs : n.step l = some n') :
    Consistent n' := by
  have hle₀ : (n.client.driver.numOps : ℤ) ≤ i32Max := by
    have hmono : (n.client.driver.numOps : ℤ) ≤ n'.client.driver.numOps := by
      exact_mod_cast numOps_step hs
    omega
  cases l with
  | invoke h c =>
    obtain ⟨n₁, hn₁, hs⟩ := Option.bind_eq_some_iff.1 hs
    obtain ⟨hfits, hs⟩ := Option.ite_none_right_eq_some.1 hs
    obtain rfl := Option.some.inj hs
    obtain ⟨client, hclient, rfl⟩ := act_spec hn₁
    have hreceived : client.received = n.client.received := by
      rcases Wire.received_step hclient with heq | ⟨_, hread⟩
      · exact heq
      · cases hread
    exact hc.act hle₀ hclient rfl rfl rfl (List.prefix_append _ _)
      (hc.called.invoke hclient hfits rfl) (by rw [hreceived])
  | client m =>
    obtain ⟨n₁, hn₁, hs⟩ := Option.bind_eq_some_iff.1 hs
    obtain ⟨⟨hread, hnum⟩, hs⟩ := Option.ite_none_right_eq_some.1 hs
    obtain rfl := Option.some.inj hs
    obtain ⟨client, hclient, rfl⟩ := act_spec hn₁
    have hreceived : client.received = n.client.received := by
      rcases Wire.received_step hclient with heq | ⟨_, rfl⟩
      · exact heq
      · cases hread
    exact hc.act hle₀ hclient rfl rfl rfl List.prefix_rfl (hc.called.act hclient hnum rfl rfl)
      (by rw [hreceived])
  | deliver count =>
    obtain ⟨-, hs⟩ := Option.ite_none_right_eq_some.1 hs
    obtain ⟨n₁, hn₁, rfl⟩ := Option.map_eq_some_iff.1 hs
    obtain ⟨client, hclient, rfl⟩ := act_spec hn₁
    obtain ⟨hnum, hreceived⟩ := Wire.read_spec hclient
    exact hc.act hle₀ hclient rfl rfl rfl List.prefix_rfl (hc.called.act hclient hnum rfl rfl)
      (by rw [hreceived, List.append_assoc, List.take_append_drop])
  | hangup =>
    obtain ⟨client, hclient, rfl⟩ := act_spec hs
    obtain ⟨hnum, hreceived⟩ := Wire.read_spec hclient
    exact hc.act hle₀ hclient rfl rfl rfl List.prefix_rfl (hc.called.act hclient hnum rfl rfl)
      (by rw [hreceived, List.append_nil])
  | serve s =>
    obtain ⟨hfront, hs⟩ := Option.ite_none_right_eq_some.1 hs
    obtain rfl := Option.some.inj hs
    exact hc.serve hle₀ hfront
  | respond m =>
    obtain ⟨hm, hs⟩ := Option.ite_none_right_eq_some.1 hs
    obtain rfl := Option.some.inj hs
    exact hc.respond hm

theorem Consistent.of_reach (h : Machine.Reach Network.step Machine.any Network.init n)
    (hle : (n.client.driver.numOps : ℤ) ≤ i32Max) : Consistent n := by
  refine h.invariant (P := fun n ↦ (n.client.driver.numOps : ℤ) ≤ i32Max → Consistent n)
    (fun _ ↦ .init) ?_ hle
  intro n n' l hinv _ hs hle'
  refine (hinv ?_).step hle' hs
  have hmono : (n.client.driver.numOps : ℤ) ≤ n'.client.driver.numOps := by
    exact_mod_cast numOps_step hs
  omega

/-- What the server sent for an operation, as far as the driver has delivered it. -/
theorem Consistent.delivered_prefix (hc : Consistent n)
    (hle : (n.client.driver.numOps : ℤ) ≤ i32Max) {o : ℕ} (ho : o < n.client.driver.numOps)
    (op : LdapOp) :
    delivered op o (n.client.driver.ops o).id n.client.driver.log <+: n.answers o := by
  obtain ⟨-, ⟨ms, hhandled⟩, -⟩ := Wire.Streams.of_reach hc.reach
  have hall := ServerMessage.prefix_of_takes hhandled.takes hc.answered.received_eq
  have hid : (n.client.driver.ops o).id = o + 1 := (hc.demux hle).id_eq o ho
  rw [answers, hid]
  refine (hc.causal.delivered_prefix op o).trans ?_
  rw [← forId_messages]
  exact forId_prefix (hhandled.messages.trans hall)

/-- **Every caller gets the answers to what it asked.** In every run of the client, the network and
the server with at most `i32::MAX` operations: what the server has read is what the callers of
some operations asked for, each once. The server answers only these. What a call with a single
response has been given is the first message that the server sent for its request; the items of a
Search are those of the first messages that the server sent for its request, in order. -/
theorem answered_of_reach (h : Machine.Reach Network.step Machine.any Network.init n)
    (hle : (n.client.driver.numOps : ℤ) ≤ i32Max) :
    n.calls.length = n.client.driver.numOps ∧
    ∃ os : List ℕ, os.Nodup ∧ n.server.requests.map some = os.map n.meaning ∧
      ∀ o c, n.calls[o]? = some c →
        (n.answers o ≠ [] → o ∈ os) ∧
        (c.call.ldapOp = .single → (n.client.driver.ops o).reply.toList <+: n.answers o) ∧
        (c.call.ldapOp = .search →
          ∃ ms, List.Forall₂ ItemOf (n.client.driver.ops o).items ms ∧ ms <+: n.answers o) := by
  have hc := Consistent.of_reach h hle
  have hdemux := hc.demux hle
  obtain ⟨os, k, hserved⟩ := hc.served
  refine ⟨hc.called.length_eq, os.take k, hserved.begun.nodup.sublist (List.take_sublist _ _),
    hserved.requests_eq, fun o c hcall ↦ ?_⟩
  have ho : o < n.client.driver.numOps :=
    hc.called.length_eq ▸ (List.getElem?_eq_some_iff.1 hcall).1
  have hop := (hc.called.call_eq o c hcall).1
  refine ⟨fun hne ↦ ?_, fun hsingle ↦ ?_, fun hsearch ↦ ?_⟩
  · obtain ⟨d, hd, hid⟩ := exists_mem_of_forId_ne_nil hne
    obtain ⟨m, hm, rfl⟩ := List.mem_map.1 hd
    have hid' : m.id = (n.client.driver.ops o).id := hid
    rw [hdemux.id_eq o ho] at hid'
    rcases hc.answered.read m hm with h0 | ⟨r, hr, hrid⟩
    · have hpos : (o : ℤ) + 1 = 0 := hid'.symm.trans h0
      omega
    · obtain ⟨o', ho', hmeaning⟩ := hserved.exists_of_mem hr
      have hlt := (hserved.begun.taken o' (List.mem_of_mem_take ho')).1
      have hid'' := messageId_of_meaning hmeaning
      rw [hdemux.id_eq o' hlt, hrid, hid'] at hid''
      have heq : (o : ℤ) + 1 = o' + 1 := hid''
      obtain rfl : o = o' := by omega
      exact ho'
  · rw [(hdemux.slot o ho).reply_eq (hop.trans hsingle)]
    exact hc.delivered_prefix hle ho _
  · exact ⟨_, (hdemux.slot o ho).items_eq (hop.trans hsearch), hc.delivered_prefix hle ho _⟩

/-- A deletion, the request for it as the server reads it, and the response. -/
def deleteRequest : ClientRequest String where
  call := .delete "a"
  opts := {}
  controls := none
  req := Request.delete "a"
  in_range := trivial
  request_eq := rfl

def deleteRead : ServerRead where
  octets := encode 1 deleteRequest.req none
  request := ⟨1, .delRequest (asBytes "a"), none⟩
  reads := by
    obtain ⟨r, hr, hreads⟩ := deleteRequest.exists_meaning 1 firstId_range (by decide +kernel)
    obtain rfl := Option.some.inj hr
    exact hreads
  fits := by decide +kernel

def deleteResult : StructureTag :=
  ⟨.application, 11, .C [⟨.universal, 10, .P [0]⟩, ⟨.universal, 4, .P []⟩, ⟨.universal, 4, .P []⟩]⟩

theorem ber_deleteResult : Ber (serverEnvelope [1] deleteResult none)
    (encodeInto (serverEnvelope [1] deleteResult none)) :=
  ber_encodeInner (by simp [serverEnvelope, deleteResult, StructureTag.IdsLe, Types.sequence,
    Types.integer]) (by decide +kernel)

def deleteResponse : ServerMessage where
  id := 1
  op := deleteResult
  controls := none
  idOctets := [1]
  octets := encodeInto (serverEnvelope [1] deleteResult none)
  id_range := firstId_range
  denotes := denotes_firstId
  op_cls := rfl
  ber := ber_deleteResult
  fits := by decide +kernel

/-- The response arrives in two parts. -/
theorem answered_of_reach_delete :
    ∃ n, Machine.run Network.step Machine.any Network.init
        [.invoke 0 deleteRequest, .client (.handle (.send 0)), .client .send, .serve deleteRead,
          .respond deleteResponse, .deliver 5, .deliver 100, .client .next,
          .client (.handle (.receive 0))] = some n ∧
      (n.client.driver.ops 0).reply ≠ none ∧
      (n.client.driver.ops 0).reply.toList <+: n.answers 0 := by
  have hsome : (Machine.run Network.step Machine.any Network.init
      [.invoke 0 deleteRequest, .client (.handle (.send 0)), .client .send, .serve deleteRead,
        .respond deleteResponse, .deliver 5, .deliver 100, .client .next,
        .client (.handle (.receive 0))]).map
      (fun n ↦ (n.client.driver.numOps, (n.client.driver.ops 0).reply.isSome,
        n.calls.map fun c ↦ c.call.ldapOp)) = some (1, true, [.single]) := by
    decide +kernel
  obtain ⟨n, hn, hstate⟩ := Option.map_eq_some_iff.1 hsome
  simp only [Prod.mk.injEq] at hstate
  obtain ⟨hnum, hreply, hcalls⟩ := hstate
  obtain ⟨c, hcall, hop⟩ := List.map_eq_singleton_iff.1 hcalls
  obtain ⟨-, os, -, -, hall⟩ := answered_of_reach (Machine.reach_of_run hn) (by rw [hnum]; decide)
  exact ⟨n, hn, by simpa [Option.isSome_iff_ne_none] using hreply,
    (hall 0 c (by rw [hcall]; rfl)).2.1 hop⟩

end Network

end Ldap3
