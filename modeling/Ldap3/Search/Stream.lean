import Ldap3.Conn.Client
import Ldap3.Ldap.Handle

/-!
# Search streams

`SearchStream` of `src/search.rs` and the adapters of `src/adapters.rs`, as the code computes them.

A call of `start`, `next` or `finish` goes down the chain of adapters: the stream counts its
position in `ax`, hands the call to the adapter there, which calls the stream again, and at the
end of the chain the inner method is run. Here the recursion is on the number of calls below the
current one, with one more than the length of the chain for the outermost. The loops inside the
`next` of two adapters go round once for every item or page that is consumed, and are given that
many rounds.

The driver's side is the field `net`, which every handle of the connection can reach. It holds
what is going to happen to the Searches that are still to be sent, in order; after the last of
them the driver is gone. The field `taken` is a history of the items received, which the program
does not keep.
-/

namespace Ldap3

/-! ### The driver's side -/

/-- What `next_inner` finds when it waits for an item: an item, or that the time ran out first, and
whether the driver was there to be told. With no time limit it waits on. At the end of a list the
sender is gone. -/
inductive Recv where
  | item (item : SearchItem) (controls : List Control)
  | elapsed (scrubbed : Bool)

/-- What happens to a Search outside the handle. The driver answers the request itself with the
null result, if it gets to send it. -/
structure SearchServed where
  id : Option RequestId
  sent : Bool
  elapsed : Option Bool
  accepted : Bool
  /-- What arrives on the item channel. -/
  events : List Recv

def SearchServed.served (s : SearchServed) : Served :=
  ⟨s.id, s.sent, s.elapsed, if s.accepted then some Conn.nullResult else none⟩

/-- The channel of a Search, whose sender is dropped with a request that is not received. -/
def SearchServed.channel (s : SearchServed) : List Recv :=
  if s.sent then s.events else []

/-- The driver is gone. -/
def SearchServed.gone : SearchServed :=
  ⟨some 1, false, none, false, []⟩

/-- What the handles of the connection share. -/
structure Net where
  answers : List SearchServed
  sent : List Sent
  taken : List (SearchItem × List Control)

/-- The answer to the next Search. -/
def Net.answer (net : Net) : SearchServed × Net :=
  match net.answers with
  | [] => (.gone, net)
  | s :: answers => (s, { net with answers := answers })

def Net.log (net : Net) (sent : Option Sent) : Net :=
  { net with sent := net.sent ++ sent.toList }

def Net.take (net : Net) (item : SearchItem) (controls : List Control) : Net :=
  { net with taken := net.taken ++ [(item, controls)] }

/-! ### Paged Results -/

/-- The Paged Results control of `controls_impl/paged_results.rs`. -/
structure Controls.PagedResults where
  size : ℤ
  cookie : List UInt8
  deriving DecidableEq

/-- `From<PagedResults> for RawControl`. -/
def Controls.PagedResults.raw (pr : Controls.PagedResults) : RawControl where
  ctype := PAGED_RESULTS_OID
  crit := false
  val := some (encodeInto
    (Tag.ofSequence [.ofInteger pr.size, .ofOctetString pr.cookie]).intoStructure)

/-- `PagedResults::parse` of the value of a control. Everything that is not as expected is a
panic. -/
def Controls.PagedResults.parse (raw : RawControl) : Option Controls.PagedResults := do
  let val ← raw.val
  match parseTag val with
  | .error _ => none
  | .ok (_, tag) =>
    let comps ← tag.expectConstructed
    let sizeTag ← comps.head?
    let size ← sizeTag.matchClass .universal >>= (·.matchId Types.integer) >>=
      (·.expectPrimitive)
    let cookieTag ← comps.tail.head?
    let cookie ← cookieTag.expectPrimitive
    some ⟨asI32 (parseUint size), cookie⟩

/-- A control that is recognized as a Paged Results control. -/
def Control.isPaged (c : Control) : Bool :=
  c.knownType = some .pagedResults

/-! ### Streams -/

/-- `ResultEntry`. -/
structure ResultEntry where
  tag : StructureTag
  controls : List Control

def ResultEntry.isRef (re : ResultEntry) : Bool :=
  re.tag.id = 19

def ResultEntry.isIntermediate (re : ResultEntry) : Bool :=
  re.tag.id = 25

/-- The adapter `PagedResults`, with what `start` saves for the requests of later pages. -/
structure PagedResults where
  pageSize : ℤ
  ldap : Option Ldap
  base : String
  scope : Scope
  filter : String
  attrs : Option (List String)

/-- `PagedResults::new`. -/
def PagedResults.new (pageSize : ℤ) : PagedResults :=
  ⟨pageSize, none, "", .base, "", none⟩

/-- The adapters of the crate, and one that does nothing but call the stream. -/
inductive Adapter where
  | entriesOnly (refs : List String)
  | pagedResults (pr : PagedResults)
  | passThrough

/-- `SearchStream`, with the driver's side. -/
structure SearchStream where
  ldap : Ldap
  rx : Option (List Recv)
  state : StreamState
  adapters : List Adapter
  ax : ℕ
  timeout : Option ℕ
  res : Option LdapResult
  net : Net

namespace SearchStream

/-- `SearchStream::new`. -/
def new (ldap : Ldap) (adapters : List Adapter) (net : Net) : SearchStream :=
  ⟨ldap, none, .fresh, adapters, 0, none, none, net⟩

/-! ### Inner methods -/

/-- `start_inner`. -/
def startInner (s : SearchStream) (base : String) (scope : Scope) (filter : String)
    (attrs : List String) : SearchStream × Except Failure Unit :=
  let opts := s.ldap.searchOpts.getD {}
  let s := { s with ldap := { s.ldap with searchOpts := none }, timeout := s.ldap.timeout }
  match Request.search opts base scope filter attrs with
  | .error e => (s, .error e)
  | .ok req =>
    let (answer, net) := s.net.answer
    let ldap := match s.timeout with
      | some timeout => s.ldap.withTimeout timeout
      | none => s.ldap
    let (ldap, sent, result) := ldap.opCall .search req answer.served
    let s := { s with rx := some answer.channel, ldap := ldap, net := net.log sent }
    match result with
    | .error e => (s, .error e)
    | .ok _ => ({ s with state := .active }, .ok ())

/-- `recv` on the item channel, under the time limit if there is one. -/
def recv (timeout : Option ℕ) : List Recv → Option Recv × List Recv
  | [] => (none, [])
  | .item item controls :: rx => (some (.item item controls), rx)
  | .elapsed scrubbed :: rx =>
    if timeout.isSome then (some (.elapsed scrubbed), rx) else recv timeout rx

/-- `next_inner`. -/
def nextInner (s : SearchStream) : SearchStream × Except Failure (Option ResultEntry) :=
  match s.rx with
  -- `unwrap`
  | none => (s, .error .panic)
  | some rx =>
    let (got, rx) := recv s.timeout rx
    match got with
    | none => ({ s with rx := none }, .error (.err .endOfStream))
    | some (.elapsed scrubbed) =>
      ({ s with rx := some rx }, .error (.err (if scrubbed then .timeout else .idScrubSend)))
    | some (.item item controls) =>
      let s := { s with net := s.net.take item controls }
      match item with
      | .entry tag => ({ s with rx := some rx }, .ok (some ⟨tag, controls⟩))
      | .referral tag => ({ s with rx := some rx }, .ok (some ⟨tag, controls⟩))
      | .done res => ({ s with res := some { res with ctrls := controls }, rx := none }, .ok none)

/-- The result of a search that was given up. -/
def cancelled : LdapResult :=
  ⟨88, "", "user cancelled", [], []⟩

/-- The result of a search that was finished before. -/
def alreadyFinalized : LdapResult :=
  ⟨80, "", "stream already finalized", [], []⟩

/-- `finish_inner`. -/
def finishInner (s : SearchStream) : SearchStream × LdapResult :=
  ({ s with state := .closed, rx := none, res := none }, s.res.getD cancelled)

/-! ### `start` -/

/-- The method `start`, and the part of an adapter's `start` that goes on down the chain. -/
abbrev Start :=
  SearchStream → String → Scope → String → List String → SearchStream × Except Failure Unit

end SearchStream

open SearchStream

/-- `PagedResults::start`. -/
def PagedResults.start (start : Start) (pr : PagedResults) (s : SearchStream) (base : String)
    (scope : Scope) (filter : String) (attrs : List String) :
    PagedResults × SearchStream × Except Failure Unit :=
  let ldap := { s.ldap.clone with timeout := s.ldap.timeout, searchOpts := s.ldap.searchOpts }
  let userControls := s.ldap.controls.getD []
  let foundPr := userControls.any fun c ↦ c.ctype = PAGED_RESULTS_OID
  let controls := userControls.filter fun c ↦ c.ctype ≠ PAGED_RESULTS_OID
  if foundPr then
    (pr, s, .error (.err (.adapterInit "found Paged Results control in op set")))
  else
    let pr := { pr with
      ldap := some { ldap with controls := some controls }
      base := base
      scope := scope
      filter := filter
      attrs := some attrs }
    let controls := controls ++ [Controls.PagedResults.raw ⟨pr.pageSize, []⟩]
    (pr, start { s with ldap := { s.ldap with controls := some controls } } base scope filter attrs)

/-- `start` of an adapter, given that of the stream. -/
def Adapter.start (start : Start) (a : Adapter) (s : SearchStream) (base : String) (scope : Scope)
    (filter : String) (attrs : List String) : Adapter × SearchStream × Except Failure Unit :=
  match a with
  | .entriesOnly _ => (.entriesOnly [], start s base scope filter attrs)
  | .pagedResults pr =>
    let (pr, s, res) := pr.start start s base scope filter attrs
    (.pagedResults pr, s, res)
  | .passThrough => (.passThrough, start s base scope filter attrs)

namespace SearchStream

/-- An error changes the state. -/
def failOnErr {α : Type} (x : SearchStream × Except Failure α) : SearchStream × Except Failure α :=
  match x.2 with
  | .error (.err _) => ({ x.1 with state := .error }, x.2)
  | _ => x

/-- `SearchStream::start`, where the adapters call `inner`. -/
def startWith (inner : Start) : Start := fun s base scope filter attrs ↦
  if s.state ≠ .fresh then
    (s, .ok ())
  else if s.ax = s.adapters.length then
    failOnErr (s.startInner base scope filter attrs)
  else
    match s.adapters[s.ax]? with
    -- Index out of bounds.
    | none => (s, .error .panic)
    | some adapter =>
      let ax := s.ax
      let (adapter, s, res) :=
        adapter.start inner { s with ax := ax + 1 } base scope filter attrs
      failOnErr ({ s with ax := s.ax - 1, adapters := s.adapters.set ax adapter }, res)

def startAt : (depth : ℕ) → Start
  | 0 => fun s _ _ _ _ ↦ (s, .error .panic)
  | depth + 1 => startWith (startAt depth)

/-- `start`. -/
def start : Start := fun s base scope filter attrs ↦
  startAt (s.adapters.length + 1) s base scope filter attrs

end SearchStream

/-- `streaming_search_with`: the handle after it, and the stream, which the caller gets if it could
be started. -/
def Ldap.streamingSearchWith (ldap : Ldap) (adapters : List Adapter) (base : String) (scope : Scope)
    (filter : String) (attrs : List String) (net : Net) :
    Ldap × SearchStream × Except Failure Unit :=
  let clone := { ldap.clone with
    controls := ldap.controls
    timeout := ldap.timeout
    searchOpts := ldap.searchOpts }
  let ldap := { ldap with controls := none, timeout := none, searchOpts := none }
  (ldap, (SearchStream.new clone adapters net).start base scope filter attrs)

/-- `streaming_search`. -/
def Ldap.streamingSearch (ldap : Ldap) (base : String) (scope : Scope) (filter : String)
    (attrs : List String) (net : Net) : Ldap × SearchStream × Except Failure Unit :=
  ldap.streamingSearchWith [] base scope filter attrs net

/-! ### `next` -/

/-- The method `next`. -/
abbrev Next :=
  SearchStream → SearchStream × Except Failure (Option ResultEntry)

/-- The loop of `EntriesOnly::next`. -/
def entriesLoop (next : Next) : (fuel : ℕ) → List String → SearchStream →
    List String × SearchStream × Except Failure (Option ResultEntry)
  | 0, refs, s => (refs, s, .error .panic)
  | fuel + 1, refs, s =>
    match next s with
    | (s, .ok (some re)) =>
      if re.isIntermediate then
        entriesLoop next fuel refs s
      else if re.isRef then
        match parseRefs re.tag with
        | .ok more => entriesLoop next fuel (refs ++ more) s
        | .error _ => (refs, s, .error .panic)
      else
        (refs, s, .ok (some re))
    | (s, res) => (refs, s, res)

namespace PagedResults

/-- The handle for the request of a later page, with the cookie of the page before. -/
def pageLdap (pr : PagedResults) (ldapRef : Ldap) (controls : List RawControl)
    (cookie : List UInt8) : Ldap :=
  { ldapRef.clone with
    timeout := ldapRef.timeout
    searchOpts := ldapRef.searchOpts
    controls := some (controls ++ [Controls.PagedResults.raw ⟨pr.pageSize, cookie⟩]) }

/-- The request of a later page. What `start` saved is unwrapped. -/
def nextPage (pr : PagedResults) (cookie : List UInt8) (s : SearchStream) :
    SearchStream × Except Failure Unit :=
  match pr.ldap, pr.attrs with
  | some ldapRef, some attrs =>
    match ldapRef.controls with
    | some controls =>
      let (_, stream, res) := (pr.pageLdap ldapRef controls cookie).streamingSearch pr.base
        pr.scope pr.filter attrs s.net
      match res with
      | .error e => ({ s with net := stream.net }, .error e)
      | .ok () => ({ s with ldap := stream.ldap, rx := stream.rx, net := stream.net }, .ok ())
    | none => (s, .error .panic)
  | _, _ => (s, .error .panic)

/-- The loop of `PagedResults::next`. Only the first Paged Results control of a result counts. -/
def nextLoop (next : Next) (pr : PagedResults) : (fuel : ℕ) → Next
  | 0, s => (s, .error .panic)
  | fuel + 1, s =>
    match next s with
    | (s, .ok none) =>
      match s.res with
      | none => (s, .ok none)
      | some res =>
        match res.ctrls.find? Control.isPaged with
        | none => (s, .ok none)
        | some ctrl =>
          match Controls.PagedResults.parse ctrl.raw with
          | none => (s, .error .panic)
          | some paged =>
            if paged.cookie = [] then
              ({ s with res := some { res with ctrls := res.ctrls.eraseP Control.isPaged } },
                .ok none)
            else
              match pr.nextPage paged.cookie s with
              | (s, .error e) => (s, .error e)
              | (s, .ok ()) => nextLoop next pr fuel s
    | any => any

end PagedResults

/-- The number of items and pages that can still be consumed. -/
def SearchStream.size (s : SearchStream) : ℕ :=
  (s.rx.getD []).length + (s.net.answers.map fun a ↦ a.events.length + 1).sum

/-- `next` of an adapter, given that of the stream. -/
def Adapter.next (next : Next) (a : Adapter) (s : SearchStream) :
    Adapter × SearchStream × Except Failure (Option ResultEntry) :=
  match a with
  | .entriesOnly refs =>
    let (refs, s, res) := entriesLoop next (s.size + 1) refs s
    (.entriesOnly refs, s, res)
  | .pagedResults pr => (.pagedResults pr, pr.nextLoop next (s.size + 1) s)
  | .passThrough => (.passThrough, next s)

namespace SearchStream

/-- The end of an outermost call that returns `Ok(None)`. -/
def doneAtEnd (x : SearchStream × Except Failure (Option ResultEntry)) :
    SearchStream × Except Failure (Option ResultEntry) :=
  match x.2 with
  | .ok none => if x.1.ax = 0 then ({ x.1 with state := .done }, x.2) else x
  | _ => x

/-- `SearchStream::next`, where the adapters call `inner`. -/
def nextWith (inner : Next) : Next := fun s ↦
  if s.state ≠ .active then
    (s, .ok none)
  else if s.ax = s.adapters.length then
    failOnErr s.nextInner
  else
    match s.adapters[s.ax]? with
    -- Index out of bounds.
    | none => (s, .error .panic)
    | some adapter =>
      let ax := s.ax
      let (adapter, s, res) := adapter.next inner { s with ax := ax + 1 }
      failOnErr (doneAtEnd ({ s with ax := s.ax - 1, adapters := s.adapters.set ax adapter }, res))

def nextAt : (depth : ℕ) → Next
  | 0 => fun s ↦ (s, .error .panic)
  | depth + 1 => nextWith (nextAt depth)

/-- `next`. -/
def next : Next := fun s ↦
  nextAt (s.adapters.length + 1) s

end SearchStream

/-! ### `finish` -/

/-- The method `finish`. -/
abbrev Finish :=
  SearchStream → SearchStream × LdapResult

/-- `finish` of an adapter, given that of the stream. -/
def Adapter.finish (finish : Finish) (a : Adapter) (s : SearchStream) :
    Adapter × SearchStream × LdapResult :=
  match a with
  | .entriesOnly refs =>
    let (s, res) := finish s
    (.entriesOnly [], s, { res with refs := res.refs ++ refs })
  | .pagedResults pr => (.pagedResults pr, finish s)
  | .passThrough => (.passThrough, finish s)

namespace SearchStream

/-- `SearchStream::finish`, where the adapters call `inner`. -/
def finishWith (inner : Finish) : Finish := fun s ↦
  if s.state = .closed then
    (s, alreadyFinalized)
  else
    match s.adapters[s.ax]? with
    -- The end of the chain.
    | none => s.finishInner
    | some adapter =>
      let ax := s.ax
      let (adapter, s, res) := adapter.finish inner { s with ax := ax + 1 }
      ({ s with ax := s.ax - 1, adapters := s.adapters.set ax adapter }, res)

def finishAt : (depth : ℕ) → Finish
  | 0 => finishInner
  | depth + 1 => finishWith (finishAt depth)

/-- `finish`. -/
def finish : Finish := fun s ↦
  finishAt (s.adapters.length + 1) s

/-- The loop of `search`, which reads the stream to its end. -/
def readAll : (fuel : ℕ) → SearchStream → SearchStream × Except Failure (List ResultEntry)
  | 0, s => (s, .error .panic)
  | fuel + 1, s =>
    match s.next with
    | (s, .ok (some entry)) =>
      let (s, res) := readAll fuel s
      (s, res.map (entry :: ·))
    | (s, .ok none) => (s, .ok [])
    | (s, .error e) => (s, .error e)

end SearchStream

/-- `search`: the handle after it, the stream it used, and the result. -/
def Ldap.search (ldap : Ldap) (base : String) (scope : Scope) (filter : String)
    (attrs : List String) (net : Net) :
    Ldap × SearchStream × Except Failure (List ResultEntry × LdapResult) :=
  let (ldap, stream, res) :=
    ldap.streamingSearchWith [.entriesOnly []] base scope filter attrs net
  match res with
  | .error e => (ldap, stream, .error e)
  | .ok () =>
    let (stream, entries) := stream.readAll (stream.size + 1)
    match entries with
    | .error e => (ldap, stream, .error e)
    | .ok reVec =>
      let (stream, res) := stream.finish
      (ldap, stream, .ok (reVec, res))

end Ldap3
