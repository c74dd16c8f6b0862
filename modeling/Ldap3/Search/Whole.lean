import Ldap3.Conn.Dispatch
import Ldap3.Ldap.Response
import Ldap3.Search.Paged

/-!
# A search from end to end

`Ldap::search` reads a stream with the adapter `EntriesOnly` to its end. Between the server and its
caller are the driver, which makes messages into items, the item channel, the stream, and the
adapter, which keeps the referrals for the result.

The messages are described as the protocol has them: entries, references with their URIs, and
intermediate messages (`SearchMessage`), each with controls, and after them a result
(`Response`). **Nothing is lost or duplicated on the way** (`search_of_run`): whatever else
happens on the connection while the messages arrive, the caller gets the entries in the order in
which they were sent, each with its controls, and the result with its controls and with all URIs
behind its own.
-/

namespace Ldap3

open SearchStream

/-! ### Messages -/

/-- A message of the server in the course of a Search, before the result. -/
inductive SearchMessage where
  | entry (payload : PL StructureTag)
  | reference (uris : List String)
  | intermediate (payload : PL StructureTag)

namespace SearchMessage

/-- The protocol op. -/
def tag : SearchMessage → StructureTag
  | entry payload => ⟨.application, 4, payload⟩
  | reference uris => ⟨.application, 19,
      .C (uris.map fun uri ↦ ⟨.universal, Types.octetString, .P (asBytes uri)⟩)⟩
  | intermediate payload => ⟨.application, 25, payload⟩

/-- What the driver makes of it. -/
def item : SearchMessage → SearchItem
  | m@(reference _) => .referral m.tag
  | m => .entry m.tag

/-- The entry that a message with these controls is to the user. -/
def toEntry : SearchMessage × List Control → Option ResultEntry
  | (m@(entry _), ctrls) => some ⟨m.tag, ctrls⟩
  | _ => none

/-- The URIs of a reference. -/
def uris : SearchMessage → List String
  | reference uris => uris
  | _ => []

/-- A message with its controls, as the driver takes it from the stream, and as an item. -/
def sent (m : SearchMessage × List Control) : Tag × List Control :=
  (.structureTag m.1.tag, m.2)

def received (m : SearchMessage × List Control) : Received :=
  (m.1.item, m.2)

theorem itemMore (m : SearchMessage × List Control) : Conn.ItemMore (received m) (sent m) := by
  rcases m with ⟨payload | uris | payload, ctrls⟩ <;> exact ⟨rfl, rfl⟩

theorem isItem (m : SearchMessage × List Control) : IsItem (received m) := by
  rcases m with ⟨payload | uris | payload, ctrls⟩
  · exact .inl rfl
  · exact ⟨rfl, uris, Response.parseRefs_map _ _ uris⟩
  · exact .inr rfl

/-- The reader of `search`. -/
theorem passes_received (m : SearchMessage × List Control) :
    (⟨true, none⟩ : Reader).passes (received m) = toEntry m := by
  rw [passes_of_isItem (isItem m)]
  rcases m with ⟨payload | uris | payload, ctrls⟩ <;> rfl

theorem refs_received (m : SearchMessage × List Control) :
    (⟨true, none⟩ : Reader).refs (received m) = m.1.uris := by
  rw [refs_of_isItem (isItem m) rfl]
  rcases m with ⟨payload | uris | payload, ctrls⟩
  · rfl
  · have hrefs := Response.parseRefs_map .application 19 uris
    simp only [referrals, received, item, tag, hrefs, SearchMessage.uris]
  · rfl

end SearchMessage

/-- The result of a Search, as the driver sends it. -/
theorem Response.searchItem_opTag {r : Response} (hop : r.op = 5) {rc : List UInt8}
    (hrc : Response.Denotes rc r.rc) :
    ∃ d : LdapResult, Conn.searchItem (.structureTag (r.opTag rc)) = .ok (.done d, true) ∧
      ∀ ctrls, { d with ctrls := ctrls } = (r.result ctrls).result := by
  rcases hext : LdapResultExt.ofTag (.structureTag (r.opTag rc)) with e | ext
  · have hread := r.opResult_opTag hrc []
    simp only [opResult, hext] at hread
    cases hread
  · refine ⟨ext.result, ?_, fun ctrls ↦ ?_⟩
    · have hid : (r.opTag rc).id = 5 := hop
      simp only [Conn.searchItem, hid, LdapResult.ofTag, hext]
      rfl
    · have hread := r.opResult_opTag hrc ctrls
      simp only [opResult, hext] at hread
      exact congrArg LdapResultExt.result (Except.ok.inj hread)

/-! ### The stream -/

/-- Some items remain on the channel, and then the result; and these requests were sent. -/
structure Remains (k : Chan) (items : List Received) (d : LdapResult) (ctrls : List Control)
    (sent : List Sent) : Prop where
  rx : k.rx = some (recvs (items ++ [(.done d, ctrls)]))
  items : ∀ x ∈ items, IsItem x
  sent : k.net.sent = sent

/-- Nothing remains, and the result is stored. -/
structure Ended (k : Chan) (d : LdapResult) (ctrls : List Control) (sent : List Sent) : Prop where
  res : k.res = some { d with ctrls := ctrls }
  sent : k.net.sent = sent

section Loop

variable {rd : Reader} {timeout : Option ℕ} {k k' : Chan} {x : Received}
  {xs items : List Received} {d : LdapResult} {ctrls : List Control} {sent : List Sent}
  {y : Except Failure (Option ResultEntry)}

/-- The first of the items is received. -/
theorem Remains.tail {rx rest : List Recv} {res : Option LdapResult} {net : Net}
    (hk : Remains ⟨some rx, res, net⟩ (x :: items) d ctrls sent)
    (hrest : rest = recvs (items ++ [(.done d, ctrls)])) :
    Remains ⟨some rest, res, net.take x.1 x.2⟩ items d ctrls sent :=
  ⟨congrArg some hrest, fun z hz ↦ hk.items z (List.mem_cons_of_mem _ hz), hk.sent⟩

theorem Skip.remains (hpaged : rd.paged = none) (hk : Remains k items d ctrls sent)
    (h : Skip rd timeout k x k') :
    ∃ items', items = x :: items' ∧ Remains k' items' d ctrls sent := by
  cases h with
  | keep hrecv hv =>
    rw [Option.some.inj hk.rx] at hrecv
    obtain ⟨items', rfl, hrest⟩ | ⟨-, rfl⟩ := recv_recvs_item hrecv
    · exact ⟨items', rfl, hk.tail hrest⟩
    · exact absurd hv (Reader.verdict_done_ne_keep _ _ _)
  | page _ _ hpr =>
    rw [hpaged] at hpr
    cases hpr

theorem Skips.remains (hpaged : rd.paged = none) (hk : Remains k items d ctrls sent)
    (h : Skips rd timeout k xs k') :
    ∃ items', items = xs ++ items' ∧ Remains k' items' d ctrls sent := by
  induction h generalizing items with
  | nil => exact ⟨items, rfl, hk⟩
  | cons hskip _ ih =>
    obtain ⟨items₁, rfl, h₁⟩ := hskip.remains hpaged hk
    obtain ⟨items', rfl, h'⟩ := ih h₁
    exact ⟨items', rfl, h'⟩

/-- An entry comes out, or the result is stored. -/
theorem Stop.remains (hpaged : rd.paged = none) (hk : Remains k items d ctrls sent)
    (h : Stop rd timeout k xs k' y) :
    (∃ re items', y = .ok (some re) ∧ items = xs ++ items' ∧ Remains k' items' d ctrls sent) ∨
      y = .ok none ∧ xs = items ++ [(.done d, ctrls)] ∧ Ended k' d ctrls sent := by
  have hlast : rd.verdict (.done d, ctrls) = .last ctrls := by
    rw [Reader.verdict, Reader.onDone, hpaged]
  cases h with
  | closed hrecv =>
    rw [Option.some.inj hk.rx] at hrecv
    obtain ⟨x, ⟨⟩, -⟩ := recv_recvs_concat hrecv
  | elapsed hrecv =>
    rw [Option.some.inj hk.rx] at hrecv
    obtain ⟨x, ⟨⟩, -⟩ := recv_recvs_concat hrecv
  | @yield _ _ _ _ x re hrecv hv =>
    rw [Option.some.inj hk.rx] at hrecv
    obtain ⟨items', rfl, hrest⟩ | ⟨-, rfl⟩ := recv_recvs_item hrecv
    · exact .inl ⟨re, items', rfl, rfl, hk.tail hrest⟩
    · exact absurd hv (Reader.verdict_done_ne_yield _ _ _)
  | @last _ _ _ _ d' ctrls' ctrls'' hrecv hv =>
    rw [Option.some.inj hk.rx] at hrecv
    obtain ⟨items', rfl, -⟩ | ⟨rfl, heq⟩ := recv_recvs_item (x := (.done d', ctrls')) hrecv
    · exact (hk.items _ List.mem_cons_self).elim
    · obtain ⟨heq₁, rfl⟩ := Prod.mk.inj heq
      obtain rfl := SearchItem.done.inj heq₁
      obtain rfl := Verdict.last.inj (hlast.symm.trans hv)
      exact .inr ⟨rfl, rfl, rfl, hk.sent⟩
  | unpaged _ _ hpr =>
    rw [hpaged] at hpr
    cases hpr
  | @bad _ _ _ _ x _ hrecv hv =>
    rw [Option.some.inj hk.rx] at hrecv
    obtain ⟨items', rfl, -⟩ | ⟨-, rfl⟩ := recv_recvs_item hrecv
    · obtain ⟨re, -, ⟨hyield, -⟩ | ⟨hkeep, -⟩⟩ :=
        @verdict_of_isItem rd x (hk.items x List.mem_cons_self)
      · rw [hyield] at hv
        cases hv
      · rw [hkeep] at hv
        cases hv
    · rw [hlast] at hv
      cases hv

theorem Pull.remains (hpaged : rd.paged = none) (hk : Remains k items d ctrls sent)
    (h : Pull rd timeout k xs k' y) :
    (∃ re items', y = .ok (some re) ∧ items = xs ++ items' ∧ Remains k' items' d ctrls sent) ∨
      y = .ok none ∧ xs = items ++ [(.done d, ctrls)] ∧ Ended k' d ctrls sent := by
  obtain ⟨skipped, k₁, got, hskips, hstop, rfl⟩ := h
  obtain ⟨items₁, rfl, h₁⟩ := hskips.remains hpaged hk
  obtain ⟨re, items', hy, rfl, h'⟩ | ⟨hy, rfl, hend⟩ := hstop.remains hpaged h₁
  · exact .inl ⟨re, items', hy, (List.append_assoc _ _ _).symm, h'⟩
  · exact .inr ⟨hy, (List.append_assoc _ _ _).symm, hend⟩

/-- The stream is read to its end, and the adapter has the referrals. -/
theorem readAll_of_remains {s : SearchStream} (hstate : s.state = .active) (hax : s.ax = 0)
    (hadapters : s.adapters = [.entriesOnly []]) (hk : Remains s.chan items d ctrls sent) :
    ∃ s', s.readAll (s.size + 1) =
        (s', .ok (items.filterMap (⟨true, none⟩ : Reader).passes)) ∧
      s'.state = .done ∧ s'.ax = 0 ∧ Ended s'.chan d ctrls sent ∧
      s'.adapters = [.entriesOnly (items.flatMap (⟨true, none⟩ : Reader).refs)] := by
  obtain ⟨s', hread, hdone, hframe, hend, hcollected⟩ := readAll_of_remaining
    (P := fun k rem ↦ ∃ items', Remains k items' d ctrls sent ∧
      rem = items' ++ [(.done d, ctrls)])
    (Q := fun k ↦ Ended k d ctrls sent)
    (by
      rintro k _ ⟨items', hk, -⟩
      rw [hk.rx]
      rfl)
    (by
      rintro timeout k xs k' y _ ⟨items', hk, rfl⟩ hpull
      obtain ⟨re, rest, hy, rfl, hrest⟩ | ⟨hy, hxs, hend⟩ := hpull.remains rfl hk
      · exact .inl ⟨re, _, hy, List.append_assoc _ _ _, rest, hrest, rfl⟩
      · exact .inr ⟨hy, hxs.symm, hend⟩)
    (s.size + 1) (congrArg reader hadapters) hstate (by rw [hadapters]; trivial)
    (by rw [hadapters]; exact List.cons_ne_nil _ _) hax ⟨items, hk, rfl⟩ (Nat.lt_succ_self _)
  have hpass : (items ++ [(SearchItem.done d, ctrls)]).filterMap (⟨true, none⟩ : Reader).passes =
      items.filterMap (⟨true, none⟩ : Reader).passes := by
    rw [List.filterMap_append, List.filterMap_cons, passes_done]
    exact List.append_nil _
  refine ⟨s', hread.trans (by rw [← hpass]; rfl), hdone, hframe.ax.trans hax, hend, ?_⟩
  -- The chain is still an `EntriesOnly`, and what it collected is known.
  have hsame := hframe.chain
  rw [hadapters] at hsame
  obtain ⟨b, bs, hb, hbs, hchain⟩ := List.forall₂_cons_left_iff.1 hsame
  obtain rfl := List.forall₂_nil_left_iff.1 hbs
  obtain ⟨refs, rfl⟩ := hb.exists_entriesOnly
  rw [hchain, hadapters] at hcollected
  have hrefs : refs =
      (items ++ [(SearchItem.done d, ctrls)]).flatMap (⟨true, none⟩ : Reader).refs := hcollected
  rw [hchain, hrefs, List.flatMap_append, List.flatMap_singleton, Reader.refs_done,
    List.append_nil]

end Loop

/-! ### The search -/

section Search

variable {ldap : Ldap} {base filter : String} {scope : Scope} {attrs : List String} {req : Tag}
  {net : Net} {a : SearchServed} {answers : List SearchServed} {id : RequestId}

/-- The stream of `search`, if its request gets through. -/
theorem streamingSearchWith_entriesOnly
    (hreq : Request.search (ldap.searchOpts.getD {}) base scope filter attrs = .ok req)
    (hans : net.answers = a :: answers) (hid : a.id = some id) (hsent : a.sent = true)
    (helapsed : a.elapsed = none) (haccepted : a.accepted = true) :
    ∃ ldap' s, ldap.streamingSearchWith [.entriesOnly []] base scope filter attrs net =
        (ldap', s, .ok ()) ∧
      s.state = .active ∧ s.ax = 0 ∧ s.adapters = [.entriesOnly []] ∧ s.rx = some a.events ∧
      s.net.sent = net.sent ++ [⟨id, .search, req, ldap.controls, ldap.timeout⟩] := by
  let clone : Ldap := { ldap.clone with
    controls := ldap.controls
    timeout := ldap.timeout
    searchOpts := ldap.searchOpts }
  have hprep : prepare base scope filter attrs clone [.entriesOnly []] =
      .ok ([.entriesOnly []], clone) := rfl
  have hinner := @startInner_of_accepted (new clone [.entriesOnly []] net) base filter scope attrs
    req a answers id hreq hans hid hsent helapsed haccepted
  refine ⟨{ ldap with controls := none, timeout := none, searchOpts := none },
    ((new clone [.entriesOnly []] net).startInner base scope filter attrs).1, ?_⟩
  rw [Ldap.streamingSearchWith, show (new clone [.entriesOnly []] net).start base scope filter
    attrs = _ from start_new_of_prepare net hprep, hinner]
  exact ⟨rfl, rfl, rfl, rfl, rfl, rfl⟩

/-- **A search whose items all arrive.** -/
theorem search_of_items {items : List Received} {d : LdapResult} {ctrls : List Control}
    (hreq : Request.search (ldap.searchOpts.getD {}) base scope filter attrs = .ok req)
    (hans : net.answers = a :: answers) (hid : a.id = some id) (hsent : a.sent = true)
    (helapsed : a.elapsed = none) (haccepted : a.accepted = true)
    (hevents : a.events = recvs (items ++ [(.done d, ctrls)])) (hitems : ∀ x ∈ items, IsItem x) :
    (ldap.search base scope filter attrs net).2.1.net.sent =
        net.sent ++ [⟨id, .search, req, ldap.controls, ldap.timeout⟩] ∧
      (ldap.search base scope filter attrs net).2.2 =
        .ok (items.filterMap (⟨true, none⟩ : Reader).passes,
          { d with
            ctrls := ctrls
            refs := d.refs ++ items.flatMap (⟨true, none⟩ : Reader).refs }) := by
  obtain ⟨ldap', s, hstart, hstate, hax, hadapters, hrx, hlog⟩ :=
    streamingSearchWith_entriesOnly hreq hans hid hsent helapsed haccepted
  have hk : Remains s.chan items d ctrls _ := ⟨hrx.trans (congrArg some hevents), hitems, hlog⟩
  obtain ⟨s', hread, hdone, hax', hend, hadapters'⟩ := readAll_of_remains hstate hax hadapters hk
  have hfinish := finish_eq (s := s') (by rw [hdone]; simp)
  have hbelow : s'.below = [.entriesOnly (items.flatMap (⟨true, none⟩ : Reader).refs)] := by
    rw [below, hax', List.drop_zero, hadapters']
  have hsearch : ldap.search base scope filter attrs net =
      (ldap', s'.finish.1, .ok (items.filterMap (⟨true, none⟩ : Reader).passes, s'.finish.2)) := by
    simp only [Ldap.search, hstart, hread]
  rw [hsearch, hfinish, hbelow, show s'.res = _ from hend.res]
  exact ⟨hend.sent, by simp [Adapter.refs]⟩

end Search

/-! ### From end to end -/

/-- What the handle finds of an operation of the connection, if the time does not run out. -/
def Conn.searchServed (c : Conn) (o : ℕ) : SearchServed where
  id := some (c.ops o).id
  sent := (c.ops o).phase ≠ .allocated
  elapsed := none
  accepted := (c.ops o).reply.isSome
  events := recvs (c.ops o).items

/-- A request in the driver's queue, whose caller waits. -/
def Sent.queued (m : Sent) : Op :=
  { Op.new m.id m.op m.req m.controls with phase := .queued }

namespace Conn

variable {c c₁ c₂ c' : Conn} {o : ℕ} {id : RequestId} {acts : List Act}

/-- The channel of a Search when the result has arrived. -/
theorem searchServed_of_run (hreach : Machine.Reach Conn.step Machine.any Conn.init c) {m : Sent}
    (hop : m.op = .search) (hhead : c.rx.head? = some o) (hqueued : c.ops o = m.queued)
    (hwrite : c.step (.turnOp true) = some c₁)
    (hrun : Machine.run Conn.step (Undisturbed o m.id) c₁ acts = some c₂)
    {msgs : List (SearchMessage × List Control)}
    (hmsgs : acts.filterMap (Act.message m.id) = msgs.map SearchMessage.sent) {tag : Tag}
    {d : LdapResult} (htag : searchItem tag = .ok (.done d, true)) {ctrls : List Control}
    (hdone : c₂.step (.turnResp m.id tag ctrls) = some c') :
    c'.searchServed o = ⟨some m.id, true, none, true,
      recvs (msgs.map SearchMessage.received ++ [(.done d, ctrls)])⟩ := by
  have hmapped := Mapped.of_reach hreach
  have hmapped₁ := hmapped.step hwrite
  -- The request is written, and the Search is registered.
  have hstart : Receiving c₁ o m.id [] := by
    have ⟨hid, hop', hreply, hopen⟩ : (c.ops o).id = m.id ∧ (c.ops o).op = .search ∧
        (c.ops o).replyOpen = true ∧ (c.ops o).itemsOpen = true := by
      rw [hqueued]
      exact ⟨rfl, hop, rfl, rfl⟩
    cases step_cases hwrite with
    | turnOp hs => exact hid ▸ receiving_of_turnOp hmapped hhead hop' hreply hopen hs
  -- The messages arrive.
  have hitems : List.Forall₂ ItemMore (msgs.map SearchMessage.received)
      (acts.filterMap (Act.message m.id)) := by
    rw [hmsgs, List.forall₂_map_left_iff, List.forall₂_map_right_iff, List.forall₂_same]
    exact fun m _ ↦ SearchMessage.itemMore m
  obtain ⟨hrecv, hmapped₂⟩ := hstart.run hmapped₁ hrun hitems
  obtain ⟨-, hid, htaken⟩ := hmapped₂.searchmap_op m.id o hrecv.slot
  -- The result arrives.
  cases step_cases hdone with
  | turnResp =>
    obtain ⟨hops, -⟩ := hrecv.turnResp_self htag ctrls
    rw [searchServed, hops]
    simp only [hid, htaken, hrecv.replied]
    rfl

end Conn

/-- **Nothing is lost or duplicated in a search.** The driver of any connection takes the request of
a Search from its queue, messages of any number and order arrive for it while other operations go
on, and then the result: `search` returns the entries, and the result with all referrals. -/
theorem search_of_run {c c₁ c₂ c' : Conn} {o : ℕ} {id : RequestId} {acts : List Conn.Act}
    (hreach : Machine.Reach Conn.step Machine.any Conn.init c) (ldap : Ldap) (base : String)
    (scope : Scope) (filter : String) (attrs : List String) {req : Tag}
    (hreq : Request.search (ldap.searchOpts.getD {}) base scope filter attrs = .ok req)
    (hhead : c.rx.head? = some o)
    (hqueued : c.ops o = (⟨id, .search, req, ldap.controls, ldap.timeout⟩ : Sent).queued)
    (hwrite : c.step (.turnOp true) = some c₁)
    (hrun : Machine.run Conn.step (Conn.Undisturbed o id) c₁ acts = some c₂)
    (msgs : List (SearchMessage × List Control))
    (hmsgs : acts.filterMap (Conn.Act.message id) = msgs.map SearchMessage.sent)
    (r : Response) (hop : r.op = 5) {rc : List UInt8} (hrc : Response.Denotes rc r.rc)
    (ctrls : List Control)
    (hdone : c₂.step (.turnResp id (.structureTag (r.opTag rc)) ctrls) = some c')
    (net : Net) {answers : List SearchServed} (hans : net.answers = c'.searchServed o :: answers) :
    (ldap.search base scope filter attrs net).2.1.net.sent =
        net.sent ++ [⟨id, .search, req, ldap.controls, ldap.timeout⟩] ∧
      (ldap.search base scope filter attrs net).2.2 =
        .ok (msgs.filterMap SearchMessage.toEntry,
          { rc := UInt32.ofNat r.rc
            matched := r.matched
            text := r.text
            refs := r.refs.getD [] ++ msgs.flatMap fun m ↦ m.1.uris
            ctrls := ctrls }) := by
  obtain ⟨d, htag, hd⟩ := r.searchItem_opTag hop hrc
  have hserved := Conn.searchServed_of_run hreach
    (m := ⟨id, .search, req, ldap.controls, ldap.timeout⟩) rfl hhead hqueued hwrite hrun hmsgs htag
    hdone
  rw [hserved] at hans
  have hsearch := search_of_items hreq hans rfl rfl rfl rfl rfl fun x hx ↦ by
    obtain ⟨m, -, rfl⟩ := List.mem_map.1 hx
    exact SearchMessage.isItem m
  have hpasses : (msgs.map SearchMessage.received).filterMap (⟨true, none⟩ : Reader).passes =
      msgs.filterMap SearchMessage.toEntry := by
    rw [List.filterMap_map]
    exact List.filterMap_congr fun m _ ↦ SearchMessage.passes_received m
  have hrefs : (msgs.map SearchMessage.received).flatMap (⟨true, none⟩ : Reader).refs =
      msgs.flatMap fun m ↦ m.1.uris := by
    rw [List.flatMap_map]
    exact List.flatMap_congr fun m _ ↦ SearchMessage.refs_received m
  refine ⟨hsearch.1, hsearch.2.trans ?_⟩
  rw [hpasses, hrefs]
  obtain ⟨hrc', hmatched, htext, hrefs', -⟩ := LdapResult.mk.inj (hd ctrls)
  rw [hrc', hmatched, htext, hrefs']

/-- An entry, a referral and an intermediate message. -/
def threeMessages : List (SearchMessage × List Control) :=
  [(.entry (.C []), [RawControl.toControl ⟨"1.", false, none⟩]),
    (.reference ["ldap://a"], []), (.intermediate (.C []), [])]

/-- The result of a Search without referrals of its own. -/
def searchResDone : Response :=
  { Response.bindResponse with op := 5 }

/-- They arrive while another operation is allocated, sent and answered. -/
def threeActs (req : Tag) : List Conn.Act :=
  [.turnResp 1 (.structureTag ⟨.application, 4, .C []⟩)
      [RawControl.toControl ⟨"1.", false, none⟩],
    .alloc .single req none, .enqueue 1, .turnOp true,
    .turnResp 1 (.structureTag (SearchMessage.reference ["ldap://a"]).tag) [],
    .turnResp 2 .ofNull [], .turnResp 1 (.structureTag ⟨.application, 25, .C []⟩) []]

theorem search_of_run_three :
    ∃ (net : Net) (req : Tag),
      ((⟨0, none, none, none⟩ : Ldap).search "dc=a" .subtree "(a=b)" [] net).2.1.net.sent =
          [⟨1, .search, req, none, none⟩] ∧
        ((⟨0, none, none, none⟩ : Ldap).search "dc=a" .subtree "(a=b)" [] net).2.2 =
          .ok ([⟨⟨.application, 4, .C []⟩, [RawControl.toControl ⟨"1.", false, none⟩]⟩],
            ⟨0, "", "", ["ldap://a"], []⟩) := by
  obtain ⟨req, hreq⟩ : ∃ req, Request.search ((none : Option SearchOptions).getD {}) "dc=a"
    .subtree "(a=b)" [] = .ok req := ⟨_, rfl⟩
  have hinit : Machine.Reach Conn.step Machine.any Conn.init Conn.init := .init
  have halloc := hinit.step (l := Conn.Act.alloc .search req none) trivial rfl
  have hqueued := halloc.step (l := Conn.Act.enqueue 0) trivial rfl
  have hrc : Response.Denotes [0] searchResDone.rc := ⟨by decide, rfl⟩
  obtain ⟨c, hreach, hhead, hop, c₁, hwrite, c₂, hrun, c', hdone⟩ : ∃ c,
      Machine.Reach Conn.step Machine.any Conn.init c ∧ c.rx.head? = some 0 ∧
      c.ops 0 = (⟨1, .search, req, none, none⟩ : Sent).queued ∧
      ∃ c₁, c.step (.turnOp true) = some c₁ ∧
      ∃ c₂, Machine.run Conn.step (Conn.Undisturbed 0 1) c₁ (threeActs req) = some c₂ ∧
      ∃ c', c₂.step (.turnResp 1 (.structureTag (searchResDone.opTag [0])) []) = some c' :=
    ⟨_, hqueued, rfl, rfl, _, rfl, _, rfl, _, rfl⟩
  obtain ⟨hsent, hsearch⟩ := search_of_run hreach ⟨0, none, none, none⟩ "dc=a" .subtree "(a=b)" []
    hreq hhead hop hwrite hrun threeMessages rfl searchResDone rfl hrc [] hdone
    ⟨[c'.searchServed 0], [], []⟩ rfl
  exact ⟨_, req, hsent, hsearch⟩

end Ldap3
