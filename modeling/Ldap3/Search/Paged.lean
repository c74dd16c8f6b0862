import Ldap3.Search.Calls

/-!
# Paged search

A server that answers a Search in pages sends a list of items and a result for each request, and in
the result of every page but the last a Paged Results control with a cookie, which the next request
gives back (`Pages`). `PagedResults` hides this from the user.

**Paged search equals unpaged search** (`paged_eq_unpaged`): over any such answer, with
`PagedResults` alone or together with `EntriesOnly` in either order, the stream can be read to its
end, and yields the items of all pages one after the other; the requests are the same but for the
cookie, with nothing accumulated; and `finish` returns the result of the last page without the
control.

What remains of the answer is followed through the loop of a call (`Scripted`), and then through the
calls.
-/

namespace Ldap3

open SearchStream

/-! ### Pages -/

/-- A page: what the server sends to one request, and the message id of the request. -/
structure Page where
  id : RequestId
  items : List Received
  result : LdapResult
  ctrls : List Control
  /-- The cookie in the control of the result, empty if there is none. -/
  cookie : List UInt8

def recvs (xs : List Received) : List Recv :=
  xs.map fun x ↦ .item x.1 x.2

namespace Page

def received (p : Page) : List Received :=
  p.items ++ [(.done p.result, p.ctrls)]

/-- The request gets through, and nothing but the page arrives. -/
def served (p : Page) : SearchServed :=
  ⟨some p.id, true, none, true, recvs p.received⟩

/-- The result has one Paged Results control, and the cookie is in it. -/
def HasControl (p : Page) : Prop :=
  ∃ ctrl size, p.ctrls.filter Control.isPaged = [ctrl] ∧
    Controls.PagedResults.parse ctrl.raw = some ⟨size, p.cookie⟩

end Page

/-- A well-formed entry, intermediate message or referral. -/
def IsItem : Received → Prop
  | (.entry tag, _) => tag.id = 4 ∨ tag.id = 25
  | (.referral tag, _) => tag.id = 19 ∧ ∃ refs, parseRefs tag = .ok refs
  | (.done _, _) => False

/-- The pages of an answer. -/
inductive Pages : List Page → Prop
  | last {p : Page} (hitems : ∀ x ∈ p.items, IsItem x) (hcookie : p.cookie = [])
      (hctrl : p.ctrls.filter Control.isPaged = [] ∨ p.HasControl) : Pages [p]
  | more {p : Page} {ps : List Page} (hitems : ∀ x ∈ p.items, IsItem x) (hcookie : p.cookie ≠ [])
      (hctrl : p.HasControl) (hps : Pages ps) : Pages (p :: ps)

/-- All that the server sends. -/
def script (pages : List Page) : List Received :=
  pages.flatMap Page.received

/-- The result of the last page, without the control. -/
def final (pages : List Page) : Option LdapResult :=
  pages.getLast?.map fun p ↦ { p.result with ctrls := p.ctrls.eraseP Control.isPaged }

/-- The requests of some pages, the first with this cookie. -/
def requests (request : List UInt8 → RequestId → Sent) : List UInt8 → List Page → List Sent
  | _, [] => []
  | cookie, p :: ps => request cookie p.id :: requests request p.cookie ps

theorem Pages.items {p : Page} {ps : List Page} (h : Pages (p :: ps)) :
    ∀ x ∈ p.items, IsItem x := by
  cases h with
  | last hitems => exact hitems
  | more hitems => exact hitems

theorem Pages.exists_cons {pages : List Page} (h : Pages pages) : ∃ p ps, pages = p :: ps := by
  cases h with
  | last => exact ⟨_, _, rfl⟩
  | more => exact ⟨_, _, rfl⟩

/-- Some items of the first page were received. -/
theorem Pages.of_items {p : Page} {ps : List Page} (h : Pages (p :: ps)) {items : List Received}
    (hsub : ∀ x ∈ items, x ∈ p.items) : Pages ({ p with items := items } :: ps) := by
  cases h with
  | last hitems hcookie hctrl => exact .last (fun x hx ↦ hitems x (hsub x hx)) hcookie hctrl
  | more hitems hcookie hctrl hps =>
    exact .more (fun x hx ↦ hitems x (hsub x hx)) hcookie hctrl hps

/-! ### What a reader makes of them -/

section Verdicts

variable {rd : Reader} {pr : PagedResults} {p : Page}

/-- What is passed on. -/
def Reader.passes (rd : Reader) (x : Received) : Option ResultEntry :=
  match rd.verdict x with
  | .yield re => some re
  | _ => none

theorem verdict_of_hasControl (hpaged : rd.paged = some pr) (h : p.HasControl) :
    rd.verdict (.done p.result, p.ctrls) =
      if p.cookie = [] then .last (p.ctrls.eraseP Control.isPaged) else .page p.cookie := by
  obtain ⟨ctrl, size, hfilter, hparse⟩ := h
  have hfind : p.ctrls.find? Control.isPaged = some ctrl := by
    rw [← List.head?_filter, hfilter]
    rfl
  simp only [Reader.verdict, Reader.onDone, hpaged, hfind, hparse]

theorem verdict_of_last (hpaged : rd.paged = some pr) (hcookie : p.cookie = [])
    (h : p.ctrls.filter Control.isPaged = [] ∨ p.HasControl) :
    rd.verdict (.done p.result, p.ctrls) = .last (p.ctrls.eraseP Control.isPaged) := by
  rcases h with hfilter | hctrl
  · have hfind : p.ctrls.find? Control.isPaged = none := by
      rw [← List.head?_filter, hfilter]
      rfl
    have herase : p.ctrls.eraseP Control.isPaged = p.ctrls :=
      List.eraseP_of_forall_not fun c hc hpaged ↦ by
        have hmem := List.mem_filter.2 ⟨hc, hpaged⟩
        rw [hfilter] at hmem
        cases hmem
    simp only [Reader.verdict, Reader.onDone, hpaged, hfind, herase]
  · rw [verdict_of_hasControl hpaged hctrl, if_pos hcookie]

theorem passes_done (d : LdapResult) (ctrls : List Control) :
    rd.passes (.done d, ctrls) = none := by
  rw [Reader.passes, Reader.verdict]
  rcases rd.onDone_cases ctrls with ⟨ctrls', hd⟩ | ⟨cookie, hd⟩ | hd <;> rw [hd]

/-- What an item is to the user. -/
def toEntry : Received → Option ResultEntry
  | (.entry tag, ctrls) => some ⟨tag, ctrls⟩
  | (.referral tag, ctrls) => some ⟨tag, ctrls⟩
  | (.done _, _) => none

/-- The URIs of a referral. -/
def referrals : Received → List String
  | (.referral tag, _) =>
    match parseRefs tag with
    | .ok refs => refs
    | .error _ => []
  | _ => []

/-- Neither an intermediate message nor a referral. -/
def ResultEntry.isEntry (re : ResultEntry) : Bool :=
  !re.isIntermediate && !re.isRef

/-- What becomes of an item. -/
theorem verdict_of_isItem {x : Received} (h : IsItem x) :
    ∃ re, toEntry x = some re ∧
      (rd.verdict x = .yield re ∧ (rd.entriesOnly = true → re.isEntry = true ∧ referrals x = []) ∨
        rd.verdict x = .keep (referrals x) ∧ rd.entriesOnly = true ∧ re.isEntry = false) := by
  rcases rd with ⟨- | -, paged⟩
  · rcases x with ⟨tag | tag | d, ctrls⟩
    · exact ⟨_, rfl, .inl ⟨rfl, by rintro ⟨⟩⟩⟩
    · exact ⟨_, rfl, .inl ⟨rfl, by rintro ⟨⟩⟩⟩
    · exact h.elim
  · rcases x with ⟨tag | tag | d, ctrls⟩
    · refine ⟨_, rfl, ?_⟩
      rcases h with hid | hid
      · exact .inl ⟨by simp [Reader.verdict, Reader.onEntry, ResultEntry.isIntermediate,
          ResultEntry.isRef, hid], fun _ ↦ ⟨by simp [ResultEntry.isEntry,
          ResultEntry.isIntermediate, ResultEntry.isRef, hid], rfl⟩⟩
      · exact .inr ⟨by simp [Reader.verdict, Reader.onEntry, ResultEntry.isIntermediate, hid,
          referrals], rfl, by simp [ResultEntry.isEntry, ResultEntry.isIntermediate, hid]⟩
    · obtain ⟨hid, refs, hrefs⟩ := h
      exact ⟨_, rfl, .inr ⟨by simp [Reader.verdict, Reader.onEntry, ResultEntry.isIntermediate,
        ResultEntry.isRef, hid, referrals, hrefs], rfl,
        by simp [ResultEntry.isEntry, ResultEntry.isRef, hid]⟩⟩
    · exact h.elim

theorem passes_of_isItem {x : Received} (h : IsItem x) :
    rd.passes x = (toEntry x).filter fun re ↦ !rd.entriesOnly || re.isEntry := by
  obtain ⟨re, hre, ⟨hv, hentry⟩ | ⟨hv, honly, hentry⟩⟩ := @verdict_of_isItem rd x h
  · rw [Reader.passes, hv, hre]
    rcases honly : rd.entriesOnly with - | -
    · rfl
    · simp [Option.filter_some, (hentry honly).1]
  · rw [Reader.passes, hv, hre]
    simp [Option.filter_some, honly, hentry]

theorem refs_of_isItem {x : Received} (h : IsItem x) (honly : rd.entriesOnly = true) :
    rd.refs x = referrals x := by
  obtain ⟨re, hre, ⟨hv, hentry⟩ | ⟨hv, -⟩⟩ := @verdict_of_isItem rd x h
  · rw [Reader.refs, hv, (hentry honly).2]
  · rw [Reader.refs, hv]

end Verdicts

/-! ### What the user gets -/

/-- The items of all pages, with the intermediate messages and the referrals taken out if
`EntriesOnly` is in the chain. -/
def entries (entriesOnly : Bool) (pages : List Page) : List ResultEntry :=
  ((pages.flatMap Page.items).filterMap toEntry).filter fun re ↦ !entriesOnly || re.isEntry

/-- The referrals of all pages. -/
def allReferrals (pages : List Page) : List String :=
  (pages.flatMap Page.items).flatMap referrals

theorem Pages.isItem {pages : List Page} (h : Pages pages) :
    ∀ p ∈ pages, ∀ x ∈ p.items, IsItem x := by
  induction h with
  | last hitems => simpa using hitems
  | more hitems _ _ _ ih => exact List.forall_mem_cons.2 ⟨hitems, ih⟩

theorem filterMap_passes_script {pages : List Page} (rd : Reader) (h : Pages pages) :
    (script pages).filterMap rd.passes = entries rd.entriesOnly pages := by
  have hitems := h.isItem
  clear h
  induction pages with
  | nil => rfl
  | cons p ps ih =>
    obtain ⟨hp, hps⟩ := List.forall_mem_cons.1 hitems
    have hpage : p.items.filterMap rd.passes =
        (p.items.filterMap toEntry).filter fun re ↦ !rd.entriesOnly || re.isEntry := by
      rw [List.filter_filterMap]
      exact List.filterMap_congr fun x hx ↦ passes_of_isItem (hp x hx)
    rw [script, List.flatMap_cons, Page.received, List.filterMap_append, List.filterMap_append,
      hpage, List.filterMap_cons, passes_done, List.filterMap_nil, List.append_nil, entries,
      List.flatMap_cons, List.filterMap_append, List.filter_append]
    exact congrArg _ (ih hps)

theorem flatMap_refs_script {pages : List Page} {rd : Reader} (h : Pages pages)
    (honly : rd.entriesOnly = true) : (script pages).flatMap rd.refs = allReferrals pages := by
  have hitems := h.isItem
  clear h
  induction pages with
  | nil => rfl
  | cons p ps ih =>
    obtain ⟨hp, hps⟩ := List.forall_mem_cons.1 hitems
    have hpage : p.items.flatMap rd.refs = p.items.flatMap referrals :=
      List.flatMap_congr fun x hx ↦ refs_of_isItem (hp x hx) honly
    rw [script, List.flatMap_cons, Page.received, List.flatMap_append, List.flatMap_append, hpage,
      List.flatMap_singleton, Reader.refs_done, List.append_nil, allReferrals, List.flatMap_cons,
      List.flatMap_append]
    exact congrArg _ (ih hps)

theorem flatMap_refs_script_eq {pages : List Page} {rd : Reader} (h : Pages pages) :
    (script pages).flatMap rd.refs = if rd.entriesOnly then allReferrals pages else [] := by
  split
  · rename_i honly
    exact flatMap_refs_script h honly
  · rename_i honly
    exact List.flatMap_eq_nil_iff.2 fun x _ ↦
      Reader.refs_of_not_entriesOnly (by simpa using honly) x

/-! ### What remains of an answer -/

/-- `PagedResults` in a reader, with what it saved. -/
structure Pager (rd : Reader) where
  pr : PagedResults
  ldap : Ldap
  controls : List RawControl
  attrs : List String
  req : Tag
  paged : rd.paged = some pr
  ldap_eq : pr.ldap = some ldap
  controls_eq : ldap.controls = some controls
  attrs_eq : pr.attrs = some attrs
  req_eq : Request.search (ldap.searchOpts.getD {}) pr.base pr.scope pr.filter attrs = .ok req

/-- The request of a page. -/
def Pager.request {rd : Reader} (w : Pager rd) (cookie : List UInt8) (id : RequestId) : Sent :=
  w.pr.pageSent w.ldap w.controls cookie w.req id

/-- A page is being received, and others are to come. -/
structure Scripted (k : Chan) (p : Page) (ps : List Page) : Prop where
  rx : k.rx = some (recvs p.received)
  answers : k.net.answers = ps.map Page.served
  pages : Pages (p :: ps)

/-- The null result is a response. -/
theorem SearchServed.response_of_accepted {a : SearchServed} (helapsed : a.elapsed = none)
    (haccepted : a.accepted = true) (timeout : Option ℕ) :
    ∃ ext, a.served.response timeout = .ok ext := by
  simp only [Served.response, SearchServed.served, helapsed, haccepted]
  rcases timeout with - | timeout <;> exact ⟨_, rfl⟩

/-- A request that gets through. -/
theorem startInner_of_accepted {s : SearchStream} {base filter : String} {scope : Scope}
    {attrs : List String} {req : Tag} {a : SearchServed} {answers : List SearchServed}
    {id : RequestId}
    (hreq : Request.search (s.ldap.searchOpts.getD {}) base scope filter attrs = .ok req)
    (hans : s.net.answers = a :: answers) (hid : a.id = some id) (hsent : a.sent = true)
    (helapsed : a.elapsed = none) (haccepted : a.accepted = true) :
    s.startInner base scope filter attrs =
      ({ s with
          ldap := ⟨id, none, none, none⟩
          rx := some a.events
          timeout := s.ldap.timeout
          net := ⟨answers, s.net.sent ++ [⟨id, .search, req, s.ldap.controls, s.ldap.timeout⟩],
            s.net.taken⟩
          state := .active }, .ok ()) := by
  have hanswer : s.net.answer = (a, { s.net with answers := answers }) := by
    rw [Net.answer, hans]
  obtain ⟨ext, hext⟩ := SearchServed.response_of_accepted helapsed haccepted s.ldap.timeout
  have hcall := @opCall_of_sent { s.ldap with searchOpts := none } .search req a.served id hid hsent
  rw [show a.served.response ({ s.ldap with searchOpts := none } : Ldap).timeout = .ok ext
    from hext] at hcall
  rw [startInner_of_request hreq, hanswer]
  simp only [hcall, SearchServed.channel, hsent, if_true]
  rfl

/-- A request that is answered by a page. -/
theorem startInner_of_page {s : SearchStream} {base filter : String} {scope : Scope}
    {attrs : List String} {req : Tag} {p : Page} {ps : List Page}
    (hreq : Request.search (s.ldap.searchOpts.getD {}) base scope filter attrs = .ok req)
    (hans : s.net.answers = (p :: ps).map Page.served) :
    s.startInner base scope filter attrs =
      ({ s with
          ldap := ⟨p.id, none, none, none⟩
          rx := some (recvs p.received)
          timeout := s.ldap.timeout
          net := ⟨ps.map Page.served, s.net.sent ++ [⟨p.id, .search, req, s.ldap.controls,
            s.ldap.timeout⟩], s.net.taken⟩
          state := .active }, .ok ()) :=
  startInner_of_accepted hreq hans rfl rfl rfl rfl

/-- The next page is there. -/
theorem Pager.turn {rd : Reader} (w : Pager rd) {k : Chan} {p : Page} {ps : List Page}
    (cookie : List UInt8) (hans : k.net.answers = (p :: ps).map Page.served) :
    k.turn w.pr cookie = (⟨some (recvs p.received), k.res,
      ⟨ps.map Page.served, k.net.sent ++ [w.request cookie p.id], k.net.taken⟩⟩, .ok ()) := by
  have hstart := @startInner_of_page (new (w.pr.pageLdap w.ldap w.controls cookie) [] k.stream.net)
    w.pr.base w.pr.filter w.pr.scope w.attrs w.req p ps w.req_eq hans
  rw [Chan.turn, nextPage_of_saved w.ldap_eq w.controls_eq w.attrs_eq, hstart]
  rfl

section Loop

variable {rd : Reader} {timeout : Option ℕ} {k k₁ k' : Chan} {x : Received} {xs ys : List Received}
  {p p₁ p' : Page} {ps ps₁ ps' : List Page} {y : Except Failure (Option ResultEntry)}

theorem recv_recvs (timeout : Option ℕ) (x : Received) (xs : List Received) :
    recv timeout (recvs (x :: xs)) = (some (.item x.1 x.2), recvs xs) :=
  rfl

/-- What arrives next is not the end of the channel. -/
theorem recv_recvs_concat {items : List Received} {last : Received} {got : Option Recv}
    {rest : List Recv} (h : recv timeout (recvs (items ++ [last])) = (got, rest)) :
    ∃ x : Received, got = some (.item x.1 x.2) ∧
      ((∃ items', items = x :: items' ∧ rest = recvs (items' ++ [last])) ∨
        items = [] ∧ x = last) := by
  rcases items with - | ⟨x, items⟩
  · rw [List.nil_append, recv_recvs] at h
    obtain ⟨rfl, -⟩ := Prod.mk.inj h
    exact ⟨_, rfl, .inr ⟨rfl, rfl⟩⟩
  · rw [List.cons_append, recv_recvs] at h
    obtain ⟨rfl, rfl⟩ := Prod.mk.inj h
    exact ⟨x, rfl, .inl ⟨items, rfl, rfl⟩⟩

/-- It is an item, or the last one. -/
theorem recv_recvs_item {items : List Received} {last : Received} {rest : List Recv}
    (h : recv timeout (recvs (items ++ [last])) = (some (.item x.1 x.2), rest)) :
    (∃ items', items = x :: items' ∧ rest = recvs (items' ++ [last])) ∨
      items = [] ∧ x = last := by
  obtain ⟨z, hz, hcases⟩ := recv_recvs_concat h
  obtain ⟨h₁, h₂⟩ := Recv.item.inj (Option.some.inj hz)
  obtain rfl : x = z := Prod.ext h₁ h₂
  exact hcases

theorem Scripted.recv_eq {rx rest : List Recv} {res : Option LdapResult} {net : Net}
    {got : Option Recv} (hk : Scripted ⟨some rx, res, net⟩ p ps)
    (hrecv : recv timeout rx = (got, rest)) : ∃ x : Received, got = some (.item x.1 x.2) := by
  rw [Option.some.inj hk.rx, Page.received] at hrecv
  obtain ⟨x, hx, -⟩ := recv_recvs_concat hrecv
  exact ⟨x, hx⟩

theorem Scripted.recv_item {rx rest : List Recv} {res : Option LdapResult} {net : Net}
    (hk : Scripted ⟨some rx, res, net⟩ p ps)
    (hrecv : recv timeout rx = (some (.item x.1 x.2), rest)) :
    (∃ items, p.items = x :: items ∧ rest = recvs { p with items := items }.received) ∨
      p.items = [] ∧ x = (.done p.result, p.ctrls) := by
  rw [Option.some.inj hk.rx, Page.received] at hrecv
  exact recv_recvs_item hrecv

theorem Scripted.recv_done {rx rest : List Recv} {res : Option LdapResult} {net : Net}
    {d : LdapResult} {ctrls : List Control} (hk : Scripted ⟨some rx, res, net⟩ p ps)
    (hrecv : recv timeout rx = (some (.item (.done d) ctrls), rest)) :
    p.items = [] ∧ d = p.result ∧ ctrls = p.ctrls := by
  obtain ⟨items, hitems, -⟩ | ⟨hitems, heq⟩ := hk.recv_item (x := (.done d, ctrls)) hrecv
  · have hitem : IsItem (.done d, ctrls) := hk.pages.items _ (hitems ▸ List.mem_cons_self)
    exact hitem.elim
  · obtain ⟨h₁, h₂⟩ := Prod.mk.inj heq
    exact ⟨hitems, SearchItem.done.inj h₁, h₂⟩

/-- What the result of a page amounts to. -/
theorem Pages.verdict (h : Pages (p :: ps)) {pr : PagedResults} (hpaged : rd.paged = some pr) :
    ps = [] ∧ rd.verdict (.done p.result, p.ctrls) = .last (p.ctrls.eraseP Control.isPaged) ∨
      ∃ q qs, ps = q :: qs ∧ Pages (q :: qs) ∧
        rd.verdict (.done p.result, p.ctrls) = .page p.cookie := by
  cases h with
  | last _ hcookie hctrl => exact .inl ⟨rfl, verdict_of_last hpaged hcookie hctrl⟩
  | more _ hcookie hctrl hps =>
    rcases ps with - | ⟨q, qs⟩
    · cases hps
    · exact .inr ⟨q, qs, rfl, hps, by rw [verdict_of_hasControl hpaged hctrl, if_neg hcookie]⟩

/-- What is left of an answer after some of it was received. -/
structure Leaves (w : Pager rd) (k : Chan) (p : Page) (ps : List Page) (xs : List Received)
    (k' : Chan) (p' : Page) (ps' : List Page) : Prop where
  scripted : Scripted k' p' ps'
  script : Ldap3.script (p :: ps) = xs ++ Ldap3.script (p' :: ps')
  sent : k'.net.sent ++ requests w.request p'.cookie ps' =
    k.net.sent ++ requests w.request p.cookie ps
  final : Ldap3.final (p' :: ps') = Ldap3.final (p :: ps)

theorem Leaves.trans {w : Pager rd} (h : Leaves w k p ps xs k₁ p₁ ps₁)
    (h' : Leaves w k₁ p₁ ps₁ ys k' p' ps') : Leaves w k p ps (xs ++ ys) k' p' ps' :=
  ⟨h'.scripted, by rw [h.script, h'.script, List.append_assoc], h'.sent.trans h.sent,
    h'.final.trans h.final⟩

/-- An item is received. -/
theorem Scripted.leaves_item {rx : List Recv} {res : Option LdapResult} {net : Net}
    {items : List Received} (w : Pager rd) (hk : Scripted ⟨some rx, res, net⟩ p ps)
    (hitems : p.items = x :: items) :
    Leaves w ⟨some rx, res, net⟩ p ps [x]
      ⟨some (recvs { p with items := items }.received), res, net.take x.1 x.2⟩
      { p with items := items } ps where
  scripted :=
    ⟨rfl, hk.answers, hk.pages.of_items fun z hz ↦ hitems ▸ List.mem_cons_of_mem x hz⟩
  script := by
    rw [script, List.flatMap_cons, Page.received, hitems]
    rfl
  sent := rfl
  final := by
    rw [final, final]
    cases ps <;> rfl

/-- What is left after an item that is skipped. -/
theorem Skip.leaves (w : Pager rd) (hk : Scripted k p ps) (h : Skip rd timeout k x k') :
    ∃ p' ps', Leaves w k p ps [x] k' p' ps' := by
  cases h with
  | @keep rx rest res net x refs hrecv hv =>
    obtain ⟨items, hitems, rfl⟩ | ⟨-, rfl⟩ := hk.recv_item hrecv
    · exact ⟨_, _, hk.leaves_item w hitems⟩
    · exact absurd hv (Reader.verdict_done_ne_keep p.result p.ctrls refs)
  | @page rx rest res net d ctrls cookie pr k' hrecv hv hpr hturn =>
    obtain ⟨hitems, rfl, rfl⟩ := hk.recv_done hrecv
    obtain ⟨rfl, hlast⟩ | ⟨q, qs, rfl, hps, hpage⟩ := hk.pages.verdict w.paged
    · rw [hlast] at hv
      cases hv
    · obtain rfl := Verdict.page.inj (hpage.symm.trans hv)
      obtain rfl : w.pr = pr := Option.some.inj (w.paged.symm.trans hpr)
      rw [@Pager.turn rd w ⟨none, _, net.take _ _⟩ q qs p.cookie hk.answers] at hturn
      obtain ⟨rfl, -⟩ := Prod.mk.inj hturn
      refine ⟨q, qs, ⟨⟨rfl, rfl, hps⟩, ?_, List.append_assoc _ _ _, rfl⟩⟩
      rw [script, List.flatMap_cons, Page.received, hitems]
      rfl

theorem Skips.leaves (w : Pager rd) (hk : Scripted k p ps) (h : Skips rd timeout k xs k') :
    ∃ p' ps', Leaves w k p ps xs k' p' ps' := by
  induction h generalizing p ps with
  | nil => exact ⟨p, ps, hk, rfl, rfl, rfl⟩
  | cons hskip _ ih =>
    obtain ⟨p₁, ps₁, h₁⟩ := hskip.leaves w hk
    obtain ⟨p', ps', h'⟩ := ih h₁.scripted
    exact ⟨p', ps', h₁.trans h'⟩

/-- Nothing is left of an answer. -/
structure Ends (w : Pager rd) (k : Chan) (p : Page) (ps : List Page) (xs : List Received)
    (k' : Chan) : Prop where
  script : Ldap3.script (p :: ps) = xs
  sent : k'.net.sent = k.net.sent ++ requests w.request p.cookie ps
  res : k'.res = Ldap3.final (p :: ps)

/-- The last turn of the loop. -/
theorem Stop.leaves_or_ends (w : Pager rd) (hk : Scripted k p ps)
    (h : Stop rd timeout k xs k' y) :
    (∃ re p' ps', y = .ok (some re) ∧ Leaves w k p ps xs k' p' ps') ∨
      y = .ok none ∧ Ends w k p ps xs k' := by
  cases h with
  | closed hrecv =>
    obtain ⟨x, ⟨⟩⟩ := hk.recv_eq hrecv
  | elapsed hrecv =>
    obtain ⟨x, ⟨⟩⟩ := hk.recv_eq hrecv
  | @yield rx rest res net x re hrecv hv =>
    obtain ⟨items, hitems, rfl⟩ | ⟨-, rfl⟩ := hk.recv_item hrecv
    · exact .inl ⟨re, _, _, rfl, hk.leaves_item w hitems⟩
    · exact absurd hv (Reader.verdict_done_ne_yield p.result p.ctrls re)
  | @last rx rest res net d ctrls ctrls' hrecv hv =>
    obtain ⟨hitems, rfl, rfl⟩ := hk.recv_done hrecv
    obtain ⟨rfl, hlast⟩ | ⟨q, qs, rfl, hps, hpage⟩ := hk.pages.verdict w.paged
    · obtain rfl := Verdict.last.inj (hlast.symm.trans hv)
      refine .inr ⟨rfl, ?_, (List.append_nil _).symm, rfl⟩
      simp [script, Page.received, hitems]
    · rw [hpage] at hv
      cases hv
  | @unpaged rx rest res net d ctrls cookie pr k' e hrecv hv hpr hturn =>
    obtain ⟨-, rfl, rfl⟩ := hk.recv_done hrecv
    obtain ⟨rfl, hlast⟩ | ⟨q, qs, rfl, hps, hpage⟩ := hk.pages.verdict w.paged
    · rw [hlast] at hv
      cases hv
    · obtain rfl := Verdict.page.inj (hpage.symm.trans hv)
      obtain rfl : w.pr = pr := Option.some.inj (w.paged.symm.trans hpr)
      rw [@Pager.turn rd w ⟨none, _, net.take _ _⟩ q qs p.cookie hk.answers] at hturn
      cases hturn
  | @bad rx rest res net x k' hrecv hv hnet =>
    obtain ⟨items, hitems, -⟩ | ⟨-, rfl⟩ := hk.recv_item hrecv
    · obtain ⟨re, -, ⟨hyield, -⟩ | ⟨hkeep, -⟩⟩ :=
        @verdict_of_isItem rd x (hk.pages.items x (hitems ▸ List.mem_cons_self))
      · rw [hyield] at hv
        cases hv
      · rw [hkeep] at hv
        cases hv
    · obtain ⟨-, hlast⟩ | ⟨q, qs, -, -, hpage⟩ := hk.pages.verdict w.paged
      · rw [hlast] at hv
        cases hv
      · rw [hpage] at hv
        cases hv

/-- A call during an answer. -/
theorem Pull.leaves_or_ends (w : Pager rd) (hk : Scripted k p ps)
    (h : Pull rd timeout k xs k' y) :
    (∃ re p' ps', y = .ok (some re) ∧ Leaves w k p ps xs k' p' ps') ∨
      y = .ok none ∧ Ends w k p ps xs k' := by
  obtain ⟨skipped, k₁, got, hskips, hstop, rfl⟩ := h
  obtain ⟨p₁, ps₁, h₁⟩ := hskips.leaves w hk
  obtain ⟨re, p', ps', hy, h'⟩ | ⟨hy, h'⟩ := hstop.leaves_or_ends w h₁.scripted
  · exact .inl ⟨re, p', ps', hy, h₁.trans h'⟩
  · exact .inr ⟨hy, by rw [h₁.script, h'.script], by rw [h'.sent, h₁.sent],
      h'.res.trans h₁.final⟩

/-- What a call has passed on. -/
theorem Skip.passes (h : Skip rd timeout k x k') : rd.passes x = none := by
  cases h with
  | keep _ hv => rw [Reader.passes, hv]
  | page => exact passes_done _ _

theorem Skips.filterMap_passes (h : Skips rd timeout k xs k') : xs.filterMap rd.passes = [] := by
  induction h with
  | nil => rfl
  | cons hskip _ ih => rw [List.filterMap_cons, hskip.passes, ih]

theorem Pull.filterMap_passes_some {re : ResultEntry}
    (h : Pull rd timeout k xs k' (.ok (some re))) : xs.filterMap rd.passes = [re] := by
  obtain ⟨skipped, k₁, got, hskips, hstop, rfl⟩ := h
  obtain ⟨x, rfl, hv, -⟩ := hstop.yield_inv
  have hpasses : rd.passes x = some re := by rw [Reader.passes, hv]
  rw [List.filterMap_append, hskips.filterMap_passes, List.filterMap_cons, hpasses]
  rfl

theorem Pull.filterMap_passes_none (h : Pull rd timeout k xs k' (.ok none)) :
    xs.filterMap rd.passes = [] := by
  obtain ⟨skipped, k₁, got, hskips, hstop, rfl⟩ := h
  cases hstop with
  | last =>
    rw [List.filterMap_append, hskips.filterMap_passes, List.filterMap_cons, passes_done]
    rfl

end Loop

/-! ### Reading an answer -/

/-- **Reading to the end.** A call of `next` takes some of what remains, which is `P` of the channel
and a list: it returns an entry if something is left, and otherwise leaves the channel in a state
that is `Q`. Then the stream is read to its end, and what the reader passes on of the list comes
out. -/
theorem readAll_of_remaining {rd : Reader} {P : Chan → List Received → Prop} {Q : Chan → Prop}
    (hrx : ∀ {k rem}, P k rem → k.rx.isSome)
    (hpull : ∀ {timeout k xs k' y rem}, P k rem → Pull rd timeout k xs k' y →
      (∃ re rest, y = .ok (some re) ∧ rem = xs ++ rest ∧ P k' rest) ∨
        y = .ok none ∧ rem = xs ∧ Q k')
    (fuel : ℕ) {s : SearchStream} {rem : List Received} (hrd : reader s.adapters = rd)
    (hstate : s.state = .active) (hprep : Prepared s.adapters) (hne : s.adapters ≠ [])
    (hax : s.ax = 0) (hk : P s.chan rem) (hfuel : s.size < fuel) :
    ∃ s', s.readAll fuel = (s', .ok (rem.filterMap rd.passes)) ∧ s'.state = .done ∧ Frame s s' ∧
      Q s'.chan ∧ collected s'.adapters = collected s.adapters ++ rem.flatMap rd.refs := by
  induction fuel generalizing s rem with
  | zero => omega
  | succ fuel ih =>
    obtain ⟨⟨new, hserves⟩, hreturns⟩ := next_serves hstate (hrx hk) hprep hax
    have hframe : Frame s s.next.1 := frame_nextAt _ s
    have hnew := hserves.pull
    have hcollected := hserves.collected
    have hbelow : s.below = s.adapters := by rw [SearchStream.below, hax, List.drop_zero]
    have hbelow' : s.next.1.below = s.next.1.adapters := by
      rw [SearchStream.below, hframe.ax, hax, List.drop_zero]
    rw [hrd] at hnew hcollected
    rw [hbelow, hbelow'] at hcollected
    rcases hnext : s.next with ⟨s₁, res⟩
    rw [hnext] at hframe hnew hcollected hreturns
    rw [readAll, hnext]
    obtain ⟨re, rest, rfl, rfl, hrest⟩ | ⟨rfl, rfl, hend⟩ := hpull hk hnew
    · -- An entry comes out, and the rest of the answer is read by induction.
      have hlt : s₁.size < s.size := hnew.size_lt
      have hstate₁ : s₁.state = .active := hreturns.ok (some re) rfl
      have hne₁ : s₁.adapters ≠ [] := by
        intro hnil
        have hsame := hframe.chain
        rw [hnil] at hsame
        exact hne (List.forall₂_nil_right_iff.1 hsame)
      obtain ⟨s', hread, hdone, hframe', hend, hcollected'⟩ :=
        ih (hframe.chain.reader_eq.trans hrd) hstate₁ (hprep.sameChain hframe.chain) hne₁
          (hframe.ax.trans hax) hrest (Nat.lt_of_lt_of_le hlt (Nat.le_of_lt_succ hfuel))
      refine ⟨s', ?_, hdone, hframe.trans hframe', hend, ?_⟩
      · rw [List.filterMap_append, hnew.filterMap_passes_some]
        simp only [hread]
        rfl
      · rw [hcollected', hcollected, List.flatMap_append, List.append_assoc]
    · -- The last result is there, and the outermost call sets the state `Done`.
      have hstate₁ := hreturns.ok none rfl
      rw [if_pos ⟨rfl, hax, hne⟩] at hstate₁
      exact ⟨s₁, by rw [hnew.filterMap_passes_none], hstate₁, hframe, hend, hcollected⟩

/-- A stream that was read to the end of an answer. -/
structure ReadTo (w : Pager rd) (s : SearchStream) (p : Page) (ps : List Page)
    (s' : SearchStream) : Prop where
  state : s'.state = .done
  frame : Frame s s'
  sent : s'.net.sent = s.net.sent ++ requests w.request p.cookie ps
  res : s'.res = final (p :: ps)
  collected : Ldap3.collected s'.adapters =
    Ldap3.collected s.adapters ++ (script (p :: ps)).flatMap rd.refs

/-- **The stream is read to the end of the answer**, and what the reader passes on of it comes
out. -/
theorem readAll_of_scripted {rd : Reader} (w : Pager rd) (fuel : ℕ) {s : SearchStream} {p : Page}
    {ps : List Page} (hrd : reader s.adapters = rd) (hstate : s.state = .active)
    (hprep : Prepared s.adapters) (hax : s.ax = 0) (hk : Scripted s.chan p ps)
    (hfuel : s.size < fuel) :
    ∃ s', s.readAll fuel = (s', .ok ((script (p :: ps)).filterMap rd.passes)) ∧
      ReadTo w s p ps s' := by
  -- There is an adapter, since the reader has `PagedResults`.
  have hne : s.adapters ≠ [] := by
    intro hnil
    have hpaged := congrArg Reader.paged hrd
    rw [hnil, w.paged] at hpaged
    cases hpaged
  obtain ⟨s', hread, hdone, hframe, ⟨hsent, hres⟩, hcollected⟩ := readAll_of_remaining
    (P := fun k rem ↦ ∃ xs p' ps', Leaves w s.chan p ps xs k p' ps' ∧ rem = script (p' :: ps'))
    (Q := fun k ↦ k.net.sent = s.net.sent ++ requests w.request p.cookie ps ∧
      k.res = final (p :: ps))
    (by
      rintro k _ ⟨xs, p', ps', hleaves, -⟩
      rw [hleaves.scripted.rx]
      rfl)
    (by
      rintro timeout k xs k' y _ ⟨xs₀, p', ps', hleaves, rfl⟩ hpull
      obtain ⟨re, q, qs, hy, hmore⟩ | ⟨hy, hends⟩ := hpull.leaves_or_ends w hleaves.scripted
      · exact .inl ⟨re, _, hy, hmore.script, _, q, qs, hleaves.trans hmore, rfl⟩
      · exact .inr ⟨hy, hends.script, hends.sent.trans hleaves.sent, hends.res.trans hleaves.final⟩)
    fuel hrd hstate hprep hne hax
    ⟨[], p, ps, ⟨hk, rfl, rfl, rfl⟩, rfl⟩ hfuel
  exact ⟨s', hread, hdone, hframe, hsent, hres, hcollected⟩

/-! ### The chains -/

/-- `PagedResults` alone, or with `EntriesOnly` in either order. -/
inductive PagedChain (pr : PagedResults) : (entriesOnly : Bool) → List Adapter → Prop
  | alone : PagedChain pr false [.pagedResults pr]
  | above (refs : List String) : PagedChain pr true [.entriesOnly refs, .pagedResults pr]
  | below (refs : List String) : PagedChain pr true [.pagedResults pr, .entriesOnly refs]

namespace PagedChain

variable {pr : PagedResults} {e : Bool} {chain chain' : List Adapter}

theorem reader_eq (h : PagedChain pr e chain) : reader chain = ⟨e, some pr⟩ := by
  cases h <;> rfl

/-- One adapter collects all the referrals. -/
theorem flatMap_refs (h : PagedChain pr e chain) :
    chain.reverse.flatMap Adapter.refs = collected chain := by
  cases h with
  | alone => rfl
  | above refs => exact List.append_nil refs
  | below refs => exact List.append_nil refs

theorem sameChain (h : PagedChain pr e chain) (hsame : SameChain chain chain') :
    PagedChain pr e chain' := by
  cases h with
  | alone =>
    obtain ⟨b, bs, hb, hbs, rfl⟩ := List.forall₂_cons_left_iff.1 hsame
    obtain rfl := List.forall₂_nil_left_iff.1 hbs
    obtain rfl := hb.eq_pagedResults
    exact .alone
  | above refs =>
    obtain ⟨b, bs, hb, hbs, rfl⟩ := List.forall₂_cons_left_iff.1 hsame
    obtain ⟨c, cs, hc, hcs, rfl⟩ := List.forall₂_cons_left_iff.1 hbs
    obtain rfl := List.forall₂_nil_left_iff.1 hcs
    obtain ⟨refs', rfl⟩ := hb.exists_entriesOnly
    obtain rfl := hc.eq_pagedResults
    exact .above refs'
  | below refs =>
    obtain ⟨b, bs, hb, hbs, rfl⟩ := List.forall₂_cons_left_iff.1 hsame
    obtain ⟨c, cs, hc, hcs, rfl⟩ := List.forall₂_cons_left_iff.1 hbs
    obtain rfl := List.forall₂_nil_left_iff.1 hcs
    obtain rfl := hb.eq_pagedResults
    obtain ⟨refs', rfl⟩ := hc.exists_entriesOnly
    exact .below refs'

section Prepare

variable {ldap : Ldap} (base : String) (scope : Scope) (filter : String) (attrs : List String)

/-- `PagedResults` after `start`. -/
def saved (pr : PagedResults) (ldap : Ldap) : PagedResults where
  pageSize := pr.pageSize
  ldap := some ⟨0, ldap.timeout, some (ldap.controls.getD []), ldap.searchOpts⟩
  base := base
  scope := scope
  filter := filter
  attrs := some attrs

/-- The handle for the first request. -/
def firstLdap (pr : PagedResults) (ldap : Ldap) : Ldap :=
  { ldap with
    controls := some (ldap.controls.getD [] ++ [Controls.PagedResults.raw ⟨pr.pageSize, []⟩]) }

variable {base scope filter attrs}

theorem prepare_paged (hcontrols : ∀ c ∈ ldap.controls.getD [], c.ctype ≠ PAGED_RESULTS_OID) :
    (Adapter.pagedResults pr).prepare base scope filter attrs ldap =
      .ok (.pagedResults (saved base scope filter attrs pr ldap), firstLdap pr ldap) := by
  have hany : ¬(ldap.controls.getD []).any (fun c ↦ c.ctype = PAGED_RESULTS_OID) = true := by
    simpa using hcontrols
  have hfilter : (ldap.controls.getD []).filter (fun c ↦ c.ctype ≠ PAGED_RESULTS_OID) =
      ldap.controls.getD [] :=
    List.filter_eq_self.2 fun c hc ↦ decide_eq_true (hcontrols c hc)
  rw [Adapter.prepare, if_neg hany, hfilter]
  rfl

/-- The chain is prepared. -/
theorem prepare (h : PagedChain pr e chain)
    (hcontrols : ∀ c ∈ ldap.controls.getD [], c.ctype ≠ PAGED_RESULTS_OID) :
    ∃ as, Ldap3.prepare base scope filter attrs ldap chain = .ok (as, firstLdap pr ldap) ∧
      PagedChain (saved base scope filter attrs pr ldap) e as ∧ collected as = [] := by
  have hpaged := @prepare_paged pr ldap base scope filter attrs hcontrols
  cases h with
  | alone =>
    refine ⟨_, ?_, .alone, rfl⟩
    rw [Ldap3.prepare, hpaged]
    rfl
  | above refs =>
    refine ⟨_, ?_, .above [], rfl⟩
    have hbelow : Ldap3.prepare base scope filter attrs ldap [.pagedResults pr] =
        .ok ([.pagedResults (saved base scope filter attrs pr ldap)], firstLdap pr ldap) := by
      rw [Ldap3.prepare, hpaged]
      rfl
    rw [Ldap3.prepare, Adapter.prepare]
    simp only [bind, Except.bind, hbelow]
    rfl
  | below refs =>
    refine ⟨_, ?_, .below [], rfl⟩
    rw [Ldap3.prepare, hpaged]
    rfl

end Prepare

end PagedChain

/-! ### The search -/

section Search

variable {pr : PagedResults} {e : Bool} {chain : List Adapter} {ldap : Ldap} {base filter : String}
  {scope : Scope} {attrs : List String} {req : Tag}

/-- A request of a paged search: that of an unpaged one, with the control added. -/
def pageRequest (ldap : Ldap) (pageSize : ℤ) (req : Tag) (cookie : List UInt8) (id : RequestId) :
    Sent :=
  ⟨id, .search, req,
    some (ldap.controls.getD [] ++ [Controls.PagedResults.raw ⟨pageSize, cookie⟩]), ldap.timeout⟩

theorem start_of_error {err : Failure} (hchain : PagedChain pr e chain)
    (answers : List SearchServed)
    (hcontrols : ∀ c ∈ ldap.controls.getD [], c.ctype ≠ PAGED_RESULTS_OID)
    (hreq : Request.search (ldap.searchOpts.getD {}) base scope filter attrs = .error err) :
    ∃ ldap' s, ldap.streamingSearchWith chain base scope filter attrs ⟨answers, [], []⟩ =
      (ldap', s, .error err) ∧ s.net.sent = [] := by
  let clone : Ldap := { ldap.clone with
    controls := ldap.controls
    timeout := ldap.timeout
    searchOpts := ldap.searchOpts }
  obtain ⟨as, hprep, -, -⟩ := @PagedChain.prepare pr e chain clone base scope filter
    attrs hchain hcontrols
  have hstart := @startInner_of_error (new (PagedChain.firstLdap pr clone) as ⟨answers, [], []⟩)
    base filter scope attrs err hreq
  rw [Ldap.streamingSearchWith, show (new clone chain _).start base scope filter attrs = _ from
    start_new_of_prepare ⟨answers, [], []⟩ hprep, hstart]
  rcases err with err | ⟨⟩ <;> exact ⟨_, _, rfl, rfl⟩

/-- What a paged search should do: the requests are those of an unpaged search with the control
added, the items of all pages come out, and `finish` returns the last result without the control,
with the referrals that were kept back. -/
structure ReadsPages (ldap : Ldap) (pageSize : ℤ) (e : Bool) (req : Tag) (pages : List Page)
    (s : SearchStream) : Prop where
  entries : (s.readAll (s.size + 1)).2 = .ok (Ldap3.entries e pages)
  sent : (s.readAll (s.size + 1)).1.net.sent =
    requests (pageRequest ldap pageSize req) [] pages
  finish : ∃ last, pages.getLast? = some last ∧ (s.readAll (s.size + 1)).1.finish.2 =
    { last.result with
      ctrls := last.ctrls.eraseP Control.isPaged
      refs := last.result.refs ++ if e then allReferrals pages else [] }

/-- `PagedResults` in the reader of a prepared chain. -/
def pager (pr : PagedResults) (e : Bool)
    (hreq : Request.search (ldap.searchOpts.getD {}) base scope filter attrs = .ok req) :
    Pager ⟨e, some (PagedChain.saved base scope filter attrs pr ldap)⟩ :=
  ⟨_, _, _, _, req, rfl, rfl, rfl, rfl, hreq⟩

/-- The first request is sent, and the first page is there. -/
theorem start_of_pages {p : Page} {ps : List Page} (hchain : PagedChain pr e chain)
    (hpages : Pages (p :: ps))
    (hcontrols : ∀ c ∈ ldap.controls.getD [], c.ctype ≠ PAGED_RESULTS_OID)
    (hreq : Request.search (ldap.searchOpts.getD {}) base scope filter attrs = .ok req) :
    ∃ ldap' s, ldap.streamingSearchWith chain base scope filter attrs
        ⟨(p :: ps).map Page.served, [], []⟩ = (ldap', s, .ok ()) ∧
      s.state = .active ∧ s.ax = 0 ∧ s.net.sent = [pageRequest ldap pr.pageSize req [] p.id] ∧
      PagedChain (PagedChain.saved base scope filter attrs pr ldap) e s.adapters ∧
      Prepared s.adapters ∧ collected s.adapters = [] ∧ Scripted s.chan p ps := by
  let clone : Ldap := { ldap.clone with
    controls := ldap.controls
    timeout := ldap.timeout
    searchOpts := ldap.searchOpts }
  let net : Net := ⟨(p :: ps).map Page.served, [], []⟩
  obtain ⟨as, hprep, has, hcollected⟩ := @PagedChain.prepare pr e chain clone base scope filter
    attrs hchain hcontrols
  have hstart := @startInner_of_page (new (PagedChain.firstLdap pr clone) as net) base filter scope
    attrs req p ps hreq rfl
  refine ⟨{ ldap with controls := none, timeout := none, searchOpts := none },
    ((new (PagedChain.firstLdap pr clone) as net).startInner base scope filter attrs).1, ?_⟩
  rw [Ldap.streamingSearchWith, show (new clone chain net).start base scope filter attrs = _ from
    start_new_of_prepare net hprep, hstart]
  exact ⟨rfl, rfl, rfl, rfl, has, prepared_of_prepare hprep, hcollected, ⟨rfl, rfl, hpages⟩⟩

/-- **Paged search equals unpaged search.** -/
theorem paged_eq_unpaged {pages : List Page} (hchain : PagedChain pr e chain)
    (hpages : Pages pages)
    (hcontrols : ∀ c ∈ ldap.controls.getD [], c.ctype ≠ PAGED_RESULTS_OID) :
    match Request.search (ldap.searchOpts.getD {}) base scope filter attrs with
    | .error err => ∃ ldap' s, ldap.streamingSearchWith chain base scope filter attrs
        ⟨pages.map Page.served, [], []⟩ = (ldap', s, .error err) ∧ s.net.sent = []
    | .ok req => ∃ ldap' s, ldap.streamingSearchWith chain base scope filter attrs
        ⟨pages.map Page.served, [], []⟩ = (ldap', s, .ok ()) ∧
          ReadsPages ldap pr.pageSize e req pages s := by
  rcases hreq : Request.search (ldap.searchOpts.getD {}) base scope filter attrs with err | req
  · exact start_of_error hchain _ hcontrols hreq
  · obtain ⟨p, ps, rfl⟩ := hpages.exists_cons
    obtain ⟨ldap', s, hstart, hstate, hax, hsent, hsaved, hprep, hcollected, hk⟩ :=
      start_of_pages hchain hpages hcontrols hreq
    obtain ⟨s', hread, h⟩ := readAll_of_scripted (pager pr e hreq) (s.size + 1) hsaved.reader_eq
      hstate hprep hax hk (Nat.lt_succ_self _)
    refine ⟨ldap', s, hstart, ?_, ?_, ?_⟩
    · rw [hread, filterMap_passes_script _ hpages]
    · rw [hread, h.sent, hsent]
      rfl
    · obtain ⟨last, hlast⟩ : ∃ last, (p :: ps).getLast? = some last :=
        ⟨_, List.getLast?_eq_some_getLast (List.cons_ne_nil p ps)⟩
      have hbelow : s'.below = s'.adapters := by
        rw [SearchStream.below, h.frame.ax, hax, List.drop_zero]
      have hrefs : s'.below.reverse.flatMap Adapter.refs =
          if e then allReferrals (p :: ps) else [] := by
        rw [hbelow, (hsaved.sameChain h.frame.chain).flatMap_refs, h.collected, hcollected,
          List.nil_append]
        exact flatMap_refs_script_eq hpages
      refine ⟨last, hlast, ?_⟩
      rw [hread, finish_eq (by rw [h.state]; simp), h.res, final, hlast, hrefs]
      rfl

end Search

/-- A page with an entry and a referral, and a last page with an entry. -/
def twoPages : List Page :=
  [⟨1, [(.entry ⟨.application, 4, .C []⟩, []), (.referral ⟨.application, 19, .C []⟩, [])],
      ⟨0, "", "", [], []⟩, [(Controls.PagedResults.raw ⟨0, [7]⟩).toControl], [7]⟩,
    ⟨2, [(.entry ⟨.application, 4, .C []⟩, [])], ⟨0, "", "", [], []⟩, [], []⟩]

theorem pages_twoPages : Pages twoPages := by
  refine .more ?_ (List.cons_ne_nil _ _) ⟨_, 0, rfl, ?_⟩ (.last ?_ rfl (.inl rfl))
  · intro x hx
    rcases List.mem_cons.1 hx with rfl | hx
    · exact .inl rfl
    · obtain rfl := List.mem_singleton.1 hx
      exact ⟨rfl, [], rfl⟩
  · decide +kernel
  · intro x hx
    obtain rfl := List.mem_singleton.1 hx
    exact .inl rfl

theorem paged_eq_unpaged_twoPages :
    ∃ req ldap' s, (⟨0, none, none, none⟩ : Ldap).streamingSearchWith
        [.pagedResults (.new 1), .entriesOnly []] "dc=a" .subtree "(a=b)" []
        ⟨twoPages.map Page.served, [], []⟩ = (ldap', s, .ok ()) ∧
      ReadsPages ⟨0, none, none, none⟩ 1 true req twoPages s := by
  obtain ⟨req, hreq⟩ : ∃ req, Request.search ((none : Option SearchOptions).getD {}) "dc=a"
    .subtree "(a=b)" [] = .ok req := ⟨_, rfl⟩
  have h := @paged_eq_unpaged (.new 1) true _ ⟨0, none, none, none⟩ "dc=a" "(a=b)" .subtree []
    twoPages (.below []) pages_twoPages (by rintro c ⟨⟩)
  simp only [hreq] at h
  exact ⟨req, h⟩

end Ldap3
