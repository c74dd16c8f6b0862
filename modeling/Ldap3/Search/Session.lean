import Ldap3.Conn.Slot
import Ldap3.Controls.Requests
import Ldap3.Controls.Responses
import Ldap3.Lib.Resume
import Ldap3.Search.Whole

/-!
# A paged search and its server

The other end of `PagedResults` of `src/adapters.rs`: a server that evaluates the operation it reads
and sends the result page by page. It keeps nothing between two requests, since the position in the
result is in the cookie of the page that ends there.

A page goes out as messages in any encoding (`SentPage.SentAs`), and arrives as items
(`SentPage.SentAs.itemOf_received`) with its cookie (`SentPage.hasControl`). The adapter sends the operation of the caller with every
request, and the cookie of the page before as it came (`PagedCall.readsPage_iff`). So the pages are
what the server hands out from the beginning on, and the entries of the whole result come out
(`paged_session`).
-/

namespace Ldap3

open Grammar (ControlMeaning Operation requestControls)
open SearchStream

/-! ### Pages on the wire -/

theorem lookup_eq_pagedResults_iff (ctype : String) :
    CONTROLS.lookup ctype = some .pagedResults ↔ ctype = PAGED_RESULTS_OID := by
  constructor
  · intro h
    simp only [CONTROLS, List.lookup_cons] at h
    split at h
    · rename_i heq
      exact beq_iff_eq.1 heq
    · repeat' split at h
      all_goals cases h
  · rintro rfl
    rfl

theorem isPaged_control_iff (c : ResponseControl) :
    c.control.isPaged ↔ c.ctype = PAGED_RESULTS_OID := by
  rw [Control.isPaged, decide_eq_true_iff]
  exact lookup_eq_pagedResults_iff c.ctype

/-- A protocol op is read as what it was made of. -/
theorem Response.ofTag_opTag (r : Response) {rc : List UInt8} (hrc : Denotes rc r.rc) :
    LdapResultExt.ofTag (.structureTag (r.opTag rc)) = .ok (r.result []) := by
  have hcode : (parseUint rc).toUInt32 = UInt32.ofNat r.rc := by
    have hn := parseUint_of_denotes hrc r.rc_lt
    rw [← hn]
    rfl
  simp only [LdapResultExt.ofTag, opTag, StructureTag.expectConstructed_C, expect_some,
    List.head?_cons, List.tail_cons, StructureTag.matchClass, StructureTag.matchId, if_true,
    Option.bind_some, StructureTag.expectPrimitive_P, expectText_asBytes, bind, Except.bind,
    r.foldlM_components]
  rw [hcode]
  rfl

/-- A message in the course of a Search, with its controls. -/
abbrev SearchResponse :=
  SearchMessage × List ResponseControl

/-- What becomes of it on the way. -/
def SearchResponse.received (x : SearchResponse) : Received :=
  SearchMessage.received (x.1, x.2.map ResponseControl.control)

/-- A page as the server sends it. -/
structure SentPage where
  items : List SearchResponse
  size : ℕ
  cookie : List UInt8
  /-- The message of the result. -/
  message : ServerMessage
  result : Response
  rc : List UInt8
  controls : List ResponseControl
  control : ResponseControl
  size_lt : size < 2 ^ 31
  op : result.op = 5
  denotes : Response.Denotes rc result.rc
  op_eq : message.op = result.opTag rc
  controls_eq : message.controls = some controls
  /-- There is one Paged Results control. -/
  filter_eq : controls.filter (·.ctype = PAGED_RESULTS_OID) = [control]
  cookie_said : (ResponseValue.pagedResults size cookie size_lt).Says control

namespace SentPage

/-- The page as it arrives. -/
def page (p : SentPage) : Page where
  id := p.message.id
  items := p.items.map SearchResponse.received
  result := (p.result.result []).result
  ctrls := p.controls.map ResponseControl.control
  cookie := p.cookie

/-- The cookie is found. -/
theorem hasControl (p : SentPage) : p.page.HasControl := by
  have hmem : p.control ∈ p.controls.filter (·.ctype = PAGED_RESULTS_OID) := by
    rw [p.filter_eq]
    exact List.mem_singleton_self _
  have hlt := p.message.length_val_lt p.controls_eq (List.mem_of_mem_filter hmem)
  refine ⟨p.control.control, p.size, ?_, ?_⟩
  · have hpaged : Control.isPaged ∘ ResponseControl.control =
        fun c ↦ decide (c.ctype = PAGED_RESULTS_OID) := by
      funext c
      exact Bool.eq_iff_iff.2 ((isPaged_control_iff c).trans decide_eq_true_iff.symm)
    rw [page, List.filter_map, hpaged, p.filter_eq]
    rfl
  · rw [Controls.PagedResults.parse_eq, p.cookie_said.parse_pagedResults hlt]
    rfl

theorem isItem (p : SentPage) : ∀ x ∈ p.page.items, IsItem x := by
  intro x hx
  obtain ⟨y, -, rfl⟩ := List.mem_map.1 hx
  exact SearchMessage.isItem _

/-- The page goes out as these messages, each in an encoding of its own. -/
def SentAs (p : SentPage) (ms : List ServerMessage) : Prop :=
  ∃ items, ms = items ++ [p.message] ∧
    List.Forall₂ (fun x m ↦ m.op = x.1.tag ∧ m.controls.getD [] = x.2) p.items items

/-- **The driver makes the items of the page of them.** -/
theorem SentAs.itemOf_received {p : SentPage} {ms : List ServerMessage} (h : p.SentAs ms) :
    List.Forall₂ (fun item m ↦ ItemOf item m.decoded.2) p.page.received ms := by
  obtain ⟨items, rfl, hitems⟩ := h
  refine List.rel_append ?_ (.cons ?_ .nil)
  · rw [page, List.forall₂_map_left_iff]
    refine hitems.imp fun x m ⟨hop, hctrls⟩ ↦ ?_
    obtain ⟨hitem, hsame⟩ := SearchMessage.itemMore (x.1, x.2.map ResponseControl.control)
    rw [ServerMessage.decoded, hop, hctrls]
    exact ⟨⟨_, hitem⟩, hsame⟩
  · have hid : (p.result.opTag p.rc).id = 5 := p.op
    refine ⟨⟨true, ?_⟩, ?_⟩
    · simp only [ServerMessage.decoded, p.op_eq, Conn.searchItem, hid, LdapResult.ofTag,
        p.result.ofTag_opTag p.denotes]
      rfl
    · rw [ServerMessage.decoded, p.controls_eq]
      rfl

end SentPage

/-- All pages of a result: the cookie of the last one is empty. -/
inductive Complete : List SentPage → Prop
  | last {p : SentPage} (h : p.cookie = []) : Complete [p]
  | more {p : SentPage} {ps : List SentPage} (h : p.cookie ≠ []) (hps : Complete ps) :
      Complete (p :: ps)

theorem Complete.pages {ps : List SentPage} (h : Complete ps) : Pages (ps.map SentPage.page) := by
  induction h with
  | @last p h => exact .last p.isItem h (.inr p.hasControl)
  | @more p ps h _ ih => exact .more p.isItem h p.hasControl ih

/-! ### Requests -/

/-- The octets of a request. -/
def Sent.encoded (m : Sent) : List UInt8 :=
  encode m.id m.req m.controls

/-- The octets are read as a request with the operation, and with the cookie in a control. -/
def ReadsPage (w : List UInt8) (op : Operation) (cookie : List UInt8) : Prop :=
  w.length ≤ usizeMax ∧ ∃ m rcs xs size crit, Grammar.Reads w m ∧ m.protocolOp = op ∧
    m.controls = some rcs ∧ List.Forall₂ requestControls.ReadsControl rcs xs ∧
    (ControlMeaning.pagedResults size cookie, crit) ∈ xs

theorem Controls.TypedControl.eq_of_meaning {t : Controls.TypedControl} {size : ℤ}
    {cookie : List UInt8} (h : t.meaning = some (.pagedResults size cookie)) :
    t = .pagedResults ⟨size, cookie⟩ := by
  cases t with
  | pagedResults pr =>
    obtain ⟨rfl, rfl⟩ := ControlMeaning.pagedResults.inj (Option.some.inj h)
    rfl
  | assertion assn =>
    obtain ⟨f, -, ⟨⟩⟩ := Option.map_eq_some_iff.1 h
  | matchedValues assn =>
    rw [meaning] at h
    split at h <;> cases h
  | _ => cases h

/-- A paged search of a caller who set controls of the crate, but not the one the adapter adds. -/
structure PagedCall where
  pr : PagedResults
  ldap : Ldap
  base : String
  scope : Scope
  filter : String
  attrs : List String
  controls : List Controls.MaybeCritical
  req : Tag
  size_range : 0 ≤ pr.pageSize ∧ pr.pageSize < 2 ^ 31
  controls_range : ∀ c ∈ controls, c.control.InRange
  controls_raw : controls.mapM Controls.MaybeCritical.raw = .ok (ldap.controls.getD [])
  unpaged : ∀ rc ∈ ldap.controls.getD [], rc.ctype ≠ PAGED_RESULTS_OID
  in_range : (Call.search (S := String) base scope filter attrs).InRange (ldap.searchOpts.getD {})
  request_eq : Request.search (ldap.searchOpts.getD {}) base scope filter attrs = .ok req

namespace PagedCall

variable (c : PagedCall)

/-- What is asked for. -/
def operation : Option Operation :=
  (Call.search (S := String) c.base c.scope c.filter c.attrs).operation
    (c.ldap.searchOpts.getD {})

/-- The request of a page. -/
def request (cookie : List UInt8) (id : RequestId) : Sent :=
  pageRequest c.ldap c.pr.pageSize c.req cookie id

def issued (cookie : List UInt8) (id : RequestId) (hid : 0 ≤ id ∧ id < 2 ^ 31)
    (hfits : (c.request cookie id).encoded.length ≤ usizeMax) : IssuedRequest String :=
  ⟨id, .search c.base c.scope c.filter c.attrs, c.ldap.searchOpts.getD {},
    (c.request cookie id).controls, c.req, hid, c.in_range, c.request_eq, hfits⟩

/-- The controls of the request of a page. -/
def pageControls (cookie : List UInt8) : List Controls.MaybeCritical :=
  c.controls ++
    [⟨.pagedResults ⟨c.pr.pageSize, cookie⟩, false, fun h ↦ absurd h Bool.false_ne_true⟩]

theorem mapM_pageControls (cookie : List UInt8) :
    (c.pageControls cookie).mapM Controls.MaybeCritical.raw =
      .ok (c.ldap.controls.getD [] ++ [Controls.PagedResults.raw ⟨c.pr.pageSize, cookie⟩]) := by
  rw [pageControls, List.mapM_append, c.controls_raw]
  rfl

/-- No control of the caller has the meaning of the one that is added. -/
theorem ne_pagedResults {x : Controls.MaybeCritical} (hx : x ∈ c.controls) {size : ℤ}
    {cookie : List UInt8} {crit : Bool} : x.meaning ≠ some (.pagedResults size cookie, crit) := by
  intro hmeaning
  obtain ⟨rc, hrc, hraw⟩ := exists_mem_right (mapM_eq_ok_iff.1 c.controls_raw) hx
  obtain ⟨y, hy, heq⟩ := Option.map_eq_some_iff.1 hmeaning
  obtain ⟨rfl, -⟩ := Prod.mk.inj heq
  refine c.unpaged rc hrc ?_
  rw [Controls.MaybeCritical.raw, Controls.TypedControl.eq_of_meaning hy] at hraw
  split at hraw <;> cases hraw <;> rfl

theorem inRange_pageControls (cookie : List UInt8) :
    ∀ x ∈ c.pageControls cookie, x.control.InRange := by
  intro x hx
  rcases List.mem_append.1 hx with hx | hx
  · exact c.controls_range x hx
  · obtain rfl := List.mem_singleton.1 hx
    exact c.size_range

/-- **What the server reads in the request of a page**: the operation of the caller, and the cookie
as it came. -/
theorem readsPage_iff {cookie : List UInt8} {id : RequestId} (hid : 0 ≤ id ∧ id < 2 ^ 31)
    (op : Operation) (cookie' : List UInt8) :
    ReadsPage (c.request cookie id).encoded op cookie' ↔
      (c.request cookie id).encoded.length ≤ usizeMax ∧ c.operation = some op ∧
        cookie' = cookie := by
  refine and_congr_right fun hfits ↦ ?_
  obtain ⟨m₀, hm₀, hreads⟩ := (c.issued cookie id hid hfits).reads_encoded_iff
  obtain ⟨op₀, hop₀, rfl⟩ := Option.map_eq_some_iff.1 hm₀
  obtain ⟨xs₀, hxs₀, hcontrols⟩ := Controls.readsControls_iff (c.inRange_pageControls cookie)
    (c.mapM_pageControls cookie) (c.issued cookie id hid hfits) rfl
  have hadded := exists_mem_right hxs₀ (List.mem_append_right _ List.mem_cons_self)
  constructor
  · rintro ⟨m, rcs, xs, size, crit, hm, rfl, hrcs, hall, hmem⟩
    obtain rfl := (hreads m).1 hm
    obtain rfl := (hcontrols xs).1 ⟨_, rcs, hm, hrcs, hall⟩
    obtain ⟨x, hx, hmeaning⟩ := exists_mem_right hxs₀.flip hmem
    refine ⟨hop₀, ?_⟩
    rcases List.mem_append.1 hx with hx | hx
    · exact absurd hmeaning (c.ne_pagedResults hx)
    · obtain rfl := List.mem_singleton.1 hx
      obtain ⟨heq, -⟩ := Prod.mk.inj (Option.some.inj hmeaning)
      exact (ControlMeaning.pagedResults.inj heq).2.symm
  · rintro ⟨hop, rfl⟩
    obtain rfl := Option.some.inj (hop₀.symm.trans hop)
    obtain ⟨m, rcs, hm, hrcs, hall⟩ := (hcontrols xs₀).2 rfl
    obtain rfl := (hreads m).1 hm
    obtain ⟨y, hy, hmeaning⟩ := hadded
    obtain rfl := Option.some.inj hmeaning
    exact ⟨_, rcs, xs₀, _, _, hm, rfl, hrcs, hall, hy⟩

end PagedCall

/-! ### The run of the program -/

section Program

variable {pr : PagedResults} {e : Bool} {chain : List Adapter} {ldap : Ldap} {base filter : String}
  {scope : Scope} {attrs : List String} {req : Tag}

/-- A search that is read to its end, with what the driver finds to answer its requests. -/
def searchPages (ldap : Ldap) (chain : List Adapter) (base : String) (scope : Scope)
    (filter : String) (attrs : List String) (pages : List Page) :
    SearchStream × Except Failure (List ResultEntry) :=
  match ldap.streamingSearchWith chain base scope filter attrs ⟨pages.map Page.served, [], []⟩ with
  | (_, s, .error e) => (s, .error e)
  | (_, s, .ok ()) => s.readAll (s.size + 1)

/-- It sends a request for each page and yields the entries of all. -/
theorem searchPages_eq {pages : List Page} (hchain : PagedChain pr e chain) (hpages : Pages pages)
    (hcontrols : ∀ rc ∈ ldap.controls.getD [], rc.ctype ≠ PAGED_RESULTS_OID)
    (hreq : Request.search (ldap.searchOpts.getD {}) base scope filter attrs = .ok req) :
    (searchPages ldap chain base scope filter attrs pages).1.net.sent =
        requests (pageRequest ldap pr.pageSize req) [] pages ∧
      (searchPages ldap chain base scope filter attrs pages).2 = .ok (entries e pages) := by
  obtain ⟨p, ps, rfl⟩ := hpages.exists_cons
  obtain ⟨ldap', s, hstart, hstate, hax, hsent, hsaved, hprep, -, hk⟩ :=
    start_of_pages hchain hpages hcontrols hreq
  obtain ⟨s', hread, h⟩ := readAll_of_scripted (pager pr e hreq) (s.size + 1) hsaved.reader_eq
    hstate hprep hax hk (Nat.lt_succ_self _)
  rw [searchPages, hstart]
  change (s.readAll (s.size + 1)).1.net.sent = _ ∧ (s.readAll (s.size + 1)).2 = _
  rw [hread, filterMap_passes_script _ hpages]
  refine ⟨?_, rfl⟩
  rw [h.sent, hsent]
  rfl

end Program

/-! ### The server -/

/-- A server that pages the result of each operation, with tokens for cookies. -/
abbrev PagingServer :=
  Operation → Resumable SearchResponse (List UInt8)

/-- A cookie that is not empty is a token. -/
def cookieToken (cookie : List UInt8) : Option (List UInt8) :=
  if cookie = [] then none else some cookie

namespace PagingServer

variable (server : PagingServer)

/-- The page is the answer to the request with these octets. -/
def Answers (w : List UInt8) (p : SentPage) : Prop :=
  ∃ op cookie n, ReadsPage w op cookie ∧
    (server op).start (cookieToken cookie) = some n ∧
    p.items = (server op).segment n ∧ cookieToken p.cookie = (server op).next n

/-- The server answers each of the requests with a page. -/
def AnswersAll (sent : List Sent) (ps : List SentPage) : Prop :=
  List.Forall₂ (fun m p ↦ server.Answers m.encoded p) sent ps

variable {server} {c : PagedCall} {op : Operation}

/-- The answer to the request of a page depends on the cookie only. -/
theorem Answers.eq_segment {cookie : List UInt8} {p : SentPage} (hop : c.operation = some op)
    (h : server.Answers (c.request cookie p.message.id).encoded p) :
    ∃ n, (server op).start (cookieToken cookie) = some n ∧
      p.items = (server op).segment n ∧
      cookieToken p.cookie = (server op).next n := by
  obtain ⟨op', cookie', n, hreads, hrest⟩ := h
  obtain ⟨-, hop', rfl⟩ := (c.readsPage_iff p.message.id_range op' cookie').1 hreads
  obtain rfl := Option.some.inj (hop.symm.trans hop')
  exact ⟨n, hrest⟩

/-- **The pages are handed out** one after another. -/
theorem handed_of_answers {ps : List SentPage} (hps : Complete ps) {cookie : List UInt8}
    (hop : c.operation = some op)
    (h : server.AnswersAll (requests c.request cookie (ps.map SentPage.page)) ps) :
    (server op).Handed (cookieToken cookie) (ps.map SentPage.items) := by
  induction hps generalizing cookie with
  | @last p hcookie =>
    obtain ⟨hp, -⟩ := List.forall₂_cons.1 h
    obtain ⟨n, hstart, hitems, hnext⟩ := Answers.eq_segment hop hp
    rw [List.map_singleton, hitems]
    refine .last hstart ?_
    rw [← hnext, cookieToken, if_pos hcookie]
  | @more p ps hcookie _ ih =>
    obtain ⟨hp, hrest⟩ := List.forall₂_cons.1 h
    obtain ⟨n, hstart, hitems, hnext⟩ := Answers.eq_segment hop hp
    rw [List.map_cons, hitems]
    refine .more hstart ?_ ?_
    · rw [← hnext, cookieToken, if_neg hcookie]
      rfl
    · rw [← hnext]
      exact ih hrest

end PagingServer

/-- The entries of a result that the caller gets to see. -/
def shownEntries (entriesOnly : Bool) (items : List SearchResponse) : List ResultEntry :=
  ((items.map SearchResponse.received).filterMap toEntry).filter fun re ↦
    !entriesOnly || re.isEntry

theorem entries_eq_shownEntries (e : Bool) (ps : List SentPage) :
    entries e (ps.map SentPage.page) = shownEntries e (ps.map SentPage.items).flatten := by
  rw [entries, shownEntries, List.flatMap_map, List.map_flatten, List.map_map, ← List.flatMap_def]
  rfl

/-- **A paged search returns the whole result.** Wherever the server ends its pages and whatever its
cookies are, if each page that arrives is its answer to the octets of the request the program sent
for it, and the last one has no cookie, the entries that come out are those of the result the server
has for the operation of the caller: all of them, once, and in order. What arrives of a page is what
the driver makes of the messages it goes out as, in whatever encoding. -/
theorem paged_session (server : PagingServer) (c : PagedCall) {e : Bool} {chain : List Adapter}
    (hchain : PagedChain c.pr e chain) {ps : List SentPage} (hps : Complete ps)
    (hanswers : server.AnswersAll (searchPages c.ldap chain c.base c.scope c.filter c.attrs
      (ps.map SentPage.page)).1.net.sent ps) :
    (∀ p ∈ ps, ∀ ms, p.SentAs ms →
      List.Forall₂ (fun item m ↦ ItemOf item m.decoded.2) p.page.received ms) ∧
    ∃ op, c.operation = some op ∧
      (searchPages c.ldap chain c.base c.scope c.filter c.attrs (ps.map SentPage.page)).2 =
        .ok (shownEntries e (server op).items) := by
  refine ⟨fun p _ ms hms ↦ hms.itemOf_received, ?_⟩
  obtain ⟨hsent, hentries⟩ := searchPages_eq hchain hps.pages c.unpaged c.request_eq
  rw [hsent] at hanswers
  have hcall : (Call.search (S := String) c.base c.scope c.filter c.attrs).request
      (c.ldap.searchOpts.getD {}) = .ok c.req := c.request_eq
  obtain ⟨-, op, hop, -⟩ := Grammar.operation_request hcall c.in_range
  refine ⟨op, hop, ?_⟩
  have hflat := (PagingServer.handed_of_answers hps hop hanswers).flatten_eq
  rw [hentries, entries_eq_shownEntries, hflat]

/-- The value of the control at the end of a page. -/
def pageValue (cookie : List UInt8) : StructureTag :=
  ⟨.universal, Types.sequence,
    .C [⟨.universal, Types.integer, .P [0]⟩, octetStringTag cookie]⟩

def pageControl (cookie : List UInt8) : ResponseControl :=
  ⟨PAGED_RESULTS_OID, none, some (encodeInto (pageValue cookie))⟩

/-- The message of a result with this control. -/
def pageEnvelope (v cookie : List UInt8) : StructureTag :=
  serverEnvelope v (searchResDone.opTag [0]) (some [pageControl cookie])

theorem ber_pageValue {cookie : List UInt8}
    (h : (encodeInto (pageValue cookie)).length ≤ usizeMax) :
    Ber (pageValue cookie) (encodeInto (pageValue cookie)) := by
  refine ber_encodeInner ?_ (Nat.lt_of_le_of_lt h (by decide))
  simp [pageValue, octetStringTag, StructureTag.IdsLe, Types.sequence, Types.integer,
    Types.octetString]

theorem ber_pageEnvelope {v cookie : List UInt8}
    (h : (encodeInto (pageEnvelope v cookie)).length ≤ usizeMax) :
    Ber (pageEnvelope v cookie) (encodeInto (pageEnvelope v cookie)) := by
  refine ber_encodeInner ?_ (Nat.lt_of_le_of_lt h (by decide))
  simp [pageEnvelope, serverEnvelope, searchResDone, pageControl, ResponseControl.tag,
    Response.bindResponse, Response.opTag, Response.components, StructureTag.IdsLe,
    Types.sequence, Types.integer, Types.enumerated, Types.octetString]

theorem denotes_zero : Response.Denotes [0] (0 : ℕ) :=
  ⟨by decide, rfl⟩

/-- The server does not estimate the size. -/
theorem noEstimate_lt : 0 < 2 ^ 31 := by
  decide

theorem says_pageControl {cookie : List UInt8}
    (h : (encodeInto (pageValue cookie)).length ≤ usizeMax) :
    (ResponseValue.pagedResults 0 cookie noEstimate_lt).Says (pageControl cookie) :=
  ⟨rfl, _, _, rfl, ber_pageValue h, [0], denotes_zero, rfl⟩

/-- A page of one entry. -/
def entryPage (dn : String) (cookie : List UInt8) (id : RequestId) (v : List UInt8)
    (hid : 0 ≤ id ∧ id < 2 ^ 31) (hv : Response.Denotes v id)
    (hval : (encodeInto (pageValue cookie)).length ≤ usizeMax)
    (hfits : (encodeInto (pageEnvelope v cookie)).length ≤ usizeMax) : SentPage where
  items := [(.entry (.P (asBytes dn)), [])]
  size := 0
  cookie := cookie
  message :=
    ⟨id, searchResDone.opTag [0], some [pageControl cookie], v, encodeInto (pageEnvelope v cookie),
      hid, hv, rfl, ber_pageEnvelope hfits, hfits⟩
  result := searchResDone
  rc := [0]
  controls := [pageControl cookie]
  control := pageControl cookie
  size_lt := noEstimate_lt
  op := rfl
  denotes := denotes_zero
  op_eq := rfl
  controls_eq := rfl
  filter_eq := rfl
  cookie_said := says_pageControl hval

theorem denotes_secondId : Response.Denotes [2] (2 : ℤ) :=
  ⟨by decide, by decide⟩

theorem fits_firstPage : (encodeInto (pageValue [0, 0])).length ≤ usizeMax ∧
    (encodeInto (pageEnvelope [1] [0, 0])).length ≤ usizeMax := by
  decide +kernel

theorem fits_secondPage : (encodeInto (pageValue [])).length ≤ usizeMax ∧
    (encodeInto (pageEnvelope [2] [])).length ≤ usizeMax := by
  decide +kernel

/-- The first page of a result with two entries. The cookie is that of `countingServer`. -/
def firstSentPage : SentPage :=
  entryPage "cn=a" [0, 0] 1 [1] firstId_range denotes_firstId fits_firstPage.1 fits_firstPage.2

/-- The envelope its entry goes out in. -/
def firstEnvelope : StructureTag :=
  serverEnvelope [1] (SearchMessage.entry (.P (asBytes "cn=a"))).tag none

theorem fits_firstEnvelope : (encodeInto firstEnvelope).length ≤ usizeMax := by
  decide +kernel

theorem ber_firstEnvelope : Ber firstEnvelope (encodeInto firstEnvelope) :=
  ber_encodeInner (by simp [firstEnvelope, serverEnvelope, SearchMessage.tag, StructureTag.IdsLe,
    Types.sequence, Types.integer]) (Nat.lt_of_le_of_lt fits_firstEnvelope (by decide))

def firstEntry : ServerMessage where
  id := 1
  op := (SearchMessage.entry (.P (asBytes "cn=a"))).tag
  controls := none
  idOctets := [1]
  octets := encodeInto firstEnvelope
  id_range := firstId_range
  denotes := denotes_firstId
  op_cls := rfl
  ber := ber_firstEnvelope
  fits := fits_firstEnvelope

def twoSentPages : List SentPage :=
  [firstSentPage,
    entryPage "cn=b" [] 2 [2] secondId_range denotes_secondId fits_secondPage.1 fits_secondPage.2]

/-- A server that sends one entry at a time, with cookies of growing length. -/
def countingServer : PagingServer := fun _ ↦
  { items := [(.entry (.P (asBytes "cn=a")), []), (.entry (.P (asBytes "cn=b")), [])]
    stop := fun n ↦ n + 1
    token := fun n ↦ List.replicate (n + 1) 0
    position := fun cookie ↦ some (cookie.length - 1)
    le_stop := fun n ↦ Nat.le_succ n
    position_token := fun n ↦ by rw [List.length_replicate, Nat.add_sub_cancel] }

def twoPagesCall : PagedCall where
  pr := .new 1
  ldap := ⟨0, none, none, none⟩
  base := "dc=a"
  scope := .subtree
  filter := "(a=b)"
  attrs := []
  controls := []
  req := (Request.search {} "dc=a" .subtree "(a=b)" []).toOption.getD .ofNull
  size_range := by decide
  controls_range := by simp
  controls_raw := rfl
  unpaged := by simp
  in_range := ⟨by decide, by decide⟩
  request_eq := rfl

theorem answersAll_twoSentPages :
    PagingServer.AnswersAll countingServer
      (requests twoPagesCall.request [] (twoSentPages.map SentPage.page)) twoSentPages := by
  obtain ⟨op, hop⟩ : ∃ op, twoPagesCall.operation = some op := ⟨_, rfl⟩
  refine .cons ⟨op, [], 0, ?_, rfl, rfl, rfl⟩ (.cons ⟨op, [0, 0], 1, ?_, rfl, rfl, rfl⟩ .nil)
  · exact (twoPagesCall.readsPage_iff firstId_range op []).2 ⟨by decide +kernel, hop, rfl⟩
  · exact (twoPagesCall.readsPage_iff secondId_range op [0, 0]).2 ⟨by decide +kernel, hop, rfl⟩

theorem paged_session_two :
    List.Forall₂ (fun item m ↦ ItemOf item (ServerMessage.decoded m).2)
      firstSentPage.page.received [firstEntry, firstSentPage.message] ∧
    (searchPages twoPagesCall.ldap [.pagedResults (.new 1)] "dc=a" .subtree "(a=b)" []
        (twoSentPages.map SentPage.page)).2 =
      .ok [⟨⟨.application, 4, .P (asBytes "cn=a")⟩, []⟩,
        ⟨⟨.application, 4, .P (asBytes "cn=b")⟩, []⟩] := by
  have hchain : PagedChain twoPagesCall.pr false [.pagedResults twoPagesCall.pr] := .alone
  have hcomplete : Complete twoSentPages := .more (List.cons_ne_nil _ _) (.last rfl)
  have hsent := (searchPages_eq hchain hcomplete.pages twoPagesCall.unpaged
    twoPagesCall.request_eq).1
  have hanswers : countingServer.AnswersAll _ twoSentPages := hsent ▸ answersAll_twoSentPages
  obtain ⟨hitems, op, -, h⟩ := paged_session countingServer twoPagesCall hchain hcomplete hanswers
  exact ⟨hitems firstSentPage List.mem_cons_self _ ⟨[firstEntry], rfl, .cons ⟨rfl, rfl⟩ .nil⟩, h⟩

end Ldap3
