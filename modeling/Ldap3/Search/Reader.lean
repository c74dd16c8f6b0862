import Ldap3.Search.Frame
import Ldap3.Search.Start

/-!
# Readers

What a chain of adapters amounts to. A `Reader` says which items are kept back, which are passed on
and which end a call of `next`, and `Pull` is a single loop over what arrives that does this: it
skips items, and requests another page where the result of a page is skipped (`Skip`), until one
item or the end of the channel stops it (`Stop`). It speaks of the channel side of a stream only
(`Chan`), so it knows nothing of positions in the chain, or of states.

The facts about `Pull` are proved by a lemma for a skipped item and one for the last: what was
received goes to the history, the loop makes progress, and if it panics there is a reason.
-/

namespace Ldap3

open SearchStream

/-! ### Readers -/

/-- An item with the controls it came with. -/
abbrev Received :=
  SearchItem × List Control

/-- What a chain does with the items. -/
structure Reader where
  /-- Referrals and intermediate messages are kept back. -/
  entriesOnly : Bool
  /-- Further pages are requested. -/
  paged : Option PagedResults

/-- What happens to an item. -/
inductive Verdict where
  /-- It is kept back, with the referrals in it. -/
  | keep (refs : List String)
  | yield (re : ResultEntry)
  /-- It is the result of a page, and not the last. -/
  | page (cookie : List UInt8)
  /-- It is the final result, with the controls that are left in it. -/
  | last (ctrls : List Control)
  /-- It is malformed, which is a panic. -/
  | bad

namespace Reader

variable (rd : Reader)

def onEntry (re : ResultEntry) : Verdict :=
  if rd.entriesOnly then
    if re.isIntermediate then .keep []
    else if re.isRef then
      match parseRefs re.tag with
      | .ok refs => .keep refs
      | .error _ => .bad
    else .yield re
  else .yield re

def onDone (ctrls : List Control) : Verdict :=
  match rd.paged with
  | none => .last ctrls
  | some _ =>
    match ctrls.find? Control.isPaged with
    | none => .last ctrls
    | some ctrl =>
      match Controls.PagedResults.parse ctrl.raw with
      | none => .bad
      | some paged =>
        if paged.cookie = [] then .last (ctrls.eraseP Control.isPaged) else .page paged.cookie

def verdict : Received → Verdict
  | (.entry tag, ctrls) => rd.onEntry ⟨tag, ctrls⟩
  | (.referral tag, ctrls) => rd.onEntry ⟨tag, ctrls⟩
  | (.done _, ctrls) => rd.onDone ctrls

/-- The referrals that are kept. -/
def refs (x : Received) : List String :=
  match rd.verdict x with
  | .keep refs => refs
  | _ => []

end Reader

/-- What an adapter adds to the reader below it. -/
def Adapter.reader : Adapter → Reader → Reader
  | .entriesOnly _, rd => { rd with entriesOnly := true }
  | .pagedResults pr, rd => { rd with paged := some pr }
  | .passThrough, rd => rd

/-- The reader of a chain. -/
def reader : List Adapter → Reader
  | [] => ⟨false, none⟩
  | a :: as => a.reader (reader as)

theorem SameChain.reader_eq {chain chain' : List Adapter} (h : SameChain chain chain') :
    reader chain' = reader chain := by
  induction h with
  | nil => rfl
  | @cons a b as bs hab _ ih =>
    cases a <;> cases b <;> simp_all [Adapter.Same, reader, Adapter.reader]

theorem reader_paged_of_not_hasPaged {chain : List Adapter} (h : ¬HasPaged chain) :
    (reader chain).paged = none := by
  induction chain with
  | nil => rfl
  | cons a as ih =>
    cases a with
    | entriesOnly refs => exact ih (mt (hasPaged_cons (by simp)).2 h)
    | pagedResults pr => exact absurd ⟨pr, List.mem_cons_self⟩ h
    | passThrough => exact ih (mt (hasPaged_cons (by simp)).2 h)

namespace Reader

variable {rd : Reader} {x : Received}

/-- A result ends the page or the search. -/
theorem onDone_cases (rd : Reader) (ctrls : List Control) :
    (∃ ctrls', rd.onDone ctrls = .last ctrls') ∨ (∃ cookie, rd.onDone ctrls = .page cookie) ∨
      rd.onDone ctrls = .bad := by
  rw [onDone]
  split
  · exact .inl ⟨_, rfl⟩
  · split
    · exact .inl ⟨_, rfl⟩
    · split
      · exact .inr (.inr rfl)
      · split
        · exact .inl ⟨_, rfl⟩
        · exact .inr (.inl ⟨_, rfl⟩)

/-- A result is neither kept back nor passed on. -/
theorem verdict_done_ne_keep (d : LdapResult) (ctrls : List Control) (refs : List String) :
    rd.verdict (.done d, ctrls) ≠ .keep refs := by
  rw [verdict]
  rcases rd.onDone_cases ctrls with ⟨ctrls', hd⟩ | ⟨cookie, hd⟩ | hd <;> simp [hd]

theorem verdict_done_ne_yield (d : LdapResult) (ctrls : List Control) (re : ResultEntry) :
    rd.verdict (.done d, ctrls) ≠ .yield re := by
  rw [verdict]
  rcases rd.onDone_cases ctrls with ⟨ctrls', hd⟩ | ⟨cookie, hd⟩ | hd <;> simp [hd]

theorem onEntry_cases (rd : Reader) (re : ResultEntry) :
    (∃ refs, rd.onEntry re = .keep refs) ∨ rd.onEntry re = .yield re ∨ rd.onEntry re = .bad := by
  rw [onEntry]
  split
  · split
    · exact .inl ⟨_, rfl⟩
    · split
      · split
        · exact .inl ⟨_, rfl⟩
        · exact .inr (.inr rfl)
      · exact .inr (.inl rfl)
  · exact .inr (.inl rfl)

theorem eq_of_onEntry_yield {re re' : ResultEntry} (h : rd.onEntry re = .yield re') :
    re = re' := by
  rcases rd.onEntry_cases re with ⟨refs, hre⟩ | hre | hre <;> rw [hre] at h <;> cases h
  rfl

/-- `EntriesOnly` has a say in the items that come out below it. -/
theorem verdict_entriesOnly_of_yield {re : ResultEntry} (h : rd.verdict x = .yield re) :
    ({ rd with entriesOnly := true } : Reader).verdict x =
      ({ rd with entriesOnly := true } : Reader).onEntry re := by
  rcases x with ⟨tag | tag | res, ctrls⟩
  · rw [← eq_of_onEntry_yield h]
    rfl
  · rw [← eq_of_onEntry_yield h]
    rfl
  · exact absurd h (verdict_done_ne_yield res ctrls re)

theorem verdict_entriesOnly (h : ∀ re, rd.verdict x ≠ .yield re) :
    ({ rd with entriesOnly := true } : Reader).verdict x = rd.verdict x := by
  have hentry : ∀ re, (∀ re', rd.onEntry re ≠ .yield re') →
      ({ rd with entriesOnly := true } : Reader).onEntry re = rd.onEntry re := by
    intro re hne
    rcases rd with ⟨- | -, paged⟩
    · exact absurd rfl (hne re)
    · rfl
  rcases x with ⟨tag | tag | res, ctrls⟩
  · exact hentry _ h
  · exact hentry _ h
  · rfl

/-- `PagedResults` has a say in the results only. -/
theorem verdict_paged {pr : PagedResults} (h : ∀ ctrls, rd.verdict x ≠ .last ctrls)
    (hpaged : rd.paged = none) :
    ({ rd with paged := some pr } : Reader).verdict x = rd.verdict x := by
  rcases x with ⟨tag | tag | res, ctrls⟩
  · rfl
  · rfl
  · refine absurd ?_ (h ctrls)
    rw [verdict, onDone, hpaged]

/-- Without `PagedResults` below, the results come with their controls. -/
theorem eq_of_verdict_last {d : LdapResult} {ctrls ctrls' : List Control} (hpaged : rd.paged = none)
    (h : rd.verdict (.done d, ctrls) = .last ctrls') : ctrls' = ctrls := by
  rw [verdict, onDone, hpaged] at h
  exact (Verdict.last.inj h).symm

theorem refs_done (d : LdapResult) (ctrls : List Control) : rd.refs (.done d, ctrls) = [] := by
  rw [refs, verdict]
  rcases rd.onDone_cases ctrls with ⟨ctrls', hd⟩ | ⟨cookie, hd⟩ | hd <;> rw [hd]

theorem entriesOnly_of_keep {refs : List String} (h : rd.verdict x = .keep refs) :
    rd.entriesOnly = true := by
  by_contra hrd
  have hentry : ∀ re, rd.onEntry re = .yield re := fun re ↦ if_neg hrd
  rcases x with ⟨tag | tag | res, ctrls⟩
  · rw [verdict, hentry] at h
    cases h
  · rw [verdict, hentry] at h
    cases h
  · exact absurd h (verdict_done_ne_keep res ctrls refs)

theorem refs_of_not_entriesOnly (h : rd.entriesOnly = false) (x : Received) : rd.refs x = [] := by
  rw [refs]
  split
  · rename_i hkeep
    rw [entriesOnly_of_keep hkeep] at h
    cases h
  · rfl

end Reader

/-! ### The loop -/

/-- What `next` reads and writes of a stream. -/
structure Chan where
  rx : Option (List Recv)
  res : Option LdapResult
  net : Net

def SearchStream.chan (s : SearchStream) : Chan :=
  ⟨s.rx, s.res, s.net⟩

namespace Chan

/-- A stream with this channel, whatever the rest of it is. -/
def stream (k : Chan) : SearchStream :=
  ⟨⟨0, none, none, none⟩, k.rx, .active, [], 0, none, k.res, k.net⟩

/-- The request of a later page. -/
def turn (pr : PagedResults) (cookie : List UInt8) (k : Chan) : Chan × Except Failure Unit :=
  ((pr.nextPage cookie k.stream).1.chan, (pr.nextPage cookie k.stream).2)

/-- The number of items and pages that can still be consumed. -/
def size (k : Chan) : ℕ :=
  k.stream.size

theorem turn_chan (pr : PagedResults) (cookie : List UInt8) (s : SearchStream) :
    s.chan.turn pr cookie = ((pr.nextPage cookie s).1.chan, (pr.nextPage cookie s).2) := by
  simp only [turn, PagedResults.nextPage]
  split
  · split
    · simp only [stream, SearchStream.chan]
      split <;> rfl
    · rfl
  · rfl

end Chan

section Loop

variable (rd : Reader) (timeout : Option ℕ)

/-- An item that is not passed on: it is kept back, or it is the result of a page and the next one
is requested. -/
inductive Skip : Chan → Received → Chan → Prop
  | keep {rx rest : List Recv} {res : Option LdapResult} {net : Net} {x : Received}
      {refs : List String} (hrecv : recv timeout rx = (some (.item x.1 x.2), rest))
      (hv : rd.verdict x = .keep refs) :
      Skip ⟨some rx, res, net⟩ x ⟨some rest, res, net.take x.1 x.2⟩
  | page {rx rest : List Recv} {res : Option LdapResult} {net : Net} {d : LdapResult}
      {ctrls : List Control} {cookie : List UInt8} {pr : PagedResults} {k : Chan}
      (hrecv : recv timeout rx = (some (.item (.done d) ctrls), rest))
      (hv : rd.verdict (.done d, ctrls) = .page cookie) (hpr : rd.paged = some pr)
      (hturn : Chan.turn pr cookie
        ⟨none, some { d with ctrls := ctrls }, net.take (.done d) ctrls⟩ = (k, .ok ())) :
      Skip ⟨some rx, res, net⟩ (.done d, ctrls) k

inductive Skips : Chan → List Received → Chan → Prop
  | nil {k : Chan} : Skips k [] k
  | cons {k k₁ k' : Chan} {x : Received} {xs : List Received} (h : Skip rd timeout k x k₁)
      (hs : Skips k₁ xs k') : Skips k (x :: xs) k'

/-- The last turn of the loop. -/
inductive Stop : Chan → List Received → Chan → Except Failure (Option ResultEntry) → Prop
  | closed {rx rest : List Recv} {res : Option LdapResult} {net : Net}
      (hrecv : recv timeout rx = (none, rest)) :
      Stop ⟨some rx, res, net⟩ [] ⟨none, res, net⟩ (.error (.err .endOfStream))
  | elapsed {rx rest : List Recv} {res : Option LdapResult} {net : Net} {scrubbed : Bool}
      (hrecv : recv timeout rx = (some (.elapsed scrubbed), rest)) :
      Stop ⟨some rx, res, net⟩ [] ⟨some rest, res, net⟩
        (.error (.err (if scrubbed then .timeout else .idScrubSend)))
  | yield {rx rest : List Recv} {res : Option LdapResult} {net : Net} {x : Received}
      {re : ResultEntry} (hrecv : recv timeout rx = (some (.item x.1 x.2), rest))
      (hv : rd.verdict x = .yield re) :
      Stop ⟨some rx, res, net⟩ [x] ⟨some rest, res, net.take x.1 x.2⟩ (.ok (some re))
  | last {rx rest : List Recv} {res : Option LdapResult} {net : Net} {d : LdapResult}
      {ctrls ctrls' : List Control}
      (hrecv : recv timeout rx = (some (.item (.done d) ctrls), rest))
      (hv : rd.verdict (.done d, ctrls) = .last ctrls') :
      Stop ⟨some rx, res, net⟩ [(.done d, ctrls)]
        ⟨none, some { d with ctrls := ctrls' }, net.take (.done d) ctrls⟩ (.ok none)
  | unpaged {rx rest : List Recv} {res : Option LdapResult} {net : Net} {d : LdapResult}
      {ctrls : List Control} {cookie : List UInt8} {pr : PagedResults} {k : Chan} {e : Failure}
      (hrecv : recv timeout rx = (some (.item (.done d) ctrls), rest))
      (hv : rd.verdict (.done d, ctrls) = .page cookie) (hpr : rd.paged = some pr)
      (hturn : Chan.turn pr cookie
        ⟨none, some { d with ctrls := ctrls }, net.take (.done d) ctrls⟩ = (k, .error e)) :
      Stop ⟨some rx, res, net⟩ [(.done d, ctrls)] k (.error e)
  | bad {rx rest : List Recv} {res : Option LdapResult} {net : Net} {x : Received} {k : Chan}
      (hrecv : recv timeout rx = (some (.item x.1 x.2), rest)) (hv : rd.verdict x = .bad)
      (hnet : k.net = net.take x.1 x.2) :
      Stop ⟨some rx, res, net⟩ [x] k (.error .panic)

/-- The loop, from a call of `next` to its return, with all that was received. -/
def Pull (k : Chan) (new : List Received) (k' : Chan)
    (res : Except Failure (Option ResultEntry)) : Prop :=
  ∃ skipped k₁ got, Skips rd timeout k skipped k₁ ∧ Stop rd timeout k₁ got k' res ∧
    new = skipped ++ got

end Loop

section Loop

variable {rd : Reader} {timeout : Option ℕ} {k k₁ k' : Chan} {xs ys : List Received}
  {y : Except Failure (Option ResultEntry)}

theorem Skips.trans (h : Skips rd timeout k xs k₁) (h' : Skips rd timeout k₁ ys k') :
    Skips rd timeout k (xs ++ ys) k' := by
  induction h with
  | nil => exact h'
  | cons hskip _ ih => exact .cons hskip (ih h')

theorem Skip.single {x : Received} (h : Skip rd timeout k x k') : Skips rd timeout k [x] k' :=
  .cons h .nil

/-- The loop goes on after what was skipped. -/
theorem Skips.pull (h : Skips rd timeout k xs k₁) (h' : Pull rd timeout k₁ ys k' y) :
    Pull rd timeout k (xs ++ ys) k' y := by
  obtain ⟨skipped, k₂, got, hskips, hstop, rfl⟩ := h'
  exact ⟨xs ++ skipped, k₂, got, h.trans hskips, hstop, (List.append_assoc _ _ _).symm⟩

theorem Stop.pull (h : Stop rd timeout k xs k' y) : Pull rd timeout k xs k' y :=
  ⟨[], k, xs, .nil, h, rfl⟩

end Loop

/-! ### Turning a page -/

section Turn

variable {pr : PagedResults} {cookie : List UInt8} {ldap : Ldap} {controls : List RawControl}
  {attrs : List String}

/-- The request of a later page is that of a stream without adapters. -/
theorem nextPage_of_saved (hldap : pr.ldap = some ldap) (hcontrols : ldap.controls = some controls)
    (hattrs : pr.attrs = some attrs) (s : SearchStream) :
    pr.nextPage cookie s =
      (let (stream, res) := (new (pr.pageLdap ldap controls cookie) [] s.net).startInner pr.base
        pr.scope pr.filter attrs
      match res with
      | .error e => ({ s with net := stream.net }, .error e)
      | .ok () =>
        ({ s with ldap := stream.ldap, rx := stream.rx, net := stream.net }, .ok ())) := by
  have hstart : (new (pr.pageLdap ldap controls cookie) [] s.net).start pr.base pr.scope pr.filter
      attrs = failOnErr ((new (pr.pageLdap ldap controls cookie) [] s.net).startInner pr.base
        pr.scope pr.filter attrs) := start_new_of_prepare s.net rfl
  have hclone : ({ (pr.pageLdap ldap controls cookie).clone with
      controls := (pr.pageLdap ldap controls cookie).controls
      timeout := (pr.pageLdap ldap controls cookie).timeout
      searchOpts := (pr.pageLdap ldap controls cookie).searchOpts } : Ldap) =
        pr.pageLdap ldap controls cookie := rfl
  simp only [PagedResults.nextPage, hldap, hattrs, hcontrols, Ldap.streamingSearch,
    Ldap.streamingSearchWith, hclone, hstart]
  rcases (new (pr.pageLdap ldap controls cookie) [] s.net).startInner pr.base pr.scope pr.filter
    attrs with ⟨stream, ⟨e | -⟩ | -⟩ <;> rfl

/-- The driver's answer to a Search is never malformed. -/
theorem SearchServed.response_ne_panic (a : SearchServed) (timeout : Option ℕ) :
    a.served.response timeout ≠ .error .panic := by
  have hreply : ∀ response, a.served.reply = some response → response = Conn.nullResult := by
    intro response h
    rw [SearchServed.served] at h
    split at h <;> cases h
    rfl
  unfold Served.response
  split
  · simp
  · simp
  · split
    · simp
    · rename_i response h
      rw [hreply response h, show opResult Conn.nullResult =
        .ok ⟨⟨0, "", "", [], []⟩, ⟨none, none⟩, none⟩ from rfl]
      simp [Except.mapError]

/-- What becomes of the request of a Search. -/
theorem SearchServed.opCall_cases (a : SearchServed) (ldap : Ldap) (req : Tag) :
    (∃ id ext, a.id = some id ∧ a.sent = true ∧ ldap.opCall .search req a.served =
        ({ ldap with lastId := id, controls := none, timeout := none },
          some ⟨id, .search, req, ldap.controls, ldap.timeout⟩, .ok ext)) ∨
      (∃ e, (ldap.opCall .search req a.served).2.2 = .error (.err e)) ∨
      a.id = none ∧ (ldap.opCall .search req a.served).2.2 = .error .panic := by
  rcases hid : a.id with - | id
  · refine .inr (.inr ⟨rfl, ?_⟩)
    rw [opCall_of_id_none (s := a.served) hid]
  rcases hsent : a.sent with - | -
  · refine .inr (.inl ⟨.opSend, ?_⟩)
    rw [opCall_of_not_sent (s := a.served) hid hsent]
  have hne := a.response_ne_panic ldap.timeout
  rcases hresp : a.served.response ldap.timeout with ⟨e | -⟩ | ext
  · refine .inr (.inl ⟨e, ?_⟩)
    rw [opCall_of_sent (s := a.served) hid hsent, hresp]
  · exact absurd hresp hne
  · refine .inl ⟨id, ext, rfl, rfl, ?_⟩
    rw [opCall_of_sent (s := a.served) hid hsent, hresp]

/-- What the driver gets to see of the request of a later page. -/
def PagedResults.pageSent (pr : PagedResults) (ldap : Ldap) (controls : List RawControl)
    (cookie : List UInt8) (req : Tag) (id : RequestId) : Sent :=
  ⟨id, .search, req, some (controls ++ [Controls.PagedResults.raw ⟨pr.pageSize, cookie⟩]),
    ldap.timeout⟩

/-- **A page is turned** when a request with what `start` saved is taken by the driver, and the
stream goes on with the channel of the request. -/
theorem Chan.turn_eq_ok {k k' : Chan} (h : k.turn pr cookie = (k', .ok ())) :
    ∃ ldap controls attrs req a answers id, pr.ldap = some ldap ∧
      ldap.controls = some controls ∧ pr.attrs = some attrs ∧
      Request.search (ldap.searchOpts.getD {}) pr.base pr.scope pr.filter attrs = .ok req ∧
      k.net.answers = a :: answers ∧ a.id = some id ∧
      k' = ⟨some a.events, k.res,
        ⟨answers, k.net.sent ++ [pr.pageSent ldap controls cookie req id], k.net.taken⟩⟩ := by
  rcases hldap : pr.ldap with - | ldap
  · simp [turn, PagedResults.nextPage, hldap] at h
  rcases hattrs : pr.attrs with - | attrs
  · simp [turn, PagedResults.nextPage, hldap, hattrs] at h
  rcases hcontrols : ldap.controls with - | controls
  · simp [turn, PagedResults.nextPage, hldap, hattrs, hcontrols] at h
  rw [turn, nextPage_of_saved hldap hcontrols hattrs] at h
  rcases hreq : Request.search (ldap.searchOpts.getD {}) pr.base pr.scope pr.filter attrs with
    e | req
  · rw [startInner_of_error (s := new (pr.pageLdap ldap controls cookie) [] k.stream.net) hreq] at h
    cases h
  rw [startInner_of_request (s := new (pr.pageLdap ldap controls cookie) [] k.stream.net) hreq] at h
  have hchan : k.stream.net = k.net := rfl
  rcases SearchServed.opCall_cases k.net.answer.1 { (pr.pageLdap ldap controls cookie) with
    searchOpts := none } req with ⟨id, ext, hid, hsent, hcall⟩ | ⟨e, hcall⟩ | ⟨-, hcall⟩
  · rcases hans : k.net.answers with - | ⟨a, answers⟩
    · rw [Net.answer, hans] at hsent
      cases hsent
    · simp only [new, hchan, hcall, Except.map] at h
      obtain ⟨rfl, -⟩ := Prod.mk.inj h
      rw [Net.answer, hans] at hid hsent
      refine ⟨ldap, controls, attrs, req, a, answers, id, rfl, hcontrols, rfl, hreq, rfl, hid, ?_⟩
      simp [Net.answer, hans, SearchServed.channel, show a.sent = true from hsent,
        SearchStream.chan, Net.log, stream, PagedResults.pageSent, PagedResults.pageLdap]
  · simp only [new, hchan, hcall, Except.map] at h
    cases h
  · simp only [new, hchan, hcall, Except.map] at h
    cases h

/-- A page that cannot be turned. -/
theorem Chan.turn_eq_error {k k' : Chan} {e : Failure} (h : k.turn pr cookie = (k', .error e)) :
    k'.rx = k.rx ∧ k'.res = k.res ∧ k'.net.taken = k.net.taken ∧
      k'.net.answers ⊆ k.net.answers := by
  have hsame : (k, .error .panic) = ((k', .error e) : Chan × Except Failure Unit) →
      k'.rx = k.rx ∧ k'.res = k.res ∧ k'.net.taken = k.net.taken ∧
        k'.net.answers ⊆ k.net.answers := by
    rintro ⟨⟩
    exact ⟨rfl, rfl, rfl, List.Subset.refl _⟩
  rcases hldap : pr.ldap with - | ldap
  · rw [turn, PagedResults.nextPage, hldap] at h
    exact hsame h
  rcases hattrs : pr.attrs with - | attrs
  · rw [turn, PagedResults.nextPage, hldap, hattrs] at h
    exact hsame h
  rcases hcontrols : ldap.controls with - | controls
  · simp only [turn, PagedResults.nextPage, hldap, hattrs, hcontrols] at h
    exact hsame h
  rw [turn, nextPage_of_saved hldap hcontrols hattrs] at h
  rcases hreq : Request.search (ldap.searchOpts.getD {}) pr.base pr.scope pr.filter attrs with
    e' | req
  · rw [startInner_of_error (s := new (pr.pageLdap ldap controls cookie) [] k.stream.net) hreq] at h
    obtain ⟨rfl, -⟩ := Prod.mk.inj h
    exact ⟨rfl, rfl, rfl, List.Subset.refl _⟩
  rw [startInner_of_request (s := new (pr.pageLdap ldap controls cookie) [] k.stream.net) hreq] at h
  rcases hcall : ({ (pr.pageLdap ldap controls cookie) with searchOpts := none } : Ldap).opCall
    .search req k.net.answer.1.served with ⟨ldap', sent, res⟩
  simp only [new, show k.stream.net = k.net from rfl, hcall] at h
  rcases res with e' | ext
  · obtain ⟨rfl, -⟩ := Prod.mk.inj h
    exact ⟨rfl, rfl, taken_log_answer k.net sent, answers_log_answer k.net sent⟩
  · cases h

/-- A page that cannot be turned for want of a free message id. -/
theorem Chan.turn_eq_panic {k k' : Chan} (hpr : pr.Saved)
    (h : k.turn pr cookie = (k', .error .panic)) : ∃ a ∈ k.net.answers, a.id = none := by
  obtain ⟨⟨ldap, controls, hldap, hcontrols⟩, attrs, hattrs⟩ := hpr
  rw [turn, nextPage_of_saved hldap hcontrols hattrs] at h
  rcases hreq : Request.search (ldap.searchOpts.getD {}) pr.base pr.scope pr.filter attrs with
    e | req
  · rw [startInner_of_error (s := new (pr.pageLdap ldap controls cookie) [] k.stream.net) hreq] at h
    obtain ⟨-, heq⟩ := Prod.mk.inj h
    obtain rfl := Except.error.inj heq
    rw [Request.search] at hreq
    split at hreq <;> cases hreq
  rw [startInner_of_request (s := new (pr.pageLdap ldap controls cookie) [] k.stream.net) hreq] at h
  have hcases := SearchServed.opCall_cases k.net.answer.1 { (pr.pageLdap ldap controls cookie) with
    searchOpts := none } req
  rcases hcall : ({ (pr.pageLdap ldap controls cookie) with searchOpts := none } : Ldap).opCall
    .search req k.net.answer.1.served with ⟨ldap', sent, res⟩
  simp only [new, show k.stream.net = k.net from rfl, hcall] at h hcases
  rcases res with e | ext
  · obtain ⟨-, heq⟩ := Prod.mk.inj h
    obtain rfl := Except.error.inj heq
    rcases hcases with ⟨id, ext, -, -, hok⟩ | ⟨e, he⟩ | ⟨hid, -⟩
    · cases hok
    · cases he
    · rw [Net.answer] at hid
      split at hid
      · cases hid
      · rename_i a answers hans
        exact ⟨a, hans ▸ List.mem_cons_self, hid⟩
  · cases h

end Turn

/-! ### Progress -/

section Progress

variable {rd : Reader} {timeout : Option ℕ} {k k' : Chan} {x : Received} {xs : List Received}

theorem length_recv {r : Recv} {rx rest : List Recv} (h : recv timeout rx = (some r, rest)) :
    rest.length < rx.length := by
  induction rx with
  | nil => cases h
  | cons r' rx ih =>
    cases r' with
    | item item ctrls =>
      obtain ⟨-, rfl⟩ := Prod.mk.inj h
      exact Nat.lt_succ_self _
    | elapsed scrubbed =>
      rw [recv] at h
      split at h
      · obtain ⟨-, rfl⟩ := Prod.mk.inj h
        exact Nat.lt_succ_self _
      · exact Nat.lt_succ_of_lt (ih h)

theorem Skip.size_lt (h : Skip rd timeout k x k') : k'.size < k.size := by
  cases h with
  | keep hrecv _ => exact Nat.add_lt_add_right (length_recv hrecv) _
  | page hrecv _ _ hturn =>
    obtain ⟨ldap, controls, attrs, req, a, answers, id, -, -, -, -, hans, -, rfl⟩ :=
      Chan.turn_eq_ok hturn
    have hlen := length_recv hrecv
    simp only [Net.take] at hans
    simp only [Chan.size, SearchStream.size, Chan.stream, hans, Option.getD_some, List.map_cons,
      List.sum_cons]
    omega

theorem Skips.size_le (h : Skips rd timeout k xs k') : k'.size ≤ k.size := by
  induction h with
  | nil => exact le_rfl
  | cons hskip _ ih => exact ih.trans hskip.size_lt.le

theorem Stop.size_lt {re : ResultEntry} (h : Stop rd timeout k xs k' (.ok (some re))) :
    k'.size < k.size := by
  cases h with
  | yield hrecv _ => exact Nat.add_lt_add_right (length_recv hrecv) _

theorem Pull.size_lt {re : ResultEntry} (h : Pull rd timeout k xs k' (.ok (some re))) :
    k'.size < k.size := by
  obtain ⟨skipped, k₁, got, hskips, hstop, rfl⟩ := h
  exact hstop.size_lt.trans_le hskips.size_le

/-- After an entry the stream can be read on. -/
theorem Stop.rx_isSome {re : ResultEntry} (h : Stop rd timeout k xs k' (.ok (some re))) :
    k'.rx.isSome := by
  cases h with
  | yield => rfl

theorem Pull.rx_isSome {re : ResultEntry} (h : Pull rd timeout k xs k' (.ok (some re))) :
    k'.rx.isSome := by
  obtain ⟨skipped, k₁, got, -, hstop, -⟩ := h
  exact hstop.rx_isSome

end Progress

/-! ### What was received -/

section Received

variable {rd : Reader} {timeout : Option ℕ} {k k' : Chan} {x : Received} {xs : List Received}
  {y : Except Failure (Option ResultEntry)}

theorem Skip.taken (h : Skip rd timeout k x k') : k'.net.taken = k.net.taken ++ [x] := by
  cases h with
  | keep => rfl
  | page _ _ _ hturn =>
    obtain ⟨ldap, controls, attrs, req, a, answers, id, -, -, -, -, -, -, rfl⟩ :=
      Chan.turn_eq_ok hturn
    rfl

theorem Skips.taken (h : Skips rd timeout k xs k') : k'.net.taken = k.net.taken ++ xs := by
  induction h with
  | nil => rw [List.append_nil]
  | cons hskip _ ih => rw [ih, hskip.taken, List.append_assoc, List.singleton_append]

theorem Stop.taken (h : Stop rd timeout k xs k' y) : k'.net.taken = k.net.taken ++ xs := by
  cases h with
  | closed => rw [List.append_nil]
  | elapsed => rw [List.append_nil]
  | yield => rfl
  | last => rfl
  | unpaged _ _ _ hturn => exact (Chan.turn_eq_error hturn).2.2.1
  | bad _ _ hnet =>
    rw [hnet]
    rfl

/-- The history grows by what a call received. -/
theorem Pull.taken (h : Pull rd timeout k xs k' y) : k'.net.taken = k.net.taken ++ xs := by
  obtain ⟨skipped, k₁, got, hskips, hstop, rfl⟩ := h
  rw [hstop.taken, hskips.taken, List.append_assoc]

theorem Skip.answers (h : Skip rd timeout k x k') : k'.net.answers ⊆ k.net.answers := by
  cases h with
  | keep => exact List.Subset.refl _
  | page _ _ _ hturn =>
    obtain ⟨ldap, controls, attrs, req, a, answers, id, -, -, -, -, hans, -, rfl⟩ :=
      Chan.turn_eq_ok hturn
    exact fun b hb ↦ hans ▸ List.mem_cons_of_mem a hb

theorem Skips.answers (h : Skips rd timeout k xs k') : k'.net.answers ⊆ k.net.answers := by
  induction h with
  | nil => exact List.Subset.refl _
  | cons hskip _ ih => exact List.Subset.trans ih hskip.answers

theorem Stop.answers (h : Stop rd timeout k xs k' y) : k'.net.answers ⊆ k.net.answers := by
  cases h with
  | closed => exact List.Subset.refl _
  | elapsed => exact List.Subset.refl _
  | yield => exact List.Subset.refl _
  | last => exact List.Subset.refl _
  | unpaged _ _ _ hturn => exact (Chan.turn_eq_error hturn).2.2.2
  | bad _ _ hnet =>
    rw [hnet]
    exact List.Subset.refl _

theorem Pull.answers (h : Pull rd timeout k xs k' y) : k'.net.answers ⊆ k.net.answers := by
  obtain ⟨skipped, k₁, got, hskips, hstop, rfl⟩ := h
  exact List.Subset.trans hstop.answers hskips.answers

/-- At the end of a search its result was received last, and is stored. -/
theorem Pull.last (h : Pull rd timeout k xs k' (.ok none)) :
    ∃ pre d ctrls ctrls', xs = pre ++ [(.done d, ctrls)] ∧
      rd.verdict (.done d, ctrls) = .last ctrls' ∧ k'.rx = none ∧
      k'.res = some { d with ctrls := ctrls' } := by
  obtain ⟨skipped, k₁, got, -, hstop, rfl⟩ := h
  cases hstop with
  | @last _ _ _ _ d ctrls ctrls' _ hv => exact ⟨skipped, d, ctrls, ctrls', rfl, hv, rfl, rfl⟩

/-- **A call panics** over a malformed item, or for want of a free message id. -/
theorem Pull.panic (hpr : ∀ pr, rd.paged = some pr → pr.Saved)
    (h : Pull rd timeout k xs k' (.error .panic)) :
    (∃ x ∈ xs, rd.verdict x = .bad) ∨ ∃ a ∈ k.net.answers, a.id = none := by
  obtain ⟨skipped, k₁, got, hskips, hstop, rfl⟩ := h
  rcases hstop with - | - | - | - | ⟨hrecv, hv, hsome, hturn⟩ | ⟨hrecv, hv, hnet⟩
  · obtain ⟨a, ha, hid⟩ := Chan.turn_eq_panic (hpr _ hsome) hturn
    exact .inr ⟨a, hskips.answers ha, hid⟩
  · exact .inl ⟨_, List.mem_append_right _ List.mem_cons_self, hv⟩

end Received

end Ldap3
