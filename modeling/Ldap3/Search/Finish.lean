import Ldap3.Search.Calls

/-!
# What `finish` tells

The result that `finish` returns is in a slot of the stream that `next` fills in with every result
it receives, those of the pages of a paged search included. `TellsEnd` says what the first `finish`
should return after some calls of `next`: the final result, if one of them returned `Ok(None)`, and
otherwise the result of a search that was given up.

**It does so** (`tellsEnd_iff`) if and only if the search was read to its end or no result was
received before: if the reading stops on a later page, for whatever reason, the slot holds the
result of the page before, and `finish` returns that (`not_tellsEnd_paged`).
-/

namespace Ldap3

open SearchStream

/-! ### The slot -/

/-- The last result received. -/
def lastDone : List Received → Option LdapResult
  | [] => none
  | (.done d, ctrls) :: xs => (lastDone xs).or (some { d with ctrls := ctrls })
  | _ :: xs => lastDone xs

theorem lastDone_append (xs ys : List Received) :
    lastDone (xs ++ ys) = (lastDone ys).or (lastDone xs) := by
  induction xs with
  | nil => rw [List.nil_append, lastDone, Option.or_none]
  | cons x xs ih =>
    rcases x with ⟨tag | tag | d, ctrls⟩
    · exact ih
    · exact ih
    · rw [List.cons_append, lastDone, ih, lastDone, Option.or_assoc]

theorem lastDone_eq_none_iff {xs : List Received} :
    lastDone xs = none ↔ ∀ d ctrls, (SearchItem.done d, ctrls) ∉ xs := by
  induction xs with
  | nil => simp [lastDone]
  | cons x xs ih =>
    rcases x with ⟨tag | tag | d, ctrls⟩
    · simp [lastDone, ih]
    · simp [lastDone, ih]
    · constructor
      · intro h
        rw [lastDone, Option.or_eq_none_iff] at h
        cases h.2
      · intro h
        exact absurd List.mem_cons_self (h d ctrls)

theorem exists_of_lastDone_eq_some {xs : List Received} {res : LdapResult}
    (h : lastDone xs = some res) : ∃ d, (SearchItem.done d, res.ctrls) ∈ xs := by
  induction xs with
  | nil => cases h
  | cons x xs ih =>
    rcases x with ⟨tag | tag | d, ctrls⟩
    · obtain ⟨d, hd⟩ := ih h
      exact ⟨d, List.mem_cons_of_mem _ hd⟩
    · obtain ⟨d, hd⟩ := ih h
      exact ⟨d, List.mem_cons_of_mem _ hd⟩
    · rw [lastDone] at h
      rcases hxs : lastDone xs with - | res'
      · rw [hxs] at h
        obtain rfl := Option.some.inj h
        exact ⟨d, List.mem_cons_self⟩
      · rw [hxs] at h
        obtain rfl := Option.some.inj h
        obtain ⟨d', hd'⟩ := ih hxs
        exact ⟨d', List.mem_cons_of_mem _ hd'⟩

section Slot

variable {rd : Reader} {timeout : Option ℕ} {k k' : Chan} {x : Received} {xs : List Received}
  {y : Except Failure (Option ResultEntry)}

/-- A result that is followed by another page has a control. -/
theorem Reader.ne_nil_of_page {d : LdapResult} {ctrls : List Control} {cookie : List UInt8}
    (h : rd.verdict (.done d, ctrls) = .page cookie) : ctrls ≠ [] := by
  rintro rfl
  rw [Reader.verdict, Reader.onDone] at h
  split at h <;> cases h

/-- What is kept back or passed on is not a result. -/
theorem lastDone_of_keep {refs : List String} (h : rd.verdict x = .keep refs) :
    lastDone [x] = none := by
  rcases x with ⟨tag | tag | d, ctrls⟩
  · rfl
  · rfl
  · exact absurd h (Reader.verdict_done_ne_keep d ctrls refs)

theorem lastDone_of_yield {re : ResultEntry} (h : rd.verdict x = .yield re) :
    lastDone [x] = none := by
  rcases x with ⟨tag | tag | d, ctrls⟩
  · rfl
  · rfl
  · exact absurd h (Reader.verdict_done_ne_yield d ctrls re)

theorem Skip.res (h : Skip rd timeout k x k') : k'.res = (lastDone [x]).or k.res := by
  cases h with
  | keep _ hv =>
    rw [lastDone_of_keep hv]
    rfl
  | page _ _ _ hturn =>
    obtain ⟨ldap, controls, attrs, req, a, answers, id, -, -, -, -, -, -, rfl⟩ :=
      Chan.turn_eq_ok hturn
    rfl

theorem Skips.res (h : Skips rd timeout k xs k') : k'.res = (lastDone xs).or k.res := by
  induction h with
  | nil => rfl
  | @cons k k₁ k' x xs hskip _ ih =>
    rw [ih, hskip.res, show x :: xs = [x] ++ xs from rfl, lastDone_append, Option.or_assoc]

theorem Stop.res (h : Stop rd timeout k xs k' y) (hnone : y ≠ .ok none)
    (hpanic : y ≠ .error .panic) : k'.res = (lastDone xs).or k.res := by
  cases h with
  | closed => rfl
  | elapsed => rfl
  | yield _ hv =>
    rw [lastDone_of_yield hv]
    rfl
  | last => exact absurd rfl hnone
  | unpaged _ _ _ hturn =>
    rw [(Chan.turn_eq_error hturn).2.1]
    rfl
  | bad => exact absurd rfl hpanic

/-- **The slot** holds the last result received, of whatever page. -/
theorem Pull.res (h : Pull rd timeout k xs k' y) (hnone : y ≠ .ok none)
    (hpanic : y ≠ .error .panic) : k'.res = (lastDone xs).or k.res := by
  obtain ⟨skipped, k₁, got, hskips, hstop, rfl⟩ := h
  rw [hstop.res hnone hpanic, hskips.res, lastDone_append, Option.or_assoc]

/-- A result received before the end belongs to a page, and has a control. -/
theorem Skips.ne_nil (h : Skips rd timeout k xs k') {d : LdapResult} {ctrls : List Control}
    (hmem : (SearchItem.done d, ctrls) ∈ xs) : ctrls ≠ [] := by
  induction h with
  | nil => cases hmem
  | cons hskip _ ih =>
    rcases List.mem_cons.1 hmem with heq | hmem
    · cases hskip with
      | keep _ hv =>
        rw [← heq] at hv
        have hnone := lastDone_of_keep hv
        cases hnone
      | page _ hv =>
        rw [← heq] at hv
        exact Reader.ne_nil_of_page hv
    · exact ih hmem

theorem Stop.ne_nil (h : Stop rd timeout k xs k' y) (hnone : y ≠ .ok none)
    (hpanic : y ≠ .error .panic) {d : LdapResult} {ctrls : List Control}
    (hmem : (SearchItem.done d, ctrls) ∈ xs) : ctrls ≠ [] := by
  cases h with
  | closed => cases hmem
  | elapsed => cases hmem
  | yield _ hv =>
    rw [← List.mem_singleton.1 hmem] at hv
    have hnone := lastDone_of_yield hv
    cases hnone
  | last => exact absurd rfl hnone
  | unpaged _ hv =>
    rw [← List.mem_singleton.1 hmem] at hv
    exact Reader.ne_nil_of_page hv
  | bad => exact absurd rfl hpanic

theorem Pull.ne_nil (h : Pull rd timeout k xs k' y) (hnone : y ≠ .ok none)
    (hpanic : y ≠ .error .panic) {d : LdapResult} {ctrls : List Control}
    (hmem : (SearchItem.done d, ctrls) ∈ xs) : ctrls ≠ [] := by
  obtain ⟨skipped, k₁, got, hskips, hstop, rfl⟩ := h
  rcases List.mem_append.1 hmem with hmem | hmem
  · exact hskips.ne_nil hmem
  · exact hstop.ne_nil hnone hpanic hmem

end Slot

/-! ### Reading -/

/-- A call of `next` returned `Ok(None)`, and those before it returned an entry. -/
def ReadToEnd : List Observation → Prop
  | .item (.ok none) :: _ => True
  | .item (.ok (some _)) :: os => ReadToEnd os
  | _ => False

namespace SearchStream

/-- A stream that is being read. -/
structure Reading (chain : List Adapter) (s : SearchStream) : Prop where
  state : s.state = .active
  rx : s.rx.isSome
  ax : s.ax = 0
  same : SameChain chain s.adapters
  slot : s.res = lastDone s.net.taken
  /-- The results received so far belong to pages. -/
  paged : ∀ d ctrls, (SearchItem.done d, ctrls) ∈ s.net.taken → ctrls ≠ []

/-- The outcome of some calls of `next`. -/
inductive Outcome (os : List Observation) (s : SearchStream) : Prop
  /-- The final result was received last, and is stored. -/
  | read (hread : ReadToEnd os) (hstate : s.state ≠ .closed) {d : LdapResult}
      {ctrls ctrls' : List Control} (htaken : s.net.taken.getLast? = some (.done d, ctrls))
      (hres : s.res = some { d with ctrls := ctrls' })
  | unread (hread : ¬ReadToEnd os) (hstate : s.state ≠ .closed)
      (hres : s.res = lastDone s.net.taken)
      (hpaged : ∀ d ctrls, (SearchItem.done d, ctrls) ∈ s.net.taken → ctrls ≠ [])

variable {chain : List Adapter} {s : SearchStream}

/-- Nothing more comes. -/
theorem run_next_of_not_active (h : s.state ≠ .active) (n : ℕ) :
    s.run (List.replicate n .next) = (s, some (List.replicate n (.item (.ok none)))) := by
  induction n with
  | zero => rfl
  | succ n ih =>
    have hcall : s.call .next = (s, some (.item (.ok none))) := by
      rw [call, next_eq h]
      rfl
    rw [List.replicate_succ, run_cons_of_some (congrArg Prod.snd hcall), hcall, ih]
    rfl

/-- Without adapters the receiver is unwrapped after the end. -/
theorem next_of_no_rx (hstate : s.state = .active) (hnil : s.adapters = []) (hax : s.ax = 0)
    (hrx : s.rx = none) : s.next.2 = .error .panic := by
  have hend : s.next = failOnErr s.nextInner := nextAt_of_end _ hstate (by simp [hax, hnil])
  rw [hend, nextInner, hrx]
  rfl

/-- As long as the reading goes on the slot holds the last result, and it belongs to a page. -/
theorem Reading.slot_next (hprep : Prepared chain) (hs : Reading chain s)
    (hnone : s.next.2 ≠ .ok none) (hpanic : s.next.2 ≠ .error .panic) :
    s.next.1.res = lastDone s.next.1.net.taken ∧
      ∀ d ctrls, (SearchItem.done d, ctrls) ∈ s.next.1.net.taken → ctrls ≠ [] := by
  obtain ⟨⟨new, hserves⟩, -⟩ := next_serves hs.state hs.rx (hprep.sameChain hs.same) hs.ax
  have hpull := hserves.pull
  have htaken : s.next.1.net.taken = s.net.taken ++ new := hpull.taken
  constructor
  · rw [htaken, lastDone_append, ← hs.slot]
    exact hpull.res hnone hpanic
  · intro d ctrls hmem
    rw [htaken] at hmem
    rcases List.mem_append.1 hmem with hmem | hmem
    · exact hs.paged d ctrls hmem
    · exact hpull.ne_nil hnone hpanic hmem

/-- After an entry the reading goes on. -/
theorem Reading.next_some (hprep : Prepared chain) (hs : Reading chain s) {re : ResultEntry}
    (hres : s.next.2 = .ok (some re)) : Reading chain s.next.1 := by
  obtain ⟨⟨new, hserves⟩, hreturns⟩ := next_serves hs.state hs.rx (hprep.sameChain hs.same) hs.ax
  have hpull := hserves.pull
  rw [hres] at hpull
  have hframe : Frame s s.next.1 := frame_nextAt _ s
  obtain ⟨hslot, hpaged⟩ := hs.slot_next hprep (by simp [hres]) (by simp [hres])
  exact ⟨hreturns.ok _ hres, hpull.rx_isSome, hframe.ax.trans hs.ax, hs.same.trans hframe.chain,
    hslot, hpaged⟩

/-- At the end the final result was received last, and is stored. -/
theorem Reading.last (hprep : Prepared chain) (hs : Reading chain s) (hres : s.next.2 = .ok none) :
    s.next.1.state ≠ .closed ∧ ∃ d ctrls ctrls',
      s.next.1.net.taken.getLast? = some (.done d, ctrls) ∧
        s.next.1.res = some { d with ctrls := ctrls' } := by
  obtain ⟨⟨new, hserves⟩, hreturns⟩ := next_serves hs.state hs.rx (hprep.sameChain hs.same) hs.ax
  have hpull := hserves.pull
  rw [hres] at hpull
  have htaken : s.next.1.net.taken = s.net.taken ++ new := hpull.taken
  obtain ⟨pre, d, ctrls, ctrls', rfl, -, -, hstored⟩ := hpull.last
  refine ⟨?_, d, ctrls, ctrls', ?_, hstored⟩
  · rw [hreturns.ok none hres]
    split <;> simp
  · rw [htaken, ← List.append_assoc, List.getLast?_append]
    rfl

/-- The calls after the end change nothing, or panic if there are no adapters. -/
theorem Reading.run_end (hprep : Prepared chain) (hs : Reading chain s)
    (hres : s.next.2 = .ok none) (n : ℕ)
    (hrun : (s.next.1.run (List.replicate n .next)).2.isSome) :
    ∃ os, s.next.1.run (List.replicate n .next) = (s.next.1, some os) := by
  obtain ⟨⟨new, hserves⟩, hreturns⟩ := next_serves hs.state hs.rx (hprep.sameChain hs.same) hs.ax
  have hpull := hserves.pull
  rw [hres] at hpull
  obtain ⟨-, -, -, -, -, -, hrx, -⟩ := hpull.last
  have hframe : Frame s s.next.1 := frame_nextAt _ s
  have hstate := hreturns.ok none hres
  by_cases hne : s.adapters ≠ []
  · rw [if_pos ⟨rfl, hs.ax, hne⟩] at hstate
    exact ⟨_, run_next_of_not_active (by simp [hstate]) n⟩
  · rw [if_neg fun h ↦ hne h.2.2] at hstate
    rcases n with - | n
    · exact ⟨[], rfl⟩
    · have hnil : s.next.1.adapters = [] := by
        have hsame := hframe.chain
        rw [not_not.1 hne] at hsame
        exact List.forall₂_nil_left_iff.1 hsame
      have hpanic := next_of_no_rx hstate hnil (hframe.ax.trans hs.ax) hrx
      have hcall : (s.next.1.call .next).2 = none := by rw [call, hpanic]; rfl
      rw [List.replicate_succ, run_cons_of_none hcall] at hrun
      cases hrun

/-- **Reading** comes to an end, to an error, or goes on. -/
theorem outcome_of_run (hprep : Prepared chain) (hs : Reading chain s) (n : ℕ)
    {os : List Observation} (hrun : (s.run (List.replicate n .next)).2 = some os) :
    Outcome os (s.run (List.replicate n .next)).1 := by
  induction n generalizing s os with
  | zero =>
    obtain rfl := Option.some.inj hrun
    refine .unread (fun h ↦ h) ?_ hs.slot hs.paged
    rw [show (s.run (List.replicate 0 .next)).1 = s from rfl, hs.state]
    simp
  | succ n ih =>
    rw [List.replicate_succ] at hrun ⊢
    rcases hres : s.next.2 with ⟨e | ⟨⟩⟩ | - | re
    · have hcall : (s.call .next).2 = some (.item (.error e)) := by rw [call, hres]; rfl
      have hstate : (s.call .next).1.state = .error :=
        (next_serves hs.state hs.rx (hprep.sameChain hs.same) hs.ax).2.error e hres
      rw [run_cons_of_some hcall, run_next_of_not_active (by simp [hstate])] at hrun ⊢
      obtain rfl := Option.some.inj hrun
      obtain ⟨hslot, hpaged⟩ := hs.slot_next hprep (by simp [hres]) (by simp [hres])
      exact .unread (fun h ↦ h) (by simp [hstate]) hslot hpaged
    · have hcall : (s.call .next).2 = none := by rw [call, hres]; rfl
      rw [run_cons_of_none hcall] at hrun
      cases hrun
    · have hcall : (s.call .next).2 = some (.item (.ok none)) := by rw [call, hres]; rfl
      rw [run_cons_of_some hcall, show (s.call .next).1 = s.next.1 from rfl] at hrun ⊢
      obtain ⟨os', hos', rfl⟩ := Option.map_eq_some_iff.1 hrun
      obtain ⟨os'', hend⟩ := hs.run_end hprep hres n (by rw [hos']; rfl)
      obtain ⟨hclosed, d, ctrls, ctrls', hlast, hstored⟩ := hs.last hprep hres
      rw [hend]
      exact .read trivial hclosed hlast hstored
    · have hcall : (s.call .next).2 = some (.item (.ok (some re))) := by rw [call, hres]; rfl
      rw [run_cons_of_some hcall] at hrun ⊢
      obtain ⟨os', hos', rfl⟩ := Option.map_eq_some_iff.1 hrun
      rcases ih (hs.next_some hprep hres) hos' with
        ⟨hread, hclosed, hlast, hstored⟩ | ⟨hread, hclosed, hstored, hpaged⟩
      · exact .read hread hclosed hlast hstored
      · exact .unread hread hclosed hstored hpaged

/-! ### The first `finish` -/

/-- What `finish` should return after these observations. -/
structure TellsEnd (os : List Observation) (taken : List Received) (res : LdapResult) : Prop where
  read : ReadToEnd os → ∃ d ctrls, taken.getLast? = some (.done d, ctrls) ∧ res.rc = d.rc ∧
    res.matched = d.matched ∧ res.text = d.text
  unread : ¬ReadToEnd os → ∃ refs, res = { cancelled with refs := refs }

/-- **When `finish` tells the end.** After any number of calls of `next` that return, the first
`finish` returns what it should if and only if the search was read to its end, or no result was
received. -/
theorem tellsEnd_iff {ldap ldap' : Ldap} {base filter : String} {scope : Scope}
    {attrs : List String} {answers : List SearchServed}
    (hstart : ldap.streamingSearchWith chain base scope filter attrs ⟨answers, [], []⟩ =
      (ldap', s, .ok ()))
    (n : ℕ) {os : List Observation} (hrun : (s.run (List.replicate n .next)).2 = some os) :
    TellsEnd os (s.run (List.replicate n .next)).1.net.taken
        (s.run (List.replicate n .next)).1.finish.2 ↔
      ReadToEnd os ∨
        ∀ d ctrls, (SearchItem.done d, ctrls) ∉ (s.run (List.replicate n .next)).1.net.taken := by
  obtain ⟨-, hnew⟩ := Prod.mk.inj hstart
  obtain ⟨as, ldap'', req, hprep, -, hstate, hrx, hadapters, hax, -, hres, hnet⟩ :=
    start_new_eq_ok hnew
  have htaken : s.net.taken = [] := by
    rw [hnet]
    exact taken_log_answer _ _
  have hreading : Reading as s := by
    refine ⟨hstate, by rw [hrx]; rfl, hax, hadapters ▸ .refl as, by rw [hres, htaken]; rfl, ?_⟩
    rw [htaken]
    rintro d ctrls ⟨⟩
  rcases outcome_of_run (prepared_of_prepare hprep) hreading n hrun with
    ⟨hread, hclosed, hlast, hstored⟩ | ⟨hread, hclosed, hstored, hpaged⟩
  · refine iff_of_true ⟨fun _ ↦ ⟨_, _, hlast, ?_⟩, fun h ↦ absurd hread h⟩ (.inl hread)
    rw [finish_eq hclosed, hstored]
    exact ⟨rfl, rfl, rfl⟩
  · constructor
    · intro h
      obtain ⟨refs, hfinish⟩ := h.unread hread
      refine .inr (lastDone_eq_none_iff.1 (Option.eq_none_iff_forall_ne_some.2 fun res hlast ↦ ?_))
      obtain ⟨d, hd⟩ := exists_of_lastDone_eq_some hlast
      refine hpaged d res.ctrls hd ?_
      rw [finish_eq hclosed, hstored, hlast] at hfinish
      exact congrArg LdapResult.ctrls hfinish
    · rintro (h | h)
      · exact absurd h hread
      · refine ⟨fun h ↦ absurd h hread, fun _ ↦ ?_⟩
        rw [finish_eq hclosed, hstored, lastDone_eq_none_iff.2 h]
        exact ⟨_, rfl⟩

/-- The first page, and a referral of the second. -/
def pagedAnswers : List SearchServed :=
  [⟨some 1, true, none, true, [.item (.done ⟨0, "", "", [], []⟩)
      [(Controls.PagedResults.raw ⟨0, [7]⟩).toControl]]⟩,
    ⟨some 2, true, none, true, [.item (.referral ⟨.application, 19, .C []⟩) []]⟩]

def pagedStream : SearchStream :=
  ((⟨0, none, none, none⟩ : Ldap).streamingSearchWith [.pagedResults (.new 1)] "dc=a" .subtree
    "(a=b)" [] ⟨pagedAnswers, [], []⟩).2.1

theorem pagedStream_start : (⟨0, none, none, none⟩ : Ldap).streamingSearchWith
    [.pagedResults (.new 1)] "dc=a" .subtree "(a=b)" [] ⟨pagedAnswers, [], []⟩ =
      (⟨0, none, none, none⟩, pagedStream, .ok ()) := rfl

/-- After one call of `next` the result of the first page is stored. -/
theorem pagedStream_run : (pagedStream.run (.replicate 1 .next)).2.isSome ∧
    (pagedStream.run (.replicate 1 .next)).1.finish.2.rc = 0 ∧
    ((pagedStream.run (.replicate 1 .next)).1.net.taken.getLast?.bind
      fun x ↦ lastDone [x]).isNone := by
  decide +kernel

theorem tellsEnd_iff_paged :
    ∃ os, (pagedStream.run (.replicate 1 .next)).2 = some os ∧
      (TellsEnd os (pagedStream.run (.replicate 1 .next)).1.net.taken
          (pagedStream.run (.replicate 1 .next)).1.finish.2 ↔
        ReadToEnd os ∨ ∀ d ctrls,
          (SearchItem.done d, ctrls) ∉ (pagedStream.run (.replicate 1 .next)).1.net.taken) := by
  obtain ⟨os, hos⟩ := Option.isSome_iff_exists.1 pagedStream_run.1
  exact ⟨os, hos, tellsEnd_iff pagedStream_start 1 hos⟩

/-- **The result of a page** is returned by `finish` when the reading stops on the next one. -/
theorem not_tellsEnd_paged :
    ¬∀ (ldap ldap' : Ldap) (chain : List Adapter) (base : String) (scope : Scope)
      (filter : String) (attrs : List String) (answers : List SearchServed) (s : SearchStream),
      ldap.streamingSearchWith chain base scope filter attrs ⟨answers, [], []⟩ =
        (ldap', s, .ok ()) →
      ∀ (n : ℕ) (os : List Observation), (s.run (List.replicate n .next)).2 = some os →
        TellsEnd os (s.run (List.replicate n .next)).1.net.taken
          (s.run (List.replicate n .next)).1.finish.2 := by
  intro h
  obtain ⟨hsome, hrc, hlast⟩ := pagedStream_run
  obtain ⟨os, hos⟩ := Option.isSome_iff_exists.1 hsome
  have htells := h _ _ _ _ _ _ _ _ _ pagedStream_start 1 os hos
  by_cases hread : ReadToEnd os
  · obtain ⟨d, ctrls, htaken, -⟩ := htells.read hread
    rw [htaken] at hlast
    cases hlast
  · obtain ⟨refs, hres⟩ := htells.unread hread
    rw [hres] at hrc
    cases hrc

end SearchStream

end Ldap3
