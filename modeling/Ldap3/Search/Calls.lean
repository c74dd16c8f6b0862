import Ldap3.Search.Pull

/-!
# The protocol of a stream

What the user's code may do with a stream after it was started, and what it sees. The states of a
stream are also the states of an automaton over calls and observations (`Accepted`): entries come
while the stream is active, the end or an error puts it into a state in which nothing more comes,
and `finish` closes it for good. A stream behaves (`Orderly`) if a sequence of calls goes through
without a panic, as the automaton has it, with the position back at the start of the chain and
`start` doing nothing.

**Streams behave** (`orderly_run`) as long as each item received is one that the chain can take
(`Readable`): referrals and Paged Results values are taken apart with `expect`, and in a stream
without adapters the result leaves the state as it is, so that the next call of `next` unwraps a
receiver that is gone (`run_direct`).
-/

namespace Ldap3

/-! ### Calls -/

/-- A call of the user's code. -/
inductive UserCall where
  | start (base : String) (scope : Scope) (filter : String) (attrs : List String)
  | next
  | finish
  | state

/-- What the user's code gets back. -/
inductive Observation where
  | started (res : Except LdapError Unit)
  | item (res : Except LdapError (Option ResultEntry))
  | finished (res : LdapResult)
  | state (st : StreamState)

/-- What a method returns, unless it panics. -/
def Failure.returned {α : Type} : Except Failure α → Option (Except LdapError α)
  | .ok a => some (.ok a)
  | .error (.err e) => some (.error e)
  | .error .panic => none

namespace SearchStream

def call (s : SearchStream) : UserCall → SearchStream × Option Observation
  | .start base scope filter attrs =>
    ((s.start base scope filter attrs).1,
      (Failure.returned (s.start base scope filter attrs).2).map .started)
  | .next => (s.next.1, (Failure.returned s.next.2).map .item)
  | .finish => (s.finish.1, some (.finished s.finish.2))
  | .state => (s, some (.state s.state))

/-- A sequence of calls, up to a panic. -/
def run (s : SearchStream) : List UserCall → SearchStream × Option (List Observation)
  | [] => (s, some [])
  | c :: cs =>
    match s.call c with
    | (s, none) => (s, none)
    | (s, some o) => ((run s cs).1, (run s cs).2.map (o :: ·))

end SearchStream

/-! ### The automaton -/

/-- What a call may return in a state, and the state after it. -/
inductive Accepted : StreamState → UserCall → Observation → StreamState → Prop
  | start {st : StreamState} {base : String} {scope : Scope} {filter : String}
      {attrs : List String} : Accepted st (.start base scope filter attrs) (.started (.ok ())) st
  | entry {re : ResultEntry} : Accepted .active .next (.item (.ok (some re))) .active
  | last : Accepted .active .next (.item (.ok none)) .done
  | error {e : LdapError} : Accepted .active .next (.item (.error e)) .error
  | over {st : StreamState} (h : st ≠ .active) : Accepted st .next (.item (.ok none)) st
  | finish {st : StreamState} {res : LdapResult} (h : st ≠ .closed) :
      Accepted st .finish (.finished res) .closed
  | finished : Accepted .closed .finish (.finished SearchStream.alreadyFinalized) .closed
  | state {st : StreamState} : Accepted st .state (.state st) st

/-- What a sequence of calls may return. -/
inductive AcceptedRun : StreamState → List UserCall → List Observation → StreamState → Prop
  | nil {st : StreamState} : AcceptedRun st [] [] st
  | cons {st st₁ st' : StreamState} {c : UserCall} {o : Observation} {cs : List UserCall}
      {os : List Observation} (h : Accepted st c o st₁) (hs : AcceptedRun st₁ cs os st') :
      AcceptedRun st (c :: cs) (o :: os) st'

namespace SearchStream

/-- The stream behaves over a sequence of calls. -/
structure Orderly (s : SearchStream) (cs : List UserCall) : Prop where
  accepted : ∃ os, (s.run cs).2 = some os ∧ AcceptedRun s.state cs os (s.run cs).1.state
  ax : (s.run cs).1.ax = 0
  start : ∀ base scope filter attrs,
    (s.run cs).1.start base scope filter attrs = ((s.run cs).1, .ok ())

end SearchStream

/-! ### What a chain can take -/

/-- The chain takes the item without a panic, and the end of the search moves the state. -/
def Readable (chain : List Adapter) : Received → Prop
  | (.done _, ctrls) => chain ≠ [] ∧ (HasPaged chain →
      ∀ ctrl, ctrls.find? Control.isPaged = some ctrl →
        (Controls.PagedResults.parse ctrl.raw).isSome)
  | (.entry tag, _) | (.referral tag, _) =>
    HasEntries chain → tag.id = 19 → ∃ refs, parseRefs tag = .ok refs

section Readers

variable {chain : List Adapter}

theorem hasEntries_of_reader (h : (reader chain).entriesOnly = true) : HasEntries chain := by
  induction chain with
  | nil => cases h
  | cons a as ih =>
    cases a with
    | entriesOnly refs => exact ⟨refs, List.mem_cons_self⟩
    | pagedResults pr =>
      obtain ⟨refs, hrefs⟩ := ih h
      exact ⟨refs, List.mem_cons_of_mem _ hrefs⟩
    | passThrough =>
      obtain ⟨refs, hrefs⟩ := ih h
      exact ⟨refs, List.mem_cons_of_mem _ hrefs⟩

theorem mem_of_reader_paged {pr : PagedResults} (h : (reader chain).paged = some pr) :
    .pagedResults pr ∈ chain := by
  induction chain with
  | nil => cases h
  | cons a as ih =>
    cases a with
    | entriesOnly refs => exact List.mem_cons_of_mem _ (ih h)
    | pagedResults pr' =>
      obtain rfl := Option.some.inj h
      exact List.mem_cons_self
    | passThrough => exact List.mem_cons_of_mem _ (ih h)

theorem Prepared.saved {pr : PagedResults} (h : Prepared chain)
    (hpr : (reader chain).paged = some pr) : pr.Saved := by
  obtain ⟨i, hi⟩ := List.mem_iff_getElem?.1 (mem_of_reader_paged hpr)
  exact (h.below hi).1

/-- What the chain can take is not malformed. -/
theorem Readable.verdict_ne_bad {x : Received} (h : Readable chain x) :
    (reader chain).verdict x ≠ .bad := by
  have hentry : ∀ re : ResultEntry, (HasEntries chain → re.tag.id = 19 →
      ∃ refs, parseRefs re.tag = .ok refs) → (reader chain).onEntry re ≠ .bad := by
    intro re hre
    rw [Reader.onEntry]
    split
    · rename_i hentries
      split
      · simp
      · split
        · rename_i href
          obtain ⟨refs, hrefs⟩ := hre (hasEntries_of_reader hentries)
            (by simpa [ResultEntry.isRef] using href)
          simp [hrefs]
        · simp
    · simp
  rcases x with ⟨tag | tag | d, ctrls⟩
  · exact hentry ⟨tag, ctrls⟩ h
  · exact hentry ⟨tag, ctrls⟩ h
  · rw [Reader.verdict, Reader.onDone]
    split
    · simp
    · rename_i pr hpr
      split
      · simp
      · rename_i ctrl hfind
        obtain ⟨paged, hparse⟩ := Option.isSome_iff_exists.1
          (h.2 ⟨pr, mem_of_reader_paged hpr⟩ ctrl hfind)
        rw [hparse]
        dsimp only
        split <;> simp

end Readers

/-! ### One call -/

namespace SearchStream

/-- A started stream between two calls. -/
structure Settled (chain : List Adapter) (s : SearchStream) : Prop where
  ax : s.ax = 0
  started : s.state ≠ .fresh
  same : SameChain chain s.adapters
  rx : s.state = .active → s.rx.isSome
  ids : ∀ a ∈ s.net.answers, a.id ≠ none

variable {chain : List Adapter} {s : SearchStream}

/-- `start` does nothing to a stream that was started. -/
theorem start_eq (h : s.state ≠ .fresh) (base : String) (scope : Scope) (filter : String)
    (attrs : List String) : s.start base scope filter attrs = (s, .ok ()) := by
  rw [start, startAt, startWith, if_pos h]

theorem next_eq (h : s.state ≠ .active) : s.next = (s, .ok none) := by
  rw [next, nextAt, nextWith, if_pos h]

theorem finish_eq_closed (h : s.state = .closed) : s.finish = (s, alreadyFinalized) := by
  rw [finish, finishAt, finishWith, if_pos h]

theorem finish_eq (h : s.state ≠ .closed) :
    s.finish =
      ({ s with
          state := .closed
          rx := none
          res := none
          adapters := s.adapters.take s.ax ++ s.below.map Adapter.clear },
        { s.res.getD cancelled with
          refs := (s.res.getD cancelled).refs ++ s.below.reverse.flatMap Adapter.refs }) :=
  finishAt_eq _ h (by omega)

/-- `next` on an active stream. -/
theorem next_settled (hprep : Prepared chain) (hs : Settled chain s) (hactive : s.state = .active)
    (hreadable : ∀ x ∈ s.next.1.net.taken, Readable chain x) :
    Settled chain s.next.1 ∧ ∃ o, (Failure.returned s.next.2).map .item = some o ∧
      Accepted s.state .next o s.next.1.state := by
  obtain ⟨⟨new, hserves⟩, hreturns⟩ :=
    next_serves hactive (hs.rx hactive) (hprep.sameChain hs.same) hs.ax
  have hpull := hserves.pull
  rw [hs.same.reader_eq] at hpull
  have htaken : s.next.1.net.taken = s.net.taken ++ new := hpull.taken
  have hnew : ∀ x ∈ new, Readable chain x :=
    fun x hx ↦ hreadable x (htaken ▸ List.mem_append_right _ hx)
  have hframe : Frame s s.next.1 := frame_nextAt _ s
  have hids : ∀ a ∈ s.next.1.net.answers, a.id ≠ none := fun a ha ↦ hs.ids a (hpull.answers ha)
  have hsettled : s.next.1.state ≠ .fresh → (s.next.1.state = .active → s.next.1.rx.isSome) →
      Settled chain s.next.1 := fun hst hrx ↦
    ⟨hframe.ax.trans hs.ax, hst, hs.same.trans hframe.chain, hrx, hids⟩
  rcases hres : s.next.2 with ⟨e | -⟩ | - | re <;> rw [hres] at hpull
  · have hstate := hreturns.error e hres
    refine ⟨hsettled (by rw [hstate]; simp) (by rw [hstate]; simp), _, rfl, ?_⟩
    rw [hactive, hstate]
    exact .error
  -- A panic needs an item the chain cannot take or a server without a free id.
  · exfalso
    rcases hpull.panic fun pr hpr ↦ hprep.saved hpr with ⟨x, hx, hbad⟩ | ⟨a, ha, hid⟩
    · exact (hnew x hx).verdict_ne_bad hbad
    · exact hs.ids a ha hid
  · obtain ⟨pre, d, ctrls, ctrls', rfl, -⟩ := hpull.last
    -- A direct stream received no result, as it was readable.
    have hne : s.adapters ≠ [] := by
      intro hnil
      have hsame := hs.same
      rw [hnil] at hsame
      exact (hnew _ (List.mem_append_right pre List.mem_cons_self)).1
        (List.forall₂_nil_right_iff.1 hsame)
    have hstate := hreturns.ok none hres
    rw [if_pos ⟨rfl, hs.ax, hne⟩] at hstate
    refine ⟨hsettled (by rw [hstate]; simp) (by rw [hstate]; simp), _, rfl, ?_⟩
    rw [hactive, hstate]
    exact .last
  · have hstate : s.next.1.state = .active := hreturns.ok (some re) hres
    refine ⟨hsettled (by rw [hstate]; simp) fun _ ↦ hpull.rx_isSome, _, rfl, ?_⟩
    rw [hactive, hstate]
    exact .entry

theorem settled_finish (hs : Settled chain s) : Settled chain s.finish.1 ∧
    Accepted s.state .finish (.finished s.finish.2) s.finish.1.state := by
  by_cases hclosed : s.state = .closed
  · rw [finish_eq_closed hclosed]
    refine ⟨hs, ?_⟩
    rw [hclosed]
    exact .finished
  · rw [finish_eq hclosed]
    refine ⟨⟨hs.ax, by simp, ?_, by simp, hs.ids⟩, .finish hclosed⟩
    have hbelow : s.below = s.adapters := by rw [below, hs.ax, List.drop_zero]
    rw [hs.ax, List.take_zero, List.nil_append, hbelow]
    refine hs.same.trans ?_
    rw [SameChain, List.forall₂_map_right_iff, List.forall₂_same]
    exact fun a _ ↦ a.same_clear

/-- **A call behaves**, if the items it receives are such that the chain can take them. -/
theorem call_settled (hprep : Prepared chain) (hs : Settled chain s) (c : UserCall)
    (hreadable : ∀ x ∈ (s.call c).1.net.taken, Readable chain x) :
    Settled chain (s.call c).1 ∧
      ∃ o, (s.call c).2 = some o ∧ Accepted s.state c o (s.call c).1.state := by
  cases c with
  | start base scope filter attrs =>
    rw [call, start_eq hs.started]
    exact ⟨hs, _, rfl, .start⟩
  | next =>
    by_cases hactive : s.state = .active
    · exact next_settled hprep hs hactive hreadable
    · rw [call, next_eq hactive]
      exact ⟨hs, _, rfl, .over hactive⟩
  | finish =>
    obtain ⟨hsettled, haccepted⟩ := settled_finish hs
    exact ⟨hsettled, _, rfl, haccepted⟩
  | state => exact ⟨hs, _, rfl, .state⟩

/-! ### Histories -/

theorem net_nextPage (pr : PagedResults) (cookie : List UInt8) (s : SearchStream) :
    (pr.nextPage cookie s).1.net.taken = s.net.taken := by
  have hturn := Chan.turn_chan pr cookie s
  rcases hpage : pr.nextPage cookie s with ⟨s₁, e | ⟨⟩⟩ <;> rw [hpage] at hturn
  · exact (Chan.turn_eq_error hturn).2.2.1
  · obtain ⟨ldap, controls, attrs, req, a, answers, id, -, -, -, -, -, -, hk⟩ :=
      Chan.turn_eq_ok hturn
    exact congrArg (fun k : Chan ↦ k.net.taken) hk

/-- The history only grows. -/
theorem onChannel_taken (chain : List Adapter) (taken : List Received) :
    OnChannel chain fun s ↦ taken ⊆ s.net.taken where
  congr s s' _ _ _ hnet hs := by rwa [hnet]
  inner s hs := by
    refine List.Subset.trans hs ?_
    rw [nextInner]
    split
    · exact List.Subset.refl _
    · dsimp only
      split
      · exact List.Subset.refl _
      · exact List.Subset.refl _
      · split <;> exact List.subset_append_left _ _
  page pr cookie s _ hs := by rwa [net_nextPage]

theorem taken_startAt (depth : ℕ) (s : SearchStream) (base : String) (scope : Scope)
    (filter : String) (attrs : List String) :
    (startAt depth s base scope filter attrs).1.net.taken = s.net.taken := by
  have hfail : ∀ x : SearchStream × Except Failure Unit,
      (failOnErr x).1.net.taken = x.1.net.taken := by
    rintro ⟨s, ⟨e | -⟩ | -⟩ <;> rfl
  induction depth generalizing s with
  | zero => rfl
  | succ depth ih =>
    rw [startAt, startWith]
    split
    · rfl
    split
    · rw [hfail]
      rcases hreq : Request.search (s.ldap.searchOpts.getD {}) base scope filter attrs with e | req
      · rw [startInner_of_error hreq]
      · rw [startInner_of_request hreq]
        exact taken_log_answer s.net _
    split
    · rfl
    · rename_i a _
      dsimp only
      rw [hfail, adapter_start_eq]
      split
      · rfl
      · exact ih _

theorem taken_call (s : SearchStream) (c : UserCall) :
    s.net.taken ⊆ (s.call c).1.net.taken := by
  cases c with
  | start base scope filter attrs =>
    rw [call, start, taken_startAt]
    exact List.Subset.refl _
  | next => exact (onChannel_taken s.adapters s.net.taken).nextAt _ (.refl _) (List.Subset.refl _)
  | finish =>
    rw [call, finish, net_finishAt]
    exact List.Subset.refl _
  | state => exact List.Subset.refl _

/-! ### Runs -/

theorem run_cons_of_some {c : UserCall} {cs : List UserCall} {o : Observation}
    (h : (s.call c).2 = some o) :
    s.run (c :: cs) = (((s.call c).1.run cs).1, ((s.call c).1.run cs).2.map (o :: ·)) := by
  rw [run]
  rcases hcall : s.call c with ⟨s', o'⟩
  rw [hcall] at h
  obtain rfl : o' = some o := h
  rfl

theorem run_cons_of_none {c : UserCall} {cs : List UserCall} (h : (s.call c).2 = none) :
    s.run (c :: cs) = ((s.call c).1, none) := by
  rw [run]
  rcases hcall : s.call c with ⟨s', o'⟩
  rw [hcall] at h
  obtain rfl : o' = none := h
  rfl

theorem taken_run (s : SearchStream) (cs : List UserCall) :
    s.net.taken ⊆ (s.run cs).1.net.taken := by
  induction cs generalizing s with
  | nil => exact List.Subset.refl _
  | cons c cs ih =>
    rcases hcall : (s.call c).2 with - | o
    · rw [run_cons_of_none hcall]
      exact taken_call s c
    · rw [run_cons_of_some hcall]
      exact List.Subset.trans (taken_call s c) (ih _)

/-- What the first call of a run received was received in the run. -/
theorem taken_call_run (s : SearchStream) (c : UserCall) (cs : List UserCall) :
    (s.call c).1.net.taken ⊆ (s.run (c :: cs)).1.net.taken := by
  rcases hcall : (s.call c).2 with - | o
  · rw [run_cons_of_none hcall]
    exact List.Subset.refl _
  · rw [run_cons_of_some hcall]
    exact taken_run _ cs

/-- **A run behaves**, call by call. -/
theorem run_settled (hprep : Prepared chain) (hs : Settled chain s) (cs : List UserCall)
    (hreadable : ∀ x ∈ (s.run cs).1.net.taken, Readable chain x) :
    Settled chain (s.run cs).1 ∧
      ∃ os, (s.run cs).2 = some os ∧ AcceptedRun s.state cs os (s.run cs).1.state := by
  induction cs generalizing s with
  | nil => exact ⟨hs, [], rfl, .nil⟩
  | cons c cs ih =>
    obtain ⟨hs₁, o, ho, haccepted⟩ := call_settled hprep hs c
      fun x hx ↦ hreadable x (taken_call_run s c cs hx)
    rw [run_cons_of_some ho] at hreadable ⊢
    obtain ⟨hs', os, hos, haccepted'⟩ := ih hs₁ hreadable
    refine ⟨hs', o :: os, ?_, .cons haccepted haccepted'⟩
    rw [hos]
    rfl

/-! ### Started streams -/

/-- What the chain of the user can take, the prepared one can. -/
theorem readable_of_alike {chain' : List Adapter} (h : List.Forall₂ Adapter.Alike chain chain')
    {x : Received} (hx : Readable chain x) : Readable chain' x := by
  rcases x with ⟨tag | tag | d, ctrls⟩
  · exact fun hentries ↦ hx (hentries.of_alike h)
  · exact fun hentries ↦ hx (hentries.of_alike h)
  · refine ⟨?_, fun hpaged ↦ hx.2 (hpaged.of_alike h)⟩
    rintro rfl
    exact hx.1 (List.forall₂_nil_right_iff.1 h)

/-- A stream that was just started is ready to be read. -/
theorem settled_of_start {ldap ldap' : Ldap} {base filter : String} {scope : Scope}
    {attrs : List String} {net : Net}
    (hstart : ldap.streamingSearchWith chain base scope filter attrs net = (ldap', s, .ok ()))
    (hids : ∀ a ∈ net.answers, a.id ≠ none) :
    s.state = .active ∧ ∃ chain', List.Forall₂ Adapter.Alike chain chain' ∧ Prepared chain' ∧
      Settled chain' s := by
  obtain ⟨-, hnew⟩ := Prod.mk.inj hstart
  obtain ⟨as, ldap'', req, hprep, -, hstate, hrx, hadapters, hax, -, -, hnet⟩ :=
    start_new_eq_ok hnew
  refine ⟨hstate, as, alike_of_prepare hprep, prepared_of_prepare hprep, hax, ?_, ?_, ?_, ?_⟩
  · rw [hstate]
    simp
  · rw [hadapters]
    exact .refl as
  · rw [hrx]
    exact fun _ ↦ rfl
  · rw [hnet]
    exact fun a ha ↦ hids a (answers_log_answer net _ ha)

/-! ### Behind a pass-through adapter -/

theorem nextInner_congr (s : SearchStream) (ax : ℕ) (adapters : List Adapter) :
    ({ s with ax := ax, adapters := adapters } : SearchStream).nextInner =
      ({ s.nextInner.1 with ax := ax, adapters := adapters }, s.nextInner.2) := by
  rcases s with ⟨ldap, - | rx, state, adapters', ax', timeout, res, net⟩
  · rfl
  · rw [nextInner, nextInner]
    dsimp only
    rcases recv timeout rx with ⟨- | ⟨tag | tag | d, ctrls⟩ | scrubbed, rest⟩ <;> rfl

/-- A stream without adapters does not get to the end of the search. -/
theorem next_ne_none (hs : Settled [] s) (hactive : s.state = .active)
    (hreadable : ∀ x ∈ s.next.1.net.taken, Readable [] x) : s.next.2 ≠ .ok none := by
  intro hres
  obtain ⟨⟨new, hserves⟩, -⟩ :=
    next_serves hactive (hs.rx hactive) ((show Prepared [] from trivial).sameChain hs.same) hs.ax
  have hpull := hserves.pull
  rw [hres] at hpull
  obtain ⟨pre, d, ctrls, ctrls', rfl, -⟩ := hpull.last
  have htaken : s.next.1.net.taken = s.net.taken ++ (pre ++ [(.done d, ctrls)]) := hpull.taken
  have hmem : (SearchItem.done d, ctrls) ∈ s.next.1.net.taken :=
    htaken ▸ List.mem_append_right _ (List.mem_append_right pre List.mem_cons_self)
  exact (hreadable _ hmem).1 rfl

/-- **A pass-through adapter** changes nothing in a call. -/
theorem call_passThrough (hadapters : s.adapters = []) (hs : Settled [] s) (c : UserCall)
    (hreadable : ∀ x ∈ (s.call c).1.net.taken, Readable [] x) :
    ({ s with adapters := [.passThrough] } : SearchStream).call c =
      ({ (s.call c).1 with adapters := [.passThrough] }, (s.call c).2) := by
  have hzero := hs.ax
  cases c with
  | start base scope filter attrs =>
    have hpass : ({ s with adapters := [.passThrough] } : SearchStream).state ≠ .fresh :=
      hs.started
    rw [call, call, start_eq hs.started, start_eq hpass]
  | next =>
    by_cases hactive : s.state = .active
    · have hne := next_ne_none hs hactive hreadable
      have hdirect : s.next = failOnErr s.nextInner :=
        nextAt_of_end _ hactive (by simp [hzero, hadapters])
      have hdeep : nextAt 1 { s with ax := 1, adapters := [.passThrough] } =
          failOnErr
            ({ s.nextInner.1 with ax := 1, adapters := [.passThrough] }, s.nextInner.2) := by
        rw [nextAt_of_end 0 (by exact hactive) rfl, nextInner_congr]
      have hpass : ({ s with adapters := [.passThrough] } : SearchStream).next =
          ({ s.next.1 with adapters := [.passThrough] }, s.next.2) := by
        have hax : s.nextInner.1.ax = 0 := (frame_nextInner s).ax.trans hzero
        have hget : ({ s with adapters := [.passThrough] } : SearchStream).adapters[s.ax]? =
            some .passThrough := by rw [hzero]; rfl
        rw [hdirect] at hne ⊢
        refine (nextAt_of_adapter 1 (by exact hactive) hget).trans ?_
        simp only [Adapter.next, hzero, Nat.zero_add, hdeep]
        rcases hinner : s.nextInner with ⟨t, ⟨e | ⟨⟩⟩ | - | re⟩ <;> rw [hinner] at hax hne
        · simp only [failOnErr, doneAtEnd, show t.ax = 0 from hax]
          rfl
        · simp only [failOnErr, doneAtEnd, show t.ax = 0 from hax]
          rfl
        · exact absurd rfl hne
        · simp only [failOnErr, doneAtEnd, show t.ax = 0 from hax]
          rfl
      rw [call, call, hpass]
    · have hpass : ({ s with adapters := [.passThrough] } : SearchStream).state ≠ .active :=
        hactive
      rw [call, call, next_eq hactive, next_eq hpass]
  | finish =>
    by_cases hclosed : s.state = .closed
    · have hpass : ({ s with adapters := [.passThrough] } : SearchStream).state = .closed :=
        hclosed
      rw [call, call, finish_eq_closed hclosed, finish_eq_closed hpass]
    · have hpass : ({ s with adapters := [.passThrough] } : SearchStream).state ≠ .closed :=
        hclosed
      rw [call, call, finish_eq hclosed, finish_eq hpass]
      simp [below, hzero, hadapters, Adapter.clear, Adapter.refs]
  | state => rfl

theorem adapters_call_nil (hadapters : s.adapters = []) (hs : Settled [] s) (c : UserCall) :
    (s.call c).1.adapters = [] := by
  cases c with
  | start base scope filter attrs => rwa [call, start_eq hs.started]
  | next =>
    have hsame : SameChain s.adapters s.next.1.adapters := (frame_nextAt _ s).chain
    rw [hadapters] at hsame
    exact List.forall₂_nil_left_iff.1 hsame
  | finish =>
    by_cases hclosed : s.state = .closed
    · rwa [call, finish_eq_closed hclosed]
    · rw [call, finish_eq hclosed]
      simp [below, hadapters]
  | state => exact hadapters

theorem run_passThrough (hadapters : s.adapters = []) (hs : Settled [] s) (cs : List UserCall)
    (hreadable : ∀ x ∈ (s.run cs).1.net.taken, Readable [] x) :
    (({ s with adapters := [.passThrough] } : SearchStream).run cs).2 = (s.run cs).2 := by
  induction cs generalizing s with
  | nil => rfl
  | cons c cs ih =>
    have hcall := fun x hx ↦ hreadable x (taken_call_run s c cs hx)
    obtain ⟨hs₁, o, ho, -⟩ := call_settled (show Prepared [] from trivial) hs c hcall
    have hpass := call_passThrough hadapters hs c hcall
    have ho' : (({ s with adapters := [.passThrough] } : SearchStream).call c).2 = some o := by
      rw [hpass, ho]
    rw [run_cons_of_some ho] at hreadable ⊢
    rw [run_cons_of_some ho', hpass, ih (adapters_call_nil hadapters hs c) hs₁ hreadable]

theorem new_start_passThrough {ldap : Ldap} {base filter : String} {scope : Scope}
    {attrs : List String} {net : Net}
    (h : (new ldap [] net).start base scope filter attrs = (s, .ok ())) :
    (new ldap [.passThrough] net).start base scope filter attrs =
      ({ s with ax := 0, adapters := [.passThrough] }, .ok ()) := by
  have hdirect := @start_new_of_prepare base scope filter attrs [] [] ldap ldap net rfl
  have hpass := @start_new_of_prepare base scope filter attrs [.passThrough] [.passThrough] ldap
    ldap net rfl
  have hcongr := startInner_congr (new ldap [] net) 0 [.passThrough] base scope filter attrs
  have hnew : new ldap [.passThrough] net =
    { new ldap [] net with ax := 0, adapters := [.passThrough] } := rfl
  rw [hdirect] at h
  rw [hpass, hnew, hcongr, ← failOnErr_update, h]
  rfl

/-- With a pass-through adapter the stream is started all the same. -/
theorem start_passThrough {ldap ldap' : Ldap} {base filter : String} {scope : Scope}
    {attrs : List String} {net : Net}
    (hstart : ldap.streamingSearchWith [] base scope filter attrs net = (ldap', s, .ok ())) :
    ldap.streamingSearchWith [.passThrough] base scope filter attrs net =
      (ldap', { s with ax := 0, adapters := [.passThrough] }, .ok ()) := by
  obtain ⟨rfl, hnew⟩ := Prod.mk.inj hstart
  exact Prod.ext rfl (new_start_passThrough hnew)

/-- **Streams behave.** A stream that was started with any chain goes through any sequence of calls
as it should, if each item received is one the chain can take and there is a free message id
whenever a page is requested. -/
theorem orderly_run {ldap ldap' : Ldap} {base filter : String} {scope : Scope}
    {attrs : List String} {answers : List SearchServed}
    (hstart : ldap.streamingSearchWith chain base scope filter attrs ⟨answers, [], []⟩ =
      (ldap', s, .ok ()))
    (hids : ∀ a ∈ answers, a.id ≠ none) (cs : List UserCall)
    (hreadable : ∀ x ∈ (s.run cs).1.net.taken, Readable chain x) :
    s.Orderly cs ∧ (chain = [] →
      ∃ s', ldap.streamingSearchWith [.passThrough] base scope filter attrs ⟨answers, [], []⟩ =
        (ldap', s', .ok ()) ∧ (s'.run cs).2 = (s.run cs).2) := by
  obtain ⟨-, chain', halike, hprep, hs⟩ := settled_of_start hstart hids
  obtain ⟨hs', haccepted⟩ :=
    run_settled hprep hs cs fun x hx ↦ readable_of_alike halike (hreadable x hx)
  refine ⟨⟨haccepted, hs'.ax, start_eq hs'.started⟩, ?_⟩
  rintro rfl
  obtain rfl := List.forall₂_nil_left_iff.1 halike
  have hadapters := List.forall₂_nil_left_iff.1 hs.same
  refine ⟨_, start_passThrough hstart, ?_⟩
  rw [← hs.ax]
  exact run_passThrough hadapters hs cs hreadable

/-- A referral and an entry, behind `EntriesOnly`. -/
def entriesStream : SearchStream :=
  ((⟨0, none, none, none⟩ : Ldap).streamingSearchWith [.entriesOnly []] "dc=a" .subtree "(a=b)" []
    ⟨[⟨some 1, true, none, true, [.item (.referral ⟨.application, 19, .C []⟩) [],
      .item (.entry ⟨.application, 4, .C []⟩) [], .item (.done ⟨0, "", "", [], []⟩) []]⟩],
      [], []⟩).2.1

theorem orderly_run_entriesStream :
    entriesStream.Orderly [.next, .state, .next, .next, .finish, .finish] := by
  have hstart : (⟨0, none, none, none⟩ : Ldap).streamingSearchWith [.entriesOnly []] "dc=a" .subtree
      "(a=b)" [] ⟨[⟨some 1, true, none, true, [.item (.referral ⟨.application, 19, .C []⟩) [],
        .item (.entry ⟨.application, 4, .C []⟩) [], .item (.done ⟨0, "", "", [], []⟩) []]⟩],
        [], []⟩ = (⟨0, none, none, none⟩, entriesStream, .ok ()) := rfl
  have htaken : (entriesStream.run [.next, .state, .next, .next, .finish, .finish]).1.net.taken =
      [(.referral ⟨.application, 19, .C []⟩, []), (.entry ⟨.application, 4, .C []⟩, []),
        (.done ⟨0, "", "", [], []⟩, [])] := rfl
  refine (orderly_run hstart (by simp) _ ?_).1
  rw [htaken]
  simp only [List.forall_mem_cons, List.not_mem_nil, false_imp_iff, implies_true, and_true]
  refine ⟨fun _ _ ↦ ⟨[], rfl⟩, fun _ h ↦ absurd h (by decide), by simp, ?_⟩
  rintro - ctrl ⟨⟩

/-- **Without adapters** the result leaves the stream as it is, and the next call of `next` finds
no receiver. -/
theorem not_orderly_direct :
    ¬∀ (ldap ldap' : Ldap) (chain : List Adapter) (base : String) (scope : Scope)
      (filter : String) (attrs : List String) (answers : List SearchServed) (s : SearchStream),
      ldap.streamingSearchWith chain base scope filter attrs ⟨answers, [], []⟩ =
        (ldap', s, .ok ()) →
      (∀ a ∈ answers, a.id ≠ none) → ∀ cs, s.Orderly cs := by
  intro h
  have hdirect := h ⟨0, none, none, none⟩ _ [] "dc=a" .subtree "(a=b)" []
    [⟨some 1, true, none, true, [.item (.done ⟨0, "", "", [], []⟩) []]⟩] _ rfl (by simp)
    [.next, .next]
  obtain ⟨os, hos, -⟩ := hdirect.accepted
  cases hos

end SearchStream

end Ldap3
