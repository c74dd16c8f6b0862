import Ldap3.Search.Reader

/-!
# A chain is one loop

A call of `next` goes down the chain and comes back once for every adapter, and two of the adapters
call again before they return. What comes of it is the loop `Pull` of a reader that does not depend
on the order of the adapters. This is proved adapter by adapter: the loop of an adapter around the
loop of the adapters below it is a loop again (`entriesLoop_serves`, `nextLoop_serves`), and by
induction on the number of calls below it `next` itself is one (`nextAt_serves`).

The receiver, the handle and the stored result change in the middle of a call, at positions of the
chain that differ. Since `Pull` has all of that, later results need not go down the chain again.
-/

namespace Ldap3

open SearchStream

/-! ### Rules for the adapters -/

section Rules

variable {rd : Reader} {timeout : Option ℕ} {k k₁ k' : Chan} {x : Received} {xs : List Received}
  {y : Except Failure (Option ResultEntry)} {pr : PagedResults}

theorem Skip.entriesOnly (h : Skip rd timeout k x k') :
    Skip { rd with entriesOnly := true } timeout k x k' := by
  cases h with
  | keep hrecv hv =>
    exact .keep hrecv ((Reader.verdict_entriesOnly (by simp [hv])).trans hv)
  | page hrecv hv hpr hturn => exact .page hrecv hv hpr hturn

theorem Skips.entriesOnly (h : Skips rd timeout k xs k') :
    Skips { rd with entriesOnly := true } timeout k xs k' := by
  induction h with
  | nil => exact .nil
  | cons hskip _ ih => exact .cons hskip.entriesOnly ih

theorem Stop.entriesOnly (h : Stop rd timeout k xs k' y) (hy : ∀ re, y ≠ .ok (some re)) :
    Stop { rd with entriesOnly := true } timeout k xs k' y := by
  cases h with
  | closed hrecv => exact .closed hrecv
  | elapsed hrecv => exact .elapsed hrecv
  | yield => exact absurd rfl (hy _)
  | last hrecv hv => exact .last hrecv hv
  | unpaged hrecv hv hpr hturn => exact .unpaged hrecv hv hpr hturn
  | bad hrecv hv hnet =>
    exact .bad hrecv ((Reader.verdict_entriesOnly (by simp [hv])).trans hv) hnet

theorem Skip.paged (h : Skip rd timeout k x k') (hpaged : rd.paged = none) :
    Skip { rd with paged := some pr } timeout k x k' := by
  cases h with
  | keep hrecv hv => exact .keep hrecv ((Reader.verdict_paged (by simp [hv]) hpaged).trans hv)
  | page _ _ hpr _ =>
    rw [hpaged] at hpr
    cases hpr

theorem Skips.paged (h : Skips rd timeout k xs k') (hpaged : rd.paged = none) :
    Skips { rd with paged := some pr } timeout k xs k' := by
  induction h with
  | nil => exact .nil
  | cons hskip _ ih => exact .cons (hskip.paged hpaged) ih

theorem Stop.paged (h : Stop rd timeout k xs k' y) (hpaged : rd.paged = none)
    (hy : y ≠ .ok none) : Stop { rd with paged := some pr } timeout k xs k' y := by
  cases h with
  | closed hrecv => exact .closed hrecv
  | elapsed hrecv => exact .elapsed hrecv
  | yield hrecv hv => exact .yield hrecv ((Reader.verdict_paged (by simp [hv]) hpaged).trans hv)
  | last => exact absurd rfl hy
  | unpaged _ _ hpr _ =>
    rw [hpaged] at hpr
    cases hpr
  | bad hrecv hv hnet =>
    exact .bad hrecv ((Reader.verdict_paged (by simp [hv]) hpaged).trans hv) hnet

end Rules

/-! ### The loops of the adapters -/

/-- The referrals collected by the last `EntriesOnly` of a chain, which gets them all. -/
def collected : List Adapter → List String
  | [] => []
  | a :: as => if (reader as).entriesOnly then collected as else a.refs

namespace SearchStream

/-- What a call of `next` does, if the adapters it is handed to are this reader: one loop. -/
structure Serves (rd : Reader) (s : SearchStream)
    (x : SearchStream × Except Failure (Option ResultEntry)) (new : List Received) : Prop where
  pull : Pull rd s.timeout s.chan new x.1.chan x.2
  collected : collected x.1.below = collected s.below ++ new.flatMap rd.refs

/-- A stream in the middle of reading. -/
structure Live (s₀ s : SearchStream) : Prop where
  state : s.state = .active
  rx : s.rx.isSome
  frame : Frame s₀ s

end SearchStream

section Loops

variable {rd : Reader} {next : Next} {s₀ : SearchStream}

/-- The items skipped without `EntriesOnly` have no referrals that are kept. -/
theorem Skips.flatMap_refs {timeout : Option ℕ} {k k' : Chan} {xs : List Received}
    (h : Skips rd timeout k xs k') (hrd : rd.entriesOnly = false) :
    xs.flatMap ({ rd with entriesOnly := true } : Reader).refs = [] := by
  induction h with
  | nil => rfl
  | cons hskip _ ih =>
    rw [List.flatMap_cons, ih, List.append_nil]
    cases hskip with
    | keep _ hv =>
      rw [Reader.entriesOnly_of_keep hv] at hrd
      cases hrd
    | page => exact Reader.refs_done _ _

theorem Stop.flatMap_refs {timeout : Option ℕ} {k k' : Chan} {xs : List Received}
    {y : Except Failure (Option ResultEntry)} (h : Stop rd timeout k xs k' y) :
    xs.flatMap rd.refs = [] := by
  cases h with
  | closed => rfl
  | elapsed => rfl
  | yield _ hv => simp [Reader.refs, hv]
  | last _ hv => simp [Reader.refs, hv]
  | unpaged _ hv => simp [Reader.refs, hv]
  | bad _ hv => simp [Reader.refs, hv]

/-- Where no referral is kept back, there is none among what was received. -/
theorem Skips.flatMap_refs_append {timeout : Option ℕ} {k k₁ k₂ k' : Chan} {xs ys : List Received}
    {y : Except Failure (Option ResultEntry)} (h : Skips rd timeout k xs k₁)
    (hrd : rd.entriesOnly = false) (h' : Stop { rd with entriesOnly := true } timeout k₂ ys k' y)
    (refs : List String) :
    refs = refs ++ (xs ++ ys).flatMap ({ rd with entriesOnly := true } : Reader).refs := by
  rw [List.flatMap_append, h.flatMap_refs hrd, h'.flatMap_refs, List.append_nil, List.append_nil]

/-- An item that is passed on may be something else for another reader. -/
theorem Stop.yield_inv {timeout : Option ℕ} {k k' : Chan} {xs : List Received} {re : ResultEntry}
    (h : Stop rd timeout k xs k' (.ok (some re))) :
    ∃ x, xs = [x] ∧ rd.verdict x = .yield re ∧ ∀ rd' : Reader,
      (∀ refs, rd'.verdict x = .keep refs → Skip rd' timeout k x k') ∧
      (rd'.verdict x = .yield re → Stop rd' timeout k [x] k' (.ok (some re))) ∧
      (rd'.verdict x = .bad → Stop rd' timeout k [x] k' (.error .panic)) := by
  cases h with
  | @yield rx rest res net x re hrecv hv =>
    exact ⟨x, rfl, hv, fun rd' ↦ ⟨fun refs hkeep ↦ .keep hrecv hkeep, fun hy ↦ .yield hrecv hy,
      fun hbad ↦ .bad hrecv hbad rfl⟩⟩

theorem flatMap_trans {α β : Type} {f : α → List β} {xs ys : List α} {as bs cs : List β}
    (h : bs = as ++ xs.flatMap f) (h' : cs = bs ++ ys.flatMap f) :
    cs = as ++ (xs ++ ys).flatMap f := by
  rw [h', h, List.append_assoc, List.flatMap_append]

/-- What the loop of an adapter needs to know of `next`. -/
structure Inner (rd : Reader) (s₀ : SearchStream) (next : Next) : Prop where
  serves : ∀ s, Live s₀ s → ∃ new, Serves rd s (next s) new
  frame : ∀ s, Frame s (next s).1
  active : ∀ s o, Live s₀ s → (next s).2 = .ok o → (next s).1.state = .active

theorem Inner.live {s : SearchStream} {re : ResultEntry} (h : Inner rd s₀ next) (hs : Live s₀ s)
    (hre : (next s).2 = .ok (some re)) : Live s₀ (next s).1 := by
  obtain ⟨new, hserves⟩ := h.serves s hs
  have hpull := hserves.pull
  rw [hre] at hpull
  exact ⟨h.active s _ hs hre, hpull.rx_isSome, hs.frame.trans (h.frame s)⟩

/-- What the loop of `EntriesOnly` does around a reader. -/
structure EntriesServes (rd : Reader) (s : SearchStream) (refs : List String)
    (x : List String × SearchStream × Except Failure (Option ResultEntry)) (new : List Received) :
    Prop where
  pull : Pull { rd with entriesOnly := true } s.timeout s.chan new x.2.1.chan x.2.2
  collected : collected x.2.1.below = collected s.below ++ new.flatMap rd.refs
  refs : rd.entriesOnly = false →
    x.1 = refs ++ new.flatMap ({ rd with entriesOnly := true } : Reader).refs
  active : ∀ o, x.2.2 = .ok o → x.2.1.state = .active

theorem entriesLoop_of_return {s s₁ : SearchStream} {res : Except Failure (Option ResultEntry)}
    (fuel : ℕ) (refs : List String) (hcall : next s = (s₁, res))
    (h : ∀ re, res ≠ .ok (some re)) : entriesLoop next (fuel + 1) refs s = (refs, s₁, res) := by
  rw [entriesLoop, hcall]
  rcases res with e | - | re
  · rfl
  · rfl
  · exact absurd rfl (h re)

theorem entriesLoop_of_some {s s₁ : SearchStream} {re : ResultEntry} (fuel : ℕ)
    (refs : List String) (hcall : next s = (s₁, .ok (some re))) :
    entriesLoop next (fuel + 1) refs s =
      match ({ rd with entriesOnly := true } : Reader).onEntry re with
      | .keep more => entriesLoop next fuel (refs ++ more) s₁
      | .bad => (refs, s₁, .error .panic)
      | _ => (refs, s₁, .ok (some re)) := by
  rw [entriesLoop, hcall, Reader.onEntry, if_pos rfl]
  dsimp only
  split
  · dsimp only
    rw [List.append_nil]
  · split
    · rcases parseRefs re.tag with e | more <;> rfl
    · rfl

/-- **The loop of `EntriesOnly`** around another one is a loop. -/
theorem entriesLoop_serves (hnext : Inner rd s₀ next) (fuel : ℕ) (refs : List String)
    {s : SearchStream} (hs : Live s₀ s) (hfuel : s.size < fuel) :
    ∃ new, EntriesServes rd s refs (entriesLoop next fuel refs s) new := by
  induction fuel generalizing refs s with
  | zero => omega
  | succ fuel ih =>
    obtain ⟨new, hserves⟩ := hnext.serves s hs
    have hactive := hnext.active s
    have hframe := hnext.frame s
    have hlive : ∀ re, (next s).2 = .ok (some re) → Live s₀ (next s).1 :=
      fun re hre ↦ hnext.live hs hre
    rcases hcall : next s with ⟨s₁, res⟩
    rw [hcall] at hserves hactive hframe hlive
    obtain ⟨skipped, k₁, got, hskips, hstop, rfl⟩ := hserves.pull
    have hskips' := hskips.entriesOnly
    by_cases hsome : ∃ re, res = .ok (some re)
    · obtain ⟨re, rfl⟩ := hsome
      obtain ⟨x, rfl, hv, hstop'⟩ := hstop.yield_inv
      obtain ⟨hkeep, hyield, hbad⟩ := hstop' { rd with entriesOnly := true }
      have hlt : s₁.size < s.size := hserves.pull.size_lt
      have hverdict := Reader.verdict_entriesOnly_of_yield hv
      rw [@entriesLoop_of_some rd next s s₁ re fuel refs hcall]
      rcases Reader.onEntry_cases { rd with entriesOnly := true } re with
          ⟨more, hre⟩ | hre | hre <;>
        rw [hre] at hverdict ⊢
      · -- What is kept back is skipped, and the loop goes on.
        obtain ⟨new, hgo⟩ := @ih (refs ++ more) s₁ (hlive re rfl) (by omega)
        have hpull := hgo.pull
        rw [hframe.timeout] at hpull
        refine ⟨(skipped ++ [x]) ++ new, (hskips'.trans (hkeep more hverdict).single).pull hpull,
          flatMap_trans hserves.collected hgo.collected, ?_, hgo.active⟩
        intro hrd
        rw [hgo.refs hrd, List.flatMap_append, List.flatMap_append, hskips.flatMap_refs hrd]
        simp [Reader.refs, hverdict]
      · refine ⟨skipped ++ [x], hskips'.pull (hyield hverdict).pull, hserves.collected, ?_,
          fun o ↦ hactive o hs⟩
        exact fun hrd ↦ hskips.flatMap_refs_append hrd (hyield hverdict) refs
      · refine ⟨skipped ++ [x], hskips'.pull (hbad hverdict).pull, hserves.collected, ?_, ?_⟩
        · exact fun hrd ↦ hskips.flatMap_refs_append hrd (hbad hverdict) refs
        · rintro o ⟨⟩
    · rw [entriesLoop_of_return fuel refs hcall fun re hre ↦ hsome ⟨re, hre⟩]
      have hstop' := hstop.entriesOnly fun re hre ↦ hsome ⟨re, hre⟩
      exact ⟨skipped ++ got, hskips'.pull hstop'.pull, hserves.collected,
        fun hrd ↦ hskips.flatMap_refs_append hrd hstop' refs, fun o ↦ hactive o hs⟩

/-- `PagedResults` does not change which referrals are kept. -/
theorem Reader.refs_paged (paged : Option PagedResults) :
    ({ rd with paged := paged } : Reader).refs = rd.refs := by
  funext x
  rcases x with ⟨tag | tag | res, ctrls⟩
  · rfl
  · rfl
  · rw [Reader.refs_done, Reader.refs_done]

theorem nextLoop_of_return {pr : PagedResults} {s s₁ : SearchStream}
    {res : Except Failure (Option ResultEntry)} (fuel : ℕ) (hcall : next s = (s₁, res))
    (h : res ≠ .ok none) : pr.nextLoop next (fuel + 1) s = (s₁, res) := by
  rw [PagedResults.nextLoop, hcall]
  rcases res with e | - | re
  · rfl
  · exact absurd rfl h
  · rfl

theorem nextLoop_of_none {pr : PagedResults} {s s₁ : SearchStream} {d : LdapResult}
    {ctrls : List Control} (fuel : ℕ) (hcall : next s = (s₁, .ok none))
    (hres : s₁.res = some { d with ctrls := ctrls }) :
    pr.nextLoop next (fuel + 1) s =
      match ({ rd with paged := some pr } : Reader).verdict (.done d, ctrls) with
      | .last ctrls' => ({ s₁ with res := some { d with ctrls := ctrls' } }, .ok none)
      | .page cookie =>
        match pr.nextPage cookie s₁ with
        | (s₂, .error e) => (s₂, .error e)
        | (s₂, .ok ()) => pr.nextLoop next fuel s₂
      | _ => (s₁, .error .panic) := by
  have hsame : ({ s₁ with res := some { d with ctrls := ctrls } } : SearchStream) = s₁ := by
    rw [← hres]
  rw [PagedResults.nextLoop, hcall, Reader.verdict, Reader.onDone]
  simp only [hres]
  rcases hfind : ctrls.find? Control.isPaged with - | ctrl
  · dsimp only
    rw [hsame]
  · dsimp only
    rcases hparse : Controls.PagedResults.parse ctrl.raw with - | paged
    · rfl
    · dsimp only
      by_cases hcookie : paged.cookie = []
      · rw [if_pos hcookie, if_pos hcookie]
      · have hverdict : (if paged.cookie = [] then Verdict.last (ctrls.eraseP Control.isPaged)
            else .page paged.cookie) = .page paged.cookie := if_neg hcookie
        rw [if_neg hcookie]
        exact hverdict.symm ▸ rfl

/-- A page is turned outside of the chain. -/
theorem below_nextPage (pr : PagedResults) (cookie : List UInt8) (s : SearchStream) :
    (pr.nextPage cookie s).1.below = s.below ∧ (pr.nextPage cookie s).1.state = s.state := by
  rw [PagedResults.nextPage]
  split
  · split
    · dsimp only
      split <;> exact ⟨rfl, rfl⟩
    · exact ⟨rfl, rfl⟩
  · exact ⟨rfl, rfl⟩

/-- When a page is turned the stream can be read on. -/
theorem SearchStream.Live.nextPage {pr : PagedResults} {cookie : List UInt8} {s₁ s₂ : SearchStream}
    (hstate : s₁.state = .active) (hframe : Frame s₀ s₁)
    (hpage : pr.nextPage cookie s₁ = (s₂, .ok ())) : Live s₀ s₂ := by
  obtain ⟨-, hstate₂⟩ := below_nextPage pr cookie s₁
  have hframe₂ := frame_nextPage pr cookie s₁
  have hturn := Chan.turn_chan pr cookie s₁
  rw [hpage] at hstate₂ hframe₂ hturn
  refine ⟨hstate₂.trans hstate, ?_, hframe.trans hframe₂⟩
  obtain ⟨ldap, controls, attrs, req, a, answers, id, -, -, -, -, -, -, hk⟩ :=
    Chan.turn_eq_ok hturn
  rw [show s₂.rx = some a.events from congrArg Chan.rx hk]
  rfl

theorem Stop.last_inv {timeout : Option ℕ} {k k' : Chan} {xs : List Received}
    (h : Stop rd timeout k xs k' (.ok none)) (hpaged : rd.paged = none) :
    ∃ rx rest res net d ctrls, k = ⟨some rx, res, net⟩ ∧
      recv timeout rx = (some (.item (.done d) ctrls), rest) ∧ xs = [(.done d, ctrls)] ∧
      k' = ⟨none, some { d with ctrls := ctrls }, net.take (.done d) ctrls⟩ := by
  cases h with
  | @last rx rest res net d ctrls ctrls' hrecv hv =>
    obtain rfl := Reader.eq_of_verdict_last hpaged hv
    exact ⟨rx, rest, res, net, d, ctrls', rfl, hrecv, rfl, rfl⟩

/-- What the loop of `PagedResults` does around a reader. -/
structure PagedServes (rd : Reader) (pr : PagedResults) (s : SearchStream)
    (x : SearchStream × Except Failure (Option ResultEntry)) (new : List Received) : Prop
    extends Serves { rd with paged := some pr } s x new where
  active : ∀ o, x.2 = .ok o → x.1.state = .active

/-- **The loop of `PagedResults`** around another one is a loop. -/
theorem nextLoop_serves {pr : PagedResults} (hnext : Inner rd s₀ next) (hpaged : rd.paged = none)
    (fuel : ℕ) {s : SearchStream} (hs : Live s₀ s) (hfuel : s.size < fuel) :
    ∃ new, PagedServes rd pr s (pr.nextLoop next fuel s) new := by
  induction fuel generalizing s with
  | zero => omega
  | succ fuel ih =>
    obtain ⟨new, hserves⟩ := hnext.serves s hs
    have hactive := hnext.active s
    have hframe := hnext.frame s
    rcases hcall : next s with ⟨s₁, res⟩
    rw [hcall] at hserves hactive hframe
    have hcollected := hserves.collected
    rw [← Reader.refs_paged (some pr)] at hcollected
    obtain ⟨skipped, k₁, got, hskips, hstop, rfl⟩ := hserves.pull
    have hskips' := @Skips.paged _ _ _ _ _ pr hskips hpaged
    by_cases hnone : res = .ok none
    · subst hnone
      obtain ⟨rx, rest, r, net, d, ctrls, rfl, hrecv, rfl, hchan⟩ := hstop.last_inv hpaged
      have hres : s₁.res = some { d with ctrls := ctrls } := congrArg Chan.res hchan
      have hrx : s₁.rx = none := congrArg Chan.rx hchan
      have hnet : s₁.net = net.take (.done d) ctrls := congrArg Chan.net hchan
      rw [@nextLoop_of_none rd next pr s s₁ d ctrls fuel hcall hres]
      have hverdict : ∀ v, ({ rd with paged := some pr } : Reader).onDone ctrls = v →
          ({ rd with paged := some pr } : Reader).verdict (.done d, ctrls) = v := fun _ h ↦ h
      rcases Reader.onDone_cases { rd with paged := some pr } ctrls with
          ⟨ctrls', hd⟩ | ⟨cookie, hd⟩ | hd <;>
        replace hverdict := hverdict _ hd <;> rw [hverdict] <;> dsimp only
      · have hstop' := @Stop.last { rd with paged := some pr } s.timeout rx rest r net d ctrls
          ctrls' hrecv hverdict
        rw [← hrx, ← hnet] at hstop'
        refine ⟨skipped ++ [(.done d, ctrls)], ⟨hskips'.pull hstop'.pull, ?_⟩,
          fun o ↦ hactive o hs⟩
        exact hcollected
      -- The result asks for another page.
      · have hturn := Chan.turn_chan pr cookie s₁
        obtain ⟨hbelow, -⟩ := below_nextPage pr cookie s₁
        have hpageFrame := frame_nextPage pr cookie s₁
        rw [hchan] at hturn
        rcases hpage : pr.nextPage cookie s₁ with ⟨s₂, e | ⟨⟩⟩ <;>
          rw [hpage] at hturn hbelow hpageFrame <;> dsimp only at hbelow
        · refine ⟨skipped ++ [(.done d, ctrls)], ⟨?_, ?_⟩, by rintro o ⟨⟩⟩
          · exact hskips'.pull (Stop.unpaged hrecv hverdict rfl hturn).pull
          · rw [hbelow]
            exact hcollected
        · -- The result of the page is skipped, and the loop goes on with the next one.
          have hskip : Skip { rd with paged := some pr } s.timeout ⟨some rx, r, net⟩
            (.done d, ctrls) s₂.chan := .page hrecv hverdict rfl hturn
          have hlt : s₂.size < s.size := hskip.size_lt.trans_le hskips.size_le
          have hlive : Live s₀ s₂ :=
            .nextPage (hactive none hs rfl) (hs.frame.trans hframe) hpage
          obtain ⟨new, hgo⟩ := ih hlive (by omega)
          have hpull := hgo.pull
          have hcollected' := hgo.collected
          rw [hpageFrame.timeout, hframe.timeout] at hpull
          rw [hbelow] at hcollected'
          exact ⟨(skipped ++ [(.done d, ctrls)]) ++ new,
            ⟨(hskips'.trans hskip.single).pull hpull, flatMap_trans hcollected hcollected'⟩,
            hgo.active⟩
      · have hstop' : Stop { rd with paged := some pr } s.timeout ⟨some rx, r, net⟩
          [(.done d, ctrls)] s₁.chan (.error .panic) := .bad hrecv hverdict hnet
        refine ⟨skipped ++ [(.done d, ctrls)], ⟨hskips'.pull hstop'.pull, ?_⟩, ?_⟩
        · exact hcollected
        · rintro o ⟨⟩
    · rw [nextLoop_of_return fuel hcall hnone]
      exact ⟨skipped ++ got, ⟨hskips'.pull (hstop.paged hpaged hnone).pull, hcollected⟩,
        fun o ↦ hactive o hs⟩

end Loops

/-! ### The chain -/

theorem not_hasPaged_sameChain {chain chain' : List Adapter} (h : SameChain chain chain')
    (hpaged : ¬HasPaged chain) : ¬HasPaged chain' := by
  rintro ⟨pr, hpr⟩
  exact hpaged ⟨pr, h.mem_of_paged hpr⟩

theorem prepared_of_not_hasPaged {chain : List Adapter} (h : ¬HasPaged chain) :
    Prepared chain := by
  induction chain with
  | nil => trivial
  | cons a as ih =>
    cases a with
    | entriesOnly refs => exact ih (mt (hasPaged_cons (by simp)).2 h)
    | pagedResults pr => exact absurd ⟨pr, List.mem_cons_self⟩ h
    | passThrough => exact ih (mt (hasPaged_cons (by simp)).2 h)

theorem Prepared.tail {a : Adapter} {as : List Adapter} (h : Prepared (a :: as)) :
    Prepared as := by
  cases a with
  | entriesOnly refs => exact h
  | pagedResults pr => exact prepared_of_not_hasPaged h.2
  | passThrough => exact h

theorem Prepared.sameChain {chain chain' : List Adapter} (h : Prepared chain)
    (hsame : SameChain chain chain') : Prepared chain' := by
  induction hsame with
  | nil => trivial
  | @cons a b as bs hab hbs ih =>
    cases a <;> cases b <;> try exact hab.elim
    · exact ih h
    · obtain rfl := (hab : _ = _)
      exact ⟨h.1, not_hasPaged_sameChain hbs h.2⟩
    · exact ih h

theorem collected_of_not_entriesOnly {chain : List Adapter}
    (h : (reader chain).entriesOnly = false) : collected chain = [] := by
  cases chain with
  | nil => rfl
  | cons a as =>
    cases a with
    | entriesOnly refs => cases h
    | pagedResults pr =>
      rw [collected, if_neg (by rw [show (reader as).entriesOnly = false from h]; simp)]
      rfl
    | passThrough =>
      rw [collected, if_neg (by rw [show (reader as).entriesOnly = false from h]; simp)]
      rfl

/-- The other adapters collect nothing. -/
theorem collected_cons {a : Adapter} (h : a.refs = []) (as : List Adapter) :
    collected (a :: as) = collected as := by
  rw [collected]
  split
  · rfl
  · rename_i has
    rw [h, collected_of_not_entriesOnly (by simpa using has)]

namespace SearchStream

/-- The state after a call. -/
structure Returns (s : SearchStream) (x : SearchStream × Except Failure (Option ResultEntry)) :
    Prop where
  ok : ∀ o, x.2 = .ok o →
    x.1.state = if o.isNone ∧ s.ax = 0 ∧ s.adapters ≠ [] then .done else .active
  error : ∀ e, x.2 = .error (.err e) → x.1.state = .error

/-- The inner method is the last turn of the loop of an empty chain. -/
theorem nextInner_stop {s : SearchStream} (hrx : s.rx.isSome) :
    (∃ xs, Stop ⟨false, none⟩ s.timeout s.chan xs s.nextInner.1.chan s.nextInner.2) ∧
      s.nextInner.1.state = s.state := by
  obtain ⟨rx, hrx⟩ := Option.isSome_iff_exists.1 hrx
  have hchan : s.chan = ⟨some rx, s.res, s.net⟩ := by rw [chan, hrx]
  rcases hrecv : recv s.timeout rx with ⟨- | ⟨item, ctrls⟩ | scrubbed, rest⟩
  · rw [nextInner, hrx, hchan]
    simp only [hrecv]
    exact ⟨⟨[], .closed hrecv⟩, trivial⟩
  · rw [nextInner, hrx, hchan]
    simp only [hrecv]
    rcases item with tag | tag | d
    · exact ⟨⟨[(.entry tag, ctrls)], .yield hrecv rfl⟩, rfl⟩
    · exact ⟨⟨[(.referral tag, ctrls)], .yield hrecv rfl⟩, rfl⟩
    · exact ⟨⟨[(.done d, ctrls)], .last hrecv rfl⟩, rfl⟩
  · rw [nextInner, hrx, hchan]
    simp only [hrecv]
    exact ⟨⟨[], .elapsed hrecv⟩, trivial⟩

theorem failOnErr_chan (x : SearchStream × Except Failure (Option ResultEntry)) :
    (failOnErr x).1.chan = x.1.chan ∧ (failOnErr x).2 = x.2 ∧
      (failOnErr x).1.below = x.1.below := by
  rcases x with ⟨s, ⟨e | -⟩ | o⟩ <;> exact ⟨rfl, rfl, rfl⟩

theorem doneAtEnd_chan (x : SearchStream × Except Failure (Option ResultEntry)) :
    (doneAtEnd x).1.chan = x.1.chan ∧ (doneAtEnd x).2 = x.2 ∧
      (doneAtEnd x).1.below = x.1.below := by
  rw [doneAtEnd]
  split
  · split <;> exact ⟨rfl, rfl, rfl⟩
  · exact ⟨rfl, rfl, rfl⟩

/-- The end of a call changes the state only. -/
theorem Serves.atEnd {rd : Reader} {s : SearchStream}
    {x : SearchStream × Except Failure (Option ResultEntry)} {new : List Received}
    (h : Serves rd s x new) : Serves rd s (failOnErr (doneAtEnd x)) new := by
  obtain ⟨hchan, hres, hbelow⟩ := failOnErr_chan (doneAtEnd x)
  obtain ⟨hchan', hres', hbelow'⟩ := doneAtEnd_chan x
  constructor
  · rw [hchan, hres, hchan', hres']
    exact h.pull
  · rw [hbelow, hbelow']
    exact h.collected

theorem returns_atEnd {s : SearchStream} {x : SearchStream × Except Failure (Option ResultEntry)}
    (hax : x.1.ax = s.ax) (hne : s.adapters ≠ []) (hactive : ∀ o, x.2 = .ok o →
      x.1.state = .active) : Returns s (failOnErr (doneAtEnd x)) := by
  rcases x with ⟨s', ⟨e | -⟩ | - | re⟩
  · refine ⟨?_, fun _ _ ↦ rfl⟩
    rintro o ⟨⟩
  · constructor
    · rintro o ⟨⟩
    · rintro e ⟨⟩
  · have hend : doneAtEnd (s', .ok none) =
        (if s'.ax = 0 then { s' with state := .done } else s', .ok none) := by
      rw [doneAtEnd]
      dsimp only
      split <;> rfl
    rw [hend]
    constructor
    · rintro o ⟨⟩
      by_cases hzero : s'.ax = 0
      · simp [failOnErr, hzero, ← hax, hne]
      · simpa [failOnErr, hzero, ← hax] using hactive none rfl
    · rintro e ⟨⟩
  · constructor
    · rintro o ⟨⟩
      exact hactive (some re) rfl
    · rintro e ⟨⟩

theorem returns_failOnErr {s : SearchStream}
    {x : SearchStream × Except Failure (Option ResultEntry)}
    (hend : ¬(s.ax = 0 ∧ s.adapters ≠ [])) (hactive : ∀ o, x.2 = .ok o → x.1.state = .active) :
    Returns s (failOnErr x) := by
  rcases x with ⟨s', ⟨e | -⟩ | o⟩
  · refine ⟨?_, fun _ _ ↦ rfl⟩
    rintro o ⟨⟩
  · constructor
    · rintro o ⟨⟩
    · rintro e ⟨⟩
  · constructor
    · rintro o ⟨⟩
      rw [if_neg fun h ↦ hend h.2]
      exact hactive _ rfl
    · rintro e ⟨⟩

theorem Frame.below {s s' : SearchStream} (h : Frame s s') : SameChain s.below s'.below := by
  rw [SearchStream.below, SearchStream.below, h.ax]
  exact List.forall₂_drop s.ax h.chain

theorem below_eq_nil {s : SearchStream} (h : s.ax = s.adapters.length) : s.below = [] := by
  rw [below, h, List.drop_length]

/-- The end of the chain. -/
theorem failOnErr_nextInner_serves {s : SearchStream} (hstate : s.state = .active)
    (hrx : s.rx.isSome) (hlen : s.ax = s.adapters.length) :
    (∃ new, Serves (reader s.below) s (failOnErr s.nextInner) new) ∧
      Returns s (failOnErr s.nextInner) := by
  obtain ⟨⟨xs, hstop⟩, hstate'⟩ := nextInner_stop hrx
  obtain ⟨hchan, hres, hbelow⟩ := failOnErr_chan s.nextInner
  have hnil := below_eq_nil hlen
  have hnil' : s.nextInner.1.below = [] := by
    have hsame := (frame_nextInner s).below
    rw [hnil] at hsame
    exact List.forall₂_nil_left_iff.1 hsame
  constructor
  · rw [hnil]
    refine ⟨xs, ?_, ?_⟩
    · rw [hchan, hres]
      exact hstop.pull
    · rw [hbelow, hnil', hnil, List.flatMap_eq_nil_iff.2 fun x _ ↦
        Reader.refs_of_not_entriesOnly rfl x]
      rfl
  · refine returns_failOnErr ?_ fun _ _ ↦ hstate'.trans hstate
    rintro ⟨hzero, hne⟩
    exact hne (List.length_eq_zero_iff.1 (hlen.symm.trans hzero))

/-- What an adapter does around the loop of the adapters below it. -/
theorem adapter_serves {s₀ : SearchStream} {next : Next} {a : Adapter}
    (hnext : Inner (reader s₀.below) s₀ next) (hstate : s₀.state = .active) (hrx : s₀.rx.isSome)
    (hprep : Prepared (a :: s₀.below)) :
    ∃ new, Pull (reader (a :: s₀.below)) s₀.timeout s₀.chan new (a.next next s₀).2.1.chan
        (a.next next s₀).2.2 ∧
      collected ((a.next next s₀).1 :: (a.next next s₀).2.1.below) =
        collected (a :: s₀.below) ++ new.flatMap (reader (a :: s₀.below)).refs ∧
      ∀ o, (a.next next s₀).2.2 = .ok o → (a.next next s₀).2.1.state = .active := by
  have hs : Live s₀ s₀ := ⟨hstate, hrx, .refl s₀⟩
  cases a with
  | entriesOnly refs =>
    obtain ⟨new, h⟩ := entriesLoop_serves hnext (s₀.size + 1) refs hs (Nat.lt_succ_self _)
    refine ⟨new, h.pull, ?_, h.active⟩
    have hsame := (Frame.adapter hnext.frame (.entriesOnly refs) s₀).below.reader_eq
    rcases hrd : (reader s₀.below).entriesOnly with - | -
    · rw [collected, hsame, collected, if_neg (by simp [hrd]), if_neg (by simp [hrd])]
      exact h.refs hrd
    · have hreader : reader (.entriesOnly refs :: s₀.below) = reader s₀.below := by
        rw [reader, Adapter.reader, ← hrd]
      rw [collected, hsame, collected, if_pos hrd, if_pos hrd, hreader]
      exact h.collected
  | pagedResults pr =>
    have hpaged := reader_paged_of_not_hasPaged hprep.2
    obtain ⟨new, h⟩ := @nextLoop_serves _ _ s₀ pr hnext hpaged (s₀.size + 1) s₀ hs
      (Nat.lt_succ_self _)
    refine ⟨new, h.pull, ?_, h.active⟩
    rw [collected_cons rfl, collected_cons rfl]
    exact h.collected
  | passThrough =>
    obtain ⟨new, h⟩ := hnext.serves s₀ hs
    refine ⟨new, h.pull, ?_, fun o ↦ hnext.active s₀ o hs⟩
    rw [collected_cons rfl, collected_cons rfl]
    exact h.collected

/-- A call at the end of the chain. -/
theorem nextAt_of_end (depth : ℕ) {s : SearchStream} (hstate : s.state = .active)
    (hlen : s.ax = s.adapters.length) : nextAt (depth + 1) s = failOnErr s.nextInner := by
  rw [nextAt, nextWith, if_neg (by simp [hstate]), if_pos hlen]

/-- A call that is handed to an adapter. -/
theorem nextAt_of_adapter (depth : ℕ) {s : SearchStream} {a : Adapter} (hstate : s.state = .active)
    (hget : s.adapters[s.ax]? = some a) :
    nextAt (depth + 1) s =
      failOnErr (doneAtEnd (
        { (a.next (nextAt depth) { s with ax := s.ax + 1 }).2.1 with
          ax := (a.next (nextAt depth) { s with ax := s.ax + 1 }).2.1.ax - 1
          adapters := (a.next (nextAt depth) { s with ax := s.ax + 1 }).2.1.adapters.set s.ax
            (a.next (nextAt depth) { s with ax := s.ax + 1 }).1 },
        (a.next (nextAt depth) { s with ax := s.ax + 1 }).2.2)) := by
  have hlt : s.ax < s.adapters.length := (List.getElem?_eq_some_iff.1 hget).1
  rw [nextAt, nextWith, if_neg (by simp [hstate]), if_neg (Nat.ne_of_lt hlt), hget]

/-- **A chain is one loop.** Whatever adapters a call of `next` is handed to, what it does to the
channel is the loop of their reader, and the state is changed at the end only. -/
theorem nextAt_serves (depth : ℕ) {s : SearchStream} (hstate : s.state = .active)
    (hrx : s.rx.isSome) (hprep : Prepared s.below) (hdepth : s.ax + depth = s.adapters.length) :
    (∃ new, Serves (reader s.below) s (nextAt (depth + 1) s) new) ∧
      Returns s (nextAt (depth + 1) s) := by
  induction depth generalizing s with
  | zero =>
    have hlen : s.ax = s.adapters.length := hdepth
    rw [nextAt_of_end 0 hstate hlen]
    exact failOnErr_nextInner_serves hstate hrx hlen
  | succ depth ih =>
    have hlt : s.ax < s.adapters.length := by omega
    have hbelow : s.below = s.adapters[s.ax] :: ({ s with ax := s.ax + 1 } : SearchStream).below :=
      List.drop_eq_getElem_cons hlt
    rw [hbelow] at hprep
    -- By induction the adapters below are one loop, whatever the stream has become in the meantime.
    have hinner : Inner (reader ({ s with ax := s.ax + 1 } : SearchStream).below)
        { s with ax := s.ax + 1 } (nextAt (depth + 1)) := by
      have hcall : ∀ t, Live { s with ax := s.ax + 1 } t →
          (∃ new, Serves (reader t.below) t (nextAt (depth + 1) t) new) ∧
            Returns t (nextAt (depth + 1) t) := by
        intro t ht
        refine ih ht.state ht.rx (hprep.tail.sameChain ht.frame.below) ?_
        have hax := ht.frame.ax
        have hlen := ht.frame.chain.length_eq
        dsimp only at hax hlen
        omega
      constructor
      · intro t ht
        rw [← ht.frame.below.reader_eq]
        exact (hcall t ht).1
      · exact fun t ↦ frame_nextAt (depth + 1) t
      · intro t o ht ho
        -- `ax` is not 0 down here, so the inner call does not set the state `Done`.
        rw [(hcall t ht).2.ok o ho, if_neg]
        rintro ⟨-, hzero, -⟩
        have hax := ht.frame.ax
        dsimp only at hax
        omega
    obtain ⟨new, hpull, hcollected, hactive⟩ := adapter_serves (a := s.adapters[s.ax]) hinner hstate
      hrx hprep
    have hframe := Frame.adapter (frame_nextAt (depth + 1)) s.adapters[s.ax]
      { s with ax := s.ax + 1 }
    rw [nextAt_of_adapter (depth + 1) hstate (List.getElem?_eq_getElem hlt)]
    rcases hcall : Adapter.next (nextAt (depth + 1)) s.adapters[s.ax] { s with ax := s.ax + 1 }
      with ⟨a, t, res⟩
    rw [hcall] at hpull hcollected hactive hframe
    have hax : t.ax - 1 = s.ax := Nat.sub_eq_of_eq_add hframe.ax
    -- The adapter goes back to its place, in front of those below it.
    have hset : (t.adapters.set s.ax a).drop (t.ax - 1) = a :: t.below := by
      have hlen : s.ax < (t.adapters.set s.ax a).length := by
        have hlen := hframe.chain.length_eq
        dsimp only at hlen
        rw [List.length_set]
        omega
      rw [hax, List.drop_eq_getElem_cons hlen, List.getElem_set_self, List.drop_set_of_lt
        (Nat.lt_succ_self _), below, hframe.ax]
    refine ⟨⟨new, Serves.atEnd ⟨?_, ?_⟩⟩, returns_atEnd hax (List.ne_nil_of_length_pos ?_) hactive⟩
    · rw [hbelow]
      exact hpull
    · rw [below, hset, hbelow]
      exact hcollected
    · omega

/-- A call from outside. -/
theorem next_serves {s : SearchStream} (hstate : s.state = .active) (hrx : s.rx.isSome)
    (hprep : Prepared s.adapters) (hax : s.ax = 0) :
    (∃ new, Serves (reader s.adapters) s s.next new) ∧ Returns s s.next := by
  have hbelow : s.below = s.adapters := by rw [below, hax, List.drop_zero]
  have h := @nextAt_serves s.adapters.length s hstate hrx (hbelow.symm ▸ hprep)
    (by rw [hax, Nat.zero_add])
  rw [hbelow] at h
  exact h

end SearchStream

end Ldap3
