import Ldap3.Search.Stream

/-!
# What the calls of a stream leave alone

The rules for the loops of the adapters, and the parts of a stream that `next` does not touch. A
call comes back to the position from which it was made, and the adapters of the chain stay what
they are: `EntriesOnly` collects referrals, the others do not change (`frame_nextAt`). A property
of the channel side of a stream is kept by `next` if receiving an item and sending the request of
a page keep it (`OnChannel.nextAt`).
-/

namespace Ldap3

/-! ### Loops -/

section Loops

variable {P : SearchStream → Prop} {next : Next}

/-- The loop of `EntriesOnly` does nothing to the stream but call `next`. -/
theorem entriesLoop_preserves (hnext : ∀ s, P s → P (next s).1) (fuel : ℕ) (refs : List String)
    {s : SearchStream} (hs : P s) : P (entriesLoop next fuel refs s).2.1 := by
  induction fuel generalizing refs s with
  | zero => exact hs
  | succ fuel ih =>
    have hs₁ := hnext s hs
    rw [entriesLoop]
    rcases hcall : next s with ⟨s₁, e | - | re⟩ <;> rw [hcall] at hs₁
    · exact hs₁
    · exact hs₁
    · dsimp only
      split
      · exact ih refs hs₁
      · split
        · split
          · exact ih _ hs₁
          · exact hs₁
        · exact hs₁

/-- The loop of `PagedResults` calls `next`, changes the stored result and turns pages. -/
theorem nextLoop_preserves {pr : PagedResults} (hnext : ∀ s, P s → P (next s).1)
    (hres : ∀ s res, P s → P { s with res := res })
    (hpage : ∀ cookie s, P s → P (pr.nextPage cookie s).1) (fuel : ℕ) {s : SearchStream}
    (hs : P s) : P (pr.nextLoop next fuel s).1 := by
  induction fuel generalizing s with
  | zero => exact hs
  | succ fuel ih =>
    have hs₁ := hnext s hs
    rw [PagedResults.nextLoop]
    rcases hcall : next s with ⟨s₁, e | - | re⟩ <;> rw [hcall] at hs₁
    · exact hs₁
    · dsimp only
      split
      · exact hs₁
      · split
        · exact hs₁
        · split
          · exact hs₁
          · rename_i paged _
            split
            · exact hres _ _ hs₁
            · have hs₂ := hpage paged.cookie s₁ hs₁
              split
              · rename_i heq
                rwa [heq] at hs₂
              · rename_i heq
                rw [heq] at hs₂
                exact ih hs₂
    · exact hs₁

/-- An adapter does to the stream what its loop does. -/
theorem Adapter.next_preserves (a : Adapter) (hnext : ∀ s, P s → P (next s).1)
    (hres : ∀ s res, P s → P { s with res := res })
    (hpage : ∀ pr, a = .pagedResults pr → ∀ cookie s, P s → P (pr.nextPage cookie s).1)
    {s : SearchStream} (hs : P s) : P (a.next next s).2.1 := by
  cases a with
  | entriesOnly refs => exact entriesLoop_preserves hnext (s.size + 1) refs hs
  | pagedResults pr => exact nextLoop_preserves hnext hres (hpage pr rfl) (s.size + 1) hs
  | passThrough => exact hnext s hs

end Loops

/-! ### The chain -/

/-- An adapter after some calls: the referrals of `EntriesOnly` may have changed. -/
def Adapter.Same : Adapter → Adapter → Prop
  | .entriesOnly _, .entriesOnly _ => True
  | .pagedResults pr, .pagedResults pr' => pr = pr'
  | .passThrough, .passThrough => True
  | _, _ => False

theorem Adapter.Same.refl (a : Adapter) : a.Same a := by
  cases a <;> simp [Adapter.Same]

theorem Adapter.same_next (next : Next) (a : Adapter) (s : SearchStream) :
    a.Same (a.next next s).1 := by
  cases a <;> simp [Adapter.next, Adapter.Same]

theorem Adapter.Same.trans {a b c : Adapter} (h : a.Same b) (h' : b.Same c) : a.Same c := by
  cases a <;> cases b <;> cases c <;> simp_all [Adapter.Same]

/-- `PagedResults` stays what it is. -/
theorem Adapter.Same.eq_pagedResults {pr : PagedResults} {a : Adapter}
    (h : (Adapter.pagedResults pr).Same a) : a = .pagedResults pr := by
  cases a with
  | pagedResults pr' => rw [show pr = pr' from h]
  | entriesOnly refs => exact h.elim
  | passThrough => exact h.elim

theorem Adapter.Same.exists_entriesOnly {refs : List String} {a : Adapter}
    (h : (Adapter.entriesOnly refs).Same a) : ∃ refs', a = .entriesOnly refs' := by
  cases a with
  | entriesOnly refs' => exact ⟨refs', rfl⟩
  | pagedResults pr => exact h.elim
  | passThrough => exact h.elim

/-- The chain of a stream after some calls. -/
abbrev SameChain (chain chain' : List Adapter) : Prop :=
  List.Forall₂ Adapter.Same chain chain'

theorem SameChain.refl (chain : List Adapter) : SameChain chain chain :=
  List.forall₂_same.2 fun a _ ↦ .refl a

theorem SameChain.trans {chain chain' chain'' : List Adapter} (h : SameChain chain chain')
    (h' : SameChain chain' chain'') : SameChain chain chain'' := by
  induction h generalizing chain'' with
  | nil => exact h'
  | cons ha _ ih =>
    obtain ⟨c, cs, hc, hcs, rfl⟩ := List.forall₂_cons_left_iff.1 h'
    exact .cons (ha.trans hc) (ih hcs)

/-- What `PagedResults` saved does not change. -/
theorem SameChain.mem_of_paged {chain chain' : List Adapter} {pr : PagedResults}
    (h : SameChain chain chain') (hpr : .pagedResults pr ∈ chain') :
    .pagedResults pr ∈ chain := by
  induction h with
  | nil => exact hpr
  | @cons a b as bs hab _ ih =>
    rcases List.mem_cons.1 hpr with rfl | hpr
    · cases a with
      | pagedResults pr' => exact (show pr' = pr from hab) ▸ List.mem_cons_self
      | entriesOnly refs => exact hab.elim
      | passThrough => exact hab.elim
    · exact List.mem_cons_of_mem a (ih hpr)

/-- An adapter is put back to its place. -/
theorem SameChain.set {chain chain' : List Adapter} {i : ℕ} {a a' : Adapter}
    (h : SameChain chain chain') (hi : chain[i]? = some a) (ha : a.Same a') :
    SameChain chain (chain'.set i a') := by
  induction h generalizing i with
  | nil => exact .nil
  | cons hb hbs ih =>
    rcases i with - | i
    · obtain rfl := Option.some.inj hi
      exact .cons ha hbs
    · exact .cons hb (ih hi)

namespace SearchStream

/-- What no call of `next` changes. -/
structure Frame (s s' : SearchStream) : Prop where
  ax : s'.ax = s.ax
  timeout : s'.timeout = s.timeout
  chain : SameChain s.adapters s'.adapters

theorem Frame.refl (s : SearchStream) : Frame s s :=
  ⟨rfl, rfl, .refl _⟩

theorem Frame.trans {s s' s'' : SearchStream} (h : Frame s s') (h' : Frame s' s'') :
    Frame s s'' :=
  ⟨h'.ax.trans h.ax, h'.timeout.trans h.timeout, h.chain.trans h'.chain⟩

theorem frame_failOnErr {α : Type} {s : SearchStream} {x : SearchStream × Except Failure α}
    (h : Frame s x.1) : Frame s (failOnErr x).1 := by
  rw [failOnErr]
  split
  · exact ⟨h.ax, h.timeout, h.chain⟩
  · exact h

theorem frame_doneAtEnd {s : SearchStream}
    {x : SearchStream × Except Failure (Option ResultEntry)} (h : Frame s x.1) :
    Frame s (doneAtEnd x).1 := by
  rw [doneAtEnd]
  split
  · split
    · exact ⟨h.ax, h.timeout, h.chain⟩
    · exact h
  · exact h

theorem frame_nextInner (s : SearchStream) : Frame s s.nextInner.1 := by
  rw [nextInner]
  split
  · exact .refl s
  · dsimp only
    split
    · exact ⟨rfl, rfl, .refl _⟩
    · exact ⟨rfl, rfl, .refl _⟩
    · split <;> exact ⟨rfl, rfl, .refl _⟩

theorem frame_nextPage (pr : PagedResults) (cookie : List UInt8) (s : SearchStream) :
    Frame s (pr.nextPage cookie s).1 := by
  rw [PagedResults.nextPage]
  split
  · split
    · dsimp only
      split <;> exact ⟨rfl, rfl, .refl _⟩
    · exact .refl s
  · exact .refl s

/-- An adapter does to the stream what the calls below it do. -/
theorem Frame.adapter {next : Next} (hnext : ∀ s, Frame s (next s).1) (a : Adapter)
    (s : SearchStream) : Frame s (a.next next s).2.1 :=
  a.next_preserves (fun t ht ↦ ht.trans (hnext t)) (fun _ _ ht ↦ ⟨ht.ax, ht.timeout, ht.chain⟩)
    (fun pr _ cookie t ht ↦ ht.trans (frame_nextPage pr cookie t)) (.refl s)

/-- **A call of `next` comes back to its place in the chain.** -/
theorem frame_nextAt (depth : ℕ) (s : SearchStream) : Frame s (nextAt depth s).1 := by
  induction depth generalizing s with
  | zero => exact .refl s
  | succ depth ih =>
    rw [nextAt, nextWith]
    split
    · exact .refl s
    split
    · exact frame_failOnErr (frame_nextInner s)
    split
    · exact .refl s
    · rename_i a hget
      have h := Frame.adapter ih a { s with ax := s.ax + 1 }
      refine frame_failOnErr (frame_doneAtEnd ⟨?_, h.timeout, ?_⟩)
      · exact Nat.sub_eq_of_eq_add h.ax
      · exact h.chain.set hget (Adapter.same_next _ a _)

/-! ### The channel side -/

/-- A property of the channel side of a stream that receiving and turning a page keep. -/
structure OnChannel (chain : List Adapter) (P : SearchStream → Prop) : Prop where
  /-- It does not depend on the rest. -/
  congr : ∀ s s', s'.ldap = s.ldap → s'.rx = s.rx → s'.timeout = s.timeout → s'.net = s.net →
    P s → P s'
  inner : ∀ s, P s → P s.nextInner.1
  page : ∀ pr cookie s, .pagedResults pr ∈ chain → P s → P (pr.nextPage cookie s).1

namespace OnChannel

variable {chain : List Adapter} {P : SearchStream → Prop}

theorem failOnErr (h : OnChannel chain P) {α : Type} {x : SearchStream × Except Failure α}
    (hx : P x.1) : P (failOnErr x).1 := by
  rw [SearchStream.failOnErr]
  split
  · exact h.congr x.1 _ rfl rfl rfl rfl hx
  · exact hx

theorem doneAtEnd (h : OnChannel chain P)
    {x : SearchStream × Except Failure (Option ResultEntry)} (hx : P x.1) :
    P (doneAtEnd x).1 := by
  rw [SearchStream.doneAtEnd]
  split
  · split
    · exact h.congr x.1 _ rfl rfl rfl rfl hx
    · exact hx
  · exact hx

/-- **A property of the channel side is kept by `next`.** -/
theorem nextAt (h : OnChannel chain P) (depth : ℕ) {s : SearchStream}
    (hchain : SameChain chain s.adapters) (hs : P s) : P (nextAt depth s).1 := by
  induction depth generalizing s with
  | zero => exact hs
  | succ depth ih =>
    rw [SearchStream.nextAt, nextWith]
    split
    · exact hs
    split
    · exact h.failOnErr (h.inner s hs)
    split
    · exact hs
    · rename_i a hget
      -- Through the loops the chain has to be carried along.
      have hkeep : ∀ t, SameChain chain t.adapters ∧ P t →
          SameChain chain (SearchStream.nextAt depth t).1.adapters ∧
            P (SearchStream.nextAt depth t).1 :=
        fun t ht ↦ ⟨ht.1.trans (frame_nextAt depth t).chain, ih ht.1 ht.2⟩
      have hs₁ : SameChain chain ({ s with ax := s.ax + 1 } : SearchStream).adapters ∧
          P { s with ax := s.ax + 1 } := ⟨hchain, h.congr s _ rfl rfl rfl rfl hs⟩
      have hmem : ∀ pr, a = .pagedResults pr → .pagedResults pr ∈ chain := by
        rintro pr rfl
        exact hchain.mem_of_paged (List.mem_of_getElem? hget)
      have hstep := a.next_preserves hkeep (fun t res ht ↦
          ⟨ht.1, h.congr t { t with res := res } rfl rfl rfl rfl ht.2⟩)
        (fun pr hpr cookie t ht ↦ ⟨ht.1.trans (frame_nextPage pr cookie t).chain,
          h.page pr cookie t (hmem pr hpr) ht.2⟩) hs₁
      exact h.failOnErr (h.doneAtEnd
        (h.congr (a.next (SearchStream.nextAt depth) { s with ax := s.ax + 1 }).2.1 _ rfl rfl rfl
          rfl hstep.2))

end OnChannel

/-! ### The log of requests -/

@[simp] theorem sent_nextInner (s : SearchStream) : s.nextInner.1.net.sent = s.net.sent := by
  rw [nextInner]
  split
  · rfl
  · dsimp only
    split
    · rfl
    · rfl
    · split <;> rfl

/-- Without `PagedResults` in the chain `next` sends nothing. -/
theorem onChannel_sent {chain : List Adapter} (h : ∀ pr, .pagedResults pr ∉ chain)
    (sent : List Sent) : OnChannel chain fun s ↦ s.net.sent = sent where
  congr s s' _ _ _ hnet hs := by rwa [hnet]
  inner s hs := by rwa [sent_nextInner]
  page pr _ _ hpr := absurd hpr (h pr)

theorem sent_next {s : SearchStream} (h : ∀ pr, .pagedResults pr ∉ s.adapters) :
    s.next.1.net.sent = s.net.sent :=
  (onChannel_sent h s.net.sent).nextAt _ (.refl _) rfl

theorem paged_notMem_next {s : SearchStream} (h : ∀ pr, .pagedResults pr ∉ s.adapters) :
    ∀ pr, .pagedResults pr ∉ s.next.1.adapters :=
  fun pr hpr ↦ h pr ((frame_nextAt _ s).chain.mem_of_paged hpr)

theorem sent_readAll (fuel : ℕ) {s : SearchStream} (h : ∀ pr, .pagedResults pr ∉ s.adapters) :
    (readAll fuel s).1.net.sent = s.net.sent := by
  induction fuel generalizing s with
  | zero => rfl
  | succ fuel ih =>
    have hsent := sent_next h
    have hmem := paged_notMem_next h
    rw [readAll]
    rcases hnext : s.next with ⟨s₁, e | - | entry⟩ <;> rw [hnext] at hsent hmem
    · exact hsent
    · exact hsent
    · exact (ih hmem).trans hsent

/-- `finish` is a matter of the stream alone. -/
theorem net_finishAt (depth : ℕ) (s : SearchStream) : (finishAt depth s).1.net = s.net := by
  induction depth generalizing s with
  | zero => rfl
  | succ depth ih =>
    rw [finishAt, finishWith]
    split
    · rfl
    split
    · rfl
    · rename_i a _
      have h := ih { s with ax := s.ax + 1 }
      cases a <;> exact h

end SearchStream

/-! ### `finish` -/

/-- The adapters that a call made now is handed to. -/
def SearchStream.below (s : SearchStream) : List Adapter :=
  s.adapters.drop s.ax

/-- The referrals an adapter has collected. -/
def Adapter.refs : Adapter → List String
  | .entriesOnly refs => refs
  | _ => []

/-- An adapter after `finish`. -/
def Adapter.clear : Adapter → Adapter
  | .entriesOnly _ => .entriesOnly []
  | a => a

theorem Adapter.same_clear (a : Adapter) : a.Same a.clear := by
  cases a <;> simp [Adapter.clear, Adapter.Same]

theorem Adapter.finish_eq (finish : Finish) (a : Adapter) (s : SearchStream) :
    a.finish finish s =
      (a.clear, (finish s).1, { (finish s).2 with refs := (finish s).2.refs ++ a.refs }) := by
  cases a <;> simp [Adapter.finish, Adapter.clear, Adapter.refs]

namespace SearchStream

theorem finishInner_eq {s : SearchStream} (h : s.below = []) :
    s.finishInner =
      ({ s with
          state := .closed
          rx := none
          res := none
          adapters := s.adapters.take s.ax ++ s.below.map Adapter.clear },
        { s.res.getD cancelled with
          refs := (s.res.getD cancelled).refs ++ s.below.reverse.flatMap Adapter.refs }) := by
  have htake : s.adapters.take s.ax ++ [] = s.adapters := by
    rw [← h, below, List.take_append_drop]
  simp [finishInner, h, htake]

/-- **`finish`** closes the stream and returns the stored result, with the referrals that the
adapters have collected. -/
theorem finishAt_eq (depth : ℕ) {s : SearchStream} (hstate : s.state ≠ .closed)
    (hdepth : s.adapters.length ≤ s.ax + depth) :
    finishAt depth s =
      ({ s with
          state := .closed
          rx := none
          res := none
          adapters := s.adapters.take s.ax ++ s.below.map Adapter.clear },
        { s.res.getD cancelled with
          refs := (s.res.getD cancelled).refs ++ s.below.reverse.flatMap Adapter.refs }) := by
  induction depth generalizing s with
  | zero => exact finishInner_eq (List.drop_of_length_le hdepth)
  | succ depth ih =>
    rw [finishAt, finishWith, if_neg hstate]
    rcases Nat.lt_or_ge s.ax s.adapters.length with hlt | hge
    · have hbelow : s.below =
          s.adapters[s.ax] :: ({ s with ax := s.ax + 1 } : SearchStream).below :=
        List.drop_eq_getElem_cons hlt
      have hdeep := @ih { s with ax := s.ax + 1 } hstate (by dsimp only; omega)
      rw [List.getElem?_eq_getElem hlt]
      dsimp only
      have hset : (s.adapters.take (s.ax + 1) ++
          ({ s with ax := s.ax + 1 } : SearchStream).below.map Adapter.clear).set s.ax
            s.adapters[s.ax].clear =
          s.adapters.take s.ax ++ s.below.map Adapter.clear := by
        rw [hbelow, List.take_succ_eq_append_getElem hlt, List.append_assoc,
          List.set_append_right _ _ (by simp [Nat.le_of_lt hlt])]
        simp [Nat.min_eq_left (Nat.le_of_lt hlt)]
      rw [Adapter.finish_eq, hdeep]
      dsimp only
      rw [hset, Nat.add_sub_cancel, hbelow]
      simp [List.flatMap_append]
    · rw [List.getElem?_eq_none hge]
      exact finishInner_eq (List.drop_of_length_le hge)

end SearchStream

end Ldap3
