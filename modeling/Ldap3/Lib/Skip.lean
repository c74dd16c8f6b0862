import Mathlib.Data.List.Basic

/-!
# Loops that skip elements

A loop over a list whose body either fails on an element, always in the same way, or goes on, and
which leaves the state alone at the elements that it skips.

The first element on which the body fails decides whether and how the loop fails
(`List.foldlM_eq_error`, `List.exists_foldlM_eq_ok`). Leaving out elements to skip changes nothing
if it does not change the first failure (`List.Omits.foldlM`). Where the body can fail on an
element to skip, in one way only, this is so in two cases (`List.SkipSafe`): it does not fail on
one in front of the first failure on another element, or that failure is the same
(`List.skipSafe_iff`).
-/

namespace List

variable {α σ ε : Type}

/-- The second list is the first without some of the elements to skip. -/
inductive Omits (skip : α → Bool) : List α → List α → Prop
  | nil : Omits skip [] []
  | keep {a : α} {l l' : List α} : Omits skip l l' → Omits skip (a :: l) (a :: l')
  | drop {a : α} {l l' : List α} : skip a = true → Omits skip l l' → Omits skip (a :: l) l'

namespace Omits

variable {skip : α → Bool} {l l' : List α}

theorem mem {a : α} (h : Omits skip l l') (ha : a ∈ l') : a ∈ l := by
  induction h with
  | nil => exact ha
  | keep _ ih =>
    rcases mem_cons.1 ha with rfl | ha
    · exact mem_cons_self
    · exact mem_cons_of_mem _ (ih ha)
  | drop _ _ ih => exact mem_cons_of_mem _ (ih ha)

theorem filter (skip : α → Bool) (l : List α) : Omits skip l (l.filter fun a ↦ !skip a) := by
  induction l with
  | nil => exact .nil
  | cons a l ih =>
    rw [filter_cons]
    split
    · exact .keep ih
    · rename_i ha
      exact .drop (by simpa using ha) ih

end Omits

/-! ### The first failure -/

/-- The body fails on the element as `err` says, whatever the state. -/
structure FailsBy (f : σ → α → Except ε σ) (err : α → Option ε) (a : α) : Prop where
  error : ∀ e, err a = some e → ∀ s, f s a = .error e
  ok : err a = none → ∀ s, ∃ s', f s a = .ok s'

section

variable {f : σ → α → Except ε σ} {err : α → Option ε} {l l' : List α}

theorem FailsBy.of_error {a : α} {e : ε} (he : err a = some e) (h : ∀ s, f s a = .error e) :
    FailsBy f err a where
  error e' he' s := by
    obtain rfl := Option.some.inj (he.symm.trans he')
    exact h s
  ok hnone := absurd (he.symm.trans hnone) (Option.some_ne_none e)

theorem FailsBy.of_ok {a : α} (hnone : err a = none) (h : ∀ s, ∃ s', f s a = .ok s') :
    FailsBy f err a where
  error e he := absurd (he.symm.trans hnone) (Option.some_ne_none e)
  ok _ := h

theorem foldlM_eq_error (hf : ∀ a ∈ l, FailsBy f err a) {e : ε} (h : l.findSome? err = some e)
    (s : σ) : l.foldlM f s = .error e := by
  induction l generalizing s with
  | nil => cases h
  | cons a l ih =>
    obtain ⟨ha, hl⟩ := forall_mem_cons.1 hf
    rw [findSome?_cons] at h
    rw [foldlM_cons]
    cases herr : err a with
    | some e' =>
      rw [herr] at h
      rw [ha.error e' herr s]
      exact congrArg Except.error (Option.some.inj h)
    | none =>
      rw [herr] at h
      obtain ⟨s', hstep⟩ := ha.ok herr s
      rw [hstep]
      exact ih hl h s'

theorem exists_foldlM_eq_ok (hf : ∀ a ∈ l, FailsBy f err a) (h : l.findSome? err = none) (s : σ) :
    ∃ s', l.foldlM f s = .ok s' := by
  induction l generalizing s with
  | nil => exact ⟨s, rfl⟩
  | cons a l ih =>
    obtain ⟨ha, hl⟩ := forall_mem_cons.1 hf
    obtain ⟨herr, hrest⟩ := forall_mem_cons.1 (findSome?_eq_none_iff.1 h)
    obtain ⟨s', hstep⟩ := ha.ok herr s
    rw [foldlM_cons, hstep]
    exact ih hl (findSome?_eq_none_iff.2 hrest) s'

/-- The failure of the loop tells the first failure of the body. -/
theorem findSome?_eq_some_iff_foldlM (hf : ∀ a ∈ l, FailsBy f err a) {e : ε} (s : σ) :
    l.findSome? err = some e ↔ l.foldlM f s = .error e := by
  refine ⟨fun h ↦ foldlM_eq_error hf h s, fun h ↦ ?_⟩
  cases herr : l.findSome? err with
  | some e' =>
    rw [foldlM_eq_error hf herr s] at h
    exact congrArg some (Except.error.inj h)
  | none =>
    obtain ⟨s', hok⟩ := exists_foldlM_eq_ok hf herr s
    rw [hok] at h
    cases h

variable {skip : α → Bool}

/-- **Leaving out elements to skip**, if the first failure stays. -/
theorem Omits.foldlM (h : Omits skip l l') (hf : ∀ a ∈ l, FailsBy f err a)
    (hskip : ∀ a ∈ l, skip a = true → err a = none → ∀ s, f s a = .ok s)
    (herr : l'.findSome? err = l.findSome? err) (s : σ) : l'.foldlM f s = l.foldlM f s := by
  cases hfirst : l.findSome? err with
  | some e =>
    rw [foldlM_eq_error hf hfirst s,
      foldlM_eq_error (fun a ha ↦ hf a (h.mem ha)) (herr.trans hfirst) s]
  | none =>
    have hnone := findSome?_eq_none_iff.1 hfirst
    clear hfirst herr
    induction h generalizing s with
    | nil => rfl
    | @keep a l l' h ih =>
      obtain ⟨s', hstep⟩ := (hf a mem_cons_self).ok (hnone a mem_cons_self) s
      rw [foldlM_cons, foldlM_cons, hstep]
      exact ih (forall_mem_cons.1 hf).2 (forall_mem_cons.1 hskip).2 s' (forall_mem_cons.1 hnone).2
    | @drop a l l' ha h ih =>
      rw [foldlM_cons, hskip a mem_cons_self ha (hnone a mem_cons_self) s]
      exact ih (forall_mem_cons.1 hf).2 (forall_mem_cons.1 hskip).2 s (forall_mem_cons.1 hnone).2

end

/-! ### Failures on elements to skip -/

section

variable (skip : α → Bool) (err : α → Option ε)

/-- The element is not one to skip, and the body fails on it. -/
def rejects (a : α) : Bool :=
  !skip a && (err a).isSome

/-- The first failure on an element that is not to skip is the one with `e`, or the body fails on
nothing in front of it. -/
def SkipSafe (e : ε) (l : List α) : Prop :=
  (∃ a, l.find? (rejects skip err) = some a ∧ err a = some e) ∨
    ∀ a ∈ l.takeWhile fun a ↦ !rejects skip err a, err a = none

variable {skip err} {e : ε} {l l' : List α} {a : α}

theorem rejects_of_skip (ha : skip a = true) : rejects skip err a = false := by
  rw [rejects, ha]
  rfl

theorem rejects_of_eq_none (ha : err a = none) : rejects skip err a = false := by
  rw [rejects, ha, Option.isSome_none, Bool.and_false]

theorem find?_rejects_cons (ha : rejects skip err a = false) :
    (a :: l).find? (rejects skip err) = l.find? (rejects skip err) :=
  find?_cons_of_neg (by rw [ha]; exact Bool.false_ne_true)

theorem takeWhile_rejects_cons (ha : rejects skip err a = false) :
    ((a :: l).takeWhile fun a ↦ !rejects skip err a) =
      a :: l.takeWhile fun a ↦ !rejects skip err a :=
  takeWhile_cons_of_pos (by rw [ha]; rfl)

/-- An element without a failure does not matter. -/
theorem skipSafe_cons_of_eq_none (ha : err a = none) :
    SkipSafe skip err e (a :: l) ↔ SkipSafe skip err e l := by
  have hrej : rejects skip err a = false := rejects_of_eq_none ha
  rw [SkipSafe, SkipSafe, find?_rejects_cons hrej, takeWhile_rejects_cons hrej, forall_mem_cons,
    and_iff_right ha]

/-- The first failure, without the elements to skip. -/
theorem findSome?_filter_skip (l : List α) :
    (l.filter fun a ↦ !skip a).findSome? err = (l.find? (rejects skip err)).bind err := by
  induction l with
  | nil => rfl
  | cons a l ih =>
    cases ha : skip a with
    | true =>
      rw [filter_cons_of_neg (by rw [ha]; exact Bool.false_ne_true), ih,
        find?_rejects_cons (rejects_of_skip ha)]
    | false =>
      rw [filter_cons_of_pos (by rw [ha]; rfl), findSome?_cons]
      cases herr : err a with
      | some e' =>
        rw [find?_cons_of_pos (by rw [rejects, ha, herr]; rfl), Option.bind_some, herr]
      | none =>
        rw [find?_rejects_cons (rejects_of_eq_none herr)]
        exact ih

theorem Omits.find?_rejects (h : Omits skip l l') :
    l'.find? (rejects skip err) = l.find? (rejects skip err) := by
  induction h with
  | nil => rfl
  | keep _ ih => rw [find?_cons, find?_cons, ih]
  | drop ha _ ih =>
    rw [ih, find?_rejects_cons (rejects_of_skip ha)]

/-- The one way to fail on an element to skip comes first if what follows fails like that, too. -/
theorem findSome?_of_find?_rejects (hskip : ∀ a ∈ l, skip a = true → err a = none ∨ err a = some e)
    (hl : l.find? (rejects skip err) = some a) (ha : err a = some e) :
    l.findSome? err = some e := by
  induction l with
  | nil => cases hl
  | cons b l ih =>
    obtain ⟨hb, hskip⟩ := forall_mem_cons.1 hskip
    rw [findSome?_cons]
    cases herr : err b with
    | none =>
      rw [find?_rejects_cons (rejects_of_eq_none herr)] at hl
      exact ih hskip hl
    | some e' =>
      cases hsb : skip b with
      | true =>
        rcases hb hsb with hb | hb
        · rw [herr] at hb
          cases hb
        · exact herr.symm.trans hb
      | false =>
        rw [find?_cons_of_pos (by rw [rejects, hsb, herr]; rfl)] at hl
        obtain rfl := Option.some.inj hl
        exact herr.symm.trans ha

/-- Leaving out elements to skip keeps the first failure. -/
theorem Omits.findSome? (h : Omits skip l l')
    (hskip : ∀ a ∈ l, skip a = true → err a = none ∨ err a = some e)
    (hsafe : SkipSafe skip err e l) : l'.findSome? err = l.findSome? err := by
  rcases hsafe with ⟨a, hl, ha⟩ | hsafe
  · rw [findSome?_of_find?_rejects hskip hl ha,
      findSome?_of_find?_rejects (fun b hb ↦ hskip b (h.mem hb)) (h.find?_rejects.trans hl) ha]
  · induction h with
    | nil => rfl
    | @keep a l l' _ ih =>
      rw [findSome?_cons, findSome?_cons]
      cases herr : err a with
      | some e' => rfl
      | none =>
        rw [takeWhile_rejects_cons (rejects_of_eq_none herr)] at hsafe
        exact ih (forall_mem_cons.1 hskip).2 (forall_mem_cons.1 hsafe).2
    | @drop a l l' ha _ ih =>
      rw [takeWhile_rejects_cons (rejects_of_skip ha)] at hsafe
      obtain ⟨herr, hsafe⟩ := forall_mem_cons.1 hsafe
      rw [findSome?_cons, herr]
      exact ih (forall_mem_cons.1 hskip).2 hsafe

/-- Without all elements to skip, the first failure stays in these cases only. -/
theorem skipSafe_of_findSome? (hskip : ∀ a ∈ l, skip a = true → err a = none ∨ err a = some e)
    (h : (l.filter fun a ↦ !skip a).findSome? err = l.findSome? err) : SkipSafe skip err e l := by
  induction l with
  | nil => exact Or.inr fun a ha ↦ absurd ha not_mem_nil
  | cons a l ih =>
    obtain ⟨ha, hskip⟩ := forall_mem_cons.1 hskip
    rw [findSome?_cons] at h
    cases herr : err a with
    | none =>
      rw [herr] at h
      rw [skipSafe_cons_of_eq_none herr]
      refine ih hskip (Eq.trans ?_ h)
      rw [filter_cons]
      split
      · rw [findSome?_cons, herr]
      · rfl
    | some e' =>
      cases hsa : skip a with
      | false =>
        have hrej : rejects skip err a = true := by rw [rejects, hsa, herr]; rfl
        refine Or.inr fun b hb ↦ ?_
        rw [takeWhile_cons_of_neg (by rw [hrej]; exact Bool.false_ne_true)] at hb
        exact absurd hb not_mem_nil
      | true =>
        -- Every failure on an element to skip is this one.
        obtain rfl : e' = e := by
          rcases ha hsa with ha | ha
          · rw [herr] at ha
            cases ha
          · exact Option.some.inj (herr.symm.trans ha)
        rw [herr, findSome?_filter_skip] at h
        obtain ⟨b, hb, herrb⟩ := Option.bind_eq_some_iff.1 h
        exact Or.inl ⟨b, hb, herrb⟩

/-- **When elements to skip can be left out**: any of them, without a change of the first
failure. -/
theorem skipSafe_iff (hskip : ∀ a ∈ l, skip a = true → err a = none ∨ err a = some e) :
    SkipSafe skip err e l ↔ ∀ l', Omits skip l l' → l'.findSome? err = l.findSome? err :=
  ⟨fun hsafe _ h ↦ h.findSome? hskip hsafe,
    fun h ↦ skipSafe_of_findSome? hskip (h _ (.filter skip l))⟩

end

end List
