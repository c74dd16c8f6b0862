import Mathlib.Data.List.Basic

/-!
# Windows of a log

The part of an event log between an opening and a closing event: `window opens closes log` is
what follows the first opening event, up to and including the first closing event after that.

Logs grow at the end. `window_concat` and `isOpen_concat` say what one more event does: it is in
the window exactly if the window was open before it, and the window stays open unless it closes
it. These two are the induction step of any statement about what happened in a window.
-/

namespace Window

variable {α ε : Type}

/-- Up to and including the first element that satisfies `p`. -/
def upto (p : ε → Bool) : List ε → List ε
  | [] => []
  | e :: log => if p e then [e] else e :: upto p log

/-- What follows the first element that satisfies `p`. -/
def after (p : ε → Bool) : List ε → List ε
  | [] => []
  | e :: log => if p e then log else after p log

def window (opens closes : ε → Bool) (log : List ε) : List ε :=
  upto closes (after opens log)

/-- The window was opened and not closed since. -/
def IsOpen (opens closes : ε → Bool) (log : List ε) : Prop :=
  (∃ e ∈ log, opens e) ∧ ∀ e ∈ after opens log, ¬closes e

variable {p opens closes : ε → Bool} {log : List ε} {e : ε}

theorem upto_eq_self (h : ∀ e ∈ log, ¬p e) : upto p log = log := by
  induction log with
  | nil => rfl
  | cons e log ih =>
    rw [upto, if_neg (h e List.mem_cons_self), ih fun e' he' ↦ h e' (List.mem_cons_of_mem _ he')]

theorem upto_concat : upto p (log ++ [e]) = if ∀ e ∈ log, ¬p e then log ++ [e] else upto p log := by
  induction log with
  | nil => simp [upto]
  | cons e' log ih =>
    rw [List.cons_append, upto, upto, ih]
    by_cases he' : p e'
    · simp [he']
    rw [if_neg he', if_neg he']
    have hcons : (∀ x ∈ e' :: log, ¬p x) ↔ ∀ x ∈ log, ¬p x := by
      rw [List.forall_mem_cons]
      exact and_iff_right he'
    by_cases hall : ∀ x ∈ log, ¬p x
    · rw [if_pos hall, if_pos (hcons.2 hall)]
    · rw [if_neg hall, if_neg fun h ↦ hall (hcons.1 h)]

theorem after_concat :
    after p (log ++ [e]) = if ∃ e ∈ log, p e then after p log ++ [e] else [] := by
  induction log with
  | nil => simp [after]
  | cons e' log ih =>
    rw [List.cons_append, after, after, ih]
    by_cases he' : p e'
    · simp [he']
    · simp [he']

theorem after_eq_nil (h : ¬∃ e ∈ log, p e) : after p log = [] := by
  induction log with
  | nil => rfl
  | cons e log ih =>
    rw [after, if_neg fun he ↦ h ⟨e, List.mem_cons_self, he⟩]
    exact ih fun ⟨e', he', hp⟩ ↦ h ⟨e', List.mem_cons_of_mem _ he', hp⟩

/-- Open windows grow by every event, closed ones by none. -/
theorem window_concat [Decidable (IsOpen opens closes log)] :
    window opens closes (log ++ [e]) =
      if IsOpen opens closes log then window opens closes log ++ [e]
      else window opens closes log := by
  by_cases hopened : ∃ e ∈ log, opens e
  · rw [window, after_concat, if_pos hopened, upto_concat]
    by_cases hclosed : ∀ e ∈ after opens log, ¬closes e
    · rw [if_pos hclosed, if_pos ⟨hopened, hclosed⟩, window, upto_eq_self hclosed]
    · rw [if_neg hclosed, if_neg fun h ↦ hclosed h.2, window]
  · rw [window, after_concat, if_neg hopened, if_neg fun h ↦ hopened h.1, window,
      after_eq_nil hopened]

theorem isOpen_concat :
    IsOpen opens closes (log ++ [e]) ↔
      ((¬∃ e ∈ log, opens e) ∧ opens e) ∨ (IsOpen opens closes log ∧ ¬closes e) := by
  by_cases hopened : ∃ e ∈ log, opens e
  · rw [IsOpen, after_concat, if_pos hopened]
    simp only [List.mem_append, List.mem_singleton, IsOpen, hopened, not_true_eq_false, false_and,
      false_or, true_and]
    constructor
    · rintro ⟨-, h⟩
      exact ⟨fun e' he' ↦ h e' (Or.inl he'), h e (Or.inr rfl)⟩
    · rintro ⟨h, he⟩
      obtain ⟨e', he', hp⟩ := hopened
      refine ⟨⟨e', Or.inl he', hp⟩, ?_⟩
      rintro e'' (he'' | rfl)
      · exact h e'' he''
      · exact he
  · rw [IsOpen, after_concat, if_neg hopened]
    simp only [List.mem_append, List.mem_singleton, IsOpen, hopened, not_false_eq_true, true_and,
      false_and, or_false, List.not_mem_nil, false_imp_iff, implies_true, and_true]
    constructor
    · rintro ⟨e', he' | rfl, hp⟩
      · exact absurd ⟨e', he', hp⟩ hopened
      · exact hp
    · exact fun hp ↦ ⟨e, Or.inr rfl, hp⟩

theorem window_eq_nil (h : ¬∃ e ∈ log, opens e) : window opens closes log = [] := by
  rw [window, after_eq_nil h]
  rfl

/-- Where the log is cut by the first element that satisfies `p`. -/
theorem exists_split_after (h : ∃ e ∈ log, p e) :
    ∃ pre e, log = pre ++ e :: after p log ∧ p e ∧ ∀ x ∈ pre, ¬p x := by
  induction log with
  | nil =>
    obtain ⟨e, he, -⟩ := h
    cases he
  | cons e log ih =>
    by_cases he : p e
    · exact ⟨[], e, by rw [after, if_pos he]; rfl, he, fun x hx ↦ absurd hx List.not_mem_nil⟩
    · obtain ⟨pre, e', hlog, hp, hno⟩ := ih (by simpa [he] using h)
      refine ⟨e :: pre, e', ?_, hp, List.forall_mem_cons.2 ⟨he, hno⟩⟩
      rw [after, if_neg he, List.cons_append, ← hlog]

theorem upto_prefix (p : ε → Bool) (log : List ε) : upto p log <+: log := by
  induction log with
  | nil => exact List.prefix_rfl
  | cons e log ih =>
    rw [upto]
    split
    · exact List.cons_prefix_cons.2 ⟨rfl, List.nil_prefix⟩
    · exact List.cons_prefix_cons.2 ⟨rfl, ih⟩

/-- Every event in a window is in the log. -/
theorem mem_of_mem_window (h : e ∈ window opens closes log) : e ∈ log := by
  have hupto : ∀ l : List ε, e ∈ upto closes l → e ∈ l := by
    intro l
    induction l with
    | nil => exact id
    | cons e' l ih =>
      rw [upto]
      split
      · intro h
        rw [List.mem_singleton.1 h]
        exact List.mem_cons_self
      · intro h
        rcases List.mem_cons.1 h with rfl | h
        · exact List.mem_cons_self
        · exact List.mem_cons_of_mem _ (ih h)
  have hafter : ∀ l : List ε, e ∈ after opens l → e ∈ l := by
    intro l
    induction l with
    | nil => exact id
    | cons e' l ih =>
      rw [after]
      split
      · exact List.mem_cons_of_mem _
      · exact fun h ↦ List.mem_cons_of_mem _ (ih h)
  exact hafter _ (hupto _ h)

end Window
