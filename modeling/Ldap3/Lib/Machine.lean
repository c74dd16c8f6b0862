import Mathlib.Data.List.Basic

/-!
# State machines

A machine is a partial step function on states, `step : σ → ℓ → Option σ`, with a label saying who
moves and how; `none` means that the move is not possible. What is not determined by the state
(the order of the parties' moves, what arrives from outside) is in the labels, so a statement
about every run is a statement about every interleaving.

`Reach step good s₀ s` says that `s` is reached from `s₀` by steps that all meet the condition
`good`. Safety properties of whole runs are proved by `Reach.invariant`: it holds at the start and
every step that meets the condition keeps it. A machine whose steps are runs of another one
inherits its properties through `Reach.map`. `Ensured` is for what can still happen: that a bounded
number of moves brings about a state, whatever the parts of the labels are that come from outside.
-/

namespace Machine

variable {σ τ ℓ κ : Type} {step : σ → ℓ → Option σ} {good : σ → ℓ → Prop}

/-- Carry out a list of moves as long as they meet a condition. -/
def run (step : σ → ℓ → Option σ) (good : σ → ℓ → Prop) [∀ s l, Decidable (good s l)] (s : σ) :
    List ℓ → Option σ
  | [] => some s
  | l :: ls => if good s l then step s l >>= fun s' ↦ run step good s' ls else none

/-- The states reached by steps that meet a condition. -/
inductive Reach (step : σ → ℓ → Option σ) (good : σ → ℓ → Prop) (s₀ : σ) : σ → Prop
  | init : Reach step good s₀ s₀
  | step {s s' : σ} {l : ℓ} (h : Reach step good s₀ s) (hgood : good s l)
      (hstep : step s l = some s') : Reach step good s₀ s'

/-- Every move is allowed. -/
def any (_ : σ) (_ : ℓ) : Prop :=
  True

instance (s : σ) (l : ℓ) : Decidable (any s l) :=
  inferInstanceAs (Decidable True)

namespace Reach

variable {s₀ s s' : σ}

/-- **Invariants.** What holds at the start and is kept by every step that meets the condition
holds in every state reached. -/
theorem invariant {P : σ → Prop} (h : Reach step good s₀ s) (h0 : P s₀)
    (hstep : ∀ {s s' l}, P s → good s l → step s l = some s' → P s') : P s := by
  induction h with
  | init => exact h0
  | step _ hgood hs ih => exact hstep ih hgood hs

theorem trans {s₁ s₂ : σ} (h₁ : Reach step good s₀ s₁) (h₂ : Reach step good s₁ s₂) :
    Reach step good s₀ s₂ := by
  induction h₂ with
  | init => exact h₁
  | step _ hgood hs ih => exact ih.step hgood hs

theorem single {l : ℓ} (hgood : good s l) (hs : step s l = some s') : Reach step good s s' :=
  Reach.init.step hgood hs

/-- **Simulation.** If every step is, seen through `f`, some steps of another machine, then so is
every run. -/
theorem map {step' : τ → κ → Option τ} {good' : τ → κ → Prop} {f : σ → τ}
    (h : Reach step good s₀ s)
    (hsim : ∀ {s s' l}, good s l → step s l = some s' → Reach step' good' (f s) (f s')) :
    Reach step' good' (f s₀) (f s) := by
  induction h with
  | init => exact .init
  | step _ hgood hs ih => exact ih.trans (hsim hgood hs)

end Reach

/-- One list of moves after another. -/
theorem run_append [∀ s l, Decidable (good s l)] (s : σ) (ls ls' : List ℓ) :
    run step good s (ls ++ ls') = run step good s ls >>= fun s' ↦ run step good s' ls' := by
  induction ls generalizing s with
  | nil => rfl
  | cons l ls ih =>
    rw [List.cons_append, run, run]
    split
    · rw [bind_assoc]
      exact bind_congr fun s' ↦ ih s'
    · rfl

/-- The end of a list of moves is reached. -/
theorem reach_of_run [∀ s l, Decidable (good s l)] {s s' : σ} {ls : List ℓ}
    (h : run step good s ls = some s') : Reach step good s s' := by
  induction ls generalizing s with
  | nil =>
    obtain rfl := Option.some.inj h
    exact .init
  | cons l ls ih =>
    rw [run] at h
    split at h
    · rename_i hgood
      obtain ⟨s₁, hs, hrun⟩ := Option.bind_eq_some_iff.1 h
      exact (Reach.single hgood hs).trans (ih hrun)
    · cases h

/-- **Progress.** A property comes about by `n` moves at most. The kinds of the moves are chosen, one
after the other; which move of its kind each one is, is left open. There is such a move, and every
such move can be made and leads on. -/
def Ensured (step : σ → ℓ → Option σ) (kind : κ → ℓ → Prop) (P : σ → Prop) : ℕ → σ → Prop
  | 0, s => P s
  | n + 1, s => P s ∨ ∃ k, (∃ l, kind k l) ∧
      ∀ l, kind k l → ∃ s', step s l = some s' ∧ Ensured step kind P n s'

namespace Ensured

variable {kind : κ → ℓ → Prop} {P : σ → Prop} {s : σ} {m n : ℕ}

theorem now (h : P s) : Ensured step kind P n s := by
  cases n with
  | zero => exact h
  | succ n => exact Or.inl h

theorem mono (h : Ensured step kind P m s) (hle : m ≤ n) : Ensured step kind P n s := by
  induction n generalizing m s with
  | zero =>
    obtain rfl := Nat.le_zero.1 hle
    exact h
  | succ n ih =>
    cases m with
    | zero => exact now h
    | succ m =>
      rcases h with h | ⟨k, hk, hnext⟩
      · exact Or.inl h
      · refine Or.inr ⟨k, hk, fun l hl ↦ ?_⟩
        obtain ⟨s', hs, hn⟩ := hnext l hl
        exact ⟨s', hs, ih hn (Nat.le_of_succ_le_succ hle)⟩

end Ensured

end Machine
