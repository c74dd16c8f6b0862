import Mathlib.Algebra.Order.Group.Unbundled.Int
import Mathlib.Data.Nat.Find
import Mathlib.Logic.Function.Iterate
import Mathlib.Tactic.SplitIfs

/-!
# Places on a circle

The places `1` to `n` on a circle, and the search for the first place with a property after a
given one. It starts from a place of the circle or from `0`, which is in front of the first place
and to which no step leads back.

`iterate_next` says where a number of steps ends. So every place is met in the first `n` steps
(`exists_iterate_next`), the place where the search started is not met before the last of them
(`le_of_iterate_next_eq`), and a place with the property is found if there is one
(`exists_firstAfter`).
-/

namespace Circle

variable {n i j : ℤ} {P : ℤ → Prop}

/-- The place after `i`. -/
def next (n i : ℤ) : ℤ :=
  if i = n then 1 else i + 1

theorem next_mem (hn : 0 < n) (h0 : 0 ≤ i) (hle : i ≤ n) : 1 ≤ next n i ∧ next n i ≤ n := by
  rw [next]
  split_ifs <;> omega

/-- The place some steps after `i`. -/
theorem iterate_next (hn : 0 < n) (h0 : 0 ≤ i) (hle : i ≤ n) (k : ℕ) :
    (next n)^[k + 1] i = (i + k) % n + 1 := by
  induction k with
  | zero =>
    rw [Function.iterate_one, next, Int.natCast_zero, Int.add_zero]
    split_ifs with hi
    · rw [hi, Int.emod_self, Int.zero_add]
    · rw [Int.emod_eq_of_lt h0 (by omega)]
  | succ k ih =>
    have hlt := Int.emod_lt_of_pos (i + k) hn
    have hge := Int.emod_nonneg (i + k) hn.ne'
    have hstep : (i + (k + 1 : ℕ)) % n = ((i + k) % n + 1) % n := by
      rw [Int.emod_add_emod, Int.natCast_succ, Int.add_assoc]
    rw [Function.iterate_succ_apply', ih, hstep, next]
    split_ifs with hr
    · rw [hr, Int.emod_self, Int.zero_add]
    · have hmod : ((i + k) % n + 1) % n = (i + k) % n + 1 :=
        Int.emod_eq_of_lt (by omega) (by omega)
      rw [hmod]

theorem iterate_next_mem (hn : 0 < n) (h0 : 0 ≤ i) (hle : i ≤ n) (k : ℕ) :
    1 ≤ (next n)^[k + 1] i ∧ (next n)^[k + 1] i ≤ n := by
  have hlt := Int.emod_lt_of_pos (i + k) hn
  have hge := Int.emod_nonneg (i + k) hn.ne'
  rw [iterate_next hn h0 hle]
  omega

/-- Every place is met in one turn. -/
theorem exists_iterate_next (h0 : 0 ≤ i) (hle : i ≤ n) (hj : 1 ≤ j) (hjn : j ≤ n) :
    ∃ k : ℕ, (k : ℤ) < n ∧ (next n)^[k + 1] i = j := by
  have hn : 0 < n := by omega
  have hlt := Int.emod_lt_of_pos (j - 1 - i) hn
  have hge := Int.emod_nonneg (j - 1 - i) hn.ne'
  have hk : (((j - 1 - i) % n).toNat : ℤ) = (j - 1 - i) % n := Int.toNat_of_nonneg hge
  refine ⟨((j - 1 - i) % n).toNat, by omega, ?_⟩
  rw [iterate_next hn h0 hle, hk, Int.add_emod_emod,
    add_sub_cancel, Int.emod_eq_of_lt (by omega) (by omega), Int.sub_add_cancel]

/-- The way back takes a whole turn. -/
theorem le_of_iterate_next_eq (hn : 0 < n) (h0 : 0 ≤ i) (hle : i ≤ n) {k : ℕ}
    (h : (next n)^[k + 1] i = i) : n ≤ k + 1 := by
  rw [iterate_next hn h0 hle] at h
  have hdvd : n ∣ k + 1 := by
    have hself : n ∣ i + k - (i + k) % n := Int.dvd_self_sub_emod
    rwa [show i + k - (i + k) % n = k + 1 by omega] at hself
  exact Int.le_of_dvd (by omega) hdvd

/-- From a place of the circle, a whole turn is the way back. -/
theorem iterate_next_self (hi : 1 ≤ i) {k : ℕ} (hk : (k : ℤ) + 1 = n) (hle : i ≤ n) :
    (next n)^[k + 1] i = i := by
  rw [iterate_next (by omega) (by omega) hle, show i + k = i - 1 + n by omega,
    Int.add_emod_right, Int.emod_eq_of_lt (by omega) (by omega), Int.sub_add_cancel]

/-- The first place after `i` that has the property. -/
def FirstAfter (n : ℤ) (P : ℤ → Prop) (i j : ℤ) : Prop :=
  ∃ k : ℕ, (next n)^[k + 1] i = j ∧ P j ∧ ∀ l < k, ¬P ((next n)^[l + 1] i)

/-- There is a first place with the property if there is one at all. -/
theorem exists_firstAfter (h0 : 0 ≤ i) (hle : i ≤ n) (h : ∃ j, 1 ≤ j ∧ j ≤ n ∧ P j) :
    ∃ k : ℕ, (k : ℤ) < n ∧ P ((next n)^[k + 1] i) ∧ ∀ l < k, ¬P ((next n)^[l + 1] i) := by
  classical
  obtain ⟨j, hj, hjn, hP⟩ := h
  obtain ⟨k, hk, rfl⟩ := exists_iterate_next h0 hle hj hjn
  have hex : ∃ k : ℕ, P ((next n)^[k + 1] i) := ⟨k, hP⟩
  have hmin : Nat.find hex ≤ k := Nat.find_min' hex hP
  exact ⟨Nat.find hex, by omega, Nat.find_spec hex, fun l hl ↦ Nat.find_min hex hl⟩

end Circle
