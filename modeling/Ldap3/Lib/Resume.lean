import Mathlib.Data.List.Basic

/-!
# Lists handed out in segments

A list that somebody asks for segment by segment. Nothing is kept between two requests: each segment
comes with a token, unless it is the last one, and who has the token asks for the segment that
begins where this one ends. What is handed out so is the list, and every element once
(`Handed.flatten_eq`), wherever the segments end.
-/

/-- A list that is handed out in segments, with tokens for the positions in it. -/
structure Resumable (α τ : Type) where
  items : List α
  /-- Where the segment ends that begins here. -/
  stop : ℕ → ℕ
  token : ℕ → τ
  /-- What a token means. -/
  position : τ → Option ℕ
  le_stop : ∀ n, n ≤ stop n
  position_token : ∀ n, position (token n) = some n

namespace Resumable

variable {α τ : Type} (r : Resumable α τ)

/-- Where the segment for a token begins; the one for no token is the first. -/
def start : Option τ → Option ℕ
  | none => some 0
  | some t => r.position t

def segment (n : ℕ) : List α :=
  (r.items.drop n).take (r.stop n - n)

/-- The token that comes with a segment. -/
def next (n : ℕ) : Option τ :=
  if r.stop n < r.items.length then some (r.token (r.stop n)) else none

/-- Segments that are handed out one after another, each for the token of the one before. -/
inductive Handed : Option τ → List (List α) → Prop
  | last {c : Option τ} {n : ℕ} (hstart : r.start c = some n) (hnext : r.next n = none) :
      Handed c [r.segment n]
  | more {c : Option τ} {n : ℕ} {segs : List (List α)} (hstart : r.start c = some n)
      (hnext : (r.next n).isSome) (h : Handed (r.next n) segs) : Handed c (r.segment n :: segs)

variable {r} {n : ℕ}

/-- A token is good for the place where the segment ends. -/
theorem start_next (h : (r.next n).isSome) : r.start (r.next n) = some (r.stop n) := by
  rw [next] at h ⊢
  split at h
  · rw [if_pos ‹_›]
    exact r.position_token _
  · cases h

theorem stop_of_next_eq_none (h : r.next n = none) : r.items.length ≤ r.stop n := by
  rw [next] at h
  split at h
  · cases h
  · exact Nat.le_of_not_lt ‹_›

/-- The segment is what lies before the rest. -/
theorem segment_append_drop (n : ℕ) :
    r.segment n ++ r.items.drop (r.stop n) = r.items.drop n := by
  have hdrop : r.items.drop (r.stop n) = (r.items.drop n).drop (r.stop n - n) := by
    rw [List.drop_drop, Nat.add_sub_cancel' (r.le_stop n)]
  rw [hdrop]
  exact List.take_append_drop _ _

theorem Handed.flatten_eq_drop {c : Option τ} {segs : List (List α)} (h : r.Handed c segs)
    (hc : r.start c = some n) : segs.flatten = r.items.drop n := by
  induction h generalizing n with
  | @last c m hstart hnext =>
    obtain rfl := Option.some.inj (hstart.symm.trans hc)
    rw [List.flatten_singleton, ← segment_append_drop m,
      List.drop_eq_nil_of_le (stop_of_next_eq_none hnext), List.append_nil]
  | @more c m segs hstart hnext _ ih =>
    obtain rfl := Option.some.inj (hstart.symm.trans hc)
    rw [List.flatten_cons, ih (start_next hnext), segment_append_drop]

/-- **The whole list is handed out.** -/
theorem Handed.flatten_eq {segs : List (List α)} (h : r.Handed none segs) :
    segs.flatten = r.items :=
  h.flatten_eq_drop rfl

end Resumable
