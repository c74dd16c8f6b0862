import Mathlib.Data.List.TakeWhile

/-!
# Loops over text, splitting and escapes

What the processing of strings as lists rests on.

* A loop over the elements of a list with their index, which may fail: `zipIdx` and `foldlM`. What
  holds of the elements before the index and of the state in front of every round holds of all
  elements and of the result (`List.foldlM_zipIdx`).
* `List.splitn`, splitting at the first few separators. What is joined with a separator between is
  split into the same parts if they do not hold it (`List.splitn_append_cons`).
* `List.decodeEscapes`, which reads an escape character and two digits as an octet.
-/

namespace List

variable {α σ ε : Type}

/-! ### Indexed loops -/

/-- The loop from any element on. -/
theorem foldlM_zipIdx_append {f : σ → α × ℕ → Except ε σ} {l : List α} {P : List α → σ → Prop}
    (step : ∀ pre c post s, l = pre ++ c :: post → P pre s →
      ∃ s', f s (c, pre.length) = .ok s' ∧ P (pre ++ [c]) s')
    {pre post : List α} (hl : l = pre ++ post) {s : σ} (h : P pre s) :
    ∃ s', (post.zipIdx pre.length).foldlM f s = .ok s' ∧ P l s' := by
  induction post generalizing pre s with
  | nil =>
    rw [append_nil] at hl
    exact ⟨s, rfl, hl ▸ h⟩
  | cons c post ih =>
    obtain ⟨s', hstep, h'⟩ := step pre c post s hl h
    have hl' : l = (pre ++ [c]) ++ post := by rw [hl, append_assoc, singleton_append]
    obtain ⟨s'', hrest, h''⟩ := ih hl' h'
    rw [length_append, length_singleton] at hrest
    refine ⟨s'', ?_, h''⟩
    rw [zipIdx_cons, foldlM_cons, hstep]
    exact hrest

/-- **Invariant of an indexed loop.** -/
theorem foldlM_zipIdx {f : σ → α × ℕ → Except ε σ} {l : List α} {P : List α → σ → Prop}
    (step : ∀ pre c post s, l = pre ++ c :: post → P pre s →
      ∃ s', f s (c, pre.length) = .ok s' ∧ P (pre ++ [c]) s')
    {s : σ} (h : P [] s) : ∃ s', l.zipIdx.foldlM f s = .ok s' ∧ P l s' :=
  foldlM_zipIdx_append step (nil_append l).symm h

/-! ### Splitting -/

/-- What a check of the elements, which can be run, says of them. -/
theorem forall_mem_of_all {p : α → Prop} [DecidablePred p] {l : List α}
    (h : (l.all fun x ↦ decide (p x)) = true) : ∀ x ∈ l, p x := fun x hx ↦
  of_decide_eq_true (all_eq_true.1 h x hx)

/-- What is in joined parts is in one of them or the separator. -/
theorem mem_of_mem_intercalate {c : α} {ls : List (List α)} {x : α}
    (h : x ∈ [c].intercalate ls) : x = c ∨ ∃ l ∈ ls, x ∈ l := by
  induction ls with
  | nil => cases h
  | cons l ls ih =>
    rcases ls with - | ⟨l', ls⟩
    · rw [intercalate_singleton] at h
      exact Or.inr ⟨l, mem_cons_self, h⟩
    · rw [intercalate_cons_cons, mem_append, mem_append, mem_singleton] at h
      rcases h with (h | h) | h
      · exact Or.inr ⟨l, mem_cons_self, h⟩
      · exact Or.inl h
      · rcases ih h with h | ⟨l, hl, hx⟩
        · exact Or.inl h
        · exact Or.inr ⟨l, mem_cons_of_mem _ hl, hx⟩

theorem mem_intercalate_of_mem {c : α} {ls : List (List α)} {l : List α} (hl : l ∈ ls) {x : α}
    (hx : x ∈ l) : x ∈ [c].intercalate ls := by
  induction ls with
  | nil => cases hl
  | cons l₁ ls ih =>
    rcases ls with - | ⟨l₂, ls⟩
    · obtain rfl := mem_singleton.1 hl
      rwa [intercalate_singleton]
    · rw [intercalate_cons_cons, mem_append, mem_append]
      rcases mem_cons.1 hl with rfl | hl
      · exact Or.inl (Or.inl hx)
      · exact Or.inr (ih hl)

section

variable [DecidableEq α] {c : α} {l l' : List α}

/-- `splitn`: at most `n` parts, the last of which may hold more separators. -/
def splitn (c : α) : (n : ℕ) → List α → List (List α)
  | 0, _ => []
  | 1, l => [l]
  | n + 2, l =>
    if c ∈ l then l.takeWhile (· ≠ c) :: splitn c (n + 1) (l.dropWhile (· ≠ c)).tail else [l]

theorem takeWhile_ne_append (hc : c ∉ l) (l' : List α) :
    (l ++ c :: l').takeWhile (· ≠ c) = l ∧ (l ++ c :: l').dropWhile (· ≠ c) = c :: l' := by
  have hall : ∀ x ∈ l, decide (x ≠ c) = true := fun x hx ↦ decide_eq_true fun h ↦ hc (h ▸ hx)
  rw [takeWhile_append_of_pos hall, dropWhile_append_of_pos hall]
  simp

theorem takeWhile_ne_of_not_mem (hc : c ∉ l) :
    l.takeWhile (· ≠ c) = l ∧ l.dropWhile (· ≠ c) = [] := by
  have hall : ∀ x ∈ l, decide (x ≠ c) = true := fun x hx ↦ decide_eq_true fun h ↦ hc (h ▸ hx)
  exact ⟨takeWhile_eq_self_iff.2 hall, dropWhile_eq_nil_iff.2 hall⟩

/-- **A part without the separator in front of one.** -/
theorem splitn_append_cons (hc : c ∉ l) (n : ℕ) :
    splitn c (n + 2) (l ++ c :: l') = l :: splitn c (n + 1) l' := by
  obtain ⟨htake, hdrop⟩ := takeWhile_ne_append hc l'
  rw [splitn, if_pos (by simp), htake, hdrop, tail_cons]

/-- In two parts: in front of the first separator, and behind it if there is one. -/
theorem splitn_two (c : α) (l : List α) :
    (splitn c 2 l)[0]?.getD [] = l.takeWhile (· ≠ c) ∧
      (splitn c 2 l)[1]?.getD [] = (l.dropWhile (· ≠ c)).tail := by
  rw [splitn]
  split
  · exact ⟨rfl, rfl⟩
  · rename_i hc
    obtain ⟨htake, hdrop⟩ := takeWhile_ne_of_not_mem hc
    rw [htake, hdrop]
    exact ⟨rfl, rfl⟩

/-- In front of a further part is one without the separator. -/
theorem exists_of_splitn {n k : ℕ} (h : (splitn c (n + 2) l)[k + 1]? = some l') :
    ∃ l₁ l₂, c ∉ l₁ ∧ l = l₁ ++ c :: l₂ ∧ (splitn c (n + 1) l₂)[k]? = some l' := by
  rw [splitn] at h
  split at h
  · rename_i hc
    have hhead : c ∉ l.takeWhile (· ≠ c) := fun hmem ↦ by simpa using mem_takeWhile_imp hmem
    refine ⟨_, (l.dropWhile (· ≠ c)).tail, hhead, ?_, h⟩
    obtain ⟨l₁, l₂, rfl, hl₁⟩ := eq_append_cons_of_mem hc
    obtain ⟨htake, hdrop⟩ := takeWhile_ne_append hl₁ l₂
    rw [htake, hdrop, tail_cons]
  · cases h

theorem not_mem_of_mem_splitOn (h : l' ∈ l.splitOn c) : c ∉ l' := by
  induction l generalizing l' with
  | nil =>
    rw [splitOn_nil, mem_singleton] at h
    exact h ▸ not_mem_nil
  | cons x l ih =>
    rw [splitOn_cons_eq_if_modifyHead] at h
    split at h
    · rcases mem_cons.1 h with rfl | h
      · exact not_mem_nil
      · exact ih h
    · rename_i hx
      obtain ⟨l₁, ls, hls⟩ := exists_cons_of_ne_nil (splitOn_ne_nil c l)
      rw [hls] at h ih
      rcases mem_cons.1 h with rfl | h
      · rw [mem_cons, not_or]
        exact ⟨fun hc ↦ hx (beq_iff_eq.2 hc.symm), ih mem_cons_self⟩
      · exact ih (mem_cons_of_mem l₁ h)

/-- Parts that are joined to nothing are one empty part. -/
theorem eq_of_intercalate_eq_nil {ls : List (List α)} (hc : ∀ l ∈ ls, c ∉ l) (hne : ls ≠ [])
    (h : [c].intercalate ls = []) : ls = [[]] := by
  have hsplit := splitOn_intercalate c hc hne
  rw [h, splitOn_nil] at hsplit
  exact hsplit.symm

end

/-! ### Escapes -/

section

variable [DecidableEq α] {esc : α} {digit : α → Option UInt8} {raw : α → List UInt8}
  {w : List α} {c h l : α} {x y : UInt8}

/-- The escape character and two digits become an octet; every other character becomes its
octets. -/
def decodeEscapes (esc : α) (digit : α → Option UInt8) (raw : α → List UInt8) :
    List α → List UInt8
  | c :: h :: l :: w =>
    if c = esc then
      match digit h, digit l with
      | some x, some y => (x * 16 + y) :: decodeEscapes esc digit raw w
      | _, _ => raw c ++ decodeEscapes esc digit raw (h :: l :: w)
    else raw c ++ decodeEscapes esc digit raw (h :: l :: w)
  | c :: w => raw c ++ decodeEscapes esc digit raw w
  | [] => []

theorem decodeEscapes_cons (hc : c ≠ esc) :
    decodeEscapes esc digit raw (c :: w) = raw c ++ decodeEscapes esc digit raw w := by
  rcases w with - | ⟨h, - | ⟨l, w⟩⟩
  · rfl
  · rfl
  · rw [decodeEscapes, if_neg hc]

theorem decodeEscapes_escape (hh : digit h = some x) (hl : digit l = some y) :
    decodeEscapes esc digit raw (esc :: h :: l :: w) =
      (x * 16 + y) :: decodeEscapes esc digit raw w := by
  rw [decodeEscapes, if_pos rfl, hh, hl]

end

end List
