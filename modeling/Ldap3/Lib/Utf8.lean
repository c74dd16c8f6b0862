import Mathlib.Data.List.Forall2

/-!
# Lossy decoding of UTF-8

Octets that are to be text are read from the front. Those of a character stay as they are. The front
of a character that breaks off becomes one replacement character, and so does an octet that no
character begins with; the octet at which a character breaks off may begin another one.

Text is left as it is (`Utf8.decodeLossy_text`).
-/

namespace Utf8

/-- The ranges of the octets that come after the first one of a character. -/
def tail (b : UInt8) : Option (List (UInt8 × UInt8)) :=
  if b ≤ 0x7F then some []
  else if 0xC2 ≤ b ∧ b ≤ 0xDF then some [(0x80, 0xBF)]
  else if b = 0xE0 then some [(0xA0, 0xBF), (0x80, 0xBF)]
  else if b = 0xED then some [(0x80, 0x9F), (0x80, 0xBF)]
  else if 0xE1 ≤ b ∧ b ≤ 0xEF then some [(0x80, 0xBF), (0x80, 0xBF)]
  else if b = 0xF0 then some [(0x90, 0xBF), (0x80, 0xBF), (0x80, 0xBF)]
  else if b = 0xF4 then some [(0x80, 0x8F), (0x80, 0xBF), (0x80, 0xBF)]
  else if 0xF1 ≤ b ∧ b ≤ 0xF3 then some [(0x80, 0xBF), (0x80, 0xBF), (0x80, 0xBF)]
  else none

/-- How many octets are in the ranges, from the front. -/
def tailLength : List (UInt8 × UInt8) → List UInt8 → ℕ
  | (lo, hi) :: ranges, c :: w => if lo ≤ c ∧ c ≤ hi then tailLength ranges w + 1 else 0
  | _, _ => 0

/-- U+FFFD. -/
def replacement : List UInt8 :=
  [0xEF, 0xBF, 0xBD]

/-- The text that the octets are taken for. -/
def decodeLossy : List UInt8 → List UInt8
  | [] => []
  | b :: w =>
    match tail b with
    | none => replacement ++ decodeLossy w
    | some ranges =>
      let n := tailLength ranges w
      (if n = ranges.length then b :: w.take n else replacement) ++ decodeLossy (w.drop n)
termination_by w => w.length
decreasing_by
  · simp
  · simp only [List.length_drop, List.length_cons]
    omega

/-! ### Text -/

/-- The octet is in the range. -/
def InRange (r : UInt8 × UInt8) (c : UInt8) : Prop :=
  r.1 ≤ c ∧ c ≤ r.2

theorem tailLength_append {ranges : List (UInt8 × UInt8)} {v : List UInt8}
    (h : List.Forall₂ InRange ranges v) (w : List UInt8) :
    tailLength ranges (v ++ w) = ranges.length := by
  induction h with
  | nil => cases w <;> rfl
  | cons hc _ ih =>
    rw [List.cons_append, tailLength, ih]
    exact if_pos hc

/-- A character in front. -/
theorem decodeLossy_append {b : UInt8} {ranges : List (UInt8 × UInt8)} {v : List UInt8}
    (hb : tail b = some ranges) (hv : List.Forall₂ InRange ranges v) (w : List UInt8) :
    decodeLossy (b :: v ++ w) = b :: v ++ decodeLossy w := by
  have hlen := tailLength_append hv w
  rw [List.cons_append, decodeLossy, hb]
  simp only [hlen, if_true]
  rw [hv.length_eq, List.take_left, List.drop_left]

/-- The ranges in terms of numbers. -/
theorem tail_ofNat {n : ℕ} (hn : n < 256) : tail (UInt8.ofNat n) =
    if n ≤ 0x7F then some []
    else if 0xC2 ≤ n ∧ n ≤ 0xDF then some [(0x80, 0xBF)]
    else if n = 0xE0 then some [(0xA0, 0xBF), (0x80, 0xBF)]
    else if n = 0xED then some [(0x80, 0x9F), (0x80, 0xBF)]
    else if 0xE1 ≤ n ∧ n ≤ 0xEF then some [(0x80, 0xBF), (0x80, 0xBF)]
    else if n = 0xF0 then some [(0x90, 0xBF), (0x80, 0xBF), (0x80, 0xBF)]
    else if n = 0xF4 then some [(0x80, 0x8F), (0x80, 0xBF), (0x80, 0xBF)]
    else if 0xF1 ≤ n ∧ n ≤ 0xF3 then some [(0x80, 0xBF), (0x80, 0xBF), (0x80, 0xBF)]
    else none := by
  have hval : (UInt8.ofNat n).toNat = n := UInt8.toNat_ofNat_of_lt hn
  simp only [tail, UInt8.le_iff_toNat_le, ← UInt8.toNat_inj, hval]
  rfl

theorem inRange_ofNat {lo hi : UInt8} {n : ℕ} (hlo : lo.toNat ≤ n) (hhi : n ≤ hi.toNat) :
    InRange (lo, hi) (UInt8.ofNat n) := by
  have hval : (UInt8.ofNat n).toNat = n :=
    UInt8.toNat_ofNat_of_lt (Nat.lt_of_le_of_lt hhi hi.toNat_lt)
  rw [InRange, UInt8.le_iff_toNat_le, UInt8.le_iff_toNat_le, hval]
  exact ⟨hlo, hhi⟩

/-- **The octets of a character** are a first one and others in its ranges. The ranges leave out
what is written with fewer octets, the surrogates, and what is past the last character. -/
theorem encodeChar_spec (c : Char) : ∃ b v ranges, String.utf8EncodeChar c = b :: v ∧
    tail b = some ranges ∧ List.Forall₂ InRange ranges v := by
  have hvalid : c.val.toNat < 0xD800 ∨ 0xDFFF < c.val.toNat ∧ c.val.toNat < 0x110000 := c.valid
  have htail : ∀ n : ℕ, InRange (0x80, 0xBF) (UInt8.ofNat (n % 64 + 128)) :=
    fun n ↦ inRange_ofNat (Nat.le_add_left _ _) (show n % 64 + 128 ≤ 191 by omega)
  have hsub : ∀ (lo hi : ℕ) {n : ℕ} {r : UInt8 × UInt8}, r.1.toNat = lo + 128 →
      r.2.toNat = hi + 128 → lo ≤ n % 64 → n % 64 ≤ hi → InRange r (UInt8.ofNat (n % 64 + 128)) :=
    fun _ _ _ _ hlo hhi hle hge ↦ inRange_ofNat (by omega) (by omega)
  rw [String.utf8EncodeChar]
  generalize c.val.toNat = n at hvalid
  split
  · refine ⟨_, _, [], rfl, ?_, .nil⟩
    rw [tail_ofNat (by omega), if_pos ‹_›]
  split
  · refine ⟨_, _, [(0x80, 0xBF)], rfl, ?_, .cons (htail n) .nil⟩
    rw [tail_ofNat (by omega), if_neg (by omega), if_pos (by omega)]
  split
  · obtain h | h | h : n / 4096 = 0 ∨ n / 4096 = 13 ∨ n / 4096 ≠ 0 ∧ n / 4096 ≠ 13 := by omega
    · refine ⟨_, _, [(0xA0, 0xBF), (0x80, 0xBF)], rfl, ?_,
        .cons (hsub 32 63 rfl rfl (by omega) (by omega)) (.cons (htail n) .nil)⟩
      rw [tail_ofNat (by omega), if_neg (by omega), if_neg (by omega), if_pos (by omega)]
    · refine ⟨_, _, [(0x80, 0x9F), (0x80, 0xBF)], rfl, ?_,
        .cons (hsub 0 31 rfl rfl (by omega) (by omega)) (.cons (htail n) .nil)⟩
      rw [tail_ofNat (by omega), if_neg (by omega), if_neg (by omega), if_neg (by omega),
        if_pos (by omega)]
    · refine ⟨_, _, [(0x80, 0xBF), (0x80, 0xBF)], rfl, ?_, .cons (htail _) (.cons (htail n) .nil)⟩
      rw [tail_ofNat (by omega), if_neg (by omega), if_neg (by omega), if_neg (by omega),
        if_neg (by omega), if_pos (by omega)]
  · have hlast : n / 262144 ≤ 4 := by omega
    obtain h | h | h : n / 262144 = 0 ∨ n / 262144 = 4 ∨ n / 262144 ≠ 0 ∧ n / 262144 ≠ 4 := by
      omega
    · refine ⟨_, _, [(0x90, 0xBF), (0x80, 0xBF), (0x80, 0xBF)], rfl, ?_,
        .cons (hsub 16 63 rfl rfl (by omega) (by omega))
          (.cons (htail _) (.cons (htail n) .nil))⟩
      rw [tail_ofNat (by omega), if_neg (by omega), if_neg (by omega), if_neg (by omega),
        if_neg (by omega), if_neg (by omega), if_pos (by omega)]
    · refine ⟨_, _, [(0x80, 0x8F), (0x80, 0xBF), (0x80, 0xBF)], rfl, ?_,
        .cons (hsub 0 15 rfl rfl (by omega) (by omega))
          (.cons (htail _) (.cons (htail n) .nil))⟩
      rw [tail_ofNat (by omega), if_neg (by omega), if_neg (by omega), if_neg (by omega),
        if_neg (by omega), if_neg (by omega), if_neg (by omega), if_pos (by omega)]
    · refine ⟨_, _, [(0x80, 0xBF), (0x80, 0xBF), (0x80, 0xBF)], rfl, ?_,
        .cons (htail _) (.cons (htail _) (.cons (htail n) .nil))⟩
      rw [tail_ofNat (by omega), if_neg (by omega), if_neg (by omega), if_neg (by omega),
        if_neg (by omega), if_neg (by omega), if_neg (by omega), if_neg (by omega),
        if_pos (by omega)]

/-- **Text is left as it is.** -/
theorem decodeLossy_text (l : List Char) :
    decodeLossy (l.flatMap String.utf8EncodeChar) = l.flatMap String.utf8EncodeChar := by
  induction l with
  | nil => rw [List.flatMap_nil, decodeLossy]
  | cons c l ih =>
    obtain ⟨b, v, ranges, hc, hb, hv⟩ := encodeChar_spec c
    rw [List.flatMap_cons, hc, decodeLossy_append hb hv, ih]

end Utf8
