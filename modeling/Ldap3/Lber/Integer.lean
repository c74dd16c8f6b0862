import Ldap3.Lber.Structures

/-!
# Integers of both signs

`i_e_into_structure` for every `i64`. The number of octets is counted from the magnitude. For a
positive number an octet is added where the sign bit would be set; for a negative one nothing makes
sure that it is set. So the content octets are those of a BER integer exactly when the magnitude of
a negative number leaves the sign bit to the sign (`integer_minimal_iff`); the others denote a
number that is not negative. The smallest `i64` has no magnitude, and the negation overflows.

The definition of `Ldap3.Lber.Structures` wraps where the machine does. Here is also what the
function does in a build that checks for overflow, without a value where an operation leaves its
type.
-/

namespace Ldap3

/-- The value is an `i64`. -/
def InI64 (n : ℤ) : Prop :=
  -2 ^ 63 ≤ n ∧ n < 2 ^ 63

instance (n : ℤ) : Decidable (InI64 n) :=
  inferInstanceAs (Decidable (_ ∧ _))

/-! ### With overflow checks -/

/-- The result of an operation on `i64`. -/
def checkedI64 (n : ℤ) : Option ℤ :=
  if InI64 n then some n else none

/-- The result of an operation on `u8`. -/
def checkedU8 (n : ℤ) : Option ℤ :=
  if 0 ≤ n ∧ n < 256 then some n else none

/-- The result of an operation on `usize`. -/
def checkedUsize (n : ℤ) : Option ℤ :=
  if 0 ≤ n ∧ n < 2 ^ 64 then some n else none

/-- `inner >> n` on `i64`, for the number of bits in a `u8`. -/
def checkedShr (inner n : ℤ) : Option ℤ :=
  if 0 ≤ n ∧ n < 64 then some (inner / 2 ^ n.toNat) else none

/-- The count of `i_e_into_structure`. The loop counts up, so its last count is the largest. -/
def checkedCount (inner : ℤ) : Option ℤ := do
  let rem ← if inner ≥ 0 then some inner else checkedI64 (-inner)
  let count ← checkedU8 (countOctets 8 rem.toNat)
  if inner > 0 then
    let bits ← checkedU8 (8 * count)
    let shift ← checkedU8 (bits - 1)
    let top ← checkedShr inner shift
    if top = 1 then checkedU8 (count + 1) else some count
  else
    some count

/-- `i_e_into_structure` in a build with overflow checks. -/
def checkedIntoStructure (id : UInt64) (cls : TagClass) (inner : ℤ) : Option StructureTag := do
  let count ← checkedCount inner
  let repr := BigEndian.octets 8 (inner % 2 ^ 64).toNat
  if count > repr.length then
    let start ← checkedUsize (repr.length - (count - 1))
    some ⟨cls, id, .P (0 :: repr.drop start.toNat)⟩
  else
    let start ← checkedUsize (repr.length - count)
    some ⟨cls, id, .P (repr.drop start.toNat)⟩

theorem checkedI64_of_inI64 {n : ℤ} (h : InI64 n) : checkedI64 n = some n :=
  if_pos h

theorem checkedU8_natCast {n : ℕ} (h : n < 256) : checkedU8 n = some (n : ℤ) :=
  if_pos ⟨Int.natCast_nonneg n, by exact_mod_cast h⟩

/-- On a magnitude the count stays in its type, also with the octet added for the sign. -/
theorem checkedCount_natCast {n : ℕ} : checkedCount n = some (integerCount n : ℤ) := by
  have hle : countOctets 8 n ≤ 8 := countOctets_le 8 n
  have hpos : 0 < countOctets 8 n := countOctets_pos 7 n
  have hcount : checkedU8 (countOctets 8 n) = some (countOctets 8 n : ℤ) :=
    checkedU8_natCast (by omega)
  have hbits : checkedU8 (8 * countOctets 8 n) = some (8 * countOctets 8 n : ℤ) :=
    if_pos ⟨by omega, by omega⟩
  have hshift : checkedU8 (8 * countOctets 8 n - 1) = some (8 * countOctets 8 n - 1 : ℤ) :=
    if_pos ⟨by omega, by omega⟩
  have htop : checkedShr n (8 * countOctets 8 n - 1) =
      some ((n : ℤ) / 2 ^ (8 * countOctets 8 n - 1)) := by
    have hnat : (8 * (countOctets 8 n : ℤ) - 1).toNat = 8 * countOctets 8 n - 1 := by omega
    rw [checkedShr, if_pos ⟨by omega, by omega⟩, hnat]
  have hnext : checkedU8 (countOctets 8 n + 1) = some (countOctets 8 n + 1 : ℤ) :=
    if_pos ⟨by omega, by omega⟩
  rw [checkedCount, if_pos (Int.natCast_nonneg n), integerCount_eq]
  simp only [Option.bind_eq_bind, Option.bind_some, Int.toNat_natCast, hcount, hbits, hshift, htop,
    hnext]
  by_cases hn : (n : ℤ) > 0
  · rw [if_pos hn]
    by_cases hbit : (n : ℤ) / 2 ^ (8 * countOctets 8 n - 1) = 1
    · rw [if_pos hbit, if_pos ⟨hn, hbit⟩]
      rfl
    · rw [if_neg hbit, if_neg fun h ↦ hbit h.2]
  · rw [if_neg hn, if_neg fun h ↦ hn h.1]

/-- The count of a negative number is that of its magnitude. -/
theorem integerCount_neg {m : ℕ} (hpos : 0 < m) (hlt : m < 2 ^ 63) :
    integerCount (-m) = countOctets 8 m := by
  have hneg : negI64 (-m) = m := by
    rw [negI64, if_neg (by omega), Int.neg_neg]
  have hge : ¬(-(m : ℤ) ≥ 0) := by omega
  have hgt : ¬(-(m : ℤ) > 0) := by omega
  have hmag : ¬(m : ℤ) < 0 := by omega
  rw [integerCount]
  simp only [if_neg hge, hneg, if_neg hmag, Int.toNat_natCast]
  rw [if_neg fun h ↦ hgt h.1]

theorem checkedCount_neg {m : ℕ} (hpos : 0 < m) (hlt : m < 2 ^ 63) :
    checkedCount (-m) = some (integerCount (-m) : ℤ) := by
  have hle := countOctets_le 8 m
  have hge : ¬(-(m : ℤ) ≥ 0) := by omega
  have hgt : ¬(-(m : ℤ) > 0) := by omega
  have hrem : checkedI64 (- -(m : ℤ)) = some (m : ℤ) := by
    rw [Int.neg_neg]
    exact checkedI64_of_inI64 ⟨by omega, by omega⟩
  have hcount : checkedU8 (countOctets 8 m) = some (countOctets 8 m : ℤ) :=
    checkedU8_natCast (by omega)
  rw [checkedCount, if_neg hge, hrem, integerCount_neg hpos hlt]
  simp only [Option.bind_eq_bind, Option.bind_some, Int.toNat_natCast, hcount, if_neg hgt]

theorem integerCount_le (n : ℤ) : integerCount n ≤ 9 := by
  have hcount (m : ℕ) : countOctets 8 m ≤ 8 := countOctets_le 8 m
  rw [integerCount]
  grind

/-- **The one overflow** is the negation of the smallest number. -/
theorem checkedIntoStructure_eq (id : UInt64) (cls : TagClass) {n : ℤ} (h : InI64 n) :
    checkedIntoStructure id cls n =
      if n = -2 ^ 63 then none else some (iEIntoStructure id cls n) := by
  split
  · rename_i hmin
    subst hmin
    rfl
  · rename_i hmin
    have hle := integerCount_le n
    have hcount : checkedCount n = some (integerCount n : ℤ) := by
      obtain ⟨m, rfl | rfl⟩ := n.eq_nat_or_neg
      · exact checkedCount_natCast
      · rcases Nat.eq_zero_or_pos m with rfl | hpos
        · exact checkedCount_natCast
        · exact checkedCount_neg hpos (by have hle := h.1; omega)
    simp only [checkedIntoStructure, hcount, Option.bind_eq_bind, Option.bind_some, iEIntoStructure,
      integerOctets, BigEndian.length_octets, gt_iff_lt, Nat.cast_ofNat]
    by_cases hlong : 8 < integerCount n
    · have hcast : (8 : ℤ) < integerCount n := by exact_mod_cast hlong
      have hnat : ((8 : ℤ) - (integerCount n - 1)).toNat = 8 - (integerCount n - 1) := by omega
      rw [if_pos hcast, if_pos hlong, checkedUsize, if_pos ⟨by omega, by omega⟩, Option.bind_some,
        hnat]
    · have hcast : ¬(8 : ℤ) < integerCount n := by exact_mod_cast hlong
      have hnat : ((8 : ℤ) - integerCount n).toNat = 8 - integerCount n := by omega
      rw [if_neg hcast, if_neg hlong, checkedUsize, if_pos ⟨by omega, by omega⟩, Option.bind_some,
        hnat]

/-! ### Negative numbers

The octets of `-m` are counted from `m`, and read as an unsigned number they denote the complement
of `m` in that many octets. -/

/-- The count of a magnitude is the least one that holds it. -/
theorem countOctets_spec {m : ℕ} (hpos : 0 < m) (hlt : m < 2 ^ 63) :
    ∃ w, countOctets 8 m = w + 1 ∧ w < 8 ∧ 256 ^ w ≤ m ∧ m < 256 ^ (w + 1) := by
  have hle : countOctets 8 m ≤ 8 := countOctets_le 8 m
  have hmag : m < 256 ^ countOctets 8 m := lt_pow_countOctets (by omega)
  obtain ⟨w, hw⟩ : ∃ w, countOctets 8 m = w + 1 :=
    Nat.exists_eq_succ_of_ne_zero (countOctets_pos 7 m).ne'
  rw [hw] at hmag hle
  refine ⟨w, hw, by omega, ?_, hmag⟩
  rcases w with - | w
  · exact hpos
  · exact pow_le_of_countOctets hw

/-- The octets of a negative number, as an unsigned number. -/
theorem integerOctets_neg {m w : ℕ} (hpos : 0 < m) (hlt : m < 2 ^ 63)
    (hcount : countOctets 8 m = w + 1) (hmag : m < 256 ^ (w + 1)) :
    (integerOctets (-m)).length = w + 1 ∧
      BigEndian.value (integerOctets (-m)) = 256 ^ (w + 1) - m := by
  have hle : w + 1 ≤ 8 := hcount ▸ countOctets_le 8 m
  have hrepr : (-(m : ℤ) % 2 ^ 64).toNat = 256 ^ 8 - m := by omega
  have hocts : integerOctets (-m) = BigEndian.octets (w + 1) (256 ^ 8 - m) := by
    have hdrop := BigEndian.drop_octets (8 - (w + 1)) (w + 1) (256 ^ 8 - m)
    rw [Nat.sub_add_cancel hle] at hdrop
    rw [integerOctets]
    simp only [hrepr, integerCount_neg hpos hlt, hcount, BigEndian.length_octets]
    rw [if_neg (Nat.not_lt.2 hle), hdrop]
  -- The high octets of the representation are all ones, and cutting them keeps the complement.
  have hmod : (256 ^ 8 - m) % 256 ^ (w + 1) = 256 ^ (w + 1) - m := by
    have hsplit : 256 ^ 8 = 256 ^ (w + 1) * 256 ^ (8 - (w + 1)) := by
      rw [← Nat.pow_add, Nat.add_sub_cancel' hle]
    obtain ⟨k, hk⟩ : ∃ k, 256 ^ (8 - (w + 1)) = k + 1 :=
      Nat.exists_eq_succ_of_ne_zero (Nat.pow_pos (by decide)).ne'
    have hsum : 256 ^ 8 - m = 256 ^ (w + 1) - m + 256 ^ (w + 1) * k := by
      rw [hsplit, hk, Nat.mul_add, Nat.mul_one]
      omega
    rw [hsum, Nat.add_mul_mod_self_left, Nat.mod_eq_of_lt (by omega)]
  rw [hocts]
  exact ⟨BigEndian.length_octets _ _, by rw [BigEndian.value_octets, hmod]⟩

/-- The octets of a negative number denote it just when its magnitude leaves the sign bit set, and
they are then a minimal string of it. -/
theorem integerOctets_neg_iff {m w : ℕ} (hpos : 0 < m) (hlt : m < 2 ^ 63)
    (hcount : countOctets 8 m = w + 1) (hge : 256 ^ w ≤ m) (hmag : m < 256 ^ (w + 1)) :
    BigEndian.signed (integerOctets (-m)) = -m ∧ BigEndian.Minimal (integerOctets (-m)) ↔
      m ≤ 128 * 256 ^ w := by
  obtain ⟨hlen, hval⟩ := integerOctets_neg hpos hlt hcount hmag
  obtain ⟨b, bs, hbs⟩ : ∃ b bs, integerOctets (-m) = b :: bs :=
    List.exists_cons_of_ne_nil (by rintro heq; rw [heq] at hlen; cases hlen)
  rw [hbs] at hlen hval ⊢
  have hbsw : bs.length = w := by simpa using hlen
  have hsucc : 256 ^ (w + 1) = 256 * 256 ^ w := Nat.pow_succ'
  constructor
  · rintro ⟨hsigned, -⟩
    by_contra hbig
    have hb : b.toNat < 128 := BigEndian.toNat_head_lt (by rw [hval, hbsw]; omega)
    rw [BigEndian.signed_of_lt hb, hval] at hsigned
    omega
  · intro hsmall
    have hb : 128 ≤ b.toNat := BigEndian.le_toNat_head (by rw [hval, hbsw]; omega)
    constructor
    · rw [BigEndian.signed_of_le hb, hval, hbsw, Nat.cast_sub hmag.le]
      push_cast
      ring
    · rcases w with - | w
      · obtain rfl := List.eq_nil_of_length_eq_zero hbsw
        trivial
      · refine BigEndian.minimal_of_lt hlen (by rw [hval]; omega) ?_
        rw [hval]
        have hsucc' : 256 ^ (w + 1) = 256 * 256 ^ w := Nat.pow_succ'
        have hw : 0 < 256 ^ w := Nat.pow_pos (by decide)
        omega

/-! ### The numbers written as they are -/

/-- The magnitude of the number, if it is negative, leaves the first of its octets room for the
sign. -/
def LeavesSign (n : ℤ) : Prop :=
  ∀ w < 8, ¬(128 * 256 ^ w < -n ∧ -n < 256 ^ (w + 1))

instance (n : ℤ) : Decidable (LeavesSign n) :=
  inferInstanceAs (Decidable (∀ w < 8, _))

theorem leavesSign_natCast (n : ℕ) : LeavesSign n := by
  rintro w - ⟨hlow, -⟩
  have hpos : (0 : ℤ) < 256 ^ w := Int.pow_pos (by decide)
  omega

theorem leavesSign_neg_iff {m w : ℕ} (hw : w < 8) (hge : 256 ^ w ≤ m) (hmag : m < 256 ^ (w + 1)) :
    LeavesSign (-m) ↔ m ≤ 128 * 256 ^ w := by
  simp only [LeavesSign, Int.neg_neg]
  constructor
  · intro h
    by_contra hbig
    exact h w hw ⟨by exact_mod_cast Nat.not_le.1 hbig, by exact_mod_cast hmag⟩
  · rintro hsmall v - ⟨hlow, hhigh⟩
    have hlow : 128 * 256 ^ v < m := by exact_mod_cast hlow
    have hhigh : m < 256 ^ (v + 1) := by exact_mod_cast hhigh
    -- A magnitude has one octet count only.
    have hvw : v = w := by
      have h₁ : w < v + 1 := (Nat.pow_lt_pow_iff_right (by decide)).1 (hge.trans_lt hhigh)
      have h₂ : 256 ^ v < 256 ^ (w + 1) := by omega
      have h₂ : v < w + 1 := (Nat.pow_lt_pow_iff_right (by decide)).1 h₂
      omega
    subst hvw
    omega

/-- The content octets are the BER integer of the number just when its sign has room. -/
theorem integerOctets_minimal_iff {n : ℤ} (h : InI64 n) (hmin : n ≠ -2 ^ 63) :
    BigEndian.signed (integerOctets n) = n ∧ BigEndian.Minimal (integerOctets n) ↔
      LeavesSign n := by
  obtain ⟨hle, hlt⟩ := h
  obtain ⟨m, rfl | rfl⟩ := n.eq_nat_or_neg
  · exact iff_of_true (integerOctets_natCast (by omega)) (leavesSign_natCast m)
  · rcases Nat.eq_zero_or_pos m with rfl | hpos
    · exact iff_of_true (integerOctets_natCast (by decide)) (leavesSign_natCast 0)
    · have hm : m < 2 ^ 63 := by omega
      obtain ⟨w, hcount, hw, hge, hmag⟩ := countOctets_spec hpos hm
      rw [integerOctets_neg_iff hpos hm hcount hge hmag, leavesSign_neg_iff hw hge hmag]

/-- **The conversion of an `i64` is the minimal two's complement string of it** exactly when the
number can be negated and its magnitude leaves room for the sign. -/
theorem integer_minimal_iff (id : UInt64) (cls : TagClass) {n : ℤ} (h : InI64 n) :
    (∃ bs, checkedIntoStructure id cls n = some ⟨cls, id, .P bs⟩ ∧
        BigEndian.signed bs = n ∧ BigEndian.Minimal bs) ↔
      n ≠ -2 ^ 63 ∧ LeavesSign n := by
  rw [checkedIntoStructure_eq id cls h]
  by_cases hmin : n = -2 ^ 63
  · rw [if_pos hmin]
    simp [hmin]
  · rw [if_neg hmin, ← integerOctets_minimal_iff h hmin, and_iff_right hmin]
    constructor
    · rintro ⟨bs, heq, hbs⟩
      obtain rfl : integerOctets n = bs := by simpa [iEIntoStructure] using heq
      exact hbs
    · exact fun hbs ↦ ⟨integerOctets n, rfl, hbs⟩

theorem integer_minimal_iff_neg_128 :
    ∃ bs, checkedIntoStructure 2 .universal (-128) = some ⟨.universal, 2, .P bs⟩ ∧
      BigEndian.signed bs = -128 ∧ BigEndian.Minimal bs :=
  (integer_minimal_iff 2 .universal (by decide)).2 ⟨by decide, by decide⟩

/-- The magnitude of `-129` takes all eight bits of one octet, and the octet written is that of
`127`. -/
theorem integer_neg_129_not_minimal :
    InI64 (-129) ∧ checkedIntoStructure 2 .universal (-129) = some ⟨.universal, 2, .P [0x7F]⟩ ∧
      BigEndian.signed [0x7F] = 127 ∧
      ¬∃ bs, checkedIntoStructure 2 .universal (-129) = some ⟨.universal, 2, .P bs⟩ ∧
        BigEndian.signed bs = -129 ∧ BigEndian.Minimal bs := by
  have heq : checkedIntoStructure 2 .universal (-129) = some ⟨.universal, 2, .P [0x7F]⟩ := by
    decide +kernel
  refine ⟨by decide, heq, by decide, ?_⟩
  rintro ⟨bs, hbs, hsigned, -⟩
  obtain rfl : [0x7F] = bs := by
    rw [heq] at hbs
    simpa using hbs
  exact absurd hsigned (by decide)

end Ldap3
