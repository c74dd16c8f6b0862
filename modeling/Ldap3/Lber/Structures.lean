import Ldap3.Lber.Structure

/-!
# Typed tags and their structures

The ASN.1 types the client builds requests from (`lber/src/structures`) and their conversion to
a generic `StructureTag`, `ASNTag::into_structure`. Each constructor of `Tag` carries the fields
of the corresponding source struct; the `..Default::default()` forms are the definitions in the
namespace `Types` and the `of*` constructors below it.

`Integer` and `Enumerated` share one writer, `i_e_into_structure`. Its `i64` is an `ℤ` here, with
the two places where the machine type shows made explicit: `-inner` wraps at `i64::MIN`, and
`to_be_bytes` writes the two's complement octets.
-/

namespace Ldap3

/-! ### Universal tag numbers

`universal::Types`, as far as the modelled code names its members. -/

namespace Types

def boolean : UInt64 := 1
def integer : UInt64 := 2
def octetString : UInt64 := 4
def null : UInt64 := 5
def enumerated : UInt64 := 10
def sequence : UInt64 := 16
def set : UInt64 := 17

end Types

/-- `structures::Tag`. `inner` of `Integer` and `Enumerated` is an `i64`. -/
inductive Tag where
  | integer (id : UInt64) (cls : TagClass) (inner : ℤ)
  | enumerated (id : UInt64) (cls : TagClass) (inner : ℤ)
  | sequence (id : UInt64) (cls : TagClass) (inner : List Tag)
  | set (id : UInt64) (cls : TagClass) (inner : List Tag)
  | octetString (id : UInt64) (cls : TagClass) (inner : List UInt8)
  | boolean (id : UInt64) (cls : TagClass) (inner : Bool)
  | null (id : UInt64) (cls : TagClass)
  | explicitTag (id : UInt64) (cls : TagClass) (inner : Tag)
  | structureTag (t : StructureTag)

namespace Tag

/-! ### Defaults of the source structs -/

def ofInteger (inner : ℤ) : Tag := .integer Types.integer .universal inner
def ofEnumerated (inner : ℤ) : Tag := .enumerated Types.enumerated .universal inner
def ofOctetString (inner : List UInt8) : Tag := .octetString Types.octetString .universal inner
def ofBoolean (inner : Bool) : Tag := .boolean Types.boolean .universal inner
def ofSequence (inner : List Tag) : Tag := .sequence Types.sequence .universal inner
def ofSet (inner : List Tag) : Tag := .set Types.set .universal inner
def ofNull : Tag := .null Types.null .universal

end Tag

/-! ### Integers -/

/-- The `while` loop counting the octets of a magnitude: one octet, and one more for each
non-zero shift. `fuel` is the octet count of the machine word, which bounds the iterations. -/
def countOctets : (fuel : ℕ) → (rem : ℕ) → ℕ
  | 0, _ => 0
  | fuel + 1, rem => if rem / 256 > 0 then 1 + countOctets fuel (rem / 256) else 1

/-- `-inner` on `i64`: the one value without a negation is its own. -/
def negI64 (inner : ℤ) : ℤ :=
  if inner = -2 ^ 63 then inner else -inner

/-- The `count` of `i_e_into_structure` after both of its computations. A wrapped `rem` is
negative, so the loop body runs once. -/
def integerCount (inner : ℤ) : ℕ :=
  let rem := if inner ≥ 0 then inner else negI64 inner
  let count := if rem < 0 then 1 else countOctets 8 rem.toNat
  -- The most significant bit must stay clear, because BER uses signed numbers.
  if inner > 0 ∧ inner / 2 ^ (8 * count - 1) = 1 then count + 1 else count

/-- The content octets written for an `i64`. -/
def integerOctets (inner : ℤ) : List UInt8 :=
  let count := integerCount inner
  let repr := BigEndian.octets 8 (inner % 2 ^ 64).toNat
  if count > repr.length then
    0 :: repr.drop (repr.length - (count - 1))
  else
    repr.drop (repr.length - count)

def iEIntoStructure (id : UInt64) (cls : TagClass) (inner : ℤ) : StructureTag :=
  ⟨cls, id, .P (integerOctets inner)⟩

/-! ### Conversion -/

mutual

/-- `ASNTag::into_structure` of every type. -/
def Tag.intoStructure : Tag → StructureTag
  | .integer id cls inner => iEIntoStructure id cls inner
  | .enumerated id cls inner => iEIntoStructure id cls inner
  | .sequence id cls inner => ⟨cls, id, .C (Tag.intoStructures inner)⟩
  | .set id cls inner => ⟨cls, id, .C (Tag.intoStructures inner)⟩
  | .octetString id cls inner => ⟨cls, id, .P inner⟩
  | .boolean id cls inner => ⟨cls, id, .P (if inner then [0xFF] else [0x00])⟩
  | .null id cls => ⟨cls, id, .P []⟩
  | .explicitTag id cls inner => ⟨cls, id, .C [inner.intoStructure]⟩
  | .structureTag t => t

/-- `into_structure` mapped over the elements of a sequence or set. -/
def Tag.intoStructures : List Tag → List StructureTag
  | [] => []
  | t :: ts => t.intoStructure :: Tag.intoStructures ts

end

theorem Tag.intoStructures_eq_map (ts : List Tag) :
    Tag.intoStructures ts = ts.map Tag.intoStructure := by
  induction ts with
  | nil => rfl
  | cons t ts ih => rw [Tag.intoStructures, ih, List.map_cons]

/-- An OCTET STRING. -/
def octetStringTag (v : List UInt8) : StructureTag :=
  ⟨.universal, Types.octetString, .P v⟩

/-! ### Reading integers back

The count taken by the loop is enough for the magnitude, and never more than the eight octets of
the representation, so cutting the representation to it loses nothing. -/

theorem countOctets_le (fuel rem : ℕ) : countOctets fuel rem ≤ fuel := by
  induction fuel generalizing rem with
  | zero => exact Nat.le_refl 0
  | succ fuel ih =>
    have hle := ih (rem / 256)
    rw [countOctets]
    split <;> omega

/-- The counted octets hold the magnitude. -/
theorem lt_pow_countOctets {fuel rem : ℕ} (h : rem < 256 ^ fuel) :
    rem < 256 ^ countOctets fuel rem := by
  induction fuel generalizing rem with
  | zero => simpa [countOctets] using h
  | succ fuel ih =>
    have hdiv : rem / 256 < 256 ^ fuel := by
      rw [Nat.div_lt_iff_lt_mul (by decide)]
      rwa [Nat.pow_succ] at h
    have hlt := ih hdiv
    rw [countOctets]
    split
    · rw [Nat.pow_add, Nat.pow_one]
      omega
    · rw [Nat.pow_one]
      omega

/-- Non-negative numbers are their own magnitude. -/
theorem integerCount_eq (n : ℕ) : integerCount n =
    if (n : ℤ) > 0 ∧ (n : ℤ) / 2 ^ (8 * countOctets 8 n - 1) = 1 then countOctets 8 n + 1
    else countOctets 8 n := by
  have hneg : ¬(n : ℤ) < 0 := by omega
  simp [integerCount, hneg]

/-- On non-negative numbers the count holds the number and stays within the machine word. -/
theorem integerCount_natCast {n : ℕ} (h : n < 2 ^ 63) :
    n < 256 ^ integerCount n ∧ integerCount n ≤ 8 := by
  have hle := countOctets_le 8 n
  have hlt : n < 256 ^ countOctets 8 n := lt_pow_countOctets (by omega)
  rw [integerCount_eq]
  split
  case isTrue hbit =>
    -- A full eighth octet would need the number to reach `2 ^ 63`.
    have hne : countOctets 8 n ≠ 8 := by
      intro h8
      have hzero : (n : ℤ) / 2 ^ 63 = 0 := Int.ediv_eq_zero_of_lt (by omega) (by exact_mod_cast h)
      rw [h8] at hbit
      omega
    refine ⟨hlt.trans (Nat.pow_lt_pow_right (by decide) (Nat.lt_succ_self _)), by omega⟩
  case isFalse => exact ⟨hlt, hle⟩

/-- The content octets of a non-negative number denote it. -/
theorem value_integerOctets {n : ℕ} (h : n < 2 ^ 63) : BigEndian.value (integerOctets n) = n := by
  obtain ⟨hlt, hle⟩ := integerCount_natCast h
  have hrepr : ((n : ℤ) % 2 ^ 64).toNat = n := by omega
  have hcut : (8 - integerCount n) + integerCount n = 8 := by omega
  have hdrop := BigEndian.drop_octets (8 - integerCount n) (integerCount n) n
  rw [hcut] at hdrop
  rw [integerOctets]
  simp only [hrepr, BigEndian.length_octets]
  rw [if_neg (by omega), hdrop, BigEndian.value_octets_of_lt hlt]

/-- A count of more than one octet is needed for the magnitude. -/
theorem pow_le_of_countOctets {fuel rem c : ℕ} (h : countOctets fuel rem = c + 2) :
    256 ^ (c + 1) ≤ rem := by
  induction fuel generalizing rem c with
  | zero => cases h
  | succ fuel ih =>
    rw [countOctets] at h
    split at h
    case isTrue hpos =>
      rcases c with - | c
      · rw [Nat.zero_add, Nat.pow_one]
        omega
      · have hdiv : 256 ^ (c + 1) ≤ rem / 256 := ih (by omega)
        rw [Nat.le_div_iff_mul_le (by decide)] at hdiv
        rwa [Nat.pow_succ]
    case isFalse => omega

theorem countOctets_pos (fuel rem : ℕ) : 0 < countOctets (fuel + 1) rem := by
  rw [countOctets]
  split <;> omega

/-- The count for a non-negative number: the octets of the magnitude, and one more if they leave no
room for the sign. -/
theorem integerCount_spec {n : ℕ} (h : n < 2 ^ 63) :
    ∃ w, integerCount n = w + 1 ∧ n < 128 * 256 ^ w ∧
      ∀ v, w = v + 1 → 128 * 256 ^ v ≤ n := by
  have hlt : n < 256 ^ countOctets 8 n := lt_pow_countOctets (by omega)
  obtain ⟨c, hc⟩ : ∃ c, countOctets 8 n = c + 1 :=
    Nat.exists_eq_succ_of_ne_zero (countOctets_pos 7 n).ne'
  have hpow : 2 ^ (8 * (c + 1) - 1) = 128 * 256 ^ c := by
    rw [show 8 * (c + 1) - 1 = 7 + 8 * c by omega, Nat.pow_add, Nat.pow_mul]
  have hcount : integerCount n =
      if 0 < n ∧ n / (128 * 256 ^ c) = 1 then c + 2 else c + 1 := by
    have hdiv : (n : ℤ) / 2 ^ (8 * (c + 1) - 1) = ((n / (128 * 256 ^ c) : ℕ) : ℤ) := by
      rw [← hpow]
      push_cast
      rfl
    rw [integerCount_eq, hc, hdiv]
    simp only [gt_iff_lt, Int.natCast_pos, Nat.cast_eq_one]
  rw [hc] at hlt
  have hpos : 0 < 128 * 256 ^ c := Nat.mul_pos (by decide) (Nat.pow_pos (by decide))
  by_cases hbit : 0 < n ∧ n / (128 * 256 ^ c) = 1
  · rw [if_pos hbit] at hcount
    have hle : 128 * 256 ^ c ≤ n := by
      by_contra hlt'
      rw [Nat.div_eq_of_lt (Nat.not_le.1 hlt')] at hbit
      exact absurd hbit.2 (by decide)
    refine ⟨c + 1, hcount, hlt.trans_le (Nat.le_mul_of_pos_left _ (by decide)), fun v hv ↦ ?_⟩
    obtain rfl : c = v := by omega
    exact hle
  · rw [if_neg hbit] at hcount
    have hltc : n < 128 * 256 ^ c := by
      by_contra hge
      have hge := Nat.not_lt.1 hge
      have htwo : n < 2 * (128 * 256 ^ c) := by
        rw [Nat.pow_succ] at hlt
        omega
      have hone : n / (128 * 256 ^ c) = 1 :=
        Nat.div_eq_of_lt_le (by omega) (by omega)
      exact hbit ⟨hpos.trans_le hge, hone⟩
    refine ⟨c, hcount, hltc, fun v hv ↦ ?_⟩
    subst hv
    have hge := pow_le_of_countOctets hc
    rw [Nat.pow_succ] at hge
    omega

/-- The content octets of a non-negative number are a minimal string of it, sign included. -/
theorem integerOctets_natCast {n : ℕ} (h : n < 2 ^ 63) :
    BigEndian.signed (integerOctets n) = n ∧ BigEndian.Minimal (integerOctets n) := by
  obtain ⟨w, hw, hlt, hge⟩ := integerCount_spec h
  have hval := value_integerOctets h
  have hlen : (integerOctets n).length = w + 1 := by
    obtain ⟨-, hle⟩ := integerCount_natCast h
    have hle' : ¬integerCount n > 8 := by omega
    simp only [integerOctets, BigEndian.length_octets, hle', if_false, List.length_drop]
    omega
  obtain ⟨b, bs, hbs⟩ : ∃ b bs, integerOctets n = b :: bs :=
    List.exists_cons_of_ne_nil (by rintro heq; rw [heq] at hlen; cases hlen)
  rw [hbs] at hval hlen ⊢
  have hbsw : bs.length = w := by simpa using hlen
  have hb : b.toNat < 128 := BigEndian.toNat_head_lt (by rw [hval, hbsw]; exact hlt)
  refine ⟨by rw [BigEndian.signed_of_lt hb, hval], ?_⟩
  rcases w with - | w
  · obtain rfl := List.eq_nil_of_length_eq_zero hbsw
    trivial
  · exact BigEndian.minimal_of_le hlen (by rwa [hval]) (by rw [hval]; exact hge w rfl)

end Ldap3
