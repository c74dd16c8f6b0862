import Mathlib.Data.List.Basic
import Mathlib.Tactic.Ring

/-!
# Big-endian octet strings

Numbers as octet strings, most significant octet first: the reading every length and integer
field of a tag-length-value format goes through. `value` reads a string of any length,
`octets w n` writes the low `w` octets of `n`, and `signed` is the two's complement reading.

The two directions meet in `value_octets` (writing then reading keeps the number modulo
`256 ^ w`) and in `drop_octets` (a fixed-width representation cut from the left is a shorter
representation of the same number), which is the shape in which writers use a machine word's
`to_be_bytes`.
-/

namespace BigEndian

/-- The number an octet string denotes, most significant octet first. -/
def value (bs : List UInt8) : ℕ :=
  bs.foldl (fun n b ↦ n * 256 + b.toNat) 0

/-- The low `w` octets of `n`, most significant first. -/
def octets : ℕ → ℕ → List UInt8
  | 0, _ => []
  | w + 1, n => octets w (n / 256) ++ [UInt8.ofNat n]

/-- The two's complement reading of an octet string; the empty string reads as `0`. -/
def signed (bs : List UInt8) : ℤ :=
  match bs with
  | [] => 0
  | b :: _ => if b.toNat < 128 then value bs else (value bs : ℤ) - 256 ^ bs.length

@[simp] theorem value_nil : value [] = 0 := rfl

@[simp] theorem value_singleton (b : UInt8) : value [b] = b.toNat := by
  simp [value]

private theorem foldl_value (bs : List UInt8) (n : ℕ) :
    bs.foldl (fun n b ↦ n * 256 + b.toNat) n = n * 256 ^ bs.length + value bs := by
  induction bs generalizing n with
  | nil => simp
  | cons b bs ih =>
    rw [value, List.foldl_cons, List.foldl_cons, ih, ih (0 * 256 + b.toNat), List.length_cons]
    ring

theorem value_append (as bs : List UInt8) :
    value (as ++ bs) = value as * 256 ^ bs.length + value bs := by
  rw [value, List.foldl_append, foldl_value]
  rfl

theorem value_cons (b : UInt8) (bs : List UInt8) :
    value (b :: bs) = b.toNat * 256 ^ bs.length + value bs := by
  rw [← List.singleton_append, value_append, value_singleton]

/-- `k` octets denote a number below `256 ^ k`. -/
theorem value_lt (bs : List UInt8) : value bs < 256 ^ bs.length := by
  induction bs with
  | nil => simp
  | cons b bs ih =>
    have hb : b.toNat ≤ 255 := Nat.le_of_lt_succ b.toNat_lt
    have hmul : b.toNat * 256 ^ bs.length ≤ 255 * 256 ^ bs.length := Nat.mul_le_mul_right _ hb
    rw [value_cons, List.length_cons, Nat.pow_succ]
    omega

/-- The low octets of a number are those behind its first. -/
theorem value_cons_mod (b : UInt8) (bs : List UInt8) :
    value (b :: bs) % 256 ^ bs.length = value bs := by
  rw [value_cons, Nat.mul_add_mod_self_right, Nat.mod_eq_of_lt (value_lt bs)]

@[simp] theorem length_octets (w n : ℕ) : (octets w n).length = w := by
  induction w generalizing n with
  | zero => rfl
  | succ w ih => simp [octets, ih]

/-- Writing `w` octets and reading them back keeps the number modulo `256 ^ w`. -/
theorem value_octets (w n : ℕ) : value (octets w n) = n % 256 ^ w := by
  induction w generalizing n with
  | zero => simp [octets, Nat.mod_one]
  | succ w ih =>
    calc value (octets (w + 1) n)
        = n / 256 % 256 ^ w * 256 + n % 256 := by
          rw [octets, value_append, ih, value_singleton]
          simp
      _ = n % 256 ^ (w + 1) := by
          rw [Nat.pow_succ', Nat.mod_mul]
          ring

theorem value_octets_of_lt {w n : ℕ} (h : n < 256 ^ w) : value (octets w n) = n := by
  rw [value_octets, Nat.mod_eq_of_lt h]

/-- Cutting the high octets off a representation leaves the shorter representation. -/
theorem drop_octets (k w n : ℕ) : (octets (k + w) n).drop k = octets w n := by
  induction w generalizing n with
  | zero => exact List.drop_of_length_le (by simp)
  | succ w ih =>
    rw [← Nat.add_assoc, octets, List.drop_append_of_le_length (by simp), ih]
    rfl

/-- A reading with a clear sign bit is the unsigned one. -/
theorem signed_of_lt {b : UInt8} {bs : List UInt8} (h : b.toNat < 128) :
    signed (b :: bs) = value (b :: bs) := by
  simp [signed, h]

/-- A reading with the sign bit set is negative. -/
theorem signed_neg {b : UInt8} {bs : List UInt8} (h : 128 ≤ b.toNat) : signed (b :: bs) < 0 := by
  have hlt := value_lt (b :: bs)
  simp only [signed, if_neg (Nat.not_lt.2 h), sub_neg]
  exact_mod_cast hlt

/-- The string is no longer than the number it denotes as two's complement asks for: its first nine
bits are not all equal. -/
def Minimal : List UInt8 → Prop
  | [] => False
  | [_] => True
  | b :: c :: _ => ¬(b = 0 ∧ c.toNat < 128) ∧ ¬(b = 255 ∧ 128 ≤ c.toNat)

instance (bs : List UInt8) : Decidable (Minimal bs) :=
  match bs with
  | [] => isFalse id
  | [_] => isTrue trivial
  | _ :: _ :: _ => inferInstanceAs (Decidable (_ ∧ _))

/-- The first octet is the quotient by the weight of the others. -/
theorem toNat_head (b : UInt8) (bs : List UInt8) :
    b.toNat = value (b :: bs) / 256 ^ bs.length := by
  rw [value_cons, Nat.mul_comm, Nat.mul_add_div (Nat.pow_pos (by decide)),
    Nat.div_eq_of_lt (value_lt bs), Nat.add_zero]

/-- As many octets for the same number are the same octets. -/
theorem eq_of_value_eq {bs cs : List UInt8} (hlen : bs.length = cs.length)
    (h : value bs = value cs) : bs = cs := by
  induction bs generalizing cs with
  | nil => exact (List.length_eq_zero_iff.1 hlen.symm).symm
  | cons b bs ih =>
    obtain ⟨c, cs, rfl⟩ := List.exists_cons_of_length_eq_add_one hlen.symm
    have htail : bs.length = cs.length := Nat.succ.inj hlen
    have hhead : b.toNat = c.toNat := by
      rw [toNat_head b bs, toNat_head c cs, h, htail]
    have hrest : value bs = value cs := by
      rw [← value_cons_mod b bs, ← value_cons_mod c cs, h, htail]
    rw [UInt8.toNat_inj.1 hhead, ih htail hrest]

/-- Half the range is below the sign bit. -/
theorem toNat_head_lt {b : UInt8} {bs : List UInt8}
    (h : value (b :: bs) < 128 * 256 ^ bs.length) : b.toNat < 128 := by
  rw [toNat_head b bs]
  exact (Nat.div_lt_iff_lt_mul (Nat.pow_pos (by decide))).2 h

/-- A string of a non-negative number is minimal if a shorter one would not do. -/
theorem minimal_of_le {bs : List UInt8} {w : ℕ} (hlen : bs.length = w + 2)
    (hlt : value bs < 128 * 256 ^ (w + 1)) (hle : 128 * 256 ^ w ≤ value bs) : Minimal bs := by
  obtain ⟨b, c, ds, rfl⟩ : ∃ b c ds, bs = b :: c :: ds := by
    rcases bs with - | ⟨b, - | ⟨c, ds⟩⟩
    · cases hlen
    · cases hlen
    · exact ⟨b, c, ds, rfl⟩
  have hds : ds.length = w := by simpa using hlen
  subst hds
  have hb : b.toNat < 128 := toNat_head_lt (by rwa [List.length_cons])
  refine ⟨?_, fun h ↦ ?_⟩
  · rintro ⟨rfl, hc⟩
    -- With a leading zero the value is that of the rest, whose sign bit is clear.
    have hrest : value (0 :: c :: ds) = c.toNat * 256 ^ ds.length + value ds := by
      rw [value_cons, value_cons, UInt8.toNat_zero, Nat.zero_mul, Nat.zero_add]
    have hmul : (c.toNat + 1) * 256 ^ ds.length ≤ 128 * 256 ^ ds.length :=
      Nat.mul_le_mul_right _ hc
    have hds := value_lt ds
    rw [Nat.add_mul, Nat.one_mul] at hmul
    omega
  · rw [h.1] at hb
    exact absurd hb (by decide)

/-! ### Negative numbers -/

/-- The other half of the range is from the sign bit on. -/
theorem le_toNat_head {b : UInt8} {bs : List UInt8}
    (h : 128 * 256 ^ bs.length ≤ value (b :: bs)) : 128 ≤ b.toNat := by
  rw [toNat_head b bs]
  exact (Nat.le_div_iff_mul_le (Nat.pow_pos (by decide))).2 h

theorem signed_of_le {b : UInt8} {bs : List UInt8} (h : 128 ≤ b.toNat) :
    signed (b :: bs) = (value (b :: bs) : ℤ) - 256 ^ (bs.length + 1) := by
  rw [signed, if_neg (Nat.not_lt.2 h), List.length_cons]

/-- A string of a negative number is minimal if a shorter one would not do. -/
theorem minimal_of_lt {bs : List UInt8} {w : ℕ} (hlen : bs.length = w + 2)
    (hle : 128 * 256 ^ (w + 1) ≤ value bs)
    (hlt : value bs < 255 * 256 ^ (w + 1) + 128 * 256 ^ w) : Minimal bs := by
  obtain ⟨b, c, ds, rfl⟩ : ∃ b c ds, bs = b :: c :: ds := by
    rcases bs with - | ⟨b, - | ⟨c, ds⟩⟩
    · cases hlen
    · cases hlen
    · exact ⟨b, c, ds, rfl⟩
  have hds : ds.length = w := by simpa using hlen
  subst hds
  have hb : 128 ≤ b.toNat := le_toNat_head (by rwa [List.length_cons])
  refine ⟨fun h ↦ ?_, ?_⟩
  · rw [h.1] at hb
    exact absurd hb (by decide)
  · rintro ⟨rfl, hc⟩
    -- With 255 in front the second octet would have to be below the sign bit.
    have hrest : value (255 :: c :: ds) =
        255 * 256 ^ (ds.length + 1) + (c.toNat * 256 ^ ds.length + value ds) := by
      rw [value_cons, value_cons, List.length_cons]
      rfl
    have hmul : 128 * 256 ^ ds.length ≤ c.toNat * 256 ^ ds.length := Nat.mul_le_mul_right _ hc
    omega

end BigEndian
