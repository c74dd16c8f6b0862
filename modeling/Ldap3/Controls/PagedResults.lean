import Ldap3.Lber.Integer
import Ldap3.Search.Stream

/-!
# The Paged Results control, sent and read back

The same control carries the size wanted and the size estimated, an `i32` each. The two directions
do not agree on the integer between them: it is written as `i_e_into_structure` writes an `i64`,
and read as an unsigned number of up to eight octets that is then cut to an `i32`. A negative
number is found again only if its octets fill the `i32` (`parse_raw_iff`). The cookie always is.
-/

namespace Ldap3

/-! ### The integer -/

theorem bmod_of_lt {n : ℕ} (hlt : n < 2 ^ 32) :
    Int.bmod n (2 ^ 32) = if n < 2 ^ 31 then (n : ℤ) else n - 2 ^ 32 := by
  rw [Int.bmod_def, ← Int.natCast_mod, Nat.mod_eq_of_lt hlt]
  by_cases hn : n < 2 ^ 31
  · rw [if_pos hn, if_pos (by omega)]
  · rw [if_neg hn, if_neg (by omega)]
    norm_num

/-- Up to four octets, read as an `i32`. -/
theorem asI32_parseUint_of_value {bs : List UInt8} {n : ℕ} (hval : BigEndian.value bs = n)
    (hlt : n < 2 ^ 32) :
    asI32 (parseUint bs) = if n < 2 ^ 31 then (n : ℤ) else n - 2 ^ 32 := by
  have hread : (parseUint bs).toNat = n := by
    rw [parseUint_toNat, hval, Nat.mod_eq_of_lt (by omega)]
  have hcut := bmod_of_lt hlt
  rw [← hread] at hcut ⊢
  exact hcut

/-- The integer is read back if it is not negative, or if all four octets are written for it. -/
theorem asI32_integerOctets_iff {n : ℤ} (h : InI32 n) :
    asI32 (parseUint (integerOctets n)) = n ↔ 0 ≤ n ∨ n ≤ -2 ^ 24 := by
  obtain ⟨hle, hlt⟩ := h
  obtain ⟨m, rfl | rfl⟩ := n.eq_nat_or_neg
  · have hval := value_integerOctets (show m < 2 ^ 63 by omega)
    rw [asI32_parseUint_of_value hval (by omega), if_pos (by omega)]
    exact iff_of_true rfl (by omega)
  · rcases Nat.eq_zero_or_pos m with rfl | hpos
    · exact iff_of_true (by decide) (by decide)
    have hm : m < 2 ^ 63 := by omega
    obtain ⟨w, hcount, -, hge, hmag⟩ := countOctets_spec hpos hm
    obtain ⟨-, hval⟩ := integerOctets_neg hpos hm hcount hmag
    have hw : w < 4 := by
      by_contra hw
      have hpow : 256 ^ 4 ≤ 256 ^ w := Nat.pow_le_pow_right (by decide) (by omega)
      omega
    have hpow : 256 ^ (w + 1) ≤ 256 ^ 4 := Nat.pow_le_pow_right (by decide) (by omega)
    obtain ⟨x, hx⟩ := Nat.exists_eq_add_of_le hmag.le
    rw [hx, Nat.add_sub_cancel_left] at hval
    rw [asI32_parseUint_of_value hval (by omega)]
    -- Up to three octets the number read is not negative.
    rcases Nat.lt_or_ge w 3 with hw3 | hw3
    · have hpow : 256 ^ (w + 1) ≤ 256 ^ 3 := Nat.pow_le_pow_right (by decide) (by omega)
      have hne : (x : ℤ) ≠ -m := by omega
      rw [if_pos (by omega)]
      exact iff_of_false hne (by omega)
    · obtain rfl : w = 3 := by omega
      have heq : (x : ℤ) - 2 ^ 32 = -m := by omega
      rw [if_neg (by omega)]
      exact iff_of_true heq (by omega)

/-! ### The value of the control -/

theorem length_integerOctets_le (n : ℤ) : (integerOctets n).length ≤ 9 := by
  rw [integerOctets]
  simp only [BigEndian.length_octets]
  split <;> simp only [List.length_cons, List.length_drop, BigEndian.length_octets] <;> omega

theorem length_writeLength_le (n : ℕ) : (writeLength n).length ≤ 9 := by
  rw [writeLength]
  split <;> simp only [List.length_cons, List.length_nil, List.length_drop,
    BigEndian.length_octets] <;> omega

namespace Controls.PagedResults

/-- The tag in the value of the control. -/
def tag (pr : PagedResults) : StructureTag :=
  (Tag.ofSequence [.ofInteger pr.size, .ofOctetString pr.cookie]).intoStructure

theorem length_encodeInto_tag_le (pr : PagedResults) :
    (encodeInto pr.tag).length ≤ pr.cookie.length + 39 := by
  have hint := length_integerOctets_le pr.size
  have hlen₁ := length_writeLength_le (integerOctets pr.size).length
  have hlen₂ := length_writeLength_le pr.cookie.length
  have htype (cls struct) {id : UInt64} (hid : ¬id > 30) :
      (writeType cls struct id).length = 1 := by
    rw [writeType, if_neg hid]
    rfl
  simp only [tag, Tag.ofSequence, Tag.ofInteger, Tag.ofOctetString, Tag.intoStructure,
    Tag.intoStructures, iEIntoStructure, encodeInto, encodeInner, encodeAll, List.length_append,
    List.length_nil, htype .universal .constructed (show ¬Types.sequence > 30 by decide),
    htype .universal .primitive (show ¬Types.integer > 30 by decide),
    htype .universal .primitive (show ¬Types.octetString > 30 by decide)]
  have hlen₃ := length_writeLength_le
    (1 + ((writeLength (integerOctets pr.size).length).length + (integerOctets pr.size).length) +
      (1 + ((writeLength pr.cookie.length).length + pr.cookie.length) + 0))
  omega

theorem idsLe_tag (pr : PagedResults) : pr.tag.IdsLe 30 := by
  have hseq : Types.sequence ≤ 30 := by decide
  have hint : Types.integer ≤ 30 := by decide
  have hoct : Types.octetString ≤ 30 := by decide
  simp [tag, Tag.ofSequence, Tag.ofInteger, Tag.ofOctetString, Tag.intoStructure,
    Tag.intoStructures, iEIntoStructure, StructureTag.IdsLe, hseq, hint, hoct]

/-- The cookie is read back, and the integer is what the reader makes of its octets. -/
theorem parse_raw {pr : PagedResults} (hcookie : pr.cookie.length < 2 ^ 63) :
    parse pr.raw = some ⟨asI32 (parseUint (integerOctets pr.size)), pr.cookie⟩ := by
  have hlen := length_encodeInto_tag_le pr
  have hparse := parseTag_encodeInto pr.idsLe_tag (by rw [usizeMax]; omega) []
  rw [List.append_nil] at hparse
  have hval : pr.raw.val = some (encodeInto pr.tag) := rfl
  simp only [parse, hval, Option.bind_eq_bind, Option.bind_some, hparse]
  simp [tag, Tag.ofSequence, Tag.ofInteger, Tag.ofOctetString, Tag.intoStructure,
    Tag.intoStructures, iEIntoStructure, StructureTag.matchClass, StructureTag.matchId]

/-- **The control is read back as it was sent** exactly when the size is not negative or takes all
four octets of an `i32`. A `Vec` holds less than `2 ^ 63` octets. -/
theorem parse_raw_iff {pr : PagedResults} (hsize : InI32 pr.size)
    (hcookie : pr.cookie.length < 2 ^ 63) :
    parse pr.raw = some pr ↔ 0 ≤ pr.size ∨ pr.size ≤ -2 ^ 24 := by
  rw [parse_raw hcookie, ← asI32_integerOctets_iff hsize]
  rcases pr with ⟨size, cookie⟩
  simp

theorem parse_raw_min : parse (raw ⟨-2 ^ 31, [7]⟩) = some ⟨-2 ^ 31, [7]⟩ :=
  (parse_raw_iff (by decide) (by decide)).2 (by decide)

/-- One octet is written for `-1`, and read as 255. -/
theorem parse_raw_neg_one :
    InI32 (-1) ∧ parse (raw ⟨-1, [7]⟩) = some ⟨255, [7]⟩ ∧
      parse (raw ⟨-1, [7]⟩) ≠ some ⟨-1, [7]⟩ := by
  have h255 : parse (raw ⟨-1, [7]⟩) = some ⟨255, [7]⟩ := by
    rw [parse_raw (by decide)]
    decide +kernel
  refine ⟨by decide, h255, ?_⟩
  rw [h255]
  decide

end Controls.PagedResults

end Ldap3
