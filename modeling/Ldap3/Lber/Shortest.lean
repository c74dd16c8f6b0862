import Ldap3.Lber.Ber

/-!
# The shortest encoding

The encodings of a tree differ only in the forms of their lengths. The writer takes the short form
where it fits, and otherwise as few octets as the number needs. An encoder that spends an octet
more on the length of one element may have to spend another one on the length of the element around
it, and never saves one. So what the writer emits is shorter than every other encoding of the tree
(`encodeInto_shortest`).
-/

namespace Ldap3

/-! ### Shorter or the same -/

/-- The octets are fewer, or they are the same. -/
def ShorterOrEq (u w : List UInt8) : Prop :=
  u.length < w.length ∨ w = u

namespace ShorterOrEq

variable {u u' w w' : List UInt8}

theorem refl (u : List UInt8) : ShorterOrEq u u :=
  Or.inr rfl

theorem length_le (h : ShorterOrEq u w) : u.length ≤ w.length := by
  rcases h with hlt | rfl
  · exact hlt.le
  · exact Nat.le_refl _

theorem append (h : ShorterOrEq u w) (h' : ShorterOrEq u' w') :
    ShorterOrEq (u ++ u') (w ++ w') := by
  have hle := h.length_le
  have hle' := h'.length_le
  rw [ShorterOrEq, List.length_append, List.length_append]
  rcases h with hlt | rfl
  · exact Or.inl (by omega)
  · rcases h' with hlt | rfl
    · exact Or.inl (by omega)
    · exact Or.inr rfl

end ShorterOrEq

/-! ### Length fields -/

theorem countOctets_mono (fuel : ℕ) {m n : ℕ} (h : m ≤ n) :
    countOctets fuel m ≤ countOctets fuel n := by
  induction fuel generalizing m n with
  | zero => exact Nat.le_refl 0
  | succ fuel ih =>
    have hdiv : m / 256 ≤ n / 256 := Nat.div_le_div_right h
    have hle := ih hdiv
    rw [countOctets, countOctets]
    split <;> split <;> omega

/-- No fewer octets hold the number. -/
theorem countOctets_le_of_lt {n k : ℕ} (h : n < 256 ^ k) (hk : 0 < k) : countOctets 8 n ≤ k := by
  rcases hcount : countOctets 8 n with - | - | c
  · exact Nat.zero_le k
  · exact hk
  · have hpow : 256 ^ (c + 1) < 256 ^ k := Nat.lt_of_le_of_lt (pow_le_of_countOctets hcount) h
    exact (Nat.pow_lt_pow_iff_right (by decide)).1 hpow

theorem length_writeLength (n : ℕ) :
    (writeLength n).length = if n < 128 then 1 else 1 + countOctets 8 n := by
  have hle := countOctets_le 8 n
  rw [writeLength]
  split
  · rfl
  · simp only [List.length_cons, List.length_drop, BigEndian.length_octets]
    omega

/-- A longer content has no shorter length field. -/
theorem length_writeLength_mono {m n : ℕ} (h : m ≤ n) :
    (writeLength m).length ≤ (writeLength n).length := by
  have hle := countOctets_mono 8 h
  have hpos := countOctets_pos 7 n
  rw [length_writeLength, length_writeLength]
  split <;> split <;> omega

/-- Of the fields for a length the writer's is the shortest. -/
theorem BerLength.shortest {n : ℕ} {l : List UInt8} (h : BerLength n l) (hn : n < 2 ^ 64) :
    ShorterOrEq (writeLength n) l := by
  have hwrite := berLength_writeLength hn
  have hlen := length_writeLength n
  cases h with
  | short h =>
    rw [writeLength, if_pos h]
    exact .refl _
  | @long bs hpos hle =>
    rw [ShorterOrEq, List.length_cons]
    by_cases hshort : BigEndian.value bs < 128
    · rw [if_pos hshort] at hlen
      exact Or.inl (by omega)
    rw [if_neg hshort] at hlen
    have hcount := countOctets_le_of_lt (BigEndian.value_lt bs) hpos
    rcases Nat.lt_or_eq_of_le hcount with hlt | heq
    · exact Or.inl (by omega)
    · -- As many octets as the writer's are the same ones.
      refine Or.inr ?_
      generalize hw : writeLength (BigEndian.value bs) = l' at hwrite hlen
      generalize hv : BigEndian.value bs = v at hwrite
      cases hwrite with
      | short hlt => exact absurd (hv ▸ hlt) hshort
      | @long bs' hpos' hle' =>
        have hlen' : bs.length = bs'.length := by
          rw [List.length_cons] at hlen
          omega
        rw [BigEndian.eq_of_value_eq hlen' hv]

/-! ### Trees -/

/-- Around a content that is no shorter, the header is no shorter either. -/
theorem ShorterOrEq.element {c c' l : List UInt8} (b : UInt8) (h : ShorterOrEq c' c)
    (hl : BerLength c.length l) (hlt : c.length < 2 ^ 64) :
    ShorterOrEq (b :: (writeLength c'.length ++ c')) (b :: (l ++ c)) := by
  have hlen := hl.shortest hlt
  rcases h with hshort | rfl
  · have hmono := length_writeLength_mono hshort.le
    have hle := hlen.length_le
    refine Or.inl ?_
    simp only [List.length_cons, List.length_append]
    omega
  · exact (ShorterOrEq.refl [b]).append (hlen.append (.refl _))

theorem Ber.shortest {t : StructureTag} {w : List UInt8} (h : Ber t w) (hlt : w.length < 2 ^ 64) :
    ShorterOrEq (encodeInto t) w := by
  rw [encodeInto]
  have hident : ∀ (cls : TagClass) (struct : TagStructure) {id : UInt64}, id ≤ 30 →
      writeType cls struct id = [identOctet cls struct id] := by
    intro cls struct id hid
    rw [writeType, if_neg (UInt64.not_lt.2 hid), typeByte_eq_identOctet cls struct hid]
  induction t using StructureTag.induct generalizing w with
  | prim cls id v =>
    obtain ⟨hid, l, hl, rfl⟩ := h
    simp only [List.length_cons, List.length_append] at hlt
    rw [encodeInner, hident cls .primitive hid]
    exact (ShorterOrEq.refl v).element _ hl (by omega)
  | cons cls id ts ih =>
    obtain ⟨hid, l, c, hts, hl, rfl⟩ := h
    simp only [List.length_cons, List.length_append] at hlt
    have hall : ∀ us : List StructureTag, (∀ u ∈ us, u ∈ ts) → ∀ c, Bers us c →
        c.length < 2 ^ 64 → ShorterOrEq (encodeAll us) c := by
      intro us
      induction us with
      | nil =>
        rintro - c rfl -
        exact .refl _
      | cons u us ihus =>
        rintro hmem c ⟨w₁, w₂, hu, hus, rfl⟩ hc
        rw [List.length_append] at hc
        exact (ih u (hmem u List.mem_cons_self) hu (by omega)).append
          (ihus (fun v hv ↦ hmem v (List.mem_cons_of_mem _ hv)) w₂ hus (by omega))
    rw [encodeInner, hident cls .constructed hid]
    exact (hall ts (fun u hu ↦ hu) c hts (by omega)).element _ hl (by omega)

/-- **The writer emits the shortest encoding.** What is written for a tree of low tag numbers
encodes it, and every other encoding of the tree is longer. -/
theorem encodeInto_shortest {t : StructureTag} (hids : t.IdsLe 30)
    (hfits : (encodeInto t).length ≤ usizeMax) :
    Ber t (encodeInto t) ∧ ∀ w, Ber t w → w ≠ encodeInto t → (encodeInto t).length < w.length := by
  have hlt : (encodeInto t).length < 2 ^ 64 := Nat.lt_of_le_of_lt hfits (by decide)
  refine ⟨ber_encodeInner hids hlt, fun w hw hne ↦ ?_⟩
  rcases Nat.lt_or_ge w.length (2 ^ 64) with hw64 | hw64
  · exact (hw.shortest hw64).resolve_right hne
  · exact Nat.lt_of_lt_of_le hlt hw64

/-- An octet string in a sequence, in three octets less than with four octets for a length. -/
theorem encodeInto_shortest_sequence :
    (encodeInto ⟨.universal, 16, .C [⟨.universal, 4, .P [7]⟩]⟩).length < 9 := by
  have hids : (⟨.universal, 16, .C [⟨.universal, 4, .P [7]⟩]⟩ : StructureTag).IdsLe 30 := by
    simp [StructureTag.IdsLe]
  have hinner : Ber ⟨.universal, 4, .P [7]⟩ [0x04, 0x01, 0x07] :=
    ⟨by decide, _, .short (by decide), rfl⟩
  exact (encodeInto_shortest hids (by decide)).2
    [0x30, 0x84, 0x00, 0x00, 0x00, 0x03, 0x04, 0x01, 0x07]
    ⟨by decide, [0x84, 0x00, 0x00, 0x00, 0x03], _, ⟨_, [], hinner, rfl, rfl⟩,
      @BerLength.long [0x00, 0x00, 0x00, 0x03] (by decide) (by decide), rfl⟩ (by decide)

end Ldap3
