import Ldap3.Lber.Parse

/-!
# Definite-length BER

What the bytes on the wire mean, independently of how this crate writes or reads them: `Ber t w`
says that `w` is a definite-length, low-tag-number encoding of the tag tree `t`. An encoder picks
the form of every length field (`BerLength`): the short form where it fits, or the long form with
any number of octets the first one can announce, leading zeroes included. So `Ber t` has many
members, and the two halves of the crate meet in it:

* the writer produces one of them (`ber_encodeInner`);
* the parser reads every one of them back, whatever follows (`parseTag_of_ber`), so which form the
  lengths have does not matter (`parseTag_any_lengths`).

The round trip `parseTag_encodeInto` is the composition.
-/

open Nom

namespace Ldap3

/-- The identifier octet of a low tag number: class, primitive or constructed, number. -/
def identOctet (cls : TagClass) (struct : TagStructure) (id : UInt64) : UInt8 :=
  UInt8.ofNat (cls.toU8.toNat * 64 + struct.toU8.toNat * 32 + id.toNat)

/-- The length octets that may announce `n` content octets. -/
inductive BerLength : ℕ → List UInt8 → Prop
  | short {n : ℕ} (h : n < 128) : BerLength n [UInt8.ofNat n]
  | long {bs : List UInt8} (hpos : 0 < bs.length) (hle : bs.length ≤ 127) :
      BerLength (BigEndian.value bs) (UInt8.ofNat (128 + bs.length) :: bs)

mutual

/-- `w` is an encoding of the tag. -/
def Ber : StructureTag → List UInt8 → Prop
  | ⟨cls, id, .P v⟩, w =>
    id ≤ 30 ∧ ∃ l, BerLength v.length l ∧ w = identOctet cls .primitive id :: (l ++ v)
  | ⟨cls, id, .C ts⟩, w =>
    id ≤ 30 ∧ ∃ l c, Bers ts c ∧ BerLength c.length l ∧
      w = identOctet cls .constructed id :: (l ++ c)

/-- `w` is the concatenation of encodings of the tags. -/
def Bers : List StructureTag → List UInt8 → Prop
  | [], w => w = []
  | t :: ts, w => ∃ w₁ w₂, Ber t w₁ ∧ Bers ts w₂ ∧ w = w₁ ++ w₂

end

theorem typeByte_eq_identOctet (cls : TagClass) (struct : TagStructure) {id : UInt64}
    (h : id ≤ 30) : typeByte cls struct id = identOctet cls struct id := by
  have key : ∀ k < 31, typeByte cls struct (UInt64.ofNat k) =
      identOctet cls struct (UInt64.ofNat k) := by
    cases cls <;> cases struct <;> decide
  have hid := key id.toNat (by simpa [UInt64.le_iff_toNat_le, Nat.lt_succ_iff] using h)
  simpa using hid

theorem toNat_ofNat_of_lt {n : ℕ} (h : n < 256) : (UInt8.ofNat n).toNat = n :=
  UInt8.toNat_ofNat_of_lt' h

/-! ### The parser reads every encoding -/

/-- A length field is read back up to the range of a `u64`, whichever form it has. -/
theorem parseLength_of_berLength {n : ℕ} {l : List UInt8} (h : BerLength n l) (i : List UInt8) :
    parseLength (l ++ i) = .ok (i, n % 2 ^ 64) := by
  cases h with
  | short h =>
    have hnat := toNat_ofNat_of_lt (show n < 256 by omega)
    have hlt : UInt8.ofNat n < 128 := by
      rw [UInt8.lt_iff_toNat_lt, hnat]
      exact h
    rw [List.singleton_append, parseLength_short hlt, hnat, Nat.mod_eq_of_lt (by omega)]
  | @long bs hpos hle =>
    have hnat := toNat_ofNat_of_lt (show 128 + bs.length < 256 by omega)
    have hge : ¬UInt8.ofNat (128 + bs.length) < 128 := by
      rw [UInt8.lt_iff_toNat_lt, hnat]
      exact Nat.not_lt.2 (Nat.le_add_right _ _)
    have hcount : (UInt8.ofNat (128 + bs.length) - 128).toNat = bs.length := by
      rw [UInt8.toNat_sub_of_le _ _ (UInt8.not_lt.1 hge), hnat]
      exact Nat.add_sub_cancel_left _ _
    rw [List.cons_append, parseLength_long hge, hcount, take_append rfl]
    simp only [Except.map, parseUint_toNat]

/-- The element whose encoding stands at the front, up to the range of its length. -/
theorem parseElement_eq_take {cls : TagClass} {struct : TagStructure} {id : UInt64} {n : ℕ}
    {l : List UInt8} (hid : id ≤ 30) (hl : BerLength n l) (i : List UInt8) :
    parseElement (identOctet cls struct id :: (l ++ i)) =
      (take (n % 2 ^ 64) i).map fun x ↦ (x.1, cls, struct, id, x.2) := by
  simp only [parseElement, parseTypeHeader_cons, bind, Except.bind,
    ← typeByte_eq_identOctet cls struct hid, readType_typeByte cls struct hid,
    parseLength_of_berLength hl, pure, Except.pure]
  rcases take (n % 2 ^ 64) i with err | x <;> rfl

theorem parseElement_of_berLength {cls : TagClass} {struct : TagStructure} {id : UInt64}
    {l c : List UInt8} (hid : id ≤ 30) (hl : BerLength c.length l) (hc : c.length < 2 ^ 64)
    (rest : List UInt8) :
    parseElement ((identOctet cls struct id :: (l ++ c)) ++ rest) =
      .ok (rest, cls, struct, id, c) := by
  rw [List.cons_append, List.append_assoc, parseElement_eq_take hid hl, Nat.mod_eq_of_lt hc,
    take_append rfl]
  rfl

/-- The content loop, child by child. -/
theorem parseTags_of_forall {ts : List StructureTag} {c : List UInt8}
    (hread : ∀ t ∈ ts, ∀ w, Ber t w → w.length < 2 ^ 64 → ∀ rest,
      parseTag (w ++ rest) = .ok (rest, t))
    (h : Bers ts c) (hlt : c.length < 2 ^ 64) : parseTags c = .ok ts := by
  induction ts generalizing c with
  | nil => rw [show c = [] from h, parseTags_nil]
  | cons t ts ih =>
    obtain ⟨w₁, w₂, ht, hts, rfl⟩ := h
    rw [List.length_append] at hlt
    rw [List.forall_mem_cons] at hread
    have hparse := hread.1 w₁ ht (by omega) w₂
    have hne : w₁ ++ w₂ ≠ [] := by
      rintro hnil
      rw [hnil] at hparse
      cases hparse
    rw [parseTags_of_ne_nil hne, hparse]
    simp only [bind, Except.bind]
    rw [ih hread.2 hts (by omega)]

/-- **The parser is complete for definite-length BER**: every encoding of a tag that fits the
address space is read back to that tag, and exactly its octets are consumed. -/
theorem parseTag_of_ber {t : StructureTag} {w : List UInt8} (h : Ber t w)
    (hlt : w.length < 2 ^ 64) (rest : List UInt8) : parseTag (w ++ rest) = .ok (rest, t) := by
  induction t using StructureTag.induct generalizing w rest with
  | prim cls id v =>
    obtain ⟨hid, l, hl, rfl⟩ := h
    simp only [List.length_cons, List.length_append] at hlt
    rw [parseTag_eq, parseElement_of_berLength hid hl (by omega)]
    rfl
  | cons cls id ts ih =>
    obtain ⟨hid, l, c, hts, hl, rfl⟩ := h
    simp only [List.length_cons, List.length_append] at hlt
    have hloop : parseTags c = .ok ts :=
      parseTags_of_forall (fun t ht w hw hlt rest ↦ ih t ht hw hlt rest) hts (by omega)
    rw [parseTag_eq, parseElement_of_berLength hid hl (by omega)]
    simp only [elementTag, bind, Except.bind, hloop]
    rfl

theorem parseTag_of_ber_nil {t : StructureTag} {w : List UInt8} (h : Ber t w)
    (hlt : w.length < 2 ^ 64) : parseTag w = .ok ([], t) := by
  have hparse := parseTag_of_ber h hlt []
  rwa [List.append_nil] at hparse

/-- The content of a constructed element is read to its end. -/
theorem parseTags_of_bers {ts : List StructureTag} {c : List UInt8} (h : Bers ts c)
    (hlt : c.length < 2 ^ 64) : parseTags c = .ok ts :=
  parseTags_of_forall (fun _ _ _ hw hlt rest ↦ parseTag_of_ber hw hlt rest) h hlt

/-- The content of the element at the top fits a `usize`, and with it that of every element inside
it. -/
def ContentFits (w : List UInt8) : Prop :=
  ∀ b l c, w = b :: (l ++ c) → BerLength c.length l → c.length ≤ usizeMax

/-- Every encoding is read whose content fits, even if header and content together do not. -/
theorem parseTag_of_contentFits {t : StructureTag} {w : List UInt8} (h : Ber t w)
    (hfits : ContentFits w) (rest : List UInt8) : parseTag (w ++ rest) = .ok (rest, t) := by
  rcases t with ⟨cls, id, v | ts⟩
  · obtain ⟨hid, l, hl, rfl⟩ := h
    have hlt : v.length < 2 ^ 64 := Nat.lt_of_le_of_lt (hfits _ _ _ rfl hl) (by decide)
    rw [parseTag_eq, parseElement_of_berLength hid hl hlt]
    rfl
  · obtain ⟨hid, l, c, hts, hl, rfl⟩ := h
    have hlt : c.length < 2 ^ 64 := Nat.lt_of_le_of_lt (hfits _ _ _ rfl hl) (by decide)
    rw [parseTag_eq, parseElement_of_berLength hid hl hlt]
    simp only [elementTag, bind, Except.bind, parseTags_of_bers hts hlt]
    rfl

/-- **The form of the lengths does not matter.** Every encoding of a tag is read back to it,
whichever form its lengths have, so any two encodings of one tag are read alike. -/
theorem parseTag_any_lengths {t : StructureTag} {w w' : List UInt8} (h : Ber t w) (h' : Ber t w')
    (hfits : ContentFits w) (hfits' : ContentFits w') (rest : List UInt8) :
    parseTag (w ++ rest) = .ok (rest, t) ∧ parseTag (w' ++ rest) = parseTag (w ++ rest) := by
  have hparse := parseTag_of_contentFits h hfits rest
  exact ⟨hparse, (parseTag_of_contentFits h' hfits' rest).trans hparse.symm⟩

/-- A content is no longer than its element. -/
theorem contentFits_of_length_le {w : List UInt8} (h : w.length ≤ usizeMax) : ContentFits w := by
  rintro b l c rfl -
  simp only [List.length_cons, List.length_append] at h
  omega

/-- An integer in a sequence: in the short form, and with four and two length octets. -/
theorem parseTag_any_lengths_padded :
    parseTag ([0x30, 0x03, 0x02, 0x01, 0x05] ++ [7]) =
        .ok ([7], ⟨.universal, 16, .C [⟨.universal, 2, .P [5]⟩]⟩) ∧
      parseTag ([0x30, 0x84, 0x00, 0x00, 0x00, 0x05, 0x02, 0x82, 0x00, 0x01, 0x05] ++ [7]) =
        parseTag ([0x30, 0x03, 0x02, 0x01, 0x05] ++ [7]) := by
  refine parseTag_any_lengths ?_ ?_ (contentFits_of_length_le (by decide))
    (contentFits_of_length_le (by decide)) [7]
  · have hinner : Ber ⟨.universal, 2, .P [5]⟩ [0x02, 0x01, 0x05] :=
      ⟨by decide, _, .short (by decide), rfl⟩
    exact ⟨by decide, _, _, ⟨_, [], hinner, rfl, rfl⟩, .short (by decide), rfl⟩
  · have hinner : Ber ⟨.universal, 2, .P [5]⟩ [0x02, 0x82, 0x00, 0x01, 0x05] :=
      ⟨by decide, [0x82, 0x00, 0x01], @BerLength.long [0x00, 0x01] (by decide) (by decide), rfl⟩
    exact ⟨by decide, [0x84, 0x00, 0x00, 0x00, 0x05], _, ⟨_, [], hinner, rfl, rfl⟩,
      @BerLength.long [0x00, 0x00, 0x00, 0x05] (by decide) (by decide), rfl⟩

/-- Octets that fit the address space encode one tag at most. -/
theorem Ber.unique {t t' : StructureTag} {w : List UInt8} (h : Ber t w) (h' : Ber t' w)
    (hlt : w.length < 2 ^ 64) : t = t' := by
  have hparse := parseTag_of_ber h hlt []
  rw [parseTag_of_ber h' hlt []] at hparse
  exact (Prod.mk.inj (Except.ok.inj hparse)).2.symm

/-! ### The writer produces an encoding -/

theorem berLength_writeLength {n : ℕ} (hn : n < 2 ^ 64) : BerLength n (writeLength n) := by
  unfold writeLength
  split
  case isTrue h => exact .short h
  case isFalse h =>
    have hle := countOctets_le 8 n
    have hlt : n < 256 ^ countOctets 8 n := lt_pow_countOctets (by omega)
    have hcut : (8 - countOctets 8 n) + countOctets 8 n = 8 := by omega
    have hdrop := BigEndian.drop_octets (8 - countOctets 8 n) (countOctets 8 n) n
    rw [hcut] at hdrop
    have hpos : 0 < countOctets 8 n := by
      rcases Nat.eq_zero_or_pos (countOctets 8 n) with h0 | hpos
      · rw [h0] at hlt
        omega
      · exact hpos
    -- Setting the long-form bit adds 128 to a count of at most eight.
    have hcount : ∀ k ≤ 8, UInt8.ofNat k ||| 0x80 = UInt8.ofNat (128 + k) := by decide
    have hlong : BerLength (BigEndian.value (BigEndian.octets (countOctets 8 n) n)) _ :=
      .long (by simpa using hpos) (by simp only [BigEndian.length_octets]; omega)
    rw [BigEndian.value_octets_of_lt hlt, BigEndian.length_octets] at hlong
    simp only [BigEndian.length_octets, hdrop, hcount _ hle]
    exact hlong

/-- The writer's output is an encoding of the tree it is given. -/
theorem ber_encodeInner {t : StructureTag} (hids : t.IdsLe 30)
    (hlt : (encodeInner t).length < 2 ^ 64) : Ber t (encodeInner t) := by
  have hident : ∀ (cls : TagClass) (struct : TagStructure) {id : UInt64}, id ≤ 30 →
      writeType cls struct id = [identOctet cls struct id] := by
    intro cls struct id hid
    rw [writeType, if_neg (UInt64.not_lt.2 hid), typeByte_eq_identOctet cls struct hid]
  induction t using StructureTag.induct with
  | prim cls id v =>
    have hid : id ≤ 30 := by simpa [StructureTag.IdsLe] using hids
    rw [encodeInner, hident cls .primitive hid] at hlt ⊢
    simp only [List.length_append] at hlt
    exact ⟨hid, _, berLength_writeLength (by omega), rfl⟩
  | cons cls id ts ih =>
    obtain ⟨hid, hts⟩ : id ≤ 30 ∧ ∀ t ∈ ts, t.IdsLe 30 := by
      simpa [StructureTag.IdsLe] using hids
    rw [encodeInner, hident cls .constructed hid] at hlt ⊢
    simp only [List.length_append] at hlt
    have hall : ∀ us : List StructureTag, (∀ u ∈ us, u ∈ ts) →
        (encodeAll us).length < 2 ^ 64 → Bers us (encodeAll us) := by
      intro us
      induction us with
      | nil => exact fun _ _ ↦ rfl
      | cons u us ihus =>
        intro hmem hus
        rw [encodeAll, List.length_append] at hus
        have hu := hmem u List.mem_cons_self
        exact ⟨_, _, ih u hu (hts u hu) (by omega),
          ihus (fun v hv ↦ hmem v (List.mem_cons_of_mem _ hv)) (by omega), rfl⟩
    exact ⟨hid, _, _, hall ts (fun u hu ↦ hu) (by omega), berLength_writeLength (by omega), rfl⟩

/-! ### Round trip -/

/-- **Round trip.** Whatever the writer emits for a tree of low tag numbers is parsed back to
that tree, leaving exactly the octets that follow. -/
theorem parseTag_encodeInto {t : StructureTag} (hids : t.IdsLe 30)
    (hfits : (encodeInto t).length ≤ usizeMax) (rest : List UInt8) :
    parseTag (encodeInto t ++ rest) = .ok (rest, t) := by
  have hlt : (encodeInto t).length < 2 ^ 64 := Nat.lt_of_le_of_lt hfits (by decide)
  exact parseTag_of_ber (ber_encodeInner hids hlt) hlt rest

/-- A nested tree in front of another octet. -/
theorem parseTag_encodeInto_nested :
    parseTag
        (encodeInto ⟨.universal, 16, .C [⟨.context, 3, .P [1, 2]⟩, ⟨.priv, 30, .C []⟩]⟩ ++ [7]) =
      .ok ([7], ⟨.universal, 16, .C [⟨.context, 3, .P [1, 2]⟩, ⟨.priv, 30, .C []⟩]⟩) := by
  refine parseTag_encodeInto ?_ (by decide) [7]
  simp only [StructureTag.IdsLe, List.forall_mem_cons, List.not_mem_nil, false_imp_iff,
    implies_true, and_true]
  decide

end Ldap3
