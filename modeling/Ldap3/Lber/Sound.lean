import Ldap3.Lber.Ber

/-!
# When the parser reads BER

The parser accepts more than definite-length BER. It takes tag number 31, which announces a
multi-octet number, for a number; it takes `80`, which announces an indefinite length, for a
length of zero; and it keeps only the low 64 bits of a length. Everything else it reads is what
the octets say.

`MetIn c j` says that reading the content `c` comes upon an element at `j`, the octets from there
to the end of the surrounding content; `PlainHead j` says that none of the three forms stands at
`j`. **Soundness** (`ber_iff_plain`): an accepted element is an encoding of the tag it is read as
if and only if every element met in it has a plain head.
-/

open Nom

namespace Ldap3

/-- The identifier is not the multi-octet form, and the length is neither the indefinite form nor
out of the range of a `u64`. -/
def PlainHead : List UInt8 → Prop
  | ident :: len :: i =>
    ident.toNat % 32 ≠ 31 ∧ len ≠ 0x80 ∧
      (0x80 < len → BigEndian.value (i.take (len - 128).toNat) < 2 ^ 64)
  | _ => True

/-- Reading the elements of `c` one after another, and those in their content, comes to `j`. -/
inductive MetIn : List UInt8 → List UInt8 → Prop
  | here {c : List UInt8} (h : c ≠ []) : MetIn c c
  | next {c r j : List UInt8} {el : Element} (h : parseElement c = .ok (r, el)) (hj : MetIn r j) :
      MetIn c j
  | inside {c r c' j : List UInt8} {cls : TagClass} {id : UInt64}
      (h : parseElement c = .ok (r, cls, .constructed, id, c')) (hj : MetIn c' j) : MetIn c j

/-- Every element met in the content has a plain head. -/
def Plain (c : List UInt8) : Prop :=
  ∀ j, MetIn c j → PlainHead j

theorem plain_nil : Plain [] := by
  intro j hj
  cases hj with
  | here h => exact absurd rfl h
  | next h => cases h
  | inside h => cases h

/-- A primitive element is plain if its head is and what follows is. -/
theorem plain_iff_of_primitive {c r v : List UInt8} {cls : TagClass} {id : UInt64}
    (h : parseElement c = .ok (r, cls, .primitive, id, v)) (hne : c ≠ []) :
    Plain c ↔ PlainHead c ∧ Plain r := by
  refine ⟨fun hp ↦ ⟨hp c (.here hne), fun j hj ↦ hp j (.next h hj)⟩, ?_⟩
  rintro ⟨hhead, hr⟩ j hj
  cases hj with
  | here => exact hhead
  | next h' hj =>
    rw [h] at h'
    cases h'
    exact hr j hj
  | inside h' hj =>
    rw [h] at h'
    cases h'

/-- A constructed element is plain if its head, its content and what follows are. -/
theorem plain_iff_of_constructed {c r v : List UInt8} {cls : TagClass} {id : UInt64}
    (h : parseElement c = .ok (r, cls, .constructed, id, v)) (hne : c ≠ []) :
    Plain c ↔ PlainHead c ∧ Plain v ∧ Plain r := by
  refine ⟨fun hp ↦ ⟨hp c (.here hne), fun j hj ↦ hp j (.inside h hj), fun j hj ↦ hp j (.next h hj)⟩,
    ?_⟩
  rintro ⟨hhead, hv, hr⟩ j hj
  cases hj with
  | here => exact hhead
  | next h' hj =>
    rw [h] at h'
    cases h'
    exact hr j hj
  | inside h' hj =>
    rw [h] at h'
    cases h'
    exact hv j hj

/-! ### One element -/

theorem identOctet_readType {b : UInt8} (h : b.toNat % 32 ≠ 31) :
    identOctet (readType b).1 (readType b).2.1 (readType b).2.2 = b ∧ (readType b).2.2 ≤ 30 := by
  have key : ∀ n < 256, n % 32 ≠ 31 →
      identOctet (readType (UInt8.ofNat n)).1 (readType (UInt8.ofNat n)).2.1
          (readType (UInt8.ofNat n)).2.2 = UInt8.ofNat n ∧
        (readType (UInt8.ofNat n)).2.2 ≤ 30 := by
    decide +kernel
  simpa using key b.toNat b.toNat_lt h

/-- A plain head spells the identifier and the length of the element. -/
theorem exists_berLength_of_plainHead {i r c : List UInt8} {cls : TagClass}
    {struct : TagStructure} {id : UInt64} (h : parseElement i = .ok (r, cls, struct, id, c))
    (hplain : PlainHead i) :
    id ≤ 30 ∧ ∃ l, BerLength c.length l ∧ i = (identOctet cls struct id :: (l ++ c)) ++ r := by
  obtain ⟨⟨i₁, hdr⟩, hhead, h₁⟩ := bind_eq_ok.1 h
  obtain ⟨⟨i₂, len⟩, hlen, h₂⟩ := bind_eq_ok.1 h₁
  obtain ⟨⟨i₃, c'⟩, htake, h₃⟩ := bind_eq_ok.1 h₂
  simp only [pure, Except.pure, Except.ok.injEq, Prod.mk.injEq] at h₃
  obtain ⟨rfl, rfl, rfl, rfl, rfl⟩ := h₃
  obtain ⟨hclen, rfl⟩ := take_eq_ok_iff.1 htake
  rcases i with - | ⟨b, - | ⟨l, i⟩⟩
  · cases hhead
  · rw [parseTypeHeader_cons] at hhead
    cases hhead
    cases hlen
  rw [parseTypeHeader_cons] at hhead
  obtain ⟨rfl, rfl⟩ := Prod.mk.inj (Except.ok.inj hhead)
  obtain ⟨hnum, hindef, hrange⟩ := hplain
  obtain ⟨hident, hid⟩ := identOctet_readType hnum
  refine ⟨hid, ?_⟩
  rw [hident]
  by_cases hl : l < 128
  · rw [parseLength_short hl] at hlen
    obtain ⟨rfl, hll⟩ := Prod.mk.inj (Except.ok.inj hlen)
    have hlt : c'.length < 128 := by
      rw [hclen, ← hll]
      exact UInt8.lt_iff_toNat_lt.1 hl
    refine ⟨_, .short hlt, ?_⟩
    rw [hclen, ← hll]
    simp
  · have hge : 128 ≤ l.toNat := by
      simpa using UInt8.le_iff_toNat_le.1 (UInt8.not_lt.1 hl)
    have hsub : (l - 128).toNat = l.toNat - 128 := by
      rw [UInt8.toNat_sub_of_le _ _ (UInt8.not_lt.1 hl)]
      rfl
    have hne : l.toNat ≠ 128 := fun h ↦ hindef (UInt8.toNat_inj.1 h)
    rw [parseLength_long hl] at hlen
    rcases htake' : take (l - 128).toNat i with err | ⟨r', bs⟩ <;> rw [htake'] at hlen
    · cases hlen
    obtain ⟨rfl, hval⟩ := Prod.mk.inj (Except.ok.inj hlen)
    obtain ⟨hbs, rfl⟩ := take_eq_ok_iff.1 htake'
    have hv : BigEndian.value bs < 2 ^ 64 := by
      have hlt := hrange (UInt8.lt_iff_toNat_lt.2 (by simp; omega))
      rwa [← hbs, List.take_left] at hlt
    have hcv : c'.length = BigEndian.value bs := by
      simp only [parseUint_toNat, Nat.mod_eq_of_lt hv] at hval
      rw [hclen, hval]
    have hoct : UInt8.ofNat (128 + bs.length) = l := by
      rw [hbs, hsub, show 128 + (l.toNat - 128) = l.toNat by omega]
      simp
    have hl256 : l.toNat < 256 := l.toNat_lt
    rw [hcv]
    refine ⟨_, .long (by omega) (by omega), ?_⟩
    rw [hoct]
    simp

/-- An encoding with a length in range has a plain head. -/
theorem plainHead_of_berLength {cls : TagClass} {struct : TagStructure} {id : UInt64} {n : ℕ}
    {l : List UInt8} (hid : id ≤ 30) (hl : BerLength n l) (hn : n < 2 ^ 64) (i : List UInt8) :
    PlainHead (identOctet cls struct id :: (l ++ i)) := by
  have hnum : (identOctet cls struct id).toNat % 32 ≠ 31 := by
    have key : ∀ k < 31, (identOctet cls struct (UInt64.ofNat k)).toNat % 32 ≠ 31 := by
      cases cls <;> cases struct <;> decide
    simpa using key id.toNat (by simpa [UInt64.le_iff_toNat_le, Nat.lt_succ_iff] using hid)
  have h80 : (0x80 : UInt8).toNat = 128 := rfl
  cases hl with
  | short hn =>
    have hnat := toNat_ofNat_of_lt (show n < 256 by omega)
    refine ⟨hnum, ?_, ?_⟩
    · intro heq
      rw [heq] at hnat
      omega
    · intro hlt
      have hlt' := UInt8.lt_iff_toNat_lt.1 hlt
      omega
  | @long bs hpos hle =>
    have hnat := toNat_ofNat_of_lt (show 128 + bs.length < 256 by omega)
    refine ⟨hnum, ?_, fun hlt ↦ ?_⟩
    · intro heq
      rw [heq] at hnat
      omega
    · have hcount : (UInt8.ofNat (128 + bs.length) - 128).toNat = bs.length := by
        rw [UInt8.toNat_sub_of_le _ _ (UInt8.le_of_lt hlt), hnat]
        exact Nat.add_sub_cancel_left _ _
      rw [hcount]
      exact (congrArg (fun v ↦ BigEndian.value v < 2 ^ 64) List.take_left).mpr hn

/-- Where an encoding stands, the parser finds its class and number and a beginning of its
content, which is all of it only behind a plain head. -/
theorem parseElement_of_ber {cls cls' : TagClass} {struct struct' : TagStructure} {id id' : UInt64}
    {l c c' x r : List UInt8} (hid : id ≤ 30) (hl : BerLength c.length l)
    (h : parseElement ((identOctet cls struct id :: (l ++ c)) ++ x) =
      .ok (r, cls', struct', id', c')) :
    cls' = cls ∧ struct' = struct ∧ id' = id ∧ ∃ e, c = c' ++ e ∧ r = e ++ x ∧
      (e = [] → PlainHead ((identOctet cls struct id :: (l ++ c)) ++ x)) := by
  rw [List.cons_append, List.append_assoc] at h ⊢
  rw [parseElement_eq_take hid hl] at h
  rcases htake : take (c.length % 2 ^ 64) (c ++ x) with err | ⟨r', v⟩ <;> rw [htake] at h
  · cases h
  simp only [Except.map, Except.ok.injEq, Prod.mk.injEq] at h
  obtain ⟨rfl, rfl, rfl, rfl, rfl⟩ := h
  obtain ⟨hlen, heq⟩ := take_eq_ok_iff.1 htake
  have hle : v.length ≤ c.length := by
    rw [hlen]
    exact Nat.mod_le _ _
  obtain ⟨e, rfl, rfl⟩ : ∃ e, c = v ++ e ∧ r' = e ++ x := by
    rcases List.append_eq_append_iff.1 heq with ⟨e, rfl, rfl⟩ | ⟨e, rfl, rfl⟩
    · have hnil : e = [] := by
        rw [List.length_append] at hle
        exact List.eq_nil_of_length_eq_zero (by omega)
      exact ⟨[], by simp [hnil], by simp [hnil]⟩
    · exact ⟨e, rfl, rfl⟩
  refine ⟨rfl, rfl, rfl, e, rfl, rfl, fun hnil ↦ ?_⟩
  rw [hnil, List.append_nil] at hlen hl
  exact plainHead_of_berLength hid hl (by omega) _

/-! ### Whole elements -/

/-- Content that the parser reads as tags it is an encoding of, up to a remainder, leaves no
remainder and is plain. -/
theorem plain_of_bers {ts : List StructureTag}
    (ih : ∀ t ∈ ts, ∀ {w x r : List UInt8}, Ber t w → parseTag (w ++ x) = .ok (r, t) →
      r = x ∧ (Plain x → Plain (w ++ x)))
    {c e : List UInt8} (hparse : parseTags c = .ok ts) (hber : Bers ts (c ++ e)) :
    e = [] ∧ Plain c := by
  induction ts generalizing c with
  | nil =>
    obtain ⟨hc, he⟩ := List.append_eq_nil_iff.1 (show c ++ e = [] from hber)
    exact ⟨he, hc ▸ plain_nil⟩
  | cons t ts ihts =>
    have hne : c ≠ [] := by
      rintro rfl
      rw [parseTags_nil] at hparse
      cases hparse
    rw [parseTags_of_ne_nil hne] at hparse
    obtain ⟨⟨r, t'⟩, htag, h₁⟩ := bind_eq_ok.1 hparse
    obtain ⟨ts', hrest, h₂⟩ := bind_eq_ok.1 h₁
    obtain ⟨rfl, rfl⟩ := List.cons.inj (Except.ok.inj h₂)
    obtain ⟨w₁, w₂, ht, hts, heq⟩ := hber
    -- The parser stops on the longer input where it stopped on the shorter one.
    have hlong := streaming_parseTag.ok (e := e) htag
    rw [heq] at hlong
    obtain ⟨rfl, hplain⟩ := ih t' List.mem_cons_self ht hlong
    obtain ⟨rfl, hr⟩ := ihts (fun u hu ↦ ih u (List.mem_cons_of_mem _ hu)) hrest hts
    simp only [List.append_nil] at heq hplain
    rw [heq]
    exact ⟨rfl, hplain hr⟩

/-- An element that the parser reads as the tag it is an encoding of ends where the encoding
does, and is plain. -/
theorem plain_of_ber {t : StructureTag} {w x r : List UInt8} (hber : Ber t w)
    (hparse : parseTag (w ++ x) = .ok (r, t)) : r = x ∧ (Plain x → Plain (w ++ x)) := by
  induction t using StructureTag.induct generalizing w x r with
  | prim cls id v =>
    obtain ⟨hid, l, hl, rfl⟩ := hber
    rw [parseTag_eq] at hparse
    obtain ⟨⟨r', cls', struct', id', c'⟩, hel, h₁⟩ := bind_eq_ok.1 hparse
    obtain ⟨t', ht, h₂⟩ := bind_eq_ok.1 h₁
    obtain ⟨rfl, rfl⟩ := Prod.mk.inj (Except.ok.inj h₂)
    obtain ⟨rfl, rfl, rfl, e, hv, rfl, hhead⟩ := parseElement_of_ber hid hl hel
    cases ht
    obtain rfl : e = [] := by
      have hlen := congrArg List.length hv
      rw [List.length_append] at hlen
      exact List.eq_nil_of_length_eq_zero (by omega)
    exact ⟨rfl, fun hx ↦ (plain_iff_of_primitive hel (by simp)).2 ⟨hhead rfl, hx⟩⟩
  | cons cls id ts ih =>
    obtain ⟨hid, l, c, hts, hl, rfl⟩ := hber
    rw [parseTag_eq] at hparse
    obtain ⟨⟨r', cls', struct', id', c'⟩, hel, h₁⟩ := bind_eq_ok.1 hparse
    obtain ⟨t', ht, h₂⟩ := bind_eq_ok.1 h₁
    obtain ⟨rfl, rfl⟩ := Prod.mk.inj (Except.ok.inj h₂)
    obtain ⟨rfl, rfl, rfl, e, rfl, rfl, hhead⟩ := parseElement_of_ber hid hl hel
    obtain ⟨us, hloop, hus⟩ := bind_eq_ok.1 ht
    cases hus
    obtain ⟨rfl, hplain⟩ := plain_of_bers (fun t ht ↦ ih t ht) hloop hts
    exact ⟨rfl, fun hx ↦ (plain_iff_of_constructed hel (by simp)).2 ⟨hhead rfl, hplain, hx⟩⟩

/-- Plain content is an encoding of the tags it is read as. -/
theorem bers_of_plain {ts : List StructureTag}
    (ih : ∀ t ∈ ts, ∀ {i r : List UInt8}, parseTag i = .ok (r, t) → Plain i →
      (∃ w, i = w ++ r ∧ Ber t w) ∧ Plain r)
    {c : List UInt8} (hparse : parseTags c = .ok ts) (hplain : Plain c) : Bers ts c := by
  induction ts generalizing c with
  | nil =>
    rcases c with - | ⟨b, c⟩
    · rfl
    · rw [parseTags_of_ne_nil (by simp)] at hparse
      obtain ⟨x, -, h₁⟩ := bind_eq_ok.1 hparse
      obtain ⟨ts', -, h₂⟩ := bind_eq_ok.1 h₁
      cases h₂
  | cons t ts ihts =>
    have hne : c ≠ [] := by
      rintro rfl
      rw [parseTags_nil] at hparse
      cases hparse
    rw [parseTags_of_ne_nil hne] at hparse
    obtain ⟨⟨r, t'⟩, htag, h₁⟩ := bind_eq_ok.1 hparse
    obtain ⟨ts', hrest, h₂⟩ := bind_eq_ok.1 h₁
    obtain ⟨rfl, rfl⟩ := List.cons.inj (Except.ok.inj h₂)
    obtain ⟨⟨w, rfl, hw⟩, hr⟩ := ih t' List.mem_cons_self htag hplain
    exact ⟨w, r, hw, ihts (fun u hu ↦ ih u (List.mem_cons_of_mem _ hu)) hrest hr, rfl⟩

/-- Plain octets that the parser reads as a tag start with an encoding of it. -/
theorem ber_of_plain {t : StructureTag} {i r : List UInt8} (hparse : parseTag i = .ok (r, t))
    (hplain : Plain i) : (∃ w, i = w ++ r ∧ Ber t w) ∧ Plain r := by
  induction t using StructureTag.induct generalizing i r with
  | prim cls id v =>
    rw [parseTag_eq] at hparse
    obtain ⟨⟨r', cls', struct', id', c'⟩, hel, h₁⟩ := bind_eq_ok.1 hparse
    obtain ⟨t', ht, h₂⟩ := bind_eq_ok.1 h₁
    obtain ⟨rfl, rfl⟩ := Prod.mk.inj (Except.ok.inj h₂)
    cases struct' with
    | primitive =>
      cases ht
      have hne : i ≠ [] := by
        rintro rfl
        cases hel
      obtain ⟨hhead, hr⟩ := (plain_iff_of_primitive hel hne).1 hplain
      obtain ⟨hid, l, hl, rfl⟩ := exists_berLength_of_plainHead hel hhead
      exact ⟨⟨_, rfl, hid, l, hl, rfl⟩, hr⟩
    | constructed =>
      obtain ⟨us, -, hus⟩ := bind_eq_ok.1 ht
      cases hus
  | cons cls id ts ih =>
    rw [parseTag_eq] at hparse
    obtain ⟨⟨r', cls', struct', id', c'⟩, hel, h₁⟩ := bind_eq_ok.1 hparse
    obtain ⟨t', ht, h₂⟩ := bind_eq_ok.1 h₁
    obtain ⟨rfl, rfl⟩ := Prod.mk.inj (Except.ok.inj h₂)
    cases struct' with
    | primitive => cases ht
    | constructed =>
      obtain ⟨us, hloop, hus⟩ := bind_eq_ok.1 ht
      cases hus
      have hne : i ≠ [] := by
        rintro rfl
        cases hel
      obtain ⟨hhead, hv, hr⟩ := (plain_iff_of_constructed hel hne).1 hplain
      obtain ⟨hid, l, hl, rfl⟩ := exists_berLength_of_plainHead hel hhead
      exact ⟨⟨_, rfl, hid, l, c', bers_of_plain (fun t ht ↦ ih t ht) hloop hv, hl, rfl⟩, hr⟩

/-- **When the parser reads BER.** An element that is accepted is an encoding of the tag it is
read as if and only if every element met in it has a plain head. -/
theorem ber_iff_plain {t : StructureTag} {w : List UInt8} (h : parseTag w = .ok ([], t)) :
    Ber t w ↔ Plain w := by
  constructor
  · intro hber
    have hplain := (plain_of_ber hber (x := []) (r := []) (by rwa [List.append_nil])).2 plain_nil
    rwa [List.append_nil] at hplain
  · intro hplain
    obtain ⟨⟨w', rfl, hw⟩, -⟩ := ber_of_plain h hplain
    rwa [List.append_nil]

/-! ### Elements with octets behind them -/

/-- Every element met in the first element has a plain head. -/
def PlainFront (i : List UInt8) : Prop :=
  PlainHead i ∧ ∀ r cls id c, parseElement i = .ok (r, cls, .constructed, id, c) → Plain c

/-- The head of an element does not reach into what follows it. -/
theorem plainHead_append {w r : List UInt8} {el : Element} (h : parseElement w = .ok (r, el))
    (e : List UInt8) : PlainHead (w ++ e) ↔ PlainHead w := by
  obtain ⟨⟨i₁, hdr⟩, hhead, h₁⟩ := bind_eq_ok.1 h
  obtain ⟨⟨i₂, len⟩, hlen, -⟩ := bind_eq_ok.1 h₁
  rcases w with - | ⟨b, - | ⟨l, i⟩⟩
  · cases hhead
  · rw [parseTypeHeader_cons] at hhead
    cases hhead
    cases hlen
  rw [parseTypeHeader_cons] at hhead
  obtain ⟨rfl, -⟩ := Prod.mk.inj (Except.ok.inj hhead)
  have htake : 0x80 < l → (i ++ e).take (l - 128).toNat = i.take (l - 128).toNat := by
    intro hl
    have hnot : ¬l < 128 := UInt8.not_lt.2 (UInt8.le_of_lt hl)
    rw [parseLength_long hnot] at hlen
    rcases ht : take (l - 128).toNat i with err | ⟨r', bs⟩ <;> rw [ht] at hlen
    · cases hlen
    obtain ⟨hbs, rfl⟩ := take_eq_ok_iff.1 ht
    rw [← hbs, List.append_assoc, List.take_left, List.take_left]
  simp only [List.cons_append, PlainHead]
  constructor
  · rintro ⟨hnum, hindef, hrange⟩
    exact ⟨hnum, hindef, fun hl ↦ htake hl ▸ hrange hl⟩
  · rintro ⟨hnum, hindef, hrange⟩
    exact ⟨hnum, hindef, fun hl ↦ (htake hl).symm ▸ hrange hl⟩

/-- The front of the input is plain when the octets of the element are. -/
theorem plainFront_append_iff {w : List UInt8} {el : Element} (h : parseElement w = .ok ([], el))
    (e : List UInt8) : PlainFront (w ++ e) ↔ Plain w := by
  have hne : w ≠ [] := by
    rintro rfl
    cases h
  have hlong : parseElement (w ++ e) = .ok (e, el) := streaming_parseElement.ok h
  obtain ⟨cls, struct, id, c⟩ := el
  rw [PlainFront, plainHead_append h, hlong]
  cases struct with
  | primitive =>
    rw [plain_iff_of_primitive h hne]
    simp [plain_nil]
  | constructed =>
    rw [plain_iff_of_constructed h hne]
    constructor
    · rintro ⟨hhead, hc⟩
      exact ⟨hhead, hc _ _ _ _ rfl, plain_nil⟩
    · rintro ⟨hhead, hc, -⟩
      refine ⟨hhead, fun r cls' id' c' heq ↦ ?_⟩
      cases heq
      exact hc

/-- **When an accepted input is what BER says.** What the parser takes from the input is an
encoding of the tag it returns if and only if every element met in it has a plain head. -/
theorem parseTag_sound_iff {i rest : List UInt8} {t : StructureTag}
    (h : parseTag i = .ok (rest, t)) :
    (∃ w, i = w ++ rest ∧ Ber t w) ↔ PlainFront i := by
  obtain ⟨w, rfl, hw⟩ := exact_parseTag _ _ _ h
  have hel : ∃ el, parseElement w = .ok ([], el) := by
    rw [parseTag_eq] at hw
    obtain ⟨⟨r, el⟩, hel, h₁⟩ := bind_eq_ok.1 hw
    obtain ⟨t', -, h₂⟩ := bind_eq_ok.1 h₁
    obtain ⟨rfl, -⟩ := Prod.mk.inj (Except.ok.inj h₂)
    exact ⟨el, hel⟩
  obtain ⟨el, hel⟩ := hel
  rw [plainFront_append_iff hel, ← ber_iff_plain hw]
  constructor
  · rintro ⟨w', heq, hber⟩
    rwa [List.append_cancel_right heq]
  · exact fun hber ↦ ⟨w, rfl, hber⟩

/-- A SEQUENCE of an octet string, with the length of the string in the long form. -/
theorem parseTag_sound_iff_nested :
    (∃ w, [0x30, 0x04, 0x04, 0x81, 0x01, 0x61, 0xFF] = w ++ [0xFF] ∧
        Ber ⟨.universal, 16, .C [⟨.universal, 4, .P [0x61]⟩]⟩ w) ↔
      PlainFront [0x30, 0x04, 0x04, 0x81, 0x01, 0x61, 0xFF] :=
  parseTag_sound_iff (by rfl)

/-- An octet string of indefinite length is read as an empty one. -/
theorem parseTag_indefinite :
    parseTag [0x04, 0x80] = .ok ([], ⟨.universal, 4, .P []⟩) ∧
      ¬∃ w, [0x04, 0x80] = w ++ [] ∧ Ber ⟨.universal, 4, .P []⟩ w := by
  have hparse : parseTag [0x04, 0x80] = .ok ([], ⟨.universal, 4, .P []⟩) := rfl
  refine ⟨hparse, ?_⟩
  rintro ⟨w, heq, hber⟩
  rw [List.append_nil] at heq
  rw [← heq] at hber
  have hplain := (ber_iff_plain hparse).1 hber
  obtain ⟨-, hindef, -⟩ := hplain _ (.here (by simp))
  exact hindef rfl

/-! ### High tag numbers

The writer has the multi-octet form of a tag number: five one bits, then the number in groups of
seven bits. The parser takes the five bits for the number and goes on to the length, so what it
reads as the length is the first group. -/

/-- An element that is read: its header is its first octet. -/
theorem exists_of_parseTag_cons {b : UInt8} {i r : List UInt8} {t : StructureTag}
    (h : parseTag (b :: i) = .ok (r, t)) :
    ∃ c, parseLength i = .ok (c ++ r, c.length) ∧
      elementTag parseTags ((readType b).1, (readType b).2.1, (readType b).2.2, c) = .ok t := by
  rw [parseTag_eq] at h
  obtain ⟨⟨r', el⟩, hel, h₁⟩ := bind_eq_ok.1 h
  obtain ⟨t', ht, h₂⟩ := bind_eq_ok.1 h₁
  obtain ⟨rfl, rfl⟩ := Prod.mk.inj (Except.ok.inj h₂)
  obtain ⟨⟨i₁, hdr⟩, hhead, h₃⟩ := bind_eq_ok.1 hel
  obtain ⟨⟨i₂, len⟩, hlen, h₄⟩ := bind_eq_ok.1 h₃
  obtain ⟨⟨i₃, c⟩, htake, h₅⟩ := bind_eq_ok.1 h₄
  rw [parseTypeHeader_cons] at hhead
  obtain ⟨rfl, rfl⟩ := Prod.mk.inj (Except.ok.inj hhead)
  obtain ⟨rfl, rfl⟩ := Prod.mk.inj (Except.ok.inj h₅)
  obtain ⟨rfl, rfl⟩ := take_eq_ok_iff.1 htake
  exact ⟨c, hlen, ht⟩

/-- With a length in the short form, the second octet counts the content. -/
theorem exists_of_parseTag_short {b l : UInt8} {i r : List UInt8} {t : StructureTag}
    (hl : l < 128) (h : parseTag (b :: l :: i) = .ok (r, t)) :
    ∃ c, c.length = l.toNat ∧ i = c ++ r ∧
      elementTag parseTags ((readType b).1, (readType b).2.1, (readType b).2.2, c) = .ok t := by
  obtain ⟨c, hlen, ht⟩ := exists_of_parseTag_cons h
  rw [parseLength_short hl] at hlen
  obtain ⟨rfl, hc⟩ := Prod.mk.inj (Except.ok.inj hlen)
  exact ⟨c, hc.symm, rfl, ht⟩

theorem elementTag_id {loop : List UInt8 → Except Err (List StructureTag)} {cls : TagClass}
    {struct : TagStructure} {id : UInt64} {c : List UInt8} {t : StructureTag}
    (h : elementTag loop (cls, struct, id, c) = .ok t) : t.id = id := by
  cases struct with
  | primitive =>
    cases h
    rfl
  | constructed =>
    obtain ⟨ts, -, hts⟩ := bind_eq_ok.1 h
    cases hts
    rfl

/-- Every high tag number is read as 31. -/
theorem readType_typeByte_high (cls : TagClass) (struct : TagStructure) {id : UInt64}
    (h : 30 < id) : readType (typeByte cls struct id) = (cls, struct, 31) := by
  rw [typeByte, if_pos h]
  cases cls <;> cases struct <;> rfl

/-- The length octets and the content together never fill 31 octets but for a content of 30. -/
theorem eq_thirty_of_writeLength {n : ℕ} (h : (writeLength n).length + n = 31) :
    n = 30 ∧ writeLength n = [30] := by
  by_cases hn : n < 128
  · have hw : writeLength n = [UInt8.ofNat n] := if_pos hn
    rw [hw, List.length_singleton] at h
    obtain rfl : n = 30 := by omega
    exact ⟨rfl, hw⟩
  · omega

/-- If the tag read in place of a written one has its high number, this number is 31, whose one
group is read as a length of 31: the octet of the length and 30 of content. -/
theorem elementTag_of_parseTag_high {cls : TagClass} {struct : TagStructure} {id : UInt64}
    {body rest : List UInt8} {t : StructureTag} (hid : 30 < id) (ht : t.id = id)
    (h : parseTag ((writeType cls struct id ++ (writeLength body.length ++ body)) ++ rest) =
      .ok (rest, t)) :
    body.length = 30 ∧ elementTag parseTags (cls, struct, 31, 30 :: body) = .ok t := by
  rw [writeType, if_pos hid, List.cons_append, List.cons_append] at h
  obtain ⟨c, hlen, hel⟩ := exists_of_parseTag_cons h
  simp only [readType_typeByte_high cls struct hid] at hel
  obtain rfl : id = 31 := ht.symm.trans (elementTag_id hel)
  have hext : extBytes 31 = [31] := rfl
  rw [hext, List.append_assoc, List.singleton_append, parseLength_short (by decide)] at hlen
  obtain ⟨hc, hclen⟩ := Prod.mk.inj (Except.ok.inj hlen)
  obtain rfl := List.append_cancel_right hc
  rw [List.length_append] at hclen
  obtain ⟨hbody, hw⟩ := eq_thirty_of_writeLength hclen.symm
  rw [hw] at hel
  exact ⟨hbody, hel⟩

/-- The octet 30 heads a primitive tag. If it also counts the content that starts with a tag so
written, the content is one octet short. -/
theorem parseTags_thirty_ne {ts : List StructureTag} (hlen : (encodeAll ts).length = 30) :
    parseTags (30 :: encodeAll ts) ≠ .ok ts := by
  intro h
  rw [parseTags_of_ne_nil (List.cons_ne_nil _ _)] at h
  obtain ⟨⟨r, t⟩, htag, h₁⟩ := bind_eq_ok.1 h
  obtain ⟨ts', -, h₂⟩ := bind_eq_ok.1 h₁
  obtain rfl : t :: ts' = ts := Except.ok.inj h₂
  obtain ⟨c, -, hel⟩ := exists_of_parseTag_cons htag
  obtain rfl : t = ⟨.universal, 30, .P c⟩ := (Except.ok.inj hel).symm
  have hbody : encodeAll (⟨.universal, 30, .P c⟩ :: ts') =
      30 :: (writeLength c.length ++ c ++ encodeAll ts') := rfl
  rw [hbody] at htag hlen
  obtain ⟨c', hc', heq, -⟩ := exists_of_parseTag_short (by decide) htag
  have hle : 30 ≤ (writeLength c.length ++ c ++ encodeAll ts').length := by
    rw [heq, List.length_append, hc']
    exact Nat.le_add_right _ _
  rw [List.length_cons] at hlen
  omega

/-- **High tag numbers do not survive.** No element with a number the writer puts in the
multi-octet form is read back. -/
theorem parseTag_encodeInto_high {t : StructureTag} (hid : 30 < t.id) (rest : List UInt8) :
    parseTag (encodeInto t ++ rest) ≠ .ok (rest, t) := by
  intro h
  rcases t with ⟨cls, id, v | ts⟩
  · rw [encodeInto, encodeInner] at h
    obtain ⟨-, hel⟩ := elementTag_of_parseTag_high hid rfl h
    have hv : 30 :: v = v :=
      PL.P.inj (StructureTag.mk.inj (Except.ok.inj hel)).2.2
    exact List.cons_ne_self _ _ hv
  · rw [encodeInto, encodeInner] at h
    obtain ⟨hlen, hel⟩ := elementTag_of_parseTag_high hid rfl h
    obtain ⟨us, hloop, hus⟩ := bind_eq_ok.1 hel
    obtain rfl : us = ts := PL.C.inj (StructureTag.mk.inj (Except.ok.inj hus)).2.2
    exact parseTags_thirty_ne hlen hloop

/-- The largest number there is. -/
theorem parseTag_encodeInto_high_max :
    parseTag (encodeInto ⟨.priv, 0xFFFFFFFFFFFFFFFF, .C [⟨.universal, 2, .P [5]⟩]⟩ ++ [7]) ≠
      .ok ([7], ⟨.priv, 0xFFFFFFFFFFFFFFFF, .C [⟨.universal, 2, .P [5]⟩]⟩) :=
  parseTag_encodeInto_high (by decide) [7]

/-- The number 128 is written in two groups, which are read as a length of zero in the long
form: another number, no content, and two octets left over. -/
theorem parseTag_encodeInto_128 :
    encodeInto ⟨.context, 128, .P [1]⟩ = [0x9F, 0x81, 0x00, 0x01, 0x01] ∧
      parseTag (encodeInto ⟨.context, 128, .P [1]⟩) =
        .ok ([0x01, 0x01], ⟨.context, 31, .P []⟩) ∧
      ¬∀ t : StructureTag, 30 < t.id → parseTag (encodeInto t) = .ok ([], t) := by
  have hread : parseTag (encodeInto ⟨.context, 128, .P [1]⟩) =
      .ok ([0x01, 0x01], ⟨.context, 31, .P []⟩) := rfl
  refine ⟨rfl, hread, fun hall ↦ ?_⟩
  have h := hall ⟨.context, 128, .P [1]⟩ (by decide)
  rw [hread] at h
  cases h

end Ldap3
