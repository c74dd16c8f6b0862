import Ldap3.Lib.Nom
import Ldap3.Lber.Write
import Mathlib.Tactic.IntervalCases

/-!
# BER parsing

`lber/src/parse.rs`. The header and length parsers are nom combinators; `parse_tag` calls itself
from the loop over the content of a constructed element.

That recursion runs on the content slice, which is strictly shorter than the input, so the loop
is defined with the length of its slice as fuel (`parseTagsAux`). The fuel is a device of the
definition only: `parseTagsAux_eq` says that any sufficient amount gives the same answer, and
`parseTag_eq` and `parseTags_cons` are the equations of the source, without fuel.
-/

open Nom

namespace Ldap3

/-! ### Header and length -/

/-- The class is in the two high bits. -/
def classBits (i : Bits.Input) : Except Err (Bits.Input × TagClass) :=
  mapOpt (Bits.take 2) (fun n ↦ TagClass.fromU8 (UInt8.ofNat n)) i

/-- The bit for the form. -/
def pcBit (i : Bits.Input) : Except Err (Bits.Input × TagStructure) :=
  mapOpt (Bits.take 1) (fun n ↦ TagStructure.fromU8 (UInt8.ofNat n)) i

/-- The number: 31, which announces further octets, is taken as a number as well. -/
def tagnrBits (i : Bits.Input) : Except Err (Bits.Input × UInt64) := do
  let (i, n) ← Bits.take 5 i
  return (i, UInt64.ofNat n)

def parseTypeHeader (i : List UInt8) :
    Except Err (List UInt8 × TagClass × TagStructure × UInt64) :=
  bits (fun i ↦ do
    let (i, cls) ← classBits i
    let (i, struct) ← pcBit i
    let (i, id) ← tagnrBits i
    return (i, cls, struct, id)) i

/-- `parse_uint`: all octets folded into a `u64`, whose shift drops the high bits. -/
def parseUint (i : List UInt8) : UInt64 :=
  i.foldl (fun res byte ↦ (res <<< 8) ||| byte.toUInt64) 0

/-- The long form holds the number of length octets in its low bits. That number may be 0, as in 80.
-/
def parseLength (i : List UInt8) : Except Err (List UInt8 × ℕ) := do
  let (i, len) ← beU8 i
  if len < 128 then
    return (i, len.toNat)
  else
    let (i, b) ← take (len - 128).toNat i
    let len := (parseUint b).toNat
    -- `usize::try_from`
    if len ≤ usizeMax then return (i, len) else throw .failure

/-! ### Tags -/

/-- `parse_tag` with the loop over the content of a constructed element abstracted. -/
def parseTagWith (loop : List UInt8 → Except Err (List StructureTag)) (i : List UInt8) :
    Except Err (List UInt8 × StructureTag) := do
  let (i, cls, struct, id) ← parseTypeHeader i
  let (i, len) ← parseLength i
  let (i, content) ← take len i
  match struct with
  | .primitive => return (i, ⟨cls, id, .P content⟩)
  | .constructed =>
    let tv ← loop content
    return (i, ⟨cls, id, .C tv⟩)

/-- `while content.input_len() > 0`, with fuel for the number of nested and repeated calls. -/
def parseTagsAux : (fuel : ℕ) → List UInt8 → Except Err (List StructureTag)
  | _, [] => return []
  | 0, _ :: _ => throw .incomplete
  | fuel + 1, b :: content => do
    let (j, sub) ← parseTagWith (parseTagsAux fuel) (b :: content)
    let tv ← parseTagsAux fuel j
    return sub :: tv

/-- The content of a constructed element, to its end. -/
def parseTags (content : List UInt8) : Except Err (List StructureTag) :=
  parseTagsAux content.length content

def parseTag (i : List UInt8) : Except Err (List UInt8 × StructureTag) :=
  parseTagWith parseTags i

/-- `Parser::parse`. -/
def parse (input : List UInt8) : Except Err (List UInt8 × StructureTag) :=
  if input.isEmpty then throw .incomplete else parseTag input

/-! ### The identifier octet -/

/-- The three fields of an identifier octet. -/
def readType (b : UInt8) : TagClass × TagStructure × UInt64 :=
  (if b.toNat / 64 = 0 then .universal
    else if b.toNat / 64 = 1 then .application
    else if b.toNat / 64 = 2 then .context
    else .priv,
   if b.toNat / 32 % 2 = 0 then .primitive else .constructed,
   UInt64.ofNat (b.toNat % 32))

theorem TagClass.fromU8_ofNat {n : ℕ} (h : n < 4) :
    TagClass.fromU8 (UInt8.ofNat n) = some (if n = 0 then .universal
      else if n = 1 then .application else if n = 2 then .context else .priv) := by
  interval_cases n <;> rfl

theorem TagStructure.fromU8_ofNat {n : ℕ} (h : n < 2) :
    TagStructure.fromU8 (UInt8.ofNat n) = some (if n = 0 then .primitive else .constructed) := by
  interval_cases n <;> rfl

/-- The header parser reads one octet, whose eight bits are the three fields. -/
theorem parseTypeHeader_cons (b : UInt8) (i : List UInt8) :
    parseTypeHeader (b :: i) = .ok (i, readType b) := by
  have hb : b.toNat < 256 := b.toNat_lt
  have hcls : classBits (b :: i, 0) = .ok ((b :: i, 2), (readType b).1) := by
    have e : b.toNat % 2 ^ (8 - 0) / 2 ^ (8 - 0 - 2) = b.toNat / 64 := by omega
    rw [classBits, mapOpt, Bits.take_of_lt (by decide), e]
    simp only [TagClass.fromU8_ofNat (show b.toNat / 64 < 4 by omega)]
    rfl
  have hpc : pcBit (b :: i, 2) = .ok ((b :: i, 3), (readType b).2.1) := by
    have e : b.toNat % 2 ^ (8 - 2) / 2 ^ (8 - 2 - 1) = b.toNat / 32 % 2 := by omega
    rw [pcBit, mapOpt, Bits.take_of_lt (by decide), e]
    simp only [TagStructure.fromU8_ofNat (show b.toNat / 32 % 2 < 2 by omega)]
    rfl
  have hnr : tagnrBits (b :: i, 3) = .ok ((i, 0), (readType b).2.2) := by
    rw [tagnrBits, Bits.take_of_eq (by decide) (by decide)]
    rfl
  simp only [parseTypeHeader, bits, hcls, hpc, hnr, bind, Except.bind, pure, Except.pure]
  rfl

theorem parseTypeHeader_nil : parseTypeHeader [] = .error .incomplete := rfl

/-- Reading inverts writing for the tag numbers that fit the octet. -/
theorem readType_typeByte (cls : TagClass) (struct : TagStructure) {id : UInt64} (h : id ≤ 30) :
    readType (typeByte cls struct id) = (cls, struct, id) := by
  have key : ∀ k < 31, readType (typeByte cls struct (UInt64.ofNat k)) =
      (cls, struct, UInt64.ofNat k) := by
    cases cls <;> cases struct <;> decide
  have hid := key id.toNat (by simpa [UInt64.le_iff_toNat_le, Nat.lt_succ_iff] using h)
  simpa using hid

/-- More input than the header does not change what is read. -/
theorem streaming_parseTypeHeader : Streaming parseTypeHeader := by
  intro i e hne
  cases i with
  | nil => exact absurd parseTypeHeader_nil hne
  | cons b i =>
    rw [List.cons_append, parseTypeHeader_cons, parseTypeHeader_cons]
    rfl

/-! ### Lengths -/

/-- The fold denotes the octets modulo the word: the shift drops what does not fit. -/
theorem parseUint_toNat (i : List UInt8) : (parseUint i).toNat = BigEndian.value i % 2 ^ 64 := by
  suffices h : ∀ (n : ℕ) (res : UInt64), res.toNat = n % 2 ^ 64 →
      (i.foldl (fun (res : UInt64) byte ↦ (res <<< 8) ||| byte.toUInt64) res).toNat =
        i.foldl (fun n b ↦ n * 256 + b.toNat) n % 2 ^ 64 from h 0 0 rfl
  induction i with
  | nil => exact fun n res h ↦ h
  | cons b i ih =>
    intro n res h
    refine ih (n * 256 + b.toNat) _ ?_
    have hb : b.toNat < 256 := b.toNat_lt
    have hshift : res.toNat <<< ((8 : UInt64).toNat % 64) % 2 ^ 64 =
        2 ^ 8 * (res.toNat % 2 ^ 56) := by
      rw [Nat.shiftLeft_eq]
      simp
      omega
    -- The shifted accumulator and the octet have no bit in common.
    have hor : (res <<< 8 ||| b.toUInt64).toNat = 2 ^ 8 * (res.toNat % 2 ^ 56) + b.toNat := by
      rw [UInt64.toNat_or, UInt64.toNat_shiftLeft, UInt8.toNat_toUInt64, hshift,
        ← Nat.two_pow_add_eq_or_of_lt hb]
    rw [hor, h]
    omega

/-- A `u64` always converts to a 64-bit `usize`. -/
theorem parseUint_le_usizeMax (b : List UInt8) : (parseUint b).toNat ≤ usizeMax := by
  have hlt := (parseUint b).toNat_lt
  rw [usizeMax]
  omega

theorem parseLength_nil : parseLength [] = .error .incomplete := rfl

/-- The short form. -/
theorem parseLength_short {b : UInt8} (h : b < 128) (i : List UInt8) :
    parseLength (b :: i) = .ok (i, b.toNat) := by
  simp [parseLength, beU8, h, bind, Except.bind, pure, Except.pure]

/-- The long form: the octets announced by the first one, read as a `u64`. -/
theorem parseLength_long {b : UInt8} (h : ¬b < 128) (i : List UInt8) :
    parseLength (b :: i) =
      (take (b - 128).toNat i).map fun x ↦ (x.1, (parseUint x.2).toNat) := by
  simp only [parseLength, beU8, h, if_false, bind, Except.bind, parseUint_le_usizeMax, if_true,
    pure, Except.pure]
  rcases take (b - 128).toNat i with err | x <;> rfl

/-- There is at least one length octet. -/
theorem parseLength_ne_nil {i r : List UInt8} {len : ℕ} (h : parseLength i = .ok (r, len)) :
    ∃ l, l ≠ [] ∧ i = l ++ r := by
  cases i with
  | nil => cases h
  | cons b i =>
    by_cases hb : b < 128
    · rw [parseLength_short hb] at h
      obtain ⟨rfl, -⟩ := Prod.mk.inj (Except.ok.inj h)
      exact ⟨[b], by simp, rfl⟩
    · rw [parseLength_long hb] at h
      rcases ht : take (b - 128).toNat i with err | ⟨r', c⟩ <;> rw [ht] at h
      · cases h
      · obtain ⟨rfl, -⟩ := Prod.mk.inj (Except.ok.inj h)
        exact ⟨b :: c, by simp, by rw [(take_eq_ok_iff.1 ht).2, List.cons_append]⟩

theorem streaming_parseLength : Streaming parseLength := by
  intro i e hne
  cases i with
  | nil => exact absurd parseLength_nil hne
  | cons b i =>
    rw [List.cons_append]
    by_cases hb : b < 128
    · rw [parseLength_short hb, parseLength_short hb]
      rfl
    · rw [parseLength_long hb] at hne ⊢
      rw [parseLength_long hb]
      rcases ht : take (b - 128).toNat i with err | x
      · rw [ht, (take_eq_error_iff.1 ht).1] at hne
        exact absurd rfl hne
      · rw [(streaming_take _).ok (e := e) ht]
        rfl

/-! ### One element, not looking inside

The header, the length and the content slice, before the content is taken apart. -/

/-- The fields of an element together with its content octets. -/
abbrev Element := TagClass × TagStructure × UInt64 × List UInt8

/-- An element with its content not taken apart. -/
def parseElement (i : List UInt8) : Except Err (List UInt8 × Element) := do
  let (i, cls, struct, id) ← parseTypeHeader i
  let (i, len) ← parseLength i
  let (i, content) ← take len i
  return (i, cls, struct, id, content)

/-- The tag an element denotes, given the loop over constructed content. -/
def elementTag (loop : List UInt8 → Except Err (List StructureTag)) :
    Element → Except Err StructureTag
  | (cls, .primitive, id, content) => return ⟨cls, id, .P content⟩
  | (cls, .constructed, id, content) => do
    let tv ← loop content
    return ⟨cls, id, .C tv⟩

/-- An element is read in two steps: the octets that belong to it, then what is in them. -/
theorem parseTagWith_eq (loop : List UInt8 → Except Err (List StructureTag)) (i : List UInt8) :
    parseTagWith loop i =
      parseElement i >>= fun x ↦ elementTag loop x.2 >>= fun t ↦ .ok (x.1, t) := by
  simp only [parseTagWith, parseElement]
  rcases parseTypeHeader i with err | ⟨i, cls, struct, id⟩ <;> simp only [bind, Except.bind]
  rcases parseLength i with err | ⟨i, len⟩ <;> simp only
  rcases take len i with err | ⟨i, content⟩ <;> simp only [pure, Except.pure]
  cases struct
  · rfl
  · simp only [elementTag, bind, Except.bind]
    cases loop content <;> rfl

/-- An element ends at its length, whatever follows. -/
theorem streaming_parseElement : Streaming parseElement := by
  have h := streaming_parseTypeHeader.andThen fun hdr ↦
    streaming_parseLength.andThen fun len ↦ (streaming_take len).andThen fun content ↦
      Streaming.lift (.ok (hdr.1, hdr.2.1, hdr.2.2, content))
  exact h

theorem exact_parseTypeHeader : Exact parseTypeHeader := by
  intro i r a h
  cases i with
  | nil => cases h
  | cons b i =>
    rw [parseTypeHeader_cons] at h
    obtain ⟨rfl, rfl⟩ := Prod.mk.inj (Except.ok.inj h)
    exact ⟨[b], rfl, parseTypeHeader_cons b []⟩

theorem exact_parseLength : Exact parseLength := by
  intro i r len h
  cases i with
  | nil => cases h
  | cons b i =>
    by_cases hb : b < 128
    · rw [parseLength_short hb] at h
      obtain ⟨rfl, rfl⟩ := Prod.mk.inj (Except.ok.inj h)
      exact ⟨[b], rfl, parseLength_short hb []⟩
    · rw [parseLength_long hb] at h
      rcases ht : take (b - 128).toNat i with err | ⟨r', c⟩ <;> rw [ht] at h
      · cases h
      · obtain ⟨rfl, rfl⟩ := Prod.mk.inj (Except.ok.inj h)
        obtain ⟨w, rfl, hw⟩ := exact_take _ _ _ _ ht
        exact ⟨b :: w, rfl, by rw [parseLength_long hb, hw]; rfl⟩

/-- And its octets alone are read as the same element. -/
theorem exact_parseElement : Exact parseElement := by
  have h := exact_parseTypeHeader.andThen streaming_parseTypeHeader fun hdr ↦
    exact_parseLength.andThen streaming_parseLength fun len ↦
      (exact_take len).andThen (streaming_take len) fun content ↦
        Exact.lift (.ok (hdr.1, hdr.2.1, hdr.2.2, content))
  exact h

/-- An element is at least two octets of header and length, then its content. -/
theorem parseElement_eq_append {i r content : List UInt8} {cls : TagClass}
    {struct : TagStructure} {id : UInt64} (h : parseElement i = .ok (r, cls, struct, id, content)) :
    ∃ hd : List UInt8, 2 ≤ hd.length ∧ i = hd ++ (content ++ r) := by
  obtain ⟨⟨i₁, hdr⟩, hhead, h₁⟩ := bind_eq_ok.1 h
  obtain ⟨⟨i₂, len⟩, hlen, h₂⟩ := bind_eq_ok.1 h₁
  obtain ⟨⟨i₃, c⟩, htake, h₃⟩ := bind_eq_ok.1 h₂
  cases i with
  | nil => cases hhead
  | cons b i =>
    rw [parseTypeHeader_cons] at hhead
    obtain ⟨rfl, -⟩ := Prod.mk.inj (Except.ok.inj hhead)
    obtain ⟨l, hne, rfl⟩ := parseLength_ne_nil hlen
    obtain ⟨-, rfl⟩ := take_eq_ok_iff.1 htake
    simp only [pure, Except.pure, Except.ok.injEq, Prod.mk.injEq] at h₃
    obtain ⟨rfl, -, -, -, rfl⟩ := h₃
    have hpos := List.length_pos_iff.2 hne
    exact ⟨b :: l, by simp only [List.length_cons]; omega, by simp⟩

/-- On a 64-bit target the only failure is a missing octet. -/
theorem parseElement_error {i : List UInt8} {err : Err} (h : parseElement i = .error err) :
    err = .incomplete := by
  rcases bind_eq_error.1 h with h | ⟨⟨i₁, hdr⟩, -, h⟩
  · cases i with
    | nil => exact (Except.error.inj h).symm
    | cons b i => rw [parseTypeHeader_cons] at h; cases h
  rcases bind_eq_error.1 h with h | ⟨⟨i₂, len⟩, -, h⟩
  · cases i₁ with
    | nil => exact (Except.error.inj h).symm
    | cons b i =>
      by_cases hb : b < 128
      · rw [parseLength_short hb] at h; cases h
      · rw [parseLength_long hb] at h
        rcases ht : take (b - 128).toNat i with err' | x <;> rw [ht] at h
        · exact (Except.error.inj h) ▸ (take_eq_error_iff.1 ht).1
        · cases h
  rcases bind_eq_error.1 h with h | ⟨⟨i₃, c⟩, -, h⟩
  · exact (take_eq_error_iff.1 h).1
  · cases h

/-! ### The recursion, without fuel -/

/-- The loop is called on inputs that are shorter by the header at least. -/
theorem parseTagWith_congr {f g : List UInt8 → Except Err (List StructureTag)} {i : List UInt8}
    (h : ∀ c, c.length + 2 ≤ i.length → f c = g c) : parseTagWith f i = parseTagWith g i := by
  rw [parseTagWith_eq, parseTagWith_eq]
  rcases hel : parseElement i with err | ⟨r, cls, struct, id, content⟩
  · rfl
  · obtain ⟨hd, hlen, rfl⟩ := parseElement_eq_append hel
    have hc : f content = g content := h content (by simp only [List.length_append]; omega)
    cases struct
    · rfl
    · simp only [bind, Except.bind, elementTag, hc]

/-- A parsed tag takes at least two octets. -/
theorem parseTagWith_eq_append {loop : List UInt8 → Except Err (List StructureTag)}
    {i r : List UInt8} {t : StructureTag} (h : parseTagWith loop i = .ok (r, t)) :
    ∃ w : List UInt8, 2 ≤ w.length ∧ i = w ++ r := by
  rw [parseTagWith_eq] at h
  obtain ⟨⟨r', cls, struct, id, content⟩, hel, h⟩ := bind_eq_ok.1 h
  obtain ⟨t', -, h⟩ := bind_eq_ok.1 h
  obtain ⟨rfl, -⟩ := Prod.mk.inj (Except.ok.inj h)
  obtain ⟨hd, hlen, rfl⟩ := parseElement_eq_append hel
  exact ⟨hd ++ content, by simp only [List.length_append]; omega, by simp⟩

/-- Any sufficient fuel gives the same answer. -/
theorem parseTagsAux_eq {fuel : ℕ} {content : List UInt8} (h : content.length ≤ fuel) :
    parseTagsAux fuel content = parseTags content := by
  suffices key : ∀ n fuel₁ fuel₂ (content : List UInt8), content.length ≤ n →
      content.length ≤ fuel₁ → content.length ≤ fuel₂ →
        parseTagsAux fuel₁ content = parseTagsAux fuel₂ content from
    key _ _ _ _ (Nat.le_refl _) h (Nat.le_refl _)
  intro n
  induction n with
  | zero =>
    intro fuel₁ fuel₂ content hn _ _
    rw [List.length_eq_zero_iff.1 (Nat.le_zero.1 hn), parseTagsAux, parseTagsAux]
  | succ n ih =>
    intro fuel₁ fuel₂ content hn h₁ h₂
    cases content with
    | nil => rw [parseTagsAux, parseTagsAux]
    | cons b content =>
      rw [List.length_cons] at hn h₁ h₂
      obtain ⟨fuel₁, rfl⟩ := Nat.exists_eq_succ_of_ne_zero (show fuel₁ ≠ 0 by omega)
      obtain ⟨fuel₂, rfl⟩ := Nat.exists_eq_succ_of_ne_zero (show fuel₂ ≠ 0 by omega)
      -- The nested call runs on a slice, the next round on the rest: both are shorter.
      have htag : parseTagWith (parseTagsAux fuel₁) (b :: content) =
          parseTagWith (parseTagsAux fuel₂) (b :: content) :=
        parseTagWith_congr fun c hc ↦ by
          rw [List.length_cons] at hc
          exact ih _ _ _ (by omega) (by omega) (by omega)
      rw [parseTagsAux, parseTagsAux, htag]
      rcases hp : parseTagWith (parseTagsAux fuel₂) (b :: content) with err | ⟨j, sub⟩
      · rfl
      · obtain ⟨w, hw, heq⟩ := parseTagWith_eq_append hp
        have hj := congrArg List.length heq
        simp only [List.length_cons, List.length_append] at hj
        simp only [bind, Except.bind]
        rw [ih fuel₁ fuel₂ j (by omega) (by omega) (by omega)]

@[simp] theorem parseTags_nil : parseTags [] = .ok [] := rfl

/-- The loop of the source: a tag, then the loop again. -/
theorem parseTags_of_ne_nil {content : List UInt8} (h : content ≠ []) :
    parseTags content =
      parseTag content >>= fun x ↦ parseTags x.1 >>= fun tv ↦ .ok (x.2 :: tv) := by
  obtain ⟨b, content, rfl⟩ := List.exists_cons_of_ne_nil h
  have htag : parseTagWith (parseTagsAux content.length) (b :: content) = parseTag (b :: content) :=
    parseTagWith_congr fun c hc ↦ parseTagsAux_eq (by rw [List.length_cons] at hc; omega)
  rw [parseTags, List.length_cons, parseTagsAux, htag]
  rcases hp : parseTag (b :: content) with err | ⟨j, sub⟩
  · rfl
  · obtain ⟨w, hw, heq⟩ := parseTagWith_eq_append hp
    have hj := congrArg List.length heq
    simp only [List.length_cons, List.length_append] at hj
    simp only [bind, Except.bind]
    rw [parseTagsAux_eq (by omega)]
    rfl

/-- `parse_tag` in two halves: the element, then the tag it denotes. -/
theorem parseTag_eq (i : List UInt8) :
    parseTag i = parseElement i >>= fun x ↦ elementTag parseTags x.2 >>= fun t ↦ .ok (x.1, t) :=
  parseTagWith_eq parseTags i

/-- An element takes at least two octets off the front. -/
theorem parseTag_eq_append {i r : List UInt8} {t : StructureTag} (h : parseTag i = .ok (r, t)) :
    ∃ w : List UInt8, 2 ≤ w.length ∧ i = w ++ r :=
  parseTagWith_eq_append h

/-- **More input does not change a result**: an element that was read stays the same. -/
theorem streaming_parseTag : Streaming parseTag := by
  have h := streaming_parseElement.andThen fun el ↦ Streaming.lift (elementTag parseTags el)
  simpa only [← parseTag_eq] using h

theorem exact_parseTag : Exact parseTag := by
  have h := exact_parseElement.andThen streaming_parseElement fun el ↦
    Exact.lift (elementTag parseTags el)
  simpa only [← parseTag_eq] using h

theorem streaming_parse : Streaming parse := by
  intro i e hne
  cases i with
  | nil => exact absurd rfl hne
  | cons b i => exact streaming_parseTag (b :: i) e hne

end Ldap3
