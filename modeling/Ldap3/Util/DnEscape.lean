import Ldap3.Filter.Value

/-!
# Values in distinguished names

`dn_escape` of `src/util.rs`, against the grammar of RFC 4514 for a value that is a `string`.

The grammar has three classes of characters that may stand for themselves, one for the first place
of a value, one for the last and one for those between; every other character is written as a
`pair`. The loop is the one of `ldap_escape` with another test, which looks at the place of an
octet as well. What it leaves alone is in the class of its place, and what it replaces becomes a
backslash and two hex digits, so the result is in the grammar (`isString_escape`), is decoded to
the argument (`decodePairs_escape`), and ends where the value does (`scanString_append`).
-/

namespace Ldap3

namespace Dn

/-! ### The grammar -/

/-- `LUTF1`. -/
def isLutf1 (c : UInt8) : Bool :=
  (0x01 ≤ c && c ≤ 0x1F) || c == 0x21 || (0x24 ≤ c && c ≤ 0x2A) || (0x2D ≤ c && c ≤ 0x3A) ||
    c == 0x3D || (0x3F ≤ c && c ≤ 0x5B) || (0x5D ≤ c && c ≤ 0x7F)

/-- `TUTF1`. -/
def isTutf1 (c : UInt8) : Bool :=
  (0x01 ≤ c && c ≤ 0x1F) || c == 0x21 || (0x23 ≤ c && c ≤ 0x2A) || (0x2D ≤ c && c ≤ 0x3A) ||
    c == 0x3D || (0x3F ≤ c && c ≤ 0x5B) || (0x5D ≤ c && c ≤ 0x7F)

/-- `SUTF1`. -/
def isSutf1 (c : UInt8) : Bool :=
  (0x01 ≤ c && c ≤ 0x21) || (0x23 ≤ c && c ≤ 0x2A) || (0x2D ≤ c && c ≤ 0x3A) ||
    c == 0x3D || (0x3F ≤ c && c ≤ 0x5B) || (0x5D ≤ c && c ≤ 0x7F)

/-- `special`: what may follow a backslash to stand for itself, other than a backslash. -/
def isSpecial (c : UInt8) : Bool :=
  c == byte '"' || c == byte '+' || c == byte ',' || c == byte ';' || c == byte '<' ||
    c == byte '>' || c == byte ' ' || c == byte '#' || c == byte '='

/-- `UTFMB`, a character of more than one octet. -/
def IsUtfmb (w : List UInt8) : Prop :=
  ∃ c : Char, 0x80 ≤ c.toNat ∧ w = String.utf8EncodeChar c

/-- `pair`. -/
def IsPair (w : List UInt8) : Prop :=
  w = [byte '\\', byte '\\'] ∨ (∃ c, isSpecial c ∧ w = [byte '\\', c]) ∨
    ∃ h l x y, hexValue h = some x ∧ hexValue l = some y ∧ w = [byte '\\', h, l]

/-- `leadchar / pair`, `stringchar / pair` and `trailchar / pair`, by the class of their octets. -/
def IsUnit (cls : UInt8 → Bool) (w : List UInt8) : Prop :=
  (∃ c, cls c ∧ w = [c]) ∨ IsUtfmb w ∨ IsPair w

/-- `string`. -/
def IsString (w : List UInt8) : Prop :=
  w = [] ∨ IsUnit isLutf1 w ∨
    ∃ (a : List UInt8) (ms : List (List UInt8)) (z : List UInt8), IsUnit isLutf1 a ∧
      (∀ m ∈ ms, IsUnit isSutf1 m) ∧ IsUnit isTutf1 z ∧ w = a ++ ms.flatten ++ z

/-! ### Reading a value -/

/-- A backslash and two hex digits become an octet; everything else stays. -/
def decodePairs (w : List UInt8) : List UInt8 :=
  w.decodeEscapes (byte '\\') hexValue fun c ↦ [c]

/-- Reads units of a `string` as long as there are any, and returns the rest. The octets of a
longer character are taken one by one. -/
def scanString : List UInt8 → List UInt8
  | [] => []
  | [c] => if isSutf1 c || 0x80 ≤ c then [] else [c]
  | [c, d] =>
    if c = byte '\\' then if d = byte '\\' || isSpecial d then [] else [c, d]
    else if isSutf1 c || 0x80 ≤ c then scanString [d]
    else [c, d]
  | c :: d :: e :: w =>
    if c = byte '\\' then
      if d = byte '\\' || isSpecial d then scanString (e :: w)
      else if (hexValue d).isSome && (hexValue e).isSome then scanString w
      else c :: d :: e :: w
    else if isSutf1 c || 0x80 ≤ c then scanString (d :: e :: w)
    else c :: d :: e :: w

/-- Reads pairs of hex digits as long as there are any, and returns the rest. -/
def scanHexpairs : List UInt8 → List UInt8
  | h :: l :: w =>
    if (hexValue h).isSome && (hexValue l).isSome then scanHexpairs w else h :: l :: w
  | w => w

/-- Reads an `attributeValue`, which is a `hexstring` if it begins with a number sign. -/
def scanAttributeValue : List UInt8 → List UInt8
  | [] => []
  | c :: w => if c = byte '#' then scanHexpairs w else scanString (c :: w)

/-- The end of the input, or what separates the value from the next one. -/
def EndsValue : List UInt8 → Prop
  | [] => True
  | c :: _ => c = byte ',' ∨ c = byte '+'

end Dn

/-! ### The source -/

def alwaysEscape (c : UInt8) : Bool :=
  c == byte '"' || c == byte '+' || c == byte ',' || c == byte ';' || c == byte '<' ||
    c == byte '=' || c == byte '>' || c == byte '\\' || c == 0

def escapeLeading (c : UInt8) : Bool :=
  c == byte ' ' || c == byte '#'

def escapeTrailing (c : UInt8) : Bool :=
  c == byte ' '

/-- The test of the loop for an octet at `i` in a value of `len` octets. -/
def dnNeedsEscape (len i : ℕ) (c : UInt8) : Bool :=
  alwaysEscape c || (i == 0 && escapeLeading c) || (i + 1 == len && escapeTrailing c)

def dnEscape (val : String) : Except Fault String := do
  let v := asBytes val
  let output ← v.zipIdx.foldlM (escapeStepBy (dnNeedsEscape v.length) v) none
  match output with
  | some output => expect (fromUtf8 output) "dn escaped"
  | none => return val

namespace Dn

variable {needs : ℕ → UInt8 → Bool} {cls : UInt8 → Bool} {v w : List UInt8} {c d h l x y : UInt8}

/-! ### Octets

What holds of every octet is checked on all of them. -/

theorem lt_of_dnNeedsEscape {len i : ℕ} (hc : dnNeedsEscape len i c) : c < 0x80 := by
  have hall := forall_octet (P := fun c ↦
    (alwaysEscape c || escapeLeading c || escapeTrailing c) = true → c < 0x80) (by decide +kernel) c
  refine hall ?_
  simp only [dnNeedsEscape, Bool.or_eq_true, Bool.and_eq_true] at hc ⊢
  tauto

/-- The octets of ASCII that are never replaced are in the class for the middle, and in that for
the end where the test for it says so. -/
theorem class_of_not_needs (hc : alwaysEscape c = false) (hlt : c < 0x80) :
    isSutf1 c ∧ (escapeLeading c = false → isLutf1 c) ∧ (escapeTrailing c = false → isTutf1 c) :=
  forall_octet (P := fun c ↦ alwaysEscape c = false → c < 0x80 → isSutf1 c ∧
    (escapeLeading c = false → isLutf1 c) ∧ (escapeTrailing c = false → isTutf1 c))
    (by decide +kernel) c hc hlt

theorem ne_of_hexValue (hh : hexValue h = some x) : h ≠ byte '\\' ∧ isSpecial h = false := by
  have hall := forall_octet (P := fun h ↦ (hexValue h).isSome → h ≠ byte '\\' ∧ isSpecial h = false)
    (by decide +kernel) h
  exact hall (by rw [hh]; rfl)

/-! ### Decoding -/

/-- Where every backslash is replaced, decoding gives back what there was. -/
theorem decodePairs_escape (hslash : ∀ i, needs i (byte '\\') = true) (i : ℕ) :
    decodePairs (escapeFrom needs i v) = v := by
  induction v generalizing i with
  | nil => rfl
  | cons c v ih =>
    rw [escapeFrom]
    split
    · obtain ⟨hh, hl, hval⟩ := hexValue_xdigit c
      rw [List.cons_append, List.cons_append, List.singleton_append, decodePairs,
        List.decodeEscapes_escape hh hl, ← decodePairs, ih, ← hval]
    · rename_i hc
      have hne : c ≠ byte '\\' := by
        rintro rfl
        exact hc (hslash i)
      rw [List.singleton_append, decodePairs, List.decodeEscapes_cons hne, ← decodePairs, ih]
      rfl

/-! ### Scanning -/

theorem scanString_cons (hc : c ≠ byte '\\') (hcls : isSutf1 c ∨ 0x80 ≤ c) :
    scanString (c :: w) = scanString w := by
  have hor : (isSutf1 c || decide (0x80 ≤ c)) = true := by simpa using hcls
  rcases w with - | ⟨h, - | ⟨l, w⟩⟩
  · exact if_pos hor
  · exact (if_neg hc).trans (if_pos hor)
  · exact (if_neg hc).trans (if_pos hor)

theorem scanString_pair (hh : hexValue h = some x) (hl : hexValue l = some y) :
    scanString (byte '\\' :: h :: l :: w) = scanString w := by
  obtain ⟨hne, hspecial⟩ := ne_of_hexValue hh
  rw [scanString, if_pos rfl, if_neg (by simp [hne, hspecial]), if_pos (by simp [hh, hl])]

theorem scanString_of_endsValue (hw : EndsValue w) : scanString w = w := by
  rcases w with - | ⟨c, w⟩
  · rfl
  · rcases w with - | ⟨h, - | ⟨l, w⟩⟩ <;> rcases hw with rfl | rfl <;> rfl

/-- What is written is read to its end. -/
theorem scanString_append (hslash : ∀ i, needs i (byte '\\') = true)
    (hcls : ∀ i c, needs i c = false → isSutf1 c ∨ 0x80 ≤ c) (i : ℕ) :
    scanString (escapeFrom needs i v ++ w) = scanString w := by
  induction v generalizing i with
  | nil => rfl
  | cons c v ih =>
    rw [escapeFrom, List.append_assoc]
    split
    · obtain ⟨hh, hl, -⟩ := hexValue_xdigit c
      rw [List.cons_append, List.cons_append, List.singleton_append, scanString_pair hh hl, ih]
    · rename_i hc
      have hne : c ≠ byte '\\' := by
        rintro rfl
        exact hc (hslash i)
      rw [List.singleton_append, scanString_cons hne (hcls i c (by simpa using hc)), ih]

/-! ### The result is in the grammar -/

theorem isPair_xdigit (c : UInt8) : IsPair [byte '\\', xdigit (c >>> 4), xdigit (c &&& 0xF)] := by
  obtain ⟨hh, hl, -⟩ := hexValue_xdigit c
  exact Or.inr (Or.inr ⟨_, _, _, _, hh, hl, rfl⟩)

theorem isUtfmb_of_not_ascii {c : Char} (hc : ∀ b ∈ String.utf8EncodeChar c, ¬b < 0x80) :
    IsUtfmb (String.utf8EncodeChar c) := by
  refine ⟨c, ?_, rfl⟩
  by_contra hlt
  have hval : c.val.toNat ≤ 0x7f := Nat.le_of_lt_succ (Nat.lt_of_not_le hlt)
  have henc : String.utf8EncodeChar c = [UInt8.ofNat c.val.toNat] := if_pos hval
  rw [henc, List.forall_mem_singleton, UInt8.lt_iff_toNat_lt,
    UInt8.toNat_ofNat_of_lt' (show c.val.toNat < 256 by omega)] at hc
  exact hc (Nat.lt_succ_of_le hval)

/-- What becomes of one character is a unit of its class. -/
theorem isUnit_escape (hneeds : ∀ i c, needs i c → c < 0x80) {c : Char} {i : ℕ}
    (hcls : ∀ b, String.utf8EncodeChar c = [b] → b < 0x80 → needs i b = false → cls b) :
    IsUnit cls (escapeFrom needs i (String.utf8EncodeChar c)) := by
  rcases utf8EncodeChar_cases c with ⟨b, hb, hc⟩ | hc
  · rw [hc, escapeFrom, escapeFrom, List.append_nil]
    split
    · exact Or.inr (Or.inr (isPair_xdigit b))
    · rename_i hn
      exact Or.inl ⟨b, hcls b hc hb (by simpa using hn), rfl⟩
  · rw [escapeFrom_of_not_ascii hneeds hc]
    exact Or.inr (Or.inl (isUtfmb_of_not_ascii hc))

/-- What becomes of several characters are units of the class for the middle. -/
theorem exists_units_escape (hneeds : ∀ i c, needs i c → c < 0x80)
    (hcls : ∀ i b, b < 0x80 → needs i b = false → isSutf1 b) (l : List Char) (i : ℕ) :
    ∃ ms : List (List UInt8), (∀ m ∈ ms, IsUnit isSutf1 m) ∧
      escapeFrom needs i (l.flatMap String.utf8EncodeChar) = ms.flatten := by
  induction l generalizing i with
  | nil => exact ⟨[], by simp, rfl⟩
  | cons c l ih =>
    obtain ⟨ms, hms, heq⟩ := ih (i + (String.utf8EncodeChar c).length)
    have hc : IsUnit isSutf1 (escapeFrom needs i (String.utf8EncodeChar c)) :=
      isUnit_escape hneeds fun b _ ↦ hcls i b
    refine ⟨_ :: ms, List.forall_mem_cons.2 ⟨hc, hms⟩, ?_⟩
    rw [List.flatMap_cons, escapeFrom_append, heq, List.flatten_cons]

theorem alwaysEscape_of_not_needs {len i : ℕ} (hc : dnNeedsEscape len i c = false) :
    alwaysEscape c = false := by
  rw [dnNeedsEscape, Bool.or_eq_false_iff, Bool.or_eq_false_iff] at hc
  exact hc.1.1

/-- The first character, those between, and the last one, each in its class. -/
theorem isString_escape (l : List Char) :
    IsString (escapeFrom (dnNeedsEscape (l.flatMap String.utf8EncodeChar).length) 0
      (l.flatMap String.utf8EncodeChar)) := by
  have hneeds (len i : ℕ) (c : UInt8) (hc : dnNeedsEscape len i c) : c < 0x80 :=
    lt_of_dnNeedsEscape hc
  have hfirst (len : ℕ) (c : Char) :
      IsUnit isLutf1 (escapeFrom (dnNeedsEscape len) 0 (String.utf8EncodeChar c)) := by
    refine isUnit_escape (hneeds len) fun b _ hlt hb ↦ ?_
    refine (class_of_not_needs (alwaysEscape_of_not_needs hb) hlt).2.1 ?_
    rw [dnNeedsEscape, Bool.or_eq_false_iff, Bool.or_eq_false_iff] at hb
    simpa using hb.1.2
  rcases l with - | ⟨c, l⟩
  · exact Or.inl rfl
  rcases List.eq_nil_or_concat l with rfl | ⟨m, d, rfl⟩
  · rw [List.flatMap_singleton]
    exact Or.inr (Or.inl (hfirst _ c))
  rw [List.concat_eq_append, List.flatMap_cons, List.flatMap_append, List.flatMap_singleton]
  generalize hlen : (String.utf8EncodeChar c ++ (m.flatMap String.utf8EncodeChar ++
    String.utf8EncodeChar d)).length = len
  obtain ⟨ms, hms, heq⟩ := exists_units_escape (hneeds len)
    (fun i b hlt hb ↦ (class_of_not_needs (alwaysEscape_of_not_needs hb) hlt).1) m
    (0 + (String.utf8EncodeChar c).length)
  rw [escapeFrom_append, escapeFrom_append, heq, ← List.append_assoc]
  refine Or.inr (Or.inr ⟨_, ms, _, hfirst len c, hms, isUnit_escape (hneeds len) ?_, rfl⟩)
  intro b hd hlt hb
  refine (class_of_not_needs (alwaysEscape_of_not_needs hb) hlt).2.2 ?_
  rw [hd, List.length_append, List.length_append, List.length_singleton] at hlen
  have hlast : (0 + (String.utf8EncodeChar c).length +
      (m.flatMap String.utf8EncodeChar).length + 1 == len) = true :=
    beq_iff_eq.2 (by omega)
  rw [dnNeedsEscape, Bool.or_eq_false_iff, hlast, Bool.true_and] at hb
  exact hb.2

/-- A word of the grammar is text. -/
theorem IsUnit.isUtf8 (hcls : ∀ c, cls c → c < 0x80) (h : IsUnit cls w) : IsUtf8 w := by
  rcases h with ⟨c, hc, rfl⟩ | ⟨c, -, rfl⟩ | rfl | ⟨c, hc, rfl⟩ | ⟨h, l, x, y, hh, hl, rfl⟩
  · exact isUtf8_ascii (List.forall_mem_singleton.2 (hcls c hc))
  · exact ⟨[c], by simp⟩
  · exact isUtf8_ascii (List.forall_mem_of_all rfl)
  · have hlt := forall_octet (P := fun c ↦ isSpecial c → c < 0x80) (by decide +kernel) c hc
    exact isUtf8_ascii (by simp [hlt]; decide)
  · have hhex := forall_octet (P := fun c ↦ (hexValue c).isSome → c < 0x80) (by decide +kernel)
    have hh' := hhex h (by rw [hh]; rfl)
    have hl' := hhex l (by rw [hl]; rfl)
    exact isUtf8_ascii (by simp [hh', hl']; decide)

theorem IsString.isUtf8 (h : IsString w) : IsUtf8 w := by
  have hlutf1 := forall_octet (P := fun c ↦ isLutf1 c → c < 0x80) (by decide +kernel)
  have hsutf1 := forall_octet (P := fun c ↦ isSutf1 c → c < 0x80) (by decide +kernel)
  have htutf1 := forall_octet (P := fun c ↦ isTutf1 c → c < 0x80) (by decide +kernel)
  rcases h with rfl | h | ⟨a, ms, z, ha, hms, hz, rfl⟩
  · exact ⟨[], rfl⟩
  · exact h.isUtf8 hlutf1
  · have hmid : IsUtf8 ms.flatten := by
      induction ms with
      | nil => exact ⟨[], rfl⟩
      | cons m ms ih =>
        obtain ⟨hm, hms⟩ := List.forall_mem_cons.1 hms
        exact (hm.isUtf8 hsutf1).append (ih hms)
    exact ((ha.isUtf8 hlutf1).append hmid).append (hz.isUtf8 htutf1)

/-! ### The main result -/

theorem scanAttributeValue_cons (hc : c ≠ byte '#') :
    scanAttributeValue (c :: w) = scanString (c :: w) :=
  if_neg hc

/-- The beginning is no number sign. -/
theorem scanAttributeValue_append (len : ℕ) (hw : EndsValue w) :
    scanAttributeValue (escapeFrom (dnNeedsEscape len) 0 v ++ w) =
      scanString (escapeFrom (dnNeedsEscape len) 0 v ++ w) := by
  rcases v with - | ⟨c, v⟩
  · rcases w with - | ⟨c, w⟩
    · rfl
    · refine scanAttributeValue_cons ?_
      rintro rfl
      rcases hw with hw | hw <;> cases hw
  · rw [escapeFrom]
    split
    · exact scanAttributeValue_cons (by decide)
    · rename_i hc
      refine scanAttributeValue_cons ?_
      rintro rfl
      exact hc (by simp [dnNeedsEscape, escapeLeading])

/-- **`dn_escape` is safe.** It returns a `string` of the grammar that is decoded to its argument,
and in front of a comma, a plus sign or the end of the input reading it as an attribute value stops
at its end. -/
theorem dnEscape_spec (val : String) : ∃ out, dnEscape val = .ok out ∧ IsString (asBytes out) ∧
    decodePairs (asBytes out) = asBytes val ∧
      ∀ w, EndsValue w → scanAttributeValue (asBytes out ++ w) = w := by
  have hneeds : ∀ i c, dnNeedsEscape (asBytes val).length i c → c < 0x80 := fun _ _ ↦
    lt_of_dnNeedsEscape
  obtain ⟨output, hloop, hout⟩ := foldlM_escapeStepBy hneeds (asBytes val)
  have hstring : IsString (escapeFrom (dnNeedsEscape (asBytes val).length) 0 (asBytes val)) := by
    obtain ⟨l, hl⟩ := isUtf8_asBytes val
    rw [hl]
    exact isString_escape l
  obtain ⟨out, hrun, hbytes⟩ : ∃ out, dnEscape val = .ok out ∧
      asBytes out = escapeFrom (dnNeedsEscape (asBytes val).length) 0 (asBytes val) := by
    rw [dnEscape, hloop]
    cases output with
    | none => exact ⟨val, rfl, hout⟩
    | some output =>
      obtain ⟨s, hs, hbytes⟩ := hstring.isUtf8.fromUtf8
      refine ⟨s, ?_, hbytes⟩
      show expect (fromUtf8 output) "dn escaped" = .ok s
      rw [show output = _ from hout, hs, expect_some]
  have hslash (i : ℕ) : dnNeedsEscape (asBytes val).length i (byte '\\') = true := rfl
  have hcls (i : ℕ) (c : UInt8) (hc : dnNeedsEscape (asBytes val).length i c = false) :
      isSutf1 c ∨ 0x80 ≤ c := by
    rcases UInt8.lt_or_le c 0x80 with hlt | hge
    · exact Or.inl (class_of_not_needs (alwaysEscape_of_not_needs hc) hlt).1
    · exact Or.inr hge
  refine ⟨out, hrun, hbytes ▸ hstring, by rw [hbytes, decodePairs_escape hslash], fun w hw ↦ ?_⟩
  rw [hbytes, scanAttributeValue_append _ hw, scanString_append hslash hcls,
    scanString_of_endsValue hw]

/-- A value that begins with a number sign and ends with a space, in front of the next part of a
name. -/
theorem dnEscape_spec_hash : ∃ out, dnEscape "#a, " = .ok out ∧ IsString (asBytes out) ∧
    decodePairs (asBytes out) = asBytes "#a, " ∧
    scanAttributeValue (asBytes out ++ asBytes ",b") = asBytes ",b" := by
  obtain ⟨out, hout, hstring, hdec, hscan⟩ := dnEscape_spec "#a, "
  exact ⟨out, hout, hstring, hdec, hscan _ (Or.inl rfl)⟩

end Dn

end Ldap3
