import Ldap3.Filter.Parse
import Ldap3.Controls
import Ldap3.Lib.Text

/-!
# Values in filter strings

The values a filter string holds, read by `unescaped` and written by `ldap_escape` of
`src/util.rs`.

`unescaped` runs an automaton over the characters of a value. Between two octets it is in the
state `value`, and it returns there exactly over the rendering of one octet, so it accepts the
renderings of values and nothing else (`unescaped_append`, `sound_unescaped`).

What `ldap_escape` makes of a string is a rendering of the string (`ldapEscape_renders`), and is
itself text: the octets it writes and those it replaces are ASCII, and no octet of a longer
character is.
-/

namespace Ldap3

/-! ### Renderings of values -/

theorem RendersValue.nil : RendersValue [] [] :=
  ⟨[], rfl, .nil⟩

/-- One octet more ahead of it. -/
theorem RendersValue.cons {w w' v : List UInt8} {c : UInt8} (h : RendersOctet w c)
    (hv : RendersValue w' v) : RendersValue (w ++ w') (c :: v) := by
  obtain ⟨ws, rfl, hws⟩ := hv
  exact ⟨w :: ws, rfl, .cons h hws⟩

/-- A statement about octets, checked on all of them. -/
theorem forall_octet {P : UInt8 → Prop} (hall : ∀ n : Fin 256, P (UInt8.ofNat n)) (c : UInt8) :
    P c := by
  have hc := hall ⟨c.toNat, c.toNat_lt⟩
  rwa [UInt8.ofNat_toNat] at hc

namespace FilterParser

open Nom.Complete

/-- The arithmetic of the source gives the value of each hex digit. -/
theorem hexValue_eq (c : UInt8) :
    hexValue c = if isHexDigit c then some (hexDigit c) else none :=
  forall_octet (P := fun c ↦ hexValue c = if isHexDigit c then some (hexDigit c) else none)
    (by decide +kernel) c

/-- The shift by four bits is the factor of the first hex digit. -/
theorem shiftLeft_four (c : UInt8) : c <<< 4 = c * 16 := by
  rw [← UInt8.toNat_inj, UInt8.toNat_shiftLeft, UInt8.toNat_mul, Nat.shiftLeft_eq]
  rfl

/-- No delimiter is a hex digit. -/
theorem isValueChar_of_hexValue {c x : UInt8} (h : hexValue c = some x) : isValueChar c := by
  by_contra hc
  simp only [isValueChar, Bool.and_eq_true, bne_iff_ne, not_and_or, not_not] at hc
  rcases hc with ((rfl | rfl) | rfl) | rfl <;> cases h

/-- A value character stands for itself, unless it is the backslash. -/
theorem isRaw_iff {c : UInt8} : IsRaw c ↔ isValueChar c ∧ c ≠ byte '\\' := by
  simp [IsRaw, isValueChar, and_assoc]

theorem isValueChar_of_rendersOctet {w : List UInt8} {c : UInt8} (h : RendersOctet w c) :
    ∀ x ∈ w, isValueChar x := by
  rcases h with ⟨hraw, rfl⟩ | ⟨h, l, x, y, hh, hl, -, rfl⟩
  · rintro x hx
    obtain rfl := List.mem_singleton.1 hx
    exact (isRaw_iff.1 hraw).1
  · intro z hz
    simp only [List.mem_cons, List.not_mem_nil, or_false] at hz
    rcases hz with rfl | rfl | rfl
    · rfl
    · exact isValueChar_of_hexValue hh
    · exact isValueChar_of_hexValue hl

/-- A value is rendered in value characters, so that `is_value_char` does not cut it off. -/
theorem isValueChar_of_rendersValue {w v : List UInt8} (h : RendersValue w v) :
    ∀ x ∈ w, isValueChar x := by
  obtain ⟨ws, rfl, hws⟩ := h
  induction hws with
  | nil => exact fun _ hx ↦ nomatch hx
  | cons hoct _ ih =>
    intro x hx
    rw [List.flatten_cons, List.mem_append] at hx
    exact hx.elim (isValueChar_of_rendersOctet hoct x) (ih x)

/-! ### One step of the automaton -/

variable {c₀ c h l x y : UInt8} {acc : List UInt8}

theorem unescapeStep_of_ne (hc : c ≠ byte '\\') :
    unescapeStep (.value c₀, acc) c = (.value c, acc ++ [c]) := by
  simp [unescapeStep, Unescaper.feed, hc]

theorem unescapeStep_backslash :
    unescapeStep (.value c₀, acc) (byte '\\') = (.wantFirst, acc) :=
  rfl

theorem unescapeStep_wantFirst (hh : hexValue h = some x) :
    unescapeStep (.wantFirst, acc) h = (.wantSecond x, acc) := by
  rw [hexValue_eq] at hh
  split at hh
  · rename_i hdigit
    obtain rfl := Option.some.inj hh
    simp [unescapeStep, Unescaper.feed, hdigit]
  · cases hh

theorem unescapeStep_wantFirst_of_none (hh : hexValue h = none) :
    unescapeStep (.wantFirst, acc) h = (.error, acc) := by
  rw [hexValue_eq] at hh
  split at hh
  · cases hh
  · rename_i hdigit
    simp [unescapeStep, Unescaper.feed, hdigit]

theorem unescapeStep_wantSecond (hl : hexValue l = some y) :
    unescapeStep (.wantSecond x, acc) l = (.value (x * 16 + y), acc ++ [x * 16 + y]) := by
  rw [hexValue_eq] at hl
  split at hl
  · rename_i hdigit
    obtain rfl := Option.some.inj hl
    simp [unescapeStep, Unescaper.feed, hdigit, shiftLeft_four]
  · cases hl

theorem unescapeStep_wantSecond_of_none (hl : hexValue l = none) :
    unescapeStep (.wantSecond x, acc) l = (.error, acc) := by
  rw [hexValue_eq] at hl
  split at hl
  · cases hl
  · rename_i hdigit
    simp [unescapeStep, Unescaper.feed, hdigit]

/-! ### Runs of the automaton -/

/-- An error stays one to the end. -/
theorem foldl_error (w : List UInt8) : w.foldl unescapeStep (.error, acc) = (.error, acc) := by
  induction w with
  | nil => rfl
  | cons c w ih => exact ih

/-- The rendering of an octet takes the automaton from `value` to `value`. -/
theorem foldl_of_rendersOctet {w : List UInt8} (hw : RendersOctet w c) :
    w.foldl unescapeStep (.value c₀, acc) = (.value c, acc ++ [c]) := by
  rcases hw with ⟨hraw, rfl⟩ | ⟨h, l, x, y, hh, hl, rfl, rfl⟩
  · exact unescapeStep_of_ne (isRaw_iff.1 hraw).2
  · rw [List.foldl_cons, unescapeStep_backslash, List.foldl_cons, unescapeStep_wantFirst hh,
      List.foldl_cons, unescapeStep_wantSecond hl, List.foldl_nil]

/-- **The automaton reads a rendering as its value.** What it holds after it only matters for the
next octet. -/
theorem foldl_of_rendersValue {w v : List UInt8} (hw : RendersValue w v) (c₀ : UInt8)
    (acc : List UInt8) : ∃ c, w.foldl unescapeStep (.value c₀, acc) = (.value c, acc ++ v) := by
  obtain ⟨ws, rfl, hws⟩ := hw
  induction hws generalizing c₀ acc with
  | nil => exact ⟨c₀, by simp⟩
  | @cons w c ws v hoct _ ih =>
    rw [List.flatten_cons, List.foldl_append, foldl_of_rendersOctet hoct]
    obtain ⟨c', hc'⟩ := ih c (acc ++ [c])
    exact ⟨c', by rw [hc']; simp⟩

/-- A run from `value` to `value` is over a rendering. The induction is on the length of the input,
since an escape takes three characters at once. -/
theorem rendersValue_of_foldl {w out : List UInt8} (hchars : ∀ x ∈ w, isValueChar x)
    (hrun : w.foldl unescapeStep (.value c₀, acc) = (.value c, out)) :
    ∃ v, out = acc ++ v ∧ RendersValue w v := by
  induction hn : w.length using Nat.strong_induction_on generalizing w c₀ acc with
  | _ n ih =>
    rcases w with - | ⟨b, w⟩
    · obtain ⟨-, rfl⟩ := Prod.mk.inj hrun
      exact ⟨[], by simp, .nil⟩
    by_cases hb : b = byte '\\'
    · subst hb
      rcases w with - | ⟨h, w⟩
      · cases hrun
      rw [List.foldl_cons, unescapeStep_backslash, List.foldl_cons] at hrun
      rcases hh : hexValue h with - | x
      · rw [unescapeStep_wantFirst_of_none hh, foldl_error] at hrun
        cases hrun
      rw [unescapeStep_wantFirst hh] at hrun
      rcases w with - | ⟨l, w⟩
      · cases hrun
      rw [List.foldl_cons] at hrun
      rcases hl : hexValue l with - | y
      · rw [unescapeStep_wantSecond_of_none hl, foldl_error] at hrun
        cases hrun
      rw [unescapeStep_wantSecond hl] at hrun
      simp only [List.length_cons] at hn
      obtain ⟨v, rfl, hv⟩ := ih w.length (by omega)
        (fun z hz ↦ hchars z (by simp [hz])) hrun rfl
      have hoct : RendersOctet [byte '\\', h, l] (x * 16 + y) :=
        Or.inr ⟨h, l, x, y, hh, hl, rfl, rfl⟩
      exact ⟨(x * 16 + y) :: v, by simp, RendersValue.cons hoct hv⟩
    · rw [List.foldl_cons, unescapeStep_of_ne hb] at hrun
      simp only [List.length_cons] at hn
      obtain ⟨v, rfl, hv⟩ := ih w.length (by omega)
        (fun z hz ↦ hchars z (List.mem_cons_of_mem _ hz)) hrun rfl
      have hraw : IsRaw b := isRaw_iff.2 ⟨hchars b List.mem_cons_self, hb⟩
      have hoct : RendersOctet [b] b := Or.inl ⟨hraw, rfl⟩
      exact ⟨b :: v, by simp, RendersValue.cons hoct hv⟩

/-! ### Reading a value -/

/-- The fold over single characters is one over the longest run of them. -/
theorem unescaped_eq : unescaped =
    mapRes (map (takeWhile isValueChar) fun w ↦ w.foldl unescapeStep (.value 0, [])) fun x ↦
      match x.1 with
      | .value _ => some x.2
      | _ => none := by
  rw [← many0_verify_anyElem]
  rfl

/-- **Every rendering of a value is read as the value.** -/
theorem unescaped_append {w v r : List UInt8} (hw : RendersValue w v)
    (hr : NotAhead isValueChar r) : unescaped (w ++ r) = .ok (r, v) := by
  have htake := takeWhile_append (isValueChar_of_rendersValue hw) hr
  obtain ⟨c, hc⟩ := foldl_of_rendersValue hw 0 []
  rw [unescaped_eq]
  exact mapRes_eq_ok_iff.2 ⟨_, map_of_ok htake, by rw [hc]; rfl⟩

/-- **Only renderings are read.** -/
theorem sound_unescaped : Sound unescaped RendersValue := by
  rw [unescaped_eq]
  refine ((sound_takeWhile isValueChar).map (S := fun w x ↦
    (∀ c ∈ w, isValueChar c) ∧ w.foldl unescapeStep (.value 0, []) = x) ?_).mapRes ?_
  · rintro w _ ⟨rfl, hchars⟩
    exact ⟨hchars, rfl⟩
  · rintro w ⟨u, out⟩ v ⟨hchars, hrun⟩ hv
    split at hv
    · rename_i c hu
      obtain rfl := Option.some.inj hv
      obtain ⟨v, rfl, hw⟩ := rendersValue_of_foldl hchars (hrun.trans (congrArg (·, out) hu))
      exact hw
    · cases hv

end FilterParser

/-! ### Writing a value -/

/-- `needs_escape`. -/
def needsEscape (c : UInt8) : Bool :=
  c == byte '\\' || c == byte '*' || c == byte '(' || c == byte ')' || c == 0

/-- The digits are lower case. -/
def xdigit (c : UInt8) : UInt8 :=
  c + if c < 10 then byte '0' else byte 'a' - 10

/-- `str::is_char_boundary`: not inside of a character. -/
def isCharBoundary (lit : List UInt8) (i : ℕ) : Bool :=
  i == 0 ||
    match lit[i]? with
    | none => i == lit.length
    | some c => !(0x80 ≤ c && c < 0xC0)

/-- `lit[..i]`, which panics inside of a character. -/
def sliceTo (lit : List UInt8) (i : ℕ) : Except Fault (List UInt8) :=
  expect (if isCharBoundary lit i then some (lit.take i) else none) "not a char boundary"

/-- The body of the loop: the output is created at the first octet to escape. -/
def escapeStep (lit : List UInt8) (output : Option (List UInt8)) (x : UInt8 × ℕ) :
    Except Fault (Option (List UInt8)) :=
  let (c, i) := x
  if needsEscape c then do
    let output ← match output with
      | none => sliceTo lit i
      | some output => .ok output
    return some (output ++ [byte '\\', xdigit (c >>> 4), xdigit (c &&& 0xF)])
  else
    .ok (output.map (· ++ [c]))

/-- The octets are turned to a `String` without a check if any was escaped. -/
def ldapEscape (lit : String) : Except Fault String := do
  let output ← (asBytes lit).zipIdx.foldlM (escapeStep (asBytes lit)) none
  match output with
  | some output => expect (fromUtf8 output) "ldap escaped"
  | none => return lit

/-- What becomes of an octet. -/
def escapeOctet (c : UInt8) : List UInt8 :=
  if needsEscape c then [byte '\\', xdigit (c >>> 4), xdigit (c &&& 0xF)] else [c]

/-! ### The loop, whichever octets it escapes

`dn_escape` has the same loop, with a test that depends on the place of the octet as well. -/

/-- The body of the loop, with its test. -/
def escapeStepBy (needs : ℕ → UInt8 → Bool) (lit : List UInt8) (output : Option (List UInt8))
    (x : UInt8 × ℕ) : Except Fault (Option (List UInt8)) :=
  let (c, i) := x
  if needs i c then do
    let output ← match output with
      | none => sliceTo lit i
      | some output => .ok output
    return some (output ++ [byte '\\', xdigit (c >>> 4), xdigit (c &&& 0xF)])
  else
    .ok (output.map (· ++ [c]))

/-- What becomes of the octets from the given place on. -/
def escapeFrom (needs : ℕ → UInt8 → Bool) : (i : ℕ) → List UInt8 → List UInt8
  | _, [] => []
  | i, c :: v =>
    (if needs i c then [byte '\\', xdigit (c >>> 4), xdigit (c &&& 0xF)] else [c]) ++
      escapeFrom needs (i + 1) v

/-- The two digits are those of the octet. -/
theorem hexValue_xdigit (c : UInt8) : hexValue (xdigit (c >>> 4)) = some (c >>> 4) ∧
    hexValue (xdigit (c &&& 0xF)) = some (c &&& 0xF) ∧ c = (c >>> 4) * 16 + (c &&& 0xF) :=
  forall_octet (P := fun c ↦ hexValue (xdigit (c >>> 4)) = some (c >>> 4) ∧
    hexValue (xdigit (c &&& 0xF)) = some (c &&& 0xF) ∧ c = (c >>> 4) * 16 + (c &&& 0xF))
    (by decide +kernel) c

/-- In front of an octet of ASCII is the boundary of a character. -/
theorem sliceTo_of_ascii {lit pre post : List UInt8} {c : UInt8} (hlit : lit = pre ++ c :: post)
    (hc : c < 0x80) : sliceTo lit pre.length = .ok pre := by
  have hget : lit[pre.length]? = some c := by rw [hlit]; simp
  have hlow : ¬0x80 ≤ c := UInt8.not_le.2 hc
  have hboundary : isCharBoundary lit pre.length := by simp [isCharBoundary, hget, hlow]
  rw [sliceTo, if_pos hboundary, hlit, List.take_left]
  rfl

section

variable {needs : ℕ → UInt8 → Bool} {lit pre post : List UInt8} {c : UInt8}
  {output : Option (List UInt8)}

/-- The index goes on with the second part. -/
theorem escapeFrom_append (i : ℕ) (v w : List UInt8) :
    escapeFrom needs i (v ++ w) = escapeFrom needs i v ++ escapeFrom needs (i + v.length) w := by
  induction v generalizing i with
  | nil => rfl
  | cons c v ih =>
    rw [List.cons_append, escapeFrom, escapeFrom, ih, List.append_assoc, List.length_cons,
      Nat.add_assoc, Nat.add_comm 1]

/-- The octets of a character outside ASCII stay, so that a text stays one. -/
theorem escapeFrom_of_not_ascii (hneeds : ∀ i c, needs i c → c < 0x80) {v : List UInt8}
    (hv : ∀ c ∈ v, ¬c < 0x80) (i : ℕ) : escapeFrom needs i v = v := by
  induction v generalizing i with
  | nil => rfl
  | cons c v ih =>
    obtain ⟨hc, hv⟩ := List.forall_mem_cons.1 hv
    rw [escapeFrom, if_neg fun h ↦ hc (hneeds i c h), ih hv]
    rfl

/-- The output, once there is one, holds what became of all octets so far; before that they stay as
they are. -/
theorem escapeStepBy_spec (hneeds : ∀ i c, needs i c → c < 0x80) (hlit : lit = pre ++ c :: post)
    (h : output.getD pre = escapeFrom needs 0 pre) :
    ∃ output', escapeStepBy needs lit output (c, pre.length) = .ok output' ∧
      output'.getD (pre ++ [c]) = escapeFrom needs 0 (pre ++ [c]) := by
  rw [escapeStepBy, escapeFrom_append, ← h, escapeFrom, escapeFrom, List.append_nil, Nat.zero_add]
  dsimp only
  split
  · rename_i hc
    cases output with
    | none => exact ⟨_, by rw [sliceTo_of_ascii hlit (hneeds _ _ hc)]; rfl, rfl⟩
    | some output => exact ⟨_, rfl, rfl⟩
  · cases output with
    | none => exact ⟨none, rfl, rfl⟩
    | some output => exact ⟨_, rfl, rfl⟩

theorem foldlM_escapeStepBy (hneeds : ∀ i c, needs i c → c < 0x80) (lit : List UInt8) :
    ∃ output, lit.zipIdx.foldlM (escapeStepBy needs lit) none = .ok output ∧
      output.getD lit = escapeFrom needs 0 lit :=
  List.foldlM_zipIdx (P := fun pre output ↦ Option.getD output pre = escapeFrom needs 0 pre)
    (fun _ _ _ _ hlit h ↦ escapeStepBy_spec hneeds hlit h) rfl

end

/-! ### What `ldap_escape` escapes -/

/-- What is escaped is what a filter cannot have in a value. -/
theorem needsEscape_iff {c : UInt8} : needsEscape c ↔
    c = byte '\\' ∨ c = byte '*' ∨ c = byte '(' ∨ c = byte ')' ∨ c = 0 := by
  simp only [needsEscape, Bool.or_eq_true, beq_iff_eq, or_assoc]

theorem lt_of_needsEscape {c : UInt8} (h : needsEscape c) : c < 0x80 := by
  rcases needsEscape_iff.1 h with rfl | rfl | rfl | rfl | rfl <;> decide

/-- An octet is rendered as itself or as its escape. -/
theorem escapeOctet_renders (c : UInt8) : RendersOctet (escapeOctet c) c := by
  rw [escapeOctet]
  split
  · obtain ⟨hh, hl, hval⟩ := hexValue_xdigit c
    exact Or.inr ⟨_, _, _, _, hh, hl, hval, rfl⟩
  · rename_i hc
    simp only [needsEscape_iff, not_or] at hc
    obtain ⟨hslash, hstar, hopen, hclose, hnul⟩ := hc
    exact Or.inl ⟨⟨hnul, hopen, hclose, hstar, hslash⟩, rfl⟩

theorem flatMap_escapeOctet_renders (v : List UInt8) : RendersValue (v.flatMap escapeOctet) v := by
  induction v with
  | nil => exact .nil
  | cons c v ih => exact RendersValue.cons (escapeOctet_renders c) ih

/-- The index does not matter for filters. -/
theorem escapeFrom_needsEscape (i : ℕ) (v : List UInt8) :
    escapeFrom (fun _ c ↦ needsEscape c) i v = v.flatMap escapeOctet := by
  induction v generalizing i with
  | nil => rfl
  | cons c v ih => rw [escapeFrom, ih, List.flatMap_cons, escapeOctet]

/-- The output so far, once there is one, holds what became of all octets so far; before that they
stay as they are. -/
def EscapeInv (pre : List UInt8) : Option (List UInt8) → Prop
  | none => pre.flatMap escapeOctet = pre
  | some output => output = pre.flatMap escapeOctet

/-- The loop of `ldap_escape`. -/
theorem foldlM_escapeStep (lit : List UInt8) :
    ∃ output, lit.zipIdx.foldlM (escapeStep lit) none = .ok output ∧ EscapeInv lit output := by
  have hneeds : ∀ (_ : ℕ) c, needsEscape c → c < 0x80 := fun _ _ ↦ lt_of_needsEscape
  obtain ⟨output, hloop, hinv⟩ := foldlM_escapeStepBy hneeds lit
  rw [escapeFrom_needsEscape] at hinv
  refine ⟨output, hloop, ?_⟩
  cases output with
  | none => exact hinv.symm
  | some output => exact hinv

/-! ### The output is text -/

/-- The encoding of some characters. -/
def IsUtf8 (v : List UInt8) : Prop :=
  ∃ l : List Char, v = l.flatMap String.utf8EncodeChar

theorem asBytes_ofList (l : List Char) :
    asBytes (String.ofList l) = l.flatMap String.utf8EncodeChar := by
  rw [asBytes, String.toByteArray_ofList, List.utf8Encode, List.data_toByteArray]

theorem isUtf8_asBytes (s : String) : IsUtf8 (asBytes s) :=
  ⟨s.toList, by rw [← asBytes_ofList, String.ofList_toList]⟩

/-- So the text is there. -/
theorem IsUtf8.fromUtf8 {v : List UInt8} (h : IsUtf8 v) :
    ∃ s, fromUtf8 v = some s ∧ asBytes s = v := by
  obtain ⟨l, rfl⟩ := h
  rw [← asBytes_ofList]
  exact ⟨_, fromUtf8_asBytes _, rfl⟩

theorem IsUtf8.append {v v' : List UInt8} (h : IsUtf8 v) (h' : IsUtf8 v') : IsUtf8 (v ++ v') := by
  obtain ⟨l, rfl⟩ := h
  obtain ⟨l', rfl⟩ := h'
  exact ⟨l ++ l', List.flatMap_append.symm⟩

theorem isUtf8_ascii {v : List UInt8} (h : ∀ c ∈ v, c < 0x80) : IsUtf8 v := by
  induction v with
  | nil => exact ⟨[], rfl⟩
  | cons c v ih =>
    have hlt : c.toNat < 128 := UInt8.lt_iff_toNat_lt.1 (h c List.mem_cons_self)
    have hval : (Char.ofNat c.toNat).val.toNat = c.toNat := by
      have hvalid : c.toNat.isValidChar := Or.inl (by omega)
      rw [Char.ofNat, dif_pos hvalid]
      rfl
    have hchar : String.utf8EncodeChar (Char.ofNat c.toNat) = [c] := by
      rw [String.utf8EncodeChar, hval, if_pos (show c.toNat ≤ 0x7f by omega), UInt8.ofNat_toNat]
    obtain ⟨l, rfl⟩ := ih fun x hx ↦ h x (List.mem_cons_of_mem _ hx)
    exact ⟨Char.ofNat c.toNat :: l, by rw [List.flatMap_cons, hchar]; rfl⟩

/-- The octets of a character are one of ASCII or all others. -/
theorem utf8EncodeChar_cases (c : Char) : (∃ b, b < 0x80 ∧ String.utf8EncodeChar c = [b]) ∨
    ∀ b ∈ String.utf8EncodeChar c, ¬b < 0x80 := by
  have hlow : ∀ n : ℕ, n ≤ 0x7f → UInt8.ofNat n < 0x80 := by
    intro n hn
    rw [UInt8.lt_iff_toNat_lt, UInt8.toNat_ofNat']
    show n % 256 < 128
    omega
  have hhigh : ∀ n : ℕ, 0x80 ≤ n → n < 0x100 → ¬UInt8.ofNat n < 0x80 := by
    intro n hn hn'
    rw [UInt8.lt_iff_toNat_lt, UInt8.toNat_ofNat']
    show ¬n % 256 < 128
    omega
  rw [String.utf8EncodeChar]
  split
  · rename_i h
    exact Or.inl ⟨_, hlow _ h, rfl⟩
  · right
    intro b hb
    split at hb
    · simp only [List.mem_cons, List.not_mem_nil, or_false] at hb
      rcases hb with rfl | rfl <;> exact hhigh _ (by omega) (by omega)
    · split at hb
      · simp only [List.mem_cons, List.not_mem_nil, or_false] at hb
        rcases hb with rfl | rfl | rfl <;> exact hhigh _ (by omega) (by omega)
      · simp only [List.mem_cons, List.not_mem_nil, or_false] at hb
        rcases hb with rfl | rfl | rfl | rfl <;> exact hhigh _ (by omega) (by omega)

theorem isUtf8_escapeOctet {c : UInt8} (h : c < 0x80) : IsUtf8 (escapeOctet c) := by
  refine isUtf8_ascii fun x hx ↦ ?_
  rw [escapeOctet] at hx
  split at hx
  · rename_i hc
    simp only [List.mem_cons, List.not_mem_nil, or_false] at hx
    rcases needsEscape_iff.1 hc with rfl | rfl | rfl | rfl | rfl <;>
      rcases hx with rfl | rfl | rfl <;> decide
  · rwa [List.mem_singleton.1 hx]

theorem flatMap_escapeOctet_of_not_ascii {v : List UInt8} (h : ∀ c ∈ v, ¬c < 0x80) :
    v.flatMap escapeOctet = v := by
  rw [← escapeFrom_needsEscape 0]
  exact escapeFrom_of_not_ascii (fun _ _ hc ↦ lt_of_needsEscape hc) h 0

/-- **Escaping keeps a text a text.** -/
theorem isUtf8_flatMap_escapeOctet {v : List UInt8} (h : IsUtf8 v) :
    IsUtf8 (v.flatMap escapeOctet) := by
  obtain ⟨l, rfl⟩ := h
  induction l with
  | nil => exact ⟨[], rfl⟩
  | cons c l ih =>
    rw [List.flatMap_cons, List.flatMap_append]
    refine IsUtf8.append ?_ ih
    rcases utf8EncodeChar_cases c with ⟨b, hb, hc⟩ | hall
    · rw [hc, List.flatMap_singleton]
      exact isUtf8_escapeOctet hb
    · rw [flatMap_escapeOctet_of_not_ascii hall]
      exact ⟨[c], by simp⟩

/-- **`ldap_escape` returns, and returns a rendering of its argument.** -/
theorem ldapEscape_renders (lit : String) :
    ∃ out, ldapEscape lit = .ok out ∧ RendersValue (asBytes out) (asBytes lit) := by
  obtain ⟨output, hrun, hinv⟩ := foldlM_escapeStep (asBytes lit)
  cases output with
  | none =>
    refine ⟨lit, by rw [ldapEscape, hrun]; rfl, ?_⟩
    have hrenders := flatMap_escapeOctet_renders (asBytes lit)
    rwa [show (asBytes lit).flatMap escapeOctet = asBytes lit from hinv] at hrenders
  | some output =>
    have hout : output = (asBytes lit).flatMap escapeOctet := hinv
    obtain ⟨s, hs, hbytes⟩ := (isUtf8_flatMap_escapeOctet (isUtf8_asBytes lit)).fromUtf8
    refine ⟨s, ?_, ?_⟩
    · rw [ldapEscape, hrun]
      show expect (fromUtf8 output) "ldap escaped" = .ok s
      rw [hout, hs, expect_some]
    · rw [hbytes]
      exact flatMap_escapeOctet_renders _

end Ldap3
