import Ldap3.Filter.Value
import Ldap3.Ldap.Request

/-!
# Unescaping a string

`ldap_unescape` of `src/util.rs`, which runs the automaton of the filter parser over a string. It
collects its output in another way: as long as there was no backslash the string itself is the
output, and the first one copies what is in front of it.

Both read the state and the output of one run (`ldapUnescape_eq`, `unescaped_of_forall`), so they
accept the same strings with the same values, but that `ldap_unescape` returns text
(`ldapUnescape_agrees`).
-/

namespace Ldap3

open FilterParser

/-- The body of the loop. A panic of the slice is one of the call. -/
def ldapUnescapeStep (val : List UInt8) (s : Option (List UInt8) × Unescaper) (x : UInt8 × ℕ) :
    Except Failure (Option (List UInt8) × Unescaper) :=
  let (output, esc) := s
  let (c, i) := x
  let esc := esc.feed c
  match esc with
  | .wantFirst => do
    let output ← match output with
      | none => (sliceTo val i).mapError fun _ ↦ .panic
      | some output => .ok output
    return (some output, esc)
  | .value c => return (output.map (· ++ [c]), esc)
  | _ => return (output, esc)

def ldapUnescape (val : String) : Except Failure String := do
  let (output, esc) ←
    (asBytes val).zipIdx.foldlM (ldapUnescapeStep (asBytes val)) (none, .value 0)
  match output with
  | some output =>
    match esc with
    | .value _ =>
      match fromUtf8 output with
      | some s => return s
      | none => throw (.err .decodingUTF8)
    | _ => throw (.err .decodingUTF8)
  | none => return val

/-- A backslash that is not followed by two hex digits. -/
def MalformedEscape (w : List UInt8) : Prop :=
  ∃ pre post, w = pre ++ byte '\\' :: post ∧
    ¬∃ h l post', post = h :: l :: post' ∧ isHexDigit h ∧ isHexDigit l

/-! ### One run for both -/

/-- The loop is at the same point as a run of the filter parser over `pre`: the state is that of
the run, and so is the output. Without an output of its own it has copied nothing because every
octet stands for itself. -/
structure UnescapeInv (pre : List UInt8) (s : Option (List UInt8) × Unescaper)
    (x : Unescaper × List UInt8) : Prop where
  state : s.2 = x.1
  output : s.1.getD pre = x.2
  raw : s.1 = none → ∃ c, x.1 = .value c

variable {pre post : List UInt8} {s : Option (List UInt8) × Unescaper}
  {x : Unescaper × List UInt8}

theorem unescapeInv_init : UnescapeInv [] (none, .value 0) (.value 0, []) :=
  ⟨rfl, rfl, fun _ ↦ ⟨0, rfl⟩⟩

/-- One octet. -/
theorem ldapUnescapeStep_spec {val : List UInt8} {c : UInt8} (hval : val = pre ++ c :: post)
    (h : UnescapeInv pre s x) :
    ∃ s', ldapUnescapeStep val s (c, pre.length) = .ok s' ∧
      UnescapeInv (pre ++ [c]) s' (unescapeStep x c) := by
  obtain ⟨output, esc⟩ := s
  obtain ⟨u, out⟩ := x
  obtain ⟨rfl, rfl, hraw⟩ := h
  cases output with
  | none =>
    obtain ⟨c₀, rfl⟩ : ∃ c₀, esc = .value c₀ := hraw rfl
    by_cases hc : c = byte '\\'
    · -- The copy is of all octets so far, none of which was changed.
      subst hc
      refine ⟨(some pre, .wantFirst), ?_, ⟨rfl, rfl, by rintro ⟨⟩⟩⟩
      simp only [ldapUnescapeStep, Unescaper.feed, sliceTo_of_ascii hval (by decide)]
      rfl
    · rw [unescapeStep_of_ne hc]
      refine ⟨(none, .value c), ?_, ⟨rfl, rfl, fun _ ↦ ⟨c, rfl⟩⟩⟩
      simp [ldapUnescapeStep, Unescaper.feed, hc]
      rfl
  | some output =>
    simp only [ldapUnescapeStep, unescapeStep]
    cases hfeed : esc.feed c with
    | wantFirst => exact ⟨_, rfl, ⟨rfl, rfl, by rintro ⟨⟩⟩⟩
    | wantSecond p => exact ⟨_, rfl, ⟨rfl, rfl, by rintro ⟨⟩⟩⟩
    | value v => exact ⟨_, rfl, ⟨rfl, rfl, by rintro ⟨⟩⟩⟩
    | error => exact ⟨_, rfl, ⟨rfl, rfl, by rintro ⟨⟩⟩⟩

/-- The run over a string. -/
def unescapeRun (w : List UInt8) : Unescaper × List UInt8 :=
  w.foldl unescapeStep (.value 0, [])

theorem foldlM_ldapUnescapeStep (val : List UInt8) :
    ∃ s, val.zipIdx.foldlM (ldapUnescapeStep val) (none, .value 0) = .ok s ∧
      UnescapeInv val s (unescapeRun val) := by
  refine List.foldlM_zipIdx (P := fun pre s ↦ UnescapeInv pre s (unescapeRun pre))
    (fun pre c post s hval h ↦ ?_) unescapeInv_init
  rw [unescapeRun, List.foldl_concat]
  exact ldapUnescapeStep_spec hval h

/-- `ldap_unescape` returns text where the run ends between two octets and has collected it, and
otherwise an error. -/
theorem ldapUnescape_cases (val : String) :
    (∃ c s, unescapeRun (asBytes val) = (.value c, asBytes s) ∧ ldapUnescape val = .ok s) ∨
      (∀ c s, unescapeRun (asBytes val) ≠ (.value c, asBytes s)) ∧
        ldapUnescape val = .error (.err .decodingUTF8) := by
  obtain ⟨⟨output, esc⟩, hloop, hstate, hout, hraw⟩ := foldlM_ldapUnescapeStep (asBytes val)
  have hrun : unescapeRun (asBytes val) = (esc, output.getD (asBytes val)) :=
    Prod.ext hstate.symm hout.symm
  rw [ldapUnescape, hloop, hrun]
  cases output with
  | none =>
    obtain ⟨c, hc⟩ := hraw rfl
    exact Or.inl ⟨c, val, Prod.ext (hstate.trans hc) rfl, rfl⟩
  | some output =>
    cases esc with
    | value c =>
      cases hutf8 : fromUtf8 output with
      | some s =>
        obtain rfl := fromUtf8_eq_some_iff.1 hutf8
        refine Or.inl ⟨c, s, rfl, ?_⟩
        simp only [bind, Except.bind, hutf8]
        rfl
      | none =>
        refine Or.inr ⟨fun c' s hs ↦ ?_, ?_⟩
        · have houtput : output = asBytes s := (Prod.mk.inj hs).2
          rw [houtput, fromUtf8_asBytes] at hutf8
          cases hutf8
        · simp only [bind, Except.bind, hutf8]
          rfl
    | wantFirst => exact Or.inr ⟨by rintro _ _ ⟨⟩, rfl⟩
    | wantSecond p => exact Or.inr ⟨by rintro _ _ ⟨⟩, rfl⟩
    | error => exact Or.inr ⟨by rintro _ _ ⟨⟩, rfl⟩

theorem ldapUnescape_eq_ok_iff {val v : String} :
    ldapUnescape val = .ok v ↔ ∃ c, unescapeRun (asBytes val) = (.value c, asBytes v) := by
  rcases ldapUnescape_cases val with ⟨c, s, hrun, hok⟩ | ⟨hne, herr⟩
  · rw [hok, hrun]
    constructor
    · rintro ⟨rfl⟩
      exact ⟨c, rfl⟩
    · rintro ⟨c', h⟩
      rw [asBytes_injective (Prod.mk.inj h).2]
  · rw [herr]
    exact ⟨by rintro ⟨⟩, fun ⟨c, h⟩ ↦ absurd h (hne c v)⟩

variable {w v : List UInt8}

/-- The filter parser succeeds on a value where the run ends between two octets. -/
theorem unescaped_cases (hw : ∀ c ∈ w, isValueChar c) :
    (∃ c v, unescapeRun w = (.value c, v) ∧ unescaped w = .ok ([], v)) ∨
      (∀ c v, unescapeRun w ≠ (.value c, v)) ∧ unescaped w = .error .error := by
  have htake := Nom.Complete.takeWhile_append hw Nom.Complete.notAhead_nil
  rw [List.append_nil] at htake
  rw [unescaped_eq, Nom.Complete.mapRes, Nom.mapOpt, Nom.Complete.map_of_ok htake]
  have hrun : w.foldl unescapeStep (.value 0, []) = unescapeRun w := rfl
  rw [hrun]
  rcases unescapeRun w with ⟨u, out⟩
  cases u with
  | value c => exact Or.inl ⟨c, out, rfl, rfl⟩
  | wantFirst => exact Or.inr ⟨by rintro _ _ ⟨⟩, rfl⟩
  | wantSecond p => exact Or.inr ⟨by rintro _ _ ⟨⟩, rfl⟩
  | error => exact Or.inr ⟨by rintro _ _ ⟨⟩, rfl⟩

theorem unescaped_eq_ok_iff (hw : ∀ c ∈ w, isValueChar c) :
    unescaped w = .ok ([], v) ↔ ∃ c, unescapeRun w = (.value c, v) := by
  rcases unescaped_cases hw with ⟨c, v', hrun, hok⟩ | ⟨hne, herr⟩
  · rw [hok, hrun]
    constructor
    · intro h
      cases h
      exact ⟨c, rfl⟩
    · rintro ⟨c', h⟩
      cases h
      rfl
  · rw [herr]
    exact ⟨by rintro ⟨⟩, fun ⟨c, h⟩ ↦ absurd h (hne c v)⟩

/-! ### Malformed escapes -/

theorem isHexDigit_of_hexValue {c x : UInt8} (h : hexValue c = some x) : isHexDigit c := by
  rw [hexValue_eq] at h
  split at h
  · assumption
  · cases h

/-- In the rendering of a value every backslash begins an escape. -/
theorem not_malformedEscape_of_rendersValue (h : RendersValue w v) : ¬MalformedEscape w := by
  obtain ⟨ws, rfl, hws⟩ := h
  induction hws with
  | nil =>
    rintro ⟨pre, post, heq, -⟩
    exact absurd (congrArg List.length heq) (by simp)
  | @cons w₁ c ws v hoct _ ih =>
    rintro ⟨pre, post, heq, hpost⟩
    rw [List.flatten_cons] at heq
    rcases hoct with ⟨hraw, rfl⟩ | ⟨h, l, x, y, hh, hl, -, rfl⟩
    · rcases pre with - | ⟨b, pre⟩
      · exact (isRaw_iff.1 hraw).2 (List.cons.inj heq).1
      · exact ih ⟨pre, post, (List.cons.inj heq).2, hpost⟩
    · have hh' := isHexDigit_of_hexValue hh
      have hl' := isHexDigit_of_hexValue hl
      -- The backslash is the first one of the escape, one of its digits, or behind it.
      rcases pre with - | ⟨b₁, - | ⟨b₂, - | ⟨b₃, pre⟩⟩⟩
      · exact hpost ⟨h, l, _, (List.cons.inj heq).2.symm, hh', hl'⟩
      · obtain ⟨-, heq⟩ := List.cons.inj heq
        obtain ⟨rfl, -⟩ := List.cons.inj heq
        cases hh'
      · obtain ⟨-, heq⟩ := List.cons.inj heq
        obtain ⟨-, heq⟩ := List.cons.inj heq
        obtain ⟨rfl, -⟩ := List.cons.inj heq
        cases hl'
      · obtain ⟨-, heq⟩ := List.cons.inj heq
        obtain ⟨-, heq⟩ := List.cons.inj heq
        obtain ⟨-, heq⟩ := List.cons.inj heq
        exact ih ⟨pre, post, heq, hpost⟩

/-- A run over a malformed escape does not end between two octets. -/
theorem unescapeRun_ne_of_malformedEscape (hw : ∀ c ∈ w, isValueChar c) (h : MalformedEscape w)
    (c : UInt8) : unescapeRun w ≠ (.value c, v) := by
  intro hrun
  obtain ⟨v', -, hrenders⟩ := rendersValue_of_foldl hw hrun
  exact not_malformedEscape_of_rendersValue hrenders h

/-- Without a backslash every octet stands for itself. -/
theorem unescapeRun_of_not_mem (h : byte '\\' ∉ w) : ∃ c, unescapeRun w = (.value c, w) := by
  suffices hfold : ∀ (c₀ : UInt8) (acc : List UInt8),
      ∃ c, w.foldl unescapeStep (.value c₀, acc) = (.value c, acc ++ w) from hfold 0 []
  induction w with
  | nil => exact fun c₀ acc ↦ ⟨c₀, by simp⟩
  | cons b w ih =>
    intro c₀ acc
    rw [List.mem_cons, not_or] at h
    obtain ⟨c, hc⟩ := ih h.2 b (acc ++ [b])
    exact ⟨c, by rw [List.foldl_cons, unescapeStep_of_ne (Ne.symm h.1), hc]; simp⟩

/-! ### The main result -/

/-- **Both ways to unescape agree.** On a string of value characters the filter parser takes all of
it for a value that is text exactly when `ldap_unescape` returns this text, and both fail on a
malformed escape. Without a backslash the string itself is returned, and what `ldap_escape` made of
a string is turned back into it. -/
theorem ldapUnescape_agrees :
    (∀ s : String, (∀ c ∈ asBytes s, isValueChar c) →
      (∀ v : String, unescaped (asBytes s) = .ok ([], asBytes v) ↔ ldapUnescape s = .ok v) ∧
        (MalformedEscape (asBytes s) → unescaped (asBytes s) = .error .error ∧
          ldapUnescape s = .error (.err .decodingUTF8))) ∧
    (∀ s : String, byte '\\' ∉ asBytes s → ldapUnescape s = .ok s) ∧
    ∀ x : String, ∃ y, ldapEscape x = .ok y ∧ ldapUnescape y = .ok x := by
  refine ⟨fun s hs ↦ ⟨fun v ↦ ?_, fun hmal ↦ ⟨?_, ?_⟩⟩, fun s hs ↦ ?_, fun x ↦ ?_⟩
  · rw [unescaped_eq_ok_iff hs, ldapUnescape_eq_ok_iff]
  · rcases unescaped_cases hs with ⟨c, v, hrun, -⟩ | ⟨-, herr⟩
    · exact absurd hrun (unescapeRun_ne_of_malformedEscape hs hmal c)
    · exact herr
  · rcases ldapUnescape_cases s with ⟨c, v, hrun, -⟩ | ⟨-, herr⟩
    · exact absurd hrun (unescapeRun_ne_of_malformedEscape hs hmal c)
    · exact herr
  · exact ldapUnescape_eq_ok_iff.2 (unescapeRun_of_not_mem hs)
  · obtain ⟨y, hy, hrenders⟩ := ldapEscape_renders x
    exact ⟨y, hy, ldapUnescape_eq_ok_iff.2 (foldl_of_rendersValue hrenders 0 [])⟩

/-- An escape, one that breaks off, and none. -/
theorem ldapUnescape_agrees_star :
    unescaped (asBytes "a\\2A") = .ok ([], asBytes "a*") ∧
    (unescaped (asBytes "a\\2") = .error .error ∧
      ldapUnescape "a\\2" = .error (.err .decodingUTF8)) ∧
    ldapUnescape "ab" = .ok "ab" := by
  obtain ⟨hboth, hplain, -⟩ := ldapUnescape_agrees
  have hbroken : MalformedEscape (asBytes "a\\2") := by
    refine ⟨asBytes "a", asBytes "2", rfl, ?_⟩
    rintro ⟨h, l, post, heq, -⟩
    cases heq
  exact ⟨((hboth "a\\2A" (by decide +kernel)).1 "a*").2 (by decide +kernel),
    (hboth "a\\2" (by decide +kernel)).2 hbroken, hplain "ab" (by decide +kernel)⟩

end Ldap3
