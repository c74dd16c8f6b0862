import Ldap3.Protocol

/-!
# Operation results

`src/result.rs`: the conversion of a response to its components, `LdapResultExt::from`, and the
referral reader `parse_refs` of `src/search.rs` it calls. Like the control reader it takes the
element apart with `expect`, so a response of another shape makes it panic.
-/

namespace Ldap3

/-- `LdapResult`. -/
structure LdapResult where
  rc : UInt32
  matched : String
  text : String
  refs : List String
  ctrls : List Control
  deriving DecidableEq

/-- `Exop`, the name and value of an extended response. -/
structure Exop where
  name : Option String
  val : Option (List UInt8)
  deriving DecidableEq

/-- `LdapResultExt`: the result with the components some operations add. -/
structure LdapResultExt where
  result : LdapResult
  exop : Exop
  saslCreds : Option (List UInt8)
  deriving DecidableEq

/-- A primitive element as text: `expect_primitive` and `from_utf8`, both unwrapped. -/
def expectText (t : StructureTag) (msg : String) : Except Fault String := do
  let v ← expect t.expectPrimitive "octet string"
  expect (fromUtf8 v) msg

@[simp] theorem expectText_asBytes (cls : TagClass) (id : UInt64) (s msg : String) :
    expectText ⟨cls, id, .P (asBytes s)⟩ msg = .ok s := by
  simp [expectText, bind, Except.bind]

/-- `parse_refs`. -/
def parseRefs (t : StructureTag) : Except Fault (List String) := do
  let tags ← expect t.expectConstructed "referrals"
  tags.mapM fun t ↦ expectText t "uri"

/-- One round of the loop over the components after the diagnostic message. -/
def addComponent (ext : LdapResultExt) (comp : StructureTag) : Except Fault LdapResultExt := do
  if comp.id = 3 then
    let refs ← parseRefs comp
    return { ext with result := { ext.result with refs := ext.result.refs ++ refs } }
  else if comp.id = 7 then
    let creds ← expect comp.expectPrimitive "octet string"
    return { ext with saslCreds := some creds }
  else if comp.id = 10 then
    let name ← expectText comp "exop name"
    return { ext with exop := { ext.exop with name := some name } }
  else if comp.id = 11 then
    let val ← expect comp.expectPrimitive "octet string"
    return { ext with exop := { ext.exop with val := some val } }
  else
    return ext

/-- `From<Tag> for LdapResultExt`. -/
def LdapResultExt.ofTag (t : Tag) : Except Fault LdapResultExt :=
  match t with
  | .structureTag t => do
    let tags ← expect t.expectConstructed "result sequence"
    let rcTag ← expect tags.head? "element"
    let rc ← expect
      (rcTag.matchClass .universal >>= (·.matchId Types.enumerated) >>= (·.expectPrimitive))
      "result code"
    let tags := tags.tail
    let matchedTag ← expect tags.head? "element"
    let matched ← expectText matchedTag "matched dn"
    let tags := tags.tail
    let textTag ← expect tags.head? "element"
    let text ← expectText textTag "diagnostic message"
    tags.tail.foldlM addComponent
      ⟨⟨(parseUint rc).toUInt32, matched, text, [], []⟩, ⟨none, none⟩, none⟩
  | .null _ _ => return ⟨⟨0, "", "", [], []⟩, ⟨none, none⟩, none⟩
  | _ => throw (.panic "not implemented")

/-- `From<Tag> for LdapResult`. -/
def LdapResult.ofTag (t : Tag) : Except Fault LdapResult := do
  let ext ← LdapResultExt.ofTag t
  return ext.result

/-! ### Which responses are read without a panic -/

/-- A primitive element holding UTF-8. -/
def TextOk (t : StructureTag) : Prop :=
  ∃ v, t.payload = .P v ∧ (fromUtf8 v).isSome

/-- A component after the diagnostic message has the form its number asks for. -/
def ComponentOk (comp : StructureTag) : Prop :=
  (comp.id = 3 → ∃ ts, comp.payload = .C ts ∧ ∀ t ∈ ts, TextOk t) ∧
    (comp.id = 7 → ∃ v, comp.payload = .P v) ∧ (comp.id = 10 → TextOk comp) ∧
    (comp.id = 11 → ∃ v, comp.payload = .P v)

/-- The element is a list of a primitive Universal ENUMERATED, two texts and components of the
expected form. -/
def ResultOk (t : StructureTag) : Prop :=
  ∃ rc matched text comps, t.payload = .C (rc :: matched :: text :: comps) ∧
    (rc.cls = .universal ∧ rc.id = Types.enumerated ∧ ∃ v, rc.payload = .P v) ∧
    TextOk matched ∧ TextOk text ∧ ∀ comp ∈ comps, ComponentOk comp

/-- The text of an element is read exactly when there is one. -/
theorem expectText_ok_iff (t : StructureTag) (msg : String) :
    (∃ s, expectText t msg = .ok s) ↔ TextOk t := by
  rcases t with ⟨cls, id, v | ts⟩
  · rcases hutf : fromUtf8 v with - | s <;> simp [expectText, TextOk, hutf, bind, Except.bind]
  · simp [expectText, TextOk, bind, Except.bind]

theorem parseRefs_ok_iff (t : StructureTag) :
    (∃ refs, parseRefs t = .ok refs) ↔ ∃ ts, t.payload = .C ts ∧ ∀ u ∈ ts, TextOk u := by
  rcases t with ⟨cls, id, v | ts⟩
  · simp [parseRefs, bind, Except.bind]
  · have hlist : (∃ refs, (ts.mapM fun t ↦ expectText t "uri") = .ok refs) ↔
        ∀ u ∈ ts, TextOk u := by
      rw [exists_mapM_eq_ok_iff]
      exact forall₂_congr fun u _ ↦ expectText_ok_iff u "uri"
    simpa [parseRefs, bind, Except.bind] using hlist

/-- One round of the loop over the components ends exactly when the component is well formed. -/
theorem addComponent_ok_iff (ext : LdapResultExt) (comp : StructureTag) :
    (∃ ext', addComponent ext comp = .ok ext') ↔ ComponentOk comp := by
  have hprim : ∀ {γ : Type} (msg : String) (f : List UInt8 → γ),
      (∃ y, (expect comp.expectPrimitive msg >>= fun v ↦ pure (f v) : Except Fault γ) = .ok y) ↔
        ∃ v, comp.payload = .P v := by
    intro γ msg f
    rcases comp with ⟨cls, id, v | ts⟩ <;> simp [bind, Except.bind, pure, Except.pure]
  rw [addComponent, ComponentOk]
  split_ifs with h3 h7 h10 h11
  · have hrefs := parseRefs_ok_iff comp
    rw [h3, ← hrefs]
    rcases parseRefs comp with err | refs <;> simp [bind, Except.bind, pure, Except.pure]
  · simp only [h7]
    simpa using hprim "octet string" _
  · have htext := expectText_ok_iff comp "exop name"
    rw [h10, ← htext]
    rcases expectText comp "exop name" with err | name <;>
      simp [bind, Except.bind, pure, Except.pure]
  · simp only [h11]
    simpa using hprim "octet string" _
  · simp [h3, h7, h10, h11, pure, Except.pure]

theorem foldlM_addComponent_ok_iff (comps : List StructureTag) (ext : LdapResultExt) :
    (∃ ext', comps.foldlM addComponent ext = .ok ext') ↔ ∀ comp ∈ comps, ComponentOk comp := by
  induction comps generalizing ext with
  | nil => simp [pure, Except.pure]
  | cons comp comps ih =>
    rw [List.forall_mem_cons, ← addComponent_ok_iff ext comp, List.foldlM_cons]
    rcases addComponent ext comp with err | ext'
    · simp [bind, Except.bind]
    · simpa [bind, Except.bind] using ih ext'

/-- The result code is read exactly when it is a primitive Universal ENUMERATED. -/
theorem expect_resultCode_ok_iff (rcTag : StructureTag) (msg : String) :
    (∃ rc, expect (rcTag.matchClass .universal >>= (·.matchId Types.enumerated) >>=
      (·.expectPrimitive)) msg = .ok rc) ↔
      rcTag.cls = .universal ∧ rcTag.id = Types.enumerated ∧ ∃ v, rcTag.payload = .P v := by
  rcases rcTag with ⟨cls, id, v | ts⟩ <;> by_cases hcls : cls = .universal <;>
    by_cases hid : id = Types.enumerated <;>
    simp [StructureTag.matchClass, StructureTag.matchId, hcls, hid]

theorem LdapResultExt.ofTag_ok_iff (t : StructureTag) :
    (∃ ext, LdapResultExt.ofTag (.structureTag t) = .ok ext) ↔ ResultOk t := by
  rcases t with ⟨cls, id, v | (- | ⟨rcTag, ts⟩)⟩
  · simp [ofTag, ResultOk, bind, Except.bind]
  · simp [ofTag, ResultOk, bind, Except.bind]
  have hrc := expect_resultCode_ok_iff rcTag "result code"
  simp only [ofTag, StructureTag.expectConstructed_C, List.head?_cons, List.tail_cons, expect_some,
    Nom.bind_eq_ok, Except.ok.injEq, exists_eq_left']
  constructor
  · rintro ⟨ext, rc, hcode, matchedTag, hm, matched, hmatched, textTag, ht, text, htext, hcomps⟩
    rcases ts with - | ⟨m, - | ⟨u, comps⟩⟩
    · cases hm
    · cases ht
    cases hm
    cases ht
    exact ⟨rcTag, matchedTag, textTag, comps, rfl, hrc.1 ⟨rc, hcode⟩,
      (expectText_ok_iff matchedTag _).1 ⟨_, hmatched⟩, (expectText_ok_iff textTag _).1 ⟨_, htext⟩,
      (foldlM_addComponent_ok_iff comps _).1 ⟨_, hcomps⟩⟩
  · rintro ⟨rcTag', m, u, comps, heq, hcode, hm, hu, hcomps⟩
    cases heq
    obtain ⟨rc, hcode⟩ := hrc.2 hcode
    obtain ⟨matched, hmatched⟩ := (expectText_ok_iff m "matched dn").2 hm
    obtain ⟨text, htext⟩ := (expectText_ok_iff u "diagnostic message").2 hu
    obtain ⟨ext, hext⟩ := (foldlM_addComponent_ok_iff comps
      ⟨⟨(parseUint rc).toUInt32, matched, text, [], []⟩, ⟨none, none⟩, none⟩).2 hcomps
    exact ⟨ext, rc, hcode, m, rfl, matched, hmatched, u, rfl, text, htext, hext⟩

/-- **A response is converted if and only if it has the expected shape.** -/
theorem LdapResult.ofTag_ok_iff (t : StructureTag) :
    (∃ res, LdapResult.ofTag (.structureTag t) = .ok res) ↔ ResultOk t := by
  rw [← LdapResultExt.ofTag_ok_iff, ofTag]
  rcases LdapResultExt.ofTag (.structureTag t) with err | ext <;>
    simp [bind, Except.bind, pure, Except.pure]

end Ldap3
