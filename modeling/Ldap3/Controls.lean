import Ldap3.Lber.Ber

/-!
# Controls

`src/controls_impl.rs`: the generic control, its encoding `build_tag` and the reader of a control
list `parse_controls`.

The reader takes a tag tree from the network apart with `expect` and an index, each of which
panics on a tree of another shape. A run that may end so is an `Except Fault`, where `panic`
carries the text of the panic and `error` that of an `io::Error`. Which trees are read without a
panic is `ControlsOk`.
-/

namespace Ldap3

/-! ### Failing runs -/

/-- How a run fails: by returning an `io::Error`, or by panicking. -/
inductive Fault where
  | error (msg : String)
  | panic (msg : String)
  deriving DecidableEq

/-- `Option::expect`. -/
def expect {α : Type} (o : Option α) (msg : String) : Except Fault α :=
  match o with
  | some a => .ok a
  | none => .error (.panic msg)

@[simp] theorem expect_some {α : Type} (a : α) (msg : String) : expect (some a) msg = .ok a := rfl

@[simp] theorem expect_none {α : Type} (msg : String) :
    expect (none : Option α) msg = .error (.panic msg) := rfl

/-! ### Text -/

/-- `str::as_bytes`. -/
def asBytes (s : String) : List UInt8 :=
  s.toByteArray.data.toList

/-- `String::from_utf8(..).ok()`. -/
def fromUtf8 (v : List UInt8) : Option String :=
  String.fromUTF8? v.toByteArray

@[simp] theorem fromUtf8_asBytes (s : String) : fromUtf8 (asBytes s) = some s := by
  have hbytes : (asBytes s).toByteArray = s.toByteArray := by
    ext1
    rw [asBytes, List.data_toByteArray, Array.toArray_toList]
  rw [fromUtf8, hbytes, String.fromUTF8?, dif_pos s.isValidUTF8]
  rfl

theorem asBytes_injective {s s' : String} (h : asBytes s = asBytes s') : s = s' := by
  have hs := fromUtf8_asBytes s
  rw [h, fromUtf8_asBytes] at hs
  exact (Option.some.inj hs).symm

theorem fromUtf8_eq_some_iff {v : List UInt8} {s : String} :
    fromUtf8 v = some s ↔ v = asBytes s := by
  constructor
  · intro h
    rw [fromUtf8, String.fromUTF8?] at h
    split at h
    · cases h
      rw [asBytes, String.fromUTF8, List.data_toByteArray]
    · cases h
  · rintro rfl
    exact fromUtf8_asBytes s

/-! ### Control types -/

/-- `ControlType`, the recognized controls. -/
inductive ControlType where
  | pagedResults
  | postReadResp
  | preReadResp
  | syncDone
  | syncState
  | manageDsaIt
  | matchedValues
  deriving DecidableEq, Repr

def PAGED_RESULTS_OID : String := "1.2.840.113556.1.4.319"
def POST_READ_OID : String := "1.3.6.1.1.13.2"
def PRE_READ_OID : String := "1.3.6.1.1.13.1"
def SYNC_DONE_OID : String := "1.3.6.1.4.1.4203.1.9.1.3"
def SYNC_STATE_OID : String := "1.3.6.1.4.1.4203.1.9.1.2"
def MANAGE_DSA_IT_OID : String := "2.16.840.1.113730.3.4.2"
def MATCHED_VALUES_OID : String := "1.2.826.0.1.3344810.2.3"

/-- The table `CONTROLS`. -/
def CONTROLS : List (String × ControlType) :=
  [(PAGED_RESULTS_OID, .pagedResults),
   (POST_READ_OID, .postReadResp),
   (PRE_READ_OID, .preReadResp),
   (SYNC_DONE_OID, .syncDone),
   (SYNC_STATE_OID, .syncState),
   (MANAGE_DSA_IT_OID, .manageDsaIt),
   (MATCHED_VALUES_OID, .matchedValues)]

/-- `RawControl`, a control as it stands in a message. -/
structure RawControl where
  ctype : String
  crit : Bool
  val : Option (List UInt8)
  deriving DecidableEq

/-- `Control`, a response control with its type if that is recognized. -/
structure Control where
  knownType : Option ControlType
  raw : RawControl
  deriving DecidableEq

/-- The response control made of a raw one. -/
def RawControl.toControl (rc : RawControl) : Control :=
  ⟨CONTROLS.lookup rc.ctype, rc⟩

/-! ### Encoding -/

def buildTag (rc : RawControl) : StructureTag :=
  let seq := [Tag.ofOctetString (asBytes rc.ctype)]
  let seq := if rc.crit then seq ++ [Tag.ofBoolean true] else seq
  let seq := match rc.val with
    | some val => seq ++ [Tag.ofOctetString val]
    | none => seq
  (Tag.ofSequence seq).intoStructure

/-! ### Controls of the protocol -/

/-- A control as the protocol has it: a type, an octet for the criticality if it is not left out,
and an optional value. -/
structure ResponseControl where
  ctype : String
  crit : Option UInt8
  val : Option (List UInt8)

namespace ResponseControl

/-- Its tree, a SEQUENCE of an OCTET STRING, a BOOLEAN and an OCTET STRING. -/
def tag (c : ResponseControl) : StructureTag :=
  ⟨.universal, Types.sequence, .C (⟨.universal, Types.octetString, .P (asBytes c.ctype)⟩ ::
    ((c.crit.map fun b ↦ ⟨.universal, Types.boolean, .P [b]⟩).toList ++
      (c.val.map fun v ↦ ⟨.universal, Types.octetString, .P v⟩).toList))⟩

/-- The control it is: critical if the octet is not zero. -/
def control (c : ResponseControl) : Control :=
  RawControl.toControl ⟨c.ctype, c.crit.getD 0 ≠ 0, c.val⟩

end ResponseControl

/-- The octet of the criticality is left out if the control is not critical. -/
def RawControl.response (rc : RawControl) : ResponseControl :=
  ⟨rc.ctype, if rc.crit then some 0xFF else none, rc.val⟩

theorem RawControl.control_response (rc : RawControl) : rc.response.control = rc.toControl := by
  rcases rc with ⟨ctype, crit, val⟩
  cases crit <;> simp [response, ResponseControl.control]

/-- The encoder writes a control of the protocol. -/
theorem tag_response (rc : RawControl) : rc.response.tag = buildTag rc := by
  rcases rc with ⟨ctype, crit, val⟩
  cases crit <;> cases val <;>
    simp [RawControl.response, ResponseControl.tag, buildTag, Tag.ofSequence, Tag.ofOctetString,
      Tag.ofBoolean, Tag.intoStructure, Tag.intoStructures]

/-! ### Decoding -/

/-- The components of a control after its type: criticality and the element holding the value. -/
def parseCritVal (components : List StructureTag) : Except Fault (Bool × Option StructureTag) :=
  match components with
  | [] => return (false, none)
  | c :: components =>
    if c.id = Types.boolean then
      match c.payload with
      -- `v[0]`
      | .P [] => throw (.panic "index out of bounds")
      | .P (b :: _) => return (b ≠ 0, components.head?)
      | .C _ => throw (.panic "decoding error")
    else if c.id = Types.octetString then
      return (false, some c)
    else
      throw (.panic "decoding error")

/-- The body of the loop of `parse_controls`. -/
def parseControl (ctrl : StructureTag) : Except Fault Control := do
  let components ← expect ctrl.expectConstructed "components"
  let ctypeTag ← expect components.head? "element"
  let ctypeOctets ← expect ctypeTag.expectPrimitive "octet string"
  let ctype ← expect (fromUtf8 ctypeOctets) "control type"
  let (crit, maybeVal) ← parseCritVal components.tail
  let val ← maybeVal.mapM fun v ↦ expect v.expectPrimitive "octet string"
  return ⟨CONTROLS.lookup ctype, ⟨ctype, crit, val⟩⟩

def parseControls (t : StructureTag) : Except Fault (List Control) := do
  let tags ← expect t.expectConstructed "result sequence"
  tags.mapM parseControl

/-! ### Round trip -/

theorem mapM_eq_ok_iff {ε α γ : Type} {f : α → Except ε γ} {as : List α} {cs : List γ} :
    as.mapM f = .ok cs ↔ List.Forall₂ (fun a c ↦ f a = .ok c) as cs := by
  induction as generalizing cs with
  | nil => simp [pure, Except.pure, eq_comm]
  | cons a as ih =>
    rw [List.mapM_cons, List.forall₂_cons_left_iff, Nom.bind_eq_ok]
    simp only [Nom.bind_eq_ok, ih, pure, Except.pure, Except.ok.injEq]
    constructor
    · rintro ⟨c, hc, cs', hcs, rfl⟩
      exact ⟨c, cs', hc, hcs, rfl⟩
    · rintro ⟨c, cs', hc, hcs, rfl⟩
      exact ⟨c, hc, cs', hcs, rfl⟩

/-- Octet strings are taken out of their elements. -/
theorem mapM_octetStringTag (vs : List (List UInt8)) :
    (vs.map octetStringTag).mapM (fun t ↦ expect t.expectPrimitive "octet string") = .ok vs := by
  rw [mapM_eq_ok_iff, List.forall₂_map_left_iff, List.forall₂_same]
  exact fun v _ ↦ rfl

/-- A loop of fallible rounds ends exactly when every round does. -/
theorem exists_mapM_eq_ok_iff {ε α γ : Type} {f : α → Except ε γ} {as : List α} :
    (∃ cs, as.mapM f = .ok cs) ↔ ∀ a ∈ as, ∃ c, f a = .ok c := by
  simp only [mapM_eq_ok_iff]
  induction as with
  | nil => simp
  | cons a as ih =>
    simp only [List.forall₂_cons_left_iff, List.forall_mem_cons, ← ih]
    constructor
    · rintro ⟨-, c, cs, hc, hcs, rfl⟩
      exact ⟨⟨c, hc⟩, cs, hcs⟩
    · rintro ⟨⟨c, hc⟩, cs, hcs⟩
      exact ⟨_, c, cs, hc, hcs, rfl⟩

namespace ResponseControl

/-- The reader inverts the encoding, whichever octet stands for the criticality. -/
theorem parseControl_tag (c : ResponseControl) : parseControl c.tag = .ok c.control := by
  rcases c with ⟨ctype, crit, val⟩
  have hbool : Types.octetString ≠ Types.boolean := by decide
  rcases crit with - | b <;> rcases val with - | v <;>
    simp [tag, control, parseControl, parseCritVal, RawControl.toControl, bind, Except.bind, pure,
      Except.pure, hbool]

/-- **Control lists are read**, each control with its recognized type. -/
theorem parseControls_map_tag (cls : TagClass) (id : UInt64) (cs : List ResponseControl) :
    parseControls ⟨cls, id, .C (cs.map tag)⟩ = .ok (cs.map control) := by
  refine mapM_eq_ok_iff.2 ?_
  rw [List.forall₂_map_left_iff, List.forall₂_map_right_iff, List.forall₂_same]
  exact fun c _ ↦ parseControl_tag c

end ResponseControl

/-- **Control lists are read back as they were sent**, each with its recognized type. -/
theorem parseControls_map_buildTag (cls : TagClass) (id : UInt64) (rcs : List RawControl) :
    parseControls ⟨cls, id, .C (rcs.map buildTag)⟩ = .ok (rcs.map RawControl.toControl) := by
  have h := ResponseControl.parseControls_map_tag cls id (rcs.map RawControl.response)
  simpa only [List.map_map, Function.comp_def, tag_response, RawControl.control_response] using h

/-- Every tag number of an encoded control is low. -/
theorem idsLe_buildTag (rc : RawControl) : (buildTag rc).IdsLe 30 := by
  rcases rc with ⟨ctype, crit, val⟩
  cases crit <;> cases val <;>
    simp [buildTag, Tag.ofSequence, Tag.ofOctetString, Tag.ofBoolean, Tag.intoStructure,
      Tag.intoStructures, StructureTag.IdsLe] <;> decide

/-! ### Which lists are read without a panic -/

/-- Criticality and value have a shape the reader expects: a non-empty primitive Boolean that
only a primitive element follows, or a primitive octet string. -/
def CritValOk : List StructureTag → Prop
  | [] => True
  | c :: components =>
    (c.id = Types.boolean ∧ (∃ b v, c.payload = .P (b :: v)) ∧
        ∀ w ∈ components.head?, ∃ v, w.payload = .P v) ∨
      (c.id = Types.octetString ∧ ∃ v, c.payload = .P v)

/-- The element is a list that starts with primitive UTF-8 text and goes on as `CritValOk`
says. -/
def ControlOk (t : StructureTag) : Prop :=
  ∃ ctypeTag components ctype, t.payload = .C (ctypeTag :: components) ∧
    ctypeTag.payload = .P ctype ∧ (fromUtf8 ctype).isSome ∧ CritValOk components

/-- Every element of the list is a control of the expected shape. -/
def ControlsOk (t : StructureTag) : Prop :=
  ∃ ts, t.payload = .C ts ∧ ∀ ctrl ∈ ts, ControlOk ctrl

/-- The value of a control is read exactly when criticality and value have the expected shape. -/
theorem parseCritVal_bind_iff (components : List StructureTag) (ctype : String) :
    (∃ c : Control, (do
      let (crit, maybeVal) ← parseCritVal components
      let val ← maybeVal.mapM fun v ↦ expect v.expectPrimitive "octet string"
      return (⟨CONTROLS.lookup ctype, ⟨ctype, crit, val⟩⟩ : Control)) = Except.ok c) ↔
      CritValOk components := by
  rcases components with - | ⟨⟨cls, id, pl⟩, components⟩
  · simp [parseCritVal, CritValOk, pure, Except.pure, bind, Except.bind]
  have hne : Types.octetString ≠ Types.boolean := by decide
  by_cases hbool : id = Types.boolean
  · subst hbool
    rcases pl with (- | ⟨b, v⟩) | ts
    · simp [parseCritVal, CritValOk, hne.symm, throw, throwThe, MonadExceptOf.throw, bind,
        Except.bind]
    · rcases components with - | ⟨⟨cls', id', v' | ts'⟩, components⟩ <;>
        simp [parseCritVal, CritValOk, hne.symm, bind, Except.bind, pure, Except.pure, Functor.map,
          Except.map]
    · simp [parseCritVal, CritValOk, throw, throwThe, MonadExceptOf.throw, bind,
        Except.bind]
  · by_cases hoct : id = Types.octetString
    · subst hoct
      rcases pl with v | ts <;>
        simp [parseCritVal, CritValOk, hne, bind, Except.bind, pure, Except.pure, Functor.map,
          Except.map]
    · simp [parseCritVal, CritValOk, hbool, hoct, throw, throwThe, MonadExceptOf.throw, bind,
        Except.bind]

theorem parseControl_ok_iff (t : StructureTag) : (∃ c, parseControl t = .ok c) ↔ ControlOk t := by
  rcases t with ⟨cls, id, v | (- | ⟨⟨cls', id', v | ts⟩, components⟩)⟩
  · simp [parseControl, ControlOk, bind, Except.bind]
  · simp [parseControl, ControlOk, bind, Except.bind]
  · rcases hutf : fromUtf8 v with - | ctype
    · simp [parseControl, ControlOk, hutf, bind, Except.bind]
    · have hrest := parseCritVal_bind_iff components ctype
      simp only [parseControl, ControlOk, StructureTag.expectConstructed_C, expect_some]
      simpa [hutf, bind, Except.bind] using hrest
  · simp [parseControl, ControlOk, bind, Except.bind]

/-- **The control list is read if and only if it has the expected shape.** -/
theorem parseControls_ok_iff (t : StructureTag) :
    (∃ cs, parseControls t = .ok cs) ↔ ControlsOk t := by
  rcases t with ⟨cls, id, v | ts⟩
  · simp [parseControls, ControlsOk, bind, Except.bind]
  have hlist : (∃ cs, ts.mapM parseControl = .ok cs) ↔ ∀ ctrl ∈ ts, ControlOk ctrl := by
    rw [exists_mapM_eq_ok_iff]
    exact forall₂_congr fun ctrl _ ↦ parseControl_ok_iff ctrl
  simpa [parseControls, ControlsOk, bind, Except.bind] using hlist

/-! ### No other failure -/

/-- The run has no `io::Error` to return: it succeeds or panics. -/
def NoError {α : Type} (x : Except Fault α) : Prop :=
  ∀ msg, x ≠ .error (.error msg)

theorem noError_ok {α : Type} (a : α) : NoError (.ok a) := by
  intro msg
  simp

theorem noError_panic {α : Type} (msg : String) :
    NoError (.error (.panic msg) : Except Fault α) := by
  intro msg'
  simp

theorem noError_expect {α : Type} (o : Option α) (msg : String) : NoError (expect o msg) := by
  rcases o with - | a
  · exact noError_panic msg
  · exact noError_ok a

theorem NoError.bind {α γ : Type} {x : Except Fault α} {f : α → Except Fault γ} (hx : NoError x)
    (hf : ∀ a, NoError (f a)) : NoError (x >>= f) := by
  rcases x with err | a
  · intro msg h
    exact hx msg (by rw [Except.error.inj h])
  · exact hf a

theorem NoError.mapM {α γ : Type} {f : α → Except Fault γ} (hf : ∀ a, NoError (f a))
    (as : List α) : NoError (as.mapM f) := by
  induction as with
  | nil => exact noError_ok _
  | cons a as ih =>
    rw [List.mapM_cons]
    exact (hf a).bind fun c ↦ ih.bind fun cs ↦ noError_ok _

theorem noError_parseCritVal (components : List StructureTag) :
    NoError (parseCritVal components) := by
  rcases components with - | ⟨⟨cls, id, pl⟩, components⟩
  · exact noError_ok _
  · simp only [parseCritVal]
    split
    · rcases pl with (- | ⟨b, v⟩) | ts
      · exact noError_panic _
      · exact noError_ok _
      · exact noError_panic _
    · split
      · exact noError_ok _
      · exact noError_panic _

theorem noError_parseControl (ctrl : StructureTag) : NoError (parseControl ctrl) := by
  refine (noError_expect _ _).bind fun components ↦ (noError_expect _ _).bind fun ctypeTag ↦
    (noError_expect _ _).bind fun octets ↦ (noError_expect _ _).bind fun ctype ↦
    (noError_parseCritVal _).bind fun critVal ↦ NoError.bind ?_ fun val ↦ noError_ok _
  rcases critVal.2 with - | v
  · exact noError_ok _
  · exact (noError_expect v.expectPrimitive "octet string").bind fun val ↦ noError_ok (some val)

theorem noError_parseControls (t : StructureTag) : NoError (parseControls t) :=
  (noError_expect _ _).bind fun tags ↦ NoError.mapM noError_parseControl tags

end Ldap3
