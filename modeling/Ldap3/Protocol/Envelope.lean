import Ldap3.Lber.Sound
import Ldap3.Protocol

/-!
# Envelopes

What `decode_inner` makes of the elements it parses. The envelope is read from the end: an
optional last element, the protocol op before it, the message id before that. Nothing before the
message id is looked at, and neither is the class of the sequence. What the controls are tagged with
is hardly looked at: of a control only the number of the part after its type is.

`decodeEnvelope_eq_ok_iff` and `decodeEnvelope_eq_error_iff` say exactly which trees are decoded
and which are rejected; on every other tree the decoder panics. From the two follow the condition
under which a buffer cannot make it panic (`decodeInner_ne_panic_iff`) and the condition under
which a decoded envelope is an LDAPMessage carrying its own id (`ldapMessage_iff`).
-/

open Nom

namespace Ldap3

/-! ### Popping the parts -/

/-- The element is one that stands after the protocol op: controls, or what Active Directory puts
in their place. -/
def IsTrailer (t : StructureTag) : Prop :=
  t.cls = .context ∧ (t.id = 0 ∨ t.id = 10)

instance (t : StructureTag) : Decidable (IsTrailer t) :=
  inferInstanceAs (Decidable (_ ∧ _))

theorem popOp_of_not_isTrailer {ts : List StructureTag} {op : StructureTag} (h : ¬IsTrailer op) :
    popOp (ts ++ [op]) = .ok (op, none, ts) := by
  have h0 : ¬(op.cls = .context ∧ op.id = 0) := fun ⟨hc, hi⟩ ↦ h ⟨hc, Or.inl hi⟩
  have h10 : ¬(op.cls = .context ∧ op.id = 10) := fun ⟨hc, hi⟩ ↦ h ⟨hc, Or.inr hi⟩
  simp only [popOp, popElement_concat, bind, Except.bind, if_neg h0, if_neg h10]
  rfl

theorem popOp_controls (ts us : List StructureTag) :
    popOp (ts ++ [⟨.context, 0, .C us⟩]) =
      popElement ts >>= fun x ↦ .ok (x.1, some ⟨.context, 0, .C us⟩, x.2) := by
  simp only [popOp, popElement_concat, bind, Except.bind, and_self, if_true]
  rfl

theorem popOp_controls_primitive (ts : List StructureTag) (v : List UInt8) :
    popOp (ts ++ [⟨.context, 0, .P v⟩]) = .error decodingError := by
  simp only [popOp, popElement_concat, bind, Except.bind, and_self, if_true]
  rfl

theorem popOp_context10 (ts : List StructureTag) (pl : PL StructureTag) :
    popOp (ts ++ [⟨.context, 10, pl⟩]) =
      popElement ts >>= fun x ↦ .ok (x.1, none, x.2) := by
  simp [popOp, bind, Except.bind, pure, Except.pure]

/-- The message id is a primitive Universal INTEGER, read as a `u64` and cut to an `i32`. -/
theorem popMsgid_eq_ok_iff {ts : List StructureTag} {id : RequestId} :
    popMsgid ts = .ok id ↔
      ∃ pre v, ts = pre ++ [⟨.universal, Types.integer, .P v⟩] ∧ id = asI32 (parseUint v) := by
  rcases List.eq_nil_or_concat' ts with rfl | ⟨pre, ⟨cls, id', pl⟩, rfl⟩
  · simp [popMsgid, bind, Except.bind]
  · by_cases hcls : cls = .universal <;> by_cases hid : id' = Types.integer <;>
      rcases pl with v | us <;>
      simp [popMsgid, StructureTag.matchClass, StructureTag.matchId, hcls, hid, bind, Except.bind,
        pure, Except.pure, eq_comm]

theorem noError_popMsgid (ts : List StructureTag) : NoError (popMsgid ts) := by
  refine NoError.bind ?_ fun x ↦ (noError_expect _ _).bind fun v ↦ noError_ok _
  rcases List.eq_nil_or_concat' ts with rfl | ⟨pre, t, rfl⟩
  · exact noError_panic _
  · rw [popElement_concat]
    exact noError_ok _

/-! ### What becomes of an element -/

/-- The shape of the children of a decoded envelope, with the message id `v`, the op and the
controls. -/
def EnvelopeShape (ts : List StructureTag) (v : List UInt8) (op : StructureTag)
    (ctrls : Option StructureTag) : Prop :=
  ∃ pre tail, ts = pre ++ [⟨.universal, Types.integer, .P v⟩] ++ [op] ++ tail ∧
    ((tail = [] ∧ ctrls = none ∧ ¬IsTrailer op) ∨
      (∃ us, tail = [⟨.context, 0, .C us⟩] ∧ ctrls = some ⟨.context, 0, .C us⟩) ∨
      ∃ pl, tail = [⟨.context, 10, pl⟩] ∧ ctrls = none)

theorem popOp_popMsgid_iff {ts : List StructureTag} {op : StructureTag}
    {ctrls : Option StructureTag} {id : RequestId} :
    (∃ ts', popOp ts = .ok (op, ctrls, ts') ∧ popMsgid ts' = .ok id) ↔
      ∃ v, EnvelopeShape ts v op ctrls ∧ id = asI32 (parseUint v) := by
  constructor
  · rintro ⟨ts', hop, hid⟩
    obtain ⟨pre, v, rfl, hv⟩ := popMsgid_eq_ok_iff.1 hid
    refine ⟨v, ?_, hv⟩
    rcases List.eq_nil_or_concat' ts with rfl | ⟨ts, ⟨cls, i, pl⟩, rfl⟩
    · cases hop
    by_cases htr : IsTrailer ⟨cls, i, pl⟩
    · obtain ⟨rfl, rfl | rfl⟩ := htr
      · rcases pl with w | us
        · rw [popOp_controls_primitive] at hop
          cases hop
        · rw [popOp_controls] at hop
          rcases List.eq_nil_or_concat' ts with rfl | ⟨ts, op', rfl⟩
          · cases hop
          · rw [popElement_concat] at hop
            cases hop
            exact ⟨pre, _, by simp, Or.inr (Or.inl ⟨us, rfl, rfl⟩)⟩
      · rw [popOp_context10] at hop
        rcases List.eq_nil_or_concat' ts with rfl | ⟨ts, op', rfl⟩
        · cases hop
        · rw [popElement_concat] at hop
          cases hop
          exact ⟨pre, _, by simp, Or.inr (Or.inr ⟨pl, rfl, rfl⟩)⟩
    · rw [popOp_of_not_isTrailer htr] at hop
      cases hop
      exact ⟨pre, [], by simp, Or.inl ⟨rfl, rfl, htr⟩⟩
  · rintro ⟨v, ⟨pre, tail, rfl, ⟨rfl, rfl, htr⟩ | ⟨us, rfl, rfl⟩ | ⟨pl, rfl, rfl⟩⟩, hv⟩
    all_goals refine ⟨pre ++ [⟨.universal, Types.integer, .P v⟩], ?_, popMsgid_eq_ok_iff.2
      ⟨pre, v, rfl, hv⟩⟩
    · rw [List.append_nil]
      exact popOp_of_not_isTrailer htr
    · rw [popOp_controls, popElement_concat]
      rfl
    · rw [popOp_context10, popElement_concat]
      rfl

/-- The op is refused if the last element is a primitive in the place of the controls. -/
theorem popOp_eq_error_iff {ts : List StructureTag} {msg : String} :
    popOp ts = .error (.error msg) ↔
      msg = "decoding error" ∧ ∃ pre v, ts = pre ++ [⟨.context, 0, .P v⟩] := by
  rcases List.eq_nil_or_concat' ts with rfl | ⟨ts, ⟨cls, i, pl⟩, rfl⟩
  · simp [popOp, bind, Except.bind]
  have hlast : (∃ pre v, ts ++ [⟨cls, i, pl⟩] = pre ++ [(⟨.context, 0, .P v⟩ : StructureTag)]) ↔
      ∃ v, (⟨cls, i, pl⟩ : StructureTag) = ⟨.context, 0, .P v⟩ := by
    constructor
    · rintro ⟨pre, v, h⟩
      exact ⟨v, List.head_eq_of_cons_eq (List.append_inj_right' h rfl)⟩
    · rintro ⟨v, h⟩
      exact ⟨ts, v, by rw [h]⟩
  rw [hlast]
  by_cases htr : IsTrailer ⟨cls, i, pl⟩
  · obtain ⟨hc, hi⟩ := htr
    simp only at hc hi
    subst hc
    rcases hi with hi | hi <;> subst hi
    · rcases pl with w | us
      · rw [popOp_controls_primitive]
        simp [decodingError, eq_comm]
      · rw [popOp_controls]
        rcases List.eq_nil_or_concat' ts with rfl | ⟨ts, op', rfl⟩
        · simp [bind, Except.bind]
        · rw [popElement_concat]
          simp [bind, Except.bind]
    · rw [popOp_context10]
      rcases List.eq_nil_or_concat' ts with rfl | ⟨ts, op', rfl⟩
      · simp [bind, Except.bind]
      · rw [popElement_concat]
        simp [bind, Except.bind]
  · rw [popOp_of_not_isTrailer htr]
    simp only [reduceCtorEq, false_iff, not_and, not_exists]
    rintro - v h
    rw [h] at htr
    exact htr ⟨rfl, Or.inl rfl⟩

/-- The children of an element the decoder takes apart. -/
theorem decodeEnvelope_C (cls : TagClass) (ts : List StructureTag) :
    decodeEnvelope ⟨cls, Types.sequence, .C ts⟩ =
      popOp ts >>= fun x ↦ x.2.1.elim (.ok []) parseControls >>= fun controls ↦
        popMsgid x.2.2 >>= fun msgid ↦ .ok (msgid, .structureTag x.1, controls) := by
  simp [decodeEnvelope, StructureTag.matchId]
  rfl

theorem decodeEnvelope_of_ne {t : StructureTag}
    (h : ∀ ts, t.id = Types.sequence → t.payload ≠ .C ts) :
    decodeEnvelope t = .error decodingError := by
  rcases t with ⟨cls, i, w | ts⟩
  · by_cases hi : i = Types.sequence <;> simp [decodeEnvelope, StructureTag.matchId, hi] <;> rfl
  · have hi : i ≠ Types.sequence := fun hi ↦ h ts hi rfl
    simp [decodeEnvelope, StructureTag.matchId, hi]
    rfl

/-- **Decoded envelopes.** The element is numbered as a SEQUENCE and constructed, and its last
children are a primitive Universal INTEGER, the op, and possibly a trailer. -/
theorem decodeEnvelope_eq_ok_iff {t : StructureTag} {id : RequestId} {op : Tag}
    {cs : List Control} :
    decodeEnvelope t = .ok (id, op, cs) ↔
      t.id = Types.sequence ∧ ∃ ts v op' ctrls, t.payload = .C ts ∧
        EnvelopeShape ts v op' ctrls ∧ id = asI32 (parseUint v) ∧ op = .structureTag op' ∧
        ctrls.elim (.ok []) parseControls = .ok cs := by
  by_cases h : ∀ ts, t.id = Types.sequence → t.payload ≠ .C ts
  · rw [decodeEnvelope_of_ne h]
    simp only [reduceCtorEq, false_iff, not_and, not_exists]
    exact fun hid ts v op' ctrls hts ↦ absurd hts (h ts hid)
  obtain ⟨ts, hid, hpl⟩ : ∃ ts, t.id = Types.sequence ∧ t.payload = .C ts := by
    simpa using h
  rcases t with ⟨cls, i, pl⟩
  obtain rfl : i = Types.sequence := hid
  obtain rfl : pl = .C ts := hpl
  rw [decodeEnvelope_C]
  constructor
  · intro h
    obtain ⟨⟨op', ctrls, ts'⟩, hop, h₁⟩ := bind_eq_ok.1 h
    obtain ⟨cs', hcs, h₂⟩ := bind_eq_ok.1 h₁
    obtain ⟨id', hmsg, h₃⟩ := bind_eq_ok.1 h₂
    simp only [Except.ok.injEq, Prod.mk.injEq] at h₃
    obtain ⟨hid, rfl, rfl⟩ := h₃
    obtain ⟨v, hshape, hv⟩ := popOp_popMsgid_iff.1 ⟨ts', hop, hmsg⟩
    exact ⟨rfl, ts, v, op', ctrls, rfl, hshape, hid ▸ hv, rfl, hcs⟩
  · rintro ⟨-, ts', v, op', ctrls, hts, hshape, hv, rfl, hcs⟩
    cases hts
    obtain ⟨ts', hop, hmsg⟩ := popOp_popMsgid_iff.2 ⟨v, hshape, hv⟩
    exact bind_eq_ok.2 ⟨_, hop, bind_eq_ok.2 ⟨_, hcs, bind_eq_ok.2 ⟨_, hmsg, rfl⟩⟩⟩

/-- **Refused envelopes.** The element is not a constructed SEQUENCE, or a primitive stands in
the place of the controls. -/
theorem decodeEnvelope_eq_error_iff {t : StructureTag} {msg : String} :
    decodeEnvelope t = .error (.error msg) ↔
      msg = "decoding error" ∧ ∀ ts, t.id = Types.sequence → t.payload = .C ts →
        ∃ pre v, ts = pre ++ [⟨.context, 0, .P v⟩] := by
  by_cases h : ∀ ts, t.id = Types.sequence → t.payload ≠ .C ts
  · rw [decodeEnvelope_of_ne h]
    simp only [decodingError, Except.error.injEq, Fault.error.injEq, eq_comm (a := msg)]
    exact (and_iff_left fun ts hid hts ↦ absurd hts (h ts hid)).symm
  obtain ⟨ts, hid, hpl⟩ : ∃ ts, t.id = Types.sequence ∧ t.payload = .C ts := by
    simpa using h
  rcases t with ⟨cls, i, pl⟩
  obtain rfl : i = Types.sequence := hid
  obtain rfl : pl = .C ts := hpl
  rw [decodeEnvelope_C]
  constructor
  · intro h
    rcases bind_eq_error.1 h with hop | ⟨⟨op', ctrls, ts'⟩, -, h₁⟩
    · obtain ⟨hmsg, hts⟩ := popOp_eq_error_iff.1 hop
      refine ⟨hmsg, fun ts' _ hts' ↦ ?_⟩
      cases hts'
      exact hts
    rcases bind_eq_error.1 h₁ with hcs | ⟨cs, -, h₂⟩
    · rcases ctrls with - | c
      · cases hcs
      · exact absurd hcs (noError_parseControls c msg)
    rcases bind_eq_error.1 h₂ with hmsg | ⟨id, -, h₃⟩
    · exact absurd hmsg (noError_popMsgid ts' msg)
    · cases h₃
  · rintro ⟨hmsg, hts⟩
    exact bind_eq_error.2 (Or.inl (popOp_eq_error_iff.2 ⟨hmsg, hts ts rfl rfl⟩))

/-! ### No panic -/

/-- The children are refused for a primitive in the place of the controls, or they have the shape
of an envelope whose controls are of the expected shape. -/
def EnvelopeSafe (ts : List StructureTag) : Prop :=
  (∃ pre v, ts = pre ++ [⟨.context, 0, .P v⟩]) ∨
    ∃ v op ctrls, EnvelopeShape ts v op ctrls ∧ ∀ c ∈ ctrls, ControlsOk c

theorem decodeEnvelope_ne_panic_iff (t : StructureTag) :
    (∀ msg, decodeEnvelope t ≠ .error (.panic msg)) ↔
      ∀ ts, t.id = Types.sequence → t.payload = .C ts → EnvelopeSafe ts := by
  constructor
  · intro h ts hid hts
    rcases hdec : decodeEnvelope t with (⟨msg⟩ | ⟨msg⟩) | ⟨id, op, cs⟩
    · exact Or.inl ((decodeEnvelope_eq_error_iff.1 hdec).2 ts hid hts)
    · exact absurd hdec (h msg)
    · obtain ⟨-, ts', v, op', ctrls, hts', hshape, -, -, hcs⟩ := decodeEnvelope_eq_ok_iff.1 hdec
      rw [hts] at hts'
      cases hts'
      refine Or.inr ⟨v, op', ctrls, hshape, fun c hc ↦ ?_⟩
      obtain rfl : ctrls = some c := hc
      exact (parseControls_ok_iff c).1 ⟨cs, hcs⟩
  · intro h msg hdec
    by_cases hseq : ∀ ts, t.id = Types.sequence → t.payload ≠ .C ts
    · rw [decodeEnvelope_of_ne hseq] at hdec
      cases hdec
    obtain ⟨ts, hid, hts⟩ : ∃ ts, t.id = Types.sequence ∧ t.payload = .C ts := by
      simpa using hseq
    rcases h ts hid hts with hprim | ⟨v, op, ctrls, hshape, hctrls⟩
    · have herr := decodeEnvelope_eq_error_iff.2 ⟨rfl, fun ts' hid' hts' ↦ by
        rw [hts] at hts'
        cases hts'
        exact hprim⟩
      rw [hdec] at herr
      cases herr
    · obtain ⟨cs, hcs⟩ : ∃ cs, ctrls.elim (.ok []) parseControls = .ok cs := by
        rcases ctrls with - | c
        · exact ⟨[], rfl⟩
        · exact (parseControls_ok_iff c).2 (hctrls c rfl)
      have hok := decodeEnvelope_eq_ok_iff.2 ⟨hid, ts, v, op, ctrls, hts, hshape, rfl, rfl, hcs⟩
      rw [hdec] at hok
      cases hok

/-- **When the decoder panics.** A buffer makes the decoder panic exactly when a constructed
SEQUENCE stands at its front whose children it can neither refuse nor take apart. -/
theorem decodeInner_ne_panic_iff (buf : List UInt8) :
    (∀ msg, (decodeInner buf).1 ≠ .error (.panic msg)) ↔
      ∀ r t ts, parse buf = .ok (r, t) → t.id = Types.sequence → t.payload = .C ts →
        EnvelopeSafe ts := by
  rcases hparse : parse buf with err | ⟨r, t⟩
  · have hdec : ∀ msg, (decodeInner buf).1 ≠ .error (.panic msg) := by
      intro msg
      rcases err <;> simp [decodeInner, hparse, decodingError]
    simp [hdec]
  · have hdec : ∀ msg, (decodeInner buf).1 = .error (.panic msg) ↔
        decodeEnvelope t = .error (.panic msg) := by
      intro msg
      simp only [decodeInner, hparse]
      rcases decodeEnvelope t with err | d <;> simp [Functor.map, Except.map]
    have hiff := decodeEnvelope_ne_panic_iff t
    simp only [ne_eq, hdec] at hiff ⊢
    rw [hiff]
    constructor
    · intro h r' t' ts heq
      cases heq
      exact h ts
    · exact fun h ts ↦ h r t ts rfl

/-- An empty SEQUENCE has nothing to pop. -/
theorem decodeInner_panics :
    ¬∀ (buf : List UInt8) (msg : String), (decodeInner buf).1 ≠ .error (.panic msg) :=
  fun h ↦ h [0x30, 0x00] "element" rfl

/-! ### LDAPMessages -/

/-- The octets are a two's-complement number in the range of message ids. -/
def IdInRange (v : List UInt8) : Prop :=
  v ≠ [] ∧ 0 ≤ BigEndian.signed v ∧ BigEndian.signed v < 2 ^ 31

/-- The tree of an LDAPMessage with the given id, op and controls, or of the message Active
Directory sends in its place. The elements in the list of controls are the trees of the controls. -/
inductive LdapMessage (id : RequestId) (op : StructureTag) : List Control → StructureTag → Prop
  | bare {v : List UInt8} (hv : IdInRange v) (hid : BigEndian.signed v = id) :
      LdapMessage id op []
        ⟨.universal, Types.sequence, .C [⟨.universal, Types.integer, .P v⟩, op]⟩
  | controls {v : List UInt8} (hv : IdInRange v) (hid : BigEndian.signed v = id)
      (rcs : List ResponseControl) :
      LdapMessage id op (rcs.map ResponseControl.control)
        ⟨.universal, Types.sequence, .C [⟨.universal, Types.integer, .P v⟩, op,
          ⟨.context, 0, .C (rcs.map ResponseControl.tag)⟩]⟩
  | activeDirectory {v : List UInt8} {pl : PL StructureTag} (hv : IdInRange v)
      (hid : BigEndian.signed v = id) :
      LdapMessage id op []
        ⟨.universal, Types.sequence, .C [⟨.universal, Types.integer, .P v⟩, op, ⟨.context, 10, pl⟩]⟩

/-- The element is a SEQUENCE of a type, a criticality of one octet and a value, the last two of
which can be missing, and of nothing else. -/
def ControlFormed (t : StructureTag) : Prop :=
  ∃ rc : ResponseControl, t = rc.tag

/-- The element can stand after the protocol op, and if it is a list of controls, they have the form
of controls. -/
def TrailerOk (t : StructureTag) : Prop :=
  IsTrailer t ∧ ∀ us, t = ⟨.context, 0, .C us⟩ → ∀ u ∈ us, ControlFormed u

/-- What the decoder leaves unchecked: the class of the sequence, the number of children, the
range of the message id, and the form of the controls. -/
def EnvelopeOk (t : StructureTag) : Prop :=
  t.cls = .universal ∧ ∃ ts m v, t.payload = .C ts ∧ ts.head? = some m ∧ m.payload = .P v ∧
    IdInRange v ∧ (ts.length = 2 ∨ ts.length = 3 ∧ ∃ x ∈ ts.getLast?, TrailerOk x)

/-- Elements of the form of controls are the trees of some. -/
theorem exists_controls {us : List StructureTag} (h : ∀ u ∈ us, ControlFormed u) :
    ∃ rcs : List ResponseControl, us = rcs.map ResponseControl.tag := by
  induction us with
  | nil => exact ⟨[], rfl⟩
  | cons u us ih =>
    obtain ⟨rc, rfl⟩ := h u List.mem_cons_self
    obtain ⟨rcs, rfl⟩ := ih fun u hu ↦ h u (List.mem_cons_of_mem _ hu)
    exact ⟨rc :: rcs, rfl⟩

theorem trailerOk_controls (rcs : List ResponseControl) :
    TrailerOk ⟨.context, 0, .C (rcs.map ResponseControl.tag)⟩ := by
  refine ⟨⟨rfl, Or.inl rfl⟩, ?_⟩
  rintro us ⟨⟩ u hu
  obtain ⟨rc, -, rfl⟩ := List.mem_map.1 hu
  exact ⟨rc, rfl⟩

theorem trailerOk_context10 (pl : PL StructureTag) : TrailerOk ⟨.context, 10, pl⟩ :=
  ⟨⟨rfl, Or.inr rfl⟩, fun _ h ↦ by simp at h⟩

/-- In range the decoder's reading of the id is its value. -/
theorem asI32_parseUint {v : List UInt8} (h : IdInRange v) :
    asI32 (parseUint v) = BigEndian.signed v := by
  obtain ⟨hne, h0, hlt⟩ := h
  obtain ⟨b, v, rfl⟩ := List.exists_cons_of_ne_nil hne
  have hb : b.toNat < 128 := by
    by_contra hge
    exact absurd h0 (not_le.2 (BigEndian.signed_neg (Nat.not_lt.1 hge)))
  rw [BigEndian.signed_of_lt hb] at hlt ⊢
  have hval : BigEndian.value (b :: v) < 2 ^ 31 := by exact_mod_cast hlt
  have hnat : (parseUint (b :: v)).toNat = BigEndian.value (b :: v) := by
    rw [parseUint_toNat, Nat.mod_eq_of_lt (by omega)]
  rw [asI32_of_lt (by omega), hnat]

/-- A decoded tree is the LDAPMessage it was taken for exactly when the unchecked parts are
right. -/
theorem ldapMessage_iff_envelopeOk {t op : StructureTag} {id : RequestId} {cs : List Control}
    (h : decodeEnvelope t = .ok (id, .structureTag op, cs)) :
    LdapMessage id op cs t ↔ EnvelopeOk t := by
  constructor
  · rintro (⟨hv, hid⟩ | ⟨hv, hid, rcs⟩ | ⟨hv, hid⟩)
    · exact ⟨rfl, _, _, _, rfl, rfl, rfl, hv, Or.inl rfl⟩
    · exact ⟨rfl, _, _, _, rfl, rfl, rfl, hv, Or.inr ⟨rfl, _, rfl, trailerOk_controls rcs⟩⟩
    · exact ⟨rfl, _, _, _, rfl, rfl, rfl, hv, Or.inr ⟨rfl, _, rfl, trailerOk_context10 _⟩⟩
  · rintro ⟨hcls, ts, m, w, hts, hhead, hm, hw, hlen⟩
    obtain ⟨hseq, ts', v, op', ctrls, hts', ⟨pre, tail, rfl, htail⟩, hid, hop, hcs⟩ :=
      decodeEnvelope_eq_ok_iff.1 h
    rw [hts] at hts'
    cases hts'
    cases hop
    rcases t with ⟨cls, i, pl⟩
    obtain rfl : cls = .universal := hcls
    obtain rfl : i = Types.sequence := hseq
    obtain rfl : pl = _ := hts
    simp only [List.length_append, List.length_singleton] at hlen
    -- Nothing stands before the message id: there is no room for it, or the op would be a trailer.
    have hpre : pre = [] := by
      refine List.eq_nil_of_length_eq_zero ?_
      rcases htail with ⟨rfl, -, htr⟩ | ⟨us, rfl, -⟩ | ⟨pl, rfl, -⟩
      · rcases hlen with hlen | ⟨-, x, hx, hxtr⟩
        · simp only [List.length_nil] at hlen
          omega
        · obtain rfl : op = x := by simpa using hx
          exact absurd hxtr.1 htr
      · simp only [List.length_singleton] at hlen
        omega
      · simp only [List.length_singleton] at hlen
        omega
    subst hpre
    obtain rfl : m = ⟨.universal, Types.integer, .P v⟩ := by simpa [eq_comm] using hhead
    obtain rfl : v = w := by simpa using hm
    have hidv : BigEndian.signed v = id := by rw [hid, asI32_parseUint hw]
    rcases htail with ⟨rfl, rfl, -⟩ | ⟨us, rfl, rfl⟩ | ⟨pl, rfl, rfl⟩
    · cases hcs
      exact .bare hw hidv
    · -- The elements of the list are controls, so the decoder reads these.
      obtain ⟨-, x, hx, -, hformed⟩ := hlen.resolve_left (by simp)
      obtain rfl : _ = x := by simpa using hx
      obtain ⟨rcs, rfl⟩ := exists_controls (hformed us rfl)
      have hread : _ = Except.ok cs := hcs
      rw [Option.elim_some, ResponseControl.parseControls_map_tag] at hread
      obtain rfl := Except.ok.inj hread
      exact .controls hw hidv rcs
    · cases hcs
      exact .activeDirectory hw hidv

/-- **When a decoded envelope is an LDAPMessage.** The octets taken off the buffer are an encoding
of an LDAPMessage with the decoded id, op and controls exactly when they are plain and the parts
the decoder leaves unchecked are right. -/
theorem ldapMessage_iff {buf rest : List UInt8} {id : RequestId} {op : Tag} {cs : List Control}
    (hfits : buf.length ≤ usizeMax)
    (h : decodeInner buf = (.ok (some (id, op, cs)), rest)) :
    (∃ w t op', buf = w ++ rest ∧ Ber t w ∧ op = .structureTag op' ∧ LdapMessage id op' cs t) ↔
      ∃ w t r, buf = w ++ r ∧ parseTag w = .ok ([], t) ∧ Plain w ∧ EnvelopeOk t := by
  rcases hparse : parse buf with err | ⟨i, t⟩
  · rcases err <;> simp [decodeInner, hparse] at h
  obtain ⟨w, hw2, rfl⟩ := parse_eq_append hparse
  rw [decodeInner_of_parse hparse] at h
  obtain ⟨hdec, rfl⟩ := Prod.mk.inj h
  have hdec' : decodeEnvelope t = .ok (id, op, cs) := by
    rcases hd : decodeEnvelope t with err | d <;> rw [hd] at hdec
    · cases hdec
    · cases hdec
      rfl
  obtain ⟨-, -, -, op', -, -, -, -, rfl, -⟩ := decodeEnvelope_eq_ok_iff.1 hdec'
  have hiff := ldapMessage_iff_envelopeOk hdec'
  -- The octets are read alike alone and in front of the rest.
  have hwt : parseTag w = .ok ([], t) := by
    obtain ⟨b, w', rfl⟩ := List.exists_cons_of_length_pos (show 0 < w.length by omega)
    exact exact_parseTag.of_append hparse
  have hlt : w.length < 2 ^ 64 := by
    rw [List.length_append, usizeMax] at hfits
    omega
  constructor
  · rintro ⟨w', t', op'', heq, hber, hop, hmsg⟩
    obtain rfl : w = w' := List.append_cancel_right heq
    have hparse' := parseTag_of_ber hber hlt []
    rw [List.append_nil, hwt] at hparse'
    cases hparse'
    cases hop
    exact ⟨w, t, i, rfl, hwt, (ber_iff_plain hwt).1 hber, hiff.1 hmsg⟩
  · rintro ⟨w', t', r, heq, hwt', hplain, hok⟩
    -- The parser stops in one place only.
    have hone := streaming_parseTag.ok (e := r) hwt'
    have hone' := streaming_parseTag.ok (e := i) hwt
    rw [List.nil_append] at hone hone'
    rw [← heq, hone'] at hone
    simp only [Except.ok.injEq, Prod.mk.injEq] at hone
    obtain ⟨rfl, rfl⟩ := hone
    obtain rfl : w = w' := List.append_cancel_right heq
    exact ⟨w, t, op', rfl, (ber_iff_plain hwt).2 hplain, rfl, hiff.2 hok⟩

/-- A critical control, as the encoder writes it. -/
def exampleControl : RawControl :=
  ⟨"1.2", true, some [0x05]⟩

/-- An UnbindRequest with a control, and the first octet of the next message behind it. Its parts are
what the decoder takes them for, and no part that it leaves unchecked is wrong. -/
theorem ldapMessage_iff_unbind :
    ∃ w t r, encode 1 (.null 2 .application) (some [exampleControl]) ++ [0x30] = w ++ r ∧
      parseTag w = .ok ([], t) ∧ Plain w ∧ EnvelopeOk t := by
  let m : Message :=
    { unbindMessage with controls := some [exampleControl], fits := by decide +kernel }
  have hdec := framed_decodeInner.decode_append m [0x30]
  have hber : Ber (outstruct m.id m.op m.controls) m.encoded :=
    ber_encodeInner (idsLe_outstruct m.controls m.op_ids) (by decide +kernel)
  exact (ldapMessage_iff (by decide +kernel) hdec).1 ⟨_, _, _, rfl, hber, rfl,
    .controls ⟨by decide, by decide, by decide⟩ (by decide) [exampleControl.response]⟩

/-- An UnbindRequest whose message id is the octet `FF`, the number -1: the decoder attributes it
to the operation 255. -/
theorem decodeInner_negative_id :
    ¬∀ (buf rest : List UInt8) (id : RequestId) (op : Tag) (cs : List Control),
      decodeInner buf = (.ok (some (id, op, cs)), rest) →
        ∃ w t op', buf = w ++ rest ∧ Ber t w ∧ op = .structureTag op' ∧
          LdapMessage id op' cs t := by
  intro h
  have hread : parseTag [0x30, 0x05, 0x02, 0x01, 0xFF, 0x42, 0x00] =
      .ok ([], ⟨.universal, Types.sequence,
        .C [⟨.universal, Types.integer, .P [0xFF]⟩, ⟨.application, 2, .P []⟩]⟩) := rfl
  have hid : (255 : RequestId) = asI32 (parseUint [0xFF]) := by decide +kernel
  have hdec : decodeEnvelope ⟨.universal, Types.sequence,
      .C [⟨.universal, Types.integer, .P [0xFF]⟩, ⟨.application, 2, .P []⟩]⟩ =
        .ok (255, .structureTag ⟨.application, 2, .P []⟩, []) :=
    decodeEnvelope_eq_ok_iff.2 ⟨rfl, _, [0xFF], ⟨.application, 2, .P []⟩, none, rfl,
      ⟨[], [], rfl, Or.inl ⟨rfl, rfl, by decide⟩⟩, hid, rfl, rfl⟩
  obtain ⟨w, t, op', hbuf, hber, hop, hmsg⟩ := h _ [] 255 _ [] (by
    rw [decodeInner_of_parse (w := [0x30, 0x05, 0x02, 0x01, 0xFF, 0x42, 0x00]) hread, hdec]
    rfl)
  obtain rfl : _ = w := List.append_cancel_right hbuf
  have hparse := parseTag_of_ber hber (by decide) []
  rw [List.append_nil, hread] at hparse
  cases hparse
  cases hop
  obtain ⟨-, ts, m, v, hts, hhead, hv, ⟨-, h0, -⟩, -⟩ := (ldapMessage_iff_envelopeOk hdec).1 hmsg
  cases hts
  cases hhead
  cases hv
  exact absurd h0 (by decide)

end Ldap3
