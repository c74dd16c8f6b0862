import Ldap3.Protocol.Envelope
import Ldap3.Result

/-!
# Responses off the wire

What becomes of a response between the octets the server sends and the value an operation returns:
`decode_inner` takes the message apart, `LdapResultExt::from` reads the protocol op, and `op_call`
puts the controls into the result.

`Response` has the components of a response as the protocol has them, and `Response.Message` says
which trees are a message with these components. Controls are not part of it, since a server that
disconnects may put something else in their place. The encoding of a tree is any definite-length
one.
-/

open Nom

namespace Ldap3

/-- The end of `op_call`: the result with the controls of the response. -/
def opResult (response : Tag × List Control) : Except Fault LdapResultExt := do
  let ext ← LdapResultExt.ofTag response.1
  return { ext with result := { ext.result with ctrls := response.2 } }

/-! ### Messages of a server -/

/-- The components of a response, in the order in which they are sent. -/
structure Response where
  msgid : RequestId
  /-- The number of the response's tag. -/
  op : UInt64
  rc : ℕ
  matched : String
  text : String
  refs : Option (List String)
  saslCreds : Option (List UInt8)
  name : Option String
  val : Option (List UInt8)
  msgid_range : 0 ≤ msgid ∧ msgid < 2 ^ 31
  rc_lt : rc < 2 ^ 31

namespace Response

variable (r : Response)

/-- The components after the diagnostic message. -/
def components : List StructureTag :=
  (r.refs.map fun refs ↦ ⟨.context, 3,
      .C (refs.map fun uri ↦ ⟨.universal, Types.octetString, .P (asBytes uri)⟩)⟩).toList ++
    (r.saslCreds.map fun v ↦ ⟨.context, 7, .P v⟩).toList ++
    (r.name.map fun name ↦ ⟨.context, 10, .P (asBytes name)⟩).toList ++
    (r.val.map fun v ↦ ⟨.context, 11, .P v⟩).toList

/-- The protocol op, with the octets of the result code. -/
def opTag (rc : List UInt8) : StructureTag :=
  ⟨.application, r.op, .C (⟨.universal, Types.enumerated, .P rc⟩ ::
    ⟨.universal, Types.octetString, .P (asBytes r.matched)⟩ ::
    ⟨.universal, Types.octetString, .P (asBytes r.text)⟩ :: r.components)⟩

/-- The octets are a number in two's complement. -/
def Denotes (v : List UInt8) (n : ℤ) : Prop :=
  v ≠ [] ∧ BigEndian.signed v = n

/-- A message with the components of the response: without controls, with a list of controls, or
with an element numbered 10 where the controls belong. -/
inductive Message : List ResponseControl → StructureTag → Prop
  | bare {v rc : List UInt8} (hid : Denotes v r.msgid) (hrc : Denotes rc r.rc) :
      Message [] ⟨.universal, Types.sequence,
        .C [⟨.universal, Types.integer, .P v⟩, r.opTag rc]⟩
  | controls {v rc : List UInt8} (hid : Denotes v r.msgid) (hrc : Denotes rc r.rc)
      (cs : List ResponseControl) :
      Message cs ⟨.universal, Types.sequence,
        .C [⟨.universal, Types.integer, .P v⟩, r.opTag rc,
          ⟨.context, 0, .C (cs.map ResponseControl.tag)⟩]⟩
  | notice {v rc : List UInt8} (hid : Denotes v r.msgid) (hrc : Denotes rc r.rc)
      (pl : PL StructureTag) :
      Message [] ⟨.universal, Types.sequence,
        .C [⟨.universal, Types.integer, .P v⟩, r.opTag rc, ⟨.context, 10, pl⟩]⟩

/-- What the caller gets. -/
def result (ctrls : List Control) : LdapResultExt :=
  ⟨⟨UInt32.ofNat r.rc, r.matched, r.text, r.refs.getD [], ctrls⟩, ⟨r.name, r.val⟩, r.saslCreds⟩

/-! ### Numbers and texts -/

/-- A non-negative number is read as it is, with any number of leading zeroes. -/
theorem parseUint_of_denotes {v : List UInt8} {n : ℕ} (h : Denotes v n) (hn : n < 2 ^ 31) :
    (parseUint v).toNat = n := by
  obtain ⟨hne, hv⟩ := h
  obtain ⟨b, v, rfl⟩ := List.exists_cons_of_ne_nil hne
  have hb : b.toNat < 128 := by
    by_contra hge
    have hneg := @BigEndian.signed_neg b v (Nat.not_lt.1 hge)
    omega
  rw [BigEndian.signed_of_lt hb] at hv
  have hval : BigEndian.value (b :: v) = n := by exact_mod_cast hv
  rw [parseUint_toNat, hval, Nat.mod_eq_of_lt (by omega)]

/-- A message id is read as it is. -/
theorem asI32_of_denotes {v : List UInt8} {n : ℤ} (h : Denotes v n) (h0 : 0 ≤ n)
    (hlt : n < 2 ^ 31) : asI32 (parseUint v) = n := by
  obtain ⟨n, rfl⟩ := Int.eq_ofNat_of_zero_le h0
  have hn : n < 2 ^ 31 := by exact_mod_cast hlt
  have hread := parseUint_of_denotes h hn
  rw [asI32_of_lt (by omega), hread]

/-! ### The protocol op -/

/-- A referral is read as its list. -/
theorem parseRefs_map (cls : TagClass) (id : UInt64) (refs : List String) :
    parseRefs ⟨cls, id,
        .C (refs.map fun uri ↦ ⟨.universal, Types.octetString, .P (asBytes uri)⟩)⟩ =
      .ok refs := by
  refine mapM_eq_ok_iff.2 ?_
  rw [List.forall₂_map_left_iff, List.forall₂_same]
  exact fun uri _ ↦ expectText_asBytes _ _ uri "uri"

/-- The loop over the components puts each of them where it belongs. -/
theorem foldlM_components (rc : UInt32) (matched text : String) :
    r.components.foldlM addComponent ⟨⟨rc, matched, text, [], []⟩, ⟨none, none⟩, none⟩ =
      .ok ⟨⟨rc, matched, text, r.refs.getD [], []⟩, ⟨r.name, r.val⟩, r.saslCreds⟩ := by
  have hstep : ∀ (o : Option StructureTag) (ext : LdapResultExt),
      o.toList.foldlM addComponent ext = o.elim (.ok ext) (addComponent ext) := by
    intro o ext
    rcases o with - | t
    · rfl
    · rw [Option.toList_some, List.foldlM_cons, Option.elim_some]
      exact bind_pure _
  simp only [components, List.foldlM_append, hstep]
  rcases r.refs with - | refs <;> rcases r.saslCreds with - | creds <;>
    rcases r.name with - | name <;> rcases r.val with - | val <;>
    simp [parseRefs_map, addComponent, bind, Except.bind, pure, Except.pure]

/-- The components of a protocol op are read back. -/
theorem opResult_opTag {rc : List UInt8} (hrc : Denotes rc r.rc) (ctrls : List Control) :
    opResult (.structureTag (r.opTag rc), ctrls) = .ok (r.result ctrls) := by
  have hcode : (parseUint rc).toUInt32 = UInt32.ofNat r.rc := by
    have hn := parseUint_of_denotes hrc r.rc_lt
    rw [← hn]
    rfl
  have hfold := r.foldlM_components (parseUint rc).toUInt32 r.matched r.text
  simp only [opResult, LdapResultExt.ofTag, opTag, StructureTag.expectConstructed_C,
    expect_some, List.head?_cons, List.tail_cons, StructureTag.matchClass, StructureTag.matchId,
    if_true, Option.bind_some, StructureTag.expectPrimitive_P,
    expectText_asBytes, bind, Except.bind, hfold]
  rw [hcode]
  rfl

/-! ### Messages -/

/-- The envelope of a message is taken apart into its id, its op and its controls. -/
theorem decodeEnvelope_message {cs : List ResponseControl} {t : StructureTag}
    (h : r.Message cs t) :
    ∃ rc, Denotes rc r.rc ∧ decodeEnvelope t =
      .ok (r.msgid, .structureTag (r.opTag rc), cs.map ResponseControl.control) := by
  have hmsgid : ∀ {v : List UInt8}, Denotes v r.msgid → r.msgid = asI32 (parseUint v) := by
    intro v hv
    exact (asI32_of_denotes hv r.msgid_range.1 r.msgid_range.2).symm
  have htrailer : ∀ rc, ¬IsTrailer (r.opTag rc) := fun rc htr ↦ by cases htr.1
  cases h with
  | bare hid hrc =>
    exact ⟨_, hrc, decodeEnvelope_eq_ok_iff.2 ⟨rfl, _, _, _, none, rfl,
      ⟨[], [], rfl, Or.inl ⟨rfl, rfl, htrailer _⟩⟩, hmsgid hid, rfl, rfl⟩⟩
  | controls hid hrc cs =>
    exact ⟨_, hrc, decodeEnvelope_eq_ok_iff.2 ⟨rfl, _, _, _, some _, rfl,
      ⟨[], _, rfl, Or.inr (Or.inl ⟨_, rfl, rfl⟩)⟩, hmsgid hid, rfl,
      ResponseControl.parseControls_map_tag _ _ cs⟩⟩
  | notice hid hrc pl =>
    exact ⟨_, hrc, decodeEnvelope_eq_ok_iff.2 ⟨rfl, _, _, _, none, rfl,
      ⟨[], _, rfl, Or.inr (Or.inr ⟨pl, rfl, rfl⟩)⟩, hmsgid hid, rfl, rfl⟩⟩

/-- **Responses are decoded faithfully.** Whatever encoding of the message the server chooses, it
is taken off the buffer whole, and the caller gets exactly the components it was made of. -/
theorem decodeInner_message {cs : List ResponseControl} {t : StructureTag} {w : List UInt8}
    (h : r.Message cs t) (hw : Ber t w) (hfits : w.length ≤ usizeMax) (rest : List UInt8) :
    ∃ tag, decodeInner (w ++ rest) =
        (.ok (some (r.msgid, tag, cs.map ResponseControl.control)), rest) ∧
      opResult (tag, cs.map ResponseControl.control) =
        .ok (r.result (cs.map ResponseControl.control)) := by
  have hlt : w.length < 2 ^ 64 := Nat.lt_of_le_of_lt hfits (by decide)
  have hparse : parse (w ++ rest) = .ok (rest, t) := by
    have htag := parseTag_of_ber hw hlt rest
    rcases hbuf : w ++ rest with - | ⟨b, buf⟩
    · rw [hbuf] at htag
      cases htag
    · rw [← hbuf, parse, if_neg (by simp [hbuf])]
      exact htag
  obtain ⟨rc, hrc, hdec⟩ := r.decodeEnvelope_message h
  refine ⟨_, ?_, r.opResult_opTag hrc _⟩
  rw [decodeInner_of_parse hparse, hdec]
  rfl

/-- A BindResponse without optional components. -/
def bindResponse : Response where
  msgid := 1
  op := 1
  rc := 0
  matched := ""
  text := ""
  refs := none
  saslCreds := none
  name := none
  val := none
  msgid_range := by decide
  rc_lt := by decide

/-- The length of the message is in the long form, on more octets than it needs, and the criticality
of the control is neither of the two octets a strict encoder writes. -/
theorem decodeInner_message_bind :
    ∃ tag, decodeInner ([0x30, 0x82, 0x00, 0x17, 0x02, 0x01, 0x01, 0x61, 0x07, 0x0A, 0x01, 0x00,
        0x04, 0x00, 0x04, 0x00, 0xA0, 0x09, 0x30, 0x07, 0x04, 0x02, 0x31, 0x2E, 0x01, 0x01, 0x07] ++
          [0x30]) =
        (.ok (some (1, tag, [ResponseControl.control ⟨"1.", some 7, none⟩])), [0x30]) ∧
      opResult (tag, [ResponseControl.control ⟨"1.", some 7, none⟩]) =
        .ok (bindResponse.result [ResponseControl.control ⟨"1.", some 7, none⟩]) := by
  have hprim : ∀ (cls : TagClass) (id : UInt64) (v : List UInt8), id ≤ 30 → v.length < 128 →
      Ber ⟨cls, id, .P v⟩ (identOctet cls .primitive id :: ([UInt8.ofNat v.length] ++ v)) :=
    fun cls id v hid hv ↦ ⟨hid, _, .short hv, rfl⟩
  have hcomps : Bers [⟨.universal, 10, .P [0]⟩, ⟨.universal, 4, .P []⟩, ⟨.universal, 4, .P []⟩]
      [0x0A, 0x01, 0x00, 0x04, 0x00, 0x04, 0x00] :=
    ⟨_, _, hprim _ _ _ (by decide) (by decide), ⟨_, _, hprim _ _ _ (by decide) (by decide),
      ⟨_, _, hprim _ _ _ (by decide) (by decide), rfl, rfl⟩, rfl⟩, rfl⟩
  have hop : Ber (bindResponse.opTag [0]) [0x61, 0x07, 0x0A, 0x01, 0x00, 0x04, 0x00, 0x04, 0x00] :=
    ⟨by decide, [7], _, hcomps, .short (by decide), rfl⟩
  have hcrit : Bers [⟨.universal, 4, .P (asBytes "1.")⟩, ⟨.universal, 1, .P [7]⟩]
      [0x04, 0x02, 0x31, 0x2E, 0x01, 0x01, 0x07] :=
    ⟨_, _, hprim _ _ _ (by decide) (by decide), ⟨_, _, hprim _ _ _ (by decide) (by decide), rfl,
      rfl⟩, rfl⟩
  have hctrls : Bers [ResponseControl.tag ⟨"1.", some 7, none⟩]
      [0x30, 0x07, 0x04, 0x02, 0x31, 0x2E, 0x01, 0x01, 0x07] :=
    ⟨_, _, ⟨by decide, [7], _, hcrit, .short (by decide), rfl⟩, rfl, rfl⟩
  have hlong : BerLength 23 [0x82, 0x00, 0x17] :=
    @BerLength.long [0x00, 0x17] (by decide) (by decide)
  have hmsg : Bers [⟨.universal, 2, .P [1]⟩, bindResponse.opTag [0],
      ⟨.context, 0, .C [ResponseControl.tag ⟨"1.", some 7, none⟩]⟩]
      [0x02, 0x01, 0x01, 0x61, 0x07, 0x0A, 0x01, 0x00, 0x04, 0x00, 0x04, 0x00, 0xA0, 0x09, 0x30,
        0x07, 0x04, 0x02, 0x31, 0x2E, 0x01, 0x01, 0x07] :=
    ⟨_, _, hprim _ _ _ (by decide) (by decide), ⟨_, _, hop, ⟨_, _,
      ⟨by decide, [9], _, hctrls, .short (by decide), rfl⟩, rfl, rfl⟩, rfl⟩, rfl⟩
  have hid : Denotes [1] bindResponse.msgid := ⟨by decide, by decide⟩
  have hrc : Denotes [0] bindResponse.rc := ⟨by decide, by decide⟩
  exact bindResponse.decodeInner_message (.controls hid hrc [⟨"1.", some 7, none⟩])
    ⟨by decide, _, _, hmsg, hlong, rfl⟩ (by decide) [0x30]

end Response

end Ldap3
