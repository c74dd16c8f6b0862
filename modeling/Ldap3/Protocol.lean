import Ldap3.Controls
import Ldap3.Lib.Framing

/-!
# The message codec

`src/protocol.rs` in the build without the `gssapi` feature: `decode_inner`, which takes one
message off the front of the receive buffer, and the `encode` of an outgoing message.

`decode_inner` parses one element, drops its octets from the buffer and takes the element apart
from the end. The two halves are separate here: `decodeEnvelope` is what happens to the element
once it is parsed. The halves meet in `decodeInner_of_parse`, which is how every later result
enters.

**Framing.** `decodeInner` and `encode` satisfy the assumptions of `Framing.Framed` on messages
the client can build (`Message`), so the stream of any list of them is read back whole and in
order however the connection cuts it (`feed_encode`).
-/

open Nom

namespace Ldap3

/-- `RequestId`, an `i32`. -/
abbrev RequestId := ℤ

/-- The value is an `i32`. -/
def InI32 (n : ℤ) : Prop :=
  -2 ^ 31 ≤ n ∧ n < 2 ^ 31

instance (n : ℤ) : Decidable (InI32 n) :=
  inferInstanceAs (Decidable (_ ∧ _))

/-- `as i32` on a `u64`: the low 32 bits, read as two's complement. -/
def asI32 (n : UInt64) : RequestId :=
  Int.bmod n.toNat (2 ^ 32)

theorem asI32_of_lt {n : UInt64} (h : n.toNat < 2 ^ 31) : asI32 n = n.toNat := by
  refine Int.bmod_eq_of_le_mul_two ?_ ?_ <;> norm_num <;> omega

/-- What is decoded: the message id, the protocol op and the controls. -/
abbrev Decoded := RequestId × Tag × List Control

/-! ### Decoding -/

def decodingError : Fault := .error "decoding error"

/-- `tags.pop().expect("element")`. -/
def popElement (tags : List StructureTag) : Except Fault (StructureTag × List StructureTag) :=
  match tags.getLast? with
  | some t => .ok (t, tags.dropLast)
  | none => .error (.panic "element")

@[simp] theorem popElement_nil : popElement [] = .error (.panic "element") := rfl

@[simp] theorem popElement_concat (ts : List StructureTag) (t : StructureTag) :
    popElement (ts ++ [t]) = .ok (t, ts) := by
  simp [popElement]

/-- The protocol op and the controls element if there is one, popped off the end; what remains
should be the message id. -/
def popOp (tags : List StructureTag) :
    Except Fault (StructureTag × Option StructureTag × List StructureTag) := do
  let (maybeControls, tags) ← popElement tags
  if maybeControls.cls = .context ∧ maybeControls.id = 0 then
    match maybeControls.payload with
    | .C _ => do
      let (protoop, tags) ← popElement tags
      return (protoop, some maybeControls, tags)
    | .P _ => throw decodingError
  else if maybeControls.cls = .context ∧ maybeControls.id = 10 then
    -- Active Directory puts the OID of a Notice of Disconnection here.
    let (protoop, tags) ← popElement tags
    return (protoop, none, tags)
  else
    return (maybeControls, none, tags)

/-- The message id, popped off the end of what remains. -/
def popMsgid (tags : List StructureTag) : Except Fault RequestId := do
  let (t, _) ← popElement tags
  let v ← expect (t.matchClass .universal >>= (·.matchId Types.integer) >>= (·.expectPrimitive))
    "message id"
  return asI32 (parseUint v)

/-- The second half of `decode_inner`, from the parsed element on. -/
def decodeEnvelope (tag : StructureTag) : Except Fault Decoded := do
  match tag.matchId Types.sequence >>= (·.expectConstructed) with
  | none => throw decodingError
  | some tags =>
    let (protoop, controls, tags) ← popOp tags
    let controls ← controls.elim (pure []) parseControls
    let msgid ← popMsgid tags
    return (msgid, .structureTag protoop, controls)

/-- `decode_inner`: the outcome, and the buffer after the call. -/
def decodeInner : Framing.Decoder Fault UInt8 Decoded := fun buf ↦
  match parse buf with
  | .error .incomplete => (.ok none, buf)
  | .error _ => (.error decodingError, buf)
  | .ok (i, tag) => (some <$> decodeEnvelope tag, buf.drop (buf.length - i.length))

theorem decodeInner_of_incomplete {buf : List UInt8} (h : parse buf = .error .incomplete) :
    decodeInner buf = (.ok none, buf) := by
  rw [decodeInner, h]

/-- A parsed element is dropped from the buffer, whatever becomes of the message. -/
theorem decodeInner_of_parse {w rest : List UInt8} {tag : StructureTag}
    (h : parse (w ++ rest) = .ok (rest, tag)) :
    decodeInner (w ++ rest) = (some <$> decodeEnvelope tag, rest) := by
  rw [decodeInner, h]
  simp

theorem parse_eq_append {buf i : List UInt8} {tag : StructureTag}
    (h : parse buf = .ok (i, tag)) : ∃ w, 2 ≤ w.length ∧ buf = w ++ i := by
  cases buf with
  | nil => cases h
  | cons b buf => exact parseTag_eq_append h

/-! ### Encoding -/

/-- The message sequence `encode` builds. -/
def outstruct (id : RequestId) (tag : Tag) (controls : Option (List RawControl)) : StructureTag :=
  let msg := [Tag.ofInteger id, tag]
  let msg := match controls with
    | some controls => msg ++ [.structureTag ⟨.context, 0, .C (controls.map buildTag)⟩]
    | none => msg
  (Tag.ofSequence msg).intoStructure

/-- The octets `encode` appends to the buffer. -/
def encode (id : RequestId) (tag : Tag) (controls : Option (List RawControl)) : List UInt8 :=
  encodeInto (outstruct id tag controls)

/-! ### Messages -/

/-- A message with an id of the valid range and an LDAP protocol op. -/
structure Message where
  id : RequestId
  op : Tag
  controls : Option (List RawControl)
  id_nonneg : 0 ≤ id
  id_lt : id < 2 ^ 31
  op_cls : op.intoStructure.cls = .application
  op_ids : op.intoStructure.IdsLe 30
  /-- The buffer it is encoded to exists. -/
  fits : (encode id op controls).length ≤ usizeMax

namespace Message

def encoded (m : Message) : List UInt8 :=
  encode m.id m.op m.controls

/-- What the message is decoded to: a missing control list is an empty one. -/
def decoded (m : Message) : Decoded :=
  (m.id, .structureTag m.op.intoStructure, (m.controls.getD []).map RawControl.toControl)

end Message

/-- Every tag number of an outgoing message is low. -/
theorem idsLe_outstruct {id : RequestId} {tag : Tag} (controls : Option (List RawControl))
    (h : tag.intoStructure.IdsLe 30) : (outstruct id tag controls).IdsLe 30 := by
  have hseq : Types.sequence ≤ 30 := by decide
  have hint : Types.integer ≤ 30 := by decide
  rcases controls with - | rcs
  · simp [outstruct, Tag.ofSequence, Tag.ofInteger, Tag.intoStructure, Tag.intoStructures,
      iEIntoStructure, StructureTag.IdsLe, hseq, hint, h]
  · simp [outstruct, Tag.ofSequence, Tag.ofInteger, Tag.intoStructure, Tag.intoStructures,
      iEIntoStructure, StructureTag.IdsLe, hseq, hint, h, idsLe_buildTag]

/-- The id written for a message is the id read. -/
theorem popMsgid_ofInteger (id : RequestId) (h0 : 0 ≤ id) (h : id < 2 ^ 31) :
    popMsgid [(Tag.ofInteger id).intoStructure] = .ok id := by
  obtain ⟨n, rfl⟩ := Int.eq_ofNat_of_zero_le h0
  have hn : n < 2 ^ 31 := by exact_mod_cast h
  have hval : (parseUint (integerOctets n)).toNat = n := by
    rw [parseUint_toNat, value_integerOctets (by omega), Nat.mod_eq_of_lt (by omega)]
  have hid : asI32 (parseUint (integerOctets n)) = n := by
    rw [asI32_of_lt (by omega), hval]
  simp [popMsgid, popElement, Tag.ofInteger, Tag.intoStructure, iEIntoStructure,
    StructureTag.matchClass, StructureTag.matchId, bind, Except.bind, pure, Except.pure, hid]

/-- Taking apart the sequence built for a message. -/
theorem decodeEnvelope_outstruct (m : Message) :
    decodeEnvelope (outstruct m.id m.op m.controls) = .ok m.decoded := by
  have hid := popMsgid_ofInteger m.id m.id_nonneg m.id_lt
  have hcls := m.op_cls
  rcases m with ⟨id, op, - | rcs, _, _, _, _, _⟩
  · have hpop : popOp [(Tag.ofInteger id).intoStructure, op.intoStructure] =
        .ok (op.intoStructure, none, [(Tag.ofInteger id).intoStructure]) := by
      simp [popOp, popElement, hcls, bind, Except.bind, pure, Except.pure]
    simp [outstruct, Tag.ofSequence, Tag.intoStructure, Tag.intoStructures, decodeEnvelope,
      StructureTag.matchId, Message.decoded, hpop, hid, bind, Except.bind, pure, Except.pure]
  · have hpop : popOp [(Tag.ofInteger id).intoStructure, op.intoStructure,
          ⟨.context, 0, .C (rcs.map buildTag)⟩] =
        .ok (op.intoStructure, some ⟨.context, 0, .C (rcs.map buildTag)⟩,
          [(Tag.ofInteger id).intoStructure]) := by
      simp [popOp, popElement, bind, Except.bind, pure, Except.pure]
    simp [outstruct, Tag.ofSequence, Tag.intoStructure, Tag.intoStructures, decodeEnvelope,
      StructureTag.matchId, Message.decoded, hpop, hid, parseControls_map_buildTag, bind,
      Except.bind, pure, Except.pure]

/-! ### The stream -/

/-- An encoded message is parsed to the sequence it was built from. -/
theorem parse_encoded (m : Message) (rest : List UInt8) :
    parse (m.encoded ++ rest) = .ok (rest, outstruct m.id m.op m.controls) := by
  have h := parseTag_encodeInto (idsLe_outstruct m.controls m.op_ids) m.fits rest
  rcases hbuf : m.encoded ++ rest with - | ⟨b, buf⟩
  · rw [← encode, show encode m.id m.op m.controls = m.encoded from rfl, hbuf] at h
    cases h
  · rw [← hbuf, parse, if_neg (by simp [hbuf])]
    exact h

/-- The codec satisfies the assumptions on a framed stream. -/
theorem framed_decodeInner : Framing.Framed decodeInner Message.encoded Message.decoded where
  nil := rfl
  decode_append m rest := by
    rw [decodeInner_of_parse (parse_encoded m rest), decodeEnvelope_outstruct]
    rfl
  wait m p q heq hne := by
    have hall := parse_encoded m []
    rw [List.append_nil, ← heq] at hall
    exact decodeInner_of_incomplete (streaming_parse.incomplete_of_append hall hne)

/-- **Stream framing.** However the encodings of a list of messages are cut into chunks, reading
the chunks yields the messages in order and leaves the buffer empty; and as long as a message is
incomplete, the decoder waits and leaves the buffer alone. -/
theorem feed_encode {ms : List Message} {cs : List (List UInt8)}
    (h : cs.flatten = (ms.map Message.encoded).flatten) :
    Framing.feed decodeInner [] cs = .ok (ms.map Message.decoded, []) ∧
      ∀ m ∈ ms, ∀ p q : List UInt8, p ++ q = m.encoded → q ≠ [] →
        decodeInner p = (.ok none, p) := by
  refine ⟨?_, fun m _ p q heq hne ↦ framed_decodeInner.wait m p q heq hne⟩
  exact framed_decodeInner.feed_eq_ok (framed_decodeInner.waiting_nil ms) (by simpa using h)

/-- An UnbindRequest with the message id 1 and no controls. -/
def unbindMessage : Message where
  id := 1
  op := .null 2 .application
  controls := none
  id_nonneg := by decide
  id_lt := by decide
  op_cls := rfl
  op_ids := by simp [Tag.intoStructure, StructureTag.IdsLe]
  fits := by decide

/-- Two messages cut inside the length of the first and the content of the second. -/
theorem feed_encode_unbind :
    Framing.feed decodeInner []
        [[0x30], [0x05, 0x02, 0x01, 0x01, 0x42, 0x00, 0x30, 0x05], [],
          [0x02, 0x01, 0x01, 0x42, 0x00]] =
      .ok ([unbindMessage, unbindMessage].map Message.decoded, []) :=
  (feed_encode (by decide)).1

end Ldap3
