import Ldap3.Ldap.Handle
import Ldap3.Ldap.Wire
import Ldap3.Protocol.Chunks

/-!
# The peer

The other end of the connection: a server that goes by the protocol and not by this program. It
reads requests off the octets it receives with the strict reader of `Grammar`, one after another,
and writes messages in any encoding the protocol has for them.

The two ends understand each other. Where the octets of a request stand, with anything after them,
the server reads that request and no other (`ClientRequest.serve_eq`); and a message of the server
is taken off the buffer whole and decoded to what it says (`ServerMessage.decodeInner_octets`).
-/

open Nom

namespace Ldap3

open Grammar

/-! ### Requests -/

/-- Octets that are read as a request. -/
structure ServerRead where
  octets : List UInt8
  request : LdapRequest
  reads : Reads octets request
  /-- The server has them in memory. -/
  fits : octets.length ≤ usizeMax

/-- A call that passed its own validation, with all that goes into its message but the id. -/
structure ClientRequest (S : Type) [AsRef S] where
  call : Call S
  opts : SearchOptions
  controls : Option (List RawControl)
  req : Tag
  in_range : call.InRange opts
  request_eq : call.request opts = .ok req

namespace ClientRequest

variable {S : Type} [AsRef S] (c : ClientRequest S)

/-- What the caller asked for. -/
def meaning (id : RequestId) : Option LdapRequest :=
  (c.call.operation c.opts).map fun op ↦
    ⟨id, op, c.controls.map fun rcs ↦ rcs.map RawControl.request⟩

theorem messageId_of_meaning {id : RequestId} {r : LdapRequest} (h : c.meaning id = some r) :
    r.messageId = id := by
  obtain ⟨op, -, rfl⟩ := Option.map_eq_some_iff.1 h
  rfl

theorem exists_meaning (id : RequestId) (hid : 0 ≤ id ∧ id < 2 ^ 31)
    (hfits : (encode id c.req c.controls).length ≤ usizeMax) :
    ∃ r, c.meaning id = some r ∧ Reads (encode id c.req c.controls) r := by
  let issued : IssuedRequest S :=
    ⟨id, c.call, c.opts, c.controls, c.req, hid, c.in_range, c.request_eq, hfits⟩
  obtain ⟨r, hr, hreads⟩ := issued.reads_encoded_iff
  exact ⟨r, hr, (hreads r).2 rfl⟩

end ClientRequest

/-- Of two requests at the front of the same octets there is only one. -/
theorem Grammar.Reads.unique {w w' r r' : List UInt8} {m m' : LdapRequest} (h : Reads w m)
    (h' : Reads w' m') (hfits : w.length ≤ usizeMax) (hfits' : w'.length ≤ usizeMax)
    (heq : w ++ r = w' ++ r') : w = w' ∧ r = r' ∧ m = m' := by
  obtain ⟨t, hber, hm⟩ := h
  obtain ⟨t', hber', hm'⟩ := h'
  have hparse := parseTag_of_ber hber (Nat.lt_of_le_of_lt hfits (by decide)) r
  have hparse' := parseTag_of_ber hber' (Nat.lt_of_le_of_lt hfits' (by decide)) r'
  rw [heq, hparse'] at hparse
  obtain ⟨rfl, rfl⟩ := Prod.mk.inj (Except.ok.inj hparse)
  exact ⟨List.append_cancel_right heq, rfl, Option.some.inj (hm.symm.trans hm')⟩

theorem Grammar.Reads.ne_nil {w : List UInt8} {m : LdapRequest} (h : Reads w m)
    (hfits : w.length ≤ usizeMax) : w ≠ [] := by
  rintro rfl
  obtain ⟨t, hber, -⟩ := h
  have hparse := parseTag_of_ber hber (Nat.lt_of_le_of_lt hfits (by decide)) []
  cases hparse

/-- **The server reads what was asked.** -/
theorem ClientRequest.serve_eq {S : Type} [AsRef S] (c : ClientRequest S) {id : RequestId}
    (hid : 0 ≤ id ∧ id < 2 ^ 31) (hfits : (encode id c.req c.controls).length ≤ usizeMax)
    (s : ServerRead) {r r' : List UInt8}
    (heq : s.octets ++ r = encode id c.req c.controls ++ r') :
    s.octets = encode id c.req c.controls ∧ r = r' ∧ c.meaning id = some s.request := by
  obtain ⟨m, hm, hreads⟩ := c.exists_meaning id hid hfits
  obtain ⟨hw, hr, rfl⟩ := s.reads.unique hreads s.fits hfits heq
  exact ⟨hw, hr, hm⟩

/-! ### Messages of the server -/

/-- The tree of a message. -/
def serverEnvelope (idOctets : List UInt8) (op : StructureTag)
    (controls : Option (List ResponseControl)) : StructureTag :=
  ⟨.universal, Types.sequence, .C (⟨.universal, Types.integer, .P idOctets⟩ :: op ::
    (controls.map fun cs ↦ ⟨.context, 0, .C (cs.map ResponseControl.tag)⟩).toList)⟩

/-- A message with an id, a protocol op and controls, in some encoding. -/
structure ServerMessage where
  id : RequestId
  op : StructureTag
  controls : Option (List ResponseControl)
  idOctets : List UInt8
  octets : List UInt8
  id_range : 0 ≤ id ∧ id < 2 ^ 31
  denotes : Response.Denotes idOctets id
  op_cls : op.cls = .application
  ber : Ber (serverEnvelope idOctets op controls) octets
  /-- The server has it in memory. -/
  fits : octets.length ≤ usizeMax

theorem denotes_firstId : Response.Denotes [1] 1 :=
  ⟨by decide, by decide⟩

namespace ServerMessage

variable (m : ServerMessage)

/-- What the message says: an absent list of controls is an empty one. -/
def decoded : Decoded :=
  (m.id, .structureTag m.op, (m.controls.getD []).map ResponseControl.control)

theorem decodeEnvelope_message :
    decodeEnvelope (serverEnvelope m.idOctets m.op m.controls) = .ok m.decoded := by
  have hid : m.id = asI32 (parseUint m.idOctets) :=
    (Response.asI32_of_denotes m.denotes m.id_range.1 m.id_range.2).symm
  have htrailer : ¬IsTrailer m.op := fun h ↦ by
    have hcls := h.1
    rw [m.op_cls] at hcls
    cases hcls
  rcases hcontrols : m.controls with - | cs
  · exact decodeEnvelope_eq_ok_iff.2 ⟨rfl, _, _, _, none, rfl,
      ⟨[], [], rfl, Or.inl ⟨rfl, rfl, htrailer⟩⟩, hid, rfl, by rw [hcontrols]; rfl⟩
  · exact decodeEnvelope_eq_ok_iff.2 ⟨rfl, _, _, _, some _, rfl,
      ⟨[], _, rfl, Or.inr (Or.inl ⟨_, rfl, rfl⟩)⟩, hid, rfl, by
        rw [hcontrols]
        exact ResponseControl.parseControls_map_tag _ _ cs⟩

/-- **The client reads what was said**, and leaves what follows. -/
theorem decodeInner_octets (rest : List UInt8) :
    decodeInner (m.octets ++ rest) = (.ok (some m.decoded), rest) := by
  have htag := parseTag_of_ber m.ber (Nat.lt_of_le_of_lt m.fits (by decide)) rest
  have hparse : parse (m.octets ++ rest) =
      .ok (rest, serverEnvelope m.idOctets m.op m.controls) := by
    rcases hbuf : m.octets ++ rest with - | ⟨b, buf⟩
    · rw [hbuf] at htag
      cases htag
    · rw [← hbuf, parse, if_neg (by simp [hbuf])]
      exact htag
  rw [decodeInner_of_parse hparse, m.decodeEnvelope_message]
  rfl

/-- The messages of a stream, in order. -/
theorem takes_octets (ms : List ServerMessage) :
    Framing.Takes decodeInner (ms.map octets).flatten (ms.map decoded) [] := by
  induction ms with
  | nil => exact .nil
  | cons m ms ih =>
    rw [List.map_cons, List.flatten_cons]
    exact .cons (m.decodeInner_octets _) ih

/-- Messages that are read off a beginning of the stream are a beginning of its messages. -/
theorem prefix_of_takes {ms : List ServerMessage} {b rest buf : List UInt8} {ds : List Decoded}
    (htakes : Framing.Takes decodeInner b ds buf) (heq : b ++ rest = (ms.map octets).flatten) :
    ds <+: ms.map decoded := by
  have hmore := htakes.append_right stable_decodeInner rest
  rw [heq] at hmore
  exact hmore.prefix_of_nil stable_decodeInner (takes_octets ms)

end ServerMessage

end Ldap3
