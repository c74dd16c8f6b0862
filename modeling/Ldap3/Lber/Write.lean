import Ldap3.Lber.Structures

/-!
# BER encoding

`lber/src/write.rs`: the identifier octets, the length octets, and the recursive writer over
tag trees. A writer into a buffer is the list of octets it appends.

Lengths are `usize`, eight octets on the 64-bit targets this development takes as given.
-/

namespace Ldap3

/-- The largest `usize`. -/
def usizeMax : ℕ := 2 ^ 64 - 1

/-- The 7-bit groups of a large tag number, least significant first: the `while tag > 0` loop.
Ten groups cover a `u64`. -/
def tagBytes : (fuel : ℕ) → (tag : UInt64) → List UInt8
  | 0, _ => []
  | fuel + 1, tag =>
    if tag > 0 then (tag &&& 0x7F).toUInt8 :: tagBytes fuel (tag >>> 7) else []

/-- The octets written for a large tag number: every group but the last one popped carries the
continuation bit. -/
def extBytes (id : UInt64) : List UInt8 :=
  match tagBytes 10 id with
  | [] => []
  | byte :: bytes => (bytes.reverse.map fun b ↦ b ||| 0x80) ++ [byte]

/-- The first identifier octet. -/
def typeByte (cls : TagClass) (struct : TagStructure) (id : UInt64) : UInt8 :=
  cls.toU8 <<< 6 ||| struct.toU8 <<< 5 ||| if id > 30 then 0x1F else id.toUInt8

def writeType (cls : TagClass) (struct : TagStructure) (id : UInt64) : List UInt8 :=
  typeByte cls struct id :: if id > 30 then extBytes id else []

def writeLength (length : ℕ) : List UInt8 :=
  if length < 128 then
    [UInt8.ofNat length]
  else
    let count := countOctets 8 length
    let repr := BigEndian.octets 8 length
    (UInt8.ofNat count ||| 0x80) :: repr.drop (repr.length - count)

mutual

def encodeInner : StructureTag → List UInt8
  | ⟨cls, id, .P v⟩ => writeType cls .primitive id ++ (writeLength v.length ++ v)
  | ⟨cls, id, .C tags⟩ =>
    let tmp := encodeAll tags
    writeType cls .constructed id ++ (writeLength tmp.length ++ tmp)

/-- The loop over the children of a constructed element. -/
def encodeAll : List StructureTag → List UInt8
  | [] => []
  | tag :: tags => encodeInner tag ++ encodeAll tags

end

/-- What `encode_into` appends to the buffer. -/
def encodeInto (tag : StructureTag) : List UInt8 :=
  encodeInner tag

end Ldap3
