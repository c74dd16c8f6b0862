import Ldap3.Ldap.Request
import Mathlib.Data.Finset.Basic
import Mathlib.Data.Finset.Dedup

/-!
# The grammar of requests

What a request is, apart from the program: the abstract requests of RFC 4511, with the increment
modification of RFC 4525, and the reader of a tag tree as one of them.

The reader is strict. Every element has to be of the class, the number and the form its type asks
for, an integer has to be in its range and on no more octets than it needs, a Boolean is 00 or FF,
and one that has its default value is absent. No element may be missing or left over. A name, a
value or a password is any octet string. The values of an attribute are a set.

The filter of a search is read as the tree that it is, once it has been checked against the
grammar of filters.
-/

namespace Ldap3

namespace Grammar

/-! ### Abstract requests -/

/-- `AuthenticationChoice`. -/
inductive Authentication where
  | simple (password : List UInt8)
  | sasl (mechanism : List UInt8) (credentials : Option (List UInt8))
  deriving DecidableEq

/-- The kind of a modification. -/
inductive ModKind where
  | add
  | delete
  | replace
  | increment
  deriving DecidableEq

/-- `PartialAttribute`: a description and a set of values. -/
abbrev PartialAttribute := List UInt8 × Finset (List UInt8)

/-- The protocol operations a client sends. -/
inductive Operation where
  | bindRequest (version : ℤ) (name : List UInt8) (auth : Authentication)
  | unbindRequest
  | searchRequest (baseObject : List UInt8) (scope : Scope) (derefAliases : DerefAliases)
      (sizeLimit timeLimit : ℤ) (typesOnly : Bool) (filter : StructureTag)
      (attributes : List (List UInt8))
  | modifyRequest (object : List UInt8) (changes : List (ModKind × PartialAttribute))
  | addRequest (entry : List UInt8) (attributes : List PartialAttribute)
  | delRequest (entry : List UInt8)
  | modDNRequest (entry newrdn : List UInt8) (deleteoldrdn : Bool)
      (newSuperior : Option (List UInt8))
  | compareRequest (entry attributeDesc assertionValue : List UInt8)
  | abandonRequest (messageId : ℤ)
  | extendedRequest (requestName : List UInt8) (requestValue : Option (List UInt8))
  deriving DecidableEq

/-- `Control`. -/
structure RequestControl where
  controlType : List UInt8
  criticality : Bool
  controlValue : Option (List UInt8)
  deriving DecidableEq

/-- `LDAPMessage`, as far as it is a request. -/
structure LdapRequest where
  messageId : ℤ
  protocolOp : Operation
  controls : Option (List RequestControl)
  deriving DecidableEq

/-! ### Simple types -/

/-- The octets of a primitive element with the given tag. -/
def octets (cls : TagClass) (id : UInt64) (t : StructureTag) : Option (List UInt8) :=
  if t.cls = cls ∧ t.id = id then
    match t.payload with
    | .P v => some v
    | .C _ => none
  else
    none

/-- The children of a constructed element with the given tag. -/
def elements (cls : TagClass) (id : UInt64) (t : StructureTag) : Option (List StructureTag) :=
  if t.cls = cls ∧ t.id = id then
    match t.payload with
    | .P _ => none
    | .C ts => some ts
  else
    none

/-- OCTET STRING. -/
def octetString (t : StructureTag) : Option (List UInt8) :=
  octets .universal 4 t

/-- SEQUENCE and SEQUENCE OF. -/
def sequence (t : StructureTag) : Option (List StructureTag) :=
  elements .universal 16 t

/-- An INTEGER or ENUMERATED with the given tag, between 0 and `max`. -/
def number (cls : TagClass) (id : UInt64) (max : ℤ) (t : StructureTag) : Option ℤ := do
  let v ← octets cls id t
  let n := BigEndian.signed v
  if BigEndian.Minimal v ∧ 0 ≤ n ∧ n ≤ max then some n else none

/-- `maxInt`. -/
def maxInt : ℤ := 2 ^ 31 - 1

/-- Of the octets of a true Boolean only FF is allowed. -/
def boolean (t : StructureTag) : Option Bool := do
  let v ← octets .universal 1 t
  if v = [0x00] then some false else if v = [0xFF] then some true else none

/-! ### Filters -/

def isOctetString (t : StructureTag) : Bool :=
  (octetString t).isSome

/-- `AttributeValueAssertion`, without its tag. -/
def isAssertion : List StructureTag → Bool
  | [attr, value] => isOctetString attr && isOctetString value
  | _ => false

/-- `SubstringFilter`, without its tag. -/
def isSubstrings : List StructureTag → Bool
  | [attr, subs] =>
    isOctetString attr && match sequence subs with
      | some subs => !subs.isEmpty && subs.all fun sub ↦
        (octets .context sub.id sub).isSome && sub.id ≤ 2
      | none => false
  | _ => false

/-- `MatchingRuleAssertion`, without its tag: a value, and before it a rule or a type or both. -/
def isMatchingRule (ts : List StructureTag) : Bool :=
  ts.all (fun t ↦ (octets .context t.id t).isSome) &&
    ts.map (·.id) ∈ [[1, 3], [2, 3], [1, 2, 3], [1, 3, 4], [2, 3, 4], [1, 2, 3, 4]]

mutual

/-- The tree of a filter. -/
def isFilter : StructureTag → Bool
  | ⟨cls, id, .P _⟩ => cls = .context && id = 7
  | ⟨cls, id, .C ts⟩ => cls = .context &&
      if id = 0 ∨ id = 1 then areFilters ts
      else if id = 2 then ts.length = 1 && areFilters ts
      else if id = 3 ∨ id = 5 ∨ id = 6 ∨ id = 8 then isAssertion ts
      else if id = 4 then isSubstrings ts
      else id = 9 && isMatchingRule ts

def areFilters : List StructureTag → Bool
  | [] => true
  | t :: ts => isFilter t && areFilters ts

end

/-! ### Operations -/

/-- `AuthenticationChoice`, by the tag number. -/
def authentication (t : StructureTag) : Option Authentication :=
  if t.id = 0 then
    (octets .context 0 t).map .simple
  else do
    match ← elements .context 3 t with
    | [mechanism] => return .sasl (← octetString mechanism) none
    | [mechanism, credentials] =>
      return .sasl (← octetString mechanism) (some (← octetString credentials))
    | _ => none

/-- `BindRequest`: the version is between 1 and 127. -/
def bindRequest (t : StructureTag) : Option Operation := do
  match ← elements .application 0 t with
  | [version, name, auth] =>
    let version ← number .universal 2 127 version
    if 1 ≤ version then
      return .bindRequest version (← octetString name) (← authentication auth)
    else
      none
  | _ => none

/-- `UnbindRequest`, a NULL. -/
def unbindRequest (t : StructureTag) : Option Operation := do
  let v ← octets .application 2 t
  if v = [] then some .unbindRequest else none

def scope (t : StructureTag) : Option Scope := do
  let n ← number .universal 10 2 t
  some (if n = 0 then .base else if n = 1 then .oneLevel else .subtree)

def derefAliases (t : StructureTag) : Option DerefAliases := do
  let n ← number .universal 10 3 t
  some (if n = 0 then .never else if n = 1 then .searching
    else if n = 2 then .finding else .always)

/-- The filter is kept as a tree, once it is one. -/
def filter (t : StructureTag) : Option StructureTag :=
  if isFilter t then some t else none

/-- `SearchRequest`, with all of its eight components. -/
def searchRequest (t : StructureTag) : Option Operation := do
  match ← elements .application 3 t with
  | [base, scope', deref, sizeLimit, timeLimit, typesOnly, filter', attributes] =>
    return .searchRequest (← octetString base) (← scope scope') (← derefAliases deref)
      (← number .universal 2 maxInt sizeLimit) (← number .universal 2 maxInt timeLimit)
      (← boolean typesOnly) (← filter filter') (← (← sequence attributes).mapM octetString)
  | _ => none

/-- `PartialAttribute`: the values are a set. -/
def partialAttribute (t : StructureTag) : Option PartialAttribute := do
  match ← sequence t with
  | [type, vals] =>
    return (← octetString type, (← (← elements .universal 17 vals).mapM octetString).toFinset)
  | _ => none

/-- The operation of a change, with `increment` as an extension. -/
def modKind (t : StructureTag) : Option ModKind := do
  let n ← number .universal 10 3 t
  some (if n = 0 then .add else if n = 1 then .delete else if n = 2 then .replace else .increment)

def change (t : StructureTag) : Option (ModKind × PartialAttribute) := do
  match ← sequence t with
  | [operation, modification] =>
    return (← modKind operation, ← partialAttribute modification)
  | _ => none

/-- `ModifyRequest`: the changes are a list, as they are made one after another. -/
def modifyRequest (t : StructureTag) : Option Operation := do
  match ← elements .application 6 t with
  | [object, changes] =>
    return .modifyRequest (← octetString object) (← (← sequence changes).mapM change)
  | _ => none

/-- `Attribute`: a partial attribute that has a value. -/
def valuedAttribute (t : StructureTag) : Option PartialAttribute := do
  let attr ← partialAttribute t
  if attr.2 = ∅ then none else some attr

/-- `AddRequest`: each attribute has a value. -/
def addRequest (t : StructureTag) : Option Operation := do
  match ← elements .application 8 t with
  | [entry, attributes] =>
    return .addRequest (← octetString entry) (← (← sequence attributes).mapM valuedAttribute)
  | _ => none

def delRequest (t : StructureTag) : Option Operation :=
  (octets .application 10 t).map .delRequest

/-- `ModifyDNRequest`: the new superior may be absent. -/
def modDNRequest (t : StructureTag) : Option Operation := do
  match ← elements .application 12 t with
  | [entry, newrdn, deleteoldrdn] =>
    return .modDNRequest (← octetString entry) (← octetString newrdn) (← boolean deleteoldrdn) none
  | [entry, newrdn, deleteoldrdn, newSuperior] =>
    return .modDNRequest (← octetString entry) (← octetString newrdn) (← boolean deleteoldrdn)
      (some (← octets .context 0 newSuperior))
  | _ => none

/-- `CompareRequest`. -/
def compareRequest (t : StructureTag) : Option Operation := do
  match ← elements .application 14 t with
  | [entry, ava] =>
    match ← sequence ava with
    | [attributeDesc, assertionValue] =>
      return .compareRequest (← octetString entry) (← octetString attributeDesc)
        (← octetString assertionValue)
    | _ => none
  | _ => none

def abandonRequest (t : StructureTag) : Option Operation :=
  (number .application 16 maxInt t).map .abandonRequest

/-- `ExtendedRequest`: the value may be absent. -/
def extendedRequest (t : StructureTag) : Option Operation := do
  match ← elements .application 23 t with
  | [requestName] => return .extendedRequest (← octets .context 0 requestName) none
  | [requestName, requestValue] =>
    return .extendedRequest (← octets .context 0 requestName)
      (some (← octets .context 1 requestValue))
  | _ => none

/-- The CHOICE of the protocol operation goes by the tag number. -/
def operation (t : StructureTag) : Option Operation :=
  if t.id = 0 then bindRequest t
  else if t.id = 2 then unbindRequest t
  else if t.id = 3 then searchRequest t
  else if t.id = 6 then modifyRequest t
  else if t.id = 8 then addRequest t
  else if t.id = 10 then delRequest t
  else if t.id = 12 then modDNRequest t
  else if t.id = 14 then compareRequest t
  else if t.id = 16 then abandonRequest t
  else if t.id = 23 then extendedRequest t
  else none

/-! ### Messages -/

/-- A criticality that is there has to be true, since false is the default. -/
def control (t : StructureTag) : Option RequestControl := do
  match ← sequence t with
  | [type] => return ⟨← octetString type, false, none⟩
  | [type, x] =>
    if x.id = 1 then
      if ← boolean x then return ⟨← octetString type, true, none⟩ else none
    else
      return ⟨← octetString type, false, some (← octetString x)⟩
  | [type, criticality, value] =>
    if ← boolean criticality then
      return ⟨← octetString type, true, some (← octetString value)⟩
    else
      none
  | _ => none

/-- `LDAPMessage` of a client: the controls may be absent. -/
def message (t : StructureTag) : Option LdapRequest := do
  match ← sequence t with
  | [messageId, protocolOp] =>
    return ⟨← number .universal 2 maxInt messageId, ← operation protocolOp, none⟩
  | [messageId, protocolOp, controls] =>
    return ⟨← number .universal 2 maxInt messageId, ← operation protocolOp,
      some (← (← elements .context 0 controls).mapM control)⟩
  | _ => none

/-- **What octets mean**: they encode a tree that is read as the request. -/
def Reads (w : List UInt8) (m : LdapRequest) : Prop :=
  ∃ t, Ber t w ∧ message t = some m

end Grammar

end Ldap3
