import Ldap3.Filter.Parse
import Ldap3.Result

/-!
# Requests

The requests of the operations of `src/ldap.rs`, and that of a Search, which `start_inner` of
`src/search.rs` builds. Each operation makes a tag tree of its arguments and hands it to
`op_call`. The trees are the definitions in the namespace `Request`, with the checks that come
before `op_call`; what `op_call` does with a tree is not part of this module.

`Call` has one constructor for each operation, with its arguments. The attribute values of `add`
and `modify` may be of any type that can be seen as octets.
-/

namespace Ldap3

/-! ### Errors -/

/-- `LdapError`, as far as the modelled operations return its variants. -/
inductive LdapError where
  | opSend
  | resultRecv
  | idScrubSend
  | timeout
  | filterParsing
  | endOfStream
  | addNoValues
  | adapterInit (msg : String)
  | decodingUTF8
  | invalidScopeString (any : String)
  | unrecognizedCriticalExtension (ext : String)
  | gssapiOperation (msg : String)
  | noGssapiToken
  deriving DecidableEq

/-- How a call fails: it returns an error, or it panics. -/
inductive Failure where
  | err (e : LdapError)
  | panic
  deriving DecidableEq

/-! ### Arguments -/

/-- `AsRef<[u8]>`. -/
class AsRef (S : Type) where
  asRef : S → List UInt8

instance : AsRef (List UInt8) where
  asRef v := v

instance : AsRef String where
  asRef := asBytes

/-- `HashSet`: its values, in the order in which it happens to be iterated. -/
structure HashSet (S : Type) where
  elems : List S
  nodup : elems.Nodup

/-- `HashSet::from([val])`. -/
def HashSet.singleton {S : Type} (val : S) : HashSet S :=
  ⟨[val], List.nodup_singleton val⟩

/-- `HashSet::is_empty`. -/
def HashSet.isEmpty {S : Type} (set : HashSet S) : Bool :=
  set.elems.isEmpty

/-- `Mod`. -/
inductive Mod (S : Type) where
  | add (attr : S) (set : HashSet S)
  | delete (attr : S) (set : HashSet S)
  | replace (attr : S) (set : HashSet S)
  | increment (attr : S) (val : S)

/-- `Scope`. -/
inductive Scope where
  | base
  | oneLevel
  | subtree
  deriving DecidableEq

/-- `scope as i64`. -/
def Scope.toInt : Scope → ℤ
  | base => 0
  | oneLevel => 1
  | subtree => 2

/-- `DerefAliases`. -/
inductive DerefAliases where
  | never
  | searching
  | finding
  | always
  deriving DecidableEq

/-- `opts.deref as i64`. -/
def DerefAliases.toInt : DerefAliases → ℤ
  | never => 0
  | searching => 1
  | finding => 2
  | always => 3

/-- `SearchOptions`, with the values of its `Default`. The limits are `i32`. -/
structure SearchOptions where
  deref : DerefAliases := .never
  typesonly : Bool := false
  timelimit : ℤ := 0
  sizelimit : ℤ := 0
  deriving DecidableEq

/-! ### Requests -/

namespace Request

/-- The tree `simple_bind` builds. -/
def simpleBind (bindDn bindPw : String) : Tag :=
  .sequence 0 .application
    [.ofInteger 3, .ofOctetString (asBytes bindDn), .octetString 0 .context (asBytes bindPw)]

/-- `sasl_bind_req`. -/
def saslBindReq (mech : String) (creds : Option (List UInt8)) : Tag :=
  let innerVec := [Tag.ofOctetString (asBytes mech)]
  let innerVec := match creds with
    | some creds => innerVec ++ [.ofOctetString creds]
    | none => innerVec
  .sequence 0 .application [.ofInteger 3, .ofOctetString [], .sequence 3 .context innerVec]

/-- The tree `start_inner` builds, and the error if the filter cannot be parsed. -/
def search (opts : SearchOptions) (base : String) (scope : Scope) (filter : String)
    (attrs : List String) : Except Failure Tag :=
  match FilterParser.parse (asBytes filter) with
  | .ok filter =>
    .ok (.sequence 3 .application
      [.ofOctetString (asBytes base), .ofEnumerated scope.toInt, .ofEnumerated opts.deref.toInt,
        .ofInteger opts.sizelimit, .ofInteger opts.timelimit, .ofBoolean opts.typesonly, filter,
        .ofSequence (attrs.map fun s ↦ .ofOctetString (asBytes s))])
  | .error _ => .error (.err .filterParsing)

section Values

variable {S : Type} [AsRef S]

/-- An attribute with its values, as `add` and `modify` write it. -/
def partAttr (attr : S) (set : HashSet S) : Tag :=
  .ofSequence [.ofOctetString (AsRef.asRef attr),
    .ofSet (set.elems.map fun v ↦ .ofOctetString (AsRef.asRef v))]

/-- The tree `add` builds, and the error if an attribute has no values. -/
def add (dn : String) (attrs : List (S × HashSet S)) : Except Failure Tag :=
  let anyEmpty := attrs.any fun attr ↦ attr.2.isEmpty
  let req := .sequence 8 .application
    [.ofOctetString (asBytes dn), .ofSequence (attrs.map fun attr ↦ partAttr attr.1 attr.2)]
  if anyEmpty then .error (.err .addNoValues) else .ok req

/-- `(num, attr, set)` of a modification. -/
def modParts : Mod S → ℤ × S × HashSet S
  | .add attr set => (0, attr, set)
  | .delete attr set => (1, attr, set)
  | .replace attr set => (2, attr, set)
  | .increment attr val => (3, attr, HashSet.singleton val)

/-- A modification that adds no values. -/
def addsNone : Mod S → Bool
  | .add _ set => set.isEmpty
  | _ => false

/-- The element of a modification. -/
def modTag (m : Mod S) : Tag :=
  let (num, attr, set) := modParts m
  .ofSequence [.ofEnumerated num, partAttr attr set]

/-- The tree `modify` builds, and the error if a modification adds no values. -/
def modify (dn : String) (mods : List (Mod S)) : Except Failure Tag :=
  let anyAddEmpty := mods.any addsNone
  let req := .sequence 6 .application
    [.ofOctetString (asBytes dn), .ofSequence (mods.map modTag)]
  if anyAddEmpty then .error (.err .addNoValues) else .ok req

end Values

/-- The tree `compare` builds. -/
def compare (dn attr : String) (val : List UInt8) : Tag :=
  .sequence 14 .application
    [.ofOctetString (asBytes dn),
      .ofSequence [.ofOctetString (asBytes attr), .ofOctetString val]]

/-- The tree `delete` builds. -/
def delete (dn : String) : Tag :=
  .octetString 10 .application (asBytes dn)

/-- The tree `modifydn` builds. -/
def modifydn (dn rdn : String) (deleteOld : Bool) (newSup : Option String) : Tag :=
  let params := [Tag.ofOctetString (asBytes dn), .ofOctetString (asBytes rdn),
    .ofBoolean deleteOld]
  let params := match newSup with
    | some newSup => params ++ [.octetString 0 .context (asBytes newSup)]
    | none => params
  .sequence 12 .application params

/-- `construct_exop`, which asserts that there is a name. -/
def constructExop (exop : Exop) : Except Failure (List Tag) :=
  match exop.name with
  | none => .error .panic
  | some name =>
    let seq := [Tag.octetString 0 .context (asBytes name)]
    .ok (match exop.val with
      | some val => seq ++ [.octetString 1 .context val]
      | none => seq)

/-- The tree `extended` builds. -/
def extended (exop : Exop) : Except Failure Tag :=
  (constructExop exop).map (.sequence 23 .application)

/-- The tree `unbind` builds. -/
def unbind : Tag :=
  .null 2 .application

/-- The tree `abandon` builds. -/
def abandon (msgid : RequestId) : Tag :=
  .integer 16 .application msgid

end Request

/-! ### Calls -/

/-- An operation of a handle with its arguments. `saslBind` is an exchange of the SASL binds. -/
inductive Call (S : Type) where
  | simpleBind (bindDn bindPw : String)
  | saslBind (mech : String) (creds : Option (List UInt8))
  | search (base : String) (scope : Scope) (filter : String) (attrs : List String)
  | add (dn : String) (attrs : List (S × HashSet S))
  | compare (dn attr : String) (val : List UInt8)
  | delete (dn : String)
  | modify (dn : String) (mods : List (Mod S))
  | modifydn (dn rdn : String) (deleteOld : Bool) (newSup : Option String)
  | extended (exop : Exop)
  | unbind
  | abandon (msgid : RequestId)

namespace Call

variable {S : Type}

/-- `sasl_external_bind`. -/
def saslExternalBind : Call S :=
  .saslBind "EXTERNAL" (some [])

/-- The request of a call, or the failure that comes before one is sent. Only a Search looks at
the search options. -/
def request [AsRef S] (opts : SearchOptions) : Call S → Except Failure Tag
  | simpleBind bindDn bindPw => .ok (Request.simpleBind bindDn bindPw)
  | saslBind mech creds => .ok (Request.saslBindReq mech creds)
  | search base scope filter attrs => Request.search opts base scope filter attrs
  | add dn attrs => Request.add dn attrs
  | compare dn attr val => .ok (Request.compare dn attr val)
  | delete dn => .ok (Request.delete dn)
  | modify dn mods => Request.modify dn mods
  | modifydn dn rdn deleteOld newSup => .ok (Request.modifydn dn rdn deleteOld newSup)
  | extended exop => Request.extended exop
  | unbind => .ok Request.unbind
  | abandon msgid => .ok (Request.abandon msgid)

end Call

end Ldap3
