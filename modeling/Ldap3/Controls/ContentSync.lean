import Ldap3.Ldap.Response

/-!
# Content synchronization

The decoders of `src/controls_impl/content_sync.rs`: the Sync State and Sync Done controls and the
Sync Info message, whose four variants are read by one loop with a pass counter.

Each of the values has fields that may be missing. A cookie is there or not, a Boolean is written
out or left to its default, and an encoder is free to choose for every Boolean, so a value has
several trees (`IsTag`), and each of them several encodings. All of them are read as the value
(`contentSync_read`). What advances a loop over an optional field is stated for each of the fields
(`syncComponents_cookie`, `syncComponents_flag`).
-/

namespace Ldap3

def SYNC_INFO_OID : String := "1.3.6.1.4.1.4203.1.9.1.4"

/-- `v[0] != 0`. -/
def firstOctet (v : List UInt8) : Except Fault Bool :=
  match v with
  | [] => .error (.panic "index out of bounds")
  | b :: _ => .ok (b ≠ 0)

/-! ### Sync State -/

/-- `EntryState`. -/
inductive EntryState where
  | present
  | add
  | modify
  | delete
  deriving DecidableEq

/-- `SyncState`. -/
structure SyncState where
  state : EntryState
  entryUuid : List UInt8
  cookie : Option (List UInt8)
  deriving DecidableEq

/-- The `match` on the number of a state. -/
def EntryState.ofNumber (n : UInt64) : Except Fault EntryState :=
  if n = 0 then .ok .present
  else if n = 1 then .ok .add
  else if n = 2 then .ok .modify
  else if n = 3 then .ok .delete
  else .error (.panic "syncstate: unknown state")

/-- `SyncState::parse`. -/
def SyncState.parse (val : List UInt8) : Except Fault SyncState := do
  match parseTag val with
  | .error _ => throw (.panic "syncstate: failed to parse tag")
  | .ok (_, tag) =>
    let tags ← expect tag.expectConstructed "syncstate: elements"
    let stateTag ← expect tags.head? "syncstate: element 1"
    let v ← expect
      (stateTag.matchClass .universal >>= (·.matchId Types.enumerated) >>= (·.expectPrimitive))
      "syncstate: state"
    let state ← EntryState.ofNumber (parseUint v)
    let uuidTag ← expect tags.tail.head? "syncstate: element 2"
    let entryUuid ← expect uuidTag.expectPrimitive "syncstate: entryUUID"
    let cookie ← tags.tail.tail.head?.mapM fun tag ↦
      expect tag.expectPrimitive "syncstate: synCookie"
    return ⟨state, entryUuid, cookie⟩

/-! ### Sync Done -/

/-- `SyncDone`. -/
structure SyncDone where
  cookie : Option (List UInt8)
  refreshDeletes : Bool
  deriving DecidableEq

/-- The body of the loop of `SyncDone::parse`. -/
def SyncDone.addTag (d : SyncDone) (tag : StructureTag) : Except Fault SyncDone :=
  if tag.id = Types.octetString then
    match tag.payload with
    | .P v => .ok { d with cookie := some v }
    | .C _ => .error (.panic "syncdone: constructed octet string?")
  else if tag.id = Types.boolean then
    match tag.payload with
    | .P v => do return { d with refreshDeletes := ← firstOctet v }
    | .C _ => .error (.panic "syncdone: constructed boolean?")
  else
    .error (.panic "syncdone: unrecognized component")

/-- `SyncDone::parse`. -/
def SyncDone.parse (val : List UInt8) : Except Fault SyncDone := do
  match parseTag val with
  | .error _ => throw (.panic "syncdone: failed to parse tag")
  | .ok (_, tag) =>
    let tags ← expect tag.expectConstructed "syncdone: elements"
    tags.foldlM addTag ⟨none, false⟩

/-! ### Sync Info -/

/-- `SyncInfo`. -/
inductive SyncInfo where
  | newCookie (cookie : List UInt8)
  | refreshDelete (cookie : Option (List UInt8)) (refreshDone : Bool)
  | refreshPresent (cookie : Option (List UInt8)) (refreshDone : Bool)
  | syncIdSet (cookie : Option (List UInt8)) (refreshDeletes : Bool)
    (syncUuids : Finset (List UInt8))
  deriving DecidableEq

/-- What the loop over the components collects. -/
structure SyncComponents where
  syncCookie : Option (List UInt8)
  flag : Bool
  uuids : Finset (List UInt8)

/-- The body of the loop `'it`. -/
def syncComponent (pass : ℕ) (c : SyncComponents) (comp : StructureTag) :
    Except Fault SyncComponents := do
  if comp.cls = .universal ∧ comp.id = Types.octetString ∧ pass ≤ 1 then
    return { c with syncCookie := comp.expectPrimitive }
  else if comp.cls = .universal ∧ comp.id = Types.boolean ∧ pass ≤ 2 then
    let v ← expect comp.expectPrimitive "octet string"
    let flag ← firstOctet v
    return { c with flag := flag }
  else if comp.cls = .universal ∧ comp.id = Types.set ∧ pass ≤ 3 then
    let us ← expect comp.expectConstructed "uuid set"
    let us ← us.mapM fun u ↦ expect u.expectPrimitive "octet string"
    return { c with uuids := us.toFinset }
  else
    throw (.panic "explicit panic")

/-- The loop `'it`. -/
def syncComponents (pass : ℕ) (c : SyncComponents) :
    List StructureTag → Except Fault SyncComponents
  | [] => return c
  | comp :: comps => do
    let c ← syncComponent pass c comp
    syncComponents (pass + 1) c comps

/-- The `match` on the parsed value. -/
def syncinfoVal (t : StructureTag) : Except Fault SyncInfo := do
  if t.cls = .context ∧ t.id < 4 then
    match t.payload with
    | .P v =>
      if t.id = 0 then return .newCookie v
      else throw (.panic "syncinfo: [1,2,3] not a sequence")
    | .C comps =>
      if t.id = 0 then throw (.panic "syncinfo: [0] not primitive")
      else
        let c ← syncComponents 1 ⟨none, t.id ≠ 3, ∅⟩ comps
        if t.id = 1 then return .refreshDelete c.syncCookie c.flag
        else if t.id = 2 then return .refreshPresent c.syncCookie c.flag
        else return .syncIdSet c.syncCookie c.flag c.uuids
  else
    throw (.panic "syncinfo: got id > 3")

/-- The outer loop of `parse_syncinfo`. -/
def syncinfoTags : List StructureTag → Except Fault SyncInfo
  | [] => throw (.panic "syncinfo: out of tags")
  | tag :: tags => do
    if tag.id = 0 then
      let v ← expect tag.expectPrimitive "octet string"
      let oid ← expect (fromUtf8 v) "intermediate oid"
      if oid ≠ SYNC_INFO_OID then throw (.panic "syncinfo: oid mismatch")
      else syncinfoTags tags
    else if tag.id = 1 then
      let v ← expect tag.expectPrimitive "octet string"
      match parseTag v with
      | .error _ => throw (.panic "syncinfo: error parsing value")
      | .ok (_, t) => syncinfoVal t
    else
      throw (.panic "syncinfo: unrecognized tag")

/-- `parse_syncinfo`. -/
def parseSyncinfo (entry : StructureTag) : Except Fault SyncInfo := do
  let tags ← expect (entry.matchId 25 >>= (·.expectConstructed)) "intermediate seq"
  syncinfoTags tags

/-! ### Values on the wire -/

/-- A BOOLEAN: any octet but zero is true. -/
def booleanTag (b : UInt8) : StructureTag :=
  ⟨.universal, Types.boolean, .P [b]⟩

/-- The element of a Boolean, which is omitted or written out if it is the default. -/
inductive IsFlag (default : Bool) : Bool → List StructureTag → Prop
  | omitted : IsFlag default default []
  | written (b : UInt8) : IsFlag default (b ≠ 0) [booleanTag b]

/-- The element of a cookie, if there is one. -/
def cookieTags (cookie : Option (List UInt8)) : List StructureTag :=
  (cookie.map octetStringTag).toList

def EntryState.number : EntryState → ℕ
  | .present => 0
  | .add => 1
  | .modify => 2
  | .delete => 3

/-- The tree of a Sync State value. -/
def SyncState.IsTag (s : SyncState) (t : StructureTag) : Prop :=
  ∃ v, Response.Denotes v s.state.number ∧ t = ⟨.universal, Types.sequence,
    .C (⟨.universal, Types.enumerated, .P v⟩ :: octetStringTag s.entryUuid ::
      cookieTags s.cookie)⟩

/-- The tree of a Sync Done value. -/
def SyncDone.IsTag (d : SyncDone) (t : StructureTag) : Prop :=
  ∃ flag, IsFlag false d.refreshDeletes flag ∧
    t = ⟨.universal, Types.sequence, .C (cookieTags d.cookie ++ flag)⟩

/-- The tree of a Sync Info value. The set is a list of its elements in any order. -/
inductive SyncInfo.IsTag : SyncInfo → StructureTag → Prop
  | newCookie (cookie : List UInt8) : IsTag (.newCookie cookie) ⟨.context, 0, .P cookie⟩
  | refreshDelete (cookie : Option (List UInt8)) {done : Bool} {flag : List StructureTag}
      (hflag : IsFlag true done flag) :
      IsTag (.refreshDelete cookie done) ⟨.context, 1, .C (cookieTags cookie ++ flag)⟩
  | refreshPresent (cookie : Option (List UInt8)) {done : Bool} {flag : List StructureTag}
      (hflag : IsFlag true done flag) :
      IsTag (.refreshPresent cookie done) ⟨.context, 2, .C (cookieTags cookie ++ flag)⟩
  | syncIdSet (cookie : Option (List UInt8)) {deletes : Bool} {flag : List StructureTag}
      (hflag : IsFlag false deletes flag) (us : List (List UInt8)) :
      IsTag (.syncIdSet cookie deletes us.toFinset) ⟨.context, 3,
        .C (cookieTags cookie ++ flag ++ [⟨.universal, Types.set, .C (us.map octetStringTag)⟩])⟩

/-- The intermediate response with the value, which carries or omits its name. -/
def syncInfoEntry (named : Bool) (val : List UInt8) : StructureTag :=
  ⟨.application, 25, .C ((if named then [⟨.context, 0, .P (asBytes SYNC_INFO_OID)⟩] else []) ++
    [⟨.context, 1, .P val⟩])⟩

/-! ### The controls -/

/-- The number of a state is read as the state. -/
theorem ofNumber_of_denotes {s : EntryState} {v : List UInt8} (h : Response.Denotes v s.number) :
    EntryState.ofNumber (parseUint v) = .ok s := by
  have hlt : s.number < 2 ^ 31 := by cases s <;> decide
  have hnat := Response.parseUint_of_denotes h hlt
  have hread : parseUint v = UInt64.ofNat s.number := by
    rw [← hnat, UInt64.ofNat_toNat]
  rw [hread]
  cases s <;> decide

theorem SyncState.parse_of_isTag {s : SyncState} {t : StructureTag} {w : List UInt8}
    (h : s.IsTag t) (hw : Ber t w) (hlt : w.length < 2 ^ 64) : SyncState.parse w = .ok s := by
  obtain ⟨v, hv, rfl⟩ := h
  have hstate := ofNumber_of_denotes hv
  rw [SyncState.parse, parseTag_of_ber_nil hw hlt]
  rcases s with ⟨state, entryUuid, - | cookie⟩ <;>
    simp [cookieTags, octetStringTag, StructureTag.matchClass, StructureTag.matchId, hstate, bind,
      Except.bind, pure, Except.pure, Functor.map, Except.map]

theorem SyncDone.parse_of_isTag {d : SyncDone} {t : StructureTag} {w : List UInt8}
    (h : d.IsTag t) (hw : Ber t w) (hlt : w.length < 2 ^ 64) : SyncDone.parse w = .ok d := by
  obtain ⟨flag, hflag, rfl⟩ := h
  rw [SyncDone.parse, parseTag_of_ber_nil hw hlt]
  rcases d with ⟨cookie, deletes⟩
  have hcookie : (cookieTags cookie).foldlM addTag ⟨none, false⟩ =
      Except.ok (⟨cookie, false⟩ : SyncDone) := by
    rcases cookie with - | cookie <;> rfl
  have hfold : flag.foldlM addTag ⟨cookie, false⟩ = Except.ok (⟨cookie, deletes⟩ : SyncDone) := by
    cases hflag with
    | omitted => rfl
    | written b => rfl
  change (cookieTags cookie ++ flag).foldlM addTag ⟨none, false⟩ = _
  rw [List.foldlM_append, hcookie]
  exact hfold

/-! ### The message -/

/-- The loop goes on behind an optional cookie. -/
theorem syncComponents_cookie (cookie : Option (List UInt8)) (flag : Bool)
    (comps : List StructureTag) :
    ∃ pass ≤ 2, syncComponents 1 ⟨none, flag, ∅⟩ (cookieTags cookie ++ comps) =
      syncComponents pass ⟨cookie, flag, ∅⟩ comps := by
  rcases cookie with - | cookie
  · exact ⟨1, by decide, rfl⟩
  · exact ⟨2, by decide, rfl⟩

/-- The loop goes on behind an optional Boolean. -/
theorem syncComponents_flag {pass : ℕ} {default b : Bool} {flag : List StructureTag}
    (hpass : pass ≤ 2) (h : IsFlag default b flag) (cookie : Option (List UInt8))
    (comps : List StructureTag) :
    ∃ pass' ≤ 3, syncComponents pass ⟨cookie, default, ∅⟩ (flag ++ comps) =
      syncComponents pass' ⟨cookie, b, ∅⟩ comps := by
  cases h with
  | omitted => exact ⟨pass, by omega, rfl⟩
  | written b =>
    have hne : Types.boolean ≠ Types.octetString := by decide
    have hround : syncComponent pass ⟨cookie, default, ∅⟩ (booleanTag b) =
        .ok ⟨cookie, b ≠ 0, ∅⟩ := by
      rw [syncComponent, if_neg fun h ↦ hne h.2.1, if_pos ⟨rfl, rfl, hpass⟩]
      rfl
    refine ⟨pass + 1, by omega, ?_⟩
    rw [List.singleton_append, syncComponents, hround]
    rfl

/-- The set is taken up to the third pass. -/
theorem syncComponents_set {pass : ℕ} (hpass : pass ≤ 3) (c : SyncComponents)
    (us : List (List UInt8)) :
    syncComponents pass c [⟨.universal, Types.set, .C (us.map octetStringTag)⟩] =
      .ok { c with uuids := us.toFinset } := by
  have hoct : Types.set ≠ Types.octetString := by decide
  have hbool : Types.set ≠ Types.boolean := by decide
  have hround : syncComponent pass c ⟨.universal, Types.set, .C (us.map octetStringTag)⟩ =
      .ok { c with uuids := us.toFinset } := by
    rw [syncComponent, if_neg fun h ↦ hoct h.2.1, if_neg fun h ↦ hbool h.2.1,
      if_pos ⟨rfl, rfl, hpass⟩, StructureTag.expectConstructed_C, expect_some]
    change (us.map octetStringTag).mapM (fun t ↦ expect t.expectPrimitive "octet string") >>= _ = _
    rw [mapM_octetStringTag]
    rfl
  rw [syncComponents, hround]
  rfl

/-- The components up to the set. -/
theorem syncComponents_of_isFlag {default b : Bool} {flag : List StructureTag}
    (h : IsFlag default b flag) (cookie : Option (List UInt8)) (comps : List StructureTag) :
    ∃ pass ≤ 3, syncComponents 1 ⟨none, default, ∅⟩ (cookieTags cookie ++ flag ++ comps) =
      syncComponents pass ⟨cookie, b, ∅⟩ comps := by
  obtain ⟨pass, hpass, hcookie⟩ := syncComponents_cookie cookie default (flag ++ comps)
  obtain ⟨pass', hpass', hflag⟩ := syncComponents_flag hpass h cookie comps
  exact ⟨pass', hpass', by rw [List.append_assoc, hcookie, hflag]⟩

theorem syncinfoVal_of_isTag {info : SyncInfo} {t : StructureTag} (h : info.IsTag t) :
    syncinfoVal t = .ok info := by
  cases h with
  | newCookie cookie => rfl
  | @refreshDelete cookie done flag hflag =>
    obtain ⟨pass, -, hloop⟩ := syncComponents_of_isFlag hflag cookie []
    rw [List.append_nil] at hloop
    change syncComponents 1 ⟨none, true, ∅⟩ (cookieTags cookie ++ flag) >>= _ = _
    rw [hloop]
    rfl
  | @refreshPresent cookie done flag hflag =>
    obtain ⟨pass, -, hloop⟩ := syncComponents_of_isFlag hflag cookie []
    rw [List.append_nil] at hloop
    change syncComponents 1 ⟨none, true, ∅⟩ (cookieTags cookie ++ flag) >>= _ = _
    rw [hloop]
    rfl
  | @syncIdSet cookie deletes flag hflag us =>
    obtain ⟨pass, hpass, hloop⟩ := syncComponents_of_isFlag hflag cookie
      [⟨.universal, Types.set, .C (us.map octetStringTag)⟩]
    change syncComponents 1 ⟨none, false, ∅⟩ (cookieTags cookie ++ flag ++ _) >>= _ = _
    rw [hloop, syncComponents_set hpass]
    rfl

theorem parseSyncinfo_of_isTag {info : SyncInfo} {t : StructureTag} {w : List UInt8}
    (h : info.IsTag t) (hw : Ber t w) (hlt : w.length < 2 ^ 64) (named : Bool) :
    parseSyncinfo (syncInfoEntry named w) = .ok info := by
  have hne : (1 : UInt64) ≠ 0 := by decide
  have hval : syncinfoTags [⟨.context, 1, .P w⟩] = .ok info := by
    rw [syncinfoTags, if_neg hne, if_pos rfl, StructureTag.expectPrimitive_P, expect_some]
    simp only [bind, Except.bind, parseTag_of_ber_nil hw hlt]
    exact syncinfoVal_of_isTag h
  rcases named with - | -
  · exact hval
  · have hname : fromUtf8 (asBytes SYNC_INFO_OID) = some SYNC_INFO_OID := fromUtf8_asBytes _
    change syncinfoTags [⟨.context, 0, .P (asBytes SYNC_INFO_OID)⟩, ⟨.context, 1, .P w⟩] = _
    rw [syncinfoTags, if_pos rfl, StructureTag.expectPrimitive_P, expect_some]
    simp only [bind, Except.bind, hname, expect_some, ne_eq, not_true, if_false]
    exact hval

/-- **The content synchronization values** are read as they are, whatever an encoder does about the
Booleans, the name of the message, the order of the set and the lengths. -/
theorem contentSync_read :
    (∀ info t w named, SyncInfo.IsTag info t → Ber t w → w.length < 2 ^ 64 →
        parseSyncinfo (syncInfoEntry named w) = .ok info) ∧
      (∀ s t w, SyncState.IsTag s t → Ber t w → w.length < 2 ^ 64 → SyncState.parse w = .ok s) ∧
      ∀ d t w, SyncDone.IsTag d t → Ber t w → w.length < 2 ^ 64 → SyncDone.parse w = .ok d :=
  ⟨fun _ _ _ named h hw hlt ↦ parseSyncinfo_of_isTag h hw hlt named,
    fun _ _ _ h hw hlt ↦ SyncState.parse_of_isTag h hw hlt,
    fun _ _ _ h hw hlt ↦ SyncDone.parse_of_isTag h hw hlt⟩

/-- A set of one element with its default written out, a modified entry, and the end of a refresh
with nothing said about it. -/
theorem contentSync_read_some :
    parseSyncinfo (syncInfoEntry true [0xA3, 0x08, 0x01, 0x01, 0x00, 0x31, 0x03, 0x04, 0x01, 7]) =
        .ok (.syncIdSet none false {[7]}) ∧
      SyncState.parse [0x30, 0x06, 0x0A, 0x01, 0x02, 0x04, 0x01, 7] = .ok ⟨.modify, [7], none⟩ ∧
      SyncDone.parse [0x30, 0x00] = .ok ⟨none, false⟩ := by
  have hoct : Ber (octetStringTag [7]) [0x04, 0x01, 7] := ⟨by decide, _, .short (by decide), rfl⟩
  have hbool : Ber (booleanTag 0) [0x01, 0x01, 0x00] := ⟨by decide, _, .short (by decide), rfl⟩
  have hset : Ber ⟨.universal, Types.set, .C [octetStringTag [7]]⟩ [0x31, 0x03, 0x04, 0x01, 7] :=
    ⟨by decide, _, _, ⟨_, [], hoct, rfl, rfl⟩, .short (by decide), rfl⟩
  have hstate : Ber ⟨.universal, Types.enumerated, .P [2]⟩ [0x0A, 0x01, 0x02] :=
    ⟨by decide, _, .short (by decide), rfl⟩
  refine ⟨?_, ?_, ?_⟩
  · refine contentSync_read.1 _ _ _ true (.syncIdSet none (.written 0) [[7]]) ?_ (by decide)
    exact ⟨by decide, _, _, ⟨_, _, hbool, ⟨_, [], hset, rfl, rfl⟩, rfl⟩, .short (by decide), rfl⟩
  · refine contentSync_read.2.1 _ _ _ ⟨[2], ⟨by decide, by decide⟩, rfl⟩ ?_ (by decide)
    exact ⟨by decide, _, _, ⟨_, _, hstate, ⟨_, [], hoct, rfl, rfl⟩, rfl⟩, .short (by decide), rfl⟩
  · refine contentSync_read.2.2 _ _ _ ⟨[], .omitted, rfl⟩ ?_ (by decide)
    exact ⟨by decide, _, _, rfl, .short (by decide), rfl⟩

end Ldap3
