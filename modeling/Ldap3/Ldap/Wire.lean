import Ldap3.Filter.Sound
import Ldap3.Ldap.Grammar

/-!
# Requests on the wire

What the octets of a request say is what the operation was called with.

`Call.operation` is the abstract request of a call. For each operation there is a lemma that the
strict reader of `Grammar` takes the tree the operation builds for that request, and the trees use
low tag numbers only, so the octets of `encode` are an encoding of the tree. A tree is determined
by any encoding of it, and the reader is a function, so nothing else can be read from the octets.
-/

namespace Ldap3

open Grammar

/-! ### What a call asks for -/

namespace Call

variable {S : Type} [AsRef S]

/-- The values as a set. -/
def valueSet (set : HashSet S) : Finset (List UInt8) :=
  (set.elems.map AsRef.asRef).toFinset

/-- A modification as an abstract one. -/
def change : Mod S → ModKind × PartialAttribute
  | .add attr set => (.add, AsRef.asRef attr, valueSet set)
  | .delete attr set => (.delete, AsRef.asRef attr, valueSet set)
  | .replace attr set => (.replace, AsRef.asRef attr, valueSet set)
  | .increment attr val => (.increment, AsRef.asRef attr, {AsRef.asRef val})

/-- **The abstract request of a call**, if it has one: a filter has to be one, and an extended
operation has a name. -/
def operation (opts : SearchOptions) : Call S → Option Operation
  | simpleBind bindDn bindPw =>
    some (.bindRequest 3 (asBytes bindDn) (.simple (asBytes bindPw)))
  | saslBind mech creds => some (.bindRequest 3 [] (.sasl (asBytes mech) creds))
  | search base scope filter attrs =>
    (FilterParser.parse (asBytes filter)).toOption.map fun filter ↦
      .searchRequest (asBytes base) scope opts.deref opts.sizelimit opts.timelimit opts.typesonly
        filter.intoStructure (attrs.map asBytes)
  | add dn attrs =>
    some (.addRequest (asBytes dn) (attrs.map fun attr ↦ (AsRef.asRef attr.1, valueSet attr.2)))
  | compare dn attr val => some (.compareRequest (asBytes dn) (asBytes attr) val)
  | delete dn => some (.delRequest (asBytes dn))
  | modify dn mods => some (.modifyRequest (asBytes dn) (mods.map change))
  | modifydn dn rdn deleteOld newSup =>
    some (.modDNRequest (asBytes dn) (asBytes rdn) deleteOld (newSup.map asBytes))
  | extended exop => exop.name.map fun name ↦ .extendedRequest (asBytes name) exop.val
  | unbind => some .unbindRequest
  | abandon msgid => some (.abandonRequest msgid)

/-- The numbers among the arguments are in the range the protocol has for them. -/
def InRange (opts : SearchOptions) : Call S → Prop
  | search _ _ _ _ => (0 ≤ opts.sizelimit ∧ opts.sizelimit < 2 ^ 31) ∧
      0 ≤ opts.timelimit ∧ opts.timelimit < 2 ^ 31
  | abandon msgid => 0 ≤ msgid ∧ msgid < 2 ^ 31
  | _ => True

end Call

/-- A raw control as an abstract one. -/
def RawControl.request (rc : RawControl) : RequestControl :=
  ⟨asBytes rc.ctype, rc.crit, rc.val⟩

/-! ### Readers on the trees of the client -/

namespace Grammar

/-- An octet string is read as its octets, whatever its tag. -/
@[simp] theorem octets_intoStructure (cls : TagClass) (id : UInt64) (v : List UInt8) :
    octets cls id (Tag.octetString id cls v).intoStructure = some v := by
  simp [octets, Tag.intoStructure]

@[simp] theorem octetString_intoStructure (v : List UInt8) :
    octetString (Tag.ofOctetString v).intoStructure = some v :=
  octets_intoStructure .universal 4 v

/-- A sequence is read as its elements. -/
@[simp] theorem elements_sequence (cls : TagClass) (id : UInt64) (ts : List Tag) :
    elements cls id (Tag.sequence id cls ts).intoStructure =
      some (ts.map Tag.intoStructure) := by
  simp [elements, Tag.intoStructure, Tag.intoStructures_eq_map]

@[simp] theorem elements_ofSet (ts : List Tag) :
    elements .universal 17 (Tag.ofSet ts).intoStructure = some (ts.map Tag.intoStructure) := by
  simp [elements, Tag.ofSet, Tag.intoStructure, Tag.intoStructures_eq_map, Types.set]

@[simp] theorem sequence_intoStructure (ts : List Tag) :
    sequence (Tag.ofSequence ts).intoStructure = some (ts.map Tag.intoStructure) :=
  elements_sequence .universal 16 ts

/-- A number in the range is read back: the octets that are written are the minimal ones. -/
theorem number_iEIntoStructure {cls : TagClass} {id : UInt64} {max n : ℤ} (h0 : 0 ≤ n)
    (hmax : n ≤ max) (hlt : max < 2 ^ 31) :
    number cls id max (iEIntoStructure id cls n) = some n := by
  obtain ⟨k, rfl⟩ := Int.eq_ofNat_of_zero_le h0
  obtain ⟨hsigned, hmin⟩ := integerOctets_natCast (n := k) (by omega)
  have hpos : (0 : ℤ) ≤ k := h0
  simp [number, octets, iEIntoStructure, hsigned, hmin, hmax, hpos]

/-- A Boolean is written as the grammar has it, with FF for true. -/
@[simp] theorem boolean_intoStructure (b : Bool) :
    boolean (Tag.ofBoolean b).intoStructure = some b := by
  cases b <;> simp [boolean, octets, Tag.ofBoolean, Tag.intoStructure, Types.boolean]

/-- A list is read element by element. -/
theorem mapM_intoStructure {α β : Type} {read : StructureTag → Option β} {write : α → Tag}
    {f : α → β} {as : List α} (h : ∀ a ∈ as, read (write a).intoStructure = some (f a)) :
    ((as.map write).map Tag.intoStructure).mapM read = some (as.map f) := by
  induction as with
  | nil => rfl
  | cons a as ih =>
    rw [List.forall_mem_cons] at h
    rw [List.map_cons, List.map_cons, List.mapM_cons, h.1, ih h.2]
    rfl

/-! ### Filters -/

theorem isOctetString_intoStructure (v : List UInt8) :
    isOctetString (Tag.ofOctetString v).intoStructure := by
  simp [isOctetString]

/-- The pieces of a substring assertion are in order: the initial one, those between, the final one.
-/
theorem isSubstrings_tags (attr : AttributeDescription) (sub : Substrings) :
    isSubstrings [(Tag.ofOctetString attr.1).intoStructure,
      (Tag.ofSequence sub.tags).intoStructure] := by
  have hsub : ∀ (id : UInt64) (v : List UInt8), id ≤ 2 →
      (octets .context (substringTag id v).intoStructure.id
        (substringTag id v).intoStructure).isSome ∧
        (substringTag id v).intoStructure.id ≤ 2 := by
    intro id v hid
    exact ⟨by simp [octets, substringTag, Tag.intoStructure], hid⟩
  have hall : ∀ t ∈ sub.tags, ∃ (id : UInt64) (v : List UInt8), id ≤ 2 ∧ t = substringTag id v := by
    intro t ht
    simp only [Substrings.tags, List.mem_append, Option.mem_toList,
      Option.map_eq_some_iff, List.mem_map] at ht
    rcases ht with (⟨v, -, rfl⟩ | ⟨v, -, rfl⟩) | ⟨v, -, rfl⟩
    · exact ⟨0, v, by decide, rfl⟩
    · exact ⟨1, v, by decide, rfl⟩
    · exact ⟨2, v, by decide, rfl⟩
  have hne : sub.tags ≠ [] := by
    intro hnil
    simp only [Substrings.tags, List.append_eq_nil_iff, Option.toList_eq_nil_iff,
      Option.map_eq_none_iff, List.map_eq_nil_iff] at hnil
    rcases sub.ne_empty with h | h | h
    · exact h hnil.1.1
    · exact h hnil.1.2
    · exact h hnil.2
  simp only [isSubstrings, isOctetString_intoStructure, sequence_intoStructure, Bool.true_and,
    Bool.and_eq_true, Bool.not_eq_true', List.isEmpty_eq_false_iff, List.all_map, List.all_eq_true]
  refine ⟨by simpa using hne, fun t ht ↦ ?_⟩
  obtain ⟨id, v, hid, rfl⟩ := hall t ht
  simpa using hsub id v hid

/-- An extensible match is written without its default. -/
theorem isMatchingRule_tag (m : ExtensibleMatch) :
    ∃ ts, m.tag = .sequence 9 .context ts ∧ isMatchingRule (ts.map Tag.intoStructure) := by
  refine ⟨_, rfl, ?_⟩
  rcases m with ⟨mrule, type, value, dn, hne⟩
  rcases mrule with - | mrule <;> rcases type with - | type
  · simp at hne
  all_goals cases dn <;> simp [isMatchingRule, octets, Tag.intoStructure]

/-- What the parser of filters builds is a filter of the grammar. The items first, by their form. -/
theorem isFilter_assertion (a : Assertion) : isFilter a.tag.intoStructure := by
  rcases a with ⟨attr, ft, v⟩ | ⟨attr⟩ | ⟨attr, sub⟩
  · cases ft <;>
      simp [Assertion.tag, FilterType.number, Tag.intoStructure, Tag.intoStructures, isFilter,
        isAssertion, isOctetString, octetString, octets, Tag.ofOctetString, Types.octetString]
  · simp [Assertion.tag, Tag.intoStructure, isFilter]
  · have hsub := isSubstrings_tags attr sub
    simpa [Assertion.tag, Tag.intoStructure, Tag.intoStructures, isFilter] using hsub

theorem isFilter_item (it : Item) : isFilter it.tag.intoStructure := by
  rcases it with a | m
  · exact isFilter_assertion a
  · obtain ⟨ts, htag, hts⟩ := isMatchingRule_tag m
    rw [Item.tag, htag]
    simpa [Tag.intoStructure, Tag.intoStructures_eq_map, isFilter] using hts

mutual

/-- The tree of a filter is one of the grammar. -/
theorem isFilter_tag : (f : Filter Item) → isFilter (f.tag Item.tag).intoStructure
  | .and fs => by
    simpa [Filter.tag, Tag.intoStructure, isFilter] using areFilters_tags fs
  | .or fs => by
    simpa [Filter.tag, Tag.intoStructure, isFilter] using areFilters_tags fs
  | .not f => by
    simpa [Filter.tag, Tag.intoStructure, isFilter, areFilters] using isFilter_tag f
  | .item it => isFilter_item it

/-- The filters of a conjunction or a disjunction. -/
theorem areFilters_tags : (fs : List (Filter Item)) →
    areFilters (Tag.intoStructures (Filter.tags Item.tag fs))
  | [] => rfl
  | f :: fs => by
    simp only [Filter.tags, Tag.intoStructures, areFilters, isFilter_tag f, areFilters_tags fs,
      Bool.and_self]

end

/-! ### Low tag numbers -/

/-- The numbers of the tags of a filter are low, as the writer needs them. -/
theorem idsLe_assertion (a : Assertion) : a.tag.intoStructure.IdsLe 30 := by
  have hsub : ∀ sub : Substrings, ∀ t ∈ sub.tags, t.intoStructure.IdsLe 30 := by
    intro sub t ht
    simp only [Substrings.tags, List.mem_append, Option.mem_toList, Option.map_eq_some_iff,
      List.mem_map] at ht
    rcases ht with (⟨v, -, rfl⟩ | ⟨v, -, rfl⟩) | ⟨v, -, rfl⟩ <;>
      simp [substringTag, Tag.intoStructure, StructureTag.IdsLe]
  rcases a with ⟨attr, ft, v⟩ | ⟨attr⟩ | ⟨attr, sub⟩
  · cases ft <;>
      simp [Assertion.tag, FilterType.number, Tag.intoStructure, Tag.intoStructures,
        Tag.ofOctetString, StructureTag.IdsLe, Types.octetString]
  · simp [Assertion.tag, Tag.intoStructure, StructureTag.IdsLe]
  · simpa [Assertion.tag, Tag.intoStructure, Tag.intoStructures_eq_map, Tag.ofOctetString,
      Tag.ofSequence, StructureTag.IdsLe, Types.octetString, Types.sequence] using hsub sub

theorem idsLe_item (it : Item) : it.tag.intoStructure.IdsLe 30 := by
  rcases it with a | ⟨mrule, type, value, dn, hne⟩
  · exact idsLe_assertion a
  · rcases mrule with - | mrule <;> rcases type with - | type <;> cases dn <;>
      simp [Item.tag, ExtensibleMatch.tag, Tag.intoStructure, Tag.intoStructures,
        StructureTag.IdsLe]

mutual

theorem idsLe_filter : (f : Filter Item) → (f.tag Item.tag).intoStructure.IdsLe 30
  | .and fs => by
    simpa [Filter.tag, Tag.intoStructure, StructureTag.IdsLe] using idsLe_filters fs
  | .or fs => by
    simpa [Filter.tag, Tag.intoStructure, StructureTag.IdsLe] using idsLe_filters fs
  | .not f => by
    simpa [Filter.tag, Tag.intoStructure, StructureTag.IdsLe] using idsLe_filter f
  | .item it => idsLe_item it

theorem idsLe_filters : (fs : List (Filter Item)) →
    ∀ t ∈ Tag.intoStructures (Filter.tags Item.tag fs), t.IdsLe 30
  | [] => by simp [Filter.tags, Tag.intoStructures]
  | f :: fs => by
    simp only [Filter.tags, Tag.intoStructures, List.forall_mem_cons]
    exact ⟨idsLe_filter f, idsLe_filters fs⟩

end

/-! ### Attributes and modifications -/

section Values

variable {S : Type} [AsRef S]

/-- An attribute is read with the set of its values, in whatever order it was iterated. -/
theorem partialAttribute_partAttr (attr : S) (set : HashSet S) :
    partialAttribute (Request.partAttr attr set).intoStructure =
      some (AsRef.asRef attr, Call.valueSet set) := by
  have hvals : ((set.elems.map fun v ↦ Tag.ofOctetString (AsRef.asRef v)).map
      Tag.intoStructure).mapM octetString = some (set.elems.map AsRef.asRef) :=
    mapM_intoStructure fun v _ ↦ octetString_intoStructure (AsRef.asRef v)
  simp only [Request.partAttr, partialAttribute, sequence_intoStructure, List.map_cons,
    List.map_nil, octetString_intoStructure, elements_ofSet, bind, Option.bind, hvals]
  rfl

/-- A set that passes the check for values has some on the wire. -/
theorem valueSet_ne_empty {set : HashSet S} (h : set.isEmpty = false) :
    Call.valueSet set ≠ ∅ := by
  rcases set with ⟨- | ⟨v, vs⟩, hnodup⟩
  · cases h
  · exact Finset.ne_empty_of_mem (a := AsRef.asRef v)
      (List.mem_toFinset.2 (List.mem_map_of_mem List.mem_cons_self))

/-- Where there must be values, the check before the request sees to it. -/
theorem valuedAttribute_partAttr {attr : S} {set : HashSet S} (h : set.isEmpty = false) :
    valuedAttribute (Request.partAttr attr set).intoStructure =
      some (AsRef.asRef attr, Call.valueSet set) := by
  simp only [valuedAttribute, partialAttribute_partAttr, bind, Option.bind]
  rw [if_neg (valueSet_ne_empty h)]

/-- The kinds of modifications have the numbers of the grammar. -/
theorem modKind_ofEnumerated {n : ℤ} (h0 : 0 ≤ n) (h3 : n ≤ 3) :
    modKind (Tag.ofEnumerated n).intoStructure = some (if n = 0 then .add
      else if n = 1 then .delete else if n = 2 then .replace else .increment) := by
  have hn : number .universal 10 3 (Tag.ofEnumerated n).intoStructure = some n :=
    number_iEIntoStructure h0 h3 (by decide)
  simp only [modKind, hn, bind, Option.bind]

/-- An element of the form all modifications have. -/
theorem change_ofSequence {n : ℤ} {attr : S} {set : HashSet S} (h0 : 0 ≤ n) (h3 : n ≤ 3) :
    change (Tag.ofSequence [.ofEnumerated n, Request.partAttr attr set]).intoStructure =
      some (if n = 0 then .add else if n = 1 then .delete else if n = 2 then .replace
        else .increment, AsRef.asRef attr, Call.valueSet set) := by
  simp only [change, sequence_intoStructure, List.map_cons, List.map_nil, bind, Option.bind,
    modKind_ofEnumerated h0 h3, partialAttribute_partAttr]
  rfl

/-- A modification is read as the change it means. -/
theorem change_modTag (m : Mod S) :
    change (Request.modTag m).intoStructure = some (Call.change m) := by
  cases m with
  | add attr set => exact change_ofSequence (by decide) (by decide)
  | delete attr set => exact change_ofSequence (by decide) (by decide)
  | replace attr set => exact change_ofSequence (by decide) (by decide)
  | increment attr val =>
    rw [Request.modTag, Request.modParts, change_ofSequence (by decide) (by decide)]
    simp [Call.change, Call.valueSet, HashSet.singleton]

/-- The numbers of the tags of attributes and modifications are low. -/
theorem idsLe_partAttr (attr : S) (set : HashSet S) :
    (Request.partAttr attr set).intoStructure.IdsLe 30 := by
  simp [Request.partAttr, Tag.ofSequence, Tag.ofSet, Tag.ofOctetString, Tag.intoStructure,
    Tag.intoStructures_eq_map, StructureTag.IdsLe, Types.sequence, Types.set, Types.octetString]

theorem idsLe_modTag (m : Mod S) : (Request.modTag m).intoStructure.IdsLe 30 := by
  rcases hm : Request.modParts m with ⟨num, attr, set⟩
  have hpart := idsLe_partAttr attr set
  simpa [Request.modTag, hm, Tag.ofSequence, Tag.ofEnumerated, Tag.intoStructure,
    Tag.intoStructures, iEIntoStructure, StructureTag.IdsLe, Types.sequence,
    Types.enumerated] using hpart

end Values

/-! ### Operations -/

/-- The reader of an operation is chosen by the tag number of the tree. -/
theorem operation_of_number (id : UInt64) (ts : List Tag) :
    operation (Tag.sequence id .application ts).intoStructure =
      if id = 0 then bindRequest (Tag.sequence id .application ts).intoStructure
      else if id = 2 then unbindRequest (Tag.sequence id .application ts).intoStructure
      else if id = 3 then searchRequest (Tag.sequence id .application ts).intoStructure
      else if id = 6 then modifyRequest (Tag.sequence id .application ts).intoStructure
      else if id = 8 then addRequest (Tag.sequence id .application ts).intoStructure
      else if id = 10 then delRequest (Tag.sequence id .application ts).intoStructure
      else if id = 12 then modDNRequest (Tag.sequence id .application ts).intoStructure
      else if id = 14 then compareRequest (Tag.sequence id .application ts).intoStructure
      else if id = 16 then abandonRequest (Tag.sequence id .application ts).intoStructure
      else if id = 23 then extendedRequest (Tag.sequence id .application ts).intoStructure
      else none := by
  rw [Tag.intoStructure]
  rfl

/-- The number of the tag selects the reader of the operation. -/
theorem operation_searchRequest (ts : List Tag) :
    operation (Tag.sequence 3 .application ts).intoStructure =
      searchRequest (Tag.sequence 3 .application ts).intoStructure := by
  simp [operation_of_number]

theorem operation_modifyRequest (ts : List Tag) :
    operation (Tag.sequence 6 .application ts).intoStructure =
      modifyRequest (Tag.sequence 6 .application ts).intoStructure := by
  simp [operation_of_number]

theorem operation_addRequest (ts : List Tag) :
    operation (Tag.sequence 8 .application ts).intoStructure =
      addRequest (Tag.sequence 8 .application ts).intoStructure := by
  simp [operation_of_number]

theorem version_ofInteger : number .universal 2 127 (Tag.ofInteger 3).intoStructure = some 3 :=
  number_iEIntoStructure (by decide) (by decide) (by decide)

/-- A simple Bind is read with the version, the name and the password. -/
theorem operation_simpleBind (bindDn bindPw : String) :
    operation (Request.simpleBind bindDn bindPw).intoStructure =
      some (.bindRequest 3 (asBytes bindDn) (.simple (asBytes bindPw))) := by
  have hauth : authentication (Tag.octetString 0 .context (asBytes bindPw)).intoStructure =
      some (.simple (asBytes bindPw)) := by
    rw [authentication, if_pos (by rw [Tag.intoStructure]), octets_intoStructure]
    rfl
  simp only [Request.simpleBind, operation_of_number, if_true, bindRequest, elements_sequence,
    List.map_cons, List.map_nil, bind, Option.bind, version_ofInteger, octetString_intoStructure,
    hauth]
  rfl

/-- A SASL Bind is read with the mechanism, and with credentials exactly if there are some. -/
theorem operation_saslBindReq (mech : String) (creds : Option (List UInt8)) :
    operation (Request.saslBindReq mech creds).intoStructure =
      some (.bindRequest 3 [] (.sasl (asBytes mech) creds)) := by
  have hid : ∀ ts : List Tag, (Tag.sequence 3 .context ts).intoStructure.id = 3 := by
    intro ts
    rw [Tag.intoStructure]
  cases creds <;>
    simp [Request.saslBindReq, operation_of_number, bindRequest, bind, Option.bind,
      version_ofInteger, authentication, hid]

/-- The scopes have the numbers of the grammar. -/
theorem scope_toInt (sc : Scope) : scope (Tag.ofEnumerated sc.toInt).intoStructure = some sc := by
  have hn : number .universal 10 2 (Tag.ofEnumerated sc.toInt).intoStructure = some sc.toInt := by
    refine number_iEIntoStructure ?_ ?_ (by decide) <;> cases sc <;> decide
  simp only [scope, hn, bind, Option.bind]
  cases sc <;> rfl

/-- The ways to dereference aliases have them as well. -/
theorem derefAliases_toInt (d : DerefAliases) :
    derefAliases (Tag.ofEnumerated d.toInt).intoStructure = some d := by
  have hn : number .universal 10 3 (Tag.ofEnumerated d.toInt).intoStructure = some d.toInt := by
    refine number_iEIntoStructure ?_ ?_ (by decide) <;> cases d <;> decide
  simp only [derefAliases, hn, bind, Option.bind]
  cases d <;> rfl

/-- A limit or an id is read as it is, in the range of the protocol. -/
theorem number_ofInteger {n : ℤ} (h : 0 ≤ n ∧ n < 2 ^ 31) :
    number .universal 2 maxInt (Tag.ofInteger n).intoStructure = some n :=
  number_iEIntoStructure h.1 (Int.le_sub_one_of_lt h.2) (by decide)

/-- What the parser accepts is a filter of the grammar. -/
theorem filter_of_parse {s : List UInt8} {t : Tag} (h : FilterParser.parse s = .ok t) :
    filter t.intoStructure = some t.intoStructure ∧ t.intoStructure.IdsLe 30 := by
  have htag : ∃ f : Filter Item, f.tag Item.tag = t := by
    rcases FilterParser.renders_of_parse h with ⟨f, -, ht⟩ | ⟨it, -, ht⟩
    · exact ⟨f, ht⟩
    · exact ⟨.item it, ht⟩
  obtain ⟨f, rfl⟩ := htag
  exact ⟨if_pos (isFilter_tag f), idsLe_filter f⟩

/-- **A Search is read with all that the caller asked for**, if its limits are in the range of the
protocol and its filter is one. -/
theorem operation_search {opts : SearchOptions} {base filter' : String} {sc : Scope}
    {attrs : List String} {t : Tag}
    (hsize : 0 ≤ opts.sizelimit ∧ opts.sizelimit < 2 ^ 31)
    (htime : 0 ≤ opts.timelimit ∧ opts.timelimit < 2 ^ 31)
    (hfilter : FilterParser.parse (asBytes filter') = .ok t) :
    ∃ req, Request.search opts base sc filter' attrs = .ok req ∧ req.intoStructure.IdsLe 30 ∧
      operation req.intoStructure = some (.searchRequest (asBytes base) sc opts.deref
        opts.sizelimit opts.timelimit opts.typesonly t.intoStructure (attrs.map asBytes)) := by
  obtain ⟨hf, hids⟩ := filter_of_parse hfilter
  have hattrs : ((attrs.map fun s ↦ Tag.ofOctetString (asBytes s)).map Tag.intoStructure).mapM
      octetString = some (attrs.map asBytes) :=
    mapM_intoStructure fun s _ ↦ octetString_intoStructure (asBytes s)
  rw [Request.search, hfilter]
  refine ⟨_, rfl, ?_, ?_⟩
  · simpa [Tag.intoStructure, Tag.intoStructures, Tag.intoStructures_eq_map, StructureTag.IdsLe,
      Tag.ofOctetString, Tag.ofEnumerated, Tag.ofInteger, Tag.ofBoolean, Tag.ofSequence,
      iEIntoStructure, Types.octetString, Types.enumerated, Types.integer, Types.boolean,
      Types.sequence] using hids
  · rw [operation_searchRequest]
    simp only [searchRequest, elements_sequence, List.map_cons, List.map_nil, bind, Option.bind,
      octetString_intoStructure, scope_toInt, derefAliases_toInt, number_ofInteger hsize,
      number_ofInteger htime, boolean_intoStructure, hf, sequence_intoStructure, hattrs]
    rfl

section Values

variable {S : Type} [AsRef S]

/-- An Add is read with its attributes: none of them is without values. -/
theorem operation_add {dn : String} {attrs : List (S × HashSet S)} {req : Tag}
    (h : Request.add dn attrs = .ok req) :
    req.intoStructure.IdsLe 30 ∧ operation req.intoStructure = some (.addRequest (asBytes dn)
      (attrs.map fun attr ↦ (AsRef.asRef attr.1, Call.valueSet attr.2))) := by
  rw [Request.add] at h
  split at h
  case isTrue => cases h
  case isFalse hempty =>
    obtain rfl := Except.ok.inj h
    have hvals : ∀ attr ∈ attrs, attr.2.isEmpty = false := by
      simpa using hempty
    have hattrs : ((attrs.map fun attr ↦ Request.partAttr attr.1 attr.2).map
        Tag.intoStructure).mapM valuedAttribute =
          some (attrs.map fun attr ↦ (AsRef.asRef attr.1, Call.valueSet attr.2)) :=
      mapM_intoStructure fun attr hattr ↦ valuedAttribute_partAttr (hvals attr hattr)
    have hids : ∀ attr ∈ attrs, (Request.partAttr attr.1 attr.2).intoStructure.IdsLe 30 :=
      fun attr _ ↦ idsLe_partAttr attr.1 attr.2
    refine ⟨?_, ?_⟩
    · simpa [Tag.intoStructure, Tag.intoStructures, Tag.intoStructures_eq_map,
        StructureTag.IdsLe, Tag.ofOctetString, Tag.ofSequence, Types.octetString,
        Types.sequence] using fun t attr set hmem ht ↦ ht ▸ hids (attr, set) hmem
    · rw [operation_addRequest]
      simp only [addRequest, elements_sequence, List.map_cons, List.map_nil, bind, Option.bind,
        octetString_intoStructure, sequence_intoStructure, hattrs]
      rfl

/-- A Modify is read with its changes: those that need values have some. -/
theorem operation_modify {dn : String} {mods : List (Mod S)} {req : Tag}
    (h : Request.modify dn mods = .ok req) :
    req.intoStructure.IdsLe 30 ∧ operation req.intoStructure =
      some (.modifyRequest (asBytes dn) (mods.map Call.change)) := by
  rw [Request.modify] at h
  split at h
  case isTrue => cases h
  case isFalse =>
    obtain rfl := Except.ok.inj h
    have hmods : ((mods.map Request.modTag).map Tag.intoStructure).mapM change =
        some (mods.map Call.change) :=
      mapM_intoStructure fun m _ ↦ change_modTag m
    have hids : ∀ m ∈ mods, (Request.modTag m).intoStructure.IdsLe 30 := fun m _ ↦ idsLe_modTag m
    refine ⟨?_, ?_⟩
    · simpa [Tag.intoStructure, Tag.intoStructures, Tag.intoStructures_eq_map,
        StructureTag.IdsLe, Tag.ofOctetString, Tag.ofSequence, Types.octetString,
        Types.sequence] using hids
    · rw [operation_modifyRequest]
      simp only [modifyRequest, elements_sequence, List.map_cons, List.map_nil, bind, Option.bind,
        octetString_intoStructure, sequence_intoStructure, hmods]
      rfl

end Values

theorem operation_compare (dn attr : String) (val : List UInt8) :
    operation (Request.compare dn attr val).intoStructure =
      some (.compareRequest (asBytes dn) (asBytes attr) val) := by
  simp [Request.compare, operation_of_number, compareRequest, bind, Option.bind]

theorem operation_delete (dn : String) :
    operation (Request.delete dn).intoStructure = some (.delRequest (asBytes dn)) := by
  simp [Request.delete, operation, delRequest, octets, Tag.intoStructure]

/-- A Modify DN is read with the new superior exactly if there is one. -/
theorem operation_modifydn (dn rdn : String) (deleteOld : Bool) (newSup : Option String) :
    operation (Request.modifydn dn rdn deleteOld newSup).intoStructure =
      some (.modDNRequest (asBytes dn) (asBytes rdn) deleteOld (newSup.map asBytes)) := by
  cases newSup <;>
    simp [Request.modifydn, operation_of_number, modDNRequest, bind, Option.bind]

/-- An extended operation is read with its name, which it must have, and its value. -/
theorem operation_extended {exop : Exop} {req : Tag} (h : Request.extended exop = .ok req) :
    req.intoStructure.IdsLe 30 ∧ ∃ name, exop.name = some name ∧
      operation req.intoStructure = some (.extendedRequest (asBytes name) exop.val) := by
  rcases exop with ⟨- | name, val⟩
  · cases h
  · obtain rfl := Except.ok.inj h
    refine ⟨?_, name, rfl, ?_⟩
    · cases val <;> simp [Tag.intoStructure, Tag.intoStructures, StructureTag.IdsLe]
    · cases val <;> simp [operation_of_number, extendedRequest, bind, Option.bind]

theorem operation_unbind :
    operation (Request.unbind).intoStructure = some .unbindRequest := by
  simp [Request.unbind, operation, unbindRequest, octets, Tag.intoStructure, bind, Option.bind]

/-- An Abandon is read with the id of the operation it is about. -/
theorem operation_abandon {msgid : RequestId} (h : 0 ≤ msgid ∧ msgid < 2 ^ 31) :
    operation (Request.abandon msgid).intoStructure = some (.abandonRequest msgid) := by
  have hn : number .application 16 maxInt (iEIntoStructure 16 .application msgid) = some msgid :=
    number_iEIntoStructure h.1 (Int.le_sub_one_of_lt h.2) (by decide)
  have hid : (iEIntoStructure 16 .application msgid).id = 16 := rfl
  simp [Request.abandon, operation, abandonRequest, Tag.intoStructure, hid, hn]

/-- **The tree of a request is read as the request.** -/
theorem operation_request {S : Type} [AsRef S] {call : Call S} {opts : SearchOptions} {req : Tag}
    (hreq : call.request opts = .ok req) (hrange : call.InRange opts) :
    req.intoStructure.IdsLe 30 ∧
      ∃ op, call.operation opts = some op ∧ operation req.intoStructure = some op := by
  cases call with
  | simpleBind bindDn bindPw =>
    obtain rfl := Except.ok.inj hreq
    exact ⟨by simp [Request.simpleBind, Tag.intoStructure, Tag.intoStructures, Tag.ofInteger,
      Tag.ofOctetString, iEIntoStructure, StructureTag.IdsLe, Types.integer, Types.octetString],
      _, rfl, operation_simpleBind bindDn bindPw⟩
  | saslBind mech creds =>
    obtain rfl := Except.ok.inj hreq
    exact ⟨by cases creds <;> simp [Request.saslBindReq, Tag.intoStructure, Tag.intoStructures,
      Tag.ofInteger, Tag.ofOctetString, iEIntoStructure, StructureTag.IdsLe, Types.integer,
      Types.octetString], _, rfl, operation_saslBindReq mech creds⟩
  | search base sc filter' attrs =>
    rcases hfilter : FilterParser.parse (asBytes filter') with err | t
    · rw [Call.request, Request.search, hfilter] at hreq
      cases hreq
    · obtain ⟨req', hreq', hids, hop⟩ := @operation_search opts base _ sc attrs _
        hrange.1 hrange.2 hfilter
      obtain rfl := Except.ok.inj (hreq'.symm.trans hreq)
      exact ⟨hids, _, by rw [Call.operation, hfilter]; rfl, hop⟩
  | add dn attrs =>
    obtain ⟨hids, hop⟩ := operation_add hreq
    exact ⟨hids, _, rfl, hop⟩
  | compare dn attr val =>
    obtain rfl := Except.ok.inj hreq
    exact ⟨by simp [Request.compare, Tag.intoStructure, Tag.intoStructures, Tag.ofSequence,
      Tag.ofOctetString, StructureTag.IdsLe, Types.sequence, Types.octetString],
      _, rfl, operation_compare dn attr val⟩
  | delete dn =>
    obtain rfl := Except.ok.inj hreq
    exact ⟨by simp [Request.delete, Tag.intoStructure, StructureTag.IdsLe],
      _, rfl, operation_delete dn⟩
  | modify dn mods =>
    obtain ⟨hids, hop⟩ := operation_modify hreq
    exact ⟨hids, _, rfl, hop⟩
  | modifydn dn rdn deleteOld newSup =>
    obtain rfl := Except.ok.inj hreq
    exact ⟨by cases newSup <;> simp [Request.modifydn, Tag.intoStructure, Tag.intoStructures,
      Tag.ofOctetString, Tag.ofBoolean, StructureTag.IdsLe, Types.octetString, Types.boolean],
      _, rfl, operation_modifydn dn rdn deleteOld newSup⟩
  | extended exop =>
    obtain ⟨hids, name, hname, hop⟩ := operation_extended hreq
    exact ⟨hids, _, by rw [Call.operation, hname]; rfl, hop⟩
  | unbind =>
    obtain rfl := Except.ok.inj hreq
    exact ⟨by simp [Request.unbind, Tag.intoStructure, StructureTag.IdsLe],
      _, rfl, operation_unbind⟩
  | abandon msgid =>
    obtain rfl := Except.ok.inj hreq
    exact ⟨by simp [Request.abandon, Tag.intoStructure, iEIntoStructure, StructureTag.IdsLe],
      _, rfl, operation_abandon hrange⟩

/-! ### Messages -/

/-- A control is read as itself: the component after the type is told by its tag number. -/
theorem control_buildTag (rc : RawControl) : control (buildTag rc) = some rc.request := by
  rcases rc with ⟨ctype, crit, val⟩
  have hoct : ∀ v, (Tag.ofOctetString v).intoStructure.id = 4 := fun _ ↦ rfl
  have hbool : (Tag.ofBoolean true).intoStructure.id = 1 := rfl
  cases crit <;> cases val <;>
    simp [buildTag, control, bind, Option.bind, RawControl.request, hoct, hbool]

/-- The controls are read one by one. -/
theorem mapM_control (rcs : List RawControl) :
    (rcs.map buildTag).mapM control = some (rcs.map RawControl.request) := by
  induction rcs with
  | nil => rfl
  | cons rc rcs ih =>
    rw [List.map_cons, List.mapM_cons, control_buildTag, ih]
    rfl

/-- The sequence built for a request is read as its id, its operation and its controls. -/
theorem message_outstruct {id : RequestId} {req : Tag} {op : Operation}
    (hid : 0 ≤ id ∧ id < 2 ^ 31) (hop : operation req.intoStructure = some op)
    (controls : Option (List RawControl)) :
    message (outstruct id req controls) =
      some ⟨id, op, controls.map fun rcs ↦ rcs.map RawControl.request⟩ := by
  have hctrls : ∀ ts : List StructureTag,
      elements .context 0 (Tag.structureTag ⟨.context, 0, .C ts⟩).intoStructure = some ts := by
    intro ts
    simp [elements, Tag.intoStructure]
  cases controls with
  | none =>
    simp only [outstruct, message, sequence_intoStructure, List.map_cons, List.map_nil, bind,
      Option.bind, number_ofInteger hid, hop]
    rfl
  | some rcs =>
    simp only [outstruct, message, sequence_intoStructure, List.cons_append, List.nil_append,
      List.map_cons, List.map_nil, bind, Option.bind, number_ofInteger hid, hop, hctrls,
      mapM_control]
    rfl

end Grammar

/-! ### What the octets say -/

/-- A request that is sent: a call that passed its own validation, with the message id and the
controls it goes out with. -/
structure IssuedRequest (S : Type) [AsRef S] where
  id : RequestId
  call : Call S
  opts : SearchOptions
  controls : Option (List RawControl)
  req : Tag
  id_range : 0 ≤ id ∧ id < 2 ^ 31
  in_range : call.InRange opts
  request_eq : call.request opts = .ok req
  /-- The buffer it is encoded to exists. -/
  fits : (encode id req controls).length ≤ usizeMax

/-- The ids of the first two messages on a connection. -/
theorem firstId_range : 0 ≤ (1 : RequestId) ∧ (1 : RequestId) < 2 ^ 31 := by
  decide

theorem secondId_range : 0 ≤ (2 : RequestId) ∧ (2 : RequestId) < 2 ^ 31 := by
  decide

namespace IssuedRequest

variable {S S' : Type} [AsRef S] [AsRef S']

/-- The octets that go out. -/
def encoded (r : IssuedRequest S) : List UInt8 :=
  encode r.id r.req r.controls

/-- What the caller asked for. -/
def meaning (r : IssuedRequest S) : Option LdapRequest :=
  (r.call.operation r.opts).map fun op ↦
    ⟨r.id, op, r.controls.map fun rcs ↦ rcs.map RawControl.request⟩

/-- The octets are those of one tree only, and it is read as the request. -/
theorem reads_encoded_iff (r : IssuedRequest S) :
    ∃ m, r.meaning = some m ∧ ∀ m', Reads r.encoded m' ↔ m' = m := by
  obtain ⟨hids, op, hop, hread⟩ := operation_request r.request_eq r.in_range
  have hlt : r.encoded.length < 2 ^ 64 := Nat.lt_of_le_of_lt r.fits (by decide)
  have hber : Ber (outstruct r.id r.req r.controls) r.encoded :=
    ber_encodeInner (idsLe_outstruct r.controls hids) hlt
  have hmsg := message_outstruct r.id_range hread r.controls
  refine ⟨_, by rw [meaning, hop]; rfl, fun m' ↦ ⟨?_, ?_⟩⟩
  · rintro ⟨t, ht, hm'⟩
    rw [ht.unique hber hlt, hmsg] at hm'
    exact (Option.some.inj hm').symm
  · rintro rfl
    exact ⟨_, hber, hmsg⟩

/-- **Requests are faithful.** The octets of a request mean what the caller asked for and nothing
else, so two requests that share their octets ask for the same. -/
theorem encoded_faithful (r : IssuedRequest S) :
    (∃ m, r.meaning = some m ∧ ∀ m', Reads r.encoded m' ↔ m' = m) ∧
      ∀ r' : IssuedRequest S', r'.encoded = r.encoded → r'.meaning = r.meaning := by
  obtain ⟨m, hm, hreads⟩ := r.reads_encoded_iff
  refine ⟨⟨m, hm, hreads⟩, fun r' heq ↦ ?_⟩
  obtain ⟨m', hm', hreads'⟩ := r'.reads_encoded_iff
  rw [heq] at hreads'
  rw [hm, hm', (hreads m').1 ((hreads' m').2 rfl)]

/-- A modification that replaces the values of `cn` and increments `n`. -/
def modifyIssued : IssuedRequest String where
  id := 5
  call := .modify "dc=a" [.replace "cn" ⟨["b", "c"], by decide⟩, .increment "n" "1"]
  opts := {}
  controls := none
  req := .sequence 6 .application
    [.ofOctetString (asBytes "dc=a"), .ofSequence
      [.ofSequence [.ofEnumerated 2, Request.partAttr "cn" ⟨["b", "c"], by decide⟩],
        .ofSequence [.ofEnumerated 3, Request.partAttr "n" (HashSet.singleton "1")]]]
  id_range := by decide
  in_range := trivial
  request_eq := rfl
  fits := by decide +kernel

/-- Its octets mean this and nothing else, and a request with other values that has them means the
same. -/
theorem encoded_faithful_modify :
    (∀ m, Reads modifyIssued.encoded m ↔ m = ⟨5, .modifyRequest (asBytes "dc=a")
      [(.replace, asBytes "cn", {asBytes "b", asBytes "c"}), (.increment, asBytes "n",
        {asBytes "1"})], none⟩) ∧
    ∀ r : IssuedRequest (List UInt8), r.encoded = modifyIssued.encoded →
      r.meaning = modifyIssued.meaning := by
  have hmeaning : modifyIssued.meaning = some ⟨5, .modifyRequest (asBytes "dc=a")
      [(.replace, asBytes "cn", {asBytes "b", asBytes "c"}), (.increment, asBytes "n",
        {asBytes "1"})], none⟩ := by
    decide +kernel
  obtain ⟨⟨m, hm, hreads⟩, hsame⟩ := @encoded_faithful _ (List UInt8) _ _ modifyIssued
  obtain rfl := Option.some.inj (hmeaning.symm.trans hm)
  exact ⟨hreads, hsame⟩

end IssuedRequest

end Ldap3
