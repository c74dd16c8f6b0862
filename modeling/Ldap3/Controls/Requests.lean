import Ldap3.Controls.MatchedValues
import Ldap3.Controls.PagedResults
import Ldap3.Ldap.Typed

/-!
# Request controls

The request controls of `src/controls_impl/`: what each of them is, and its conversion into the
`RawControl` that a message carries. A control that is made critical is converted as it is without,
and marked.

The other side is a registry: the identifiers of the specifications, each with a strict reader of
its value. The two agree. A control is converted exactly when it has a meaning, that is, unless its
filter cannot be parsed, and then the converted control is read as that meaning
(`TypedControl.reads_raw`). So a message with any controls of the crate is read as a request with
these controls, in their order and with their criticalities (`controls_read`).
-/

namespace Ldap3

def ASSERTION_OID : String := "1.3.6.1.1.12"
def SYNC_REQUEST_OID : String := "1.3.6.1.4.1.4203.1.9.1.1"
def PROXY_AUTH_OID : String := "2.16.840.1.113730.3.4.18"
def RELAX_RULES_OID : String := "1.3.6.1.4.1.4203.666.5.12"
def TXN_REQUEST_OID : String := "1.3.6.1.1.21.2"

/-- `RefreshMode`. -/
inductive RefreshMode where
  | refreshOnly
  | refreshAndPersist
  deriving DecidableEq

/-- `i64::from(mode)`. -/
def RefreshMode.toInt : RefreshMode → ℤ
  | refreshOnly => 1
  | refreshAndPersist => 3

namespace Controls

/-! ### The controls of the crate -/

/-- `Assertion`. -/
structure Assertion where
  filter : String

/-- `From<Assertion>`. The text of the panic is that of `expect` on a `Result`, which adds the
error. -/
def Assertion.raw (assn : Assertion) : Except Fault RawControl :=
  match FilterParser.parse (asBytes assn.filter) with
  | .ok filter => .ok ⟨ASSERTION_OID, false, some (encodeInto filter.intoStructure)⟩
  | .error () => .error (.panic "filter: ()")

/-- `SyncRequest`. -/
structure SyncRequest where
  mode : RefreshMode
  cookie : Option (List UInt8)
  reloadHint : Bool

/-- `From<SyncRequest>`. -/
def SyncRequest.raw (sr : SyncRequest) : RawControl :=
  let tags := [Tag.ofEnumerated sr.mode.toInt]
  let tags := match sr.cookie with
    | some cookie => tags ++ [.ofOctetString cookie]
    | none => tags
  let tags := if sr.reloadHint then tags ++ [.ofBoolean sr.reloadHint] else tags
  ⟨SYNC_REQUEST_OID, false, some (encodeInto (Tag.ofSequence tags).intoStructure)⟩

/-- `From<ManageDsaIt>`. -/
def ManageDsaIt.raw : RawControl :=
  ⟨MANAGE_DSA_IT_OID, false, none⟩

/-- `ProxyAuth`. -/
structure ProxyAuth where
  authzid : String

/-- `From<ProxyAuth>`. -/
def ProxyAuth.raw (pa : ProxyAuth) : RawControl :=
  ⟨PROXY_AUTH_OID, true, some (asBytes pa.authzid)⟩

/-- `ReadEntry`. -/
structure ReadEntry where
  attrs : List String
  oid : String

def fromReadEntry (re : ReadEntry) : RawControl :=
  let attrVec := re.attrs.map fun attr ↦ Tag.ofOctetString (asBytes attr)
  ⟨re.oid, false, some (encodeInto (Tag.ofSequence attrVec).intoStructure)⟩

/-- `PreRead::new`. -/
def PreRead.raw (attrs : List String) : RawControl :=
  fromReadEntry ⟨attrs, PRE_READ_OID⟩

/-- `PostRead::new`. -/
def PostRead.raw (attrs : List String) : RawControl :=
  fromReadEntry ⟨attrs, POST_READ_OID⟩

/-- `From<RelaxRules>`. -/
def RelaxRules.raw : RawControl :=
  ⟨RELAX_RULES_OID, false, none⟩

/-- `TxnSpec`. -/
structure TxnSpec where
  txnId : String

/-- `From<TxnSpec>`. -/
def TxnSpec.raw (txn : TxnSpec) : RawControl :=
  ⟨TXN_REQUEST_OID, true, some (asBytes txn.txnId)⟩

/-- A request control of the crate. -/
inductive TypedControl where
  | assertion (assn : Assertion)
  | manageDsaIt
  | matchedValues (assn : MatchedValues)
  | pagedResults (pr : PagedResults)
  | preRead (attrs : List String)
  | postRead (attrs : List String)
  | proxyAuth (pa : ProxyAuth)
  | relaxRules
  | syncRequest (sr : SyncRequest)
  | txnSpec (txn : TxnSpec)

namespace TypedControl

/-- `From<T> for RawControl`. -/
def raw : TypedControl → Except Fault RawControl
  | assertion assn => assn.raw
  | manageDsaIt => .ok ManageDsaIt.raw
  | matchedValues assn => assn.raw
  | pagedResults pr => .ok pr.raw
  | preRead attrs => .ok (PreRead.raw attrs)
  | postRead attrs => .ok (PostRead.raw attrs)
  | proxyAuth pa => .ok pa.raw
  | relaxRules => .ok RelaxRules.raw
  | syncRequest sr => .ok sr.raw
  | txnSpec txn => .ok txn.raw

/-- The types that implement `MakeCritical`. -/
def makeCritical : TypedControl → Bool
  | matchedValues _ | proxyAuth _ | txnSpec _ => false
  | _ => true

end TypedControl

/-- A control, and whether `critical` was called on it. -/
structure MaybeCritical where
  control : TypedControl
  critical : Bool
  make_critical : critical = true → control.makeCritical = true

theorem makeCritical_of_false {t : TypedControl} (h : false = true) : t.makeCritical = true :=
  absurd h Bool.false_ne_true

/-- The control as it is. -/
def MaybeCritical.plain (t : TypedControl) : MaybeCritical :=
  ⟨t, false, makeCritical_of_false⟩

/-- `From<CriticalControl<T>>`, or that of the control itself. -/
def MaybeCritical.raw (c : MaybeCritical) : Except Fault RawControl :=
  if c.critical then c.control.raw.map fun rc ↦ { rc with crit := true } else c.control.raw

end Controls

/-! ### What a server reads -/

namespace Grammar

/-- The meanings of request controls. -/
inductive ControlMeaning where
  | assertion (filter : StructureTag)
  | manageDsaIt
  | matchedValues (filters : List StructureTag)
  | pagedResults (size : ℤ) (cookie : List UInt8)
  | preRead (attributes : List (List UInt8))
  | postRead (attributes : List (List UInt8))
  | proxiedAuthorization (authzId : List UInt8)
  | relaxRules
  | syncRequest (mode : RefreshMode) (cookie : Option (List UInt8)) (reloadHint : Bool)
  | transactionSpecification (identifier : List UInt8)
  deriving DecidableEq

def assertionControl (t : StructureTag) : Option ControlMeaning :=
  (filter t).map .assertion

/-- A filter that is no operator. An item may ask for the attributes of the name, although that has
no meaning for a value. -/
def isSimpleItem (t : StructureTag) : Bool :=
  isFilter t && t.id ≠ 0 && t.id ≠ 1 && t.id ≠ 2

def valuesReturnFilter (t : StructureTag) : Option ControlMeaning := do
  let ts ← sequence t
  if !ts.isEmpty && ts.all isSimpleItem then some (.matchedValues ts) else none

def pagedResultsControl (t : StructureTag) : Option ControlMeaning := do
  match ← sequence t with
  | [size, cookie] =>
    return .pagedResults (← number .universal 2 maxInt size) (← octetString cookie)
  | _ => none

def attributeSelection (t : StructureTag) : Option (List (List UInt8)) := do
  (← sequence t).mapM octetString

def refreshMode (t : StructureTag) : Option RefreshMode := do
  let n ← number .universal 10 3 t
  if n = 1 then some .refreshOnly else if n = 3 then some .refreshAndPersist else none

/-- A hint that is there has to be true, since false is the default. -/
def syncRequestControl (t : StructureTag) : Option ControlMeaning := do
  match ← sequence t with
  | mode :: ts =>
    let (cookie, ts) := optional octetString ts
    let (hint, ts) := optional boolean ts
    if ts.isEmpty && hint ≠ some false then
      return .syncRequest (← refreshMode mode) cookie hint.isSome
    else
      none
  | [] => none

/-- The request controls a server may know. -/
def requestControls : Registry ControlMeaning :=
  [("1.3.6.1.1.12", .tree assertionControl),
   ("2.16.840.1.113730.3.4.2", .absent .manageDsaIt),
   ("1.2.826.0.1.3344810.2.3", .tree valuesReturnFilter),
   ("1.2.840.113556.1.4.319", .tree pagedResultsControl),
   ("1.3.6.1.1.13.1", .tree fun t ↦ (attributeSelection t).map .preRead),
   ("1.3.6.1.1.13.2", .tree fun t ↦ (attributeSelection t).map .postRead),
   ("2.16.840.1.113730.3.4.18", .octets .proxiedAuthorization),
   ("1.3.6.1.4.1.4203.666.5.12", .absent .relaxRules),
   ("1.3.6.1.4.1.4203.1.9.1.1", .tree syncRequestControl),
   ("1.3.6.1.1.21.2", .octets .transactionSpecification)]

/-! ### Readers on the values of the crate -/

theorem refreshMode_toInt (mode : RefreshMode) :
    refreshMode (Tag.ofEnumerated mode.toInt).intoStructure = some mode := by
  have hn : number .universal 10 3 (Tag.ofEnumerated mode.toInt).intoStructure =
      some mode.toInt := by
    refine number_iEIntoStructure ?_ ?_ (by decide) <;> cases mode <;> decide
  simp only [refreshMode, hn, bind, Option.bind]
  cases mode <;> rfl

theorem syncRequestControl_raw (sr : Controls.SyncRequest) :
    ∃ t, sr.raw.val = some (encodeInto t) ∧ t.IdsLe 30 ∧
      syncRequestControl t = some (.syncRequest sr.mode sr.cookie sr.reloadHint) := by
  refine ⟨_, rfl, ?_, ?_⟩
  · rcases sr with ⟨mode, - | cookie, - | -⟩ <;>
      simp [Tag.ofSequence, Tag.ofEnumerated, Tag.ofOctetString, Tag.ofBoolean, Tag.intoStructure,
        Tag.intoStructures, iEIntoStructure, StructureTag.IdsLe] <;> decide
  · have hmode := refreshMode_toInt sr.mode
    have hhint : octetString (Tag.ofBoolean true).intoStructure = none := rfl
    rcases sr with ⟨mode, - | cookie, - | -⟩ <;>
      simp [syncRequestControl, optional, hmode, hhint, bind, Option.bind]

theorem attributeSelection_raw (re : Controls.ReadEntry) :
    ∃ t, (Controls.fromReadEntry re).val = some (encodeInto t) ∧ t.IdsLe 30 ∧
      attributeSelection t = some (re.attrs.map asBytes) := by
  refine ⟨_, rfl, ?_, ?_⟩
  · simp [Tag.ofSequence, Tag.ofOctetString, Tag.intoStructure, Tag.intoStructures_eq_map,
      StructureTag.IdsLe, Types.sequence, Types.octetString]
  · have hattrs : ((re.attrs.map fun s ↦ Tag.ofOctetString (asBytes s)).map
        Tag.intoStructure).mapM octetString = some (re.attrs.map asBytes) :=
      mapM_intoStructure fun s _ ↦ octetString_intoStructure (asBytes s)
    simp only [attributeSelection, sequence_intoStructure, hattrs, bind, Option.bind]

theorem pagedResultsControl_tag {pr : Controls.PagedResults} (h : 0 ≤ pr.size ∧ pr.size < 2 ^ 31) :
    pagedResultsControl pr.tag = some (.pagedResults pr.size pr.cookie) := by
  simp only [pagedResultsControl, Controls.PagedResults.tag, sequence_intoStructure,
    List.map_cons, List.map_nil, number_ofInteger h, octetString_intoStructure, bind, Option.bind]
  rfl

theorem isSimpleItem_item (it : Item) : isSimpleItem it.tag.intoStructure := by
  rw [isSimpleItem, isFilter_item]
  rcases it with (⟨attr, ft, v⟩ | _ | _) | m
  · cases ft <;> rfl
  all_goals rfl

/-- The elements of a matched values filter are items. -/
theorem valuesReturnFilter_of_parse {s : List UInt8} {t : Tag}
    (h : FilterParser.parseMatchedValues s = .ok t) :
    t.intoStructure.IdsLe 30 ∧ ∃ ts, t = .ofSequence ts ∧
      valuesReturnFilter t.intoStructure = some (.matchedValues (ts.map Tag.intoStructure)) := by
  obtain ⟨j, ts, rfl, hitems, rfl⟩ := FilterParser.parseMatchedValues_eq_ok_iff.1 h
  rw [FilterParser.mvFilteritems,
    Nom.Complete.many1_eq_ok_iff fun _ _ ↦ FilterParser.parenItem_length] at hitems
  have hall : ∀ t ∈ ts, ∃ it : Item, it.tag = t := by
    refine Nom.Complete.forall_of_many0 (fun j s t hj ↦ ?_) hitems.1
    obtain ⟨j', rfl, hitem⟩ := FilterParser.parens_eq_ok_iff.1 hj
    obtain ⟨w, -, it, -, ht⟩ := FilterParser.sound_item _ _ _ hitem
    exact ⟨it, ht⟩
  have hsimple : ∀ t ∈ ts, isSimpleItem t.intoStructure ∧ t.intoStructure.IdsLe 30 := by
    intro t ht
    obtain ⟨it, rfl⟩ := hall t ht
    exact ⟨isSimpleItem_item it, idsLe_item it⟩
  refine ⟨?_, ts, rfl, ?_⟩
  · simpa [Tag.ofSequence, Tag.intoStructure, Tag.intoStructures_eq_map, StructureTag.IdsLe,
      Types.sequence] using fun t ht ↦ (hsimple t ht).2
  · have hne : (ts.map Tag.intoStructure).isEmpty = false := by simpa using hitems.2
    have hcheck : (ts.map Tag.intoStructure).all isSimpleItem := by
      simpa using fun t ht ↦ (hsimple t ht).1
    simp only [valuesReturnFilter, sequence_intoStructure, hne, hcheck, bind, Option.bind]
    rfl

end Grammar

/-! ### What a control says -/

namespace Controls

open Grammar (ControlMeaning requestControls ValueReader)

namespace TypedControl

/-- **What a control asks for**, if it has a meaning: a filter has to be one. -/
def meaning : TypedControl → Option ControlMeaning
  | assertion assn =>
    (FilterParser.parse (asBytes assn.filter)).toOption.map fun filter ↦
      .assertion filter.intoStructure
  | manageDsaIt => some .manageDsaIt
  | matchedValues assn =>
    match FilterParser.parseMatchedValues (asBytes assn.filter) with
    | .ok (.sequence _ _ items) => some (.matchedValues (items.map Tag.intoStructure))
    | _ => none
  | pagedResults pr => some (.pagedResults pr.size pr.cookie)
  | preRead attrs => some (.preRead (attrs.map asBytes))
  | postRead attrs => some (.postRead (attrs.map asBytes))
  | proxyAuth pa => some (.proxiedAuthorization (asBytes pa.authzid))
  | relaxRules => some .relaxRules
  | syncRequest sr => some (.syncRequest sr.mode sr.cookie sr.reloadHint)
  | txnSpec txn => some (.transactionSpecification (asBytes txn.txnId))

/-- The specifications that have a control critical. -/
def alwaysCritical : TypedControl → Bool
  | proxyAuth _ | txnSpec _ => true
  | _ => false

/-- A page size is in the range the protocol has for it. -/
def InRange : TypedControl → Prop
  | pagedResults pr => 0 ≤ pr.size ∧ pr.size < 2 ^ 31
  | _ => True

variable {c : TypedControl} {rc : RawControl}

/-- **A control is converted exactly when it has a meaning.** -/
theorem exists_raw_iff : (∃ rc, c.raw = .ok rc) ↔ ∃ m, c.meaning = some m := by
  cases c with
  | assertion assn =>
    rw [raw, meaning, Assertion.raw]
    rcases FilterParser.parse (asBytes assn.filter) with - | t
    · exact iff_of_false (by simp) (by simp [Except.toOption])
    · exact iff_of_true ⟨_, rfl⟩ ⟨_, rfl⟩
  | matchedValues assn =>
    rw [raw, meaning, MatchedValues.raw]
    rcases hparse : FilterParser.parseMatchedValues (asBytes assn.filter) with - | t
    · exact iff_of_false (by simp) (by simp)
    · obtain ⟨-, ts, rfl, -⟩ := Grammar.valuesReturnFilter_of_parse hparse
      exact iff_of_true ⟨_, rfl⟩ ⟨_, rfl⟩
  | _ => exact iff_of_true ⟨_, rfl⟩ ⟨_, rfl⟩

/-- A tree written for a control is read by the reader of its identifier. -/
theorem reads_tree {name : String} {read : StructureTag → Option ControlMeaning}
    (hname : requestControls.lookup name = some (.tree read)) {t : StructureTag}
    (hids : t.IdsLe 30) {m : ControlMeaning} (hread : read t = some m)
    (hlt : ∀ w ∈ some (encodeInto t), w.length < 2 ^ 64) :
    requestControls.Reads (asBytes name) (some (encodeInto t)) m :=
  ⟨name, _, rfl, hname, ValueReader.readsTree_encodeInto hids hread hlt⟩

/-- **A converted control is read as what it is.** -/
theorem reads_raw (hrange : c.InRange) (h : c.raw = .ok rc)
    (hlt : ∀ w ∈ rc.val, w.length < 2 ^ 64) :
    rc.crit = c.alwaysCritical ∧ ∃ m, c.meaning = some m ∧
      requestControls.Reads (asBytes rc.ctype) rc.val m := by
  cases c with
  | assertion assn =>
    rw [raw, Assertion.raw] at h
    rcases hparse : FilterParser.parse (asBytes assn.filter) with e | t
    · rw [hparse] at h
      cases h
    · rw [hparse] at h
      obtain rfl := Except.ok.inj h
      obtain ⟨hfilter, hids⟩ := Grammar.filter_of_parse hparse
      refine ⟨rfl, _, by rw [meaning, hparse]; rfl, reads_tree rfl hids ?_ hlt⟩
      rw [Grammar.assertionControl, hfilter]
      rfl
  | matchedValues assn =>
    rw [raw, MatchedValues.raw] at h
    rcases hparse : FilterParser.parseMatchedValues (asBytes assn.filter) with e | t
    · rw [hparse] at h
      cases h
    · rw [hparse] at h
      obtain rfl := Except.ok.inj h
      obtain ⟨hids, ts, rfl, hread⟩ := Grammar.valuesReturnFilter_of_parse hparse
      exact ⟨rfl, _, by rw [meaning, hparse]; rfl, reads_tree rfl hids hread hlt⟩
  | pagedResults pr =>
    obtain rfl := Except.ok.inj h
    exact ⟨rfl, _, rfl, reads_tree rfl pr.idsLe_tag (Grammar.pagedResultsControl_tag hrange) hlt⟩
  | preRead attrs =>
    obtain rfl := Except.ok.inj h
    obtain ⟨t, hval, hids, hread⟩ := Grammar.attributeSelection_raw ⟨attrs, PRE_READ_OID⟩
    rw [PreRead.raw, hval] at hlt ⊢
    exact ⟨rfl, _, rfl, reads_tree rfl hids (by rw [hread]; rfl) hlt⟩
  | postRead attrs =>
    obtain rfl := Except.ok.inj h
    obtain ⟨t, hval, hids, hread⟩ := Grammar.attributeSelection_raw ⟨attrs, POST_READ_OID⟩
    rw [PostRead.raw, hval] at hlt ⊢
    exact ⟨rfl, _, rfl, reads_tree rfl hids (by rw [hread]; rfl) hlt⟩
  | syncRequest sr =>
    obtain rfl := Except.ok.inj h
    obtain ⟨t, hval, hids, hread⟩ := Grammar.syncRequestControl_raw sr
    rw [hval] at hlt ⊢
    exact ⟨rfl, _, rfl, reads_tree rfl hids hread hlt⟩
  | manageDsaIt | relaxRules =>
    obtain rfl := Except.ok.inj h
    exact ⟨rfl, _, rfl, _, _, rfl, rfl, rfl, rfl⟩
  | proxyAuth | txnSpec =>
    obtain rfl := Except.ok.inj h
    exact ⟨rfl, _, rfl, _, _, rfl, rfl, _, rfl, rfl⟩

end TypedControl

namespace MaybeCritical

/-- A control is critical if it was made so, or if it always is. -/
def criticality (c : MaybeCritical) : Bool :=
  c.critical || c.control.alwaysCritical

/-- What a server is to read. -/
def meaning (c : MaybeCritical) : Option (ControlMeaning × Bool) :=
  c.control.meaning.map fun m ↦ (m, c.criticality)

variable {c : MaybeCritical} {rc : RawControl}

theorem reads_raw (hrange : c.control.InRange) (h : c.raw = .ok rc)
    (hlt : ∀ w ∈ rc.val, w.length < 2 ^ 64) :
    ∃ x, c.meaning = some x ∧ requestControls.ReadsControl rc.request x := by
  obtain ⟨rc₀, hrc₀, hval, htype, hcrit⟩ : ∃ rc₀, c.control.raw = .ok rc₀ ∧ rc.val = rc₀.val ∧
      rc.ctype = rc₀.ctype ∧ rc.crit = (c.critical || rc₀.crit) := by
    rw [raw] at h
    rcases hc : c.critical with - | -
    · rw [hc, if_neg Bool.false_ne_true] at h
      exact ⟨rc, h, rfl, rfl, rfl⟩
    · rw [hc, if_pos rfl] at h
      rcases hraw : c.control.raw with e | rc₀
      · rw [hraw] at h
        cases h
      · rw [hraw] at h
        obtain rfl := Except.ok.inj h
        exact ⟨rc₀, rfl, rfl, rfl, rfl⟩
  rw [hval] at hlt
  obtain ⟨halways, m, hm, hreads⟩ := TypedControl.reads_raw hrange hrc₀ hlt
  refine ⟨(m, c.criticality), by rw [meaning, hm]; rfl, ?_, ?_⟩
  · rw [RawControl.request, hval, htype]
    exact hreads
  · show rc.crit = c.criticality
    rw [hcrit, halways, criticality]

theorem exists_raw_iff : (∃ rc, c.raw = .ok rc) ↔ ∃ m, c.control.meaning = some m := by
  rw [← TypedControl.exists_raw_iff, raw]
  split
  · rcases c.control.raw with e | rc
    · exact iff_of_false (by simp [Except.map]) (by simp)
    · exact iff_of_true ⟨_, rfl⟩ ⟨_, rfl⟩
  · exact Iff.rfl

/-- So is a list of them. -/
theorem reads_list {cs : List MaybeCritical} {rcs : List RawControl}
    (hrange : ∀ c ∈ cs, c.control.InRange) (hlt : ∀ rc ∈ rcs, ∀ w ∈ rc.val, w.length < 2 ^ 64)
    (h : List.Forall₂ (fun c rc ↦ MaybeCritical.raw c = .ok rc) cs rcs) :
    ∃ xs, List.Forall₂ (fun c x ↦ c.meaning = some x) cs xs ∧
      List.Forall₂ (fun rc x ↦ requestControls.ReadsControl (RawControl.request rc) x) rcs xs := by
  induction h with
  | nil => exact ⟨[], .nil, .nil⟩
  | @cons c rc cs rcs hc _ ih =>
    rw [List.forall_mem_cons] at hrange hlt
    obtain ⟨x, hx, hreads⟩ := reads_raw hrange.1 hc hlt.1
    obtain ⟨xs, hxs, hall⟩ := ih hrange.2 hlt.2
    exact ⟨x :: xs, .cons hx hxs, .cons hreads hall⟩

end MaybeCritical

/-! ### What a message says -/

/-- What a request with a list of controls is read as. -/
theorem readsControls_iff {S : Type} [AsRef S] {cs : List MaybeCritical}
    (hrange : ∀ c ∈ cs, c.control.InRange) {rcs : List RawControl}
    (hraw : cs.mapM MaybeCritical.raw = .ok rcs) (r : IssuedRequest S)
    (hrcs : r.controls = some rcs) :
    ∃ xs, List.Forall₂ (fun c x ↦ c.meaning = some x) cs xs ∧
      ∀ xs', Grammar.ReadsControls requestControls r.encoded xs' ↔ xs' = xs := by
  obtain ⟨xs, hxs, hreads⟩ := MaybeCritical.reads_list hrange
    (fun rc hrc ↦ r.length_val_lt hrcs hrc) (mapM_eq_ok_iff.1 hraw)
  exact ⟨xs, hxs, Grammar.controls_iff r hrcs hreads⟩

/-- **Controls reach the server as they were meant.** A list of controls is converted unless one of
them has a filter that cannot be parsed. If the sizes of pages in it are in the range of the
protocol, then for every request that goes out with the list there is the list of the meanings, and
the octets are read as a request with the controls of this list, in its order and with their
criticalities, and with no other. -/
theorem controls_read {S : Type} [AsRef S] {cs : List MaybeCritical} :
    ((∃ rcs, cs.mapM MaybeCritical.raw = .ok rcs) ↔ ∀ c ∈ cs, ∃ m, c.control.meaning = some m) ∧
    ((∀ c ∈ cs, c.control.InRange) → ∀ rcs, cs.mapM MaybeCritical.raw = .ok rcs →
      ∀ r : IssuedRequest S, r.controls = some rcs →
        ∃ xs, List.Forall₂ (fun c x ↦ c.meaning = some x) cs xs ∧
          ∀ xs', Grammar.ReadsControls requestControls r.encoded xs' ↔ xs' = xs) := by
  refine ⟨?_, fun hrange rcs hraw r hrcs ↦ readsControls_iff hrange hraw r hrcs⟩
  rw [exists_mapM_eq_ok_iff]
  exact forall₂_congr fun c _ ↦ MaybeCritical.exists_raw_iff

/-- A delete request with a critical assertion and a page size. -/
def deleteControls : List MaybeCritical :=
  [⟨.assertion ⟨"(a=b)"⟩, true, fun _ ↦ rfl⟩,
    ⟨.pagedResults ⟨5, []⟩, false, fun h ↦ absurd h Bool.false_ne_true⟩]

def deleteIssued : IssuedRequest String where
  id := 1
  call := .delete "cn=a"
  opts := {}
  controls := some
    [⟨ASSERTION_OID, true, some [0xA3, 0x06, 0x04, 0x01, 0x61, 0x04, 0x01, 0x62]⟩,
      ⟨PAGED_RESULTS_OID, false, some [0x30, 0x05, 0x02, 0x01, 0x05, 0x04, 0x00]⟩]
  req := Request.delete "cn=a"
  id_range := firstId_range
  in_range := trivial
  request_eq := rfl
  fits := by decide +kernel

theorem controls_read_delete :
    Grammar.ReadsControls requestControls deleteIssued.encoded [(.assertion ⟨.context, 3, .C
      [⟨.universal, 4, .P [0x61]⟩, ⟨.universal, 4, .P [0x62]⟩]⟩, true),
      (.pagedResults 5 [], false)] := by
  have hrange : ∀ c ∈ deleteControls, c.control.InRange := by
    simp [deleteControls, TypedControl.InRange]
  obtain ⟨xs, hxs, hreads⟩ := controls_read.2 hrange _ (by decide +kernel) deleteIssued rfl
  obtain ⟨x, xs₁, hx, hxs₁, rfl⟩ := List.forall₂_cons_left_iff.1 hxs
  obtain ⟨y, xs₂, hy, hxs₂, rfl⟩ := List.forall₂_cons_left_iff.1 hxs₁
  obtain rfl := List.forall₂_nil_left_iff.1 hxs₂
  have hassertion : (.assertion ⟨.context, 3, .C
      [⟨.universal, 4, .P [0x61]⟩, ⟨.universal, 4, .P [0x62]⟩]⟩, true) = x :=
    Option.some.inj (Eq.trans (by decide +kernel) hx)
  refine (hreads _).2 ?_
  rw [hassertion, ← Option.some.inj hy]
  rfl

end Controls

end Ldap3
