import Ldap3.Result

/-!
# Result entries

`SearchEntry::construct` of `src/search.rs`: the octets of an entry, taken apart into a map of text
attributes and a map of binary ones. `ReadEntryResp::parse` of the Pre-Read and Post-Read controls
makes its maps in the same way.

An attribute may come in several parts. Every part goes to one of the maps by its own values: to
the binary one if a value is not UTF-8, behind what is stored there under the name; to the other
one otherwise, in place of what is stored there. Both maps after the loop are a matter of the parts
under each name (`attrs_run`, `binAttrs_run`), and so is whether its values are all there, and in
one map (`construct_keeps_iff`).
-/

namespace Ldap3

/-- Octets that are text are the octets of the text. -/
theorem asBytes_of_fromUtf8 {v : List UInt8} {s : String} (h : fromUtf8 v = some s) :
    asBytes s = v := by
  rw [fromUtf8, String.fromUTF8?] at h
  split at h
  · obtain rfl := Option.some.inj h
    exact v.toList_data_toByteArray
  · cases h

/-! ### The code -/

/-- A `HashMap` from attribute names to lists of values. -/
abbrev AttrMap (α : Type) :=
  String → Option (List α)

/-- `SearchEntry`. -/
structure SearchEntry where
  dn : String
  attrs : AttrMap String
  binAttrs : AttrMap (List UInt8)

/-- The two maps while they are filled. -/
structure AttrVals where
  attrVals : AttrMap String
  binAttrVals : AttrMap (List UInt8)

/-- `entry(..).or_insert_with(Vec::new).push(..)`. -/
def pushValue (binAttrVals : AttrMap (List UInt8)) (aType : String) (s : List UInt8) :
    AttrMap (List UInt8) :=
  Function.update binAttrVals aType (some ((binAttrVals aType).getD [] ++ [s]))

/-- The `filter_map` over the values, with what its closure captures: the map and the flag
`any_binary`. -/
def collectValues (aType : String) (binAttrVals : AttrMap (List UInt8)) :
    List (List UInt8) → AttrMap (List UInt8) × Bool × List String
  | [] => (binAttrVals, false, [])
  | s :: vals =>
    match fromUtf8 s with
    | some text =>
      let (binAttrVals, anyBinary, values) := collectValues aType binAttrVals vals
      (binAttrVals, anyBinary, text :: values)
    | none =>
      let (binAttrVals, _, values) := collectValues aType (pushValue binAttrVals aType s) vals
      (binAttrVals, true, values)

/-- The body of the loop over the attributes. -/
def addAttribute (m : AttrVals) (aV : StructureTag) : Except Fault AttrVals := do
  let partAttr ← expect aV.expectConstructed "partial attribute"
  let typeTag ← expect partAttr.head? "element"
  let aType ← expectText typeTag "attribute type"
  let valsTag ← expect partAttr.tail.head? "element"
  let vals ← expect valsTag.expectConstructed "values"
  let vals ← vals.mapM fun t ↦ expect t.expectPrimitive "octet string"
  let (binAttrVals, anyBinary, values) := collectValues aType m.binAttrVals vals
  if anyBinary then
    let stored ← expect (binAttrVals aType) "bin vector"
    return ⟨m.attrVals, Function.update binAttrVals aType (some (stored ++ values.map asBytes))⟩
  else
    return ⟨Function.update m.attrVals aType (some values), binAttrVals⟩

/-- `SearchEntry::construct`. The controls of the entry are dropped. -/
def SearchEntry.construct (re : StructureTag) : Except Fault SearchEntry := do
  let tags ← expect (re.matchId 4 >>= (·.expectConstructed)) "entry"
  let dnTag ← expect tags.head? "element"
  let dn ← expectText dnTag "dn"
  let attrsTag ← expect tags.tail.head? "element"
  let attrs ← expect attrsTag.expectConstructed "attrs"
  let m ← attrs.foldlM addAttribute ⟨fun _ ↦ none, fun _ ↦ none⟩
  return ⟨dn, m.attrVals, m.binAttrVals⟩

/-- `ReadEntryResp`. -/
structure ReadEntryResp where
  attrs : AttrMap String
  binAttrs : AttrMap (List UInt8)

/-- `ReadEntryResp::parse`. -/
def ReadEntryResp.parse (val : List UInt8) : Except Fault ReadEntryResp := do
  match parseTag val with
  | .error _ => throw (.panic "failed to parse pre-read attribute values")
  | .ok (_, tag) =>
    let se ← SearchEntry.construct tag
    return ⟨se.attrs, se.binAttrs⟩

/-! ### Entries on the wire -/

/-- The values of an attribute, or some of them. -/
structure PartialAttribute where
  type : String
  vals : List (List UInt8)

def PartialAttribute.tag (part : PartialAttribute) : StructureTag :=
  ⟨.universal, Types.sequence, .C
    [octetStringTag (asBytes part.type),
      ⟨.universal, Types.set, .C (part.vals.map octetStringTag)⟩]⟩

/-- A result entry as a server may send it. -/
structure SearchResultEntry where
  objectName : String
  attributes : List PartialAttribute

namespace SearchResultEntry

def tag (e : SearchResultEntry) : StructureTag :=
  ⟨.application, 4, .C
    [octetStringTag (asBytes e.objectName),
      ⟨.universal, Types.sequence, .C (e.attributes.map PartialAttribute.tag)⟩]⟩

/-- The values of every part under the name, in order. -/
def parts (e : SearchResultEntry) (d : String) : List (List (List UInt8)) :=
  (e.attributes.filter (·.type = d)).map PartialAttribute.vals

/-- All values sent under the name. -/
def sent (e : SearchResultEntry) (d : String) : List (List UInt8) :=
  (e.parts d).flatten

def names (e : SearchResultEntry) : List String :=
  e.attributes.map PartialAttribute.type

theorem parts_eq_nil_iff {e : SearchResultEntry} {d : String} : e.parts d = [] ↔ d ∉ e.names := by
  simp [parts, names, List.filter_eq_nil_iff]

end SearchResultEntry

/-! ### One part -/

/-- Some value is not UTF-8. -/
def Binary (vals : List (List UInt8)) : Prop :=
  ∃ v ∈ vals, fromUtf8 v = none

instance (vals : List (List UInt8)) : Decidable (Binary vals) :=
  inferInstanceAs (Decidable (∃ v ∈ vals, _))

def texts (vals : List (List UInt8)) : List String :=
  vals.filterMap fromUtf8

def binaries (vals : List (List UInt8)) : List (List UInt8) :=
  vals.filter fun v ↦ fromUtf8 v = none

/-- The values of a part in the order of the binary map. -/
def stored (vals : List (List UInt8)) : List (List UInt8) :=
  binaries vals ++ (texts vals).map asBytes

theorem binaries_eq_nil_iff {vals : List (List UInt8)} : binaries vals = [] ↔ ¬Binary vals := by
  simp [binaries, Binary, List.filter_eq_nil_iff]

/-- Text values come back whole. -/
theorem map_texts {vals : List (List UInt8)} (h : ¬Binary vals) :
    (texts vals).map asBytes = vals := by
  induction vals with
  | nil => rfl
  | cons v vals ih =>
    simp only [Binary, List.exists_mem_cons_iff, not_or] at h
    obtain ⟨text, htext⟩ := Option.ne_none_iff_exists'.1 h.1
    rw [texts, List.filterMap_cons_some htext, List.map_cons, asBytes_of_fromUtf8 htext]
    exact congrArg _ (ih h.2)

/-- The binary map loses no value of a part, and adds none. -/
theorem stored_perm (vals : List (List UInt8)) : (stored vals).Perm vals := by
  induction vals with
  | nil => exact .nil
  | cons v vals ih =>
    rcases htext : fromUtf8 v with - | text
    · have hbin : binaries (v :: vals) = v :: binaries vals :=
        List.filter_cons_of_pos (by simpa using htext)
      rw [stored, hbin, texts, List.filterMap_cons_none htext, List.cons_append]
      exact ih.cons v
    · have hbin : binaries (v :: vals) = binaries vals :=
        List.filter_cons_of_neg (by simp [htext])
      rw [stored, hbin, texts, List.filterMap_cons_some htext, List.map_cons,
        asBytes_of_fromUtf8 htext]
      exact List.perm_middle.trans (ih.cons v)

/-- The closure stores the binary values, and the text values are what remains. -/
theorem collectValues_eq (aType : String) (bin : AttrMap (List UInt8))
    (vals : List (List UInt8)) :
    collectValues aType bin vals =
      (if Binary vals then
        Function.update bin aType (some ((bin aType).getD [] ++ binaries vals)) else bin,
        decide (Binary vals), texts vals) := by
  induction vals generalizing bin with
  | nil => rfl
  | cons v vals ih =>
    rw [collectValues]
    rcases htext : fromUtf8 v with - | text
    · have hbinary : Binary (v :: vals) := ⟨v, List.mem_cons_self, htext⟩
      have hbin : binaries (v :: vals) = v :: binaries vals :=
        List.filter_cons_of_pos (by simpa using htext)
      simp only [ih, hbinary, decide_true, if_true, hbin, pushValue, Function.update_self,
        Function.update_idem, Option.getD_some, List.append_assoc, List.singleton_append, texts,
        List.filterMap_cons_none htext]
      split_ifs with hrest
      · rfl
      · rw [binaries_eq_nil_iff.2 hrest]
    · have hbinary : Binary (v :: vals) ↔ Binary vals := by
        simp [Binary, htext]
      have hbin : binaries (v :: vals) = binaries vals :=
        List.filter_cons_of_neg (by simp [htext])
      simp only [ih, hbinary, hbin, texts, List.filterMap_cons_some htext]

/-- What a part does to the maps. -/
def AttrVals.add (m : AttrVals) (part : PartialAttribute) : AttrVals :=
  if Binary part.vals then
    ⟨m.attrVals, Function.update m.binAttrVals part.type
      (some ((m.binAttrVals part.type).getD [] ++ stored part.vals))⟩
  else
    ⟨Function.update m.attrVals part.type (some (texts part.vals)), m.binAttrVals⟩

theorem addAttribute_tag (m : AttrVals) (part : PartialAttribute) :
    addAttribute m part.tag = .ok (m.add part) := by
  have htype : expectText (octetStringTag (asBytes part.type)) "attribute type" = .ok part.type :=
    expectText_asBytes _ _ _ _
  simp only [addAttribute, PartialAttribute.tag, StructureTag.expectConstructed_C, expect_some,
    List.head?_cons, List.tail_cons, htype, mapM_octetStringTag, bind, Except.bind,
    collectValues_eq, AttrVals.add]
  by_cases hbinary : Binary part.vals
  · simp only [decide_true, hbinary, if_true, Function.update_self, expect_some,
      Function.update_idem, List.append_assoc, stored]
    rfl
  · simp only [hbinary, decide_false, Bool.false_eq_true, if_false]
    rfl

/-! ### All parts -/

/-- What the text map holds of the parts under a name. -/
def textVals (ps : List (List (List UInt8))) : Option (List String) :=
  (ps.filter (¬Binary ·)).getLast?.map texts

/-- What the binary map holds of the parts under a name. -/
def binaryVals (ps : List (List (List UInt8))) : Option (List (List UInt8)) :=
  if ps.filter (Binary ·) = [] then none else some ((ps.filter (Binary ·)).flatMap stored)

section

variable {ps : List (List (List UInt8))} {vals : List (List UInt8)}

theorem textVals_concat (h : ¬Binary vals) : textVals (ps ++ [vals]) = some (texts vals) := by
  rw [textVals, List.filter_append, List.filter_cons_of_pos (by simpa using h), List.filter_nil,
    List.getLast?_concat, Option.map_some]

theorem textVals_concat_of_binary (h : Binary vals) : textVals (ps ++ [vals]) = textVals ps := by
  rw [textVals, List.filter_append, List.filter_cons_of_neg (by simpa using h), List.filter_nil,
    List.append_nil, textVals]

theorem binaryVals_concat (h : Binary vals) :
    binaryVals (ps ++ [vals]) = some ((binaryVals ps).getD [] ++ stored vals) := by
  have hfilter : (ps ++ [vals]).filter (Binary ·) = ps.filter (Binary ·) ++ [vals] := by
    rw [List.filter_append, List.filter_cons_of_pos (by simpa using h), List.filter_nil]
  rw [binaryVals, hfilter, if_neg (List.append_ne_nil_of_right_ne_nil _ (List.cons_ne_nil _ _)),
    List.flatMap_append, List.flatMap_singleton, binaryVals]
  split_ifs with hnil
  · rw [hnil]
    rfl
  · rfl

theorem binaryVals_concat_of_text (h : ¬Binary vals) :
    binaryVals (ps ++ [vals]) = binaryVals ps := by
  have hfilter : (ps ++ [vals]).filter (Binary ·) = ps.filter (Binary ·) := by
    rw [List.filter_append, List.filter_cons_of_neg (by simpa using h), List.filter_nil,
      List.append_nil]
  rw [binaryVals, hfilter, binaryVals]

end

namespace SearchResultEntry

variable {e : SearchResultEntry} {d : String}

/-- The maps after the loop. -/
def attrVals (e : SearchResultEntry) : AttrVals :=
  e.attributes.foldl AttrVals.add ⟨fun _ ↦ none, fun _ ↦ none⟩

theorem construct_tag (e : SearchResultEntry) :
    SearchEntry.construct e.tag =
      .ok ⟨e.objectName, e.attrVals.attrVals, e.attrVals.binAttrVals⟩ := by
  have hfold : ∀ m, (e.attributes.map PartialAttribute.tag).foldlM addAttribute m =
      Except.ok (e.attributes.foldl AttrVals.add m) := by
    intro m
    induction e.attributes generalizing m with
    | nil => rfl
    | cons part parts ih =>
      rw [List.map_cons, List.foldlM_cons, addAttribute_tag]
      exact ih (m.add part)
  have hdn : expectText (octetStringTag (asBytes e.objectName)) "dn" = .ok e.objectName :=
    expectText_asBytes _ _ _ _
  simp only [SearchEntry.construct, tag, StructureTag.matchId, if_true, Option.bind_some,
    StructureTag.expectConstructed_C, expect_some, List.head?_cons, List.tail_cons, hdn, bind,
    Except.bind, hfold]
  rfl

theorem attrVals_concat (dn : String) (attributes : List PartialAttribute)
    (part : PartialAttribute) :
    attrVals ⟨dn, attributes ++ [part]⟩ = (attrVals ⟨dn, attributes⟩).add part := by
  rw [attrVals, List.foldl_append]
  rfl

theorem parts_concat (dn : String) (attributes : List PartialAttribute) (part : PartialAttribute)
    (d : String) :
    parts ⟨dn, attributes ++ [part]⟩ d =
      parts ⟨dn, attributes⟩ d ++ if part.type = d then [part.vals] else [] := by
  by_cases hname : part.type = d <;> simp [parts, List.filter_append, hname]

/-- The text map holds the last part without a binary value. -/
theorem attrs_run (e : SearchResultEntry) (d : String) :
    e.attrVals.attrVals d = textVals (e.parts d) := by
  rcases e with ⟨dn, attributes⟩
  induction attributes using List.reverseRecOn with
  | nil => rfl
  | append_singleton attributes part ih =>
    rw [attrVals_concat, parts_concat, AttrVals.add]
    by_cases hname : part.type = d
    · subst hname
      by_cases hbinary : Binary part.vals
      · rw [if_pos hbinary, if_pos rfl, textVals_concat_of_binary hbinary, ← ih]
      · rw [if_neg hbinary, if_pos rfl, textVals_concat hbinary]
        exact Function.update_self _ _ _
    · rw [if_neg hname, List.append_nil, ← ih]
      by_cases hbinary : Binary part.vals
      · rw [if_pos hbinary]
      · rw [if_neg hbinary]
        exact Function.update_of_ne (Ne.symm hname) _ _

/-- The binary map holds all parts with a binary value. -/
theorem binAttrs_run (e : SearchResultEntry) (d : String) :
    e.attrVals.binAttrVals d = binaryVals (e.parts d) := by
  rcases e with ⟨dn, attributes⟩
  induction attributes using List.reverseRecOn with
  | nil => rfl
  | append_singleton attributes part ih =>
    rw [attrVals_concat, parts_concat, AttrVals.add]
    by_cases hname : part.type = d
    · subst hname
      by_cases hbinary : Binary part.vals
      · rw [if_pos hbinary, if_pos rfl, binaryVals_concat hbinary, ← ih]
        exact Function.update_self _ _ _
      · rw [if_neg hbinary, if_pos rfl, binaryVals_concat_of_text hbinary, ← ih]
    · rw [if_neg hname, List.append_nil, ← ih]
      by_cases hbinary : Binary part.vals
      · rw [if_pos hbinary]
        exact Function.update_of_ne (Ne.symm hname) _ _
      · rw [if_neg hbinary]

/-! ### Values kept -/

/-- The name is in one of the maps, in the binary one if a value sent under it is not UTF-8, and
with all these values. -/
structure Keeps (e : SearchResultEntry) (se : SearchEntry) (d : String) : Prop where
  one_map : (se.attrs d).isSome ↔ ¬(se.binAttrs d).isSome
  binary_iff : (se.binAttrs d).isSome ↔ Binary (e.sent d)
  attrs_perm : ∀ vals, se.attrs d = some vals → (vals.map asBytes).Perm (e.sent d)
  binAttrs_perm : ∀ vals, se.binAttrs d = some vals → vals.Perm (e.sent d)

/-- The parts under the name are all binary, or all text, and then the last one has all the
values. -/
def Together (e : SearchResultEntry) (d : String) : Prop :=
  (∀ vals ∈ e.parts d, Binary vals) ∨
    (∀ vals ∈ e.parts d, ¬Binary vals) ∧ ∀ vals ∈ (e.parts d).dropLast, vals = []

instance (e : SearchResultEntry) (d : String) : Decidable (e.Together d) :=
  inferInstanceAs (Decidable ((∀ vals ∈ _, _) ∨ (∀ vals ∈ _, _) ∧ ∀ vals ∈ _, _))

theorem binary_sent_iff : Binary (e.sent d) ↔ ∃ vals ∈ e.parts d, Binary vals := by
  simp only [Binary, sent, List.mem_flatten]
  constructor
  · rintro ⟨v, ⟨vals, hvals, hv⟩, hnone⟩
    exact ⟨vals, hvals, v, hv, hnone⟩
  · rintro ⟨vals, hvals, v, hv, hnone⟩
    exact ⟨v, ⟨vals, hvals, hv⟩, hnone⟩

theorem textVals_eq_none_iff {ps : List (List (List UInt8))} :
    textVals ps = none ↔ ∀ vals ∈ ps, Binary vals := by
  simp [textVals]

theorem binaryVals_eq_none_iff {ps : List (List (List UInt8))} :
    binaryVals ps = none ↔ ∀ vals ∈ ps, ¬Binary vals := by
  simp [binaryVals, List.filter_eq_nil_iff]

/-- Parts that are all binary are all stored. -/
theorem binaryVals_of_forall {ps : List (List (List UInt8))} (hne : ps ≠ [])
    (h : ∀ vals ∈ ps, Binary vals) : binaryVals ps = some (ps.flatMap stored) := by
  have hfilter : ps.filter (Binary ·) = ps :=
    List.filter_eq_self.2 fun vals hvals ↦ decide_eq_true (h vals hvals)
  rw [binaryVals, hfilter, if_neg hne]

/-- Of parts that are all text, the last one is stored. -/
theorem textVals_of_forall {ps : List (List (List UInt8))} (hne : ps ≠ [])
    (h : ∀ vals ∈ ps, ¬Binary vals) : textVals ps = some (texts (ps.getLast hne)) := by
  have hfilter : ps.filter (¬Binary ·) = ps :=
    List.filter_eq_self.2 fun vals hvals ↦ decide_eq_true (h vals hvals)
  rw [textVals, hfilter, List.getLast?_eq_getLast_of_ne_nil hne, Option.map_some]

theorem sent_eq (hne : e.parts d ≠ []) :
    e.sent d = (e.parts d).dropLast.flatten ++ (e.parts d).getLast hne := by
  conv_lhs => rw [sent, ← List.dropLast_concat_getLast hne]
  rw [List.flatten_append, List.flatten_singleton]

/-- The maps keep the values of a name just when its parts belong together. -/
theorem keeps_iff {se : SearchEntry} (hne : e.parts d ≠ [])
    (hattrs : se.attrs d = textVals (e.parts d)) (hbin : se.binAttrs d = binaryVals (e.parts d)) :
    e.Keeps se d ↔ e.Together d := by
  constructor
  · intro h
    by_cases hall : ∀ vals ∈ e.parts d, Binary vals
    · exact .inl hall
    -- A part without a binary value is in the text map, so none is in the other one.
    have hsome : (se.attrs d).isSome := by
      rw [Option.isSome_iff_ne_none, hattrs, Ne, textVals_eq_none_iff]
      exact hall
    have hnone := h.one_map.1 hsome
    rw [Option.not_isSome_iff_eq_none, hbin, binaryVals_eq_none_iff] at hnone
    have hvals := textVals_of_forall hne hnone
    have hlast := hnone _ (List.getLast_mem hne)
    have hperm := h.attrs_perm _ (hattrs.trans hvals)
    rw [map_texts hlast, sent_eq hne] at hperm
    have hlen := hperm.length_eq
    rw [List.length_append, Nat.right_eq_add, List.length_eq_zero_iff, List.flatten_eq_nil_iff]
      at hlen
    exact .inr ⟨hnone, hlen⟩
  · rintro (hall | ⟨hall, hfirst⟩)
    · have hvals := binaryVals_of_forall hne hall
      have hnone := textVals_eq_none_iff.2 hall
      obtain ⟨vals, hmem⟩ := List.exists_mem_of_ne_nil _ hne
      refine ⟨?_, ?_, ?_, ?_⟩
      · simp [hattrs, hbin, hvals, hnone]
      · simp only [hbin, hvals, Option.isSome_some, true_iff, binary_sent_iff]
        exact ⟨vals, hmem, hall vals hmem⟩
      · intro vals' heq
        rw [hattrs, hnone] at heq
        cases heq
      · intro vals' heq
        rw [hbin, hvals] at heq
        obtain rfl := Option.some.inj heq
        rw [sent, ← List.flatMap_id]
        exact List.Perm.flatMap_left _ fun vals _ ↦ stored_perm vals
    · have hvals := textVals_of_forall hne hall
      have hnone := binaryVals_eq_none_iff.2 hall
      refine ⟨?_, ?_, ?_, ?_⟩
      · simp [hattrs, hbin, hvals, hnone]
      · simp only [hbin, hnone, Option.isSome_none, Bool.false_eq_true, false_iff,
          binary_sent_iff]
        rintro ⟨vals, hmem, hbinary⟩
        exact hall vals hmem hbinary
      · intro vals' heq
        rw [hattrs, hvals] at heq
        obtain rfl := Option.some.inj heq
        rw [map_texts (hall _ (List.getLast_mem hne)), sent_eq hne,
          List.flatten_eq_nil_iff.2 hfirst, List.nil_append]
      · intro vals' heq
        rw [hbin, hnone] at heq
        cases heq

theorem maps_of_construct {se : SearchEntry} (h : SearchEntry.construct e.tag = .ok se)
    (d : String) :
    se.attrs d = textVals (e.parts d) ∧ se.binAttrs d = binaryVals (e.parts d) := by
  rw [construct_tag] at h
  obtain rfl := Except.ok.inj h
  exact ⟨attrs_run e d, binAttrs_run e d⟩

/-- **An entry keeps its values** exactly when the parts under every name belong together. The maps
have no other names in any case. -/
theorem construct_keeps_iff (e : SearchResultEntry) :
    (∃ se, SearchEntry.construct e.tag = .ok se ∧ se.dn = e.objectName ∧
        (∀ d ∈ e.names, e.Keeps se d) ∧
        ∀ d ∉ e.names, se.attrs d = none ∧ se.binAttrs d = none) ↔
      ∀ d ∈ e.names, e.Together d := by
  have hparts : ∀ d ∈ e.names, e.parts d ≠ [] := by
    intro d hd hnil
    exact parts_eq_nil_iff.1 hnil hd
  constructor
  · rintro ⟨se, hse, -, hkeeps, -⟩ d hd
    obtain ⟨hattrs, hbin⟩ := maps_of_construct hse d
    exact (keeps_iff (hparts d hd) hattrs hbin).1 (hkeeps d hd)
  · intro h
    refine ⟨_, construct_tag e, rfl, fun d hd ↦ ?_, fun d hd ↦ ?_⟩
    · obtain ⟨hattrs, hbin⟩ := maps_of_construct (construct_tag e) d
      exact (keeps_iff (hparts d hd) hattrs hbin).2 (h d hd)
    · have hmaps := maps_of_construct (construct_tag e) d
      rwa [parts_eq_nil_iff.2 hd] at hmaps

/-- Of two parts with text values the maps have the second one only. -/
theorem construct_not_keeps :
    ¬∃ se, SearchEntry.construct
          (tag ⟨"cn=a", [⟨"mail", [asBytes "a"]⟩, ⟨"mail", [asBytes "b"]⟩]⟩) = .ok se ∧
        Keeps ⟨"cn=a", [⟨"mail", [asBytes "a"]⟩, ⟨"mail", [asBytes "b"]⟩]⟩ se "mail" := by
  rintro ⟨se, hse, hkeeps⟩
  obtain ⟨hattrs, hbin⟩ := maps_of_construct hse "mail"
  have htogether := (keeps_iff (by decide) hattrs hbin).1 hkeeps
  revert htogether
  decide

/-- Names that occur once belong together. -/
theorem together_of_nodup (h : e.names.Nodup) (d : String) : e.Together d := by
  have hlen : (e.parts d).length ≤ 1 := by
    have hcount := List.nodup_iff_count_le_one.1 h d
    rwa [names, List.count_eq_countP, List.countP_map, List.countP_eq_length_filter,
      ← List.length_map PartialAttribute.vals] at hcount
  rcases hparts : e.parts d with - | ⟨vals, - | ⟨vals', ps⟩⟩
  · exact .inl (by simp [hparts])
  · by_cases hbinary : Binary vals
    · exact .inl (by simpa [hparts] using hbinary)
    · exact .inr (by simpa [hparts] using hbinary)
  · rw [hparts] at hlen
    simp at hlen

/-- The maps of a Pre-Read or Post-Read control are those of the entry in it, however the entry is
encoded. -/
theorem readEntry_parse_of_ber {w : List UInt8} (h : Ber e.tag w) (hlt : w.length < 2 ^ 64) :
    ReadEntryResp.parse w = .ok ⟨e.attrVals.attrVals, e.attrVals.binAttrVals⟩ := by
  simp only [ReadEntryResp.parse, parseTag_of_ber_nil h hlt, construct_tag]
  rfl

end SearchResultEntry

end Ldap3
