import Ldap3.Filter.Complete

/-!
# Extensible matches

`extensible` of `src/filter.rs`, on the renderings of an extensible match: an attribute, `:dn`, and
a matching rule behind a colon, of which any may be missing as long as there is an attribute or a
rule.

`:dn` is optional, and it is taken wherever it is found, also where it is the beginning of a
matching rule. What is left of the rule is then not what can follow `:dn`, and nothing is tried
again. So a rule with such a name is read only behind another `:dn` (`parse_extensible_iff`); all
other matches are read as they are meant (`extensible_append`), and those are rejected
(`extensible_of_hidden`).
-/

namespace Ldap3

namespace ExtensibleMatch

variable (m : ExtensibleMatch)

/-! ### The parts of a rendering -/

def attrPart : List UInt8 :=
  (m.type.map (·.1)).getD []

def dnPart : List UInt8 :=
  if m.dnAttributes then bytes [':', 'd', 'n'] else []

def mrulePart : List UInt8 :=
  (m.matchingRule.map (byte ':' :: ·.1)).getD []

/-- The beginning of the matching rule looks like the flag, which is not there. -/
def Hidden : Prop :=
  m.dnAttributes = false ∧ ∃ mrule ∈ m.matchingRule, bytes ['d', 'n'] <+: mrule.1

end ExtensibleMatch

namespace FilterParser

open Nom.Complete

variable {r w wv : List UInt8} {m : ExtensibleMatch}

/-- The value, behind its colon and equality sign. -/
abbrev valuePart (wv r : List UInt8) : List UInt8 :=
  byte ':' :: byte '=' :: (wv ++ r)

/-! ### The optional parts -/

theorem attributetype_of_notAhead (hr : NotAhead isAlphanumeric r) :
    attributetype r = .error .error := by
  have hdigit : NotAhead isDigit r := hr.imp fun c hc ↦ by
    rw [isAlphanumeric, Bool.or_eq_false_iff] at hc
    exact hc.2
  have hdescr : descr r = .error .error := by
    rcases r with - | ⟨c, r⟩
    · rfl
    · have hc : isAlphanumeric c = false := notAhead_cons.1 hr
      rw [isAlphanumeric, Bool.or_eq_false_iff] at hc
      simp [descr, recognize, verify, Nom.mapOpt, anyElem, hc.1, bind, Except.bind, Except.map]
  rw [attributetype, alt_of_error (numericoid_of_notAhead hdigit), alt_singleton, hdescr]

theorem attributedescription_of_notAhead (hr : NotAhead isAlphanumeric r) :
    attributedescription r = .error .error := by
  simp only [attributedescription, recognize, attributetype_of_notAhead hr, bind, Except.bind,
    Except.map]

/-- A rule begins with a letter or a digit. -/
theorem attributeType_head (hw : IsAttributeType w) : ∃ c cs, w = c :: cs ∧ isAlphanumeric c :=
  attributeDescription_head ⟨w, [], hw, fun _ h ↦ absurd h List.not_mem_nil, by simp⟩

/-- What is in front of a colon has `dn` at its beginning if it has it together with the colon. -/
theorem dn_prefix_of_append (hne : w ≠ []) (h : bytes ['d', 'n'] <+: w ++ byte ':' :: r) :
    bytes ['d', 'n'] <+: w := by
  have hcolon : byte 'n' ≠ byte ':' := by decide
  rcases w with - | ⟨c, - | ⟨c', cs⟩⟩
  · exact absurd rfl hne
  · obtain ⟨l, hl⟩ := h
    exact absurd (List.cons.inj (List.cons.inj hl).2).1 hcolon
  · obtain ⟨l, hl⟩ := h
    obtain ⟨rfl, htail⟩ := List.cons.inj hl
    obtain ⟨rfl, -⟩ := List.cons.inj htail
    exact ⟨cs, rfl⟩

/-- The flag is read if it is there, and otherwise if the rule looks like it. -/
theorem opt_dn_append (wv r : List UInt8) (h : ¬m.Hidden) :
    opt (tag (bytes [':', 'd', 'n'])) (m.dnPart ++ (m.mrulePart ++ valuePart wv r)) =
      .ok (m.mrulePart ++ valuePart wv r,
        if m.dnAttributes then some (bytes [':', 'd', 'n']) else none) := by
  by_cases hdn : m.dnAttributes
  · rw [ExtensibleMatch.dnPart, if_pos hdn, if_pos hdn]
    exact opt_of_ok (tag_append _ _)
  rw [ExtensibleMatch.dnPart, if_neg hdn, if_neg hdn, List.nil_append]
  refine opt_of_error (tag_of_not_prefixed fun hpre ↦ ?_)
  rcases hmrule : m.matchingRule with - | mrule
  · rw [ExtensibleMatch.mrulePart, hmrule] at hpre
    obtain ⟨l, hl⟩ := hpre
    exact absurd (List.cons.inj (List.cons.inj hl).2).1 (by decide)
  · rw [ExtensibleMatch.mrulePart, hmrule] at hpre
    obtain ⟨l, hl⟩ := hpre
    obtain ⟨c, cs, hcs, -⟩ := attributeType_head mrule.2
    have hdnpre : bytes ['d', 'n'] <+: mrule.1 :=
      dn_prefix_of_append (by rw [hcs]; exact List.cons_ne_nil _ _) ⟨l, (List.cons.inj hl).2⟩
    exact h ⟨Bool.eq_false_iff.2 hdn, mrule, hmrule, hdnpre⟩

/-- The value of a rule is read up to the colon. -/
theorem mrule_append (mrule : AttributeType) :
    preceded (tag (bytes [':'])) attributetype (byte ':' :: mrule.1 ++ valuePart wv r) =
      .ok (valuePart wv r, mrule.1) := by
  have htype : attributetype (mrule.1 ++ valuePart wv r) = _ :=
    attributetype_append mrule.2 (notAhead_cons.2 rfl) (notAhead_cons.2 rfl)
  exact (preceded_of_ok (tag_append (bytes [':']) _)).trans htype

theorem opt_mrule_append (m : ExtensibleMatch) (wv r : List UInt8) :
    opt (preceded (tag (bytes [':'])) attributetype) (m.mrulePart ++ valuePart wv r) =
      .ok (valuePart wv r, m.matchingRule.map (·.1)) := by
  rcases hmrule : m.matchingRule with - | mrule
  · rw [ExtensibleMatch.mrulePart, hmrule]
    refine opt_of_error ((preceded_of_ok (tag_append (bytes [':']) _)).trans ?_)
    exact attributetype_of_notAhead (notAhead_cons.2 rfl)
  · rw [ExtensibleMatch.mrulePart, hmrule]
    exact opt_of_ok (mrule_append mrule)

/-! ### Items -/

/-- An item of another kind has no colon behind its attribute. -/
theorem item_of_colon {i : List UInt8} (attr : AttributeDescription) :
    item (attr.1 ++ byte ':' :: i) = extensible (attr.1 ++ byte ':' :: i) := by
  have hattr := attributedescription_append (r := byte ':' :: i) attr.2 (notAhead_cons.2 rfl)
  have heq : eq (attr.1 ++ byte ':' :: i) = .error .error := by
    have htag : tag (bytes ['=']) (byte ':' :: i) = .error .error := tag_cons_of_ne (by decide)
    simp only [eq, hattr, htag, bind, Except.bind]
  have hnonEq : nonEq (attr.1 ++ byte ':' :: i) = .error .error := by
    have halt : alt [tag (bytes ['>', '=']), tag (bytes ['<', '=']), tag (bytes ['~', '='])]
        (byte ':' :: i) = .error .error :=
      (alt_of_error (tag_cons_of_ne (by decide))).trans ((alt_of_error
        (tag_cons_of_ne (by decide))).trans (alt_singleton.trans (tag_cons_of_ne (by decide))))
    simp only [nonEq, hattr, halt, bind, Except.bind]
  rw [item, alt_of_error heq, alt_of_error hnonEq, alt_singleton]

/-- An item of another kind has an attribute. -/
theorem item_of_notAhead {i : List UInt8} (hi : NotAhead isAlphanumeric i) :
    item i = dnMrule i := by
  have hattr := attributedescription_of_notAhead hi
  have heq : eq i = .error .error := by
    simp only [eq, hattr, bind, Except.bind]
  have hnonEq : nonEq i = .error .error := by
    simp only [nonEq, hattr, bind, Except.bind]
  have hext : attrDnMrule i = .error .error := by
    simp only [attrDnMrule, hattr, bind, Except.bind]
  rw [item, alt_of_error heq, alt_of_error hnonEq, alt_singleton, extensible, alt_of_error hext,
    alt_singleton]

/-- Without a colon in front it is no match without an attribute. -/
theorem dnMrule_of_ne {c : UInt8} {i : List UInt8} (hc : byte ':' ≠ c) :
    dnMrule (c :: i) = .error .error := by
  have hopt : opt (tag (bytes [':', 'd', 'n'])) (c :: i) = .ok (c :: i, none) :=
    opt_of_error (tag_cons_of_ne hc)
  have hmrule : preceded (tag (bytes [':'])) attributetype (c :: i) = .error .error :=
    preceded_of_error (tag_cons_of_ne hc)
  simp only [dnMrule, hopt, hmrule, bind, Except.bind]

theorem colon_ne_of_isAlphanumeric {c : UInt8} (hc : isAlphanumeric c) : byte ':' ≠ c := by
  rintro rfl
  cases hc

/-- What is behind the attribute begins with a colon. -/
theorem parts_eq_colon (m : ExtensibleMatch) (wv r : List UInt8) :
    ∃ i, m.dnPart ++ (m.mrulePart ++ valuePart wv r) = byte ':' :: i := by
  rw [ExtensibleMatch.dnPart, ExtensibleMatch.mrulePart]
  split_ifs
  · exact ⟨_, rfl⟩
  · rcases m.matchingRule with - | mrule
    · exact ⟨_, rfl⟩
    · exact ⟨_, rfl⟩

/-- A rendering with what follows it, in its parts. -/
theorem renders_parts (hw : m.Renders w) (r : List UInt8) :
    ∃ wv, RendersValue wv m.matchValue ∧
      w ++ r = m.attrPart ++ (m.dnPart ++ (m.mrulePart ++ valuePart wv r)) := by
  obtain ⟨wv, hv, rfl⟩ := hw
  refine ⟨wv, hv, ?_⟩
  simp only [List.append_assoc, ExtensibleMatch.attrPart, ExtensibleMatch.dnPart,
    ExtensibleMatch.mrulePart]
  rfl

/-- **A match is read as it is meant** if its rule does not hide the flag. -/
theorem extensible_append (h : ¬m.Hidden) (hw : m.Renders w) (hr : EndsItem r) :
    item (w ++ r) = .ok (r, m.tag) := by
  obtain ⟨wv, hv, hparts⟩ := renders_parts hw r
  have hdn := opt_dn_append wv r h
  have hmrule := opt_mrule_append m wv r
  have hcolon : tag (bytes [':', '=']) (valuePart wv r) = .ok (wv ++ r, bytes [':', '=']) :=
    tag_append (bytes [':', '=']) _
  have hvalue := unescaped_append hv hr.value
  have hisSome : (if m.dnAttributes then some (bytes [':', 'd', 'n']) else none).isSome =
      m.dnAttributes := by
    cases m.dnAttributes <;> rfl
  obtain ⟨i, hi⟩ := parts_eq_colon m wv r
  rw [hparts, ← extensibleTag_eq]
  rcases htype : m.type with - | attr
  · obtain ⟨mrule, hrule⟩ : ∃ mrule, m.matchingRule = some mrule :=
      Option.ne_none_iff_exists'.1 (m.ne_none.resolve_right fun hne ↦ hne htype)
    have hmrule : preceded (tag (bytes [':'])) attributetype (m.mrulePart ++ valuePart wv r) =
        .ok (valuePart wv r, mrule.1) := by
      rw [ExtensibleMatch.mrulePart, hrule]
      exact mrule_append mrule
    rw [ExtensibleMatch.attrPart, htype]
    change item (m.dnPart ++ (m.mrulePart ++ valuePart wv r)) = _
    rw [item_of_notAhead (by rw [hi]; exact notAhead_cons.2 rfl)]
    simp only [dnMrule, hdn, hmrule, hcolon, hvalue, hisSome, hrule, bind, Except.bind]
    rfl
  · have hattr := attributedescription_append (r := byte ':' :: i) attr.2 (notAhead_cons.2 rfl)
    rw [← hi] at hattr
    have hext : attrDnMrule (attr.1 ++ (m.dnPart ++ (m.mrulePart ++ valuePart wv r))) =
        .ok (r, extensibleTag (m.matchingRule.map (·.1)) (some attr.1) m.matchValue
          m.dnAttributes) := by
      simp only [attrDnMrule, hattr, hdn, hmrule, hcolon, hvalue, hisSome, bind, Except.bind]
      rfl
    rw [ExtensibleMatch.attrPart, htype]
    change item (attr.1 ++ (m.dnPart ++ (m.mrulePart ++ valuePart wv r))) = _
    rw [hi] at hext ⊢
    rw [item_of_colon]
    exact alt_of_ok hext

/-- A rule that hides the flag goes on with a letter, a digit or a hyphen. -/
theorem hidden_tail {mrule : AttributeType} (hpre : bytes ['d', 'n'] <+: mrule.1)
    (hne : mrule.1 ≠ bytes ['d', 'n']) :
    ∃ c cs, mrule.1 = bytes ['d', 'n'] ++ c :: cs ∧ byte ':' ≠ c := by
  obtain ⟨tail, htail⟩ := hpre
  obtain ⟨c, cs, rfl⟩ : ∃ c cs, tail = c :: cs :=
    List.exists_cons_of_ne_nil (by rintro rfl; exact hne htail.symm)
  refine ⟨c, cs, htail.symm, ?_⟩
  rintro rfl
  rcases mrule.2 with ⟨n, ns, ⟨hn, hdigits, -⟩, -, heq⟩ | ⟨d, ds, -, hds, heq⟩
  · obtain ⟨d, ds, rfl⟩ := List.exists_cons_of_ne_nil hn
    rw [← htail] at heq
    have hd := hdigits d List.mem_cons_self
    rw [← (List.cons.inj heq).1] at hd
    cases hd
  · rw [← htail] at heq
    have hcolon := hds (byte ':') (by rw [← (List.cons.inj heq).2]; simp)
    cases hcolon

/-- **A match whose rule hides the flag is rejected.** -/
theorem extensible_of_hidden (h : m.Hidden) (hrule : ∀ mrule ∈ m.matchingRule,
    mrule.1 ≠ bytes ['d', 'n']) (hw : m.Renders w) (r : List UInt8) :
    item (w ++ r) = .error .error := by
  obtain ⟨wv, hv, hparts⟩ := renders_parts hw r
  obtain ⟨hdn, mrule, hmem, hpre⟩ := h
  obtain ⟨c, cs, hcs, hc⟩ := hidden_tail hpre (hrule mrule hmem)
  have hrest : m.dnPart ++ (m.mrulePart ++ valuePart wv r) =
      bytes [':', 'd', 'n'] ++ c :: (cs ++ valuePart wv r) := by
    rw [ExtensibleMatch.dnPart, ExtensibleMatch.mrulePart, hdn, Option.mem_def.1 hmem,
      Option.map_some, Option.getD_some, hcs]
    rfl
  -- The flag is taken from the rule, and what is left of it fits nothing.
  have hopt : opt (tag (bytes [':', 'd', 'n'])) (bytes [':', 'd', 'n'] ++
      c :: (cs ++ valuePart wv r)) = .ok (c :: (cs ++ valuePart wv r), some _) :=
    opt_of_ok (tag_append _ _)
  have hmrule : preceded (tag (bytes [':'])) attributetype (c :: (cs ++ valuePart wv r)) =
      .error .error := preceded_of_error (tag_cons_of_ne hc)
  have hnone := opt_of_error hmrule
  have hcolon : tag (bytes [':', '=']) (c :: (cs ++ valuePart wv r)) = .error .error :=
    tag_cons_of_ne hc
  rw [hparts, hrest]
  rcases htype : m.type with - | attr
  · rw [ExtensibleMatch.attrPart, htype]
    change item (bytes [':', 'd', 'n'] ++ c :: (cs ++ valuePart wv r)) = _
    have hahead : NotAhead isAlphanumeric (bytes [':', 'd', 'n'] ++
        c :: (cs ++ valuePart wv r)) := notAhead_cons.2 rfl
    rw [item_of_notAhead hahead]
    simp only [dnMrule, hopt, hmrule, bind, Except.bind]
  · have hattr := attributedescription_append (r := bytes [':', 'd', 'n'] ++
      c :: (cs ++ valuePart wv r)) attr.2 (notAhead_cons.2 rfl)
    have hfirst : attrDnMrule (attr.1 ++ (bytes [':', 'd', 'n'] ++
        c :: (cs ++ valuePart wv r))) = .error .error := by
      simp only [attrDnMrule, hattr, hopt, hnone, hcolon, bind, Except.bind]
    obtain ⟨d, ds, hd, halnum⟩ := attributeDescription_head attr.2
    rw [ExtensibleMatch.attrPart, htype]
    change item (attr.1 ++ byte ':' :: _) = _
    rw [item_of_colon, extensible]
    refine (alt_of_error hfirst).trans (alt_singleton.trans ?_)
    rw [hd, List.cons_append]
    exact dnMrule_of_ne (colon_ne_of_isAlphanumeric halnum)

/-! ### In parentheses -/

/-- A rendering begins with a letter, a digit or a colon. -/
theorem extensible_head (hw : m.Renders w) :
    ∃ c cs, w = c :: cs ∧ byte '&' ≠ c ∧ byte '|' ≠ c ∧ byte '!' ≠ c := by
  obtain ⟨wv, -, hparts⟩ := renders_parts hw []
  rw [List.append_nil] at hparts
  rcases htype : m.type with - | attr
  · obtain ⟨i, hi⟩ := parts_eq_colon m wv []
    rw [ExtensibleMatch.attrPart, htype, hi] at hparts
    exact ⟨byte ':', i, hparts, by decide, by decide, by decide⟩
  · obtain ⟨c, cs, hcs, hc⟩ := attributeDescription_head attr.2
    rw [ExtensibleMatch.attrPart, htype, Option.map_some, Option.getD_some, hcs] at hparts
    obtain ⟨hand, hor, hnot, -⟩ := ne_of_isAlphanumeric hc
    exact ⟨c, _, hparts, hand, hor, hnot⟩

/-- An item does not begin with a parenthesis. -/
theorem item_of_paren (i : List UInt8) : item (byte '(' :: i) = .error .error := by
  rw [item_of_notAhead (notAhead_cons.2 rfl)]
  exact dnMrule_of_ne (by decide)

/-- What an item in parentheses is, the item is by itself. -/
theorem parse_of_item {t : Tag} (hw : m.Renders w)
    (h : item (w ++ bytes [')']) = .ok (bytes [')'], t)) :
    parse (byte '(' :: (w ++ bytes [')'])) = .ok t := by
  obtain ⟨c, cs, rfl, hand, hor, hnot⟩ := extensible_head hw
  have hfilter : filter (byte '(' :: ((c :: cs) ++ bytes [')'])) = .ok ([], t) :=
    filter_append ((filtercomp_of_ne hand hor hnot).trans h)
  have hexpr : filtexpr (byte '(' :: ((c :: cs) ++ bytes [')'])) = .ok ([], t) :=
    alt_of_ok hfilter
  rw [parse, hexpr]
  rfl

theorem parse_of_item_error (hw : m.Renders w) (h : item (w ++ bytes [')']) = .error .error) :
    parse (byte '(' :: (w ++ bytes [')'])) = .error () := by
  obtain ⟨c, cs, rfl, hand, hor, hnot⟩ := extensible_head hw
  have hcomp : filtercomp filter ((c :: cs) ++ bytes [')']) = .error .error :=
    (filtercomp_of_ne hand hor hnot).trans h
  have hopen : tag (bytes ['(']) (byte '(' :: ((c :: cs) ++ bytes [')'])) =
      .ok ((c :: cs) ++ bytes [')'], bytes ['(']) := tag_append (bytes ['(']) _
  have hfilter : filter (byte '(' :: ((c :: cs) ++ bytes [')'])) = .error .error := by
    rw [filter_eq, delimited]
    simp only [hopen, hcomp, bind, Except.bind]
  have hexpr : filtexpr (byte '(' :: ((c :: cs) ++ bytes [')'])) = .error .error :=
    (alt_of_error hfilter).trans (alt_singleton.trans (item_of_paren _))
  rw [parse, hexpr]

/-- **Extensible matches** are accepted with their meaning exactly when the flag is there or the
rule does not begin like it. A rule named `dn` would be the flag. -/
theorem parse_extensible_iff (hrule : ∀ mrule ∈ m.matchingRule, mrule.1 ≠ bytes ['d', 'n'])
    (hw : m.Renders w) :
    parse (byte '(' :: (w ++ bytes [')'])) = .ok m.tag ↔
      m.dnAttributes ∨ ∀ mrule ∈ m.matchingRule, ¬bytes ['d', 'n'] <+: mrule.1 := by
  have hhidden : (m.dnAttributes ∨ ∀ mrule ∈ m.matchingRule, ¬bytes ['d', 'n'] <+: mrule.1) ↔
      ¬m.Hidden := by
    rw [ExtensibleMatch.Hidden]
    cases m.dnAttributes <;> simp
  rw [hhidden]
  constructor
  · intro hok h
    rw [parse_of_item_error hw (extensible_of_hidden h hrule hw _)] at hok
    cases hok
  · intro h
    exact parse_of_item hw (extensible_append h hw (notAhead_cons.2 rfl))

theorem isDescr_dnx : IsDescr (bytes ['d', 'n', 'x']) :=
  ⟨byte 'd', bytes ['n', 'x'], rfl,
    List.forall_mem_cons.2 ⟨rfl, List.forall_mem_singleton.2 rfl⟩, rfl⟩

theorem rendersValue_v : RendersValue (bytes ['v']) (bytes ['v']) :=
  RendersValue.cons (Or.inl ⟨isRaw_iff.2 (by decide), rfl⟩) .nil

/-- With the flag in front the rule may begin like it. -/
theorem parse_extensible_iff_flag :
    parse (bytes ['(', ':', 'd', 'n', ':', 'd', 'n', 'x', ':', '=', 'v', ')']) =
      .ok (.sequence 9 .context [.octetString 1 .context (bytes ['d', 'n', 'x']),
        .octetString 3 .context (bytes ['v']), .boolean 4 .context true]) :=
  (parse_extensible_iff (m := ⟨some ⟨_, .inr isDescr_dnx⟩, none, bytes ['v'], true, by simp⟩)
    (by simp) ⟨bytes ['v'], rendersValue_v, rfl⟩).2 (.inl rfl)

/-- Without it the rule is not read. -/
theorem parse_extensible_dnx :
    ∃ m : ExtensibleMatch, m.matchingRule = some ⟨_, .inr isDescr_dnx⟩ ∧
      m.Renders (bytes ['a', ':', 'd', 'n', 'x', ':', '=', 'v']) ∧
      parse (bytes ['(', 'a', ':', 'd', 'n', 'x', ':', '=', 'v', ')']) = .error () ∧
      parse (bytes ['(', 'a', ':', 'd', 'n', 'x', ':', '=', 'v', ')']) ≠ .ok m.tag := by
  have hattr : IsAttributeDescription (bytes ['a']) :=
    ⟨bytes ['a'], [], Or.inr ⟨byte 'a', [], by decide, by simp, rfl⟩, by simp, rfl⟩
  have herror : parse (bytes ['(', 'a', ':', 'd', 'n', 'x', ':', '=', 'v', ')']) = .error () := by
    rfl
  refine ⟨⟨some ⟨_, .inr isDescr_dnx⟩, some ⟨_, hattr⟩, bytes ['v'], false, by simp⟩, rfl,
    ⟨bytes ['v'], rendersValue_v, rfl⟩, herror, ?_⟩
  rw [herror]
  exact nofun

end FilterParser

end Ldap3
