import Ldap3.Filter.Value

/-!
# What is read is a filter

**Whatever `parse` accepts is a rendering of a filter, and the tag it returns is that of the
filter** (`parse_sound`). So a malformed escape, an empty component inside of a substring
assertion, an unbalanced parenthesis or an octet too much is never accepted.

The parsers are taken one by one: what each consumes is a word of its part of the grammar. Where a
repetition stops at an element it cannot read, or an item with an empty inner component fails, the
rest stays in the input, and is still there when `parse` looks for its end.
-/

namespace Ldap3

/-- Only the empty word renders the empty value. -/
theorem rendersValue_nil {w : List UInt8} (h : RendersValue w []) : w = [] := by
  obtain ⟨ws, rfl, hws⟩ := h
  cases hws
  rfl

namespace FilterParser

open Nom (bind_eq_ok)
open Nom.Complete

/-! ### Attribute descriptions -/

/-- `number` reads the numbers of the grammar, as they are written. -/
theorem sound_number : Sound number fun w a ↦ IsNumber w ∧ a = w := by
  refine ((sound_takeWhile1 isDigit).verify).imp ?_
  rintro w a ⟨⟨rfl, hne, hdigits⟩, hzero⟩
  refine ⟨⟨hne, hdigits, ?_⟩, rfl⟩
  simpa [bne_iff_ne] using hzero

theorem sound_numericoid : Sound numericoid fun w a ↦ IsNumericoid w ∧ a = w := by
  refine Sound.recognize ?_
  intro i r a hok
  obtain ⟨⟨i₁, n⟩, h₁, hok⟩ := bind_eq_ok.1 hok
  obtain ⟨⟨i₂, ns⟩, h₂, hok⟩ := bind_eq_ok.1 hok
  obtain ⟨rfl, -⟩ := Prod.mk.inj (Except.ok.inj hok)
  obtain ⟨w₁, rfl, hn, rfl⟩ := sound_number _ _ _ h₁
  obtain ⟨w₂, rfl, ws, rfl, hws⟩ := sound_number.many0_preceded _ _ _ h₂
  have hnumbers := ((List.forall₂_and_left _ _).1 hws).1
  exact ⟨n ++ (ws.map (byte '.' :: ·)).flatten, by rw [List.append_assoc], n, ws, hn, hnumbers, rfl⟩

theorem sound_descr : Sound descr fun w a ↦ IsDescr w ∧ a = w := by
  refine Sound.recognize ?_
  intro i r a hok
  obtain ⟨⟨i₁, c⟩, h₁, hok⟩ := bind_eq_ok.1 hok
  obtain ⟨⟨i₂, cs⟩, h₂, hok⟩ := bind_eq_ok.1 hok
  obtain ⟨rfl, -⟩ := Prod.mk.inj (Except.ok.inj hok)
  obtain ⟨w₁, rfl, rfl, hc⟩ := sound_anyElem.verify _ _ _ h₁
  obtain ⟨w₂, rfl, rfl, hcs⟩ := sound_takeWhile _ _ _ _ h₂
  exact ⟨c :: cs, rfl, c, cs, hc, hcs, rfl⟩

theorem sound_attributetype : Sound attributetype fun w a ↦ IsAttributeType w ∧ a = w := by
  refine Sound.alt fun p hp ↦ ?_
  simp only [List.mem_cons, List.not_mem_nil, or_false] at hp
  rcases hp with rfl | rfl
  · exact sound_numericoid.imp fun w a h ↦ ⟨Or.inl h.1, h.2⟩
  · exact sound_descr.imp fun w a h ↦ ⟨Or.inr h.1, h.2⟩

/-- So the name of an attribute goes into the tag as it is written. -/
theorem sound_attributedescription :
    Sound attributedescription fun w a ↦ IsAttributeDescription w ∧ a = w := by
  have hoption : Sound (takeWhile1 isAlnumHyphen) fun w a ↦
      (w ≠ [] ∧ ∀ c ∈ w, isAlnumHyphen c) ∧ a = w :=
    (sound_takeWhile1 _).imp fun w a h ↦ ⟨h.2, h.1⟩
  refine Sound.recognize ?_
  intro i r a hok
  obtain ⟨⟨i₁, t⟩, h₁, hok⟩ := bind_eq_ok.1 hok
  obtain ⟨⟨i₂, opts⟩, h₂, hok⟩ := bind_eq_ok.1 hok
  obtain ⟨rfl, -⟩ := Prod.mk.inj (Except.ok.inj hok)
  obtain ⟨w₁, rfl, ht, rfl⟩ := sound_attributetype _ _ _ h₁
  obtain ⟨w₂, rfl, ws, rfl, hws⟩ := hoption.many0_preceded _ _ _ h₂
  have hopts := ((List.forall₂_and_left _ _).1 hws).1
  exact ⟨t ++ (ws.map (byte ';' :: ·)).flatten, by rw [List.append_assoc], t, ws, ht, hopts, rfl⟩

/-! ### Items -/

/-- A word and the tag of an item it renders. -/
def RendersItem (w : List UInt8) (t : Tag) : Prop :=
  ∃ it : Item, it.Renders w ∧ it.tag = t

/-- A component that is there if its value is not empty. -/
theorem exists_component (v : List UInt8) :
    ∃ o : Option (List UInt8), o.getD [] = v ∧ (∀ u ∈ o, u ≠ []) ∧ (o = none ↔ v = []) := by
  rcases v with - | ⟨c, v⟩
  · exact ⟨none, rfl, fun _ h ↦ (nomatch h), by simp⟩
  · refine ⟨some (c :: v), rfl, ?_, by simp⟩
    rintro u hu
    obtain rfl := Option.some.inj hu
    exact List.cons_ne_nil c v

/-- The value before the first asterisk and the elements after each asterisk are those of a
comparison, a presence test or a substring assertion. -/
theorem eqTag_sound (attr : AttributeDescription) {wi v : List UInt8} {ws l : List (List UInt8)}
    (hi : RendersValue wi v) (hws : List.Forall₂ RendersValue ws l) (hl : innerNonempty l) :
    RendersItem (attr.1 ++ bytes ['='] ++ (wi ++ (ws.map (byte '*' :: ·)).flatten))
      (eqTag attr.1 v l) := by
  rcases List.eq_nil_or_concat l with rfl | ⟨any, x, rfl⟩
  · cases hws
    exact ⟨.assertion (.simple attr .equal v), ⟨wi, hi, by simp [FilterType.symbol]⟩, rfl⟩
  rw [List.concat_eq_append] at hws hl ⊢
  have hinner := innerNonempty_append.1 hl
  obtain ⟨ws, wf, rfl, hany, hf⟩ : ∃ ws' wf, ws = ws' ++ [wf] ∧
      List.Forall₂ RendersValue ws' any ∧ RendersValue wf x := by
    have htake := List.forall₂_take_append ws any [x] hws
    have hdrop := List.forall₂_drop_append ws any [x] hws
    obtain ⟨wf, _, hf, hnil, hlast⟩ := List.forall₂_cons_right_iff.1 hdrop
    cases hnil
    exact ⟨ws.take any.length, wf, by rw [← hlast, List.take_append_drop], htake, hf⟩
  by_cases hpresent : v = [] ∧ any = [] ∧ x = []
  · obtain ⟨rfl, rfl, rfl⟩ := hpresent
    obtain rfl := rendersValue_nil hi
    obtain rfl := rendersValue_nil hf
    cases hany
    exact ⟨.assertion (.present attr), by simp [Item.Renders, Assertion.Renders], rfl⟩
  · obtain ⟨initial, rfl, hinit, hinitial⟩ := exists_component v
    obtain ⟨final, rfl, hfin, hfinal⟩ := exists_component x
    have hne : initial ≠ none ∨ any ≠ [] ∨ final ≠ none := by
      by_contra h
      push Not at h
      exact hpresent ⟨hinitial.1 h.1, h.2.1, hfinal.1 h.2.2⟩
    let sub : Substrings := ⟨initial, any, final, hinit, hinner, hfin, hne⟩
    exact ⟨.assertion (.substrings attr sub),
      ⟨_, ⟨wi, ws, wf, hi, hany, hf, rfl⟩, rfl⟩, (eqTag_substrings attr sub).symm⟩

/-- An item with `=` renders an assertion: the closure over the values rules out the empty inner
ones. -/
theorem sound_eq : Sound eq RendersItem := by
  intro i r t hok
  obtain ⟨⟨i₁, attr⟩, h₁, hok⟩ := bind_eq_ok.1 hok
  obtain ⟨⟨i₂, c⟩, h₂, hok⟩ := bind_eq_ok.1 hok
  obtain ⟨⟨i₃, v⟩, h₃, hok⟩ := bind_eq_ok.1 hok
  obtain ⟨⟨i₄, l⟩, h₄, hok⟩ := bind_eq_ok.1 hok
  obtain ⟨rfl, rfl⟩ := Prod.mk.inj (Except.ok.inj hok)
  obtain ⟨h₄, hl⟩ : many0 (preceded (tag (bytes ['*'])) unescaped) i₃ = .ok (i₄, l) ∧
      innerNonempty l := by
    obtain ⟨l', hmany, hl⟩ := mapRes_eq_ok_iff.1 h₄
    split at hl
    · rename_i hinner
      obtain rfl := Option.some.inj hl
      exact ⟨hmany, hinner⟩
    · cases hl
  obtain ⟨w₁, rfl, hattr, rfl⟩ := sound_attributedescription _ _ _ h₁
  obtain ⟨w₂, rfl, rfl, -⟩ := sound_tag _ _ _ _ h₂
  obtain ⟨wi, rfl, hi⟩ := sound_unescaped _ _ _ h₃
  obtain ⟨w₄, rfl, ws, rfl, hws⟩ := sound_unescaped.many0_preceded _ _ _ h₄
  exact ⟨_, by simp only [List.append_assoc], eqTag_sound ⟨attr, hattr⟩ hi hws hl⟩

/-- Each of the three operators has a number, so `unimplemented!` is not reached. -/
theorem sound_nonEq : Sound nonEq RendersItem := by
  intro i r t hok
  obtain ⟨⟨i₁, attr⟩, h₁, hok⟩ := bind_eq_ok.1 hok
  obtain ⟨⟨i₂, filterop⟩, h₂, hok⟩ := bind_eq_ok.1 hok
  obtain ⟨⟨i₃, v⟩, h₃, hok⟩ := bind_eq_ok.1 hok
  obtain ⟨rfl, rfl⟩ := Prod.mk.inj (Except.ok.inj hok)
  have hop : Sound (alt [tag (bytes ['>', '=']), tag (bytes ['<', '=']), tag (bytes ['~', '='])])
      fun w c ↦ ∃ ft : FilterType, w = ft.symbol ∧ filtertag c = some ft.number := by
    refine Sound.alt fun p hp ↦ ?_
    simp only [List.mem_cons, List.not_mem_nil, or_false] at hp
    rcases hp with rfl | rfl | rfl
    · exact (sound_tag _).imp fun w c h ↦ ⟨.greaterOrEqual, h.1, by rw [h.2]; rfl⟩
    · exact (sound_tag _).imp fun w c h ↦ ⟨.lessOrEqual, h.1, by rw [h.2]; rfl⟩
    · exact (sound_tag _).imp fun w c h ↦ ⟨.approx, h.1, by rw [h.2]; rfl⟩
  obtain ⟨w₁, rfl, hattr, rfl⟩ := sound_attributedescription _ _ _ h₁
  obtain ⟨w₂, rfl, ft, rfl, hft⟩ := hop _ _ _ h₂
  obtain ⟨wv, rfl, hv⟩ := sound_unescaped _ _ _ h₃
  refine ⟨attr ++ ft.symbol ++ wv, by simp only [List.append_assoc],
    .assertion (.simple ⟨attr, hattr⟩ ft v), ⟨wv, hv, rfl⟩, ?_⟩
  show _ = Tag.sequence ((filtertag filterop).getD 0) _ _
  rw [hft]
  rfl

/-- The flag of an extensible match is set exactly if it was read. -/
theorem sound_dn : Sound (opt (tag (bytes [':', 'd', 'n']))) fun w o ↦
    w = if o.isSome then bytes [':', 'd', 'n'] else [] := by
  refine (sound_tag _).opt.imp ?_
  rintro w o (⟨rfl, rfl⟩ | ⟨c, rfl, rfl, -⟩)
  · rfl
  · rfl

/-- A matching rule is an attribute type after a colon. -/
theorem sound_mrule : Sound (preceded (tag (bytes [':'])) attributetype) fun w c ↦
    IsAttributeType c ∧ w = byte ':' :: c := by
  refine ((sound_tag _).preceded sound_attributetype).imp ?_
  rintro w c ⟨w₁, w₂, _, rfl, ⟨rfl, -⟩, htype, rfl⟩
  exact ⟨htype, rfl⟩

theorem sound_attrDnMrule : Sound attrDnMrule RendersItem := by
  intro i r t hok
  obtain ⟨⟨i₁, attr⟩, h₁, hok⟩ := bind_eq_ok.1 hok
  obtain ⟨⟨i₂, dn⟩, h₂, hok⟩ := bind_eq_ok.1 hok
  obtain ⟨⟨i₃, mrule⟩, h₃, hok⟩ := bind_eq_ok.1 hok
  obtain ⟨⟨i₄, c⟩, h₄, hok⟩ := bind_eq_ok.1 hok
  obtain ⟨⟨i₅, v⟩, h₅, hok⟩ := bind_eq_ok.1 hok
  obtain ⟨rfl, rfl⟩ := Prod.mk.inj (Except.ok.inj hok)
  obtain ⟨w₁, rfl, hattr, rfl⟩ := sound_attributedescription _ _ _ h₁
  obtain ⟨w₂, rfl, rfl⟩ := sound_dn _ _ _ h₂
  obtain ⟨w₃, rfl, hmrule⟩ := sound_mrule.opt _ _ _ h₃
  obtain ⟨w₄, rfl, rfl, -⟩ := sound_tag _ _ _ _ h₄
  obtain ⟨wv, rfl, hv⟩ := sound_unescaped _ _ _ h₅
  refine ⟨attr ++ (if dn.isSome then bytes [':', 'd', 'n'] else []) ++ w₃ ++ bytes [':', '='] ++ wv,
    by simp only [List.append_assoc], ?_⟩
  rcases hmrule with ⟨rfl, rfl⟩ | ⟨mrule, rfl, hmrule, rfl⟩
  · let m : ExtensibleMatch := ⟨none, some ⟨attr, hattr⟩, v, dn.isSome, Or.inr (by simp)⟩
    exact ⟨.extensible m, ⟨wv, hv, by simp [m]⟩, (extensibleTag_eq m).symm⟩
  · let m : ExtensibleMatch :=
      ⟨some ⟨mrule, hmrule⟩, some ⟨attr, hattr⟩, v, dn.isSome, Or.inr (by simp)⟩
    exact ⟨.extensible m, ⟨wv, hv, by simp [m]⟩, (extensibleTag_eq m).symm⟩

theorem sound_dnMrule : Sound dnMrule RendersItem := by
  intro i r t hok
  obtain ⟨⟨i₁, dn⟩, h₁, hok⟩ := bind_eq_ok.1 hok
  obtain ⟨⟨i₂, mrule⟩, h₂, hok⟩ := bind_eq_ok.1 hok
  obtain ⟨⟨i₃, c⟩, h₃, hok⟩ := bind_eq_ok.1 hok
  obtain ⟨⟨i₄, v⟩, h₄, hok⟩ := bind_eq_ok.1 hok
  obtain ⟨rfl, rfl⟩ := Prod.mk.inj (Except.ok.inj hok)
  obtain ⟨w₁, rfl, rfl⟩ := sound_dn _ _ _ h₁
  obtain ⟨w₂, rfl, hmrule, rfl⟩ := sound_mrule _ _ _ h₂
  obtain ⟨w₃, rfl, rfl, -⟩ := sound_tag _ _ _ _ h₃
  obtain ⟨wv, rfl, hv⟩ := sound_unescaped _ _ _ h₄
  refine ⟨(if dn.isSome then bytes [':', 'd', 'n'] else []) ++ byte ':' :: mrule ++
    bytes [':', '='] ++ wv, by simp only [List.append_assoc], ?_⟩
  let m : ExtensibleMatch := ⟨some ⟨mrule, hmrule⟩, none, v, dn.isSome, Or.inl (by simp)⟩
  exact ⟨.extensible m, ⟨wv, hv, by simp [m]⟩, (extensibleTag_eq m).symm⟩

/-- **Items**: each alternative reads a form of the grammar. -/
theorem sound_item : Sound item RendersItem := by
  have hextensible : Sound extensible RendersItem := by
    refine Sound.alt fun p hp ↦ ?_
    simp only [List.mem_cons, List.not_mem_nil, or_false] at hp
    rcases hp with rfl | rfl
    · exact sound_attrDnMrule
    · exact sound_dnMrule
  refine Sound.alt fun p hp ↦ ?_
  simp only [List.mem_cons, List.not_mem_nil, or_false] at hp
  rcases hp with rfl | rfl | rfl
  · exact sound_eq
  · exact sound_nonEq
  · exact hextensible

/-! ### Filters -/

/-- A word and the tag of a filter it renders. -/
def RendersFilter (w : List UInt8) (t : Tag) : Prop :=
  ∃ f : Filter Item, f.Renders Item.Renders w ∧ f.tag Item.tag = t

/-- A list of filters, from what one of them is read as. -/
theorem sound_filterlist {p : P Tag} (hp : Sound p RendersFilter) : Sound (filterlist p) fun w ts ↦
    ∃ fs : List (Filter Item),
      Filter.RendersAll Item.Renders w fs ∧ Filter.tags Item.tag fs = ts := by
  refine hp.many0.imp ?_
  rintro w ts ⟨ws, rfl, hws⟩
  induction hws with
  | nil => exact ⟨[], rfl, rfl⟩
  | cons h _ ih =>
    obtain ⟨f, hf, rfl⟩ := h
    obtain ⟨fs, hfs, rfl⟩ := ih
    exact ⟨f :: fs, ⟨_, _, hf, hfs, rfl⟩, rfl⟩

/-- The inside of a filter, and the filter around it. -/
theorem sound_filtercomp {p : P Tag} (hp : Sound p RendersFilter) : Sound (filtercomp p) fun w t ↦
    RendersFilter (byte '(' :: w ++ [byte ')']) t := by
  refine Sound.alt fun q hq ↦ ?_
  simp only [List.mem_cons, List.not_mem_nil, or_false] at hq
  rcases hq with rfl | rfl | rfl | rfl
  · refine ((sound_tag _).preceded (sound_filterlist hp)).map ?_
    rintro w ts ⟨_, w₂, _, rfl, ⟨rfl, -⟩, fs, hfs, rfl⟩
    exact ⟨.and fs, ⟨w₂, hfs, rfl⟩, rfl⟩
  · refine ((sound_tag _).preceded (sound_filterlist hp)).map ?_
    rintro w ts ⟨_, w₂, _, rfl, ⟨rfl, -⟩, fs, hfs, rfl⟩
    exact ⟨.or fs, ⟨w₂, hfs, rfl⟩, rfl⟩
  · refine ((sound_tag _).preceded hp).map ?_
    rintro w t ⟨_, w₂, _, rfl, ⟨rfl, -⟩, f, hf, rfl⟩
    exact ⟨.not f, ⟨w₂, hf, rfl⟩, rfl⟩
  · refine sound_item.imp ?_
    rintro w t ⟨it, hit, rfl⟩
    exact ⟨.item it, ⟨w, hit, rfl⟩, rfl⟩

/-- Every number of rounds of the circle is sound. -/
theorem sound_filterLoop (fuel : ℕ) : Sound (filterLoop fuel) RendersFilter := by
  induction fuel with
  | zero => exact fun _ _ _ hok ↦ nomatch hok
  | succ fuel ih =>
    intro i r t hok
    obtain ⟨⟨i₁, c⟩, h₁, hok⟩ := bind_eq_ok.1 hok
    obtain ⟨⟨i₂, t'⟩, h₂, hok⟩ := bind_eq_ok.1 hok
    obtain ⟨⟨i₃, c'⟩, h₃, hok⟩ := bind_eq_ok.1 hok
    obtain ⟨rfl, rfl⟩ := Prod.mk.inj (Except.ok.inj hok)
    obtain ⟨_, rfl, rfl, -⟩ := sound_tag _ _ _ _ h₁
    obtain ⟨w, rfl, hw⟩ := sound_filtercomp ih _ _ _ h₂
    obtain ⟨_, rfl, rfl, -⟩ := sound_tag _ _ _ _ h₃
    exact ⟨byte '(' :: w ++ [byte ')'], by simp, hw⟩

/-- The expression is a filter or a bare item. What is left of the input is for `parse` to refuse.
-/
theorem sound_filtexpr : Sound filtexpr fun w t ↦ RendersFilter w t ∨ RendersItem w t := by
  refine Sound.alt fun p hp ↦ ?_
  simp only [List.mem_cons, List.not_mem_nil, or_false] at hp
  rcases hp with rfl | rfl
  · exact fun i r t hok ↦ (sound_filterLoop _ i r t hok).imp fun w hw ↦ ⟨hw.1, Or.inl hw.2⟩
  · exact sound_item.imp fun w t ↦ Or.inr

/-- An accepted string is read whole. -/
theorem renders_of_parse {s : List UInt8} {t : Tag} (h : parse s = .ok t) :
    RendersFilter s t ∨ RendersItem s t := by
  rw [parse] at h
  split at h
  · rename_i r t' hexpr
    split at h
    · rename_i hr
      obtain rfl := Except.ok.inj h
      rw [List.isEmpty_iff] at hr
      subst hr
      obtain ⟨w, rfl, hw⟩ := sound_filtexpr _ _ _ hexpr
      rwa [List.append_nil]
    · cases h
  · cases h

/-- **Filter soundness.** An accepted string renders a filter, or an item without parentheses, and
the result is its tag tree. -/
theorem parse_sound {s : List UInt8} {t : Tag} (h : parse s = .ok t) :
    ∃ f : Filter Item, f.tag Item.tag = t ∧
      (f.Renders Item.Renders s ∨ ∃ it : Item, f = .item it ∧ it.Renders s) := by
  rcases renders_of_parse h with ⟨f, hf, rfl⟩ | ⟨it, hit, rfl⟩
  · exact ⟨f, rfl, Or.inl hf⟩
  · exact ⟨.item it, rfl, Or.inr ⟨it, rfl, hit⟩⟩

/-- A negated substring assertion. -/
theorem parse_sound_nested :
    let t := Tag.explicitTag 2 .context (.sequence 4 .context [.ofOctetString (bytes ['a']),
      .ofSequence [substringTag 0 (bytes ['b']), substringTag 2 (bytes ['*'])]])
    let s := bytes ['(', '!', '(', 'a', '=', 'b', '*', '\\', '2', 'A', ')', ')']
    parse s = .ok t ∧ ∃ f : Filter Item, f.tag Item.tag = t ∧
      (f.Renders Item.Renders s ∨ ∃ it : Item, f = .item it ∧ it.Renders s) :=
  ⟨by rfl, parse_sound (by rfl)⟩

end FilterParser

end Ldap3
