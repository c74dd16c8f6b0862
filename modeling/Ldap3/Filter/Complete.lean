import Ldap3.Filter.Value

/-!
# Filters are read as they are meant

**Every rendering of a filter is parsed to the tag tree of the filter** (`parse_renders`),
whatever octets its values hold and however they are written, so nothing in a value can change the
filter around it.

The parser never tries the rest of an alternative that has succeeded, so for each parser of the
grammar it has to be shown that the alternatives before the right one fail and that the right one
stops at the end of the word. For both it is enough to know the character that follows the word: an
attribute description ends before a character that could not continue one, a value before a
character that no value holds, and an item before a closing parenthesis or the end of the input.
-/

namespace Ldap3

namespace FilterParser

open Nom.Complete

variable {r w : List UInt8}

/-! ### Attribute descriptions -/

/-- A number is read up to the next octet that is no digit. -/
theorem number_append (hw : IsNumber w) (hr : NotAhead isDigit r) :
    number (w ++ r) = .ok (r, w) := by
  obtain ⟨hne, hdigits, hzero⟩ := hw
  refine verify_eq_ok_iff.2 ⟨takeWhile1_append hne hdigits hr, ?_⟩
  simpa [bne_iff_ne] using hzero

theorem number_of_notAhead (hr : NotAhead isDigit r) : number r = .error .error := by
  rw [number, verify, Nom.mapOpt, takeWhile1_of_notAhead hr]

/-- A numeric OID is read whole, if neither a digit nor a dot follows. -/
theorem numericoid_append (hw : IsNumericoid w) (hr : NotAhead isDigit r)
    (hdot : NotAhead (fun c ↦ c = byte '.') r) : numericoid (w ++ r) = .ok (r, w) := by
  obtain ⟨n, ns, hn, hns, rfl⟩ := hw
  have hfirst : number (n ++ ((ns.map (byte '.' :: ·)).flatten ++ r)) = _ :=
    number_append hn (hr.separated rfl)
  have hrest : many0 (preceded (tag (bytes ['.'])) number) ((ns.map (byte '.' :: ·)).flatten ++ r) =
      .ok (r, ns) :=
    many0_preceded_append (R := fun w a ↦ IsNumber w ∧ w = a) (f := isDigit)
      (fun w a r h hr ↦ by rw [← h.2]; exact number_append h.1 hr) rfl
      (List.forall₂_same.2 fun m hm ↦ ⟨hns m hm, rfl⟩) hr hdot
  refine recognize_append (a := ()) ?_
  rw [List.append_assoc]
  simp only [hfirst, hrest, bind, Except.bind, pure, Except.pure]

theorem numericoid_of_notAhead (hr : NotAhead isDigit r) : numericoid r = .error .error := by
  rw [numericoid, recognize, number_of_notAhead hr]
  rfl

/-- A short name is read up to the next octet that could not be in it. -/
theorem descr_append (hw : IsDescr w) (hr : NotAhead isAlnumHyphen r) :
    descr (w ++ r) = .ok (r, w) := by
  obtain ⟨c, cs, hc, hcs, rfl⟩ := hw
  have hfirst : verify anyElem isAlphabetic (c :: (cs ++ r)) = .ok (cs ++ r, c) :=
    verify_eq_ok_iff.2 ⟨rfl, hc⟩
  have hrest := takeWhile_append hcs hr
  refine recognize_append (a := ()) ?_
  rw [List.cons_append]
  simp only [hfirst, hrest, bind, Except.bind, pure, Except.pure]

/-- A short name is not taken for a numeric OID, which is tried first: it fails at the first octet.
-/
theorem not_isDigit_of_isAlphabetic {c : UInt8} (hc : isAlphabetic c) : isDigit c = false := by
  have hA : (byte 'A').toNat = 65 := rfl
  have ha : (byte 'a').toNat = 97 := rfl
  have h9 : (byte '9').toNat = 57 := rfl
  simp only [isAlphabetic, Bool.or_eq_true, Bool.and_eq_true, decide_eq_true_eq,
    UInt8.le_iff_toNat_le] at hc
  simp only [isDigit, Bool.and_eq_false_iff, decide_eq_false_iff_not, UInt8.le_iff_toNat_le]
  omega

/-- An attribute type is read whole, in either form. -/
theorem attributetype_append (hw : IsAttributeType w) (hr : NotAhead isAlnumHyphen r)
    (hdot : NotAhead (fun c ↦ c = byte '.') r) : attributetype (w ++ r) = .ok (r, w) := by
  have hdigit : NotAhead isDigit r := hr.imp fun c hc ↦ by
    simp only [isAlnumHyphen, isAlphanumeric, Bool.or_eq_false_iff] at hc
    exact hc.1.2
  rcases hw with hw | hw
  · exact alt_of_ok (numericoid_append hw hdigit hdot)
  · have hnotDigit : NotAhead isDigit (w ++ r) := by
      obtain ⟨c, cs, hc, -, rfl⟩ := hw
      exact notAhead_cons.2 (not_isDigit_of_isAlphabetic hc)
    exact (alt_of_error (numericoid_of_notAhead hnotDigit)).trans (alt_of_ok (descr_append hw hr))

/-- A character that can continue an attribute description. -/
def continuesAttribute (c : UInt8) : Bool :=
  isAlnumHyphen c || c == byte '.' || c == byte ';'

/-- An attribute description is read whole, with its options. -/
theorem attributedescription_append (hw : IsAttributeDescription w)
    (hr : NotAhead continuesAttribute r) : attributedescription (w ++ r) = .ok (r, w) := by
  obtain ⟨t, opts, ht, hopts, rfl⟩ := hw
  have halnum : NotAhead isAlnumHyphen r := hr.imp fun c hc ↦ by
    simp only [continuesAttribute, Bool.or_eq_false_iff] at hc
    exact hc.1.1
  have hdot : NotAhead (fun c ↦ c = byte '.') r := hr.imp fun c hc ↦ by
    simp only [continuesAttribute, Bool.or_eq_false_iff] at hc
    simpa using hc.1.2
  have hsemi : NotAhead (fun c ↦ c = byte ';') r := hr.imp fun c hc ↦ by
    simp only [continuesAttribute, Bool.or_eq_false_iff] at hc
    simpa using hc.2
  have hfirst : attributetype (t ++ ((opts.map (byte ';' :: ·)).flatten ++ r)) = _ :=
    attributetype_append ht (halnum.separated rfl) (hdot.separated rfl)
  have hrest : many0 (preceded (tag (bytes [';'])) (takeWhile1 isAlnumHyphen))
      ((opts.map (byte ';' :: ·)).flatten ++ r) = .ok (r, opts) :=
    many0_preceded_append (R := fun w a ↦ (w ≠ [] ∧ ∀ c ∈ w, isAlnumHyphen c) ∧ w = a)
      (f := isAlnumHyphen)
      (fun w a r h hr ↦ by rw [← h.2]; exact takeWhile1_append h.1.1 h.1.2 hr) rfl
      (List.forall₂_same.2 fun o ho ↦ ⟨hopts o ho, rfl⟩) halnum hsemi
  refine recognize_append (a := ()) ?_
  rw [List.append_assoc]
  simp only [hfirst, hrest, bind, Except.bind, pure, Except.pure]

/-- An attribute description begins with a letter or a digit. -/
theorem attributeDescription_head (hw : IsAttributeDescription w) :
    ∃ c cs, w = c :: cs ∧ isAlphanumeric c := by
  obtain ⟨t, opts, ht, -, rfl⟩ := hw
  rcases ht with ⟨n, ns, ⟨hne, hdigits, -⟩, -, rfl⟩ | ⟨c, cs, hc, -, rfl⟩
  · obtain ⟨c, cs, rfl⟩ := List.exists_cons_of_ne_nil hne
    exact ⟨c, _, rfl, by rw [isAlphanumeric, hdigits c List.mem_cons_self, Bool.or_true]⟩
  · exact ⟨c, _, rfl, by rw [isAlphanumeric, hc, Bool.true_or]⟩

/-! ### Items -/

/-- An item is followed by a closing parenthesis or by nothing. -/
abbrev EndsItem (r : List UInt8) : Prop :=
  NotAhead (fun c ↦ c != byte ')') r

/-- What follows an item does not go on with its value. -/
theorem EndsItem.value (hr : EndsItem r) : NotAhead isValueChar r :=
  hr.imp fun c hc ↦ by
    have hc' : c = byte ')' := by simpa using hc
    rw [hc']
    rfl

theorem EndsItem.asterisk (hr : EndsItem r) : NotAhead (fun c ↦ c = byte '*') r :=
  hr.imp fun c hc ↦ by
    have hc' : c = byte ')' := by simpa using hc
    rw [hc']
    rfl

/-- An item with `=`, from the renderings of its parts between the asterisks. -/
theorem eq_append (attr : AttributeDescription) {wi v : List UInt8} {ws l : List (List UInt8)}
    (hi : RendersValue wi v) (hws : List.Forall₂ RendersValue ws l) (hl : innerNonempty l)
    (hr : EndsItem r) :
    eq (attr.1 ++ byte '=' :: (wi ++ ((ws.map (byte '*' :: ·)).flatten ++ r))) =
      .ok (r, eqTag attr.1 v l) := by
  have hattr := attributedescription_append (r := byte '=' ::
    (wi ++ ((ws.map (byte '*' :: ·)).flatten ++ r))) attr.2 (notAhead_cons.2 rfl)
  have heq : tag (bytes ['=']) (byte '=' :: (wi ++ ((ws.map (byte '*' :: ·)).flatten ++ r))) =
      .ok (wi ++ ((ws.map (byte '*' :: ·)).flatten ++ r), bytes ['=']) := tag_append (bytes ['=']) _
  have hinitial := unescaped_append (r := (ws.map (byte '*' :: ·)).flatten ++ r) hi
    (hr.value.separated rfl)
  have hmid : mapRes (many0 (preceded (tag (bytes ['*'])) unescaped))
      (fun v ↦ if innerNonempty v then some v else none) ((ws.map (byte '*' :: ·)).flatten ++ r) =
        .ok (r, l) :=
    mapRes_eq_ok_iff.2 ⟨l, many0_preceded_append (fun _ _ _ h hr ↦ unescaped_append h hr) rfl hws
      hr.value hr.asterisk, if_pos hl⟩
  simp only [eq, hattr, heq, hinitial, hmid, bind, Except.bind, pure, Except.pure]

/-- A comparison other than `=`. -/
theorem nonEq_append (attr : AttributeDescription) {ft : FilterType} (hft : ft ≠ .equal)
    {wv v : List UInt8} (hv : RendersValue wv v) (hr : EndsItem r) :
    nonEq (attr.1 ++ (ft.symbol ++ (wv ++ r))) =
      .ok (r, (Assertion.simple attr ft v).tag) := by
  have hvalue := unescaped_append hv hr.value
  cases ft with
  | equal => exact absurd rfl hft
  | greaterOrEqual =>
    have hattr := attributedescription_append (r := bytes ['>', '='] ++ (wv ++ r)) attr.2
      (notAhead_cons.2 rfl)
    have hop : alt [tag (bytes ['>', '=']), tag (bytes ['<', '=']), tag (bytes ['~', '='])]
        (bytes ['>', '='] ++ (wv ++ r)) = .ok (wv ++ r, bytes ['>', '=']) :=
      alt_of_ok (tag_append _ _)
    simp only [nonEq, FilterType.symbol, hattr, hop, hvalue, bind, Except.bind]
    rfl
  | lessOrEqual =>
    have hattr := attributedescription_append (r := bytes ['<', '='] ++ (wv ++ r)) attr.2
      (notAhead_cons.2 rfl)
    have hop : alt [tag (bytes ['>', '=']), tag (bytes ['<', '=']), tag (bytes ['~', '='])]
        (bytes ['<', '='] ++ (wv ++ r)) = .ok (wv ++ r, bytes ['<', '=']) :=
      (alt_of_error (tag_cons_of_ne (by decide))).trans (alt_of_ok (tag_append _ _))
    simp only [nonEq, FilterType.symbol, hattr, hop, hvalue, bind, Except.bind]
    rfl
  | approx =>
    have hattr := attributedescription_append (r := bytes ['~', '='] ++ (wv ++ r)) attr.2
      (notAhead_cons.2 rfl)
    have hop : alt [tag (bytes ['>', '=']), tag (bytes ['<', '=']), tag (bytes ['~', '='])]
        (bytes ['~', '='] ++ (wv ++ r)) = .ok (wv ++ r, bytes ['~', '=']) :=
      (alt_of_error (tag_cons_of_ne (by decide))).trans
        ((alt_of_error (tag_cons_of_ne (by decide))).trans (alt_of_ok (tag_append _ _)))
    simp only [nonEq, FilterType.symbol, hattr, hop, hvalue, bind, Except.bind]
    rfl

/-- Another comparison is not read as an item with `=`. -/
theorem eq_of_symbol (attr : AttributeDescription) {ft : FilterType} (hft : ft ≠ .equal)
    (i : List UInt8) : eq (attr.1 ++ (ft.symbol ++ i)) = .error .error := by
  have hsymbol : ∃ c cs, ft.symbol = c :: cs ∧ byte '=' ≠ c ∧ continuesAttribute c = false := by
    cases ft with
    | equal => exact absurd rfl hft
    | greaterOrEqual => exact ⟨byte '>', _, rfl, by decide, by decide⟩
    | lessOrEqual => exact ⟨byte '<', _, rfl, by decide, by decide⟩
    | approx => exact ⟨byte '~', _, rfl, by decide, by decide⟩
  obtain ⟨c, cs, hcs, hne, hstop⟩ := hsymbol
  rw [hcs, List.cons_append]
  have hattr := attributedescription_append (r := c :: (cs ++ i)) attr.2 (notAhead_cons.2 hstop)
  have heq : tag (bytes ['=']) (c :: (cs ++ i)) = .error .error := tag_cons_of_ne hne
  simp only [eq, hattr, heq, bind, Except.bind]

/-- **An assertion is read as what it renders.** Those with `=` are the first alternative; it fails
on the other comparisons, and the second one is tried. -/
theorem item_append {a : Assertion} (ha : a.Renders w) (hr : EndsItem r) :
    item (w ++ r) = .ok (r, a.tag) := by
  cases a with
  | simple attr ft v =>
    obtain ⟨wv, hv, rfl⟩ := ha
    rw [List.append_assoc, List.append_assoc]
    by_cases hft : ft = .equal
    · subst hft
      have heq := eq_append attr hv .nil rfl hr
      rw [List.map_nil, List.flatten_nil, List.nil_append] at heq
      exact alt_of_ok heq
    · exact (alt_of_error (eq_of_symbol attr hft _)).trans (alt_of_ok (nonEq_append attr hft hv hr))
  | present attr =>
    obtain rfl : w = attr.1 ++ bytes ['=', '*'] := ha
    have heq := eq_append attr .nil (.cons .nil .nil) rfl hr
    rw [List.append_assoc]
    exact alt_of_ok heq
  | substrings attr sub =>
    obtain ⟨_, ⟨wi, ws, wf, hi, hws, hf, rfl⟩, rfl⟩ := ha
    have hall : List.Forall₂ RendersValue (ws ++ [wf]) (sub.any ++ [sub.final.getD []]) :=
      List.rel_append hws (.cons hf .nil)
    have heq := eq_append attr hi hall (innerNonempty_append.2 sub.any_ne_nil) hr
    rw [eqTag_substrings] at heq
    simp only [List.append_assoc]
    exact alt_of_ok heq

/-- An assertion begins with a letter or a digit, so it is not taken for an operator. -/
theorem assertion_head {a : Assertion} (ha : a.Renders w) :
    ∃ c cs, w = c :: cs ∧ isAlphanumeric c := by
  cases a with
  | simple attr ft v =>
    obtain ⟨wv, -, rfl⟩ := ha
    obtain ⟨c, cs, hattr, hc⟩ := attributeDescription_head attr.2
    exact ⟨c, _, by rw [hattr]; rfl, hc⟩
  | present attr =>
    obtain rfl : w = attr.1 ++ bytes ['=', '*'] := ha
    obtain ⟨c, cs, hattr, hc⟩ := attributeDescription_head attr.2
    exact ⟨c, _, by rw [hattr]; rfl, hc⟩
  | substrings attr sub =>
    obtain ⟨ws, -, rfl⟩ := ha
    obtain ⟨c, cs, hattr, hc⟩ := attributeDescription_head attr.2
    exact ⟨c, _, by rw [hattr]; rfl, hc⟩

/-! ### The inside of a filter -/

section

variable {p : P Tag} {i : List UInt8} {c : UInt8} {t : Tag} {ts : List Tag}

/-- After its operator, a conjunction is what the list of filters is read as. -/
theorem and_of_ok (h : many0 p i = .ok (r, ts)) :
    and p (byte '&' :: i) = .ok (r, .sequence 0 .context ts) :=
  map_of_ok ((preceded_of_ok (tag_append (bytes ['&']) i)).trans h)

theorem or_of_ok (h : many0 p i = .ok (r, ts)) :
    or p (byte '|' :: i) = .ok (r, .sequence 1 .context ts) :=
  map_of_ok ((preceded_of_ok (tag_append (bytes ['|']) i)).trans h)

theorem not_of_ok (h : p i = .ok (r, t)) :
    not p (byte '!' :: i) = .ok (r, .explicitTag 2 .context t) :=
  map_of_ok ((preceded_of_ok (tag_append (bytes ['!']) i)).trans h)

theorem and_of_ne (h : byte '&' ≠ c) : and p (c :: i) = .error .error :=
  map_of_error (preceded_of_error (tag_cons_of_ne h))

theorem or_of_ne (h : byte '|' ≠ c) : or p (c :: i) = .error .error :=
  map_of_error (preceded_of_error (tag_cons_of_ne h))

theorem not_of_ne (h : byte '!' ≠ c) : not p (c :: i) = .error .error :=
  map_of_error (preceded_of_error (tag_cons_of_ne h))

/-- The first octet decides between the alternatives. -/
theorem filtercomp_and (h : many0 p i = .ok (r, ts)) :
    filtercomp p (byte '&' :: i) = .ok (r, .sequence 0 .context ts) :=
  alt_of_ok (and_of_ok h)

theorem filtercomp_or (h : many0 p i = .ok (r, ts)) :
    filtercomp p (byte '|' :: i) = .ok (r, .sequence 1 .context ts) :=
  (alt_of_error (and_of_ne (by decide))).trans (alt_of_ok (or_of_ok h))

theorem filtercomp_not (h : p i = .ok (r, t)) :
    filtercomp p (byte '!' :: i) = .ok (r, .explicitTag 2 .context t) :=
  (alt_of_error (and_of_ne (by decide))).trans
    ((alt_of_error (or_of_ne (by decide))).trans (alt_of_ok (not_of_ok h)))

/-- An item begins with none of the octets that have a meaning of their own. -/
theorem ne_of_isAlphanumeric (hc : isAlphanumeric c) :
    byte '&' ≠ c ∧ byte '|' ≠ c ∧ byte '!' ≠ c ∧ byte '(' ≠ c := by
  refine ⟨?_, ?_, ?_, ?_⟩ <;>
    · rintro rfl
      cases hc

/-- Without an operator in front it is an item. -/
theorem filtercomp_of_ne (hand : byte '&' ≠ c) (hor : byte '|' ≠ c) (hnot : byte '!' ≠ c) :
    filtercomp p (c :: i) = item (c :: i) := by
  rw [filtercomp, alt_of_error (and_of_ne hand), alt_of_error (or_of_ne hor),
    alt_of_error (not_of_ne hnot), alt_singleton]

theorem filtercomp_item (hc : isAlphanumeric c) (h : item (c :: i) = .ok (r, t)) :
    filtercomp p (c :: i) = .ok (r, t) := by
  obtain ⟨hand, hor, hnot, -⟩ := ne_of_isAlphanumeric hc
  rw [filtercomp_of_ne hand hor hnot, h]

end

/-! ### Filters -/

/-- A list of filters ends where no parenthesis opens. -/
theorem filter_of_notAhead (hr : NotAhead (fun c ↦ c = byte '(') r) :
    filter r = .error .error := by
  have hparen : tag (bytes ['(']) r = .error .error := tag_cons_of_notAhead hr
  rw [filter_eq, delimited, hparen]
  rfl

/-- A filter, from its inside. -/
theorem filter_append {t : Tag}
    (h : filtercomp filter (w ++ byte ')' :: r) = .ok (byte ')' :: r, t)) :
    filter (byte '(' :: (w ++ byte ')' :: r)) = .ok (r, t) := by
  have hopen : tag (bytes ['(']) (byte '(' :: (w ++ byte ')' :: r)) =
      .ok (w ++ byte ')' :: r, bytes ['(']) := tag_append (bytes ['(']) _
  have hclose : tag (bytes [')']) (byte ')' :: r) = .ok (r, bytes [')']) :=
    tag_append (bytes [')']) r
  rw [filter_eq, delimited]
  simp only [hopen, h, hclose, bind, Except.bind, pure, Except.pure]

/-- A filter has at least its parentheses, so that a repetition of filters goes on. -/
theorem filter_ne_nil {f : Filter Assertion} (hw : f.Renders Assertion.Renders w) : w ≠ [] := by
  cases f with
  | and fs =>
    obtain ⟨ws, -, rfl⟩ := hw
    exact List.cons_ne_nil _ _
  | or fs =>
    obtain ⟨ws, -, rfl⟩ := hw
    exact List.cons_ne_nil _ _
  | not f =>
    obtain ⟨w', -, rfl⟩ := hw
    exact List.cons_ne_nil _ _
  | item a =>
    obtain ⟨w', -, rfl⟩ := hw
    exact List.cons_ne_nil _ _

mutual

/-- By recursion on the filter, with any input after it. -/
theorem filter_of_renders (f : Filter Assertion) {w r : List UInt8}
    (hw : f.Renders Assertion.Renders w) : filter (w ++ r) = .ok (r, f.tag Assertion.tag) := by
  cases f with
  | and fs =>
    obtain ⟨ws, hws, rfl⟩ := hw
    have hlist := filterlist_of_renders fs (r := byte ')' :: r) hws (notAhead_cons.2 rfl)
    simp only [List.cons_append, List.append_assoc, List.nil_append]
    exact filter_append (w := byte '&' :: ws) (filtercomp_and hlist)
  | or fs =>
    obtain ⟨ws, hws, rfl⟩ := hw
    have hlist := filterlist_of_renders fs (r := byte ')' :: r) hws (notAhead_cons.2 rfl)
    simp only [List.cons_append, List.append_assoc, List.nil_append]
    exact filter_append (w := byte '|' :: ws) (filtercomp_or hlist)
  | not f =>
    obtain ⟨w', hw', rfl⟩ := hw
    have hf := filter_of_renders f (r := byte ')' :: r) hw'
    simp only [List.cons_append, List.append_assoc, List.nil_append]
    exact filter_append (w := byte '!' :: w') (filtercomp_not hf)
  | item a =>
    obtain ⟨w', hw', rfl⟩ := hw
    have hitem := item_append (r := byte ')' :: r) hw' (notAhead_cons.2 rfl)
    obtain ⟨c, cs, rfl, hc⟩ := assertion_head hw'
    simp only [List.cons_append, List.append_assoc, List.nil_append]
    exact filter_append (w := c :: cs) (filtercomp_item hc hitem)

/-- A list of filters is read whole, one by one. -/
theorem filterlist_of_renders (fs : List (Filter Assertion)) {w r : List UInt8}
    (hw : Filter.RendersAll Assertion.Renders w fs) (hr : NotAhead (fun c ↦ c = byte '(') r) :
    many0 filter (w ++ r) = .ok (r, Filter.tags Assertion.tag fs) := by
  cases fs with
  | nil =>
    obtain rfl : w = [] := hw
    exact many0_of_error (filter_of_notAhead hr)
  | cons f fs =>
    obtain ⟨w₁, w₂, h₁, h₂, rfl⟩ := hw
    rw [List.append_assoc]
    refine many0_cons (filter_of_renders f h₁) ?_ (filterlist_of_renders fs h₂ hr)
    have hpos := List.length_pos_of_ne_nil (filter_ne_nil h₁)
    have hlen : (w₁ ++ (w₂ ++ r)).length = w₁.length + (w₂ ++ r).length := List.length_append
    omega

end

/-! ### The main result -/

/-- **Filter completeness.** Every rendering of a filter, and of an item without parentheses, is
parsed to its tag tree, and what `ldap_escape` makes of a string is a rendering of it. -/
theorem parse_renders :
    (∀ (f : Filter Assertion) (w : List UInt8), f.Renders Assertion.Renders w →
      parse w = .ok (f.tag Assertion.tag)) ∧
    (∀ (a : Assertion) (w : List UInt8), a.Renders w → parse w = .ok a.tag) ∧
    ∀ lit : String, ∃ out, ldapEscape lit = .ok out ∧ RendersValue (asBytes out) (asBytes lit) := by
  refine ⟨fun f w hw ↦ ?_, fun a w hw ↦ ?_, ldapEscape_renders⟩
  · have hfilter := filter_of_renders f (r := []) hw
    rw [List.append_nil] at hfilter
    have hexpr : filtexpr w = .ok ([], f.tag Assertion.tag) := alt_of_ok hfilter
    rw [parse, hexpr]
    rfl
  · have hitem := item_append (r := []) hw notAhead_nil
    rw [List.append_nil] at hitem
    obtain ⟨c, cs, rfl, hc⟩ := assertion_head hw
    have hfilter : filter (c :: cs) = .error .error :=
      filter_of_notAhead (notAhead_cons.2 (decide_eq_false (ne_of_isAlphanumeric hc).2.2.2.symm))
    have hexpr : filtexpr (c :: cs) = .ok ([], a.tag) :=
      (alt_of_error hfilter).trans (alt_of_ok hitem)
    rw [parse, hexpr]
    rfl

/-- A negated substring assertion with two escaped asterisks and a real one, and a bare item. -/
theorem parse_renders_escaped :
    parse (bytes ['(', '!', '(', 'a', '=', '\\', '2', 'a', '*', '\\', '2', 'A', ')', ')']) =
        .ok (.explicitTag 2 .context (.sequence 4 .context [.ofOctetString (bytes ['a']),
          .ofSequence [substringTag 0 (bytes ['*']), substringTag 2 (bytes ['*'])]])) ∧
      parse (bytes ['a', '>', '=', 'b']) =
        .ok (.sequence 5 .context
          [.ofOctetString (bytes ['a']), .ofOctetString (bytes ['b'])]) := by
  have hattr : IsAttributeDescription (bytes ['a']) :=
    ⟨bytes ['a'], [], Or.inr ⟨byte 'a', [], by decide, by simp, rfl⟩, by simp, rfl⟩
  have hb : RendersValue (bytes ['b']) (bytes ['b']) :=
    RendersValue.cons (Or.inl ⟨isRaw_iff.2 (by decide), rfl⟩) .nil
  have hlower : RendersValue (bytes ['\\', '2', 'a']) (bytes ['*']) :=
    RendersValue.cons (Or.inr ⟨byte '2', byte 'a', 2, 10, rfl, rfl, rfl, rfl⟩) .nil
  have hupper : RendersValue (bytes ['\\', '2', 'A']) (bytes ['*']) :=
    RendersValue.cons (Or.inr ⟨byte '2', byte 'A', 2, 10, rfl, rfl, rfl, rfl⟩) .nil
  let sub : Substrings :=
    ⟨some (bytes ['*']), [], some (bytes ['*']), by simp, by simp, by simp, by simp⟩
  refine ⟨parse_renders.1 (.not (.item (.substrings ⟨_, hattr⟩ sub))) _ ?_,
    parse_renders.2.1 (.simple ⟨_, hattr⟩ .greaterOrEqual (bytes ['b'])) _ ⟨_, hb, rfl⟩⟩
  exact ⟨_, ⟨_, ⟨_, ⟨_, [], _, hlower, .nil, hupper, rfl⟩, rfl⟩, rfl⟩, rfl⟩

end FilterParser

end Ldap3
