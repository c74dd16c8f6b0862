import Ldap3.Controls
import Ldap3.Filter.Extensible
import Ldap3.Filter.Sound

/-!
# Matched Values

`src/controls_impl/matched_values.rs`, and the second entry point of `src/filter.rs` that it calls:
a list of items, each in parentheses, in one more pair of parentheses.

The lists of the ordinary filter are those behind `&` and `|`. Its elements may be any filters, and
it may be empty; otherwise the two entry points read the same strings the same way
(`parseMatchedValues_iff`).
-/

namespace Ldap3

namespace FilterParser

open Nom (bind_eq_ok)
open Nom.Complete

/-- An item in parentheses, the argument of `many1` in the source. -/
def parenItem : P Tag :=
  delimited (tag (bytes ['('])) item (tag (bytes [')']))

def mvFilteritems : P (List Tag) :=
  many1 parenItem

def mvFilterlist : P Tag :=
  map mvFilteritems fun tagv ↦ .ofSequence tagv

def mvFiltexpr : P Tag :=
  delimited (tag (bytes ['('])) mvFilterlist (tag (bytes [')']))

def parseMatchedValues (input : List UInt8) : Except Unit Tag :=
  match mvFiltexpr input with
  | .ok (r, t) => if r.isEmpty then .ok t else .error ()
  | .error _ => .error ()

/-- The tag of an `and`, an `or` or a `not`. -/
def IsOperator (t : Tag) : Prop :=
  (∃ ts, t = .sequence andFilt .context ts) ∨ (∃ ts, t = .sequence orFilt .context ts) ∨
    ∃ u, t = .explicitTag notFilt .context u

variable {i r w : List UInt8} {t : Tag} {ts : List Tag}

/-! ### Items and operators -/

/-- The beginning of an item is none of the operators. -/
theorem item_head (h : item i = .ok (r, t)) :
    ∃ c i', i = c :: i' ∧ byte '&' ≠ c ∧ byte '|' ≠ c ∧ byte '!' ≠ c := by
  obtain ⟨w, rfl, it, hit, -⟩ := sound_item _ _ _ h
  cases it with
  | assertion a =>
    obtain ⟨c, cs, rfl, hc⟩ := assertion_head hit
    obtain ⟨hand, hor, hnot, -⟩ := ne_of_isAlphanumeric hc
    exact ⟨c, cs ++ r, rfl, hand, hor, hnot⟩
  | extensible m =>
    obtain ⟨c, cs, rfl, hc⟩ := extensible_head hit
    exact ⟨c, cs ++ r, rfl, hc⟩

theorem not_isOperator_of_item (h : item i = .ok (r, t)) : ¬IsOperator t := by
  obtain ⟨w, -, it, -, rfl⟩ := sound_item _ _ _ h
  rintro (⟨ts, heq⟩ | ⟨ts, heq⟩ | ⟨u, heq⟩)
  · rcases it with (⟨_, ft, _⟩ | _ | _) | _
    · cases ft <;> cases heq
    all_goals cases heq
  · rcases it with (⟨_, ft, _⟩ | _ | _) | _
    · cases ft <;> cases heq
    all_goals cases heq
  · rcases it with (_ | _ | _) | _ <;> cases heq

/-- The inside of a filter is an item or gives the tag of an operator. -/
theorem item_or_isOperator_of_filtercomp {p : P Tag} (h : filtercomp p i = .ok (r, t)) :
    item i = .ok (r, t) ∨ IsOperator t := by
  obtain ⟨q, hq, hok⟩ := exists_of_alt h
  simp only [List.mem_cons, List.not_mem_nil, or_false] at hq
  rcases hq with rfl | rfl | rfl | rfl
  · obtain ⟨ts, -, rfl⟩ := map_eq_ok_iff.1 hok
    exact Or.inr (Or.inl ⟨ts, rfl⟩)
  · obtain ⟨ts, -, rfl⟩ := map_eq_ok_iff.1 hok
    exact Or.inr (Or.inr (Or.inl ⟨ts, rfl⟩))
  · obtain ⟨u, -, rfl⟩ := map_eq_ok_iff.1 hok
    exact Or.inr (Or.inr (Or.inr ⟨u, rfl⟩))
  · exact Or.inl hok

/-- What is in parentheses. -/
theorem parens_eq_ok_iff {α : Type} {p : P α} {a : α} :
    delimited (tag (bytes ['('])) p (tag (bytes [')'])) i = .ok (r, a) ↔
      ∃ j, i = byte '(' :: j ∧ p j = .ok (byte ')' :: r, a) :=
  delimited_tag_eq_ok_iff

/-- **The elements.** An item in parentheses is a filter that is no operator. -/
theorem parenItem_eq_ok_iff :
    parenItem i = .ok (r, t) ↔ filter i = .ok (r, t) ∧ ¬IsOperator t := by
  rw [parenItem, filter_eq, parens_eq_ok_iff, parens_eq_ok_iff]
  constructor
  · rintro ⟨j, rfl, hitem⟩
    obtain ⟨c, i', rfl, hand, hor, hnot⟩ := item_head hitem
    exact ⟨⟨_, rfl, (filtercomp_of_ne hand hor hnot).trans hitem⟩, not_isOperator_of_item hitem⟩
  · rintro ⟨⟨j, rfl, hcomp⟩, hop⟩
    exact ⟨j, rfl, (item_or_isOperator_of_filtercomp hcomp).resolve_right hop⟩

theorem parenItem_of_notAhead (hr : NotAhead (fun c ↦ c = byte '(') r) :
    parenItem r = .error .error := by
  have hparen : tag (bytes ['(']) r = .error .error := tag_cons_of_notAhead hr
  rw [parenItem, delimited, hparen]
  rfl

theorem parenItem_length (h : parenItem i = .ok (r, t)) : r.length < i.length := by
  obtain ⟨j, rfl, hitem⟩ := parens_eq_ok_iff.1 h
  obtain ⟨w, rfl, -⟩ := sound_item _ _ _ hitem
  simp only [List.length_cons, List.length_append]
  omega

/-! ### Lists -/

/-- Up to a closing parenthesis, a list of items is a list of filters without an operator. -/
theorem mvFilteritems_eq_ok_iff (hr : NotAhead (fun c ↦ c = byte '(') r) :
    mvFilteritems i = .ok (r, ts) ↔
      filterlist filter i = .ok (r, ts) ∧ ts ≠ [] ∧ ∀ t ∈ ts, ¬IsOperator t := by
  rw [mvFilteritems, filterlist, many1_eq_ok_iff fun _ _ ↦ parenItem_length]
  constructor
  · rintro ⟨h, hne⟩
    refine ⟨many0_mono (fun j s t _ hj ↦ (parenItem_eq_ok_iff.1 hj).1) h (filter_of_notAhead hr),
      hne, ?_⟩
    exact forall_of_many0 (fun j s t hj ↦ (parenItem_eq_ok_iff.1 hj).2) h
  · rintro ⟨h, hne, hop⟩
    exact ⟨many0_mono (fun j s t ht hj ↦ parenItem_eq_ok_iff.2 ⟨hj, hop t ht⟩) h
      (parenItem_of_notAhead hr), hne⟩

/-! ### Entry points -/

theorem parse_eq_ok_iff : parse i = .ok t ↔ filtexpr i = .ok ([], t) := by
  rw [parse]
  rcases filtexpr i with e | ⟨r, t'⟩
  · simp
  · cases r <;> simp

/-- A list of items in its parentheses, and nothing else. -/
theorem parseMatchedValues_eq_ok_iff : parseMatchedValues i = .ok t ↔
    ∃ j ts, i = byte '(' :: j ∧ mvFilteritems j = .ok ([byte ')'], ts) ∧ t = .ofSequence ts := by
  have hwhole : parseMatchedValues i = .ok t ↔ mvFiltexpr i = .ok ([], t) := by
    rw [parseMatchedValues]
    rcases mvFiltexpr i with e | ⟨r, t'⟩
    · simp
    · cases r <;> simp
  rw [hwhole, mvFiltexpr, parens_eq_ok_iff]
  constructor
  · rintro ⟨j, rfl, hlist⟩
    obtain ⟨ts, hitems, rfl⟩ := map_eq_ok_iff.1 hlist
    exact ⟨j, ts, rfl, hitems, rfl⟩
  · rintro ⟨j, ts, rfl, hitems, rfl⟩
    exact ⟨j, rfl, map_of_ok hitems⟩

/-- What the inside of a filter that begins with `&` can be. -/
theorem filtercomp_and_iff {p : P Tag} : filtercomp p (byte '&' :: i) = .ok (r, t) ↔
    ∃ ts, filterlist p i = .ok (r, ts) ∧ t = .sequence andFilt .context ts := by
  constructor
  · intro h
    obtain ⟨q, hq, hok⟩ := exists_of_alt h
    simp only [List.mem_cons, List.not_mem_nil, or_false] at hq
    rcases hq with rfl | rfl | rfl | rfl
    · obtain ⟨ts, hlist, rfl⟩ := map_eq_ok_iff.1 hok
      have hopen : tag (bytes ['&']) (byte '&' :: i) = .ok (i, bytes ['&']) :=
        tag_append (bytes ['&']) i
      rw [preceded_of_ok hopen] at hlist
      exact ⟨ts, hlist, rfl⟩
    · rw [or_of_ne (by decide)] at hok
      cases hok
    · rw [not_of_ne (by decide)] at hok
      cases hok
    · obtain ⟨c, i', heq, hand, -⟩ := item_head hok
      exact absurd (List.cons.inj heq).1 hand
  · rintro ⟨ts, hlist, rfl⟩
    exact filtercomp_and hlist

/-- The conjunction of a list. -/
theorem parse_and_iff : parse (byte '(' :: byte '&' :: (w ++ [byte ')'])) =
      .ok (.sequence andFilt .context ts) ↔
    filterlist filter (w ++ [byte ')']) = .ok ([byte ')'], ts) := by
  have hexpr : filtexpr (byte '(' :: byte '&' :: (w ++ [byte ')'])) =
        .ok ([], .sequence andFilt .context ts) ↔
      filter (byte '(' :: byte '&' :: (w ++ [byte ')'])) =
        .ok ([], .sequence andFilt .context ts) := by
    refine ⟨fun h ↦ ?_, fun h ↦ alt_of_ok h⟩
    obtain ⟨q, hq, hok⟩ := exists_of_alt h
    simp only [List.mem_cons, List.not_mem_nil, or_false] at hq
    rcases hq with rfl | rfl
    · exact hok
    · rw [item_of_paren] at hok
      cases hok
  rw [parse_eq_ok_iff, hexpr, filter_eq, parens_eq_ok_iff]
  constructor
  · rintro ⟨j, heq, hcomp⟩
    obtain ⟨-, rfl⟩ := List.cons.inj heq
    obtain ⟨ts', hlist, hts⟩ := filtercomp_and_iff.1 hcomp
    cases hts
    exact hlist
  · exact fun hlist ↦ ⟨_, rfl, filtercomp_and_iff.2 ⟨ts, hlist, rfl⟩⟩

/-- The list of a matched values filter is a conjunction of items. -/
theorem parseMatchedValues_parens_iff :
    parseMatchedValues (byte '(' :: (w ++ [byte ')'])) = .ok (.ofSequence ts) ↔
      parse (byte '(' :: byte '&' :: (w ++ [byte ')'])) = .ok (.sequence andFilt .context ts) ∧
        ts ≠ [] ∧ ∀ t ∈ ts, ¬IsOperator t := by
  have hclose : NotAhead (fun c ↦ c = byte '(') [byte ')'] := notAhead_cons.2 rfl
  rw [parse_and_iff, ← mvFilteritems_eq_ok_iff hclose, parseMatchedValues_eq_ok_iff]
  constructor
  · rintro ⟨j, ts', heq, hitems, hts⟩
    obtain ⟨-, rfl⟩ := List.cons.inj heq
    cases hts
    exact hitems
  · exact fun hitems ↦ ⟨_, ts, rfl, hitems, rfl⟩

/-- Nothing is accepted without the parentheses around the list. -/
theorem exists_parens_of_parseMatchedValues (h : parseMatchedValues i = .ok t) :
    ∃ w ts, i = byte '(' :: (w ++ [byte ')']) ∧ t = .ofSequence ts := by
  obtain ⟨j, ts, rfl, hitems, rfl⟩ := parseMatchedValues_eq_ok_iff.1 h
  obtain ⟨hlist, -⟩ := (mvFilteritems_eq_ok_iff (notAhead_cons.2 rfl)).1 hitems
  have hsound : Sound filter RendersFilter := fun i r t hok ↦ sound_filterLoop _ i r t hok
  obtain ⟨w, rfl, -⟩ := hsound.many0 _ _ _ hlist
  exact ⟨w, ts, rfl, rfl⟩

end FilterParser

/-! ### The control -/

namespace Controls

/-- `MatchedValues`, the control before it is encoded. -/
structure MatchedValues where
  filter : String

open FilterParser

/-- The conversion into a `RawControl`. The text of the panic is that of `expect` on a `Result`,
which adds the error. -/
def MatchedValues.raw (assn : MatchedValues) : Except Fault RawControl :=
  match parseMatchedValues (asBytes assn.filter) with
  | .ok filter => .ok ⟨MATCHED_VALUES_OID, false, some (encodeInto filter.intoStructure)⟩
  | .error () => .error (.panic "filter: ()")

/-- **The two entry points agree.** A matched values filter is accepted, with the tags of its
elements, exactly when the conjunction of the same list is accepted with the same tags, which are
those of one item at least and of no operator. The control carries these tags, and there is none
for any other string. -/
theorem parseMatchedValues_iff :
    (∀ w ts, parseMatchedValues (byte '(' :: (w ++ [byte ')'])) = .ok (.ofSequence ts) ↔
      FilterParser.parse (byte '(' :: byte '&' :: (w ++ [byte ')'])) =
          .ok (.sequence andFilt .context ts) ∧
        ts ≠ [] ∧ ∀ t ∈ ts, ¬IsOperator t) ∧
    (∀ i t, parseMatchedValues i = .ok t →
      ∃ w ts, i = byte '(' :: (w ++ [byte ')']) ∧ t = .ofSequence ts) ∧
    ∀ (assn : MatchedValues) (rc : RawControl), assn.raw = .ok rc ↔
      ∃ w ts, asBytes assn.filter = byte '(' :: (w ++ [byte ')']) ∧
        FilterParser.parse (byte '(' :: byte '&' :: (w ++ [byte ')'])) =
          .ok (.sequence andFilt .context ts) ∧
        ts ≠ [] ∧ (∀ t ∈ ts, ¬IsOperator t) ∧
        rc = ⟨MATCHED_VALUES_OID, false, some (encodeInto (Tag.ofSequence ts).intoStructure)⟩ := by
  refine ⟨fun w ts ↦ parseMatchedValues_parens_iff,
    fun i t ↦ exists_parens_of_parseMatchedValues, fun assn rc ↦ ?_⟩
  rw [MatchedValues.raw]
  constructor
  · intro h
    split at h
    · rename_i filter hparse
      obtain ⟨w, ts, hfilter, rfl⟩ := exists_parens_of_parseMatchedValues hparse
      rw [hfilter] at hparse
      obtain ⟨hand, hne, hop⟩ := parseMatchedValues_parens_iff.1 hparse
      exact ⟨w, ts, hfilter, hand, hne, hop, (Except.ok.inj h).symm⟩
    · cases h
  · rintro ⟨w, ts, hfilter, hand, hne, hop, rfl⟩
    rw [hfilter, parseMatchedValues_parens_iff.2 ⟨hand, hne, hop⟩]

/-- Two items in a list. A conjunction in a list is refused. -/
theorem parseMatchedValues_iff_two :
    (MatchedValues.raw ⟨"((a=b)(c=*))"⟩ = .ok ⟨MATCHED_VALUES_OID, false, some
      [0x30, 0x0B, 0xA3, 0x06, 0x04, 0x01, 0x61, 0x04, 0x01, 0x62, 0x87, 0x01, 0x63]⟩) ∧
    ∀ ts, parseMatchedValues (asBytes "((&(a=b)))") ≠ .ok (.ofSequence ts) := by
  obtain ⟨hlist, -, hraw⟩ := parseMatchedValues_iff
  constructor
  · refine (hraw _ _).2 ⟨bytes ['(', 'a', '=', 'b', ')', '(', 'c', '=', '*', ')'],
      [.sequence 3 .context [.ofOctetString (bytes ['a']), .ofOctetString (bytes ['b'])],
        .octetString 7 .context (bytes ['c'])], rfl, rfl, by simp, ?_, by rfl⟩
    simp [IsOperator, andFilt, orFilt, notFilt]
  · intro ts h
    obtain ⟨hparse, -, hop⟩ := (hlist (bytes ['(', '&', '(', 'a', '=', 'b', ')', ')']) ts).1 h
    have hand : FilterParser.parse (asBytes "(&(&(a=b)))") = .ok (.sequence andFilt .context
        [.sequence andFilt .context [.sequence 3 .context
          [.ofOctetString (bytes ['a']), .ofOctetString (bytes ['b'])]]]) := by
      rfl
    have hts := Except.ok.inj (hparse.symm.trans hand)
    cases hts
    exact hop _ List.mem_cons_self (Or.inl ⟨_, rfl⟩)

end Controls

end Ldap3
