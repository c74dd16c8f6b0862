import Ldap3.Filter.Syntax
import Ldap3.Lib.NomComplete

/-!
# The filter parser

`src/filter.rs`: the grammar of filter strings in nom's combinators, and the tags it builds.

The functions of the source call each other in a circle, from `filter` through `filtercomp` back
to `filter`. Here the ones on the circle take the filter parser as an argument, and `filterLoop`
closes the circle a given number of times. Every time round consumes a parenthesis, so the length
of the input is enough, and `filter` satisfies the equation of the source (`filter_eq`).
-/

namespace Ldap3

namespace FilterParser

open Nom (Err)
open Nom.Complete

/-- `IResult<&[u8], T>` as a function of the input. -/
abbrev P (α : Type) := Parser UInt8 α

/-! ### Constants -/

def andFilt : UInt64 := 0
def orFilt : UInt64 := 1
def notFilt : UInt64 := 2

def eqMatch : UInt64 := 3
def substrMatch : UInt64 := 4
def gteMatch : UInt64 := 5
def lteMatch : UInt64 := 6
def presMatch : UInt64 := 7
def approxMatch : UInt64 := 8
def extMatch : UInt64 := 9

def subInitial : UInt64 := 0
def subAny : UInt64 := 1
def subFinal : UInt64 := 2

/-! ### Attribute descriptions -/

/-- `number`: a number may be zero, but must not have superfluous leading zeroes. -/
def number : P (List UInt8) :=
  verify (takeWhile1 isDigit) fun d ↦ d.length == 1 || d.head? != some (byte '0')

/-- An OID: numbers with dots between them. The value is the text that was read. -/
def numericoid : P (List UInt8) :=
  recognize fun i ↦ do
    let (i, _) ← number i
    let (i, _) ← many0 (preceded (tag (bytes ['.'])) number) i
    return (i, ())

/-- A short name: a letter, then letters, digits and hyphens. -/
def descr : P (List UInt8) :=
  recognize fun i ↦ do
    let (i, _) ← verify anyElem isAlphabetic i
    let (i, _) ← takeWhile isAlnumHyphen i
    return (i, ())

/-- The numeric form of an attribute type is tried first. -/
def attributetype : P (List UInt8) :=
  alt [numericoid, descr]

/-- An attribute type with options. -/
def attributedescription : P (List UInt8) :=
  recognize fun i ↦ do
    let (i, _) ← attributetype i
    let (i, _) ← many0 (preceded (tag (bytes [';'])) (takeWhile1 isAlnumHyphen)) i
    return (i, ())

/-! ### Values -/

/-- `is_hex_digit` of nom. -/
def isHexDigit (c : UInt8) : Bool :=
  (byte '0' ≤ c && c ≤ byte '9') || (byte 'A' ≤ c && c ≤ byte 'F') ||
    (byte 'a' ≤ c && c ≤ byte 'f')

/-- The automaton for `\NN`. -/
inductive Unescaper where
  | wantFirst
  | wantSecond (partialValue : UInt8)
  | value (v : UInt8)
  | error

/-- The value of a hex digit, in the arithmetic of the source. -/
def hexDigit (c : UInt8) : UInt8 :=
  c - (if c ≤ byte '9' then byte '0' else (c &&& 0x20) + byte 'A' - 10)

/-- A backslash begins an escape, and the two octets after it must be hex digits. An error stays
one. -/
def Unescaper.feed (u : Unescaper) (c : UInt8) : Unescaper :=
  match u with
  | .error => .error
  | .wantFirst => if isHexDigit c then .wantSecond (hexDigit c) else .error
  | .wantSecond partialValue =>
    if isHexDigit c then .value ((partialValue <<< 4) + hexDigit c) else .error
  | .value _ => if c ≠ byte '\\' then .value c else .wantFirst

/-- The octets that may stand in a value: all but NUL, parentheses and the asterisk. -/
def isValueChar (c : UInt8) : Bool :=
  c != 0 && c != byte '(' && c != byte ')' && c != byte '*'

/-- The closure folded over the characters of a value. -/
def unescapeStep (x : Unescaper × List UInt8) (c : UInt8) : Unescaper × List UInt8 :=
  let u := x.1.feed c
  match u with
  | .value c => (u, x.2 ++ [c])
  | _ => (u, x.2)

/-- Any octet in the assertion value may be represented by `\NN`. -/
def unescaped : P (List UInt8) :=
  mapRes (foldMany0 (verify anyElem isValueChar) (.value 0, []) unescapeStep) fun x ↦
    match x.1 with
    | .value _ => some x.2
    | _ => none

/-! ### Items -/

/-- `filtertag`; without a value it is `unimplemented!`. -/
def filtertag (filterop : List UInt8) : Option UInt64 :=
  if filterop = bytes ['>', '='] then some gteMatch
  else if filterop = bytes ['<', '='] then some lteMatch
  else if filterop = bytes ['~', '='] then some approxMatch
  else none

/-- A comparison other than `=`. -/
def nonEq : P Tag := fun i ↦ do
  let (i, attr) ← attributedescription i
  let (i, filterop) ← alt [tag (bytes ['>', '=']), tag (bytes ['<', '=']), tag (bytes ['~', '='])] i
  let (i, value) ← unescaped i
  return (i, .sequence ((filtertag filterop).getD 0) .context
    [.ofOctetString attr, .ofOctetString value])

/-- Whether only the last element is empty, if any. -/
def innerNonempty (v : List (List UInt8)) : Bool :=
  !(v.zipIdx.foldl (fun acc x ↦ acc || x.1.isEmpty && x.2 + 1 != v.length) false)

/-- The loop over the elements after the first asterisk; `i` is the index of the next one. -/
def subElems (n : ℕ) : (i : ℕ) → List (List UInt8) → List Tag
  | _, [] => []
  | i, subElem :: rest =>
    if subElem.isEmpty then []
    else .octetString (if i + 1 ≠ n then subAny else subFinal) .context subElem ::
      subElems n (i + 1) rest

/-- The tag of an item with `=`, from the value up to the first asterisk and the elements after
each asterisk. -/
def eqTag (attr initial : List UInt8) (midFinal : List (List UInt8)) : Tag :=
  if midFinal.isEmpty then
    .sequence eqMatch .context [.ofOctetString attr, .ofOctetString initial]
  else if initial.isEmpty && midFinal.length == 1 && (midFinal.headD []).isEmpty then
    .octetString presMatch .context attr
  else
    .sequence substrMatch .context [.ofOctetString attr, .ofSequence
      ((if initial.isEmpty then [] else [.octetString subInitial .context initial]) ++
        subElems midFinal.length 0 midFinal)]

/-- The test fails just where an element before the last is empty. -/
theorem innerNonempty_append {l : List (List UInt8)} {x : List UInt8} :
    innerNonempty (l ++ [x]) = true ↔ ∀ v ∈ l, v ≠ [] := by
  have hfold : ∀ (l : List (List UInt8)) (k n : ℕ) (acc : Bool), n = k + l.length + 1 →
      ((l ++ [x]).zipIdx k).foldl (fun acc x ↦ acc || x.1.isEmpty && x.2 + 1 != n) acc =
        (acc || l.any List.isEmpty) := by
    intro l
    induction l with
    | nil => intro k n acc hn; simp [hn]
    | cons v l ih =>
      intro k n acc hn
      rw [List.length_cons] at hn
      have hk : (k + 1 != n) = true := bne_iff_ne.2 (by omega)
      rw [List.cons_append, List.zipIdx_cons, List.foldl_cons, ih (k + 1) n _ (by omega)]
      simp [hk, Bool.or_assoc]
  rw [innerNonempty, hfold l 0 _ false (by simp)]
  simp

/-- All elements but the last are in the middle, and an empty last one is left out. -/
theorem subElems_append {l : List (List UInt8)} {x : List UInt8} (hl : ∀ v ∈ l, v ≠ []) (i : ℕ) :
    subElems (i + l.length + 1) i (l ++ [x]) =
      l.map (substringTag 1) ++ if x.isEmpty then [] else [substringTag 2 x] := by
  induction l generalizing i with
  | nil =>
    rw [List.nil_append, subElems, subElems]
    simp [substringTag, subFinal]
  | cons v l ih =>
    have hv : v.isEmpty = false := List.isEmpty_eq_false_iff.2 (hl v List.mem_cons_self)
    have hi : i + 1 ≠ i + (v :: l).length + 1 := by
      rw [List.length_cons]
      omega
    have hn : i + (v :: l).length + 1 = i + 1 + l.length + 1 := by
      rw [List.length_cons]
      omega
    rw [List.cons_append, subElems, hv, if_neg Bool.false_ne_true, if_pos hi, hn,
      ih (fun w hw ↦ hl w (List.mem_cons_of_mem _ hw))]
    rfl

/-- The elements of a substring assertion give its tag. -/
theorem eqTag_substrings (attr : AttributeDescription) (sub : Substrings) :
    eqTag attr.1 (sub.initial.getD []) (sub.any ++ [sub.final.getD []]) =
      (Assertion.substrings attr sub).tag := by
  obtain ⟨initial, any, final, hinit, hany, hfinal, hne⟩ := sub
  have hinitial : (if (initial.getD []).isEmpty then []
      else [Tag.octetString subInitial .context (initial.getD [])]) =
        (initial.map (substringTag 0)).toList := by
    rcases initial with - | v
    · rfl
    · exact if_neg fun h ↦ hinit v rfl (List.isEmpty_iff.1 h)
  have hlast : (if (final.getD []).isEmpty then [] else [substringTag 2 (final.getD [])]) =
      (final.map (substringTag 2)).toList := by
    rcases final with - | v
    · rfl
    · exact if_neg fun h ↦ hfinal v rfl (List.isEmpty_iff.1 h)
  have hsub := subElems_append (x := final.getD []) hany 0
  rw [hlast, Nat.zero_add] at hsub
  -- A single asterisk by itself has no component.
  have hpresent : ¬((initial.getD []).isEmpty && (any ++ [final.getD []]).length == 1 &&
      ((any ++ [final.getD []]).headD []).isEmpty) = true := by
    intro h
    simp only [Bool.and_eq_true, beq_iff_eq, List.isEmpty_iff, List.length_append,
      List.length_singleton, Nat.add_eq_right, List.length_eq_zero_iff] at h
    obtain ⟨⟨h₁, rfl⟩, h₃⟩ := h
    rcases hne with hne | hne | hne
    · obtain ⟨v, rfl⟩ := Option.ne_none_iff_exists'.1 hne
      exact hinit v rfl h₁
    · exact hne rfl
    · obtain ⟨v, rfl⟩ := Option.ne_none_iff_exists'.1 hne
      exact hfinal v rfl h₃
  rw [eqTag, if_neg (by simp), if_neg hpresent, hinitial, List.length_append,
    List.length_singleton, hsub, ← List.append_assoc]
  rfl

/-- Equality, presence and substrings: `=` with values between asterisks. -/
def eq : P Tag := fun i ↦ do
  let (i, attr) ← attributedescription i
  let (i, _) ← tag (bytes ['=']) i
  let (i, initial) ← unescaped i
  let (i, midFinal) ← mapRes (many0 (preceded (tag (bytes ['*'])) unescaped))
    (fun v ↦ if innerNonempty v then some v else none) i
  return (i, eqTag attr initial midFinal)

/-- The components of an extensible match; `dnAttributes` only if it is true. -/
def extensibleTag (mrule attr : Option (List UInt8)) (value : List UInt8) (dn : Bool) : Tag :=
  .sequence extMatch .context
    ((mrule.map fun mrule ↦ Tag.octetString 1 .context mrule).toList ++
      (attr.map fun attr ↦ Tag.octetString 2 .context attr).toList ++
      [.octetString 3 .context value] ++
      if dn then [.boolean 4 .context dn] else [])

theorem extensibleTag_eq (m : ExtensibleMatch) :
    extensibleTag (m.matchingRule.map (·.1)) (m.type.map (·.1)) m.matchValue m.dnAttributes =
      m.tag := by
  rw [extensibleTag, ExtensibleMatch.tag, Option.map_map, Option.map_map]
  cases m.dnAttributes <;> rfl

/-- An extensible match that begins with an attribute. -/
def attrDnMrule : P Tag := fun i ↦ do
  let (i, attr) ← attributedescription i
  let (i, dn) ← opt (tag (bytes [':', 'd', 'n'])) i
  let (i, mrule) ← opt (preceded (tag (bytes [':'])) attributetype) i
  let (i, _) ← tag (bytes [':', '=']) i
  let (i, value) ← unescaped i
  return (i, extensibleTag mrule (some attr) value dn.isSome)

/-- An extensible match without one, which must have a matching rule. -/
def dnMrule : P Tag := fun i ↦ do
  let (i, dn) ← opt (tag (bytes [':', 'd', 'n'])) i
  let (i, mrule) ← preceded (tag (bytes [':'])) attributetype i
  let (i, _) ← tag (bytes [':', '=']) i
  let (i, value) ← unescaped i
  return (i, extensibleTag (some mrule) none value dn.isSome)

def extensible : P Tag :=
  alt [attrDnMrule, dnMrule]

/-- The order matters: `eq` fails before the other comparisons and the extensible matches are tried.
-/
def item : P Tag :=
  alt [eq, nonEq, extensible]

/-! ### Filters -/

section

variable (filter : P Tag)

/-- There may be no filters at all. -/
def filterlist : P (List Tag) :=
  many0 filter

def and : P Tag :=
  map (preceded (tag (bytes ['&'])) (filterlist filter)) fun tagv ↦ .sequence andFilt .context tagv

def or : P Tag :=
  map (preceded (tag (bytes ['|'])) (filterlist filter)) fun tagv ↦ .sequence orFilt .context tagv

def not : P Tag :=
  map (preceded (tag (bytes ['!'])) filter) fun tag ↦ .explicitTag notFilt .context tag

/-- What is between the parentheses of a filter. -/
def filtercomp : P Tag :=
  alt [and filter, or filter, not filter, item]

end

/-- `filter`, as often as there is fuel. -/
def filterLoop : (fuel : ℕ) → P Tag
  | 0, _ => .error .error
  | fuel + 1, i =>
    delimited (tag (bytes ['('])) (filtercomp (filterLoop fuel)) (tag (bytes [')'])) i

/-- The nesting of filters is as deep as the input is long, at most. -/
def filter : P Tag := fun i ↦
  filterLoop (i.length + 1) i

/-- What is read depends on the filters in the rest of the input only. -/
theorem filtercomp_congr {p q : P Tag} {i : List UInt8}
    (h : ∀ j, j.length ≤ i.length → p j = q j) : filtercomp p i = filtercomp q i := by
  have hlist : ∀ c, preceded (tag [c]) (filterlist p) i = preceded (tag [c]) (filterlist q) i := by
    refine fun c ↦ preceded_congr fun r t ht ↦ many0_congr fun j hj ↦ h j ?_
    have hlen := tag_length ht
    omega
  have hnot : preceded (tag (bytes ['!'])) p i = preceded (tag (bytes ['!'])) q i := by
    refine preceded_congr fun r t ht ↦ h r ?_
    have hlen := tag_length ht
    omega
  have hand : and p i = and q i := congrArg (Except.map _) (hlist _)
  have hor : or p i = or q i := congrArg (Except.map _) (hlist _)
  have hnot : not p i = not q i := congrArg (Except.map _) hnot
  simp only [filtercomp, alt, hand, hor, hnot]

/-- Fuel that exceeds the length of the input is never used up. -/
theorem filterLoop_congr {n m : ℕ} {i : List UInt8} (hn : i.length < n) (hm : i.length < m) :
    filterLoop n i = filterLoop m i := by
  induction n generalizing i m with
  | zero => omega
  | succ n ih =>
    cases m with
    | zero => omega
    | succ m =>
      refine delimited_congr fun r t ht ↦ filtercomp_congr fun j hj ↦ ?_
      have hlen : r.length + 1 = i.length := tag_length ht
      exact ih (by omega) (by omega)

/-- **The parser as the source defines it**, by itself. -/
theorem filter_eq (i : List UInt8) :
    filter i = delimited (tag (bytes ['('])) (filtercomp filter) (tag (bytes [')'])) i := by
  refine delimited_congr fun r t ht ↦ filtercomp_congr fun j hj ↦ ?_
  have hlen : r.length + 1 = i.length := tag_length ht
  exact filterLoop_congr (by omega) (by omega)

/-- The outermost parentheses of an item may be missing. -/
def filtexpr : P Tag :=
  alt [filter, item]

/-- **`parse`**: a filter, or a bare item, and nothing else. -/
def parse (input : List UInt8) : Except Unit Tag :=
  match filtexpr input with
  | .ok (r, t) => if r.isEmpty then .ok t else .error ()
  | .error _ => .error ()

end FilterParser

end Ldap3
