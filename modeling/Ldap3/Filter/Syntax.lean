import Ldap3.Lber.Structures

/-!
# Filters and their strings

What a search filter is, apart from the program: the abstract syntax of RFC 4511, the strings that
render a filter, and the tags that represent it in a request.

A filter is built with `and`, `or` and `not` from items, and is generic in them. The items are
the assertions that compare an attribute with a value, with one or more substrings, or with
nothing (`Assertion`), and the extensible matches (`Item`). A value is any string of octets. In a
filter string each octet of it stands for itself or is written as a backslash and two hex digits;
the octets that mean something else in a filter string have to be written so. A filter has many
renderings because of this choice, and they all mean the same filter.

Attribute types and descriptions are octet strings of a certain form and carry the proof of it,
so a filter whose rendering could not be read back cannot be built.
-/

namespace Ldap3

/-- A character of ASCII as an octet, `b'c'`. -/
abbrev byte (c : Char) : UInt8 :=
  c.toUInt8

/-- A string of ASCII as octets, `b"s"`. -/
abbrev bytes (s : List Char) : List UInt8 :=
  s.map byte

/-! ### Characters -/

/-- `is_alphabetic` of nom. -/
def isAlphabetic (c : UInt8) : Bool :=
  (byte 'A' ≤ c && c ≤ byte 'Z') || (byte 'a' ≤ c && c ≤ byte 'z')

/-- `is_digit` of nom. -/
def isDigit (c : UInt8) : Bool :=
  byte '0' ≤ c && c ≤ byte '9'

/-- `is_alphanumeric` of nom. -/
def isAlphanumeric (c : UInt8) : Bool :=
  isAlphabetic c || isDigit c

def isAlnumHyphen (c : UInt8) : Bool :=
  isAlphanumeric c || c == byte '-'

/-- The value of a hex digit of either case. -/
def hexValue (c : UInt8) : Option UInt8 :=
  if byte '0' ≤ c ∧ c ≤ byte '9' then some (c - byte '0')
  else if byte 'A' ≤ c ∧ c ≤ byte 'F' then some (c - byte 'A' + 10)
  else if byte 'a' ≤ c ∧ c ≤ byte 'f' then some (c - byte 'a' + 10)
  else none

/-! ### Attributes -/

/-- Digits without a superfluous leading zero. -/
def IsNumber (w : List UInt8) : Prop :=
  w ≠ [] ∧ (∀ c ∈ w, isDigit c) ∧ (w.length = 1 ∨ w.head? ≠ some (byte '0'))

/-- Numbers separated by dots. -/
def IsNumericoid (w : List UInt8) : Prop :=
  ∃ (n : List UInt8) (ns : List (List UInt8)), IsNumber n ∧ (∀ m ∈ ns, IsNumber m) ∧
    w = n ++ (ns.map (byte '.' :: ·)).flatten

/-- A letter, and letters, digits and hyphens. -/
def IsDescr (w : List UInt8) : Prop :=
  ∃ c cs, isAlphabetic c ∧ (∀ x ∈ cs, isAlnumHyphen x) ∧ w = c :: cs

def IsAttributeType (w : List UInt8) : Prop :=
  IsNumericoid w ∨ IsDescr w

/-- An attribute type with any number of options. -/
def IsAttributeDescription (w : List UInt8) : Prop :=
  ∃ (t : List UInt8) (opts : List (List UInt8)), IsAttributeType t ∧
    (∀ o ∈ opts, o ≠ [] ∧ ∀ c ∈ o, isAlnumHyphen c) ∧
    w = t ++ (opts.map (byte ';' :: ·)).flatten

abbrev AttributeType := { w : List UInt8 // IsAttributeType w }

abbrev AttributeDescription := { w : List UInt8 // IsAttributeDescription w }

/-! ### Items -/

/-- How an attribute is compared with a value. -/
inductive FilterType where
  | equal
  | greaterOrEqual
  | lessOrEqual
  | approx

/-- The components of a substring assertion: at least one, and none of them empty. -/
structure Substrings where
  initial : Option (List UInt8)
  any : List (List UInt8)
  final : Option (List UInt8)
  initial_ne_nil : ∀ v ∈ initial, v ≠ []
  any_ne_nil : ∀ v ∈ any, v ≠ []
  final_ne_nil : ∀ v ∈ final, v ≠ []
  ne_empty : initial ≠ none ∨ any ≠ [] ∨ final ≠ none

/-- An item that names an attribute. -/
inductive Assertion where
  | simple (attr : AttributeDescription) (filtertype : FilterType) (value : List UInt8)
  | present (attr : AttributeDescription)
  | substrings (attr : AttributeDescription) (sub : Substrings)

/-- An extensible match, with an attribute, a matching rule or both. -/
structure ExtensibleMatch where
  matchingRule : Option AttributeType
  type : Option AttributeDescription
  matchValue : List UInt8
  dnAttributes : Bool
  ne_none : matchingRule ≠ none ∨ type ≠ none

/-- An item of any kind. -/
inductive Item where
  | assertion (a : Assertion)
  | extensible (m : ExtensibleMatch)

/-- `Filter` of RFC 4511, with the items as a parameter. -/
inductive Filter (ι : Type) where
  | and (fs : List (Filter ι))
  | or (fs : List (Filter ι))
  | not (f : Filter ι)
  | item (i : ι)

/-! ### Renderings -/

/-- An octet that can stand for itself in a filter string. -/
def IsRaw (c : UInt8) : Prop :=
  c ≠ 0 ∧ c ≠ byte '(' ∧ c ≠ byte ')' ∧ c ≠ byte '*' ∧ c ≠ byte '\\'

/-- An octet is written as itself or with its two hex digits. -/
def RendersOctet (w : List UInt8) (c : UInt8) : Prop :=
  (IsRaw c ∧ w = [c]) ∨
    ∃ h l x y, hexValue h = some x ∧ hexValue l = some y ∧ c = x * 16 + y ∧ w = [byte '\\', h, l]

/-- A value is written octet by octet. -/
def RendersValue (w v : List UInt8) : Prop :=
  ∃ ws, w = ws.flatten ∧ List.Forall₂ RendersOctet ws v

def FilterType.symbol : FilterType → List UInt8
  | .equal => bytes ['=']
  | .greaterOrEqual => bytes ['>', '=']
  | .lessOrEqual => bytes ['<', '=']
  | .approx => bytes ['~', '=']

/-- The components with an asterisk before each but the initial one. -/
def Substrings.Renders (sub : Substrings) (w : List UInt8) : Prop :=
  ∃ wi ws wf, RendersValue wi (sub.initial.getD []) ∧ List.Forall₂ RendersValue ws sub.any ∧
    RendersValue wf (sub.final.getD []) ∧
    w = wi ++ ((ws ++ [wf]).map (byte '*' :: ·)).flatten

def Assertion.Renders (w : List UInt8) : Assertion → Prop
  | .simple attr ft v => ∃ wv, RendersValue wv v ∧ w = attr.1 ++ ft.symbol ++ wv
  | .present attr => w = attr.1 ++ bytes ['=', '*']
  | .substrings attr sub => ∃ ws, sub.Renders ws ∧ w = attr.1 ++ bytes ['='] ++ ws

def ExtensibleMatch.Renders (w : List UInt8) (m : ExtensibleMatch) : Prop :=
  ∃ wv, RendersValue wv m.matchValue ∧
    w = (m.type.map (·.1)).getD [] ++ (if m.dnAttributes then bytes [':', 'd', 'n'] else []) ++
      (m.matchingRule.map (byte ':' :: ·.1)).getD [] ++ bytes [':', '='] ++ wv

def Item.Renders (w : List UInt8) : Item → Prop
  | .assertion a => a.Renders w
  | .extensible m => m.Renders w

mutual

/-- A filter in parentheses, with a given way to render its items. -/
def Filter.Renders {ι : Type} (R : List UInt8 → ι → Prop) (w : List UInt8) : Filter ι → Prop
  | .and fs => ∃ ws, Filter.RendersAll R ws fs ∧ w = byte '(' :: byte '&' :: ws ++ [byte ')']
  | .or fs => ∃ ws, Filter.RendersAll R ws fs ∧ w = byte '(' :: byte '|' :: ws ++ [byte ')']
  | .not f => ∃ w', f.Renders R w' ∧ w = byte '(' :: byte '!' :: w' ++ [byte ')']
  | .item i => ∃ w', R w' i ∧ w = byte '(' :: w' ++ [byte ')']

/-- Filters one after another. -/
def Filter.RendersAll {ι : Type} (R : List UInt8 → ι → Prop) (w : List UInt8) :
    List (Filter ι) → Prop
  | [] => w = []
  | f :: fs => ∃ w₁ w₂, f.Renders R w₁ ∧ Filter.RendersAll R w₂ fs ∧ w = w₁ ++ w₂

end

/-! ### Tags

The types of RFC 4511. The alternatives of `Filter` are numbered 0 to 9 in the context class; `and`
and `or` are sets, whose tag is replaced, and `not` is tagged explicitly, since a `Filter` is a
choice. -/

/-- The number of the alternative for a comparison. -/
def FilterType.number : FilterType → UInt64
  | .equal => 3
  | .greaterOrEqual => 5
  | .lessOrEqual => 6
  | .approx => 8

/-- A component of `substrings`: `initial [0]`, `any [1]` or `final [2]`. -/
def substringTag (id : UInt64) (v : List UInt8) : Tag :=
  .octetString id .context v

def Substrings.tags (sub : Substrings) : List Tag :=
  (sub.initial.map (substringTag 0)).toList ++ sub.any.map (substringTag 1) ++
    (sub.final.map (substringTag 2)).toList

/-- The `AttributeValueAssertion` of a comparison, the `AttributeDescription` of `present [7]`, and
the `SubstringFilter` of `substrings [4]`. -/
def Assertion.tag : Assertion → Tag
  | .simple attr ft v =>
    .sequence ft.number .context [.ofOctetString attr.1, .ofOctetString v]
  | .present attr => .octetString 7 .context attr.1
  | .substrings attr sub =>
    .sequence 4 .context [.ofOctetString attr.1, .ofSequence sub.tags]

/-- `MatchingRuleAssertion`: `matchingRule [1]`, `type [2]`, `matchValue [3]` and
`dnAttributes [4]`, which is false if it is missing. -/
def ExtensibleMatch.tag (m : ExtensibleMatch) : Tag :=
  .sequence 9 .context
    ((m.matchingRule.map fun w ↦ Tag.octetString 1 .context w.1).toList ++
      (m.type.map fun w ↦ Tag.octetString 2 .context w.1).toList ++
      [.octetString 3 .context m.matchValue] ++
      if m.dnAttributes then [.boolean 4 .context true] else [])

def Item.tag : Item → Tag
  | .assertion a => a.tag
  | .extensible m => m.tag

mutual

/-- **The tag tree of a filter**, given that of its items. -/
def Filter.tag {ι : Type} (t : ι → Tag) : Filter ι → Tag
  | .and fs => .sequence 0 .context (Filter.tags t fs)
  | .or fs => .sequence 1 .context (Filter.tags t fs)
  | .not f => .explicitTag 2 .context (f.tag t)
  | .item i => t i

def Filter.tags {ι : Type} (t : ι → Tag) : List (Filter ι) → List Tag
  | [] => []
  | f :: fs => f.tag t :: Filter.tags t fs

end

end Ldap3
