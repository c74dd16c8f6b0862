import Ldap3.Filter.Value
import Ldap3.Ldap.Request

/-!
# LDAP URLs

`get_url_params` of `src/util.rs`, which takes the query of a URL apart at question marks, the
attributes and the extensions at commas, and an extension at its first equals sign.

A part of the text of a URL is a list of characters. The `url` crate percent-encodes whatever is
not ASCII, so the text is ASCII. How `percent_decode_str` and `decode_utf8` of the
`percent_encoding` crate turn a part into a string is a parameter `decode`; all that is assumed of
it is that it undoes percent-encoding (`PercentDecodes`).

**Round trip** (`getUrlParams_assembled`): the parameters that a URL was assembled of, in the
order of the standard and with their values encoded, are read back from it.
-/

namespace Ldap3

/-! ### Extensions -/

/-- `LdapUrlExt`. -/
inductive LdapUrlExt where
  | bindname (val : String)
  | xBindpw (val : String)
  | credentials (val : String)
  | saslMech (val : String)
  | startTLS
  | unknown (ext : String)
  deriving DecidableEq

namespace LdapUrlExt

/-- `PartialEq::eq`: only the kinds are compared. -/
def eq : LdapUrlExt → LdapUrlExt → Bool
  | bindname _, bindname _ => true
  | xBindpw _, xBindpw _ => true
  | credentials _, credentials _ => true
  | saslMech _, saslMech _ => true
  | startTLS, startTLS => true
  | unknown _, unknown _ => true
  | _, _ => false

/-- What `Hash::hash` hashes. -/
def hash : LdapUrlExt → String
  | bindname _ => "Bindname"
  | xBindpw _ => "XBindpw"
  | credentials _ => "Credentials"
  | saslMech _ => "SaslMech"
  | startTLS => "StartTLS"
  | unknown _ => "Unknown"

/-- Values are equal if and only if their hashes are of the same text. -/
theorem eq_iff_hash {e e' : LdapUrlExt} : e.eq e' = true ↔ e.hash = e'.hash := by
  cases e <;> cases e' <;> simp [eq, hash]

/-- An ASCII character in a string literal, as `{:?}` writes it. -/
def debugChar (c : Char) : List Char :=
  if c = '\x00' then ['\\', '0']
  else if c = '\t' then ['\\', 't']
  else if c = '\r' then ['\\', 'r']
  else if c = '\n' then ['\\', 'n']
  else if c = '"' ∨ c = '\\' then ['\\', c]
  else if c.toNat < 0x20 ∨ c.toNat = 0x7F then
    ['\\', 'u', '\x7b'] ++ Nat.toDigits 16 c.toNat ++ ['\x7d']
  else [c]

/-- The format `{:?}` of an unknown extension. -/
def debugUnknown (ext : List Char) : String :=
  "Unknown(\"" ++ String.ofList (ext.flatMap debugChar) ++ "\")"

end LdapUrlExt

/-- `HashSet<LdapUrlExt>`: no two values are equal to the source. -/
structure LdapUrlExtSet where
  elems : Finset LdapUrlExt
  distinct : ∀ e ∈ elems, ∀ e' ∈ elems, e.eq e' = true → e = e'

namespace LdapUrlExtSet

/-- `HashSet::new`. -/
def new : LdapUrlExtSet :=
  ⟨∅, by simp⟩

/-- `HashSet::insert`, which keeps a value that is there already. -/
def insert (set : LdapUrlExtSet) (e : LdapUrlExt) : LdapUrlExtSet :=
  if h : ∃ e' ∈ set.elems, e'.eq e = true then set
  else
    { elems := Insert.insert e set.elems
      distinct := by
        intro e₁ h₁ e₂ h₂ heq
        simp only [not_exists, not_and] at h
        rcases Finset.mem_insert.1 h₁ with rfl | hs₁ <;>
          rcases Finset.mem_insert.1 h₂ with rfl | hs₂
        · rfl
        · rw [LdapUrlExt.eq_iff_hash, eq_comm, ← LdapUrlExt.eq_iff_hash] at heq
          exact absurd heq (h e₂ hs₂)
        · exact absurd heq (h e₁ hs₁)
        · exact set.distinct e₁ hs₁ e₂ hs₂ heq }

theorem insert_elems {set : LdapUrlExtSet} {e : LdapUrlExt}
    (h : ∀ e' ∈ set.elems, ¬e'.eq e = true) :
    (set.insert e).elems = Insert.insert e set.elems := by
  rw [insert, dif_neg (by simpa using h)]

end LdapUrlExtSet

/-! ### The source -/

/-- `Url` of the `url` crate, as far as it is read here. -/
structure Url where
  path : List Char
  query : Option (List Char)
  path_ascii : ∀ c ∈ path, c.toNat < 128
  query_ascii : ∀ q ∈ query, ∀ c ∈ q, c.toNat < 128

structure LdapUrlParams where
  base : String
  attrs : List String
  scope : Scope
  filter : String
  extensions : LdapUrlExtSet

/-- Compares with a text in lower case. -/
def asciiLcEqual (s t : List Char) : Bool :=
  if s.length ≠ t.length then false
  else (s.zip (t.map Char.toLower)).all fun x ↦ x.1 == x.2

/-- `&id[..1]`, which panics unless the first character is of one octet. -/
def firstByte : List Char → Except Failure (List Char)
  | [] => .error .panic
  | c :: _ => if c.toNat < 128 then .ok [c] else .error .panic

def credentialsOid : List Char := "1.3.6.1.4.1.10094.1.5.1".toList
def saslMechOid : List Char := "1.3.6.1.4.1.10094.1.5.2".toList
def startTLSOid : List Char := "1.3.6.1.4.1.1466.20037".toList
def bindnameName : List Char := "bindname".toList
def xBindpwName : List Char := "x-bindpw".toList

/-- Criticality, name and value of an extension; the value is not decoded yet. -/
def splitExt (ext : List Char) : Except Failure (Bool × List Char × List Char) := do
  let idv := ext.splitn '=' 2
  let id := idv[0]?.getD []
  let (crit, id) ←
    if id ≠ [] then do
      let first ← firstByte id
      if first = ['!'] then pure (true, id.drop 1) else pure (false, id)
    else pure (false, id)
  return (crit, id, idv[1]?.getD [])

/-- The `match` on the name. -/
def matchExt (crit : Bool) (id : List Char) (val : String) : Except Failure LdapUrlExt :=
  if id = credentialsOid then .ok (.credentials val)
  else if id = saslMechOid then .ok (.saslMech val)
  else if id = startTLSOid then .ok .startTLS
  else if asciiLcEqual bindnameName id then .ok (.bindname val)
  else if asciiLcEqual xBindpwName id then .ok (.xBindpw val)
  else if crit then
    .error (.err (.unrecognizedCriticalExtension (LdapUrlExt.debugUnknown id)))
  else .ok (.unknown "")

def urlBase (path : List Char) : List Char :=
  if path.head?.getD '\x00' = '/' then path.drop 1 else path

def urlAttrs : Option (List Char) → List String
  | some [] => ["*"]
  | none => ["*"]
  | some alist => (alist.splitOn ',').map String.ofList

def urlScope : Option (List Char) → Except Failure Scope
  | some [] => .ok .subtree
  | none => .ok .subtree
  | some scopeStr =>
    if scopeStr = "base".toList then .ok .base
    else if scopeStr = "one".toList then .ok .oneLevel
    else if scopeStr = "sub".toList then .ok .subtree
    else .error (.err (.invalidScopeString (String.ofList scopeStr)))

def urlFilter : Option (List Char) → List Char
  | some [] => "(objectClass=*)".toList
  | none => "(objectClass=*)".toList
  | some filter => filter

section

variable (decode : List Char → Option String)

/-- `percent_decode_str(..).decode_utf8().map_err(..)`. -/
def urlDecode (s : List Char) : Except Failure String :=
  match decode s with
  | some v => .ok v
  | none => .error (.err .decodingUTF8)

/-- The body of the loop over the extensions. -/
def addExt (extSet : LdapUrlExtSet) (ext : List Char) : Except Failure LdapUrlExtSet := do
  let (crit, id, val) ← splitExt ext
  let val ← urlDecode decode val
  let ext ← matchExt crit id val
  if ext.eq (.unknown "") then return extSet else return extSet.insert ext

def urlExtensions : Option (List Char) → Except Failure LdapUrlExtSet
  | some [] => .ok .new
  | none => .ok .new
  | some exts => (exts.splitOn ',').foldlM (addExt decode) .new

def getUrlParams (url : Url) : Except Failure LdapUrlParams := do
  let base ← urlDecode decode (urlBase url.path)
  let query := (url.query.getD []).splitn '?' 4
  let attrs := urlAttrs query[0]?
  let scope ← urlScope query[1]?
  let filter ← urlDecode decode (urlFilter query[2]?)
  let extensions ← urlExtensions decode query[3]?
  return ⟨base, attrs, scope, filter, extensions⟩

end

/-! ### Percent-encoding -/

def hexChar (c : Char) : Option UInt8 :=
  if c.toNat < 128 then hexValue (byte c) else none

/-- A character of ASCII other than the percent sign stands for itself, and any octet may be
written as a percent sign and two hex digits. -/
def EncodesOctet (w : List Char) (b : UInt8) : Prop :=
  (∃ c : Char, c ≠ '%' ∧ c.toNat < 128 ∧ w = [c] ∧ b = byte c) ∨
    ∃ h l x y, hexChar h = some x ∧ hexChar l = some y ∧ w = ['%', h, l] ∧ b = x * 16 + y

/-- The text encodes the octets of the string. -/
def PercentEncodes (w : List Char) (s : String) : Prop :=
  ∃ ws, w = ws.flatten ∧ List.Forall₂ EncodesOctet ws (asBytes s)

/-- What is assumed of decoding: it undoes the encoding. -/
def PercentDecodes (decode : List Char → Option String) : Prop :=
  ∀ w s, PercentEncodes w s → decode w = some s

/-- The text can stand in a URL: what separates the parts is encoded. -/
def UrlEncodes (w : List Char) (s : String) : Prop :=
  PercentEncodes w s ∧ ∀ c ∈ w, c ≠ '?' ∧ c ≠ '#' ∧ c ≠ ','

/-- Decoding as the standard has it, where a percent sign without two digits stays. -/
def percentDecodeStr (w : List Char) : Option String :=
  fromUtf8 (w.decodeEscapes '%' hexChar String.utf8EncodeChar)

theorem utf8EncodeChar_of_lt {c : Char} (hc : c.toNat < 128) :
    String.utf8EncodeChar c = [byte c] := by
  have henc : String.utf8EncodeChar c = [UInt8.ofNat c.val.toNat] :=
    if_pos (Nat.le_of_lt_succ hc)
  rw [henc, List.singleton_inj, ← UInt8.toNat_inj, UInt8.toNat_ofNat']
  rfl

/-- The octets of the string come out, whatever the encoding. -/
theorem PercentEncodes.decodeEscapes {w : List Char} {s : String} (h : PercentEncodes w s) :
    w.decodeEscapes '%' hexChar String.utf8EncodeChar = asBytes s := by
  obtain ⟨ws, rfl, hws⟩ := h
  generalize asBytes s = v at hws
  induction hws with
  | nil => rfl
  | cons hoct _ ih =>
    rw [List.flatten_cons]
    rcases hoct with ⟨c, hc, hlt, rfl, rfl⟩ | ⟨h, l, x, y, hh, hl, rfl, rfl⟩
    · rw [List.singleton_append, List.decodeEscapes_cons hc, utf8EncodeChar_of_lt hlt, ih]
      rfl
    · rw [List.cons_append, List.cons_append, List.singleton_append,
        List.decodeEscapes_escape hh hl, ih]

theorem percentDecodes_percentDecodeStr : PercentDecodes percentDecodeStr := by
  intro w s h
  rw [percentDecodeStr, h.decodeEscapes, fromUtf8_asBytes]

theorem PercentDecodes.nil {decode : List Char → Option String} (h : PercentDecodes decode) :
    decode [] = some "" :=
  h [] "" ⟨[], rfl, .nil⟩

/-- An octet as it is if it is a letter or a digit, and as an escape if not. -/
def urlEncodeOctet (b : UInt8) : List Char :=
  if isAlphanumeric b then [Char.ofNat b.toNat]
  else ['%', Char.ofNat (xdigit (b >>> 4)).toNat, Char.ofNat (xdigit (b &&& 0xF)).toNat]

def urlEncode (s : String) : List Char :=
  (asBytes s).flatMap urlEncodeOctet

theorem encodesOctet_urlEncodeOctet (b : UInt8) : EncodesOctet (urlEncodeOctet b) b := by
  have hraw := forall_octet (P := fun b ↦ isAlphanumeric b → Char.ofNat b.toNat ≠ '%' ∧
    (Char.ofNat b.toNat).toNat < 128 ∧ b = byte (Char.ofNat b.toNat)) (by decide +kernel) b
  have hesc := forall_octet (P := fun b ↦
    hexChar (Char.ofNat (xdigit (b >>> 4)).toNat) = some (b >>> 4) ∧
      hexChar (Char.ofNat (xdigit (b &&& 0xF)).toNat) = some (b &&& 0xF)) (by decide +kernel) b
  rw [urlEncodeOctet]
  split
  · rename_i hb
    obtain ⟨hne, hlt, hval⟩ := hraw hb
    exact Or.inl ⟨_, hne, hlt, rfl, hval⟩
  · exact Or.inr ⟨_, _, _, _, hesc.1, hesc.2, rfl, (hexValue_xdigit b).2.2⟩

/-- Every string can be written in a URL. -/
theorem urlEncodes_urlEncode (s : String) : UrlEncodes (urlEncode s) s := by
  refine ⟨⟨(asBytes s).map urlEncodeOctet, List.flatMap_def, ?_⟩, fun c hc ↦ ?_⟩
  · rw [List.forall₂_map_left_iff]
    exact List.forall₂_same.2 fun b _ ↦ encodesOctet_urlEncodeOctet b
  · obtain ⟨b, -, hb⟩ := List.mem_flatMap.1 hc
    have hall := forall_octet (P := fun b ↦ (urlEncodeOctet b).all
      (fun c ↦ decide (c ≠ '?' ∧ c ≠ '#' ∧ c ≠ ',')) = true) (by decide +kernel) b
    exact List.forall_mem_of_all hall c hb

/-! ### One extension -/

/-- What is in front of the first equals sign. -/
def extHead (ext : List Char) : List Char :=
  ext.takeWhile (· ≠ '=')

def extCritical (ext : List Char) : Bool :=
  (extHead ext).head? == some '!'

def extName (ext : List Char) : List Char :=
  if extCritical ext then (extHead ext).drop 1 else extHead ext

/-- What is behind the first equals sign, if there is one. -/
def extValue (ext : List Char) : List Char :=
  (ext.dropWhile (· ≠ '=')).tail

/-- In ASCII the slice does not panic. -/
theorem splitExt_eq {ext : List Char} (hext : ∀ c ∈ (extHead ext).head?, c.toNat < 128) :
    splitExt ext = .ok (extCritical ext, extName ext, extValue ext) := by
  obtain ⟨hid, hval⟩ := List.splitn_two '=' ext
  rw [splitExt]
  simp only [hid, hval]
  rw [← extHead, ← extValue]
  rcases hhead : extHead ext with - | ⟨c, id⟩
  · have hcrit : extCritical ext = false := by rw [extCritical, hhead]; rfl
    rw [extName, hcrit, hhead]
    rfl
  · have hfirst : firstByte (c :: id) = .ok [c] := by
      rw [hhead] at hext
      exact if_pos (hext c rfl)
    rw [if_pos (List.cons_ne_nil c id), hfirst, extName, extCritical, hhead]
    by_cases hc : c = '!'
    · subst hc
      rfl
    · simp [hc, bind, Except.bind, pure, Except.pure]

/-- A name of the extension, in any letter case if that does not matter. -/
def LdapUrlExt.IsName (id : List Char) : LdapUrlExt → Prop
  | bindname _ => id.map Char.toLower = bindnameName
  | xBindpw _ => id.map Char.toLower = xBindpwName
  | credentials _ => id = credentialsOid
  | saslMech _ => id = saslMechOid
  | startTLS => id = startTLSOid
  | unknown _ => False

/-- The value, of the extensions that keep one. -/
def LdapUrlExt.value : LdapUrlExt → Option String
  | bindname val => some val
  | xBindpw val => some val
  | credentials val => some val
  | saslMech val => some val
  | startTLS => none
  | unknown ext => some ext

/-- A value behind an equals sign; an empty one may be left out. -/
def LdapUrlExt.RendersValue (w : List Char) (v : String) : Prop :=
  w = [] ∧ v = "" ∨ ∃ wv, w = '=' :: wv ∧ UrlEncodes wv v

/-- An extension with its value encoded, marked as critical or not. One that does not keep its
value may have any. -/
def LdapUrlExt.Renders (w : List Char) (e : LdapUrlExt) : Prop :=
  ∃ (crit : Bool) (id wv : List Char) (v : String), e.IsName id ∧ LdapUrlExt.RendersValue wv v ∧
    (∀ v' ∈ e.value, v' = v) ∧ w = (if crit then ['!'] else []) ++ id ++ wv

theorem not_mem_of_map_toLower {id name : List Char} (h : id.map Char.toLower = name) {d : Char}
    (hd : d.toLower = d) (hname : d ∉ name) : d ∉ id := by
  intro hmem
  have hlower := List.mem_map_of_mem (f := Char.toLower) hmem
  rw [h, hd] at hlower
  exact hname hlower

/-- No name holds a character that separates something. -/
theorem LdapUrlExt.IsName.not_mem {e : LdapUrlExt} {id : List Char} (h : e.IsName id) :
    id ≠ [] ∧ ∀ d ∈ ['=', '!', '?', ','], d ∉ id := by
  have hlower : ∀ d ∈ ['=', '!', '?', ','], d.toLower = d := List.forall_mem_of_all (by decide)
  have hnot (name : List Char)
      (hname : (['=', '!', '?', ','].all fun d ↦ decide (d ∉ name)) = true) :
      ∀ d ∈ ['=', '!', '?', ','], d ∉ name := List.forall_mem_of_all hname
  cases e with
  | bindname v =>
    refine ⟨?_, fun d hd ↦ not_mem_of_map_toLower h (hlower d hd) (hnot _ (by decide) d hd)⟩
    rintro rfl
    cases h
  | xBindpw v =>
    refine ⟨?_, fun d hd ↦ not_mem_of_map_toLower h (hlower d hd) (hnot _ (by decide) d hd)⟩
    rintro rfl
    cases h
  | credentials v => exact h ▸ ⟨by decide, hnot _ (by decide)⟩
  | saslMech v => exact h ▸ ⟨by decide, hnot _ (by decide)⟩
  | startTLS => exact h ▸ ⟨by decide, hnot _ (by decide)⟩
  | unknown ext => exact h.elim

/-- The lower case of a character outside of ASCII is outside of ASCII. -/
theorem toNat_lt_of_toLower {c : Char} (h : c.toLower.toNat < 128) : c.toNat < 128 := by
  by_contra hlt
  have hlower : c.toLower = c := dif_neg fun hupper ↦ by
    have hle : c.toNat ≤ 90 := hupper.2
    omega
  exact hlt (hlower ▸ h)

theorem LdapUrlExt.IsName.ascii {e : LdapUrlExt} {id : List Char} (h : e.IsName id) :
    ∀ c ∈ id, c.toNat < 128 := by
  have hlower {name : List Char} (hname : ∀ c ∈ name, c.toNat < 128)
      (h : id.map Char.toLower = name) : ∀ c ∈ id, c.toNat < 128 := fun c hc ↦
    toNat_lt_of_toLower (hname _ (h ▸ List.mem_map_of_mem hc))
  cases e with
  | bindname v => exact hlower (List.forall_mem_of_all (by decide)) h
  | xBindpw v => exact hlower (List.forall_mem_of_all (by decide)) h
  | credentials v => exact h ▸ List.forall_mem_of_all (by decide)
  | saslMech v => exact h ▸ List.forall_mem_of_all (by decide)
  | startTLS => exact h ▸ List.forall_mem_of_all (by decide)
  | unknown ext => exact h.elim

theorem all_zip_beq_iff {s t : List Char} (hlen : s.length = t.length) :
    (s.zip t).all (fun x ↦ x.1 == x.2) = true ↔ t = s := by
  induction s generalizing t with
  | nil =>
    obtain rfl := List.length_eq_zero_iff.1 hlen.symm
    exact iff_of_true rfl rfl
  | cons c s ih =>
    rcases t with - | ⟨d, t⟩
    · cases hlen
    · rw [List.zip_cons_cons, List.all_cons, Bool.and_eq_true, ih (Nat.succ.inj hlen), beq_iff_eq,
        List.cons.injEq, eq_comm (a := c)]

/-- The comparison is one of the text in lower case. -/
theorem asciiLcEqual_iff {s t : List Char} : asciiLcEqual s t = true ↔ t.map Char.toLower = s := by
  rw [asciiLcEqual]
  split
  · rename_i hlen
    refine iff_of_false Bool.false_ne_true ?_
    rintro rfl
    exact hlen (List.length_map _)
  · rename_i hlen
    exact all_zip_beq_iff (by rw [List.length_map]; exact not_not.1 hlen)

/-- **The name decides the extension**, critical or not. -/
theorem matchExt_of_isName {e : LdapUrlExt} {id : List Char} (h : e.IsName id) (crit : Bool)
    {val : String} (hval : ∀ v ∈ e.value, v = val) : matchExt crit id val = .ok e := by
  have hne {name oid : List Char} (h : id.map Char.toLower = name)
      (hoid : oid.map Char.toLower ≠ name) : id ≠ oid := by
    rintro rfl
    exact hoid h
  cases e with
  | credentials v =>
    obtain rfl := hval v rfl
    exact if_pos h
  | saslMech v =>
    obtain rfl := hval v rfl
    obtain rfl : id = saslMechOid := h
    rw [matchExt, if_neg (by decide), if_pos rfl]
  | startTLS =>
    obtain rfl : id = startTLSOid := h
    rw [matchExt, if_neg (by decide), if_neg (by decide), if_pos rfl]
  | bindname v =>
    obtain rfl := hval v rfl
    have hname : id.map Char.toLower = bindnameName := h
    rw [matchExt, if_neg (hne hname (by decide)), if_neg (hne hname (by decide)),
      if_neg (hne hname (by decide)), if_pos (asciiLcEqual_iff.2 hname)]
  | xBindpw v =>
    obtain rfl := hval v rfl
    have hname : id.map Char.toLower = xBindpwName := h
    have hother : ¬asciiLcEqual bindnameName id = true := by
      rw [asciiLcEqual_iff, hname]
      decide
    rw [matchExt, if_neg (hne hname (by decide)), if_neg (hne hname (by decide)),
      if_neg (hne hname (by decide)), if_neg hother, if_pos (asciiLcEqual_iff.2 hname)]
  | unknown ext => exact h.elim

theorem LdapUrlExt.IsName.not_unknown {e : LdapUrlExt} {id : List Char} (h : e.IsName id) :
    ¬e.eq (.unknown "") = true := by
  cases e with
  | unknown ext => exact h.elim
  | _ => exact Bool.false_ne_true

/-- No extension that is written down holds a comma. -/
theorem LdapUrlExt.Renders.not_mem_comma {w : List Char} {e : LdapUrlExt} (h : e.Renders w) :
    ',' ∉ w := by
  obtain ⟨crit, id, wv, v, hname, hvalue, -, rfl⟩ := h
  have hcrit : ',' ∉ if crit then ['!'] else [] := by cases crit <;> decide
  have hwv : ',' ∉ wv := by
    rcases hvalue with ⟨rfl, -⟩ | ⟨wv', rfl, henc⟩
    · exact List.not_mem_nil
    · rw [List.mem_cons, not_or]
      exact ⟨by decide, fun hmem ↦ (henc.2 _ hmem).2.2 rfl⟩
  rw [List.mem_append, List.mem_append, not_or, not_or]
  exact ⟨⟨hcrit, hname.not_mem.2 ',' (by decide)⟩, hwv⟩

theorem LdapUrlExt.not_mem_comma {ws : List (List Char)} {exts : List LdapUrlExt}
    (h : List.Forall₂ LdapUrlExt.Renders ws exts) : ∀ w ∈ ws, ',' ∉ w := by
  induction h with
  | nil => exact fun w hw ↦ absurd hw List.not_mem_nil
  | cons hw _ ih => exact List.forall_mem_cons.2 ⟨hw.not_mem_comma, ih⟩

theorem extHead_eq_self {ext : List Char} (hext : '=' ∉ ext) :
    extHead ext = ext ∧ extValue ext = [] := by
  obtain ⟨htake, hdrop⟩ := List.takeWhile_ne_of_not_mem hext
  exact ⟨htake, by rw [extValue, hdrop]; rfl⟩

/-- What is in front of the value, and the value. -/
theorem extHead_append {name : List Char} (hname : '=' ∉ name) (wv : List Char) :
    extHead (name ++ '=' :: wv) = name ∧ extValue (name ++ '=' :: wv) = wv := by
  obtain ⟨htake, hdrop⟩ := List.takeWhile_ne_append hname wv
  exact ⟨htake, by rw [extValue, hdrop]; rfl⟩

theorem urlEncodes_nil : UrlEncodes [] "" :=
  ⟨⟨[], rfl, .nil⟩, fun _ hc ↦ absurd hc List.not_mem_nil⟩

/-- The three parts of an extension that is written down. -/
theorem LdapUrlExt.Renders.parts {w : List Char} {e : LdapUrlExt} (h : e.Renders w) :
    ∃ (crit : Bool) (id wv : List Char) (v : String), e.IsName id ∧
      splitExt w = .ok (crit, id, wv) ∧ UrlEncodes wv v ∧ ∀ v' ∈ e.value, v' = v := by
  obtain ⟨crit, id, wv, v, hname, hvalue, hval, rfl⟩ := h
  obtain ⟨hne, hsep⟩ := hname.not_mem
  have hpre : '=' ∉ (if crit then ['!'] else []) ++ id := by
    rw [List.mem_append, not_or]
    exact ⟨by cases crit <;> decide, hsep '=' (by decide)⟩
  obtain ⟨wv', hhead, htail, henc⟩ : ∃ wv',
      extHead ((if crit then ['!'] else []) ++ id ++ wv) = (if crit then ['!'] else []) ++ id ∧
        extValue ((if crit then ['!'] else []) ++ id ++ wv) = wv' ∧ UrlEncodes wv' v := by
    obtain ⟨hhead, htail⟩ := extHead_eq_self hpre
    rcases hvalue with ⟨rfl, rfl⟩ | ⟨wv', rfl, henc⟩
    · rw [List.append_nil]
      exact ⟨[], hhead, htail, urlEncodes_nil⟩
    · exact ⟨wv', (extHead_append hpre wv').1, (extHead_append hpre wv').2, henc⟩
  refine ⟨crit, id, wv', v, hname, ?_, henc, hval⟩
  obtain ⟨c, id, rfl⟩ := List.exists_cons_of_ne_nil hne
  have hc : c ≠ '!' := by
    rintro rfl
    exact hsep '!' (by decide) List.mem_cons_self
  have hascii : ∀ d ∈ ((if crit then ['!'] else []) ++ c :: id).head?, d.toNat < 128 := by
    cases crit
    · rintro _ ⟨rfl⟩
      exact hname.ascii c List.mem_cons_self
    · rintro _ ⟨rfl⟩
      decide
  rw [splitExt_eq (by rw [hhead]; exact hascii), htail, extName, extCritical, hhead]
  cases crit
  · simp [hc]
  · rfl

section

variable {decode : List Char → Option String}

theorem urlDecode_of_urlEncodes (hdecode : PercentDecodes decode) {w : List Char} {v : String}
    (hw : UrlEncodes w v) : urlDecode decode w = .ok v := by
  rw [urlDecode, hdecode w v hw.1]

/-- **A recognized extension is put into the set**, if there is none of its kind. -/
theorem addExt_of_renders (hdecode : PercentDecodes decode) {w : List Char} {e : LdapUrlExt}
    (hw : e.Renders w) (extSet : LdapUrlExtSet) :
    addExt decode extSet w = .ok (extSet.insert e) := by
  obtain ⟨crit, id, wv, v, hname, hsplit, henc, hvalue⟩ := hw.parts
  have hval := urlDecode_of_urlEncodes hdecode henc
  rw [addExt, hsplit]
  simp only [bind, Except.bind, hval, matchExt_of_isName hname crit hvalue, hname.not_unknown,
    pure, Except.pure]
  rfl

/-- The loop over recognized extensions of different kinds collects all of them. -/
theorem foldlM_addExt (hdecode : PercentDecodes decode) {ws : List (List Char)}
    {exts : List LdapUrlExt} (hws : List.Forall₂ LdapUrlExt.Renders ws exts)
    (hdistinct : exts.Pairwise fun e e' ↦ ¬e.eq e' = true) {extSet : LdapUrlExtSet}
    (hset : ∀ e' ∈ extSet.elems, ∀ e ∈ exts, ¬e'.eq e = true) :
    ∃ extSet', ws.foldlM (addExt decode) extSet = .ok extSet' ∧
      extSet'.elems = extSet.elems ∪ exts.toFinset := by
  induction hws generalizing extSet with
  | nil => exact ⟨extSet, rfl, by simp⟩
  | @cons w e ws exts hw _ ih =>
    obtain ⟨he, hdistinct⟩ := List.pairwise_cons.1 hdistinct
    have helems := LdapUrlExtSet.insert_elems fun e' he' ↦ hset e' he' e List.mem_cons_self
    have hset' : ∀ e₁ ∈ (extSet.insert e).elems, ∀ e₂ ∈ exts, ¬e₁.eq e₂ = true := by
      rw [helems]
      intro e₁ h₁ e₂ h₂
      rcases Finset.mem_insert.1 h₁ with rfl | h₁
      · exact he e₂ h₂
      · exact hset e₁ h₁ e₂ (List.mem_cons_of_mem e h₂)
    obtain ⟨extSet', hloop, hext⟩ := ih hdistinct hset'
    refine ⟨extSet', ?_, ?_⟩
    · rw [List.foldlM_cons, addExt_of_renders hdecode hw]
      exact hloop
    · rw [hext, helems, List.toFinset_cons, Finset.insert_union, Finset.union_insert]

/-! ### The query -/

/-- The parts of a query, taken apart. -/
theorem getUrlParams_eq {url : Url} {a s f x : List Char} (ha : '?' ∉ a) (hs : '?' ∉ s)
    (hf : '?' ∉ f) (hquery : url.query = some (a ++ '?' :: (s ++ '?' :: (f ++ '?' :: x)))) :
    getUrlParams decode url = do
      let base ← urlDecode decode (urlBase url.path)
      let scope ← urlScope (some s)
      let filter ← urlDecode decode (urlFilter (some f))
      let extensions ← urlExtensions decode (some x)
      return ⟨base, urlAttrs (some a), scope, filter, extensions⟩ := by
  have hsplit : (url.query.getD []).splitn '?' 4 = [a, s, f, x] := by
    rw [hquery, Option.getD_some, List.splitn_append_cons ha, List.splitn_append_cons hs,
      List.splitn_append_cons hf, List.splitn]
  rw [getUrlParams, hsplit]
  rfl

/-- A filter is encoded as a text that is not empty, so there is no default. -/
theorem urlDecode_urlFilter (hdecode : PercentDecodes decode) {wf : List Char} {filter : String}
    (hfilter : filter ≠ "") (hwf : UrlEncodes wf filter) :
    urlDecode decode (urlFilter (some wf)) = .ok filter := by
  have hne : wf ≠ [] := by
    rintro rfl
    have hempty := hdecode [] filter hwf.1
    rw [hdecode.nil] at hempty
    exact hfilter (Option.some.inj hempty).symm
  obtain ⟨c, l, rfl⟩ := List.exists_cons_of_ne_nil hne
  exact urlDecode_of_urlEncodes hdecode hwf

/-- The loop runs over the extensions that were joined. -/
theorem urlExtensions_intercalate (hdecode : PercentDecodes decode) {exts : List (List Char)}
    (hsep : ∀ ext ∈ exts, ',' ∉ ext) :
    urlExtensions decode (some ([','].intercalate exts)) = exts.foldlM (addExt decode) .new := by
  by_cases hne : exts = []
  · subst hne
    rfl
  · by_cases hjoin : [','].intercalate exts = []
    · -- A single empty extension has no known name, and is not critical.
      rw [List.eq_of_intercalate_eq_nil hsep hne hjoin]
      have hsplit : splitExt [] = .ok (false, [], []) := rfl
      have hval : urlDecode decode [] = .ok "" := by rw [urlDecode, hdecode.nil]
      have hadd : addExt decode .new [] = .ok .new := by
        rw [addExt, hsplit]
        simp only [bind, Except.bind, hval]
        rfl
      rw [List.intercalate_singleton, List.foldlM_cons, hadd]
      rfl
    · obtain ⟨c, l, hl⟩ := List.exists_cons_of_ne_nil hjoin
      rw [hl, urlExtensions, ← hl, List.splitOn_intercalate ',' hsep hne]
      simp

/-- The attributes are those that were joined. -/
theorem urlAttrs_intercalate {attrs : List String} (hne : attrs ≠ [])
    (hattr : ∀ a ∈ attrs, a ≠ "" ∧ ',' ∉ a.toList) :
    urlAttrs (some ([','].intercalate (attrs.map String.toList))) = attrs := by
  have hsep : ∀ l ∈ attrs.map String.toList, ',' ∉ l := by
    rintro l hl
    obtain ⟨a, ha, rfl⟩ := List.mem_map.1 hl
    exact (hattr a ha).2
  have hne' : attrs.map String.toList ≠ [] := by simpa using hne
  have hjoin : [','].intercalate (attrs.map String.toList) ≠ [] := by
    intro hjoin
    have hmem : [] ∈ attrs.map String.toList := by
      rw [List.eq_of_intercalate_eq_nil hsep hne' hjoin]
      exact List.mem_cons_self
    obtain ⟨a, ha, hnil⟩ := List.mem_map.1 hmem
    exact (hattr a ha).1 (String.toList_eq_nil_iff.1 hnil)
  obtain ⟨c, l, hl⟩ := List.exists_cons_of_ne_nil hjoin
  rw [hl, urlAttrs, ← hl, List.splitOn_intercalate ',' hsep hne', List.map_map]
  · simp
  · simp

/-- The name of a scope in a URL. -/
def Scope.urlName : Scope → List Char
  | .base => "base".toList
  | .oneLevel => "one".toList
  | .subtree => "sub".toList

theorem urlScope_urlName (scope : Scope) : urlScope (some scope.urlName) = .ok scope := by
  cases scope <;> rfl

/-- Letters, digits and what else may stand in an attribute selector. -/
def isSelectorChar (c : Char) : Bool :=
  c.isAlphanum || c == '.' || c == '-' || c == ';' || c == '*' || c == '+'

/-- **LDAP URL parameters round trip.** A URL that was assembled of a base, attribute selectors, a
scope, a filter and recognized extensions of different kinds, with the base, the filter and the
values of the extensions encoded, is read back to them. -/
theorem getUrlParams_assembled (hdecode : PercentDecodes decode) {url : Url} {base filter : String}
    {attrs : List String} {scope : Scope} {exts : List LdapUrlExt} {wb wf : List Char}
    {wexts : List (List Char)} (hbase : UrlEncodes wb base) (hattrs : attrs ≠ [])
    (hattr : ∀ a ∈ attrs, a ≠ "" ∧ ∀ c ∈ a.toList, isSelectorChar c) (hfilter : filter ≠ "")
    (hwf : UrlEncodes wf filter) (hexts : List.Forall₂ LdapUrlExt.Renders wexts exts)
    (hdistinct : exts.Pairwise fun e e' ↦ ¬e.eq e' = true) (hpath : url.path = '/' :: wb)
    (hquery : url.query = some ([','].intercalate (attrs.map String.toList) ++ '?' ::
      (scope.urlName ++ '?' :: (wf ++ '?' :: [','].intercalate wexts)))) :
    ∃ params, getUrlParams decode url = .ok params ∧ params.base = base ∧ params.attrs = attrs ∧
      params.scope = scope ∧ params.filter = filter ∧
        params.extensions.elems = exts.toFinset := by
  have ha : '?' ∉ [','].intercalate (attrs.map String.toList) := by
    intro h
    rcases List.mem_of_mem_intercalate h with h | ⟨l, hl, hmem⟩
    · cases h
    · obtain ⟨a, ha, rfl⟩ := List.mem_map.1 hl
      cases (hattr a ha).2 _ hmem
  have hs : '?' ∉ scope.urlName := by cases scope <;> decide
  have hf : '?' ∉ wf := fun hmem ↦ (hwf.2 _ hmem).1 rfl
  have hurlBase : urlDecode decode (urlBase url.path) = .ok base := by
    rw [hpath]
    exact urlDecode_of_urlEncodes hdecode hbase
  have hcomma : ∀ a ∈ attrs, a ≠ "" ∧ ',' ∉ a.toList := fun a ha ↦
    ⟨(hattr a ha).1, fun hmem ↦ by cases (hattr a ha).2 _ hmem⟩
  have hnew : ∀ e' ∈ LdapUrlExtSet.new.elems, ∀ e ∈ exts, ¬e'.eq e = true := fun _ he ↦
    absurd he (Finset.notMem_empty _)
  obtain ⟨extSet, hloop, helems⟩ := foldlM_addExt hdecode hexts hdistinct hnew
  refine ⟨⟨base, attrs, scope, filter, extSet⟩, ?_, rfl, rfl, rfl, rfl, ?_⟩
  · have hsep := LdapUrlExt.not_mem_comma hexts
    rw [getUrlParams_eq ha hs hf hquery, hurlBase, urlScope_urlName,
      urlDecode_urlFilter hdecode hfilter hwf, urlExtensions_intercalate hdecode hsep, hloop,
      urlAttrs_intercalate hattrs hcomma]
    rfl
  · rw [helems]
    exact Finset.empty_union _

end

/-- The base is of two octets, the filter and the password hold separators, and the name of the
critical extension is not in lower case. -/
theorem getUrlParams_assembled_critical :
    ∃ params, getUrlParams percentDecodeStr
        { path := "/%c3%a9".toList
          query := some
            "cn,2.5.4.4?one?%28a%3d%3f%2c%29?!X-BindPw=%3d%2c,1.3.6.1.4.1.1466.20037".toList
          path_ascii := List.forall_mem_of_all (by decide)
          query_ascii := by rintro _ ⟨rfl⟩; exact List.forall_mem_of_all (by decide) } =
        .ok params ∧
      params.base = "é" ∧ params.attrs = ["cn", "2.5.4.4"] ∧ params.scope = .oneLevel ∧
        params.filter = "(a=?,)" ∧
          params.extensions.elems = [LdapUrlExt.xBindpw "=,", .startTLS].toFinset := by
  have encodes {w : List Char} {s : String} (h : urlEncode s = w) : UrlEncodes w s :=
    h ▸ urlEncodes_urlEncode s
  have hbase : UrlEncodes "%c3%a9".toList "é" := encodes (by decide +kernel)
  have hfilter : UrlEncodes "%28a%3d%3f%2c%29".toList "(a=?,)" := encodes (by decide +kernel)
  have hval : UrlEncodes "%3d%2c".toList "=," := encodes (by decide +kernel)
  have hbindpw : LdapUrlExt.Renders "!X-BindPw=%3d%2c".toList (.xBindpw "=,") := by
    have hname : "X-BindPw".toList.map Char.toLower = xBindpwName := by decide
    exact ⟨true, _, _, _, hname, Or.inr ⟨_, rfl, hval⟩, by rintro _ ⟨rfl⟩; rfl, by decide⟩
  have hstartTLS : LdapUrlExt.Renders "1.3.6.1.4.1.1466.20037".toList .startTLS :=
    ⟨false, startTLSOid, [], "", rfl, Or.inl ⟨rfl, rfl⟩, by rintro _ ⟨⟩, by decide⟩
  have hattr : ∀ a ∈ ["cn", "2.5.4.4"], a ≠ "" ∧ ∀ c ∈ a.toList, isSelectorChar c := by
    rintro a ha
    rcases List.mem_pair.1 ha with rfl | rfl
    · exact ⟨by decide, List.forall_mem_of_all (by decide)⟩
    · exact ⟨by decide, List.forall_mem_of_all (by decide)⟩
  exact getUrlParams_assembled percentDecodes_percentDecodeStr hbase (by decide) hattr (by decide)
    hfilter (.cons hbindpw (.cons hstartTLS .nil)) (by decide) (by decide +kernel)
    (by decide +kernel)

end Ldap3
