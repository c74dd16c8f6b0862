import Ldap3.Lib.Skip
import Ldap3.Util.Url

/-!
# Extensions that a URL can do without

`get_url_params` leaves out an extension that has no known name and is not critical, but decodes
its value first. So the URL can do without such extensions (`ignoresUnknown_iff`) unless
the value of one that would be left out cannot be decoded, with nothing in front of it that fails
anyway and with another outcome behind it.
-/

namespace Ldap3

/-! ### One extension -/

/-- The names that the `match` has an arm for. -/
def recognizes (id : List Char) : Bool :=
  id == credentialsOid || id == saslMechOid || id == startTLSOid ||
    asciiLcEqual bindnameName id || asciiLcEqual xBindpwName id

/-- Neither recognized nor marked as critical. -/
def extIgnorable (ext : List Char) : Bool :=
  !recognizes (extName ext) && !extCritical ext

/-- Not recognized, but marked as critical. -/
def extUnsupported (ext : List Char) : Bool :=
  !recognizes (extName ext) && extCritical ext

theorem exists_isName {id : List Char} (h : recognizes id = true) (val : String) :
    ∃ e : LdapUrlExt, e.IsName id ∧ ∀ v ∈ e.value, v = val := by
  simp only [recognizes, Bool.or_eq_true, beq_iff_eq, asciiLcEqual_iff] at h
  rcases h with (((h | h) | h) | h) | h
  · exact ⟨.credentials val, h, by rintro _ ⟨rfl⟩; rfl⟩
  · exact ⟨.saslMech val, h, by rintro _ ⟨rfl⟩; rfl⟩
  · exact ⟨.startTLS, h, by rintro _ ⟨⟩⟩
  · exact ⟨.bindname val, h, by rintro _ ⟨rfl⟩; rfl⟩
  · exact ⟨.xBindpw val, h, by rintro _ ⟨rfl⟩; rfl⟩

theorem matchExt_of_not_recognizes {id : List Char} (h : recognizes id = false) (crit : Bool)
    (val : String) : matchExt crit id val =
      if crit then .error (.err (.unrecognizedCriticalExtension (LdapUrlExt.debugUnknown id)))
      else .ok (.unknown "") := by
  simp only [recognizes, Bool.or_eq_false_iff, beq_eq_false_iff_ne] at h
  obtain ⟨⟨⟨⟨hcred, hmech⟩, htls⟩, hbind⟩, hbindpw⟩ := h
  rw [matchExt, if_neg hcred, if_neg hmech, if_neg htls, if_neg (by rw [hbind]; decide),
    if_neg (by rw [hbindpw]; decide)]

section

variable (decode : List Char → Option String)

/-- How the loop fails on an extension. -/
def extError (ext : List Char) : Option Failure :=
  if decode (extValue ext) = none then some (.err .decodingUTF8)
  else if extUnsupported ext then
    some (.err (.unrecognizedCriticalExtension (LdapUrlExt.debugUnknown (extName ext))))
  else none

variable {decode} {ext : List Char}

theorem extError_of_eq_none (hval : decode (extValue ext) = none) :
    extError decode ext = some (.err .decodingUTF8) :=
  if_pos hval

theorem extError_of_eq_some {val : String} (hval : decode (extValue ext) = some val) :
    extError decode ext = if extUnsupported ext then
      some (.err (.unrecognizedCriticalExtension (LdapUrlExt.debugUnknown (extName ext))))
      else none :=
  if_neg (by rw [hval]; exact Option.some_ne_none val)

theorem addExt_eq (hext : ∀ c ∈ ext, c.toNat < 128) (extSet : LdapUrlExtSet) :
    addExt decode extSet ext = do
      let val ← urlDecode decode (extValue ext)
      let e ← matchExt (extCritical ext) (extName ext) val
      if e.eq (.unknown "") then return extSet else return extSet.insert e := by
  have hhead : ∀ c ∈ (extHead ext).head?, c.toNat < 128 := fun c hc ↦
    hext c ((List.takeWhile_subset _) (List.mem_of_mem_head? hc))
  rw [addExt, splitExt_eq hhead]
  rfl

/-- The value is decoded before anything else. -/
theorem addExt_of_eq_none (hext : ∀ c ∈ ext, c.toNat < 128) (hval : decode (extValue ext) = none)
    (extSet : LdapUrlExtSet) : addExt decode extSet ext = .error (.err .decodingUTF8) := by
  rw [addExt_eq hext, urlDecode, hval]
  rfl

theorem addExt_of_eq_some (hext : ∀ c ∈ ext, c.toNat < 128) {val : String}
    (hval : decode (extValue ext) = some val) (extSet : LdapUrlExtSet) :
    addExt decode extSet ext = do
      let e ← matchExt (extCritical ext) (extName ext) val
      if e.eq (.unknown "") then return extSet else return extSet.insert e := by
  rw [addExt_eq hext, urlDecode, hval]
  rfl

/-- An extension that is not recognized is left out, or an error if it is critical. -/
theorem addExt_of_not_recognizes (hext : ∀ c ∈ ext, c.toNat < 128) {val : String}
    (hval : decode (extValue ext) = some val) (hname : recognizes (extName ext) = false)
    (extSet : LdapUrlExtSet) :
    addExt decode extSet ext = if extCritical ext then
      .error (.err (.unrecognizedCriticalExtension (LdapUrlExt.debugUnknown (extName ext))))
      else .ok extSet := by
  rw [addExt_of_eq_some hext hval, matchExt_of_not_recognizes hname]
  cases extCritical ext <;> rfl

theorem exists_addExt_of_recognizes (hext : ∀ c ∈ ext, c.toNat < 128) {val : String}
    (hval : decode (extValue ext) = some val) (hname : recognizes (extName ext) = true)
    (extSet : LdapUrlExtSet) : ∃ extSet', addExt decode extSet ext = .ok extSet' := by
  obtain ⟨e, he, hvalue⟩ := exists_isName hname val
  refine ⟨extSet.insert e, ?_⟩
  rw [addExt_of_eq_some hext hval, matchExt_of_isName he _ hvalue]
  exact if_neg he.not_unknown

/-- **The body of the loop fails as `extError` says.** -/
theorem failsBy_addExt (hext : ∀ c ∈ ext, c.toNat < 128) :
    List.FailsBy (addExt decode) (extError decode) ext := by
  cases hval : decode (extValue ext) with
  | none => exact .of_error (extError_of_eq_none hval) (addExt_of_eq_none hext hval)
  | some val =>
    have herr := extError_of_eq_some hval
    cases hname : recognizes (extName ext) with
    | true =>
      rw [extUnsupported, hname] at herr
      exact .of_ok herr (exists_addExt_of_recognizes hext hval hname)
    | false =>
      have hadd := addExt_of_not_recognizes hext hval hname
      rw [extUnsupported, hname] at herr
      cases hcrit : extCritical ext with
      | true =>
        rw [hcrit] at herr hadd
        exact .of_error herr hadd
      | false =>
        rw [hcrit] at herr hadd
        exact .of_ok herr fun extSet ↦ ⟨extSet, hadd extSet⟩

/-- **An ignorable extension changes nothing** if its value can be decoded. -/
theorem addExt_of_ignorable (hext : ∀ c ∈ ext, c.toNat < 128) (hign : extIgnorable ext = true)
    (herr : extError decode ext = none) (extSet : LdapUrlExtSet) :
    addExt decode extSet ext = .ok extSet := by
  rw [extIgnorable, Bool.and_eq_true, Bool.not_eq_true', Bool.not_eq_true'] at hign
  cases hval : decode (extValue ext) with
  | none =>
    rw [extError_of_eq_none hval] at herr
    cases herr
  | some val =>
    rw [addExt_of_not_recognizes hext hval hign.1, hign.2]
    rfl

/-- It fails in one way only. -/
theorem extError_of_ignorable (hign : extIgnorable ext = true) :
    extError decode ext = none ∨ extError decode ext = some (.err .decodingUTF8) := by
  cases hval : decode (extValue ext) with
  | none => exact Or.inr (extError_of_eq_none hval)
  | some val =>
    rw [extIgnorable, Bool.and_eq_true, Bool.not_eq_true', Bool.not_eq_true'] at hign
    left
    rw [extError_of_eq_some hval, extUnsupported, hign.2, Bool.and_false]
    rfl

end

/-! ### The extensions of a URL -/

/-- A part of the query, if there is one. -/
def Url.part (url : Url) (i : ℕ) : Option (List Char) :=
  ((url.query.getD []).splitn '?' 4)[i]?

/-- The list of extensions. Of an empty text it is one empty extension, which is ignorable. -/
def Url.exts (url : Url) : List (List Char) :=
  match url.part 3 with
  | none => []
  | some exts => exts.splitOn ','

/-- What stands in front of the extensions in a query that has them. -/
structure QueryFront where
  attrs : List Char
  scope : List Char
  filter : List Char
  attrs_sep : '?' ∉ attrs
  scope_sep : '?' ∉ scope
  filter_sep : '?' ∉ filter

namespace QueryFront

variable (front : QueryFront)

/-- A query with the extensions. -/
def query (exts : List (List Char)) : List Char :=
  front.attrs ++ '?' :: (front.scope ++ '?' :: (front.filter ++ '?' :: [','].intercalate exts))

theorem splitn_query (exts : List (List Char)) : (front.query exts).splitn '?' 4 =
    [front.attrs, front.scope, front.filter, [','].intercalate exts] := by
  rw [query, List.splitn_append_cons front.attrs_sep, List.splitn_append_cons front.scope_sep,
    List.splitn_append_cons front.filter_sep, List.splitn]

theorem mem_query {exts : List (List Char)} {c : Char} :
    c ∈ front.query exts ↔ c ∈ front.query [] ∨ c ∈ [','].intercalate exts := by
  simp only [query, List.mem_append, List.mem_cons, List.intercalate_nil, List.not_mem_nil,
    or_false, or_assoc]

theorem ascii_of_omits {skip : List Char → Bool} {exts exts' : List (List Char)}
    (h : List.Omits skip exts exts') (hascii : ∀ c ∈ front.query exts, c.toNat < 128) :
    ∀ c ∈ front.query exts', c.toNat < 128 := by
  intro c hc
  rcases front.mem_query.1 hc with hc | hc
  · exact hascii c (front.mem_query.2 (Or.inl hc))
  · rcases List.mem_of_mem_intercalate hc with rfl | ⟨ext, hext, hc⟩
    · decide
    · exact hascii c (front.mem_query.2 (Or.inr (List.mem_intercalate_of_mem (h.mem hext) hc)))

end QueryFront

namespace Url

variable {url : Url}

theorem not_mem_comma {ext : List Char} (hext : ext ∈ url.exts) : ',' ∉ ext := by
  rw [exts] at hext
  split at hext
  · cases hext
  · exact List.not_mem_of_mem_splitOn hext

/-- The query of a URL that has extensions. -/
theorem exists_query_eq (hne : url.exts ≠ []) :
    ∃ front : QueryFront, url.query = some (front.query url.exts) := by
  rw [exts] at hne ⊢
  split at hne
  · exact absurd rfl hne
  · rename_i x hpart
    obtain ⟨attrs, l₁, hattrs, hquery, h₁⟩ := List.exists_of_splitn hpart
    obtain ⟨scope, l₂, hscope, rfl, h₂⟩ := List.exists_of_splitn h₁
    obtain ⟨filter, l₃, hfilter, rfl, h₃⟩ := List.exists_of_splitn h₂
    obtain rfl : l₃ = x := Option.some.inj h₃
    refine ⟨⟨attrs, scope, filter, hattrs, hscope, hfilter⟩, ?_⟩
    cases hq : url.query with
    | none =>
      rw [hq] at hquery
      simp at hquery
    | some q =>
      rw [hq, Option.getD_some] at hquery
      rw [QueryFront.query, List.intercalate_splitOn, hquery]

/-- The extensions of a query that was put together. -/
theorem exts_of_query {front : QueryFront} {exts : List (List Char)} (hne : exts ≠ [])
    (hsep : ∀ ext ∈ exts, ',' ∉ ext) (hquery : url.query = some (front.query exts)) :
    url.exts = exts := by
  rw [Url.exts, part, hquery, Option.getD_some, front.splitn_query]
  exact List.splitOn_intercalate ',' hsep hne

theorem ext_ascii {front : QueryFront} {exts : List (List Char)}
    (hquery : url.query = some (front.query exts)) {ext : List Char} (hext : ext ∈ exts) :
    ∀ c ∈ ext, c.toNat < 128 := fun c hc ↦
  url.query_ascii _ hquery c (front.mem_query.2 (Or.inr (List.mem_intercalate_of_mem hext hc)))

end Url

/-! ### Leaving out extensions -/

/-- The second URL is the first without some of the extensions that are neither recognized nor
marked as critical. -/
def Url.DropsExts (url url' : Url) : Prop :=
  url'.path = url.path ∧ ∃ (front : QueryFront) (exts exts' : List (List Char)),
    (∀ ext ∈ exts, ',' ∉ ext) ∧ List.Omits extIgnorable exts exts' ∧
      url.query = some (front.query exts) ∧ url'.query = some (front.query exts')

theorem urlScope_eq_ok_iff {part : Option (List Char)} : (∃ scope, urlScope part = .ok scope) ↔
    part.getD [] ∈ [[], "base".toList, "one".toList, "sub".toList] := by
  constructor
  · rintro ⟨scope, h⟩
    unfold urlScope at h
    split at h
    · decide
    · decide
    · -- The texts that have an arm of their own.
      split at h
      · rename_i hs
        rw [Option.getD_some, hs]
        decide
      · split at h
        · rename_i hs
          rw [Option.getD_some, hs]
          decide
        · split at h
          · rename_i hs
            rw [Option.getD_some, hs]
            decide
          · cases h
  · intro h
    cases part with
    | none => exact ⟨_, rfl⟩
    | some scopeStr =>
      simp only [Option.getD_some, List.mem_cons, List.not_mem_nil, or_false] at h
      rcases h with rfl | rfl | rfl | rfl <;> exact ⟨_, rfl⟩

section

variable (decode : List Char → Option String)

/-- The base, the scope or the filter is refused. -/
def Url.FrontFails (url : Url) : Prop :=
  decode (urlBase url.path) = none ∨
    (url.part 1).getD [] ∉ [[], "base".toList, "one".toList, "sub".toList] ∨
      decode (urlFilter (url.part 2)) = none

/-- What becomes of everything but the extensions. -/
def QueryFront.params (path : List Char) (front : QueryFront) :
    Except Failure (LdapUrlExtSet → LdapUrlParams) := do
  let base ← urlDecode decode (urlBase path)
  let scope ← urlScope (some front.scope)
  let filter ← urlDecode decode (urlFilter (some front.filter))
  return fun extensions ↦ ⟨base, urlAttrs (some front.attrs), scope, filter, extensions⟩

/-- The extension is not one to be left out, and is an error. -/
def extRejected (ext : List Char) : Bool :=
  !extIgnorable ext && ((decode (extValue ext)).isNone || extUnsupported ext)

/-- The first extension that is an error and not one to be left out has a value that cannot be
decoded, or all values in front of it can be decoded. -/
def Url.CanDropExts (url : Url) : Prop :=
  (∃ ext, url.exts.find? (extRejected decode) = some ext ∧ decode (extValue ext) = none) ∨
    ∀ ext ∈ url.exts.takeWhile fun ext ↦ !extRejected decode ext, decode (extValue ext) ≠ none

/-- Extensions that are neither recognized nor critical make no difference, and one that is not
recognized but critical is not accepted. -/
def Url.IgnoresUnknown (url : Url) : Prop :=
  (∀ url', url.DropsExts url' → getUrlParams decode url' = getUrlParams decode url) ∧
    ∀ ext ∈ url.exts, extUnsupported ext = true → ∀ params, getUrlParams decode url ≠ .ok params

variable {decode} {url : Url}

theorem frontFails_iff {front : QueryFront} {exts : List (List Char)}
    (hquery : url.query = some (front.query exts)) :
    url.FrontFails decode ↔ ∃ err, front.params decode url.path = .error err := by
  have hscope : url.part 1 = some front.scope := by
    rw [Url.part, hquery, Option.getD_some, front.splitn_query]
    rfl
  have hfilter : url.part 2 = some front.filter := by
    rw [Url.part, hquery, Option.getD_some, front.splitn_query]
    rfl
  rw [Url.FrontFails, ← urlScope_eq_ok_iff, hscope, hfilter, QueryFront.params]
  cases hbase : decode (urlBase url.path) with
  | none => exact iff_of_true (Or.inl rfl) ⟨_, by rw [urlDecode, hbase]; rfl⟩
  | some base =>
    have hb : urlDecode decode (urlBase url.path) = .ok base := by rw [urlDecode, hbase]
    cases hs : urlScope (some front.scope) with
    | error err =>
      refine iff_of_true (Or.inr (Or.inl (by rintro ⟨_, ⟨⟩⟩))) ⟨err, ?_⟩
      rw [hb]
      rfl
    | ok scope =>
      cases hf : decode (urlFilter (some front.filter)) with
      | none =>
        refine iff_of_true (Or.inr (Or.inr rfl)) ⟨.err .decodingUTF8, ?_⟩
        rw [hb, urlDecode, hf]
        rfl
      | some filter =>
        refine iff_of_false ?_ ?_
        · rintro (h | h | h)
          · cases h
          · exact h ⟨scope, rfl⟩
          · cases h
        · rintro ⟨err, h⟩
          rw [hb, urlDecode, hf] at h
          cases h

theorem getUrlParams_of_front (hdecode : PercentDecodes decode) {front : QueryFront}
    {exts : List (List Char)} (hsep : ∀ ext ∈ exts, ',' ∉ ext)
    (hquery : url.query = some (front.query exts)) :
    getUrlParams decode url = do
      let params ← front.params decode url.path
      let extensions ← exts.foldlM (addExt decode) .new
      return params extensions := by
  rw [getUrlParams_eq front.attrs_sep front.scope_sep front.filter_sep hquery,
    urlExtensions_intercalate hdecode hsep, QueryFront.params]
  simp only [bind_assoc, pure_bind]

theorem rejects_eq : List.rejects extIgnorable (extError decode) = extRejected decode := by
  funext ext
  rw [List.rejects, extRejected]
  cases hval : decode (extValue ext) with
  | none => rw [extError_of_eq_none hval]; rfl
  | some val =>
    rw [extError_of_eq_some hval]
    cases extUnsupported ext <;> rfl

theorem extError_eq_decodingUTF8_iff {ext : List Char} :
    extError decode ext = some (.err .decodingUTF8) ↔ decode (extValue ext) = none := by
  refine ⟨fun h ↦ ?_, extError_of_eq_none⟩
  by_contra hval
  obtain ⟨val, hval⟩ := Option.ne_none_iff_exists'.1 hval
  rw [extError_of_eq_some hval] at h
  split at h <;> cases h

/-- Only the value of an extension that is not rejected can be an error. -/
theorem extError_eq_none_iff {ext : List Char} (hext : extRejected decode ext = false) :
    extError decode ext = none ↔ decode (extValue ext) ≠ none := by
  cases hval : decode (extValue ext) with
  | none =>
    rw [extError_of_eq_none hval]
    exact iff_of_false (Option.some_ne_none _) (fun h ↦ h rfl)
  | some val =>
    refine iff_of_true ?_ (Option.some_ne_none val)
    rw [extError_of_eq_some hval]
    refine if_neg fun hunsup ↦ ?_
    rw [extRejected, hunsup, Bool.or_true, Bool.and_true, Bool.not_eq_false', extIgnorable,
      Bool.and_eq_true, Bool.not_eq_true', Bool.not_eq_true'] at hext
    rw [extUnsupported, hext.2, Bool.and_false] at hunsup
    cases hunsup

/-- The condition in terms of what the loop does. -/
theorem skipSafe_iff_canDropExts :
    List.SkipSafe extIgnorable (extError decode) (.err .decodingUTF8) url.exts ↔
      url.CanDropExts decode := by
  rw [List.SkipSafe, Url.CanDropExts, rejects_eq]
  refine or_congr (exists_congr fun ext ↦ and_congr_right fun _ ↦ extError_eq_decodingUTF8_iff)
    (forall₂_congr fun ext hext ↦ extError_eq_none_iff ?_)
  have hrej := List.mem_takeWhile_imp (p := fun ext ↦ !extRejected decode ext) hext
  rwa [Bool.not_eq_true'] at hrej

theorem failsBy_exts {front : QueryFront} {exts : List (List Char)}
    (hquery : url.query = some (front.query exts)) :
    ∀ ext ∈ exts, List.FailsBy (addExt decode) (extError decode) ext := fun _ hext ↦
  failsBy_addExt (Url.ext_ascii hquery hext)

theorem extError_of_unsupported {ext : List Char} (hunsup : extUnsupported ext = true) :
    extError decode ext ≠ none := by
  cases hval : decode (extValue ext) with
  | none =>
    rw [extError_of_eq_none hval]
    exact Option.some_ne_none _
  | some val =>
    rw [extError_of_eq_some hval, hunsup]
    exact Option.some_ne_none _

/-- An extension that is not recognized but critical is never accepted. -/
theorem getUrlParams_ne_ok (hdecode : PercentDecodes decode) {ext : List Char}
    (hext : ext ∈ url.exts) (hunsup : extUnsupported ext = true) (params : LdapUrlParams) :
    getUrlParams decode url ≠ .ok params := by
  obtain ⟨front, hquery⟩ := Url.exists_query_eq (List.ne_nil_of_mem hext)
  obtain ⟨err, hfirst⟩ := Option.ne_none_iff_exists'.1
    fun hnone ↦ extError_of_unsupported hunsup (List.findSome?_eq_none_iff.1 hnone ext hext)
  rw [getUrlParams_of_front hdecode (fun _ ↦ Url.not_mem_comma) hquery,
    List.foldlM_eq_error (failsBy_exts hquery) hfirst]
  cases front.params decode url.path with
  | error err => rintro ⟨⟩
  | ok params => rintro ⟨⟩

/-- Where the front is fine, the outcome is the loop's. -/
theorem getUrlParams_eq_error_iff (hdecode : PercentDecodes decode) {front : QueryFront}
    {exts : List (List Char)} (hsep : ∀ ext ∈ exts, ',' ∉ ext)
    (hquery : url.query = some (front.query exts)) {params : LdapUrlExtSet → LdapUrlParams}
    (hparams : front.params decode url.path = .ok params) {err : Failure} :
    getUrlParams decode url = .error err ↔ exts.findSome? (extError decode) = some err := by
  rw [getUrlParams_of_front hdecode hsep hquery, hparams,
    List.findSome?_eq_some_iff_foldlM (failsBy_exts hquery) LdapUrlExtSet.new]
  cases exts.foldlM (addExt decode) LdapUrlExtSet.new with
  | error err' => exact ⟨fun h ↦ congrArg Except.error (Except.error.inj h),
      fun h ↦ congrArg Except.error (Except.error.inj h)⟩
  | ok extSet => exact iff_of_false (by rintro ⟨⟩) (by rintro ⟨⟩)

/-- Extensions can be left out under these conditions. -/
theorem getUrlParams_of_dropsExts (hdecode : PercentDecodes decode) {url' : Url}
    (h : url.DropsExts url') (hsafe : url.FrontFails decode ∨ url.CanDropExts decode) :
    getUrlParams decode url' = getUrlParams decode url := by
  obtain ⟨hpath, front, exts, exts', hsep, homits, hquery, hquery'⟩ := h
  rw [getUrlParams_of_front hdecode hsep hquery,
    getUrlParams_of_front hdecode (fun ext hext ↦ hsep ext (homits.mem hext)) hquery', hpath]
  by_cases hfront : url.FrontFails decode
  · obtain ⟨err, herr⟩ := (frontFails_iff hquery).1 hfront
    rw [herr]
    rfl
  · have hloop : exts'.foldlM (addExt decode) .new = exts.foldlM (addExt decode) .new := by
      by_cases hne : exts = []
      · subst hne
        cases homits
        rfl
      · have hcan := skipSafe_iff_canDropExts.2 (hsafe.resolve_left hfront)
        rw [Url.exts_of_query hne hsep hquery] at hcan
        have hfirst := (List.skipSafe_iff fun _ _ ↦ extError_of_ignorable).1 hcan exts' homits
        exact homits.foldlM (failsBy_exts hquery)
          (fun ext hext ↦ addExt_of_ignorable (Url.ext_ascii hquery hext)) hfirst _
    rw [hloop]

/-- And under no other. -/
theorem canDropExts_of_getUrlParams (hdecode : PercentDecodes decode)
    (hfront : ¬url.FrontFails decode)
    (h : ∀ url', url.DropsExts url' → getUrlParams decode url' = getUrlParams decode url) :
    url.CanDropExts decode := by
  by_cases hne : url.exts = []
  · rw [Url.CanDropExts, hne]
    exact Or.inr fun ext hext ↦ absurd hext List.not_mem_nil
  · obtain ⟨front, hquery⟩ := Url.exists_query_eq hne
    obtain ⟨params, hparams⟩ : ∃ params, front.params decode url.path = .ok params := by
      cases hparams : front.params decode url.path with
      | error err => exact absurd ((frontFails_iff hquery).2 ⟨err, hparams⟩) hfront
      | ok params => exact ⟨params, rfl⟩
    have hsep : ∀ ext ∈ url.exts, ',' ∉ ext := fun _ ↦ Url.not_mem_comma
    rw [← skipSafe_iff_canDropExts, List.skipSafe_iff fun _ _ ↦ extError_of_ignorable]
    intro exts' homits
    let url' : Url :=
      { path := url.path
        query := some (front.query exts')
        path_ascii := url.path_ascii
        query_ascii := by
          rintro _ ⟨rfl⟩
          exact front.ascii_of_omits homits (url.query_ascii _ hquery) }
    have hquery' : url'.query = some (front.query exts') := rfl
    have hsep' : ∀ ext ∈ exts', ',' ∉ ext := fun ext hext ↦ hsep ext (homits.mem hext)
    have heq := h url' ⟨rfl, front, _, exts', hsep, homits, hquery, hquery'⟩
    -- The outcomes are equal, so the first failures are.
    ext err
    rw [← getUrlParams_eq_error_iff hdecode hsep hquery hparams, ← heq]
    exact (getUrlParams_eq_error_iff hdecode hsep' hquery' hparams).symm

/-- **When extensions that are neither recognized nor critical are ignored**: if the base, the
scope or the filter is refused anyway, or `CanDropExts` holds. One that is not recognized but
critical is never accepted. -/
theorem ignoresUnknown_iff (hdecode : PercentDecodes decode) (url : Url) :
    url.IgnoresUnknown decode ↔ url.FrontFails decode ∨ url.CanDropExts decode := by
  constructor
  · rintro ⟨h, -⟩
    rcases em (url.FrontFails decode) with hfront | hfront
    · exact Or.inl hfront
    · exact Or.inr (canDropExts_of_getUrlParams hdecode hfront h)
  · intro hsafe
    exact ⟨fun url' h ↦ getUrlParams_of_dropsExts hdecode h hsafe,
      fun ext hext hunsup ↦ getUrlParams_ne_ok hdecode hext hunsup⟩

end

/-- A URL without a path. -/
def Url.ofQuery (query : List Char) (h : (query.all fun c ↦ decide (c.toNat < 128)) = true) :
    Url where
  path := []
  query := some query
  path_ascii := by simp
  query_ascii := by
    rintro _ ⟨rfl⟩
    exact List.forall_mem_of_all h

/-- The value of the first extension can be decoded. -/
theorem ignoresUnknown_decodable :
    (Url.ofQuery "???foo=%c3%a9,bindname=cn".toList (by decide)).IgnoresUnknown percentDecodeStr :=
  (ignoresUnknown_iff percentDecodes_percentDecodeStr _).2 (Or.inr (Or.inr (by decide +kernel)))

/-- The octet FF alone is no text, so the URL is refused. Without the extension it is read. -/
theorem not_ignoresUnknown_undecodable :
    ¬(Url.ofQuery "???foo=%ff".toList (by decide)).IgnoresUnknown percentDecodeStr := by
  rintro ⟨h, -⟩
  let front : QueryFront := ⟨[], [], [], List.not_mem_nil, List.not_mem_nil, List.not_mem_nil⟩
  have heq := h (.ofQuery "???".toList (by decide)) ⟨rfl, front, ["foo=%ff".toList], [],
    List.forall_mem_of_all (by decide), .drop (by decide) .nil, by decide, by decide⟩
  exact absurd (congrArg Except.isOk heq) (by decide +kernel)

end Ldap3
