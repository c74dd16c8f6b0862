import Ldap3.Protocol

/-!
# Stalls

When more input can still make the decoder answer. The parser says `Incomplete` wherever an octet
is missing, also where the missing octet would belong to an element whose content is complete: an
inner element that overruns its parent is never an error, and no further input can end the wait.

`Fillable room c` says that the octets `c` can be continued to a content of exactly `room` octets
that reads as a sequence of elements, `Completable b` that they can be continued to one element
and whatever follows. Both are walks over identifier and length octets. They are proved exact
(`exists_tagsOk_iff`, `exists_parse_ok_iff`), and `exists_decodeInner_iff` is the consequence for
the decoder: a buffer that is not `Completable` stalls the connection for good.
-/

open Nom

namespace Ldap3

/-! ### Header octets -/

/-- The number of octets that follow a first length octet. -/
def lengthOctets (l : UInt8) : ℕ :=
  if l < 128 then 0 else (l - 128).toNat

/-- The length announced by a first length octet and what follows it. -/
def lengthValue (l : UInt8) (i : List UInt8) : ℕ :=
  if l < 128 then l.toNat else BigEndian.value (i.take (lengthOctets l)) % 2 ^ 64

/-- The identifier octet announces elements in the content. -/
def IsConstructed (b : UInt8) : Prop :=
  (readType b).2.1 = .constructed

instance (b : UInt8) : Decidable (IsConstructed b) :=
  inferInstanceAs (Decidable (_ = _))

theorem parseLength_cons (l : UInt8) (i : List UInt8) :
    parseLength (l :: i) =
      (take (lengthOctets l) i).map fun x ↦ (x.1, lengthValue l i) := by
  by_cases hl : l < 128
  · rw [parseLength_short hl, lengthOctets, if_pos hl, take, if_neg (Nat.not_lt_zero _)]
    simp [Except.map, lengthValue, hl]
  · rw [parseLength_long hl, lengthOctets, if_neg hl]
    rcases htake : take (l - 128).toNat i with err | ⟨r, c⟩
    · rfl
    · obtain ⟨hlen, rfl⟩ := take_eq_ok_iff.1 htake
      simp only [Except.map, parseUint_toNat, lengthValue, if_neg hl, lengthOctets, ← hlen,
        List.take_left]

/-- The element at the front, by its header octets. -/
theorem parseElement_cons_eq_ok_iff {b l : UInt8} {i r c : List UInt8} {cls : TagClass}
    {struct : TagStructure} {id : UInt64} :
    parseElement (b :: l :: i) = .ok (r, cls, struct, id, c) ↔
      (cls, struct, id) = readType b ∧ lengthOctets l ≤ i.length ∧
        c.length = lengthValue l i ∧ i.drop (lengthOctets l) = c ++ r := by
  rw [parseElement, parseTypeHeader_cons]
  simp only [bind, Except.bind, parseLength_cons]
  rcases hk : take (lengthOctets l) i with err | ⟨i', bs⟩
  · have hlt := (take_eq_error_iff.1 hk).2
    simp only [Except.map, reduceCtorEq, false_iff, not_and]
    intro _ hle
    omega
  · obtain ⟨hbs, rfl⟩ := take_eq_ok_iff.1 hk
    have hdrop : (bs ++ i').drop (lengthOctets l) = i' := by rw [← hbs, List.drop_left]
    have hle : lengthOctets l ≤ (bs ++ i').length := by
      rw [List.length_append]
      omega
    simp only [Except.map, hdrop, hle, true_and]
    rw [← take_eq_ok_iff (r := r)]
    rcases take (lengthValue l (bs ++ i')) i' with err | ⟨r', c'⟩
    · simp
    · simp only [pure, Except.pure, Except.ok.injEq, Prod.mk.injEq]
      constructor
      · rintro ⟨rfl, rfl, rfl, rfl, rfl⟩
        exact ⟨rfl, rfl, rfl⟩
      · rintro ⟨hread, rfl, rfl⟩
        rw [← hread]
        exact ⟨rfl, rfl, rfl, rfl, rfl⟩

theorem parseElement_singleton (b : UInt8) : parseElement [b] = .error .incomplete := by
  rw [parseElement, parseTypeHeader_cons]
  rfl

/-! ### Reading content to its end -/

/-- The content reads as a sequence of elements. -/
def TagsOk (c : List UInt8) : Prop :=
  ∃ ts, parseTags c = .ok ts

theorem tagsOk_nil : TagsOk [] :=
  ⟨[], parseTags_nil⟩

/-- A tag is read when its element is and, in a constructed one, the content. -/
theorem parseTag_eq_ok_iff {x r : List UInt8} :
    (∃ t, parseTag x = .ok (r, t)) ↔
      ∃ cls struct id c, parseElement x = .ok (r, cls, struct, id, c) ∧
        (struct = .constructed → TagsOk c) := by
  rw [parseTag_eq]
  constructor
  · rintro ⟨t, h⟩
    obtain ⟨⟨r', cls, struct, id, c⟩, hel, h₁⟩ := bind_eq_ok.1 h
    obtain ⟨t', ht, h₂⟩ := bind_eq_ok.1 h₁
    cases h₂
    refine ⟨cls, struct, id, c, hel, ?_⟩
    rintro rfl
    obtain ⟨ts, hts, -⟩ := bind_eq_ok.1 ht
    exact ⟨ts, hts⟩
  · rintro ⟨cls, struct, id, c, hel, hc⟩
    rw [hel]
    cases struct with
    | primitive => exact ⟨_, rfl⟩
    | constructed =>
      obtain ⟨ts, hts⟩ := hc rfl
      exact ⟨_, by simp only [bind, Except.bind, elementTag, hts]; rfl⟩

theorem tagsOk_iff {x : List UInt8} (hne : x ≠ []) :
    TagsOk x ↔ ∃ r cls struct id c, parseElement x = .ok (r, cls, struct, id, c) ∧
      (struct = .constructed → TagsOk c) ∧ TagsOk r := by
  have hstep : TagsOk x ↔ ∃ r t, parseTag x = .ok (r, t) ∧ TagsOk r := by
    rw [TagsOk, parseTags_of_ne_nil hne]
    constructor
    · rintro ⟨ts, h⟩
      obtain ⟨⟨r, t⟩, htag, h₁⟩ := bind_eq_ok.1 h
      obtain ⟨ts', hrest, -⟩ := bind_eq_ok.1 h₁
      exact ⟨r, t, htag, ts', hrest⟩
    · rintro ⟨r, t, htag, ts', hrest⟩
      exact ⟨t :: ts', bind_eq_ok.2 ⟨_, htag, bind_eq_ok.2 ⟨_, hrest, rfl⟩⟩⟩
  rw [hstep]
  refine exists_congr fun r ↦ ?_
  rw [exists_and_right, parseTag_eq_ok_iff]
  constructor
  · rintro ⟨⟨cls, struct, id, c, hel, hc⟩, hr⟩
    exact ⟨cls, struct, id, c, hel, hc, hr⟩
  · rintro ⟨cls, struct, id, c, hel, hc, hr⟩
    exact ⟨⟨cls, struct, id, c, hel, hc⟩, hr⟩

/-- The first element of the content, by its header octets. -/
theorem tagsOk_cons_iff {b l : UInt8} {i : List UInt8} :
    TagsOk (b :: l :: i) ↔
      lengthOctets l ≤ i.length ∧ ∃ c r, i.drop (lengthOctets l) = c ++ r ∧
        c.length = lengthValue l i ∧ (IsConstructed b → TagsOk c) ∧ TagsOk r := by
  rw [tagsOk_iff (List.cons_ne_nil _ _)]
  simp only [parseElement_cons_eq_ok_iff]
  constructor
  · rintro ⟨r, cls, struct, id, c, ⟨hread, hle, hlen, hdrop⟩, hc, hr⟩
    refine ⟨hle, c, r, hdrop, hlen, ?_, hr⟩
    intro hb
    rw [IsConstructed, ← hread] at hb
    exact hc hb
  · rintro ⟨hle, c, r, hdrop, hlen, hc, hr⟩
    exact ⟨r, _, _, _, c, ⟨rfl, hle, hlen, hdrop⟩, hc, hr⟩

theorem not_tagsOk_singleton (b : UInt8) : ¬TagsOk [b] := by
  rw [tagsOk_iff (List.cons_ne_nil _ _), parseElement_singleton]
  simp

theorem length_ne_one_of_tagsOk {c : List UInt8} (h : TagsOk c) : c.length ≠ 1 := by
  intro hlen
  obtain ⟨b, rfl⟩ := List.length_eq_one_iff.1 hlen
  exact not_tagsOk_singleton b h

/-! ### Which contents can be completed -/

/-- The octets can be continued to a content of `room` octets. -/
def Fillable (room : ℕ) : List UInt8 → Prop
  | [] => room ≠ 1
  | [_] => 2 ≤ room
  | b :: l :: i =>
    let k := lengthOctets l
    if i.length < k then
      -- Cut inside the length: some length with the octets at hand fits what is left of the room.
      2 + k ≤ room ∧ BigEndian.value i * 256 ^ (k - i.length) % 2 ^ 64 ≤ room - (2 + k) ∧
        ¬(IsConstructed b ∧ room - (2 + k) = 1)
    else
      let v := lengthValue l i
      2 + k + v ≤ room ∧ (IsConstructed b → Fillable v ((i.drop k).take v)) ∧
        Fillable (room - (2 + k + v)) ((i.drop k).drop v)
termination_by c => c.length
decreasing_by
  all_goals simp only [List.length_take, List.length_drop, List.length_cons]; omega

/-- The octets can be continued to an element. -/
def Completable : List UInt8 → Prop
  | b :: l :: i =>
    lengthOctets l ≤ i.length → IsConstructed b →
      Fillable (lengthValue l i) ((i.drop (lengthOctets l)).take (lengthValue l i))
  | _ => True

/-! ### Filling a room -/

/-- Every number of octets but one is the size of some content. -/
theorem exists_tagsOk_of_ne_one {n : ℕ} (h : n ≠ 1) :
    ∃ e : List UInt8, e.length = n ∧ TagsOk e := by
  induction n using Nat.strong_induction_on with
  | _ n ih =>
    have hprim : ¬IsConstructed 4 := by decide
    rcases Nat.lt_or_ge n 4 with hlt | hge
    · interval_cases n
      · exact ⟨[], rfl, tagsOk_nil⟩
      · exact absurd rfl h
      · exact ⟨[4, 0], rfl, tagsOk_cons_iff.2
          ⟨Nat.le_refl 0, [], [], rfl, rfl, fun hb ↦ absurd hb hprim, tagsOk_nil⟩⟩
      · exact ⟨[4, 1, 0], rfl, tagsOk_cons_iff.2
          ⟨Nat.zero_le 1, [0], [], rfl, rfl, fun hb ↦ absurd hb hprim, tagsOk_nil⟩⟩
    · obtain ⟨e, hlen, he⟩ := ih (n - 2) (by omega) (by omega)
      refine ⟨4 :: 0 :: e, by simp only [List.length_cons]; omega, tagsOk_cons_iff.2
        ⟨Nat.zero_le _, [], e, rfl, rfl, fun hb ↦ absurd hb hprim, he⟩⟩

/-- One identifier octet leaves at least one length octet to come. -/
theorem exists_tagsOk_cons_iff {b : UInt8} {n : ℕ} :
    (∃ e : List UInt8, e.length = n ∧ TagsOk (b :: e)) ↔ 1 ≤ n := by
  constructor
  · rintro ⟨e, rfl, he⟩
    exact Nat.one_le_iff_ne_zero.2 fun h0 ↦ by
      rw [List.length_eq_zero_iff.1 h0] at he
      exact not_tagsOk_singleton b he
  · intro hn
    by_cases h2 : n = 2
    · -- A length of zero in the long form, since one octet could not be left over.
      refine ⟨[0x81, 0], h2.symm, tagsOk_cons_iff.2
        ⟨Nat.le_refl 1, [], [], rfl, rfl, fun _ ↦ tagsOk_nil, tagsOk_nil⟩⟩
    · obtain ⟨e, hlen, he⟩ := exists_tagsOk_of_ne_one (show n - 1 ≠ 1 by omega)
      exact ⟨0 :: e, by simp only [List.length_cons]; omega, tagsOk_cons_iff.2
        ⟨Nat.zero_le _, [], e, rfl, rfl, fun _ ↦ tagsOk_nil, he⟩⟩

/-! ### Lengths cut short -/

/-- Appending `m` octets to a number modulo the word: at least the padded number comes out, and
the two smallest results are it and its successor. -/
theorem pad_mod {a m : ℕ} (hm : 0 < m) :
    (a * 256 ^ m % 2 ^ 64 = 0 ∨ 256 ≤ a * 256 ^ m % 2 ^ 64) ∧
      (∀ x < 256 ^ m, a * 256 ^ m % 2 ^ 64 ≤ (a * 256 ^ m + x) % 2 ^ 64) ∧
      ∀ x ≤ 1, (a * 256 ^ m + x) % 2 ^ 64 = a * 256 ^ m % 2 ^ 64 + x := by
  have h1 : 256 ≤ 256 ^ m := Nat.le_self_pow hm.ne' 256
  rcases Nat.lt_or_ge 8 m with h8 | h8
  · -- The padding alone fills the word.
    obtain ⟨k, rfl⟩ := Nat.exists_eq_add_of_lt h8
    have hdvd : a * 256 ^ (8 + k + 1) = 2 ^ 64 * (a * 256 ^ (k + 1)) := by ring
    rw [hdvd]
    refine ⟨Or.inl (Nat.mul_mod_right _ _), fun x _ ↦ by simp, fun x hx ↦ ?_⟩
    rw [Nat.mul_add_mod, Nat.mul_mod_right, Nat.mod_eq_of_lt (by omega), Nat.zero_add]
  · obtain ⟨k, hk⟩ := Nat.exists_eq_add_of_le h8
    have hword : 2 ^ 64 = 256 ^ m * 256 ^ k := by
      rw [← Nat.pow_add, ← hk]
      norm_num
    have hmod : ∀ x < 256 ^ m, (a * 256 ^ m + x) % 2 ^ 64 = 256 ^ m * (a % 256 ^ k) + x := by
      intro x hx
      rw [hword, Nat.mod_mul, Nat.mul_comm a, Nat.mul_add_mod, Nat.mod_eq_of_lt hx,
        Nat.mul_add_div (by omega), Nat.div_eq_of_lt hx]
      simp only [Nat.add_zero]
      omega
    have hbase := hmod 0 (by omega)
    rw [Nat.add_zero, Nat.add_zero] at hbase
    rw [hbase]
    refine ⟨?_, fun x hx ↦ ?_, fun x hx ↦ ?_⟩
    · rcases Nat.eq_zero_or_pos (a % 256 ^ k) with h0 | hpos
      · exact Or.inl (by rw [h0, Nat.mul_zero])
      · exact Or.inr (Nat.le_trans h1 (Nat.le_mul_of_pos_right _ hpos))
    · rw [hmod x hx]
      exact Nat.le_add_right _ _
    · exact hmod x (by omega)

/-- The value of the length octets at hand continued by `q`. -/
theorem lengthValue_append_of_lt {l : UInt8} {i q : List UInt8} (h : i.length < lengthOctets l)
    (hq : lengthOctets l ≤ (i ++ q).length) :
    ∃ x < 256 ^ (lengthOctets l - i.length),
      lengthValue l (i ++ q) =
        (BigEndian.value i * 256 ^ (lengthOctets l - i.length) + x) % 2 ^ 64 := by
  have hl : ¬l < 128 := by
    intro hl
    rw [lengthOctets, if_pos hl] at h
    exact Nat.not_lt_zero _ h
  rw [List.length_append] at hq
  have hlen : (q.take (lengthOctets l - i.length)).length = lengthOctets l - i.length := by
    rw [List.length_take]
    omega
  refine ⟨BigEndian.value (q.take (lengthOctets l - i.length)), ?_, ?_⟩
  · have hlt := BigEndian.value_lt (q.take (lengthOctets l - i.length))
    rwa [hlen] at hlt
  · rw [lengthValue, if_neg hl, List.take_append, List.take_of_length_le (Nat.le_of_lt h),
      BigEndian.value_append, hlen]

/-- Completing a content cut inside a length. -/
theorem exists_tagsOk_of_cut {b l : UInt8} {i : List UInt8} {n : ℕ}
    (h : i.length < lengthOctets l) :
    (∃ e : List UInt8, (i ++ e).length = n ∧ TagsOk (b :: l :: (i ++ e))) ↔
      lengthOctets l ≤ n ∧
        BigEndian.value i * 256 ^ (lengthOctets l - i.length) % 2 ^ 64 ≤ n - lengthOctets l ∧
        ¬(IsConstructed b ∧ n - lengthOctets l = 1) := by
  obtain ⟨hgap, hmin, hnext⟩ :=
    pad_mod (a := BigEndian.value i) (m := lengthOctets l - i.length) (by omega)
  set base := BigEndian.value i * 256 ^ (lengthOctets l - i.length) % 2 ^ 64
  constructor
  · rintro ⟨e, rfl, he⟩
    obtain ⟨hle, c, r, hdrop, hlen, hc, hr⟩ := tagsOk_cons_iff.1 he
    obtain ⟨x, hx, hval⟩ := lengthValue_append_of_lt h hle
    have hge := hmin x hx
    rw [← hval, ← hlen] at hge
    have hroom := congrArg List.length hdrop
    simp only [List.length_drop, List.length_append] at hroom hle ⊢
    refine ⟨hle, by omega, ?_⟩
    rintro ⟨hb, h1⟩
    have hc1 := length_ne_one_of_tagsOk (hc hb)
    have hr1 := length_ne_one_of_tagsOk hr
    omega
  · rintro ⟨hle, hbase, hone⟩
    -- Take the smallest length, or the next one if a single octet would be left over.
    obtain ⟨x, hx, hxle, hxr, hxc⟩ : ∃ x ≤ 1, base + x ≤ n - lengthOctets l ∧
        n - lengthOctets l - (base + x) ≠ 1 ∧ (IsConstructed b → base + x ≠ 1) := by
      by_cases hgap1 : n - lengthOctets l - base = 1
      · exact ⟨1, Nat.le_refl 1, by omega, by omega, fun hb heq ↦ hone ⟨hb, by omega⟩⟩
      · exact ⟨0, Nat.zero_le 1, by omega, by omega, fun _ ↦ by omega⟩
    obtain ⟨c, hclen, hc⟩ : ∃ c : List UInt8, c.length = base + x ∧
        (IsConstructed b → TagsOk c) := by
      by_cases hv : base + x = 1
      · exact ⟨[0], hv.symm, fun hb ↦ absurd hv (hxc hb)⟩
      · obtain ⟨c, hclen, hc⟩ := exists_tagsOk_of_ne_one hv
        exact ⟨c, hclen, fun _ ↦ hc⟩
    obtain ⟨r, hrlen, hr⟩ := exists_tagsOk_of_ne_one hxr
    set q := BigEndian.octets (lengthOctets l - i.length) x with hq
    have hqlen : (i ++ q).length = lengthOctets l := by
      rw [List.length_append, hq, BigEndian.length_octets]
      omega
    have hval : lengthValue l (i ++ q ++ (c ++ r)) = base + x := by
      have hl : ¬l < 128 := by
        intro hl
        rw [lengthOctets, if_pos hl] at h
        exact Nat.not_lt_zero _ h
      have hxlt : x < 256 ^ (lengthOctets l - i.length) :=
        Nat.lt_of_lt_of_le (by omega)
          (Nat.le_self_pow (show lengthOctets l - i.length ≠ 0 by omega) 256)
      rw [lengthValue, if_neg hl, ← hqlen, List.take_left, BigEndian.value_append, hq,
        BigEndian.length_octets, BigEndian.value_octets_of_lt hxlt]
      exact hnext x hx
    refine ⟨q ++ (c ++ r), ?_, tagsOk_cons_iff.2 ?_⟩
    · simp only [← List.append_assoc, List.length_append] at hqlen ⊢
      omega
    · rw [← List.append_assoc, hval, ← hqlen]
      exact ⟨by simp, c, r, List.drop_left, hclen, hc, hr⟩

/-! ### The walks are exact -/

/-- A complete length field is not changed by what follows. -/
theorem lengthValue_append_of_le {l : UInt8} {i : List UInt8} (h : lengthOctets l ≤ i.length)
    (e : List UInt8) : lengthValue l (i ++ e) = lengthValue l i := by
  rw [lengthValue, lengthValue, List.take_append_of_le_length h]

/-- Splitting a continued list where the list itself may end. -/
theorem append_eq_take_append_drop (j e : List UInt8) (v : ℕ) :
    j ++ e = (j.take v ++ e.take (v - j.length)) ++ (j.drop v ++ e.drop (v - j.length)) := by
  rw [← List.take_append, ← List.drop_append, List.take_append_drop]

/-- Continuing the two parts of a list continues the list, as only the last part can be cut. -/
theorem take_append_drop_append {j e₁ : List UInt8} {v : ℕ} (h : (j.take v ++ e₁).length = v)
    (e₂ : List UInt8) : (j.take v ++ e₁) ++ (j.drop v ++ e₂) = j ++ (e₁ ++ e₂) := by
  rw [List.length_append, List.length_take] at h
  rcases Nat.le_total v j.length with hle | hle
  · have hnil : e₁ = [] := List.eq_nil_of_length_eq_zero (by omega)
    rw [hnil, List.append_nil, List.nil_append, ← List.append_assoc, List.take_append_drop]
  · rw [List.take_of_length_le hle, List.drop_of_length_le hle, List.nil_append,
      List.append_assoc]

/-- The content of an element with a complete header and what follows it are cut out of the octets
at hand and out of their continuation. -/
theorem drop_append_eq_iff {l : UInt8} {i e c r : List UInt8} (h : lengthOctets l ≤ i.length) :
    ((i ++ e).drop (lengthOctets l) = c ++ r ∧ c.length = lengthValue l (i ++ e)) ↔
      ∃ e₁ e₂, e = e₁ ++ e₂ ∧
        c = (i.drop (lengthOctets l)).take (lengthValue l i) ++ e₁ ∧
        r = (i.drop (lengthOctets l)).drop (lengthValue l i) ++ e₂ ∧
        c.length = lengthValue l i := by
  rw [lengthValue_append_of_le h, List.drop_append_of_le_length h]
  set j := i.drop (lengthOctets l)
  set v := lengthValue l i
  constructor
  · rintro ⟨hcr, hlen⟩
    have hroom := congrArg List.length hcr
    rw [List.length_append, List.length_append] at hroom
    rw [append_eq_take_append_drop j e v] at hcr
    obtain ⟨hc, hr⟩ := List.append_inj hcr (by
      rw [hlen]
      simp only [List.length_append, List.length_take]
      omega)
    exact ⟨_, _, (List.take_append_drop (v - j.length) e).symm, hc.symm, hr.symm, hlen⟩
  · rintro ⟨e₁, e₂, rfl, rfl, rfl, hlen⟩
    exact ⟨(take_append_drop_append hlen e₂).symm, hlen⟩

/-- The content of a primitive element can be anything of its length. -/
theorem exists_content_iff {b : UInt8} {c : List UInt8} {v : ℕ} (hle : c.length ≤ v) :
    (∃ e : List UInt8, (c ++ e).length = v ∧ (IsConstructed b → TagsOk (c ++ e))) ↔
      (IsConstructed b → ∃ e : List UInt8, (c ++ e).length = v ∧ TagsOk (c ++ e)) := by
  constructor
  · rintro ⟨e, hlen, hok⟩ hb
    exact ⟨e, hlen, hok hb⟩
  · intro h
    by_cases hb : IsConstructed b
    · obtain ⟨e, hlen, hok⟩ := h hb
      exact ⟨e, hlen, fun _ ↦ hok⟩
    · refine ⟨List.replicate (v - c.length) 0, ?_, fun h ↦ absurd h hb⟩
      rw [List.length_append, List.length_replicate]
      omega

/-- Completing a content with a complete header: its first element and the rest are completed. -/
theorem exists_tagsOk_of_header {b l : UInt8} {i : List UInt8} {n : ℕ}
    (h : lengthOctets l ≤ i.length) :
    (∃ e : List UInt8, (i ++ e).length = n ∧ TagsOk (b :: l :: (i ++ e))) ↔
      lengthOctets l + lengthValue l i ≤ n ∧
        (IsConstructed b → ∃ e : List UInt8,
          ((i.drop (lengthOctets l)).take (lengthValue l i) ++ e).length = lengthValue l i ∧
            TagsOk ((i.drop (lengthOctets l)).take (lengthValue l i) ++ e)) ∧
        ∃ e : List UInt8, ((i.drop (lengthOctets l)).drop (lengthValue l i) ++ e).length =
            n - (lengthOctets l + lengthValue l i) ∧
          TagsOk ((i.drop (lengthOctets l)).drop (lengthValue l i) ++ e) := by
  rw [← exists_content_iff (List.length_take_le _ _)]
  constructor
  · rintro ⟨e, hn, he⟩
    obtain ⟨hle, c, r, hdrop, hlen, hc, hr⟩ := tagsOk_cons_iff.1 he
    have hroom : (i ++ e).length = lengthOctets l + (c.length + r.length) := by
      rw [← List.length_append, ← hdrop, List.length_drop]
      omega
    obtain ⟨e₁, e₂, rfl, rfl, rfl, hv⟩ := (drop_append_eq_iff h).1 ⟨hdrop, hlen⟩
    exact ⟨by omega, ⟨e₁, hv, hc⟩, e₂, by omega, hr⟩
  · rintro ⟨hle, ⟨e₁, hv, hc⟩, e₂, hrest, hr⟩
    obtain ⟨hdrop, hlen⟩ := (drop_append_eq_iff h).2 ⟨e₁, e₂, rfl, rfl, rfl, hv⟩
    have hle' : lengthOctets l ≤ (i ++ (e₁ ++ e₂)).length := by
      rw [List.length_append]
      omega
    refine ⟨e₁ ++ e₂, ?_, tagsOk_cons_iff.2 ⟨hle', _, _, hdrop, hlen, hc, hr⟩⟩
    have hroom := congrArg List.length hdrop
    simp only [List.length_drop, List.length_append] at hroom hv hrest hle' ⊢
    omega

/-- **Which contents can be completed.** -/
theorem exists_tagsOk_iff {room : ℕ} {c : List UInt8} (hle : c.length ≤ room) :
    (∃ e : List UInt8, (c ++ e).length = room ∧ TagsOk (c ++ e)) ↔ Fillable room c := by
  induction hn : c.length using Nat.strong_induction_on generalizing room c with
  | _ n ih =>
    rcases c with - | ⟨b, - | ⟨l, i⟩⟩
    · rw [Fillable]
      refine ⟨?_, exists_tagsOk_of_ne_one⟩
      rintro ⟨e, rfl, he⟩
      exact length_ne_one_of_tagsOk he
    · rw [Fillable]
      have hone := exists_tagsOk_cons_iff (b := b) (n := room - 1)
      simp only [List.cons_append, List.nil_append, List.length_cons, List.length_nil] at hle ⊢
      constructor
      · rintro ⟨e, hlen, he⟩
        have hlt := hone.1 ⟨e, by omega, he⟩
        omega
      · intro h2
        obtain ⟨e, hlen, he⟩ := hone.2 (by omega)
        exact ⟨e, by omega, he⟩
    -- The header takes two octets of the room.
    rw [List.length_cons, List.length_cons] at hle hn
    have hroom : ∀ e : List UInt8,
        (b :: l :: i ++ e).length = room ↔ (i ++ e).length = room - 2 := by
      intro e
      simp only [List.cons_append, List.length_cons]
      omega
    rw [Fillable]
    simp only [hroom]
    by_cases hcut : i.length < lengthOctets l
    · rw [if_pos hcut]
      refine (exists_tagsOk_of_cut hcut).trans ?_
      rw [Nat.sub_sub]
      exact and_congr (by omega) Iff.rfl
    · rw [if_neg hcut]
      refine (exists_tagsOk_of_header (Nat.not_lt.1 hcut)).trans ?_
      rw [Nat.sub_sub, ← Nat.add_assoc]
      have htake := ih ((i.drop (lengthOctets l)).take (lengthValue l i)).length
        (by rw [List.length_take, List.length_drop]; omega) (List.length_take_le _ _) rfl
      refine and_congr (by omega) (and_congr (imp_congr_right fun _ ↦ htake) ?_)
      refine ih _ ?_ ?_ rfl <;> rw [List.length_drop, List.length_drop] <;> omega

/-- The first element of the buffer, by its header octets. -/
theorem exists_parseTag_cons_iff {b l : UInt8} {i : List UInt8} :
    (∃ r t, parseTag (b :: l :: i) = .ok (r, t)) ↔
      lengthOctets l ≤ i.length ∧ ∃ c r, i.drop (lengthOctets l) = c ++ r ∧
        c.length = lengthValue l i ∧ (IsConstructed b → TagsOk c) := by
  simp only [parseTag_eq_ok_iff, parseElement_cons_eq_ok_iff]
  constructor
  · rintro ⟨r, cls, struct, id, c, ⟨hread, hle, hlen, hdrop⟩, hc⟩
    refine ⟨hle, c, r, hdrop, hlen, fun hb ↦ ?_⟩
    rw [IsConstructed, ← hread] at hb
    exact hc hb
  · rintro ⟨hle, c, r, hdrop, hlen, hc⟩
    exact ⟨r, _, _, _, c, ⟨rfl, hle, hlen, hdrop⟩, hc⟩

/-- **Which buffers can be completed** to an element and whatever follows. -/
theorem exists_parse_ok_iff (b : List UInt8) :
    (∃ e r t, parse (b ++ e) = .ok (r, t)) ↔ Completable b := by
  rcases b with - | ⟨b, - | ⟨l, i⟩⟩
  · refine iff_of_true ⟨[4, 0], exists_parseTag_cons_iff.2
      ⟨Nat.le_refl 0, [], [], rfl, rfl, fun _ ↦ tagsOk_nil⟩⟩ trivial
  · refine iff_of_true ⟨[0], exists_parseTag_cons_iff.2
      ⟨Nat.le_refl 0, [], [], rfl, rfl, fun _ ↦ tagsOk_nil⟩⟩ trivial
  have hparse : ∀ e, (∃ r t, parse (b :: l :: i ++ e) = .ok (r, t)) ↔ _ := fun e ↦
    exists_parseTag_cons_iff (b := b) (l := l) (i := i ++ e)
  rw [exists_congr hparse, Completable]
  rcases Nat.lt_or_ge i.length (lengthOctets l) with hcut | hk
  · refine iff_of_true ?_ fun hle ↦ absurd hle (Nat.not_le.2 hcut)
    -- Give the element room for the length at hand and two octets to spare.
    obtain ⟨e, -, he⟩ := (exists_tagsOk_of_cut (b := b) (n := lengthOctets l +
      (BigEndian.value i * 256 ^ (lengthOctets l - i.length) % 2 ^ 64 + 2)) hcut).2
        ⟨by omega, by omega, fun h ↦ by omega⟩
    obtain ⟨hle, c, r, hdrop, hlen, hc, -⟩ := tagsOk_cons_iff.1 he
    exact ⟨e, hle, c, r, hdrop, hlen, hc⟩
  rw [← exists_tagsOk_iff (List.length_take_le _ _)]
  refine Iff.trans ?_ ((exists_content_iff (List.length_take_le _ _)).trans
    ⟨fun h _ ↦ h, fun h ↦ h hk⟩)
  constructor
  · rintro ⟨e, -, c, r, hdrop, hlen, hc⟩
    obtain ⟨e₁, e₂, -, rfl, -, hv⟩ := (drop_append_eq_iff hk).1 ⟨hdrop, hlen⟩
    exact ⟨e₁, hv, hc⟩
  · rintro ⟨e, hv, hc⟩
    obtain ⟨hdrop, hlen⟩ := (drop_append_eq_iff hk).2 ⟨e, [], rfl, rfl, rfl, hv⟩
    rw [List.append_nil] at hdrop hlen
    refine ⟨e, ?_, _, _, hdrop, hlen, hc⟩
    rw [List.length_append]
    omega

/-! ### The decoder -/

/-- The parser knows no other failure than a missing octet. -/
theorem parseTag_error {x : List UInt8} {err : Err} (h : parseTag x = .error err) :
    err = .incomplete := by
  induction hn : x.length using Nat.strong_induction_on generalizing x err with
  | _ n ih =>
    -- The loop over the content of a constructed element.
    have hloop : ∀ m, ∀ c : List UInt8, c.length ≤ m → c.length < n → ∀ err,
        parseTags c = .error err → err = .incomplete := by
      intro m
      induction m with
      | zero =>
        intro c hc _ err herr
        rw [List.length_eq_zero_iff.1 (Nat.le_zero.1 hc), parseTags_nil] at herr
        cases herr
      | succ m ihm =>
        intro c hc hlt err herr
        by_cases hne : c = []
        · rw [hne, parseTags_nil] at herr
          cases herr
        rw [parseTags_of_ne_nil hne] at herr
        rcases bind_eq_error.1 herr with htag | ⟨⟨r, t⟩, htag, h₁⟩
        · exact ih _ hlt htag rfl
        obtain ⟨w, hw, rfl⟩ := parseTag_eq_append htag
        rw [List.length_append] at hc hlt
        rcases bind_eq_error.1 h₁ with hrest | ⟨ts, -, h₂⟩
        · exact ihm r (by omega) (by omega) err hrest
        · cases h₂
    rw [parseTag_eq] at h
    rcases bind_eq_error.1 h with hel | ⟨⟨r, cls, struct, id, c⟩, hel, h₁⟩
    · exact parseElement_error hel
    rcases bind_eq_error.1 h₁ with hc | ⟨t, -, h₂⟩
    · obtain ⟨hd, hlen, rfl⟩ := parseElement_eq_append hel
      simp only [List.length_append] at hn
      cases struct with
      | primitive => cases hc
      | constructed =>
        rcases bind_eq_error.1 hc with hts | ⟨ts, -, h₃⟩
        · exact hloop c.length c (Nat.le_refl _) (by omega) err hts
        · cases h₃
    · cases h₂

/-- The decoder waits exactly while nothing can be parsed. -/
theorem decodeInner_eq_none_iff (b : List UInt8) :
    (decodeInner b).1 = .ok none ↔ ¬∃ r t, parse b = .ok (r, t) := by
  rcases hparse : parse b with err | ⟨r, t⟩
  · have herr : err = .incomplete := by
      rcases b with - | ⟨a, b⟩
      · exact (Except.error.inj hparse).symm
      · exact parseTag_error hparse
    rw [decodeInner, hparse, herr]
    simp
  · simp only [decodeInner, hparse]
    rcases decodeEnvelope t with err | d <;> simp [Functor.map, Except.map]

/-- **When malformed input stalls the decoder.** A buffer on which the decoder waits can be
continued to one on which it answers exactly when it is completable. -/
theorem exists_decodeInner_iff (b : List UInt8) :
    ((decodeInner b).1 = .ok none → ∃ e, (decodeInner (b ++ e)).1 ≠ .ok none) ↔
      Completable b := by
  rw [← exists_parse_ok_iff]
  simp only [ne_eq, decodeInner_eq_none_iff, not_not]
  constructor
  · intro h
    by_cases hb : ∃ r t, parse b = .ok (r, t)
    · exact ⟨[], by rwa [List.append_nil]⟩
    · exact h hb
  · exact fun h _ ↦ h

/-- An INTEGER that announces five octets of content in a SEQUENCE that has none left for it. -/
theorem decodeInner_stalls :
    ¬∀ b : List UInt8, (decodeInner b).1 = .ok none →
      ∃ e, (decodeInner (b ++ e)).1 ≠ .ok none := by
  intro h
  obtain ⟨e, he⟩ := h [0x30, 0x02, 0x02, 0x05] rfl
  rw [ne_eq, decodeInner_eq_none_iff, not_not] at he
  have hc : Fillable 2 [0x02, 0x05] :=
    (exists_parse_ok_iff [0x30, 0x02, 0x02, 0x05]).1 ⟨e, he⟩ (by decide) (by decide)
  rw [Fillable] at hc
  exact absurd hc.1 (by decide)

end Ldap3
