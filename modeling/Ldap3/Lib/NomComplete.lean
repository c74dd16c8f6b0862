import Ldap3.Lib.Nom

/-!
# Complete parsers

The part of nom's complete interface a text grammar rests on. A complete parser has all of its
input, so where a streaming one asks for more it fails with `error`, and another alternative may
be tried. The combinators are those of nom: `alt` takes the first alternative that does not fail
with `error`, `many0` repeats as long as there is no `error`, and neither looks back once an
alternative or a repetition has succeeded.

Such a parser is compared with a grammar, a relation between the words of a language and their
values. `Sound p R` says that what `p` consumes is a word of the grammar `R` and that the value is
the word's. The converse needs a condition on what follows the word, since the parsers are greedy;
it is stated for each combinator on its own (`tag_append`, `takeWhile_append`,
`many0_preceded_append`).
-/

namespace Nom

namespace Complete

/-- A parser of a list. -/
abbrev Parser (σ α : Type) := List σ → Except Err (List σ × α)

variable {α γ σ τ : Type}

/-! ### Combinators -/

/-- The given beginning of the input. -/
def tag [DecidableEq σ] (t : List σ) : Parser σ (List σ) := fun i ↦
  if t.isPrefixOf i then .ok (i.drop t.length, t) else .error .error

/-- The longest beginning of elements in the set. It may be empty, also where the input ends. -/
def takeWhile (f : σ → Bool) : Parser σ (List σ) := fun i ↦
  .ok (i.dropWhile f, i.takeWhile f)

/-- And it may not be empty. -/
def takeWhile1 (f : σ → Bool) : Parser σ (List σ) := fun i ↦
  if i.takeWhile f = [] then .error .error else .ok (i.dropWhile f, i.takeWhile f)

/-- One element; `be_u8` on octets. -/
def anyElem : Parser σ σ
  | [] => .error .error
  | c :: i => .ok (i, c)

def map (p : Parser σ α) (f : α → γ) : Parser σ γ := fun i ↦
  (p i).map fun x ↦ (x.1, f x.2)

/-- `map_res`; the error of the function is not kept. -/
def mapRes (p : Parser σ α) (f : α → Option γ) : Parser σ γ :=
  mapOpt p f

/-- A value that does not pass the test is an error. -/
def verify (p : Parser σ α) (f : α → Bool) : Parser σ α :=
  mapOpt p fun a ↦ if f a then some a else none

/-- An `error` is an absent value, and leaves the input. Another failure is returned. -/
def opt (p : Parser σ α) : Parser σ (Option α) := fun i ↦
  match p i with
  | .ok (r, a) => .ok (r, some a)
  | .error .error => .ok (i, none)
  | .error e => .error e

/-- The consumed input. -/
def recognize (p : Parser σ α) : Parser σ (List σ) := fun i ↦
  (p i).map fun x ↦ (x.1, i.take (i.length - x.1.length))

/-- The first alternative that does not fail with `error`. -/
def alt : List (Parser σ α) → Parser σ α
  | [], _ => .error .error
  | p :: ps, i =>
    match p i with
    | .error .error => alt ps i
    | x => x

/-- Only the second value is returned. -/
def preceded (p : Parser σ τ) (q : Parser σ α) : Parser σ α := fun i ↦ do
  let (i, _) ← p i
  q i

/-- Only the value between is returned. -/
def delimited (p : Parser σ τ) (q : Parser σ α) (s : Parser σ γ) : Parser σ α := fun i ↦ do
  let (i, _) ← p i
  let (i, a) ← q i
  let (i, _) ← s i
  return (i, a)

/-- The loop of `many0`. A parser that succeeds without consuming anything is an error. -/
def many0Loop (p : Parser σ α) : (fuel : ℕ) → Parser σ (List α)
  | 0, _ => .error .error
  | fuel + 1, i =>
    match p i with
    | .ok (r, a) => if r.length < i.length then map (many0Loop p fuel) (a :: ·) r else .error .error
    | .error .error => .ok (i, [])
    | .error e => .error e

/-- Each round consumes something, so the loop ends before the fuel does. -/
def many0 (p : Parser σ α) : Parser σ (List α) := fun i ↦
  many0Loop p (i.length + 1) i

/-- `many1`: the first `error` is returned, later ones end the repetition. -/
def many1 (p : Parser σ α) : Parser σ (List α) := fun i ↦ do
  let (i, a) ← p i
  map (many0 p) (a :: ·) i

/-- `fold_many0`. -/
def foldMany0 (p : Parser σ α) (init : γ) (g : γ → α → γ) : Parser σ γ :=
  map (many0 p) fun l ↦ l.foldl g init

/-! ### Parsers that agree

For a grammar whose parsers call each other in a circle: what a combinator answers on an input
depends only on what its parts answer on the inputs they are given. -/

/-- What is left is shorter by the tag. -/
theorem tag_length [DecidableEq σ] {t i r c : List σ} (h : tag t i = .ok (r, c)) :
    r.length + t.length = i.length := by
  rw [tag] at h
  split at h
  · rename_i hpre
    obtain ⟨rfl, rfl⟩ := Prod.mk.inj (Except.ok.inj h)
    have hle := (List.isPrefixOf_iff_prefix.1 hpre).length_le
    rw [List.length_drop]
    omega
  · cases h

theorem preceded_congr {s : Parser σ τ} {p q : Parser σ α} {i : List σ}
    (h : ∀ r t, s i = .ok (r, t) → p r = q r) : preceded s p i = preceded s q i := by
  rw [preceded, preceded]
  rcases hs : s i with e | ⟨r, t⟩
  · rfl
  · exact h r t hs

theorem delimited_congr {s : Parser σ τ} {p q : Parser σ α} {s' : Parser σ γ} {i : List σ}
    (h : ∀ r t, s i = .ok (r, t) → p r = q r) : delimited s p s' i = delimited s q s' i := by
  rw [delimited, delimited]
  rcases hs : s i with e | ⟨r, t⟩
  · rfl
  · show (p r >>= _) = (q r >>= _)
    rw [h r t hs]

/-- A repetition calls its parser on the input and on shorter ones. -/
theorem many0_congr {p q : Parser σ α} {i : List σ}
    (h : ∀ j, j.length ≤ i.length → p j = q j) : many0 p i = many0 q i := by
  have hloop : ∀ fuel (j : List σ), j.length ≤ i.length →
      many0Loop p fuel j = many0Loop q fuel j := by
    intro fuel
    induction fuel with
    | zero => exact fun _ _ ↦ rfl
    | succ fuel ih =>
      intro j hj
      rw [many0Loop, many0Loop, h j hj]
      rcases q j with (_ | _ | _) | ⟨r, a⟩
      · rfl
      · rfl
      · rfl
      · dsimp only
        split
        · rw [map, map, ih r (by omega)]
        · rfl
  exact hloop _ i le_rfl

/-- What is left follows the tag. -/
theorem tag_eq_ok [DecidableEq σ] {t i r c : List σ} (h : tag t i = .ok (r, c)) : i = t ++ r := by
  rw [tag] at h
  split at h
  · rename_i hpre
    obtain ⟨i', rfl⟩ := List.isPrefixOf_iff_prefix.1 hpre
    obtain ⟨rfl, -⟩ := Prod.mk.inj (Except.ok.inj h)
    rw [List.drop_left]
  · cases h

/-! ### Sound parsers -/

/-- What the parser consumes is a word of the grammar, with its value. -/
def Sound (p : Parser σ α) (R : List σ → α → Prop) : Prop :=
  ∀ i r a, p i = .ok (r, a) → ∃ w, i = w ++ r ∧ R w a

variable {p : Parser σ α} {q : Parser σ γ} {i r w : List σ} {a : α}

theorem map_eq_ok_iff {f : α → γ} {c : γ} :
    map p f i = .ok (r, c) ↔ ∃ a, p i = .ok (r, a) ∧ f a = c := by
  rw [map]
  rcases p i with e | ⟨r', a⟩ <;> simp [Except.map]

theorem mapRes_eq_ok_iff {f : α → Option γ} {c : γ} :
    mapRes p f i = .ok (r, c) ↔ ∃ a, p i = .ok (r, a) ∧ f a = some c := by
  rw [mapRes, mapOpt]
  rcases p i with e | ⟨r', a⟩
  · simp
  · rcases hf : f a with - | c' <;> simp [hf]

/-- The value is the one that passed. -/
theorem verify_eq_ok_iff {f : α → Bool} : verify p f i = .ok (r, a) ↔ p i = .ok (r, a) ∧ f a := by
  have h := mapRes_eq_ok_iff (p := p) (i := i) (r := r) (c := a)
    (f := fun a ↦ if f a then some a else none)
  rw [verify]
  refine h.trans ⟨?_, fun ⟨hp, hf⟩ ↦ ⟨a, hp, if_pos hf⟩⟩
  rintro ⟨a', hp, hf⟩
  split at hf
  · rename_i hf'
    obtain rfl := Option.some.inj hf
    exact ⟨hp, hf'⟩
  · cases hf

/-- What is between two given elements. -/
theorem delimited_tag_eq_ok_iff [DecidableEq σ] {c d : σ} :
    delimited (tag [c]) p (tag [d]) i = .ok (r, a) ↔ ∃ j, i = c :: j ∧ p j = .ok (d :: r, a) := by
  constructor
  · intro h
    obtain ⟨⟨i₁, t₁⟩, h₁, h⟩ := bind_eq_ok.1 h
    obtain ⟨⟨i₂, a'⟩, h₂, h⟩ := bind_eq_ok.1 h
    obtain ⟨⟨i₃, t₃⟩, h₃, h⟩ := bind_eq_ok.1 h
    obtain ⟨rfl, rfl⟩ := Prod.mk.inj (Except.ok.inj h)
    have hopen : i = c :: i₁ := tag_eq_ok h₁
    have hclose : i₂ = d :: i₃ := tag_eq_ok h₃
    exact ⟨i₁, hopen, hclose ▸ h₂⟩
  · rintro ⟨j, rfl, h⟩
    have hopen : tag [c] (c :: j) = .ok (j, [c]) := by simp [tag]
    have hclose : tag [d] (d :: r) = .ok (r, [d]) := by simp [tag]
    rw [delimited]
    simp only [hopen, h, hclose, bind, Except.bind, pure, Except.pure]

/-- One of the alternatives has succeeded. -/
theorem exists_of_alt {ps : List (Parser σ α)} (h : alt ps i = .ok (r, a)) :
    ∃ p ∈ ps, p i = .ok (r, a) := by
  induction ps with
  | nil => cases h
  | cons p ps ih =>
    rw [alt] at h
    split at h
    · obtain ⟨q, hq, hok⟩ := ih h
      exact ⟨q, List.mem_cons_of_mem _ hq, hok⟩
    · exact ⟨p, List.mem_cons_self, h⟩

namespace Sound

variable {R R' : List σ → α → Prop} {S : List σ → γ → Prop}

/-- A larger grammar. -/
theorem imp (hp : Sound p R) (h : ∀ w a, R w a → R' w a) : Sound p R' := by
  intro i r a hok
  obtain ⟨w, hw, hR⟩ := hp _ _ _ hok
  exact ⟨w, hw, h w a hR⟩

theorem map (hp : Sound p R) {f : α → γ} (h : ∀ w a, R w a → S w (f a)) :
    Sound (Complete.map p f) S := by
  intro i r c hok
  obtain ⟨a, hi, rfl⟩ := map_eq_ok_iff.1 hok
  obtain ⟨w, hw, hR⟩ := hp _ _ _ hi
  exact ⟨w, hw, h w a hR⟩

theorem mapRes (hp : Sound p R) {f : α → Option γ} (h : ∀ w a c, R w a → f a = some c → S w c) :
    Sound (Complete.mapRes p f) S := by
  intro i r c hok
  obtain ⟨a, hok, hf⟩ := mapRes_eq_ok_iff.1 hok
  obtain ⟨w, hw, hR⟩ := hp _ _ _ hok
  exact ⟨w, hw, h w a c hR hf⟩

theorem verify (hp : Sound p R) {f : α → Bool} :
    Sound (Complete.verify p f) fun w a ↦ R w a ∧ f a := by
  intro i r a hok
  obtain ⟨hok, hf⟩ := verify_eq_ok_iff.1 hok
  obtain ⟨w, hw, hR⟩ := hp _ _ _ hok
  exact ⟨w, hw, hR, hf⟩

/-- Running one parser after another. -/
theorem andThen {s : α → Parser σ γ} {S : α → List σ → γ → Prop} (hp : Sound p R)
    (hs : ∀ a, Sound (s a) (S a)) : Sound (fun i ↦ p i >>= fun x ↦ s x.2 x.1)
      fun w c ↦ ∃ w₁ w₂ a, w = w₁ ++ w₂ ∧ R w₁ a ∧ S a w₂ c := by
  intro i r c hok
  obtain ⟨⟨r', a⟩, hi, hr⟩ := bind_eq_ok.1 hok
  obtain ⟨w₁, rfl, hR⟩ := hp _ _ _ hi
  obtain ⟨w₂, rfl, hS⟩ := hs a _ _ _ hr
  exact ⟨w₁ ++ w₂, by rw [List.append_assoc], w₁, w₂, a, rfl, hR, hS⟩

/-- A word is the two words, one after the other. -/
theorem preceded {q : Parser σ α} {s : Parser σ γ} {T : List σ → γ → Prop} (hs : Sound s T)
    (hq : Sound q R) : Sound (Complete.preceded s q)
      fun w a ↦ ∃ w₁ w₂ c, w = w₁ ++ w₂ ∧ T w₁ c ∧ R w₂ a :=
  hs.andThen fun _ ↦ hq

theorem alt {ps : List (Parser σ α)} (h : ∀ p ∈ ps, Sound p R) : Sound (Complete.alt ps) R := by
  intro i r a hok
  obtain ⟨p, hp, hok⟩ := exists_of_alt hok
  exact h p hp _ _ _ hok

/-- The empty word is the absent value. -/
theorem opt (hp : Sound p R) : Sound (Complete.opt p) fun w o ↦
    (w = [] ∧ o = none) ∨ ∃ a, o = some a ∧ R w a := by
  intro i r o hok
  rw [Complete.opt] at hok
  split at hok
  · rename_i r' a hi
    obtain ⟨rfl, rfl⟩ := Prod.mk.inj (Except.ok.inj hok)
    obtain ⟨w, hw, hR⟩ := hp _ _ _ hi
    exact ⟨w, hw, Or.inr ⟨a, rfl, hR⟩⟩
  · obtain ⟨rfl, rfl⟩ := Prod.mk.inj (Except.ok.inj hok)
    exact ⟨[], rfl, Or.inl ⟨rfl, rfl⟩⟩
  · cases hok

/-- The words of a grammar without values. -/
theorem recognize {S : List σ → Prop} (hp : Sound p fun w _ ↦ S w) :
    Sound (Complete.recognize p) fun w c ↦ S w ∧ c = w := by
  intro i r c hok
  rw [Complete.recognize] at hok
  rcases hi : p i with e | ⟨r', a⟩
  · rw [hi] at hok
    cases hok
  · rw [hi] at hok
    obtain ⟨rfl, rfl⟩ := Prod.mk.inj (Except.ok.inj hok)
    obtain ⟨w, rfl, hR⟩ := hp _ _ _ hi
    refine ⟨w, rfl, hR, ?_⟩
    simp

/-- A word is the words of the elements, one after the other. -/
theorem many0 (hp : Sound p R) : Sound (Complete.many0 p) fun w l ↦
    ∃ ws, w = ws.flatten ∧ List.Forall₂ R ws l := by
  have hloop : ∀ fuel, Sound (many0Loop p fuel) fun w l ↦
      ∃ ws, w = ws.flatten ∧ List.Forall₂ R ws l := by
    intro fuel
    induction fuel with
    | zero => exact fun _ _ _ hok ↦ nomatch hok
    | succ fuel ih =>
      intro i r l hok
      rw [many0Loop] at hok
      split at hok
      · rename_i r' a hi
        split at hok
        · obtain ⟨as, hr, rfl⟩ := map_eq_ok_iff.1 hok
          obtain ⟨w, rfl, hR⟩ := hp _ _ _ hi
          obtain ⟨w', rfl, ws, rfl, hall⟩ := ih _ _ _ hr
          exact ⟨w ++ ws.flatten, by rw [List.append_assoc], w :: ws, by simp, .cons hR hall⟩
        · cases hok
      · obtain ⟨rfl, rfl⟩ := Prod.mk.inj (Except.ok.inj hok)
        exact ⟨[], rfl, [], rfl, .nil⟩
      · cases hok
  exact fun i r l hok ↦ hloop _ i r l hok

end Sound

theorem sound_tag [DecidableEq σ] (t : List σ) : Sound (tag t) fun w c ↦ w = t ∧ c = t := by
  intro i r c hok
  rw [tag] at hok
  split at hok
  · rename_i hpre
    obtain ⟨i', rfl⟩ := List.isPrefixOf_iff_prefix.1 hpre
    obtain ⟨rfl, rfl⟩ := Prod.mk.inj (Except.ok.inj hok)
    exact ⟨t, by simp, rfl, rfl⟩
  · cases hok

theorem sound_takeWhile (f : σ → Bool) : Sound (takeWhile f) fun w c ↦ c = w ∧ ∀ x ∈ w, f x := by
  intro i r c hok
  obtain ⟨rfl, rfl⟩ := Prod.mk.inj (Except.ok.inj hok)
  exact ⟨i.takeWhile f, List.takeWhile_append_dropWhile.symm, rfl,
    List.all_eq_true.1 List.all_takeWhile⟩

theorem sound_takeWhile1 (f : σ → Bool) :
    Sound (takeWhile1 f) fun w c ↦ c = w ∧ w ≠ [] ∧ ∀ x ∈ w, f x := by
  intro i r c hok
  rw [takeWhile1] at hok
  split at hok
  · cases hok
  · rename_i hne
    obtain ⟨rfl, rfl⟩ := Prod.mk.inj (Except.ok.inj hok)
    exact ⟨i.takeWhile f, List.takeWhile_append_dropWhile.symm, rfl, hne,
      List.all_eq_true.1 List.all_takeWhile⟩

/-- Repetition after a separator. -/
theorem Sound.many0_preceded [DecidableEq σ] {R : List σ → α → Prop} {c : σ} (hp : Sound p R) :
    Sound (Complete.many0 (Complete.preceded (tag [c]) p)) fun w l ↦
      ∃ ws, w = (ws.map (c :: ·)).flatten ∧ List.Forall₂ R ws l := by
  refine ((sound_tag [c]).preceded hp).many0.imp ?_
  rintro w l ⟨ws, rfl, hall⟩
  induction hall with
  | nil => exact ⟨[], rfl, .nil⟩
  | cons h _ ih =>
    obtain ⟨w₁, w₂, c', rfl, ⟨rfl, -⟩, hR⟩ := h
    obtain ⟨ws', hws', hall⟩ := ih
    exact ⟨w₂ :: ws', by rw [List.flatten_cons, hws']; rfl, .cons hR hall⟩

theorem sound_anyElem : Sound (anyElem : Parser σ σ) fun w c ↦ w = [c] := by
  intro i r c hok
  cases i with
  | nil => cases hok
  | cons x i =>
    obtain ⟨rfl, rfl⟩ := Prod.mk.inj (Except.ok.inj hok)
    exact ⟨[x], rfl, rfl⟩

/-! ### Words of the grammar are parsed -/

/-- The input does not begin with an element of the set. -/
def NotAhead (f : σ → Bool) (r : List σ) : Prop :=
  ∀ c ∈ r.head?, f c = false

theorem notAhead_nil {f : σ → Bool} : NotAhead f [] :=
  fun _ h ↦ nomatch h

theorem notAhead_cons {f : σ → Bool} {c : σ} {r : List σ} : NotAhead f (c :: r) ↔ f c = false := by
  simp [NotAhead]

theorem NotAhead.imp {f g : σ → Bool} {r : List σ} (h : NotAhead f r)
    (hfg : ∀ c, f c = false → g c = false) : NotAhead g r :=
  fun c hc ↦ hfg c (h c hc)

/-- What begins with a separator or is the rest. -/
theorem NotAhead.separated {f : σ → Bool} {c : σ} {ws : List (List σ)} {r : List σ}
    (h : NotAhead f r) (hc : f c = false) : NotAhead f ((ws.map (c :: ·)).flatten ++ r) := by
  cases ws with
  | nil => exact h
  | cons w ws => exact notAhead_cons.2 hc

/-- The tag ahead of any input is read. -/
theorem tag_append [DecidableEq σ] (t r : List σ) : tag t (t ++ r) = .ok (r, t) := by
  have hpre : t.isPrefixOf (t ++ r) := List.isPrefixOf_iff_prefix.2 (List.prefix_append t r)
  rw [tag, if_pos hpre, List.drop_left]

/-- A tag fails at its first element. -/
theorem tag_cons_of_ne [DecidableEq σ] {c x : σ} {t i : List σ} (h : c ≠ x) :
    tag (c :: t) (x :: i) = .error .error := by
  rw [tag, if_neg]
  rw [List.isPrefixOf_iff_prefix]
  rintro ⟨l, hl⟩
  exact h (List.cons.inj hl).1

theorem tag_cons_of_notAhead [DecidableEq σ] {c : σ} {t i : List σ}
    (h : NotAhead (fun x ↦ x = c) i) : tag (c :: t) i = .error .error := by
  cases i with
  | nil => rfl
  | cons x i =>
    refine tag_cons_of_ne fun hcx ↦ ?_
    have hx := h x rfl
    simp [hcx] at hx

/-- A word of elements in the set is cut off where the next element is not in it. -/
theorem takeWhile_dropWhile_append {f : σ → Bool} (hw : ∀ x ∈ w, f x) (hr : NotAhead f r) :
    (w ++ r).takeWhile f = w ∧ (w ++ r).dropWhile f = r := by
  induction w with
  | nil =>
    cases r with
    | nil => exact ⟨rfl, rfl⟩
    | cons c r =>
      have hc : f c = false := hr c rfl
      simp [hc]
  | cons x w ih =>
    obtain ⟨htake, hdrop⟩ := ih fun y hy ↦ hw y (List.mem_cons_of_mem _ hy)
    have hx : f x = true := hw x List.mem_cons_self
    simp [hx, htake, hdrop]

/-- So it is read whole. -/
theorem takeWhile_append {f : σ → Bool} (hw : ∀ x ∈ w, f x) (hr : NotAhead f r) :
    takeWhile f (w ++ r) = .ok (r, w) := by
  obtain ⟨htake, hdrop⟩ := takeWhile_dropWhile_append hw hr
  rw [takeWhile, htake, hdrop]

theorem takeWhile1_append {f : σ → Bool} (hne : w ≠ []) (hw : ∀ x ∈ w, f x) (hr : NotAhead f r) :
    takeWhile1 f (w ++ r) = .ok (r, w) := by
  obtain ⟨htake, hdrop⟩ := takeWhile_dropWhile_append hw hr
  rw [takeWhile1, htake, hdrop, if_neg hne]

theorem takeWhile1_of_notAhead {f : σ → Bool} (hr : NotAhead f r) :
    takeWhile1 f r = .error .error := by
  have htake := (takeWhile_dropWhile_append (w := []) (fun _ h ↦ nomatch h) hr).1
  rw [List.nil_append] at htake
  rw [takeWhile1, if_pos htake]

theorem map_of_ok {f : α → γ} (h : p i = .ok (r, a)) : map p f i = .ok (r, f a) := by
  rw [map, h]
  rfl

theorem map_of_error {f : α → γ} {e : Err} (h : p i = .error e) : map p f i = .error e := by
  rw [map, h]
  rfl

/-- What is consumed is the word, whatever the value is. -/
theorem recognize_append (h : p (w ++ r) = .ok (r, a)) : recognize p (w ++ r) = .ok (r, w) := by
  rw [recognize, h]
  simp [Except.map]

theorem preceded_of_ok {s : Parser σ τ} {q : Parser σ α} {i' : List σ} {t : τ}
    (hs : s i = .ok (i', t)) : preceded s q i = q i' := by
  rw [preceded, hs]
  rfl

theorem preceded_of_error {s : Parser σ τ} {q : Parser σ α} {e : Err}
    (hs : s i = .error e) : preceded s q i = .error e := by
  rw [preceded, hs]
  rfl

/-- An alternative that succeeds is not looked back from. -/
theorem alt_of_ok {ps : List (Parser σ α)} (h : p i = .ok (r, a)) :
    alt (p :: ps) i = .ok (r, a) := by
  rw [alt, h]

/-- Only one that fails with `error` lets the next one try. -/
theorem alt_of_error {ps : List (Parser σ α)} (h : p i = .error .error) :
    alt (p :: ps) i = alt ps i := by
  rw [alt, h]

/-- The last alternative answers for all. -/
theorem alt_singleton : alt [p] i = p i := by
  rw [alt]
  rcases p i with (_ | _ | _) | x <;> rfl

theorem opt_of_ok (h : p i = .ok (r, a)) : opt p i = .ok (r, some a) := by
  rw [opt, h]

/-- The input is the same as before. -/
theorem opt_of_error (h : p i = .error .error) : opt p i = .ok (i, none) := by
  rw [opt, h]

theorem tag_of_not_prefixed [DecidableEq σ] {t : List σ} (h : ¬t <+: i) :
    tag t i = .error .error :=
  if_neg fun hpre ↦ h (List.isPrefixOf_iff_prefix.1 hpre)

/-! ### Repetition -/

/-- Fuel that exceeds the length of the input is never used up. -/
theorem many0Loop_congr {n m : ℕ} (hn : i.length < n) (hm : i.length < m) :
    many0Loop p n i = many0Loop p m i := by
  induction n generalizing i m with
  | zero => omega
  | succ n ih =>
    cases m with
    | zero => omega
    | succ m =>
      rw [many0Loop, many0Loop]
      rcases p i with (_ | _ | _) | ⟨r, a⟩
      · rfl
      · rfl
      · rfl
      · dsimp only
        split
        · rw [map, map, ih (i := r) (m := m) (by omega) (by omega)]
        · rfl

/-- `many0` as nom runs it: one more repetition, or the end at the first `error`. -/
theorem many0_eq : many0 p i =
    match p i with
    | .ok (r, a) => if r.length < i.length then map (many0 p) (a :: ·) r else .error .error
    | .error .error => .ok (i, [])
    | .error e => .error e := by
  rw [many0, many0Loop]
  rcases p i with (_ | _ | _) | ⟨r, a⟩
  · rfl
  · rfl
  · rfl
  · dsimp only
    split
    · rename_i hlt
      rw [map, map, many0, many0Loop_congr hlt (Nat.lt_succ_self _)]
    · rfl

/-- No repetition. -/
theorem many0_nil_iff : many0 p i = .ok (r, []) ↔ r = i ∧ p i = .error .error := by
  rw [many0_eq]
  constructor
  · intro h
    split at h
    · split at h
      · obtain ⟨l, -, hl⟩ := map_eq_ok_iff.1 h
        cases hl
      · cases h
    · rename_i hp
      exact ⟨(Prod.mk.inj (Except.ok.inj h)).1.symm, hp⟩
    · cases h
  · rintro ⟨rfl, hp⟩
    rw [hp]

/-- One repetition, and what follows. -/
theorem many0_cons_iff {l : List α} : many0 p i = .ok (r, a :: l) ↔
    ∃ i', p i = .ok (i', a) ∧ i'.length < i.length ∧ many0 p i' = .ok (r, l) := by
  rw [many0_eq]
  constructor
  · intro h
    split at h
    · rename_i i' a' hp
      split at h
      · rename_i hlt
        obtain ⟨l', hrest, hl⟩ := map_eq_ok_iff.1 h
        obtain ⟨rfl, rfl⟩ := List.cons.inj hl
        exact ⟨i', hp, hlt, hrest⟩
      · cases h
    · cases h
    · cases h
  · rintro ⟨i', hp, hlt, hrest⟩
    rw [hp]
    dsimp only
    rw [if_pos hlt]
    exact map_of_ok hrest

/-- The repetition ends where its parser fails. -/
theorem many0_of_error (h : p i = .error .error) : many0 p i = .ok (i, []) :=
  many0_nil_iff.2 ⟨rfl, h⟩

/-- One more element, if it consumed something. -/
theorem many0_cons {l : List α} {i' : List σ} (h : p i = .ok (i', a)) (hlt : i'.length < i.length)
    (hl : many0 p i' = .ok (r, l)) : many0 p i = .ok (r, a :: l) :=
  many0_cons_iff.2 ⟨i', h, hlt, hl⟩

/-- At least one repetition. -/
theorem many1_eq_ok_iff {l : List α} (hp : ∀ i' a', p i = .ok (i', a') → i'.length < i.length) :
    many1 p i = .ok (r, l) ↔ many0 p i = .ok (r, l) ∧ l ≠ [] := by
  constructor
  · intro h
    obtain ⟨⟨i', a⟩, hi, h⟩ := bind_eq_ok.1 h
    obtain ⟨l', hrest, rfl⟩ := map_eq_ok_iff.1 h
    exact ⟨many0_cons hi (hp i' a hi) hrest, List.cons_ne_nil a l'⟩
  · rintro ⟨h, hne⟩
    obtain ⟨a, l', rfl⟩ := List.exists_cons_of_ne_nil hne
    obtain ⟨i', hi, -, hrest⟩ := many0_cons_iff.1 h
    exact bind_eq_ok.2 ⟨(i', a), hi, map_of_ok hrest⟩

/-- What holds of one element holds of all. -/
theorem forall_of_many0 {Q : α → Prop} {l : List α} (hp : ∀ j s a, p j = .ok (s, a) → Q a)
    (h : many0 p i = .ok (r, l)) : ∀ a ∈ l, Q a := by
  induction l generalizing i with
  | nil => exact fun _ ha ↦ nomatch ha
  | cons a l ih =>
    obtain ⟨i', hi, -, hrest⟩ := many0_cons_iff.1 h
    exact List.forall_mem_cons.2 ⟨hp _ _ a hi, ih hrest⟩

/-- Two parsers repeat alike if they read the same elements and the second does not begin where
the first repetition ends. -/
theorem many0_mono {q : Parser σ α} {l : List α}
    (hpq : ∀ j s a, a ∈ l → p j = .ok (s, a) → q j = .ok (s, a)) (h : many0 p i = .ok (r, l))
    (hstop : q r = .error .error) : many0 q i = .ok (r, l) := by
  induction l generalizing i with
  | nil =>
    obtain ⟨rfl, -⟩ := many0_nil_iff.1 h
    exact many0_of_error hstop
  | cons a l ih =>
    obtain ⟨i', hi, hlt, hrest⟩ := many0_cons_iff.1 h
    exact many0_cons (hpq _ _ a List.mem_cons_self hi) hlt
      (ih (fun j s b hb ↦ hpq j s b (List.mem_cons_of_mem a hb)) hrest)

/-- Repetition of single elements. -/
theorem many0_verify_anyElem {f : σ → Bool} : many0 (verify anyElem f) = takeWhile f := by
  funext i
  induction i with
  | nil => rfl
  | cons c i ih =>
    rw [takeWhile] at ih ⊢
    rcases hc : f c with - | -
    · rw [List.takeWhile_cons, List.dropWhile_cons, hc]
      refine many0_of_error ?_
      simp [verify, mapOpt, anyElem, hc]
    · rw [List.takeWhile_cons, List.dropWhile_cons, hc]
      have hfirst : verify anyElem f (c :: i) = .ok (i, c) := verify_eq_ok_iff.2 ⟨rfl, hc⟩
      exact many0_cons hfirst (Nat.lt_succ_self _) ih

/-- Words that each follow a separator are parsed if each of them is whenever nothing of `f` is
ahead, and neither that nor a separator is after the last. -/
theorem many0_preceded_append [DecidableEq σ] {R : List σ → α → Prop} {f : σ → Bool} {c : σ}
    {ws : List (List σ)} {l : List α}
    (hp : ∀ w a r, R w a → NotAhead f r → p (w ++ r) = .ok (r, a)) (hc : f c = false)
    (hws : List.Forall₂ R ws l) (hr : NotAhead f r) (hstop : NotAhead (fun x ↦ x = c) r) :
    many0 (preceded (tag [c]) p) ((ws.map (c :: ·)).flatten ++ r) = .ok (r, l) := by
  induction hws with
  | nil => exact many0_of_error (preceded_of_error (tag_cons_of_notAhead hstop))
  | @cons w a ws l hw hws ih =>
    rw [List.map_cons, List.flatten_cons, List.append_assoc]
    refine many0_cons ?_ ?_ ih
    · refine (preceded_of_ok (tag_append [c] _)).trans ?_
      exact hp w a _ hw (hr.separated hc)
    · simp only [List.length_append, List.length_cons]
      omega

end Complete

end Nom
