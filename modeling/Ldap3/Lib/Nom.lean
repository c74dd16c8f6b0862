import Mathlib.Data.List.Basic
import Mathlib.Tactic.Positivity

/-!
# Streaming parsers

The part of nom's streaming interface a binary decoder rests on: the result type, the
primitives `take`, `beU8` and the bit-level `Bits.take`, and the one law that makes them
usable on a growing buffer.

A parser is a function from the input `ι` to `Except Err (ι × α)`, nom's `IResult`: the rest of
the input and a value, or an `Err`. Of nom's `Err` only the constructor is kept. The amount of
missing input and the place of an error are carried by nom for messages, and no caller modelled on
this library reads them.

**The law.** `Streaming p` says that a conclusive answer is final: once `p` answers anything
but `incomplete`, more input only lengthens the rest. It composes (`Streaming.andThen`), and it
is all that framing needs: a parser that reads a whole message exactly answers `incomplete` on
every proper beginning of it (`Streaming.incomplete_of_append`).
-/

namespace Nom

variable {α γ ι σ : Type}

/-- Why a parser gave no value. -/
inductive Err where
  /-- More input is needed to decide. -/
  | incomplete
  /-- The input does not match; an alternative may. -/
  | error
  /-- The input does not match, and no alternative is to be tried. -/
  | failure
  deriving DecidableEq, Repr

theorem bind_eq_ok {ε : Type} {x : Except ε α} {f : α → Except ε γ} {c : γ} :
    x >>= f = .ok c ↔ ∃ a, x = .ok a ∧ f a = .ok c := by
  cases x <;> simp [bind, Except.bind]

theorem bind_eq_error {ε : Type} {x : Except ε α} {f : α → Except ε γ} {e : ε} :
    x >>= f = .error e ↔ x = .error e ∨ ∃ a, x = .ok a ∧ f a = .error e := by
  cases x <;> simp [bind, Except.bind]

/-! ### Primitives -/

/-- Split off the first `n` elements; `incomplete` if there are fewer. -/
def take (n : ℕ) (i : List σ) : Except Err (List σ × List σ) :=
  if i.length < n then .error .incomplete else .ok (i.drop n, i.take n)

/-- One octet. -/
def beU8 : List UInt8 → Except Err (List UInt8 × UInt8)
  | [] => .error .incomplete
  | b :: i => .ok (i, b)

/-- Convert the value of a parser, failing where the conversion does. -/
def mapOpt (p : ι → Except Err (ι × α)) (f : α → Option γ) (i : ι) : Except Err (ι × γ) :=
  match p i with
  | .ok (r, a) =>
    match f a with
    | some c => .ok (r, c)
    | none => .error .error
  | .error e => .error e

theorem take_eq_ok_iff {n : ℕ} {i r c : List σ} :
    take n i = .ok (r, c) ↔ c.length = n ∧ i = c ++ r := by
  unfold take
  split
  · constructor
    · simp
    · rintro ⟨rfl, rfl⟩
      simp only [List.length_append] at *
      omega
  · constructor
    · intro h
      obtain ⟨rfl, rfl⟩ := Prod.mk.inj (Except.ok.inj h)
      exact ⟨by simp; omega, by simp⟩
    · rintro ⟨rfl, rfl⟩
      simp

theorem take_append {n : ℕ} {c : List σ} (h : c.length = n) (r : List σ) :
    take n (c ++ r) = .ok (r, c) :=
  take_eq_ok_iff.2 ⟨h, rfl⟩

theorem take_eq_error_iff {n : ℕ} {i : List σ} {e : Err} :
    take n i = .error e ↔ e = .incomplete ∧ i.length < n := by
  unfold take
  split <;> simp [*, eq_comm]

/-! ### Bit-level input -/

namespace Bits

/-- Octets together with the number of bits of the first one already consumed. -/
abbrev Input := List UInt8 × ℕ

/-- The loop of `take`: `count` more bits, most significant first, added to `acc`. -/
def takeLoop : List UInt8 → (offset count acc : ℕ) → Except Err (Input × ℕ)
  | i, offset, 0, acc => .ok ((i, offset), acc)
  | [], _, _ + 1, _ => .error .incomplete
  | b :: i, offset, count + 1, acc =>
    let avail := 8 - offset
    let val := b.toNat % 2 ^ avail
    if count + 1 < avail then
      .ok ((b :: i, offset + (count + 1)), acc + val / 2 ^ (avail - (count + 1)))
    else
      takeLoop i 0 (count + 1 - avail) (acc + val * 2 ^ (count + 1 - avail))

/-- The next `count` bits as a number. -/
def take (count : ℕ) (i : Input) : Except Err (Input × ℕ) :=
  takeLoop i.1 i.2 count 0

/-- Bits that stop short of the end of an octet. -/
theorem take_of_lt {b : UInt8} {i : List UInt8} {offset count : ℕ} (h : offset + count < 8) :
    take count (b :: i, offset) =
      .ok ((b :: i, offset + count), b.toNat % 2 ^ (8 - offset) / 2 ^ (8 - offset - count)) := by
  cases count with
  | zero =>
    have hlt : b.toNat % 2 ^ (8 - offset) < 2 ^ (8 - offset) := Nat.mod_lt _ (by positivity)
    simp [take, takeLoop, Nat.div_eq_of_lt hlt]
  | succ count =>
    simp only [take, takeLoop]
    rw [if_pos (by omega), Nat.zero_add]

/-- Bits up to the end of an octet. -/
theorem take_of_eq {b : UInt8} {i : List UInt8} {offset count : ℕ} (h : offset + count = 8)
    (hpos : 0 < count) :
    take count (b :: i, offset) = .ok ((i, 0), b.toNat % 2 ^ (8 - offset)) := by
  obtain ⟨count, rfl⟩ := Nat.exists_eq_succ_of_ne_zero hpos.ne'
  have hdone : count + 1 - (8 - offset) = 0 := by omega
  simp only [take, takeLoop]
  rw [if_neg (by omega), hdone, takeLoop]
  simp

end Bits

/-- Run a bit-level parser on octets, dropping what is left of a started octet. -/
def bits (p : Bits.Input → Except Err (Bits.Input × α)) (i : List UInt8) :
    Except Err (List UInt8 × α) :=
  match p (i, 0) with
  | .ok ((r, offset), a) => .ok (r.drop ((offset + 7) / 8), a)
  | .error e => .error e

/-! ### Conclusive answers are final -/

/-- An answer other than `incomplete` stays the same when input is appended, up to the longer
rest. -/
def Streaming (p : List σ → Except Err (List σ × α)) : Prop :=
  ∀ i e, p i ≠ .error .incomplete → p (i ++ e) = (p i).map fun x ↦ (x.1 ++ e, x.2)

namespace Streaming

variable {p : List σ → Except Err (List σ × α)}

theorem ok (hp : Streaming p) {i r e : List σ} {a : α} (h : p i = .ok (r, a)) :
    p (i ++ e) = .ok (r ++ e, a) := by
  rw [hp i e (by simp [h]), h]
  rfl

theorem error (hp : Streaming p) {i e : List σ} {err : Err} (h : p i = .error err)
    (hne : err ≠ .incomplete) : p (i ++ e) = .error err := by
  rw [hp i e (by simp [h, hne]), h]
  rfl

theorem of_cases (hok : ∀ {i r a}, p i = .ok (r, a) → ∀ e, p (i ++ e) = .ok (r ++ e, a))
    (herr : ∀ {i err}, p i = .error err → err ≠ .incomplete → ∀ e, p (i ++ e) = .error err) :
    Streaming p := by
  intro i e hne
  rcases h : p i with err | ⟨r, a⟩
  · exact herr h (fun he ↦ hne (by rw [h, he])) e
  · exact hok h e

/-- Running one streaming parser after another. -/
theorem andThen {q : α → List σ → Except Err (List σ × γ)} (hp : Streaming p)
    (hq : ∀ a, Streaming (q a)) : Streaming fun i ↦ p i >>= fun x ↦ q x.2 x.1 := by
  refine of_cases ?_ ?_
  · intro i r c h e
    obtain ⟨⟨r', a⟩, hi, hr⟩ := bind_eq_ok.1 h
    exact bind_eq_ok.2 ⟨_, hp.ok hi, (hq a).ok hr⟩
  · intro i err h hne e
    rcases bind_eq_error.1 h with hi | ⟨⟨r', a⟩, hi, hr⟩
    · exact bind_eq_error.2 (Or.inl (hp.error hi hne))
    · exact bind_eq_error.2 (Or.inr ⟨_, hp.ok hi, (hq a).error hr hne⟩)

/-- A step that reads no input. -/
theorem lift (x : Except Err α) : Streaming fun i : List σ ↦ x >>= fun a ↦ .ok (i, a) := by
  rcases x with err | a
  · exact of_cases (by simp [bind, Except.bind]) (fun h _ _ ↦ h)
  · refine of_cases ?_ (by simp [bind, Except.bind])
    intro i r c h e
    obtain ⟨rfl, rfl⟩ := Prod.mk.inj (Except.ok.inj h)
    rfl

/-- **Framing.** A parser that reads a message exactly asks for more on every proper beginning
of it. -/
theorem incomplete_of_append (hp : Streaming p) {i e : List σ} {a : α}
    (h : p (i ++ e) = .ok ([], a)) (he : e ≠ []) : p i = .error .incomplete := by
  by_contra hne
  rw [hp i e hne] at h
  rcases hi : p i with err | ⟨r, b⟩ <;> rw [hi] at h
  · exact absurd h (by simp [Except.map])
  · have hnil : r ++ e = [] := (Prod.mk.inj (Except.ok.inj h)).1
    exact he (List.append_eq_nil_iff.1 hnil).2

end Streaming

/-! ### What is consumed decides

The converse reading of the law: an answer depends on no more than the input it consumed. -/

/-- A value is read from the consumed input alone. -/
def Exact (p : List σ → Except Err (List σ × α)) : Prop :=
  ∀ i r a, p i = .ok (r, a) → ∃ w, i = w ++ r ∧ p w = .ok ([], a)

namespace Exact

variable {p : List σ → Except Err (List σ × α)}

/-- Running one parser after another: the first may not change its mind on the input of the
second. -/
theorem andThen {q : α → List σ → Except Err (List σ × γ)} (hp : Exact p) (hs : Streaming p)
    (hq : ∀ a, Exact (q a)) : Exact fun i ↦ p i >>= fun x ↦ q x.2 x.1 := by
  intro i r c h
  obtain ⟨⟨r', a⟩, hi, hr⟩ := bind_eq_ok.1 h
  obtain ⟨w₁, rfl, hw₁⟩ := hp _ _ _ hi
  obtain ⟨w₂, rfl, hw₂⟩ := hq a _ _ _ hr
  exact ⟨w₁ ++ w₂, by rw [List.append_assoc], bind_eq_ok.2 ⟨_, hs.ok hw₁, hw₂⟩⟩

/-- A step that reads no input. -/
theorem lift (x : Except Err α) : Exact fun i : List σ ↦ x >>= fun a ↦ .ok (i, a) := by
  intro i r c h
  obtain ⟨a, rfl, ha⟩ := bind_eq_ok.1 h
  obtain ⟨rfl, rfl⟩ := Prod.mk.inj (Except.ok.inj ha)
  exact ⟨[], rfl, rfl⟩

/-- The consumed beginning of the input is read to the same value on its own. -/
theorem of_append (hp : Exact p) {w r : List σ} {a : α} (h : p (w ++ r) = .ok (r, a)) :
    p w = .ok ([], a) := by
  obtain ⟨w', heq, hw'⟩ := hp _ _ _ h
  rwa [List.append_cancel_right heq]

end Exact

theorem exact_take (n : ℕ) : Exact (take n : List σ → _) := by
  intro i r c h
  obtain ⟨hlen, rfl⟩ := take_eq_ok_iff.1 h
  exact ⟨c, rfl, by simpa using take_append hlen []⟩

theorem streaming_take (n : ℕ) : Streaming (take n : List σ → _) := by
  refine Streaming.of_cases ?_ ?_
  · intro i r c h e
    obtain ⟨hlen, rfl⟩ := take_eq_ok_iff.1 h
    rw [List.append_assoc]
    exact take_append hlen _
  · intro i err h hne
    exact absurd (take_eq_error_iff.1 h).1 hne

end Nom
