import Ldap3.Lib.Nom

/-!
# Framing a byte stream

A decoder called on a growing buffer, as `tokio_util::codec` calls one: each call either takes a
message off the front of the buffer, or asks for more input, or fails. Around it stands the loop
every reader runs: append the chunk that arrived, call the decoder until it asks for more
(`drain`), wait for the next chunk (`feed`).

The assumptions on a codec are collected in `Framed`: an encoded message is decoded exactly,
whatever follows it, and every proper beginning of one leaves the decoder waiting. From those two
the whole stream follows, however it is cut (`Framed.feed_eq_ok`): the messages come out in order,
none is lost or read twice, no call fails, and nothing is left over.
-/

namespace Framing

variable {α ε μ σ : Type}

/-- One call on the buffer: the outcome, and the buffer after the call. -/
abbrev Decoder (ε σ μ : Type) := List σ → Except ε (Option μ) × List σ

/-- Why reading stopped short of waiting for more input. -/
inductive Stop (ε : Type) where
  /-- A call of the decoder failed. -/
  | failed (e : ε)
  /-- The loop did not end within the given number of calls. -/
  | outOfFuel
  deriving DecidableEq

/-- Call the decoder until it asks for more; the messages in order, and the buffer left. -/
def drain (d : Decoder ε σ μ) : (fuel : ℕ) → List σ → Except (Stop ε) (List μ × List σ)
  | 0, _ => .error .outOfFuel
  | fuel + 1, buf =>
    match d buf with
    | (.error e, _) => .error (.failed e)
    | (.ok none, buf') => .ok ([], buf')
    | (.ok (some m), buf') => (drain d fuel buf').map fun x ↦ (m :: x.1, x.2)

/-- Append the chunks one at a time, draining the buffer after each. -/
def feed (d : Decoder ε σ μ) : List σ → List (List σ) → Except (Stop ε) (List μ × List σ)
  | buf, [] => .ok ([], buf)
  | buf, c :: cs => do
    let (ms, buf) ← drain d ((buf ++ c).length + 1) (buf ++ c)
    let (ms', buf) ← feed d buf cs
    return (ms ++ ms', buf)

/-- What a codec has to satisfy: `enc` is what is written for a value, `msg` what is read. -/
structure Framed (d : Decoder ε σ μ) (enc : α → List σ) (msg : α → μ) : Prop where
  /-- An empty buffer waits. -/
  nil : d [] = (.ok none, [])
  /-- An encoded message is taken off the buffer exactly. -/
  decode_append : ∀ a rest, d (enc a ++ rest) = (.ok (some (msg a)), rest)
  /-- A proper beginning of a message is left alone. -/
  wait : ∀ a p q, p ++ q = enc a → q ≠ [] → d p = (.ok none, p)

namespace Framed

variable {d : Decoder ε σ μ} {enc : α → List σ} {msg : α → μ}

theorem enc_ne_nil (h : Framed d enc msg) (a : α) : enc a ≠ [] := by
  intro hnil
  have hdec := h.decode_append a []
  rw [hnil, List.append_nil, h.nil] at hdec
  cases hdec

/-- `p` is what can remain in the buffer when the messages `as` are still to come: nothing that
is not the beginning of the first of them, and not all of it. -/
def Waiting (enc : α → List σ) (p : List σ) : List α → Prop
  | [] => p = []
  | a :: _ => ∃ q, q ≠ [] ∧ p ++ q = enc a

theorem decode_waiting (h : Framed d enc msg) {p : List σ} {as : List α}
    (hw : Waiting enc p as) : d p = (.ok none, p) := by
  rcases as with - | ⟨a, as⟩
  · rw [show p = [] from hw]
    exact h.nil
  · obtain ⟨q, hne, heq⟩ := hw
    exact h.wait a p q heq hne

/-- A received part of the stream is some whole messages and a remainder that waits. -/
theorem exists_split {as : List α} {b rest : List σ}
    (heq : b ++ rest = (as.map enc).flatten) :
    ∃ as₁ as₂ p, as = as₁ ++ as₂ ∧ b = (as₁.map enc).flatten ++ p ∧
      p ++ rest = (as₂.map enc).flatten ∧ Waiting enc p as₂ := by
  induction as generalizing b with
  | nil =>
    obtain ⟨rfl, rfl⟩ := List.append_eq_nil_iff.1 heq
    exact ⟨[], [], [], rfl, rfl, rfl, rfl⟩
  | cons a as ih =>
    rw [List.map_cons, List.flatten_cons] at heq
    rcases List.append_eq_append_iff.1 heq with ⟨q, hq, hrest⟩ | ⟨b', hb, hrest⟩
    · by_cases hnil : q = []
      · -- The cut falls on the boundary: the message is whole and nothing is left of the next.
        rw [hnil, List.append_nil] at hq
        rw [hnil, List.nil_append] at hrest
        obtain ⟨as₁, as₂, p, rfl, hb, hp, hw⟩ := ih (b := []) hrest
        exact ⟨a :: as₁, as₂, p, rfl, by
          rw [List.map_cons, List.flatten_cons, List.append_assoc, ← hb, hq, List.append_nil],
          hp, hw⟩
      · exact ⟨[], a :: as, b, rfl, rfl, heq, q, hnil, hq.symm⟩
    · obtain ⟨as₁, as₂, p, rfl, rfl, hp, hw⟩ := ih hrest.symm
      exact ⟨a :: as₁, as₂, p, rfl, by
        rw [hb, List.map_cons, List.flatten_cons, List.append_assoc], hp, hw⟩

/-- Draining whole messages and a remainder that waits. -/
theorem drain_eq_ok (h : Framed d enc msg) {as₁ as₂ : List α} {p : List σ}
    (hw : Waiting enc p as₂) {fuel : ℕ} (hfuel : as₁.length < fuel) :
    drain d fuel ((as₁.map enc).flatten ++ p) = .ok (as₁.map msg, p) := by
  induction as₁ generalizing fuel with
  | nil =>
    obtain ⟨fuel, rfl⟩ := Nat.exists_eq_succ_of_ne_zero hfuel.ne'
    rw [List.map_nil, List.flatten_nil, List.nil_append, drain, h.decode_waiting hw]
    rfl
  | cons a as₁ ih =>
    obtain ⟨fuel, rfl⟩ := Nat.exists_eq_succ_of_ne_zero (Nat.ne_zero_of_lt hfuel)
    rw [List.map_cons, List.flatten_cons, List.append_assoc, drain, h.decode_append]
    simp only [ih (Nat.lt_of_succ_lt_succ hfuel)]
    rfl

theorem length_le_flatten (h : Framed d enc msg) (as : List α) :
    as.length ≤ (as.map enc).flatten.length := by
  induction as with
  | nil => exact Nat.le_refl 0
  | cons a as ih =>
    have hpos := List.length_pos_iff.2 (h.enc_ne_nil a)
    rw [List.map_cons, List.flatten_cons, List.length_append, List.length_cons]
    omega

/-- **Chunking does not matter.** However the stream of the encoded messages is cut, reading it
yields the messages in order and leaves the buffer empty. -/
theorem feed_eq_ok (h : Framed d enc msg) {as : List α} {buf : List σ} {cs : List (List σ)}
    (hw : Waiting enc buf as) (heq : buf ++ cs.flatten = (as.map enc).flatten) :
    feed d buf cs = .ok (as.map msg, []) := by
  induction cs generalizing buf as with
  | nil =>
    rw [List.flatten_nil, List.append_nil] at heq
    rcases as with - | ⟨a, as⟩
    · rw [show buf = [] from hw]
      rfl
    · -- The buffer would be both a proper beginning of the message and more than all of it.
      obtain ⟨q, hne, hq⟩ := hw
      have hlen := congrArg List.length heq
      have hlen' := congrArg List.length hq
      have hpos := List.length_pos_iff.2 hne
      simp only [List.map_cons, List.flatten_cons, List.length_append] at hlen hlen'
      omega
  | cons c cs ih =>
    rw [List.flatten_cons, ← List.append_assoc] at heq
    obtain ⟨as₁, as₂, p, rfl, hb, hp, hw'⟩ := exists_split heq
    have hlen := h.length_le_flatten as₁
    have hfuel : as₁.length < (buf ++ c).length + 1 := by
      rw [hb, List.length_append]
      omega
    have hdrain := h.drain_eq_ok hw' hfuel
    rw [← hb] at hdrain
    simp only [feed, hdrain, ih hw' hp, bind, Except.bind, pure, Except.pure, List.map_append]

/-- Reading starts on an empty buffer, which waits for whatever comes first. -/
theorem waiting_nil (h : Framed d enc msg) (as : List α) : Waiting enc [] as := by
  rcases as with - | ⟨a, as⟩
  · rfl
  · exact ⟨enc a, h.enc_ne_nil a, rfl⟩

end Framed

/-! ### Any stream

`Framed` is about the streams an encoder writes. `Stable` is what it takes for the cuts of a stream
not to matter whatever is in it: to wait is to leave the buffer alone, and any other answer is
final. Then what is received depends on the octets alone (`Stable.receive_flatten`), also where
they come to a failure.
-/

/-- Call the decoder until it asks for more or fails: the messages in order, and the buffer left or
the reason for the stop. -/
def drainAll (d : Decoder ε σ μ) : (fuel : ℕ) → List σ → List μ × Except (Stop ε) (List σ)
  | 0, _ => ([], .error .outOfFuel)
  | fuel + 1, buf =>
    match d buf with
    | (.error e, _) => ([], .error (.failed e))
    | (.ok none, buf') => ([], .ok buf')
    | (.ok (some m), buf') =>
      let r := drainAll d fuel buf'
      (m :: r.1, r.2)

/-- Append the chunks one at a time, draining the buffer after each, up to the first failure. -/
def receive (d : Decoder ε σ μ) : List σ → List (List σ) → List μ × Except (Stop ε) (List σ)
  | buf, [] => ([], .ok buf)
  | buf, c :: cs =>
    match drainAll d ((buf ++ c).length + 1) (buf ++ c) with
    | (ms, .error e) => (ms, .error e)
    | (ms, .ok buf) =>
      let r := receive d buf cs
      (ms ++ r.1, r.2)

/-- The messages come off the front of a buffer, one after another, and leave the rest. -/
inductive Takes (d : Decoder ε σ μ) : List σ → List μ → List σ → Prop
  | nil {b : List σ} : Takes d b [] b
  | cons {b b₁ b' : List σ} {m : μ} {ms : List μ} (h : d b = (.ok (some m), b₁))
      (hms : Takes d b₁ ms b') : Takes d b (m :: ms) b'

/-- What reading comes to on a buffer without a message at its front. -/
inductive Ends (d : Decoder ε σ μ) (b : List σ) : Except (Stop ε) (List σ) → Prop
  | waiting (h : d b = (.ok none, b)) : Ends d b (.ok b)
  | failed {e : ε} (h : (d b).1 = .error e) : Ends d b (.error (.failed e))

/-- Waiting leaves the buffer alone, and any other answer stays the same when input is appended. -/
structure Stable (d : Decoder ε σ μ) : Prop where
  nil : d [] = (.ok none, [])
  wait : ∀ {b b' : List σ}, d b = (.ok none, b') → b' = b
  shrinks : ∀ {b b' : List σ} {m : μ}, d b = (.ok (some m), b') → b'.length < b.length
  read_append : ∀ {b b' : List σ} {m : μ}, d b = (.ok (some m), b') →
    ∀ i, d (b ++ i) = (.ok (some m), b' ++ i)
  fail_append : ∀ {b : List σ} {e : ε}, (d b).1 = .error e → ∀ i, (d (b ++ i)).1 = .error e

namespace Takes

variable {d : Decoder ε σ μ} {b b₁ b' : List σ} {ms ms' : List μ} {m : μ}

theorem concat (h : Takes d b ms b₁) (hm : d b₁ = (.ok (some m), b')) :
    Takes d b (ms ++ [m]) b' := by
  induction h with
  | nil => exact .cons hm .nil
  | cons h _ ih => exact .cons h (ih hm)

theorem append (h : Takes d b ms b₁) (h' : Takes d b₁ ms' b') : Takes d b (ms ++ ms') b' := by
  induction h with
  | nil => exact h'
  | cons h _ ih => exact .cons h (ih h')

/-- More input only lengthens what is left. -/
theorem append_right (hd : Stable d) (h : Takes d b ms b') (i : List σ) :
    Takes d (b ++ i) ms (b' ++ i) := by
  induction h with
  | nil => exact .nil
  | cons h _ ih => exact .cons (hd.read_append h i) ih

/-- The messages after those of a beginning of the buffer are taken off what follows it. -/
theorem of_append (hd : Stable d) {i : List σ} (h : Takes d b ms b₁)
    (h' : Takes d (b ++ i) (ms ++ ms') b') : Takes d (b₁ ++ i) ms' b' := by
  induction h with
  | nil => exact h'
  | cons hm _ ih =>
    cases h' with
    | cons hm' hms' =>
      rw [hd.read_append hm] at hm'
      obtain ⟨-, rfl⟩ := Prod.mk.inj hm'
      exact ih hms'

/-- What is taken off is a beginning of what the whole buffer can be taken apart to. -/
theorem prefix_of_nil {ms₂ : List μ} (hd : Stable d) (h : Takes d b ms b')
    (h₂ : Takes d b ms₂ []) : ms <+: ms₂ := by
  induction h generalizing ms₂ with
  | nil => exact List.nil_prefix
  | cons hm _ ih =>
    cases h₂ with
    | nil =>
      rw [hd.nil] at hm
      cases hm
    | cons hm₂ hms₂ =>
      rw [hm] at hm₂
      obtain ⟨hval, rfl⟩ := Prod.mk.inj hm₂
      obtain rfl := Option.some.inj (Except.ok.inj hval)
      exact List.cons_prefix_cons.2 ⟨rfl, ih hms₂⟩

/-- What is taken off up to the end of reading, and that end, are determined by the buffer. -/
theorem unique_of_ends {b₂ : List σ} {ms₂ : List μ} {r r₂ : Except (Stop ε) (List σ)}
    (h : Takes d b ms b') (hr : Ends d b' r) (h₂ : Takes d b ms₂ b₂) (hr₂ : Ends d b₂ r₂) :
    ms = ms₂ ∧ r = r₂ := by
  have hstop : ∀ {c c' : List σ} {m : μ} {r : Except (Stop ε) (List σ)}, Ends d c r →
      d c ≠ (.ok (some m), c') := by
    intro c c' m r hc hm
    cases hc with
    | waiting h => simp [h] at hm
    | failed h => simp [hm] at h
  induction h generalizing ms₂ with
  | nil =>
    cases h₂ with
    | nil =>
      cases hr with
      | waiting h =>
        cases hr₂ with
        | waiting => exact ⟨rfl, rfl⟩
        | failed h₂ => simp [h] at h₂
      | failed h =>
        cases hr₂ with
        | waiting h₂ => simp [h₂] at h
        | failed h₂ =>
          rw [h] at h₂
          exact ⟨rfl, by rw [Except.error.inj h₂]⟩
    | cons h₂ => exact absurd h₂ (hstop hr)
  | cons hm _ ih =>
    cases h₂ with
    | nil => exact absurd hm (hstop hr₂)
    | cons hm₂ hms₂ =>
      rw [hm] at hm₂
      obtain ⟨hval, rfl⟩ := Prod.mk.inj hm₂
      obtain rfl := Option.some.inj (Except.ok.inj hval)
      obtain ⟨rfl, rfl⟩ := ih hr hms₂
      exact ⟨rfl, rfl⟩

end Takes

namespace Stable

variable {d : Decoder ε σ μ}

/-- A proper beginning of a message waits. -/
theorem wait_of_append (hd : Stable d) {b i : List σ} {m : μ} (h : d (b ++ i) = (.ok (some m), []))
    (hi : i ≠ []) : d b = (.ok none, b) := by
  rcases hb : d b with ⟨e | - | m', b₁⟩
  · have hfail := hd.fail_append (e := e) (by rw [hb]) i
    rw [h] at hfail
    cases hfail
  · rw [hd.wait hb]
  · have hread := hd.read_append hb i
    rw [h] at hread
    exact absurd (List.append_eq_nil_iff.1 (Prod.mk.inj hread).2.symm).2 hi

/-- Draining takes messages off the front up to the end of reading. -/
theorem exists_takes_drainAll (hd : Stable d) {fuel : ℕ} {b : List σ} (hfuel : b.length < fuel) :
    ∃ b', Takes d b (drainAll d fuel b).1 b' ∧ Ends d b' (drainAll d fuel b).2 := by
  induction fuel generalizing b with
  | zero => exact absurd hfuel (Nat.not_lt_zero _)
  | succ fuel ih =>
    rw [drainAll]
    rcases hb : d b with ⟨e | - | m, b₁⟩
    · exact ⟨b, .nil, .failed (by rw [hb])⟩
    · obtain rfl := hd.wait hb
      exact ⟨b₁, .nil, .waiting hb⟩
    · have hlt := hd.shrinks hb
      obtain ⟨b', htakes, hends⟩ := ih (b := b₁) (by omega)
      exact ⟨b', .cons hb htakes, hends⟩

/-- So does receiving chunks, on all of the octets. After a failure the chunks that are left do not
change it. -/
theorem exists_takes_receive (hd : Stable d) {b : List σ} (hb : d b = (.ok none, b))
    (cs : List (List σ)) :
    ∃ b', Takes d (b ++ cs.flatten) (receive d b cs).1 b' ∧ Ends d b' (receive d b cs).2 := by
  induction cs generalizing b with
  | nil => exact ⟨b, by rw [List.flatten_nil, List.append_nil]; exact .nil, .waiting hb⟩
  | cons c cs ih =>
    obtain ⟨b₁, htakes, hends⟩ := hd.exists_takes_drainAll (Nat.lt_succ_self (b ++ c).length)
    have hmore := htakes.append_right hd cs.flatten
    rw [List.flatten_cons, ← List.append_assoc, receive]
    rcases hdrain : drainAll d ((b ++ c).length + 1) (b ++ c) with ⟨ms, e | b₂⟩
    · rw [hdrain] at hmore hends
      refine ⟨b₁ ++ cs.flatten, hmore, ?_⟩
      cases hends with
      | failed he => exact .failed (hd.fail_append he cs.flatten)
    · rw [hdrain] at hmore hends
      cases hends with
      | waiting hwait =>
        obtain ⟨b', htakes', hends'⟩ := ih hwait
        exact ⟨b', hmore.append htakes', hends'⟩

/-- **Cuts do not matter.** The messages received, the failure if there is one and the octets left
over are those of the stream in one piece. -/
theorem receive_flatten (hd : Stable d) (cs : List (List σ)) :
    receive d [] cs = receive d [] [cs.flatten] := by
  obtain ⟨b, htakes, hends⟩ := hd.exists_takes_receive hd.nil cs
  obtain ⟨b', htakes', hends'⟩ := hd.exists_takes_receive hd.nil [cs.flatten]
  rw [List.flatten_cons, List.flatten_nil, List.append_nil] at htakes'
  obtain ⟨hms, hr⟩ := htakes.unique_of_ends hends htakes' hends'
  exact Prod.ext hms hr

end Stable

/-! ### Codecs with a state

A codec may keep something between the calls. What reading yields is a relation here: there is no
bound on the number of calls a buffer takes, since it need not hold the messages themselves. -/

/-- One call: the outcome, the state and the buffer after the call. -/
abbrev Codec (τ ε σ μ : Type) := τ → List σ → Except ε (Option μ) × τ × List σ

variable {τ : Type}

/-- Calling the codec until it asks for more yields the messages, and leaves a state and a
buffer. -/
inductive Drains (d : Codec τ ε σ μ) : τ → List σ → List μ → τ → List σ → Prop
  | wait {s s' : τ} {b b' : List σ} (h : d s b = (.ok none, s', b')) : Drains d s b [] s' b'
  | read {s s₁ s' : τ} {b b₁ b' : List σ} {m : μ} {ms : List μ}
      (h : d s b = (.ok (some m), s₁, b₁)) (hms : Drains d s₁ b₁ ms s' b') :
      Drains d s b (m :: ms) s' b'

/-- Appending the chunks one at a time, and draining the buffer after each, yields the messages. -/
inductive Feeds (d : Codec τ ε σ μ) : τ → List σ → List (List σ) → List μ → τ → List σ → Prop
  | nil {s : τ} {b : List σ} : Feeds d s b [] [] s b
  | cons {s s₁ s' : τ} {b b₁ b' c : List σ} {cs : List (List σ)} {ms ms' : List μ}
      (h : Drains d s (b ++ c) ms s₁ b₁) (hcs : Feeds d s₁ b₁ cs ms' s' b') :
      Feeds d s b (c :: cs) (ms ++ ms') s' b'

section

variable {d : Codec τ ε σ μ} {s s₁ s' : τ} {b b₁ b' : List σ} {ms : List μ}

theorem drains_iff_of_wait (h : d s b = (.ok none, s₁, b₁)) :
    Drains d s b ms s' b' ↔ ms = [] ∧ s' = s₁ ∧ b' = b₁ := by
  constructor
  · intro hd
    cases hd with
    | wait h' =>
      rw [h] at h'
      cases h'
      exact ⟨rfl, rfl, rfl⟩
    | read h' =>
      rw [h] at h'
      cases h'
  · rintro ⟨rfl, rfl, rfl⟩
    exact .wait h

theorem drains_iff_of_read {m : μ} (h : d s b = (.ok (some m), s₁, b₁)) :
    Drains d s b ms s' b' ↔ ∃ ms', ms = m :: ms' ∧ Drains d s₁ b₁ ms' s' b' := by
  constructor
  · intro hd
    cases hd with
    | wait h' =>
      rw [h] at h'
      cases h'
    | read h' hms =>
      rw [h] at h'
      cases h'
      exact ⟨_, rfl, hms⟩
  · rintro ⟨ms', rfl, hms⟩
    exact .read h hms

theorem not_drains_of_error {e : ε} (h : d s b = (.error e, s₁, b₁)) : ¬Drains d s b ms s' b' := by
  intro hd
  cases hd with
  | wait h' =>
    rw [h] at h'
    cases h'
  | read h' =>
    rw [h] at h'
    cases h'

theorem feeds_nil_iff : Feeds d s b [] ms s' b' ↔ ms = [] ∧ s' = s ∧ b' = b := by
  constructor
  · intro hf
    cases hf
    exact ⟨rfl, rfl, rfl⟩
  · rintro ⟨rfl, rfl, rfl⟩
    exact .nil

theorem feeds_cons_iff {c : List σ} {cs : List (List σ)} :
    Feeds d s b (c :: cs) ms s' b' ↔ ∃ ms₁ s₁ b₁ ms₂, Drains d s (b ++ c) ms₁ s₁ b₁ ∧
      Feeds d s₁ b₁ cs ms₂ s' b' ∧ ms = ms₁ ++ ms₂ := by
  constructor
  · intro hf
    cases hf with
    | cons h hcs => exact ⟨_, _, _, _, h, hcs, rfl⟩
  · rintro ⟨ms₁, s₁, b₁, ms₂, h, hcs, rfl⟩
    exact .cons h hcs

end

end Framing
