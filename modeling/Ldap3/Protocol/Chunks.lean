import Ldap3.Protocol

/-!
# Received octets

`decode_inner` on whatever a server sends. An answer of the decoder is final: once there is an
element at the front of the buffer, what follows it has no influence on what becomes of it, and
this holds for the failures too. So the decoder is `Framing.Stable`, and what a connection reads
is a function of the octets it received, not of the reads they came in (`receive_decodeInner`).
-/

open Nom

namespace Ldap3

/-- A call that does not wait found an element at the front of the buffer, or octets that can never
become one. -/
theorem decodeInner_cases (b : List UInt8) :
    decodeInner b = (.ok none, b) ∨
      (∃ err, err ≠ .incomplete ∧ parse b = .error err ∧
        decodeInner b = (.error decodingError, b)) ∨
      ∃ w rest tag, b = w ++ rest ∧ 2 ≤ w.length ∧ parse (w ++ rest) = .ok (rest, tag) ∧
        decodeInner b = (some <$> decodeEnvelope tag, rest) := by
  rcases hparse : parse b with err | ⟨rest, tag⟩
  · by_cases herr : err = .incomplete
    · rw [herr] at hparse
      exact Or.inl (decodeInner_of_incomplete hparse)
    · refine Or.inr (Or.inl ⟨err, herr, rfl, ?_⟩)
      rw [decodeInner, hparse]
      cases err with
      | incomplete => exact absurd rfl herr
      | error => rfl
      | failure => rfl
  · obtain ⟨w, hw, rfl⟩ := parse_eq_append hparse
    exact Or.inr (Or.inr ⟨w, rest, tag, rfl, hw, hparse, decodeInner_of_parse hparse⟩)

theorem map_some_ne_none (x : Except Fault Decoded) : some <$> x ≠ .ok none := by
  rcases x with err | m <;> simp [Functor.map, Except.map]

/-- An element at the front is taken off in the same way whatever follows. -/
theorem decodeInner_append {w rest : List UInt8} {tag : StructureTag}
    (h : parse (w ++ rest) = .ok (rest, tag)) (i : List UInt8) :
    decodeInner (w ++ rest ++ i) = (some <$> decodeEnvelope tag, rest ++ i) := by
  have hmore := streaming_parse.ok (e := i) h
  rw [List.append_assoc] at hmore ⊢
  exact decodeInner_of_parse hmore

/-- **The decoder's answers are final.** -/
theorem stable_decodeInner : Framing.Stable decodeInner where
  nil := rfl
  wait {b b'} h := by
    rcases decodeInner_cases b with hb | ⟨_, -, -, hb⟩ | ⟨w, rest, tag, -, -, -, hb⟩
    · rw [hb] at h
      exact (Prod.mk.inj h).2.symm
    · rw [hb] at h
      cases h
    · rw [hb] at h
      exact absurd (Prod.mk.inj h).1 (map_some_ne_none _)
  shrinks {b b' m} h := by
    rcases decodeInner_cases b with hb | ⟨_, -, -, hb⟩ | ⟨w, rest, tag, hwb, hw, -, hb⟩
    · rw [hb] at h
      cases h
    · rw [hb] at h
      cases h
    · rw [hb] at h
      obtain rfl := (Prod.mk.inj h).2
      rw [hwb, List.length_append]
      omega
  read_append {b b' m} h i := by
    rcases decodeInner_cases b with hb | ⟨_, -, -, hb⟩ | ⟨w, rest, tag, hwb, -, hparse, hb⟩
    · rw [hb] at h
      cases h
    · rw [hb] at h
      cases h
    · rw [hb] at h
      obtain ⟨hm, rfl⟩ := Prod.mk.inj h
      rw [hwb, decodeInner_append hparse i, hm]
  fail_append {b e} h i := by
    rcases decodeInner_cases b with
      hb | ⟨err, herr, hparse, hb⟩ | ⟨w, rest, tag, hwb, -, hparse, hb⟩
    · rw [hb] at h
      cases h
    · rw [hb] at h
      have hmore := streaming_parse.error (e := i) hparse herr
      rw [decodeInner, hmore]
      cases err with
      | incomplete => exact absurd rfl herr
      | error => exact h
      | failure => exact h
    · rw [hb] at h
      rw [hwb, decodeInner_append hparse i]
      exact h

/-- A message is read from its own octets alone. -/
theorem exact_decodeInner {b rest : List UInt8} {m : Decoded}
    (h : decodeInner b = (.ok (some m), rest)) :
    ∃ w, b = w ++ rest ∧ decodeInner w = (.ok (some m), []) := by
  rcases decodeInner_cases b with hb | ⟨_, -, -, hb⟩ | ⟨w, rest', tag, rfl, hw, hparse, hb⟩
  · rw [hb] at h
    cases h
  · rw [hb] at h
    cases h
  · rw [hb] at h
    obtain ⟨hm, rfl⟩ := Prod.mk.inj h
    refine ⟨w, rfl, ?_⟩
    have hne : ∀ v, (w ++ v).isEmpty = false := by
      intro v
      rw [List.isEmpty_eq_false_iff]
      exact fun hnil ↦ by simp [(List.append_eq_nil_iff.1 hnil).1] at hw
    rw [parse, hne, if_neg Bool.false_ne_true] at hparse
    have hself : parse (w ++ []) = .ok ([], tag) := by
      rw [parse, hne, if_neg Bool.false_ne_true, List.append_nil]
      exact exact_parseTag.of_append hparse
    have hdec := decodeInner_of_parse hself
    rwa [List.append_nil, hm] at hdec

/-- **What is received is a function of the octets.** However the octets of a server are cut into
reads, and whatever they are, the messages decoded from them, in their order, are those decoded
from the octets in one piece; decoding fails in both or in neither and in the same way, with the
same octets left over; and it is not cut short by anything else. -/
theorem receive_decodeInner (cs : List (List UInt8)) :
    Framing.receive decodeInner [] cs = Framing.receive decodeInner [] [cs.flatten] ∧
      (Framing.receive decodeInner [] cs).2 ≠ .error .outOfFuel := by
  refine ⟨stable_decodeInner.receive_flatten cs, ?_⟩
  obtain ⟨b, -, hends⟩ := stable_decodeInner.exists_takes_receive stable_decodeInner.nil cs
  intro hfuel
  rw [hfuel] at hends
  cases hends

/-- A message, and after it an element that is none, cut inside their headers. -/
example : (Framing.receive decodeInner []
    [[0x30, 0x05, 0x02], [0x01, 0x01, 0x42, 0x00, 0x04], [0x00, 0x30]]).1.map (·.1) = [1] := by
  decide +kernel

end Ldap3
