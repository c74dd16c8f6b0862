import Ldap3.Lber.Parse

/-!
# The calls of the parser

`parse_tag` calls itself from a loop over the content of a constructed element, and nothing in the
source bounds how often: both the depth and the number of rounds come from the octets. Here the
recursion is written down as it runs, without the fuel of `parseTagsAux`: `TagRun i n x` says that
the call on `i` comes back with `x` after `n` calls of `parse_tag`, itself included, and
`LoopRun c n x` says the same of the loop over `c`.

Every input has a run, no run has another result, and its calls are bounded by the octets
(`exists_tagRun`, `TagRun.eq_parseTag`, `TagRun.calls_le`). What an accepted element costs in memory
is bounded as well: `StructureTag.nodes` counts its tags, `StructureTag.octets` what is stored in
them, and two octets of the input stand behind every tag (`parseTag_weight_le`).
-/

open Nom

namespace Ldap3

mutual

/-- The calls that `parse_tag` makes on the input, and what it returns. -/
inductive TagRun : List UInt8 → ℕ → Except Err (List UInt8 × StructureTag) → Prop
  /-- The header, the length or the content slice fails. -/
  | header {i : List UInt8} {err : Err} (h : parseElement i = .error err) :
      TagRun i 1 (.error err)
  | primitive {i r v : List UInt8} {cls : TagClass} {id : UInt64}
      (h : parseElement i = .ok (r, cls, .primitive, id, v)) :
      TagRun i 1 (.ok (r, ⟨cls, id, .P v⟩))
  | constructed {i r c : List UInt8} {cls : TagClass} {id : UInt64} {n : ℕ}
      {tv : List StructureTag} (h : parseElement i = .ok (r, cls, .constructed, id, c))
      (hc : LoopRun c n (.ok tv)) : TagRun i (n + 1) (.ok (r, ⟨cls, id, .C tv⟩))
  /-- The `?` in the loop. -/
  | content {i r c : List UInt8} {cls : TagClass} {id : UInt64} {n : ℕ} {err : Err}
      (h : parseElement i = .ok (r, cls, .constructed, id, c)) (hc : LoopRun c n (.error err)) :
      TagRun i (n + 1) (.error err)

/-- The calls that the loop makes on the content, and the tags it collects. -/
inductive LoopRun : List UInt8 → ℕ → Except Err (List StructureTag) → Prop
  | done : LoopRun [] 0 (.ok [])
  | failed {c : List UInt8} {n : ℕ} {err : Err} (hne : c ≠ []) (h : TagRun c n (.error err)) :
      LoopRun c n (.error err)
  | round {c r : List UInt8} {m n : ℕ} {t : StructureTag}
      {x : Except Err (List StructureTag)} (hne : c ≠ []) (h : TagRun c m (.ok (r, t)))
      (hr : LoopRun r n x) : LoopRun c (m + n) (x.map (t :: ·))

end

/-! ### Every input has a run -/

theorem exists_loopRun_of_tagRun {c : List UInt8} (htag : ∃ n, TagRun c n (parseTag c))
    (ih : ∀ r : List UInt8, r.length + 2 ≤ c.length → ∃ n, LoopRun r n (parseTags r)) :
    ∃ n, LoopRun c n (parseTags c) := by
  by_cases hne : c = []
  · subst hne
    exact ⟨0, .done⟩
  rw [parseTags_of_ne_nil hne]
  obtain ⟨m, htag⟩ := htag
  rcases hc : parseTag c with err | ⟨r, t⟩ <;> rw [hc] at htag
  · exact ⟨m, .failed hne htag⟩
  · obtain ⟨w, hw, rfl⟩ := parseTag_eq_append hc
    obtain ⟨n, hr⟩ := ih r (by rw [List.length_append]; omega)
    have hround := LoopRun.round hne htag hr
    refine ⟨m + n, ?_⟩
    simp only [bind, Except.bind]
    cases hx : parseTags r <;> rw [hx] at hround <;> exact hround

theorem exists_tagRun_of_loopRun {i : List UInt8}
    (ih : ∀ c : List UInt8, c.length + 2 ≤ i.length → ∃ n, LoopRun c n (parseTags c)) :
    ∃ n, TagRun i n (parseTag i) := by
  rw [parseTag_eq]
  rcases hel : parseElement i with err | ⟨r, cls, struct, id, c⟩
  · exact ⟨1, .header hel⟩
  cases struct with
  | primitive => exact ⟨1, .primitive hel⟩
  | constructed =>
    obtain ⟨hd, hhd, heq⟩ := parseElement_eq_append hel
    obtain ⟨n, hloop⟩ := ih c (by rw [heq]; simp only [List.length_append]; omega)
    refine ⟨n + 1, ?_⟩
    simp only [bind, Except.bind, elementTag]
    rcases hc : parseTags c with err | tv <;> rw [hc] at hloop
    · exact .content hel hloop
    · exact .constructed hel hloop

/-- The measure is the length: the nested loop runs on a shorter slice, the next round on what a
call has left, which is shorter too. -/
theorem exists_runs (i : List UInt8) :
    (∃ n, TagRun i n (parseTag i)) ∧ ∃ n, LoopRun i n (parseTags i) := by
  induction hlen : i.length using Nat.strong_induction_on generalizing i with
  | _ len ih =>
    have hshort (c : List UInt8) (hc : c.length + 2 ≤ i.length) : ∃ n, LoopRun c n (parseTags c) :=
      (ih c.length (by omega) c rfl).2
    have htag := exists_tagRun_of_loopRun hshort
    exact ⟨htag, exists_loopRun_of_tagRun htag hshort⟩

theorem exists_tagRun (i : List UInt8) : ∃ n, TagRun i n (parseTag i) :=
  (exists_runs i).1

/-! ### There is only one -/

mutual

/-- A run returns what the definition by fuel does. -/
theorem TagRun.eq_parseTag {i : List UInt8} {n : ℕ} {x : Except Err (List UInt8 × StructureTag)} :
    TagRun i n x → parseTag i = x
  | .header h => by
    rw [parseTag_eq, h]
    rfl
  | .primitive h => by
    rw [parseTag_eq, h]
    rfl
  | .constructed h hc => by
    rw [parseTag_eq, h]
    simp only [bind, Except.bind, elementTag, hc.eq_parseTags]
    rfl
  | .content h hc => by
    rw [parseTag_eq, h]
    simp only [bind, Except.bind, elementTag, hc.eq_parseTags]

theorem LoopRun.eq_parseTags {c : List UInt8} {n : ℕ} {x : Except Err (List StructureTag)} :
    LoopRun c n x → parseTags c = x
  | .done => rfl
  | .failed hne h => by
    rw [parseTags_of_ne_nil hne, h.eq_parseTag]
    rfl
  | .round hne h hr => by
    rw [parseTags_of_ne_nil hne, h.eq_parseTag]
    simp only [bind, Except.bind, hr.eq_parseTags]
    cases x <;> rfl

end

/-! ### What is built is paid for in octets -/

mutual

/-- The number of tags in the tree. -/
def StructureTag.nodes : StructureTag → ℕ
  | ⟨_, _, .P _⟩ => 1
  | ⟨_, _, .C ts⟩ => nodesAll ts + 1

def nodesAll : List StructureTag → ℕ
  | [] => 0
  | t :: ts => t.nodes + nodesAll ts

end

mutual

/-- The number of octets in the primitive payloads of the tree. -/
def StructureTag.octets : StructureTag → ℕ
  | ⟨_, _, .P v⟩ => v.length
  | ⟨_, _, .C ts⟩ => octetsAll ts

def octetsAll : List StructureTag → ℕ
  | [] => 0
  | t :: ts => t.octets + octetsAll ts

end

/-- An element with its content is shorter than the input by what is left. -/
theorem parseElement_length_le {i r c : List UInt8} {cls : TagClass} {struct : TagStructure}
    {id : UInt64} (h : parseElement i = .ok (r, cls, struct, id, c)) :
    c.length + r.length + 2 ≤ i.length := by
  obtain ⟨hd, hhd, rfl⟩ := parseElement_eq_append h
  simp only [List.length_append]
  omega

/-- The loop puts a tag in front of what the later rounds collect. -/
theorem exists_of_map_cons {t : StructureTag} {x : Except Err (List StructureTag)}
    {tv : List StructureTag} (h : x.map (t :: ·) = .ok tv) : ∃ ts, x = .ok ts ∧ tv = t :: ts := by
  cases x with
  | error err => cases h
  | ok ts =>
    cases h
    exact ⟨ts, rfl, rfl⟩

mutual

theorem TagRun.weight_le {i r : List UInt8} {n : ℕ} {t : StructureTag}
    {x : Except Err (List UInt8 × StructureTag)} :
    TagRun i n x → x = .ok (r, t) → 2 * t.nodes + t.octets + r.length ≤ i.length
  | .header _, hx => by cases hx
  | .content _ _, hx => by cases hx
  | .primitive h, hx => by
    have hle := parseElement_length_le h
    cases hx
    rw [StructureTag.nodes, StructureTag.octets]
    omega
  | .constructed h hc, hx => by
    have hle := parseElement_length_le h
    have hloop := hc.weight_le rfl
    cases hx
    rw [StructureTag.nodes, StructureTag.octets]
    omega

theorem LoopRun.weight_le {c : List UInt8} {n : ℕ} {tv : List StructureTag}
    {x : Except Err (List StructureTag)} :
    LoopRun c n x → x = .ok tv → 2 * nodesAll tv + octetsAll tv ≤ c.length
  | .done, hx => by
    cases hx
    exact Nat.le_refl 0
  | .failed _ _, hx => by cases hx
  | .round _ h hr, hx => by
    obtain ⟨ts, hts, rfl⟩ := exists_of_map_cons hx
    have htag := h.weight_le rfl
    have hrest := hr.weight_le hts
    rw [nodesAll, octetsAll]
    omega

end

mutual

/-- One call for every tag of the result. -/
theorem TagRun.calls_eq_nodes {i r : List UInt8} {n : ℕ} {t : StructureTag}
    {x : Except Err (List UInt8 × StructureTag)} : TagRun i n x → x = .ok (r, t) → n = t.nodes
  | .header _, hx => by cases hx
  | .content _ _, hx => by cases hx
  | .primitive _, hx => by
    cases hx
    rfl
  | .constructed _ hc, hx => by
    have hloop := hc.calls_eq_nodes rfl
    cases hx
    rw [StructureTag.nodes, hloop]

theorem LoopRun.calls_eq_nodes {c : List UInt8} {n : ℕ} {tv : List StructureTag}
    {x : Except Err (List StructureTag)} : LoopRun c n x → x = .ok tv → n = nodesAll tv
  | .done, hx => by
    cases hx
    rfl
  | .failed _ _, hx => by cases hx
  | .round _ h hr, hx => by
    obtain ⟨ts, hts, rfl⟩ := exists_of_map_cons hx
    rw [nodesAll, h.calls_eq_nodes rfl, hr.calls_eq_nodes hts]

end

mutual

/-- The calls of a run that fails are paid for as well, up to the innermost one. -/
theorem TagRun.calls_le {i : List UInt8} {n : ℕ} {x : Except Err (List UInt8 × StructureTag)} :
    TagRun i n x → 2 * n ≤ i.length + 2
  | .header _ => by omega
  | .primitive _ => by omega
  | .constructed h hc => by
    have hle := parseElement_length_le h
    have hloop := hc.calls_le
    omega
  | .content h hc => by
    have hle := parseElement_length_le h
    have hloop := hc.calls_le
    omega

theorem LoopRun.calls_le {c : List UInt8} {n : ℕ} {x : Except Err (List StructureTag)} :
    LoopRun c n x → 2 * n ≤ c.length + 2
  | .done => by omega
  | .failed _ h => h.calls_le
  | .round _ h hr => by
    have hm := h.calls_eq_nodes rfl
    have htag := h.weight_le rfl
    have hrest := hr.calls_le
    omega

end

/-- The octets taken from the input pay for the tags and their payloads. -/
theorem parseTag_weight_le {i r : List UInt8} {t : StructureTag} (h : parseTag i = .ok (r, t)) :
    ∃ w, i = w ++ r ∧ 2 ≤ w.length ∧ 2 * t.nodes + t.octets ≤ w.length := by
  obtain ⟨w, hw, rfl⟩ := parseTag_eq_append h
  obtain ⟨n, hrun⟩ := exists_tagRun (w ++ r)
  have hle := hrun.weight_le h
  rw [List.length_append] at hle
  exact ⟨w, rfl, hw, by omega⟩

/-- **The parser terminates and does not amplify.** On every input the recursion comes to an end,
with the one answer of `parse_tag`, after a number of calls bounded by the octets; and an accepted
element takes at least two octets, as many as twice its tags and its primitive content together. -/
theorem parseTag_terminates (b : List UInt8) :
    (∃ n, TagRun b n (parseTag b)) ∧
      (∀ n x, TagRun b n x → x = parseTag b ∧ 2 * n ≤ b.length + 2) ∧
      ∀ rest t, parseTag b = .ok (rest, t) →
        ∃ w, b = w ++ rest ∧ 2 ≤ w.length ∧ 2 * t.nodes + t.octets ≤ w.length :=
  ⟨exists_tagRun b, fun _ _ hrun ↦ ⟨hrun.eq_parseTag.symm, hrun.calls_le⟩,
    fun _ _ h ↦ parseTag_weight_le h⟩

end Ldap3
