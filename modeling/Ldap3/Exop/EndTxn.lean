import Ldap3.Ldap.Response

/-!
# End of a transaction

`EndTxnResp::parse` of `src/exop_impl/txn.rs`: the value of an End Transaction response, which has
the message id of a request that failed, or the controls in the responses of the updates, or
neither.

The updates come as a sequence of sequences, each with a message id and a list of controls. The
parser takes the outer sequence for a flat list of ids and control lists in turn, so the first thing
it hands to `parse_controls` is a pair, whose first element is not a control but a number. It panics
on every list that is not empty (`parse_panics`), and reads the others (`parse_iff`).
-/

namespace Ldap3

/-- `EndTxnResp`. -/
structure EndTxnResp where
  msgId : Option RequestId
  updsCtrls : Option (List (RequestId × List Control))
  deriving DecidableEq

namespace EndTxnResp

/-! ### The parser -/

/-- The inner loop: controls and message ids, popped off the end in turn. The list is reversed
here. -/
def popUpdates : List StructureTag → Except Fault (List (RequestId × List Control))
  | [] => return []
  | t :: tags => do
    let controls ← parseControls t
    match tags with
    | [] => throw (.panic "element")
    | t :: tags => do
      let v ← expect (t.matchClass .universal >>= (·.matchId Types.integer) >>= (·.expectPrimitive))
        "message id"
      let ctrls ← popUpdates tags
      return (asI32 (parseUint v), controls) :: ctrls

/-- The outer loop, with the message id read so far, and the elements it leaves. -/
def parseElements (msgId : Option RequestId) :
    List StructureTag → Except Fault (EndTxnResp × List StructureTag)
  | [] => return (⟨msgId, none⟩, [])
  | ⟨cls, id, .P v⟩ :: tags =>
    if id = Types.integer ∧ cls = .universal then
      parseElements (some (asI32 (parseUint v))) tags
    else
      throw (.panic "failed to parse endtxnresp")
  | ⟨cls, id, .C ts⟩ :: tags =>
    if id = Types.sequence ∧ cls = .universal then do
      let ctrls ← popUpdates ts.reverse
      return (⟨msgId, some ctrls⟩, tags)
    else
      throw (.panic "failed to parse endtxnresp")

/-- `EndTxnResp::parse`. -/
def parse (val : List UInt8) : Except Fault EndTxnResp := do
  match parseTag val with
  | .error _ => throw (.panic "endtxnresp: failed to parse tag")
  | .ok (_, tag) =>
    let tags ← expect tag.expectConstructed "endtxnresp: elements"
    let (resp, tags) ← parseElements none tags
    if tags.isEmpty then return resp else throw (.panic "failed to parse endtxnresp")

/-! ### Responses of a server -/

/-- An INTEGER with the number. -/
def IsInteger (n : RequestId) (t : StructureTag) : Prop :=
  ∃ v, Response.Denotes v n ∧ t = ⟨.universal, Types.integer, .P v⟩

/-- The controls of an update, with the message id of the update. -/
structure Update where
  msgId : RequestId
  controls : List ResponseControl
  msgId_range : 0 ≤ msgId ∧ msgId < 2 ^ 31

/-- A sequence of the message id and the controls. -/
def Update.IsTag (u : Update) (t : StructureTag) : Prop :=
  ∃ i, IsInteger u.msgId i ∧ t = ⟨.universal, Types.sequence,
    .C [i, ⟨.universal, Types.sequence, .C (u.controls.map ResponseControl.tag)⟩]⟩

/-- What is read of an update. -/
def Update.read (u : Update) : RequestId × List Control :=
  (u.msgId, u.controls.map ResponseControl.control)

/-- The value of a response, as the protocol has it. -/
structure TxnEndRes where
  msgId : Option RequestId
  updates : Option (List Update)
  msgId_range : ∀ n ∈ msgId, 0 ≤ n ∧ n < 2 ^ 31

namespace TxnEndRes

/-- The updates are a sequence of sequences. -/
def IsUpdates (us : List Update) (t : StructureTag) : Prop :=
  ∃ ts, List.Forall₂ Update.IsTag us ts ∧ t = ⟨.universal, Types.sequence, .C ts⟩

/-- A sequence of the components that are there. -/
def IsTag (r : TxnEndRes) (t : StructureTag) : Prop :=
  ∃ ids upds, List.Forall₂ IsInteger r.msgId.toList ids ∧
    List.Forall₂ IsUpdates r.updates.toList upds ∧
    t = ⟨.universal, Types.sequence, .C (ids ++ upds)⟩

/-- What the response is. -/
def resp (r : TxnEndRes) : EndTxnResp :=
  ⟨r.msgId, r.updates.map (List.map Update.read)⟩

end TxnEndRes

/-! ### Reading them -/

/-- The message id is read if it is there. -/
theorem parseElements_ids {msgId : Option RequestId} {ids : List StructureTag}
    (h : List.Forall₂ IsInteger msgId.toList ids) (hrange : ∀ n ∈ msgId, 0 ≤ n ∧ n < 2 ^ 31)
    (tags : List StructureTag) : parseElements none (ids ++ tags) = parseElements msgId tags := by
  rcases msgId with - | n
  · cases h
    rfl
  · obtain ⟨i, ids, ⟨v, hv, rfl⟩, hnil, rfl⟩ := List.forall₂_cons_left_iff.1 h
    obtain rfl := List.forall₂_nil_left_iff.1 hnil
    obtain ⟨h0, hlt⟩ := hrange n rfl
    rw [List.singleton_append, parseElements, if_pos ⟨rfl, rfl⟩,
      Response.asI32_of_denotes hv h0 hlt]

/-- A number is not a control. -/
theorem parseControls_isTag {u : Update} {t : StructureTag} (h : u.IsTag t) :
    parseControls t = .error (.panic "components") := by
  obtain ⟨i, ⟨v, -, rfl⟩, rfl⟩ := h
  rfl

/-- The last update is taken for a control list. -/
theorem popUpdates_panics {us : List Update} {ts : List StructureTag}
    (h : List.Forall₂ Update.IsTag us ts) (hne : us ≠ []) :
    popUpdates ts.reverse = .error (.panic "components") := by
  have hrev := List.forall₂_reverse_iff.2 h
  rcases hus : us.reverse with - | ⟨u, us'⟩
  · exact absurd (List.reverse_eq_nil_iff.1 hus) hne
  · rw [hus] at hrev
    obtain ⟨t, ts', hu, -, hts⟩ := List.forall₂_cons_left_iff.1 hrev
    rw [hts, popUpdates, parseControls_isTag hu]
    rfl

variable {r : TxnEndRes} {t : StructureTag} {w : List UInt8}

/-- The parser on an encoding of a response is its loop on the components. -/
theorem parse_of_isTag (h : r.IsTag t) (hw : Ber t w) (hlt : w.length < 2 ^ 64) :
    ∃ upds, List.Forall₂ TxnEndRes.IsUpdates r.updates.toList upds ∧
      parse w = (parseElements r.msgId upds >>= fun x ↦
        if x.2.isEmpty then pure x.1 else throw (.panic "failed to parse endtxnresp")) := by
  obtain ⟨ids, upds, hids, hupds, rfl⟩ := h
  refine ⟨upds, hupds, ?_⟩
  rw [parse, parseTag_of_ber_nil hw hlt, ← parseElements_ids hids r.msgId_range upds]
  rfl

/-- **A list of updates is never read.** -/
theorem parse_panics (h : r.IsTag t) (hw : Ber t w) (hlt : w.length < 2 ^ 64) {us : List Update}
    (hus : r.updates = some us) (hne : us ≠ []) :
    parse w = .error (.panic "components") := by
  obtain ⟨upds, hupds, hparse⟩ := parse_of_isTag h hw hlt
  rw [hus] at hupds
  obtain ⟨u, upds, ⟨ts, hts, rfl⟩, -, rfl⟩ := List.forall₂_cons_left_iff.1 hupds
  rw [hparse, parseElements, if_pos ⟨rfl, rfl⟩, popUpdates_panics hts hne]
  rfl

/-- **End Transaction responses** are read as what they are exactly when the list of updates is
absent or empty, whatever encoding the server chooses. -/
theorem parse_iff (h : r.IsTag t) (hw : Ber t w) (hlt : w.length < 2 ^ 64) :
    parse w = .ok r.resp ↔ ∀ us, r.updates = some us → us = [] := by
  constructor
  · intro hok us hus
    by_contra hne
    rw [parse_panics h hw hlt hus hne] at hok
    cases hok
  · intro hempty
    obtain ⟨upds, hupds, hparse⟩ := parse_of_isTag h hw hlt
    rw [hparse, TxnEndRes.resp]
    rcases hupdates : r.updates with - | us
    · rw [hupdates] at hupds
      cases hupds
      rfl
    · obtain rfl := hempty us hupdates
      rw [hupdates] at hupds
      obtain ⟨u, upds, ⟨ts, hts, rfl⟩, hnil, rfl⟩ := List.forall₂_cons_left_iff.1 hupds
      obtain rfl := List.forall₂_nil_left_iff.1 hnil
      obtain rfl := List.forall₂_nil_left_iff.1 hts
      rfl

/-- A failed request and no updates. -/
theorem parse_iff_failed :
    parse [0x30, 0x05, 0x02, 0x01, 0x07, 0x30, 0x00] = .ok ⟨some 7, some []⟩ := by
  have htag : TxnEndRes.IsTag ⟨some 7, some [], by simp⟩ ⟨.universal, 16, .C
      [⟨.universal, 2, .P [7]⟩, ⟨.universal, 16, .C []⟩]⟩ :=
    ⟨[_], [_], .cons ⟨[7], ⟨by decide, by decide⟩, rfl⟩ .nil, .cons ⟨[], .nil, rfl⟩ .nil, rfl⟩
  refine (parse_iff htag ?_ (by decide)).2 (by simp)
  have hid : Ber ⟨.universal, 2, .P [7]⟩ [0x02, 0x01, 0x07] :=
    ⟨by decide, _, .short (by decide), rfl⟩
  have hlist : Ber ⟨.universal, 16, .C []⟩ [0x30, 0x00] :=
    ⟨by decide, _, _, rfl, .short (by decide), rfl⟩
  exact ⟨by decide, _, _, ⟨_, _, hid, ⟨_, [], hlist, rfl, rfl⟩, rfl⟩, .short (by decide), rfl⟩

/-- One update without controls. -/
theorem parse_update_panics :
    ∃ r t, TxnEndRes.IsTag r t ∧
      Ber t [0x30, 0x09, 0x30, 0x07, 0x30, 0x05, 0x02, 0x01, 0x01, 0x30, 0x00] ∧
      r.resp = ⟨none, some [(1, [])]⟩ ∧
      parse [0x30, 0x09, 0x30, 0x07, 0x30, 0x05, 0x02, 0x01, 0x01, 0x30, 0x00] =
        .error (.panic "components") := by
  have hid : Ber ⟨.universal, 2, .P [1]⟩ [0x02, 0x01, 0x01] :=
    ⟨by decide, _, .short (by decide), rfl⟩
  have hlist : Ber ⟨.universal, 16, .C []⟩ [0x30, 0x00] :=
    ⟨by decide, _, _, rfl, .short (by decide), rfl⟩
  have hpair : Ber ⟨.universal, 16, .C [⟨.universal, 2, .P [1]⟩, ⟨.universal, 16, .C []⟩]⟩
      [0x30, 0x05, 0x02, 0x01, 0x01, 0x30, 0x00] :=
    ⟨by decide, _, _, ⟨_, _, hid, ⟨_, [], hlist, rfl, rfl⟩, rfl⟩, .short (by decide), rfl⟩
  have hupds : Ber ⟨.universal, 16, .C [⟨.universal, 16,
      .C [⟨.universal, 2, .P [1]⟩, ⟨.universal, 16, .C []⟩]⟩]⟩
      [0x30, 0x07, 0x30, 0x05, 0x02, 0x01, 0x01, 0x30, 0x00] :=
    ⟨by decide, _, _, ⟨_, [], hpair, rfl, rfl⟩, .short (by decide), rfl⟩
  have htag : TxnEndRes.IsTag ⟨none, some [⟨1, [], by decide⟩], by simp⟩
      ⟨.universal, 16, .C [⟨.universal, 16, .C [⟨.universal, 16,
        .C [⟨.universal, 2, .P [1]⟩, ⟨.universal, 16, .C []⟩]⟩]⟩]⟩ :=
    ⟨[], [_], .nil, .cons ⟨[_], .cons ⟨_, ⟨[1], ⟨by decide, by decide⟩, rfl⟩, rfl⟩ .nil, rfl⟩ .nil,
      rfl⟩
  have hber : Ber ⟨.universal, 16, .C [⟨.universal, 16, .C [⟨.universal, 16,
        .C [⟨.universal, 2, .P [1]⟩, ⟨.universal, 16, .C []⟩]⟩]⟩]⟩
      [0x30, 0x09, 0x30, 0x07, 0x30, 0x05, 0x02, 0x01, 0x01, 0x30, 0x00] :=
    ⟨by decide, _, _, ⟨_, [], hupds, rfl, rfl⟩, .short (by decide), rfl⟩
  exact ⟨_, _, htag, hber, rfl, by decide +kernel⟩

end EndTxnResp

end Ldap3
