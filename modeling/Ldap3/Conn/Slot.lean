import Ldap3.Conn.Driver
import Ldap3.Lib.Window
import Mathlib.Data.List.TakeWhile

/-!
# Response slots

Which messages of the server belong to an operation. An operation's *slot* is open from the moment
its request is written until an event closes it: a scrub or an Abandon of its id, the end of the
driver, and a message with its id, which has to be the last one if the operation is a Search. What
is delivered to an operation is the messages with its id in that window, up to the moment its
receiver is dropped (`delivered`).

This is said in terms of the log alone. `OpSlot` ties the driver's two maps and the channels of
one operation to it, and the lemmas about `OpSlot` say what becomes of it when one more event
happens: one that has nothing to do with the operation, one that drops a receiver, one that closes
the slot without a message.
-/

namespace Ldap3

/-! ### Slots in the log -/

namespace Event

def isWrote (o : ℕ) : Event → Bool
  | .wrote o' => o' = o
  | _ => false

/-- The message in an event, if it has the id. -/
def message (id : RequestId) : Event → Option (Tag × List Control)
  | .decoded id' tag controls => if id' = id then some (tag, controls) else none
  | _ => none

end Event

/-- The message is a SearchResultDone. -/
def isDone (tag : Tag) : Bool :=
  match tag with
  | .structureTag t => t.id = 5
  | _ => false

/-- The event closes the slot of an operation. -/
def Event.closes (op : LdapOp) (id : RequestId) : Event → Bool
  | .decoded id' tag _ => id' = id ∧ (op = .search → isDone tag)
  | .scrubbed id' => id' = id
  | .abandoned id' => id' = id
  | .ended => true
  | _ => false

/-- The event drops the receiver of the operation's messages. -/
def Event.drops (op : LdapOp) (o : ℕ) : Event → Bool
  | .replyDropped o' => o' = o ∧ op ≠ .search
  | .itemsDropped o' => o' = o ∧ op = .search
  | _ => false

/-- The log as long as the operation listens. -/
def heard (op : LdapOp) (o : ℕ) (log : List Event) : List Event :=
  log.takeWhile fun e ↦ !e.drops op o

/-- **What is to be delivered to an operation**: the messages with its id from the moment its
request is written up to the first event that closes its slot, as long as it listens. -/
def delivered (op : LdapOp) (o : ℕ) (id : RequestId) (log : List Event) :
    List (Tag × List Control) :=
  (Window.window (Event.isWrote o) (Event.closes op id) (heard op o log)).filterMap
    (Event.message id)

/-- The slot of an operation is open. -/
abbrev SlotOpen (op : LdapOp) (o : ℕ) (id : RequestId) (log : List Event) : Prop :=
  Window.IsOpen (Event.isWrote o) (Event.closes op id) log

/-- The operation's receiver was not dropped. -/
def Listening (op : LdapOp) (o : ℕ) (log : List Event) : Prop :=
  ∀ e ∈ log, ¬e.drops op o

section

variable {op : LdapOp} {o : ℕ} {id : RequestId} {log : List Event} {e : Event}

theorem exists_isWrote_iff : (∃ e ∈ log, e.isWrote o) ↔ .wrote o ∈ log := by
  constructor
  · rintro ⟨e, he, hw⟩
    cases e <;> simp [Event.isWrote] at hw
    rwa [← hw]
  · exact fun h ↦ ⟨_, h, by simp [Event.isWrote]⟩

theorem slotOpen_concat :
    SlotOpen op o id (log ++ [e]) ↔
      (.wrote o ∉ log ∧ e = .wrote o) ∨ (SlotOpen op o id log ∧ ¬e.closes op id) := by
  have he : e.isWrote o ↔ e = .wrote o := by cases e <;> simp [Event.isWrote]
  rw [SlotOpen, Window.isOpen_concat, exists_isWrote_iff, he]

theorem not_slotOpen_of_not_mem (h : .wrote o ∉ log) : ¬SlotOpen op o id log :=
  fun hopen ↦ h (exists_isWrote_iff.1 hopen.1)

theorem heard_eq_self (h : Listening op o log) : heard op o log = log := by
  rw [heard, List.takeWhile_eq_self_iff]
  intro e he
  simpa using h e he

theorem heard_concat_of_listening (h : Listening op o log) :
    heard op o (log ++ [e]) = if e.drops op o then log else log ++ [e] := by
  have hall : ∀ x ∈ log, (!x.drops op o) = true := by
    intro x hx
    simpa using h x hx
  rw [heard, List.takeWhile_append_of_pos hall]
  by_cases hd : e.drops op o <;> simp [hd]

theorem heard_concat_of_not_listening (h : ¬Listening op o log) :
    heard op o (log ++ [e]) = heard op o log := by
  rw [heard, heard, List.takeWhile_append, if_neg]
  intro hlen
  refine h fun x hx ↦ ?_
  have hself := List.takeWhile_eq_self_iff.1
    ((List.takeWhile_prefix fun e ↦ !Event.drops op o e).eq_of_length hlen) x hx
  simpa using hself

/-- One more event: its message is delivered if the slot is open and the operation listens. -/
theorem delivered_concat [Decidable (Listening op o log ∧ SlotOpen op o id log)] :
    delivered op o id (log ++ [e]) =
      if Listening op o log ∧ SlotOpen op o id log then
        delivered op o id log ++ (e.message id).toList
      else delivered op o id log := by
  classical
  by_cases hl : Listening op o log
  · rw [delivered, delivered, heard_concat_of_listening hl, heard_eq_self hl]
    by_cases hd : e.drops op o
    · have hm : e.message id = none := by
        cases e <;> simp [Event.drops, Event.message] at hd ⊢
      rw [if_pos hd, hm, Option.toList_none, List.append_nil, ite_self]
    · rw [if_neg hd, Window.window_concat]
      by_cases hopen : SlotOpen op o id log
      · rw [if_pos hopen, if_pos ⟨hl, hopen⟩, List.filterMap_append]
        rcases hm : e.message id with - | m <;> simp [hm]
      · rw [if_neg hopen, if_neg fun h ↦ hopen h.2]
  · rw [delivered, delivered, heard_concat_of_not_listening hl, if_neg fun h ↦ hl h.1]

theorem delivered_of_not_mem (h : .wrote o ∉ log) : delivered op o id log = [] := by
  have hno : ¬∃ e ∈ heard op o log, e.isWrote o := by
    rintro ⟨e, he, hw⟩
    exact h (exists_isWrote_iff.1 ⟨e, List.takeWhile_subset _ he, hw⟩)
  rw [delivered, Window.window_eq_nil hno]
  rfl

/-- An operation that waits for one message has none as long as its slot is open. -/
theorem delivered_of_slotOpen (hop : op ≠ .search) (hopen : SlotOpen op o id log) :
    delivered op o id log = [] := by
  classical
  induction log using List.reverseRecOn with
  | nil => exact absurd hopen (not_slotOpen_of_not_mem List.not_mem_nil)
  | append_singleton log e ih =>
    rw [delivered_concat]
    rcases slotOpen_concat.1 hopen with ⟨hno, rfl⟩ | ⟨hopen, hclose⟩
    · rw [if_neg fun h ↦ not_slotOpen_of_not_mem hno h.2, delivered_of_not_mem hno]
    · have hm : e.message id = none := by
        cases e with
        | decoded id' tag controls =>
          have hne : id' ≠ id := by
            rintro rfl
            exact hclose (by simp [Event.closes, hop])
          simp [Event.message, hne]
        | _ => rfl
      rw [hm, Option.toList_none, List.append_nil, ih hopen, ite_self]

/-- The event has nothing to do with the operation. -/
def Irrelevant (op : LdapOp) (o : ℕ) (id : RequestId) (e : Event) : Prop :=
  e ≠ .wrote o ∧ ¬e.closes op id ∧ e.message id = none ∧ ¬e.drops op o

theorem listening_concat : Listening op o (log ++ [e]) ↔ Listening op o log ∧ ¬e.drops op o := by
  simp [Listening, or_imp, forall_and]

end

/-! ### The slot of an operation -/

/-- The item sent for a message. -/
def ItemOf (item : SearchItem × List Control) (m : Tag × List Control) : Prop :=
  (∃ last, Conn.searchItem m.1 = .ok (item.1, last)) ∧ item.2 = m.2

/-- The receiver of the messages for the operation exists. -/
def Op.receiverOpen (op : Op) : Bool :=
  if op.op = .search then op.itemsOpen else op.replyOpen

/-- How the maps and the channels of an operation stand to its slot. -/
structure OpSlot (c : Conn) (o : ℕ) : Prop where
  listening : (c.ops o).receiverOpen ↔ Listening (c.ops o).op o c.log
  resultmap_iff : (c.ops o).op = .single →
    (c.resultmap (c.ops o).id = some o ↔ SlotOpen (c.ops o).op o (c.ops o).id c.log)
  reply_eq : (c.ops o).op = .single →
    (c.ops o).reply.toList = delivered (c.ops o).op o (c.ops o).id c.log
  searchmap_iff : (c.ops o).op = .search → (c.ops o).itemsOpen →
    (c.searchmap (c.ops o).id = some o ↔ SlotOpen (c.ops o).op o (c.ops o).id c.log)
  items_eq : (c.ops o).op = .search →
    List.Forall₂ ItemOf (c.ops o).items (delivered (c.ops o).op o (c.ops o).id c.log)
  reply_null : (c.ops o).op ≠ .single → ∀ r ∈ (c.ops o).reply, r = Conn.nullResult
  items_nil : (c.ops o).op ≠ .search → (c.ops o).items = []

namespace OpSlot

variable {c c' : Conn} {o : ℕ} {e : Event}

/-- The handle of a Search listens while it has the receiver of the items. -/
theorem listening_search (h : OpSlot c o) (hop : (c.ops o).op = .search) :
    Listening .search o c.log ↔ (c.ops o).itemsOpen := by
  have hiff := h.listening
  rw [Op.receiverOpen, if_pos hop, hop] at hiff
  exact hiff.symm

theorem listening_single (h : OpSlot c o) (hop : (c.ops o).op = .single) :
    Listening .single o c.log ↔ (c.ops o).replyOpen := by
  have hiff := h.listening
  rw [Op.receiverOpen, if_neg (by rw [hop]; decide), hop] at hiff
  exact hiff.symm

/-- An operation that is in its map has an open slot. -/
theorem slotOpen_search (h : OpSlot c o) (hop : (c.ops o).op = .search)
    (hsome : c.searchmap (c.ops o).id = some o) (hi : (c.ops o).itemsOpen) :
    SlotOpen .search o (c.ops o).id c.log :=
  hop ▸ (h.searchmap_iff hop hi).1 hsome

theorem slotOpen_single (h : OpSlot c o) (hop : (c.ops o).op = .single)
    (hsome : c.resultmap (c.ops o).id = some o) : SlotOpen .single o (c.ops o).id c.log :=
  hop ▸ (h.resultmap_iff hop).1 hsome

/-- A slot is not touched by what happens to other operations, or to the request. -/
theorem congr (h : OpSlot c o) (hop : ∃ p, c'.ops o = { c.ops o with phase := p })
    (hres : c'.resultmap (c.ops o).id = c.resultmap (c.ops o).id)
    (hsearch : c'.searchmap (c.ops o).id = c.searchmap (c.ops o).id) (hlog : c'.log = c.log) :
    OpSlot c' o := by
  obtain ⟨p, hop⟩ := hop
  constructor <;> rw [hop]
  · rw [hlog]; exact h.listening
  · rw [hlog]
    show _ → (c'.resultmap (c.ops o).id = _ ↔ _)
    rw [hres]
    exact h.resultmap_iff
  · rw [hlog]; exact h.reply_eq
  · rw [hlog]
    show _ → _ → (c'.searchmap (c.ops o).id = _ ↔ _)
    rw [hsearch]
    exact h.searchmap_iff
  · rw [hlog]; exact h.items_eq
  · exact h.reply_null
  · exact h.items_nil

/-- An event without a message that neither opens nor closes the slot can only drop receivers. -/
theorem drop (h : OpSlot c o) {a b : Bool}
    (hop : c'.ops o = { c.ops o with replyOpen := a, itemsOpen := b })
    (hitems : b → (c.ops o).itemsOpen)
    (hopen : (c'.ops o).receiverOpen ↔ (c.ops o).receiverOpen ∧ ¬e.drops (c.ops o).op o)
    (hres : c'.resultmap (c.ops o).id = c.resultmap (c.ops o).id)
    (hsearch : c'.searchmap (c.ops o).id = c.searchmap (c.ops o).id)
    (hlog : c'.log = c.log ++ [e]) (hw : e ≠ .wrote o)
    (hcl : ¬e.closes (c.ops o).op (c.ops o).id) (hm : e.message (c.ops o).id = none) :
    OpSlot c' o := by
  classical
  have hslot : SlotOpen (c.ops o).op o (c.ops o).id c'.log ↔
      SlotOpen (c.ops o).op o (c.ops o).id c.log := by
    rw [hlog, slotOpen_concat]
    simp [hw, hcl]
  have hdel : delivered (c.ops o).op o (c.ops o).id c'.log =
      delivered (c.ops o).op o (c.ops o).id c.log := by
    rw [hlog, delivered_concat, hm, Option.toList_none, List.append_nil, ite_self]
  constructor
  · rw [hopen, h.listening, hlog, hop, listening_concat]
  all_goals rw [hop]
  · show _ → (c'.resultmap (c.ops o).id = _ ↔ SlotOpen (c.ops o).op o (c.ops o).id c'.log)
    rw [hres, hslot]
    exact h.resultmap_iff
  · exact fun hsingle ↦ (h.reply_eq hsingle).trans hdel.symm
  · intro hop hb
    show c'.searchmap (c.ops o).id = _ ↔ SlotOpen (c.ops o).op o (c.ops o).id c'.log
    rw [hsearch, hslot]
    exact h.searchmap_iff hop (hitems hb)
  · show _ → List.Forall₂ ItemOf _ (delivered (c.ops o).op o (c.ops o).id c'.log)
    rw [hdel]
    exact h.items_eq
  · exact h.reply_null
  · exact h.items_nil

/-- Nor is a slot touched by an event that has nothing to do with the operation. -/
theorem concat (h : OpSlot c o) (hop : c'.ops o = c.ops o)
    (hres : c'.resultmap (c.ops o).id = c.resultmap (c.ops o).id)
    (hsearch : c'.searchmap (c.ops o).id = c.searchmap (c.ops o).id)
    (hlog : c'.log = c.log ++ [e]) (he : Irrelevant (c.ops o).op o (c.ops o).id e) :
    OpSlot c' o := by
  obtain ⟨hw, hcl, hm, hd⟩ := he
  refine h.drop (a := (c.ops o).replyOpen) (b := (c.ops o).itemsOpen) hop id ?_ hres hsearch hlog
    hw hcl hm
  rw [hop]
  exact (and_iff_left hd).symm

/-- An event that closes the slot without a message takes the operation out of the maps. -/
theorem close (h : OpSlot c o) (hop : ∃ p, c'.ops o = { c.ops o with phase := p })
    (hres : c'.resultmap (c.ops o).id = none) (hsearch : c'.searchmap (c.ops o).id = none)
    (hlog : c'.log = c.log ++ [e]) (hw : e ≠ .wrote o) (hcl : e.closes (c.ops o).op (c.ops o).id)
    (hm : e.message (c.ops o).id = none) (hd : ¬e.drops (c.ops o).op o) : OpSlot c' o := by
  classical
  have hclosed : ¬SlotOpen (c.ops o).op o (c.ops o).id c'.log := by
    rw [hlog, slotOpen_concat]
    simp [hw, hcl]
  have hdel : delivered (c.ops o).op o (c.ops o).id c'.log =
      delivered (c.ops o).op o (c.ops o).id c.log := by
    rw [hlog, delivered_concat, hm, Option.toList_none, List.append_nil, ite_self]
  obtain ⟨p, hop⟩ := hop
  constructor <;> rw [hop]
  · rw [hlog, listening_concat]
    exact h.listening.trans (and_iff_left hd).symm
  · intro _
    exact iff_of_false (fun hsome ↦ by simp [hres] at hsome) hclosed
  · exact fun hsingle ↦ (h.reply_eq hsingle).trans hdel.symm
  · intro _ _
    exact iff_of_false (fun hsome ↦ by simp [hsearch] at hsome) hclosed
  · show _ → List.Forall₂ ItemOf _ (delivered (c.ops o).op o (c.ops o).id c'.log)
    rw [hdel]
    exact h.items_eq
  · exact h.reply_null
  · exact h.items_nil

/-- The slot of an operation that just got its id. -/
theorem of_new {id : RequestId} {op : LdapOp} {req : Tag} {controls : Option (List RawControl)}
    (hop : c.ops o = .new id op req controls) (hwrote : .wrote o ∉ c.log)
    (hlisten : Listening op o c.log) (hres : c.resultmap id ≠ some o)
    (hsearch : c.searchmap id ≠ some o) : OpSlot c o := by
  have hclosed : ¬SlotOpen op o id c.log := not_slotOpen_of_not_mem hwrote
  have hdel : delivered op o id c.log = [] := delivered_of_not_mem hwrote
  constructor <;> rw [hop]
  · refine iff_of_true ?_ hlisten
    cases op <;> rfl
  · exact fun _ ↦ iff_of_false hres hclosed
  · exact fun _ ↦ hdel.symm
  · exact fun _ _ ↦ iff_of_false hsearch hclosed
  · intro _
    show List.Forall₂ ItemOf [] (delivered op o id c.log)
    rw [hdel]
    exact .nil
  · exact fun _ _ hr ↦ nomatch hr
  · exact fun _ ↦ rfl

end OpSlot

end Ldap3
