import Ldap3.Conn.Registered

/-!
# What a Search receives

The item channel of a Search, from the moment the driver takes the request from its queue until the
result has arrived, while the driver also serves the other operations of the connection, in any
order (`Conn.Undisturbed`). Every message with the id of the Search is made into an item and sent,
and nothing else is: the channel holds the items of the messages in the order in which they came
(`Conn.Receiving.run`).

This rests on an invariant of all runs, `Conn.Mapped`: the map of the Searches holds operations that
were taken, each under its own id. It does not depend on how many ids were given out.
-/

namespace Ldap3

namespace Conn

variable {c c' : Conn} {o : ℕ} {id : RequestId}

/-! ### The map of the Searches -/

/-- Operations in the queue are not taken yet, and the map holds operations that were, under their
own ids. Nothing is sent to the others. -/
structure Mapped (c : Conn) : Prop where
  rx_queued : ∀ o ∈ c.rx, o < c.numOps ∧ (c.ops o).phase = .queued
  rx_nodup : c.rx.Nodup
  searchmap_op : ∀ id o, c.searchmap id = some o →
    o < c.numOps ∧ (c.ops o).id = id ∧ (c.ops o).phase = .taken
  searchmap_search : ∀ id o, c.searchmap id = some o → (c.ops o).op = .search
  items_nil : ∀ o, (c.ops o).phase ≠ .taken → (c.ops o).items = []

namespace Mapped

theorem init : Mapped Conn.init where
  rx_queued _ ho := absurd ho List.not_mem_nil
  rx_nodup := List.nodup_nil
  searchmap_op _ _ ho := nomatch ho
  searchmap_search _ _ ho := nomatch ho
  items_nil _ _ := rfl

/-- Steps that change the channels of operations, and take entries out of the map. -/
theorem frame (h : Mapped c) (hnum : c'.numOps = c.numOps) (hrx : c'.rx.Sublist c.rx)
    (hop : ∀ o, (c'.ops o).id = (c.ops o).id ∧ (c'.ops o).op = (c.ops o).op ∧
      (c'.ops o).phase = (c.ops o).phase)
    (hitems : ∀ o, (c.ops o).phase ≠ .taken → (c'.ops o).items = (c.ops o).items)
    (hmap : ∀ id o, c'.searchmap id = some o → c.searchmap id = some o) : Mapped c' where
  rx_queued o ho := by
    rw [hnum, (hop o).2.2]
    exact h.rx_queued o (hrx.subset ho)
  rx_nodup := h.rx_nodup.sublist hrx
  searchmap_op id o ho := by
    rw [hnum, (hop o).1, (hop o).2.2]
    exact h.searchmap_op id o (hmap id o ho)
  searchmap_search id o ho := by
    rw [(hop o).2.1]
    exact h.searchmap_search id o (hmap id o ho)
  items_nil o ho := by
    rw [(hop o).2.2] at ho
    rw [hitems o ho, h.items_nil o ho]

/-- The other channels of an operation change. -/
theorem frame_setOp (h : Mapped c) {f : Op → Op}
    (hf : (f (c.ops o)).id = (c.ops o).id ∧ (f (c.ops o)).op = (c.ops o).op ∧
      (f (c.ops o)).phase = (c.ops o).phase ∧ (f (c.ops o)).items = (c.ops o).items)
    (hnum : c'.numOps = c.numOps) (hops : c'.ops = (c.setOp o f).ops) (hrx : c'.rx.Sublist c.rx)
    (hmap : ∀ id o, c'.searchmap id = some o → c.searchmap id = some o) : Mapped c' := by
  refine h.frame hnum hrx ?_ ?_ hmap
  · rw [hops]
    exact c.setOp_request o ⟨hf.1, hf.2.1, hf.2.2.1⟩
  · intro o' _
    rw [hops]
    by_cases heq : o' = o
    · rw [heq, setOp_ops_self, hf.2.2.2]
    · rw [c.setOp_ops_of_ne f heq]

theorem sendReply (h : Mapped c) (o : ℕ) (r : Tag × List Control) : Mapped (c.sendReply o r) := by
  refine h.frame_setOp (o := o) ?_ rfl rfl (List.Sublist.refl _) fun _ _ h ↦ h
  split <;> exact ⟨rfl, rfl, rfl, rfl⟩

theorem stop (h : Mapped c) (why : Status) : Mapped (c.stop why) :=
  h.frame rfl (List.nil_sublist _) (fun _ ↦ ⟨rfl, rfl, rfl⟩) (fun _ _ ↦ rfl) (by rintro _ _ ⟨⟩)

theorem alloc (h : Mapped c) {op : LdapOp} {req : Tag} {controls : Option (List RawControl)}
    (hs : c.alloc op req controls = some c') : Mapped c' := by
  obtain ⟨id, -, rfl⟩ := alloc_spec hs
  set c' : Conn := { c with
    msgmap := ⟨⟨id, insert id c.msgmap.inUse⟩, false⟩
    numOps := c.numOps + 1
    ops := Function.update c.ops c.numOps (.new id op req controls) }
  have hnew : c'.ops c.numOps = .new id op req controls := Function.update_self ..
  have hother : ∀ o ≠ c.numOps, c'.ops o = c.ops o := fun o hne ↦ Function.update_of_ne hne _ _
  constructor
  · intro o ho
    obtain ⟨hlt, hqueued⟩ := h.rx_queued o ho
    exact ⟨Nat.lt_succ_of_lt hlt, by rw [hother o hlt.ne]; exact hqueued⟩
  · exact h.rx_nodup
  · intro id' o ho
    obtain ⟨hlt, hop⟩ := h.searchmap_op id' o ho
    exact ⟨Nat.lt_succ_of_lt hlt, by rw [hother o hlt.ne]; exact hop⟩
  · intro id' o ho
    rw [hother o (h.searchmap_op id' o ho).1.ne]
    exact h.searchmap_search id' o ho
  · intro o ho
    by_cases heq : o = c.numOps
    · rw [heq, hnew]
      rfl
    · rw [hother o heq] at ho ⊢
      exact h.items_nil o ho

theorem enqueue (h : Mapped c) (ho : o < c.numOps) (hphase : (c.ops o).phase = .allocated) :
    Mapped { c.setOp o fun op ↦ { op with phase := .queued } with rx := c.rx ++ [o] } := by
  have hnot : o ∉ c.rx := fun hmem ↦ by
    rw [(h.rx_queued o hmem).2] at hphase
    cases hphase
  have hself : (c.setOp o fun op ↦ { op with phase := .queued }).ops o =
      { c.ops o with phase := .queued } := setOp_ops_self ..
  have hother : ∀ o' ≠ o, (c.setOp o fun op ↦ { op with phase := .queued }).ops o' = c.ops o' :=
    fun o' hne ↦ c.setOp_ops_of_ne _ hne
  -- What is in the map was taken.
  have hne : ∀ id o', c.searchmap id = some o' → o' ≠ o := by
    rintro id o' ho' rfl
    rw [(h.searchmap_op id o' ho').2.2] at hphase
    cases hphase
  constructor
  · intro o' ho'
    rcases List.mem_append.1 ho' with ho' | ho'
    · have hne : o' ≠ o := fun heq ↦ hnot (heq ▸ ho')
      simp only [hother o' hne]
      exact h.rx_queued o' ho'
    · obtain rfl := List.mem_singleton.1 ho'
      exact ⟨ho, congrArg Op.phase hself⟩
  · exact List.nodup_append.2 ⟨h.rx_nodup, List.nodup_singleton o, fun a ha b hb heq ↦
      hnot (List.mem_singleton.1 hb ▸ heq ▸ ha)⟩
  · intro id o' ho'
    obtain ⟨hlt, hid, htaken⟩ := h.searchmap_op id o' ho'
    simp only [hother o' (hne id o' ho')]
    exact ⟨hlt, hid, htaken⟩
  · intro id o' ho'
    simp only [hother o' (hne id o' ho')]
    exact h.searchmap_search id o' ho'
  · intro o' ho'
    by_cases heq : o' = o
    · rw [heq, show _ = _ from congrArg Op.items hself]
      exact h.items_nil o (by rw [hphase]; simp)
    · simp only [hother o' heq] at ho' ⊢
      exact h.items_nil o' ho'

theorem take (h : Mapped c) {rx : List ℕ} (hrx : c.rx = o :: rx) : Mapped (c.take o rx) := by
  have hself := c.take_ops_self o rx
  have hother : ∀ o' ≠ o, (c.take o rx).ops o' = c.ops o' := fun o' hne ↦ c.take_ops_of_ne rx hne
  have hnodup : o ∉ rx ∧ rx.Nodup := List.nodup_cons.1 (hrx ▸ h.rx_nodup)
  constructor
  · intro o' ho'
    have hne : o' ≠ o := fun heq ↦ hnodup.1 (heq ▸ ho')
    rw [hother o' hne]
    exact h.rx_queued o' (hrx ▸ List.mem_cons_of_mem _ ho')
  · exact hnodup.2
  · intro id o' ho'
    obtain ⟨hlt, hid, htaken⟩ := h.searchmap_op id o' ho'
    by_cases heq : o' = o
    · subst heq
      rw [hself]
      exact ⟨hlt, hid, rfl⟩
    · rw [hother o' heq]
      exact ⟨hlt, hid, htaken⟩
  · intro id o' ho'
    by_cases heq : o' = o
    · subst heq
      rw [hself]
      exact h.searchmap_search id o' ho'
    · rw [hother o' heq]
      exact h.searchmap_search id o' ho'
  · intro o' ho'
    by_cases heq : o' = o
    · rw [heq, hself] at ho'
      exact absurd rfl ho'
    · rw [hother o' heq] at ho' ⊢
      exact h.items_nil o' ho'

theorem turnOp (h : Mapped c) {written : Bool} (hs : c.turnOp written = some c') : Mapped c' := by
  obtain ⟨o, rx, hrx, hturn⟩ := turnOp_cases hs
  have htake := h.take hrx
  have hlt : o < c.numOps := (h.rx_queued o (hrx ▸ List.mem_cons_self)).1
  have hid : ((c.take o rx).ops o).id = (c.ops o).id := by rw [c.take_ops_self]
  have hphase : ((c.take o rx).ops o).phase = .taken := by rw [c.take_ops_self]
  have hsame : ∀ o', ((c.take o rx).ops o').id = ((c.take o rx).ops o').id ∧
      ((c.take o rx).ops o').op = ((c.take o rx).ops o').op ∧
      ((c.take o rx).ops o').phase = ((c.take o rx).ops o').phase := fun _ ↦ ⟨rfl, rfl, rfl⟩
  cases hturn with
  | lost => exact htake.stop _
  | single => exact htake.frame rfl (List.Sublist.refl _) hsame (fun _ _ ↦ rfl) fun _ _ h ↦ h
  | search hop =>
    refine sendReply ?_ o _
    refine ⟨htake.rx_queued, htake.rx_nodup, ?_, ?_, htake.items_nil⟩
    · intro id o' ho'
      simp only [record, Function.update_apply] at ho'
      split at ho'
      · rename_i heq
        obtain rfl := Option.some.inj ho'
        exact ⟨hlt, hid.trans heq.symm, hphase⟩
      · exact htake.searchmap_op id o' ho'
    · intro id o' ho'
      simp only [record, Function.update_apply] at ho'
      split at ho'
      · obtain rfl := Option.some.inj ho'
        exact (congrArg Op.op (c.take_ops_self o rx)).trans hop
      · exact htake.searchmap_search id o' ho'
  | abandon =>
    refine sendReply ?_ o _
    exact htake.frame rfl (List.Sublist.refl _) hsame (fun _ _ ↦ rfl)
      fun _ _ ho' ↦ (update_none ho').2
  | abandonPoisoned =>
    exact htake.frame rfl (List.nil_sublist _) hsame (fun _ _ ↦ rfl) (by rintro _ _ ⟨⟩)
  | unbind =>
    refine sendReply ?_ o _
    exact htake.frame rfl (List.Sublist.refl _) hsame (fun _ _ ↦ rfl) fun _ _ h ↦ h

theorem turnResp (h : Mapped c) (id : RequestId) (tag : Tag) (controls : List Control) :
    Mapped (c.turnResp id tag controls) := by
  generalize hs : c.turnResp id tag controls = c'
  cases turnResp_cases hs with
  | @item o item remove hslot hitem =>
    -- The operation was taken, so it may have items.
    obtain ⟨-, -, htaken⟩ := h.searchmap_op id o hslot
    rw [sendItem_eq]
    refine h.frame rfl (List.Sublist.refl _) (c.setOp_request o ?_) ?_ ?_
    · split <;> exact ⟨rfl, rfl, rfl⟩
    · intro o' ho'
      have hne : o' ≠ o := by
        rintro rfl
        exact ho' htaken
      exact congrArg Op.items (c.setOp_ops_of_ne _ hne)
    · intro id' o' ho'
      simp only [record] at ho'
      split at ho'
      · exact (update_none ho').2
      · exact ho'
  | panicked | failed => exact h.stop _
  | result =>
    refine frame_setOp (c := c) h ?_ rfl rfl (List.Sublist.refl _) fun _ _ h ↦ h
    split <;> exact ⟨rfl, rfl, rfl, rfl⟩
  | resultPoisoned =>
    refine frame_setOp (c := c) h ?_ rfl rfl (List.nil_sublist _) (by rintro _ _ ⟨⟩)
    split <;> exact ⟨rfl, rfl, rfl, rfl⟩
  | unregistered =>
    exact h.frame rfl (List.Sublist.refl _) (fun _ ↦ ⟨rfl, rfl, rfl⟩) (fun _ _ ↦ rfl) fun _ _ h ↦ h

/-- One step keeps the invariant. -/
theorem step (h : Mapped c) {a : Act} (hs : c.step a = some c') : Mapped c' := by
  cases step_cases hs with
  | alloc hs => exact h.alloc hs
  | noId =>
    exact h.frame rfl (List.Sublist.refl _) (fun _ ↦ ⟨rfl, rfl, rfl⟩) (fun _ _ ↦ rfl) fun _ _ h ↦ h
  | enqueue ho hphase => exact h.enqueue ho hphase
  | @dropReply o =>
    exact h.frame_setOp (o := o) (f := fun op ↦ { op with replyOpen := false })
      ⟨rfl, rfl, rfl, rfl⟩ rfl rfl (List.Sublist.refl _) fun _ _ h ↦ h
  | @dropItems o =>
    exact h.frame_setOp (o := o) (f := fun op ↦ { op with itemsOpen := false })
      ⟨rfl, rfl, rfl, rfl⟩ rfl rfl (List.Sublist.refl _) fun _ _ h ↦ h
  | sendScrub =>
    exact h.frame rfl (List.Sublist.refl _) (fun _ ↦ ⟨rfl, rfl, rfl⟩) (fun _ _ ↦ rfl) fun _ _ h ↦ h
  | loseScrub => exact h
  | turnScrub =>
    exact h.frame rfl (List.Sublist.refl _) (fun _ ↦ ⟨rfl, rfl, rfl⟩) (fun _ _ ↦ rfl)
      fun _ _ ho ↦ (update_none ho).2
  | turnOp hs => exact h.turnOp hs
  | turnResp => exact h.turnResp _ _ _
  | scrubPoisoned | stop => exact h.stop _

theorem of_reach (h : Machine.Reach Conn.step Machine.any Conn.init c) : Mapped c :=
  h.invariant init fun h _ hs ↦ h.step hs

end Mapped

/-! ### A Search that goes on -/

/-- What the other users of the connection and the driver may do while the Search `o` with the id
`id` goes on: anything but to scrub or abandon it, to send another Search with its id, and to drop
its receiver; and the connection is not lost. -/
def Undisturbed (o : ℕ) (id : RequestId) (c : Conn) (a : Act) : Prop :=
  (∀ c' ∈ c.step a, c'.status = .running) ∧
    match a with
    | .turnScrub => c.idScrubRx.head? ≠ some id
    | .turnOp _ => ∀ o' ∈ c.rx.head?, (c.ops o').op ≠ .abandon id ∧
        ((c.ops o').op = .search → (c.ops o').id ≠ id)
    | .dropItems o' => o' ≠ o
    | _ => True

instance decidableUndisturbed (o : ℕ) (id : RequestId) (c : Conn) (a : Act) :
    Decidable (Undisturbed o id c a) :=
  match a with
  | .turnScrub => inferInstanceAs (Decidable (_ ∧ c.idScrubRx.head? ≠ some id))
  | .turnOp _ => inferInstanceAs (Decidable (_ ∧ ∀ o' ∈ c.rx.head?, _ ∧ (_ → _)))
  | .dropItems o' => inferInstanceAs (Decidable (_ ∧ o' ≠ o))
  | .alloc .. | .noId | .enqueue _ | .dropReply _ | .sendScrub _ | .turnResp .. | .stop _ =>
    inferInstanceAs (Decidable (_ ∧ True))

/-- The message for an id that the driver takes from the stream. -/
def Act.message (id : RequestId) : Act → Option (Tag × List Control)
  | .turnResp id' tag controls => if id' = id then some (tag, controls) else none
  | _ => none

/-- The item made of a message that is not the last. -/
def ItemMore (i : SearchItem × List Control) (m : Tag × List Control) : Prop :=
  searchItem m.1 = .ok (i.1, false) ∧ i.2 = m.2

/-- The Search `o` is registered under `id`, its request is answered by the driver, and it received
these items. -/
structure Receiving (c : Conn) (o : ℕ) (id : RequestId) (items : List (SearchItem × List Control)) :
    Prop where
  slot : c.searchmap id = some o
  replied : (c.ops o).reply.isSome
  itemsOpen : (c.ops o).itemsOpen = true
  items : (c.ops o).items = items

namespace Receiving

variable {items : List (SearchItem × List Control)}

theorem frame (h : Receiving c o id items) (hslot : c'.searchmap id = c.searchmap id)
    (hreply : (c.ops o).reply.isSome → (c'.ops o).reply.isSome)
    (hopen : (c'.ops o).itemsOpen = (c.ops o).itemsOpen)
    (hitems : (c'.ops o).items = (c.ops o).items) : Receiving c' o id items :=
  ⟨hslot.trans h.slot, hreply h.replied, hopen.trans h.itemsOpen, hitems.trans h.items⟩

/-- Another operation changes, or other fields of the connection. -/
theorem frame_ops (h : Receiving c o id items) (hslot : c'.searchmap id = c.searchmap id)
    (hops : c'.ops o = c.ops o) : Receiving c' o id items :=
  h.frame hslot (by rw [hops]; exact fun h ↦ h) (by rw [hops]) (by rw [hops])

theorem sendReply (h : Receiving c o id items) (o' : ℕ) (r : Tag × List Control) :
    Receiving (c.sendReply o' r) o id items := by
  by_cases heq : o = o'
  · subst heq
    have hself : (c.sendReply o r).ops o =
        if (c.ops o).replyOpen then { c.ops o with reply := some r } else c.ops o :=
      Function.update_self ..
    refine h.frame rfl ?_ ?_ ?_ <;> rw [hself] <;> split <;> simp
  · exact h.frame_ops rfl (Function.update_of_ne heq _ _)

theorem turnOp (h : Receiving c o id items) (hm : Mapped c) {written : Bool}
    (hgood : ∀ o' ∈ c.rx.head?, (c.ops o').op ≠ .abandon id ∧
      ((c.ops o').op = .search → (c.ops o').id ≠ id))
    (hs : c.turnOp written = some c') (hrunning : c'.status = .running) :
    Receiving c' o id items := by
  obtain ⟨o', rx, hrx, hturn⟩ := turnOp_cases hs
  obtain ⟨habandon, hsearch⟩ := hgood o' (by rw [hrx]; rfl)
  -- The Search was taken before, so it is another operation that is taken now.
  have hne : o ≠ o' := by
    rintro rfl
    have hqueued := (hm.rx_queued o (hrx ▸ List.mem_cons_self)).2
    rw [(hm.searchmap_op id o h.slot).2.2] at hqueued
    cases hqueued
  have hops : (c.take o' rx).ops o = c.ops o := c.take_ops_of_ne rx hne
  cases hturn with
  | lost => cases hrunning
  | single => exact h.frame_ops rfl hops
  | search hop =>
    refine sendReply ?_ o' _
    exact h.frame_ops (Function.update_of_ne (hsearch hop).symm _ _) hops
  | abandon hop =>
    refine sendReply ?_ o' _
    refine h.frame_ops (Function.update_of_ne ?_ _ _) hops
    rintro rfl
    exact habandon hop
  | abandonPoisoned => cases hrunning
  | unbind =>
    refine sendReply ?_ o' _
    exact h.frame_ops rfl hops

/-- A message for another id. -/
theorem turnResp_of_ne (h : Receiving c o id items) (hm : Mapped c) {id' : RequestId}
    (hne : id' ≠ id) (tag : Tag) (controls : List Control)
    (hrunning : (c.turnResp id' tag controls).status = .running) :
    Receiving (c.turnResp id' tag controls) o id items := by
  generalize hs : c.turnResp id' tag controls = c' at hrunning ⊢
  cases turnResp_cases hs with
  | @item o' item remove hslot hitem =>
    -- It goes to another Search.
    have hother : o ≠ o' := by
      rintro rfl
      exact hne ((hm.searchmap_op id' o hslot).2.1.symm.trans (hm.searchmap_op id o h.slot).2.1)
    rw [sendItem_eq]
    refine h.frame_ops ?_ (Function.update_of_ne hother _ _)
    simp only [record]
    split
    · exact Function.update_of_ne hne.symm _ _
    · rfl
  | panicked | failed => cases hrunning
  | @result o' hsearch hslot =>
    have hreply := sendReply (c := { c with
      resultmap := Function.update c.resultmap id' none }) (h.frame_ops rfl rfl) o' (tag, controls)
    exact hreply.frame_ops rfl rfl
  | resultPoisoned => cases hrunning
  | unregistered => exact h.frame_ops rfl rfl

/-- A message for the Search. -/
theorem turnResp_self (h : Receiving c o id items) {tag : Tag} {item : SearchItem} {remove : Bool}
    (hitem : searchItem tag = .ok (item, remove)) (controls : List Control) :
    (c.turnResp id tag controls).ops o =
        { c.ops o with items := items ++ [(item, controls)] } ∧
      (remove = false → Receiving (c.turnResp id tag controls) o id
        (items ++ [(item, controls)])) := by
  have hturn : c.turnResp id tag controls =
      (c.sendItem id o item controls remove).record (.decoded id tag controls) := by
    simp only [Conn.turnResp, h.slot, hitem]
  have hself : ((c.sendItem id o item controls remove).record (.decoded id tag controls)).ops o =
      { c.ops o with items := items ++ [(item, controls)] } := by
    rw [sendItem_eq, ← h.items]
    refine (setOp_ops_self c o _).trans ?_
    rw [if_pos h.itemsOpen]
  rw [hturn]
  refine ⟨hself, ?_⟩
  rintro rfl
  refine ⟨?_, ?_, ?_, ?_⟩
  · rw [sendItem_eq]
    simp [record, h.itemsOpen, h.slot]
  · rw [hself]
    exact h.replied
  · rw [hself]
    exact h.itemsOpen
  · rw [hself]

/-- **One step**: the item of a message for the Search is received, and nothing else. -/
theorem step (h : Receiving c o id items) (hm : Mapped c) {a : Act}
    (hgood : Undisturbed o id c a) (hs : c.step a = some c')
    {got : List (SearchItem × List Control)}
    (hgot : List.Forall₂ ItemMore got (a.message id).toList) :
    Receiving c' o id (items ++ got) := by
  obtain ⟨hlive, hgood⟩ := hgood
  have hrunning : c'.status = .running := hlive c' hs
  -- Everything but a message for the Search leaves it as it is.
  have hsilent : a.message id = none → Receiving c' o id items →
      Receiving c' o id (items ++ got) := by
    intro hnone h'
    rw [hnone] at hgot
    rw [List.forall₂_nil_right_iff.1 hgot, List.append_nil]
    exact h'
  cases step_cases hs with
  | alloc hs =>
    obtain ⟨id', -, rfl⟩ := alloc_spec hs
    have hlt := (hm.searchmap_op id o h.slot).1
    exact hsilent rfl (h.frame_ops rfl (Function.update_of_ne hlt.ne _ _))
  | noId => exact hsilent rfl (h.frame_ops rfl rfl)
  | @enqueue o' _ hphase =>
    have hne : o ≠ o' := by
      rintro rfl
      have htaken := (hm.searchmap_op id o h.slot).2.2
      rw [hphase] at htaken
      cases htaken
    exact hsilent rfl (h.frame_ops rfl (Function.update_of_ne hne _ _))
  | @dropReply o' =>
    refine hsilent rfl ?_
    by_cases heq : o = o'
    · subst heq
      have hself : (c.dropReply o).ops o = { c.ops o with replyOpen := false } :=
        Function.update_self ..
      refine h.frame rfl ?_ ?_ ?_ <;> rw [hself]
      exact fun h ↦ h
    · exact h.frame_ops rfl (Function.update_of_ne heq _ _)
  | dropItems => exact hsilent rfl (h.frame_ops rfl (Function.update_of_ne (Ne.symm hgood) _ _))
  | sendScrub => exact hsilent rfl (h.frame_ops rfl rfl)
  | loseScrub => exact hsilent rfl h
  | @turnScrub id' ids hids =>
    have hne : id ≠ id' := by
      rintro rfl
      exact hgood (by rw [hids]; rfl)
    exact hsilent rfl (h.frame_ops (Function.update_of_ne hne _ _) rfl)
  | scrubPoisoned => cases hrunning
  | turnOp hs => exact hsilent rfl (h.turnOp hm hgood hs hrunning)
  | @turnResp id' tag controls =>
    by_cases heq : id' = id
    · subst heq
      simp only [Act.message, if_true, Option.toList_some] at hgot
      obtain ⟨i, is, ⟨hitem, hctrls⟩, his, rfl⟩ := List.forall₂_cons_right_iff.1 hgot
      obtain rfl := List.forall₂_nil_right_iff.1 his
      obtain ⟨item, ctrls⟩ := i
      obtain rfl : ctrls = controls := hctrls
      exact (h.turnResp_self hitem ctrls).2 rfl
    · exact hsilent (if_neg heq) (h.turnResp_of_ne hm heq tag controls hrunning)
  | stop _ hwhy => exact absurd hrunning hwhy

/-- **A whole run**: the items of the messages are received, in the order in which they came. -/
theorem run {acts : List Act} (h : Receiving c o id items) (hm : Mapped c)
    (hrun : Machine.run Conn.step (Undisturbed o id) c acts = some c')
    {got : List (SearchItem × List Control)}
    (hgot : List.Forall₂ ItemMore got (acts.filterMap (Act.message id))) :
    Receiving c' o id (items ++ got) ∧ Mapped c' := by
  induction acts generalizing c items got with
  | nil =>
    obtain rfl := Option.some.inj hrun
    rw [List.forall₂_nil_right_iff.1 hgot, List.append_nil]
    exact ⟨h, hm⟩
  | cons a acts ih =>
    rw [Machine.run] at hrun
    split at hrun
    · rename_i hgood
      obtain ⟨c₁, hs, hrun⟩ := Option.bind_eq_some_iff.1 hrun
      have hsplit : (a :: acts).filterMap (Act.message id) =
          (a.message id).toList ++ acts.filterMap (Act.message id) := by
        rw [List.filterMap_cons]
        cases a.message id <;> rfl
      rw [hsplit] at hgot
      obtain ⟨got₁, got₂, hgot₁, hgot₂, rfl⟩ : ∃ got₁ got₂,
          List.Forall₂ ItemMore got₁ (a.message id).toList ∧
            List.Forall₂ ItemMore got₂ (acts.filterMap (Act.message id)) ∧ got = got₁ ++ got₂ :=
        ⟨_, _, List.forall₂_take_append _ _ _ hgot, List.forall₂_drop_append _ _ _ hgot,
          (List.take_append_drop _ _).symm⟩
      rw [← List.append_assoc]
      exact ih (h.step hm hgood hs hgot₁) (hm.step hs) hrun hgot₂
    · cases hrun

end Receiving

/-- The driver takes a Search from its queue, and writes its request. -/
theorem receiving_of_turnOp (hm : Mapped c) (hhead : c.rx.head? = some o)
    (hop : (c.ops o).op = .search) (hreply : (c.ops o).replyOpen = true)
    (hopen : (c.ops o).itemsOpen = true) (hs : c.turnOp true = some c') :
    Receiving c' o (c.ops o).id [] := by
  obtain ⟨o', rx, hrx, hturn⟩ := turnOp_cases hs
  obtain rfl : o' = o := by
    rw [hrx] at hhead
    exact Option.some.inj hhead
  have hqueued := (hm.rx_queued o' (hrx ▸ List.mem_cons_self)).2
  have hnil : (c.ops o').items = [] := hm.items_nil o' (by rw [hqueued]; simp)
  cases hturn with
  | search =>
    have hself : ((({ c.take o' rx with
        searchmap := Function.update c.searchmap (c.ops o').id (some o') } : Conn).record
          (.wrote o')).sendReply o' nullResult).ops o' =
            { c.ops o' with phase := .taken, reply := some nullResult } := by
      refine (setOp_ops_self _ o' _).trans ?_
      simp only [record, c.take_ops_self, hreply, if_true]
    refine ⟨Function.update_self .., ?_, ?_, ?_⟩ <;> rw [hself]
    · rfl
    · exact hopen
    · exact hnil
  | single hop' => rw [hop] at hop'; cases hop'
  | abandon hop' | abandonPoisoned hop' => rw [hop] at hop'; cases hop'
  | unbind hop' => rw [hop] at hop'; cases hop'

end Conn

end Ldap3
