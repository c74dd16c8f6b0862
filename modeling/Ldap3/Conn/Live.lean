import Ldap3.Conn.Wire

/-!
# What the driver holds

The driver holds the senders of the channels that callers wait on. `Conn.Live` says that it loses
none of them: an operation on its way is in the queue, and one that was taken has its result or
waits for a message with its id. `Conn.Kept` says that it keeps the channels of all the operations
that its turn is not about.
-/

namespace Ldap3

namespace Conn

variable {c c' : Conn} {o : ℕ}

/-! ### The driver loses no operation -/

/-- An operation that was sent is in the queue until it is taken; the map of the results and the
results are those of operations that were taken; and one without a response has its result. -/
structure Live (c : Conn) : Prop where
  queued : c.status = .running → ∀ o, (c.ops o).phase = .queued → o ∈ c.rx
  mapped : ∀ id o, c.resultmap id = some o → o < c.numOps ∧ (c.ops o).phase = .taken
  reply_taken : ∀ o, (c.ops o).reply ≠ none → (c.ops o).phase = .taken
  answered : c.status = .running → ∀ o, (c.ops o).phase = .taken → (c.ops o).op ≠ .single →
    (c.ops o).replyOpen → (c.ops o).reply ≠ none

namespace Live

theorem init : Live Conn.init where
  queued _ _ ho := nomatch ho
  mapped _ _ ho := nomatch ho
  reply_taken _ ho := absurd rfl ho
  answered _ _ ho := nomatch ho

/-- Steps that take nothing from the queue and send no result. -/
theorem frame (h : Live c) (hnum : c'.numOps = c.numOps)
    (hrun : c'.status = .running → c.status = .running ∧ c'.rx = c.rx)
    (hops : ∀ o, (c'.ops o).phase = (c.ops o).phase ∧ (c'.ops o).op = (c.ops o).op ∧
      (c'.ops o).reply = (c.ops o).reply ∧ ((c'.ops o).replyOpen → (c.ops o).replyOpen))
    (hmap : ∀ id o, c'.resultmap id = some o → c.resultmap id = some o) : Live c' where
  queued hr o ho := by
    rw [(hops o).1] at ho
    rw [(hrun hr).2]
    exact h.queued (hrun hr).1 o ho
  mapped id o ho := by
    rw [hnum, (hops o).1]
    exact h.mapped id o (hmap id o ho)
  reply_taken o ho := by
    rw [(hops o).2.2.1] at ho
    rw [(hops o).1]
    exact h.reply_taken o ho
  answered hr o ho hop hopen := by
    rw [(hops o).1] at ho
    rw [(hops o).2.1] at hop
    rw [(hops o).2.2.1]
    exact h.answered (hrun hr).1 o ho hop ((hops o).2.2.2 hopen)

/-- One operation changes, and nothing else that the invariant is about. -/
theorem frame_setOp (h : Live c) {f : Op → Op} (hops : c'.ops = (c.setOp o f).ops)
    (hf : (f (c.ops o)).phase = (c.ops o).phase ∧ (f (c.ops o)).op = (c.ops o).op ∧
      (f (c.ops o)).reply = (c.ops o).reply ∧ ((f (c.ops o)).replyOpen → (c.ops o).replyOpen))
    (hnum : c'.numOps = c.numOps) (hrun : c'.status = .running → c.status = .running ∧ c'.rx = c.rx)
    (hmap : ∀ id o, c'.resultmap id = some o → c.resultmap id = some o) : Live c' := by
  refine h.frame hnum hrun (fun o' ↦ ?_) hmap
  rw [hops]
  by_cases heq : o' = o
  · rw [heq, setOp_ops_self]
    exact hf
  · rw [c.setOp_ops_of_ne f heq]
    exact ⟨rfl, rfl, rfl, id⟩

/-- Where the loop ends, the map of the results goes, and nothing is asked of the queue. -/
theorem stop (h : Live c) {why : Status} (hwhy : why ≠ .running) : Live (c.stop why) :=
  h.frame rfl (fun hr ↦ absurd hr hwhy) (fun _ ↦ ⟨rfl, rfl, rfl, id⟩) fun _ _ ho ↦ nomatch ho

/-- A new operation is neither queued nor taken. -/
theorem alloc (h : Live c) {op : LdapOp} {req : Tag} {controls : Option (List RawControl)}
    (hs : c.alloc op req controls = some c') : Live c' := by
  obtain ⟨id, -, rfl⟩ := alloc_spec hs
  set c' : Conn := { c with
    msgmap := ⟨⟨id, insert id c.msgmap.inUse⟩, false⟩
    numOps := c.numOps + 1
    ops := Function.update c.ops c.numOps (.new id op req controls) }
  have hnew : c'.ops c.numOps = .new id op req controls := Function.update_self ..
  have hother : ∀ o ≠ c.numOps, c'.ops o = c.ops o := fun o hne ↦ Function.update_of_ne hne _ _
  have hold : ∀ o, (c'.ops o).phase ≠ .allocated → c'.ops o = c.ops o := fun o ho ↦
    hother o fun heq ↦ ho (by rw [heq, hnew]; rfl)
  constructor
  · intro hr o ho
    have heq := hold o (by rw [ho]; simp)
    rw [heq] at ho
    exact h.queued hr o ho
  · intro id' o ho
    obtain ⟨hlt, htaken⟩ := h.mapped id' o ho
    exact ⟨Nat.lt_succ_of_lt hlt, by rw [hother o hlt.ne]; exact htaken⟩
  · intro o ho
    have hne : o ≠ c.numOps := fun heq ↦ ho (by rw [heq, hnew]; rfl)
    rw [hother o hne] at ho ⊢
    exact h.reply_taken o ho
  · intro hr o ho
    have heq := hold o (by rw [ho]; simp)
    rw [heq] at ho ⊢
    exact h.answered hr o ho

/-- It is queued where its sender puts it into the queue. -/
theorem enqueue (h : Live c) (hphase : (c.ops o).phase = .allocated) :
    Live { c.setOp o fun op ↦ { op with phase := .queued } with rx := c.rx ++ [o] } := by
  have hself : (c.setOp o fun op ↦ { op with phase := .queued }).ops o =
      { c.ops o with phase := .queued } := setOp_ops_self ..
  have hother : ∀ o' ≠ o, (c.setOp o fun op ↦ { op with phase := .queued }).ops o' = c.ops o' :=
    fun o' hne ↦ c.setOp_ops_of_ne _ hne
  have hne : ∀ o', (c.ops o').phase = .taken → o' ≠ o := by
    rintro o' htaken rfl
    rw [hphase] at htaken
    cases htaken
  constructor
  · intro hr o' ho'
    by_cases heq : o' = o
    · exact List.mem_append_right _ (List.mem_singleton.2 heq)
    · simp only [hother o' heq] at ho'
      exact List.mem_append_left _ (h.queued hr o' ho')
  · intro id o' ho'
    obtain ⟨hlt, htaken⟩ := h.mapped id o' ho'
    exact ⟨hlt, by simp only [hother o' (hne o' htaken)]; exact htaken⟩
  · intro o' ho'
    by_cases heq : o' = o
    · rw [heq, hself] at ho'
      have htaken := h.reply_taken o ho'
      exact absurd rfl (hne o htaken)
    · simp only [hother o' heq] at ho' ⊢
      exact h.reply_taken o' ho'
  · intro hr o' ho'
    have heq : o' ≠ o := by
      rintro rfl
      rw [hself] at ho'
      cases ho'
    simp only [hother o' heq] at ho' ⊢
    exact h.answered hr o' ho'

/-- The operation at the front of the queue is taken, with its result or its entry in the map. -/
theorem taken (h : Live c) {rx : List ℕ} {r : Option (Tag × List Control)} (hrx : c.rx = o :: rx)
    (ho : o < c.numOps) (hself : c'.ops o = { c.ops o with phase := .taken, reply := r })
    (hother : ∀ o' ≠ o, c'.ops o' = c.ops o') (hnum : c'.numOps = c.numOps)
    (hrun : c'.status = .running → c.status = .running ∧ c'.rx = rx ∧
      ((c.ops o).op ≠ .single → (c.ops o).replyOpen → r ≠ none))
    (hmap : ∀ id o', c'.resultmap id = some o' → c.resultmap id = some o' ∨ o' = o) : Live c' := by
  constructor
  · intro hr o' ho'
    have hne : o' ≠ o := by
      rintro rfl
      rw [hself] at ho'
      cases ho'
    rw [hother o' hne] at ho'
    have hmem := h.queued (hrun hr).1 o' ho'
    rw [hrx] at hmem
    rw [(hrun hr).2.1]
    exact (List.mem_cons.1 hmem).resolve_left hne
  · intro id o' ho'
    rw [hnum]
    by_cases heq : o' = o
    · rw [heq, hself]
      exact ⟨ho, rfl⟩
    · rw [hother o' heq]
      exact h.mapped id o' ((hmap id o' ho').resolve_right heq)
  · intro o' ho'
    by_cases heq : o' = o
    · rw [heq, hself]
    · rw [hother o' heq] at ho' ⊢
      exact h.reply_taken o' ho'
  · intro hr o' ho'
    by_cases heq : o' = o
    · rw [heq, hself]
      exact (hrun hr).2.2
    · rw [hother o' heq] at ho' ⊢
      exact h.answered (hrun hr).1 o' ho'

/-- **The one that is taken** leaves the queue. It gets the null result, or its slot in the map,
unless the loop ends. -/
theorem turnOp (h : Live c) (hm : Mapped c) {written : Bool} (hs : c.turnOp written = some c') :
    Live c' := by
  obtain ⟨o, rx, hrx, hturn⟩ := turnOp_cases hs
  have ho : o < c.numOps := (hm.rx_queued o (hrx ▸ List.mem_cons_self)).1
  -- An operation without a response gets its null result, unless nobody is there for it.
  have hnull : ∀ {c₁ : Conn}, c₁.ops = (c.take o rx).ops → c₁.numOps = c.numOps → c₁.rx = rx →
      c₁.status = c.status → (∀ id o', c₁.resultmap id = some o' → c.resultmap id = some o') →
      Live (c₁.sendReply o nullResult) := by
    intro c₁ hops hnum hrx' hstatus hmap
    have hself : c₁.ops o = { c.ops o with phase := .taken } := by rw [hops, take_ops_self]
    refine h.taken (r := if (c.ops o).replyOpen then some nullResult else (c.ops o).reply)
      hrx ho ?_ ?_ hnum ?_ fun id o' hres ↦ Or.inl (hmap id o' hres)
    · rw [sendReply, setOp_ops_self, hself]
      show (if (c.ops o).replyOpen then _ else _) = _
      split <;> rfl
    · intro o' hne
      rw [sendReply, setOp_ops_of_ne _ _ hne, hops, take_ops_of_ne _ _ hne]
    · intro hr
      refine ⟨hstatus ▸ hr, hrx', fun _ hopen ↦ ?_⟩
      rw [if_pos hopen]
      simp
  cases hturn with
  | lost =>
    refine h.taken hrx ho (c.take_ops_self o rx) (fun o' hne ↦ c.take_ops_of_ne rx hne) rfl
      ?_ ?_
    · intro hr
      cases hr
    · intro id o' hres
      cases hres
  | single hop =>
    refine h.taken hrx ho (c.take_ops_self o rx) (fun o' hne ↦ c.take_ops_of_ne rx hne) rfl
      (fun hr ↦ ⟨hr, rfl, fun hne ↦ absurd hop hne⟩) fun id o' hres ↦ ?_
    simp only [Function.update_apply] at hres
    split at hres
    · exact Or.inr (Option.some.inj hres).symm
    · exact Or.inl hres
  | search hop => exact hnull rfl rfl rfl rfl fun _ _ hres ↦ hres
  | abandon hop => exact hnull rfl rfl rfl rfl fun _ _ hres ↦ (update_none hres).2
  | abandonPoisoned =>
    refine h.taken hrx ho (c.take_ops_self o rx) (fun o' hne ↦ c.take_ops_of_ne rx hne) rfl
      ?_ ?_
    · intro hr
      cases hr
    · intro id o' hres
      cases hres
  | unbind hop => exact hnull rfl rfl rfl rfl fun _ _ hres ↦ hres

/-- The result of an operation that was taken is sent. -/
theorem sendResult (h : Live c) {id : RequestId} (hslot : c.resultmap id = some o) (tag : Tag)
    (controls : List Control) :
    Live (({ c with resultmap := Function.update c.resultmap id none }.sendReply o
      (tag, controls)).record (.decoded id tag controls)) := by
  obtain ⟨-, htaken⟩ := h.mapped id o hslot
  set c' := ({ c with resultmap := Function.update c.resultmap id none }.sendReply o
    (tag, controls)).record (.decoded id tag controls)
  have hops : ∀ o', (c'.ops o').phase = (c.ops o').phase ∧ (c'.ops o').op = (c.ops o').op ∧
      (c'.ops o').replyOpen = (c.ops o').replyOpen ∧
      ((c.ops o').reply ≠ none → (c'.ops o').reply ≠ none) ∧
      ((c'.ops o').reply ≠ none → (c.ops o').reply ≠ none ∨ o' = o) := by
    intro o'
    by_cases heq : o' = o
    · have hself : c'.ops o' = if (c.ops o).replyOpen then
          { c.ops o with reply := some (tag, controls) } else c.ops o := by
        rw [heq]
        exact setOp_ops_self ..
      rw [hself, heq]
      split
      · exact ⟨rfl, rfl, rfl, fun _ ↦ by simp, fun _ ↦ Or.inr rfl⟩
      · exact ⟨rfl, rfl, rfl, fun hr ↦ hr, fun _ ↦ Or.inr rfl⟩
    · have hother : c'.ops o' = c.ops o' := setOp_ops_of_ne _ _ heq
      rw [hother]
      exact ⟨rfl, rfl, rfl, fun hr ↦ hr, Or.inl⟩
  constructor
  · intro hr o' ho'
    rw [(hops o').1] at ho'
    exact h.queued hr o' ho'
  · intro id' o' ho'
    obtain ⟨hlt, htaken'⟩ := h.mapped id' o' (update_none ho').2
    exact ⟨hlt, (hops o').1.trans htaken'⟩
  · intro o' ho'
    rw [(hops o').1]
    rcases (hops o').2.2.2.2 ho' with hreply | rfl
    · exact h.reply_taken o' hreply
    · exact htaken
  · intro hr o' ho' hop hopen
    rw [(hops o').1] at ho'
    rw [(hops o').2.1] at hop
    rw [(hops o').2.2.1] at hopen
    exact (hops o').2.2.2.1 (h.answered hr o' ho' hop hopen)

/-- A message takes the slot of an operation and gives it the result. -/
theorem turnResp (h : Live c) (id : RequestId) (tag : Tag) (controls : List Control) :
    Live (c.turnResp id tag controls) := by
  generalize hs : c.turnResp id tag controls = c'
  cases turnResp_cases hs with
  | item =>
    rw [sendItem_eq]
    refine h.frame_setOp rfl ?_ rfl (fun hr ↦ ⟨hr, rfl⟩) fun _ _ hres ↦ hres
    split <;> exact ⟨rfl, rfl, rfl, fun hopen ↦ hopen⟩
  | panicked | failed => exact h.stop (by simp)
  | result hsearch hslot =>
    -- Releasing the id changes nothing that the invariant is about.
    exact (h.sendResult hslot tag controls).frame rfl (fun hr ↦ ⟨hr, rfl⟩)
      (fun _ ↦ ⟨rfl, rfl, rfl, fun hopen ↦ hopen⟩) fun _ _ hres ↦ hres
  | resultPoisoned hsearch hslot => exact (h.sendResult hslot tag controls).stop (by simp)
  | unregistered =>
    exact h.frame rfl (fun hr ↦ ⟨hr, rfl⟩) (fun _ ↦ ⟨rfl, rfl, rfl, fun hopen ↦ hopen⟩)
      fun _ _ hres ↦ hres

/-- **One step loses no operation.** -/
theorem step (h : Live c) (hm : Mapped c) {a : Act} (hs : c.step a = some c') : Live c' := by
  cases step_cases hs with
  | alloc hs => exact h.alloc hs
  | enqueue _ hphase => exact h.enqueue hphase
  | @dropReply o =>
    exact h.frame_setOp (o := o) (f := fun op ↦ { op with replyOpen := false }) rfl
      ⟨rfl, rfl, rfl, fun hopen ↦ nomatch hopen⟩ rfl (fun hr ↦ ⟨hr, rfl⟩) fun _ _ hres ↦ hres
  | @dropItems o =>
    exact h.frame_setOp (o := o) (f := fun op ↦ { op with itemsOpen := false }) rfl
      ⟨rfl, rfl, rfl, fun hopen ↦ hopen⟩ rfl (fun hr ↦ ⟨hr, rfl⟩) fun _ _ hres ↦ hres
  | noId | sendScrub | loseScrub =>
    exact h.frame rfl (fun hr ↦ ⟨hr, rfl⟩) (fun _ ↦ ⟨rfl, rfl, rfl, fun hopen ↦ hopen⟩)
      fun _ _ hres ↦ hres
  | turnScrub =>
    exact h.frame rfl (fun hr ↦ ⟨hr, rfl⟩) (fun _ ↦ ⟨rfl, rfl, rfl, fun hopen ↦ hopen⟩)
      fun _ _ hres ↦ (update_none hres).2
  | turnOp hs => exact h.turnOp hm hs
  | turnResp => exact h.turnResp _ _ _
  | scrubPoisoned => exact h.stop (by simp)
  | stop _ hwhy => exact h.stop hwhy

end Live

/-! ### The receivers of an operation -/

/-- Who reads the items of the operation can go on reading. -/
structure Feeds (op op' : Op) : Prop where
  items : op.itemsOpen → op'.itemsOpen
  length : op.items.length ≤ op'.items.length
  taken : op.phase = .taken → op'.phase = .taken

theorem Feeds.refl (op : Op) : Feeds op op :=
  ⟨id, le_rfl, id⟩

/-- Over several steps. -/
theorem Feeds.trans {op op' op'' : Op} (h : Feeds op op') (h' : Feeds op' op'') : Feeds op op'' :=
  ⟨h'.items ∘ h.items, h.length.trans h'.length, h'.taken ∘ h.taken⟩

/-- And who waits for its result can go on waiting. -/
structure Kept (op op' : Op) : Prop extends Feeds op op' where
  op_eq : op'.op = op.op
  reply : op.replyOpen → op'.replyOpen

theorem Kept.refl (op : Op) : Kept op op :=
  ⟨.refl op, rfl, id⟩

theorem Kept.trans {op op' op'' : Op} (h : Kept op op') (h' : Kept op' op'') : Kept op op'' :=
  ⟨h.toFeeds.trans h'.toFeeds, h'.op_eq.trans h.op_eq, h'.reply ∘ h.reply⟩

variable {a : Act} {op op' : Op}

/-- No change to an operation takes items from it, or closes their channel, but the drop of the
receiver. -/
theorem Update.feeds (h : Update a o op op') (hitems : a ≠ .dropItems o) : Feeds op op' := by
  refine ⟨?_, ?_, h.steady.2⟩
  · cases h with
    | dropItems ha => exact absurd ha hitems
    | _ => exact id
  · cases h with
    | item => exact List.length_append ▸ Nat.le_add_right _ _
    | _ => exact le_rfl

/-- Nor does one close the channel of the result. -/
theorem Update.kept (h : Update a o op op') (hreply : a ≠ .dropReply o)
    (hitems : a ≠ .dropItems o) : Kept op op' := by
  refine ⟨h.feeds hitems, h.steady.1.2.1, ?_⟩
  cases h with
  | dropReply ha => exact absurd ha hreply
  | _ => exact id

/-- **Receivers stay**, unless they are dropped. -/
theorem feeds_step (hs : c.step a = some c') (ho : o < c.numOps) (hitems : a ≠ .dropItems o) :
    Feeds (c.ops o) (c'.ops o) := by
  have hupdates := updates_step hs ho
  generalize c.ops o = op, c'.ops o = op' at hupdates ⊢
  induction hupdates with
  | refl => exact .refl _
  | tail _ hupdate ih => exact ih.trans (hupdate.feeds hitems)

/-- And both of them stay, if neither receiver is dropped. -/
theorem kept_step (hs : c.step a = some c') (ho : o < c.numOps) (hreply : a ≠ .dropReply o)
    (hitems : a ≠ .dropItems o) : Kept (c.ops o) (c'.ops o) := by
  have hupdates := updates_step hs ho
  generalize c.ops o = op, c'.ops o = op' at hupdates ⊢
  induction hupdates with
  | refl => exact .refl _
  | tail _ hupdate ih => exact ih.trans (hupdate.kept hreply hitems)

end Conn

end Ldap3
