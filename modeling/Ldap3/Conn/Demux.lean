import Ldap3.Conn.Client
import Ldap3.Conn.Requests
import Ldap3.Conn.Slot

/-!
# Demultiplexing

Who gets the messages of the server. `Demux` is the invariant that ties the driver's two maps and
the channels to the slots of all operations. Two slots never share an id as long as the ids have
not wrapped around, so a map holds at most one channel for an id, and a message reaches the one
operation that allocated its id.

The invariant is kept by every action, whoever carries it out and in whatever order
(`Demux.step`), and so it holds in every run of the handles and the driver.
-/

namespace Ldap3

/-- **The invariant of demultiplexing**, as long as the ids have not wrapped around. -/
structure Demux (c : Conn) : Prop where
  last_eq : c.msgmap.last = c.numOps
  id_eq : ∀ o < c.numOps, (c.ops o).id = o + 1
  inUse_le : ∀ id ∈ c.msgmap.inUse, id ≤ c.numOps
  rx_queued : ∀ o ∈ c.rx, o < c.numOps ∧ (c.ops o).phase = .queued
  rx_nodup : c.rx.Nodup
  wrote_taken : ∀ o, .wrote o ∈ c.log → o < c.numOps ∧ (c.ops o).phase = .taken
  dropped_lt : ∀ o, .replyDropped o ∈ c.log ∨ .itemsDropped o ∈ c.log → o < c.numOps
  resultmap_op : ∀ id o, c.resultmap id = some o →
    o < c.numOps ∧ (c.ops o).op = .single ∧ (c.ops o).id = id
  searchmap_op : ∀ id o, c.searchmap id = some o →
    o < c.numOps ∧ (c.ops o).op = .search ∧ (c.ops o).id = id
  slot : ∀ o < c.numOps, OpSlot c o

/-! ### What keeps the invariant -/

namespace Demux

variable {c c' : Conn}

theorem init : Demux Conn.init where
  last_eq := rfl
  id_eq o ho := absurd ho (Nat.not_lt_zero o)
  inUse_le _ hid := absurd hid (Finset.notMem_empty _)
  rx_queued _ ho := absurd ho List.not_mem_nil
  rx_nodup := List.nodup_nil
  wrote_taken _ ho := absurd ho List.not_mem_nil
  dropped_lt _ ho := ho.elim (absurd · List.not_mem_nil) (absurd · List.not_mem_nil)
  resultmap_op _ _ ho := nomatch ho
  searchmap_op _ _ ho := nomatch ho
  slot o ho := absurd ho (Nat.not_lt_zero o)

theorem id_inj (h : Demux c) {o o' : ℕ} (ho : o < c.numOps) (ho' : o' < c.numOps)
    (hid : (c.ops o).id = (c.ops o').id) : o = o' := by
  rw [h.id_eq o ho, h.id_eq o' ho'] at hid
  have hid' : (o : ℤ) + 1 = o' + 1 := hid
  omega

/-- As long as the ids have not wrapped around, they are given out in order. -/
theorem nextMsgid_eq (h : Demux c) (hlt : (c.numOps : ℤ) < i32Max)
    (hlock : c.msgmap.poisoned = false) :
    c.msgmap.nextMsgid = some (.ok (c.numOps + 1), ⟨⟨c.numOps + 1,
      insert (c.numOps + 1 : ℤ) c.msgmap.inUse⟩, false⟩) := by
  have hne : (c.numOps : ℤ) ≠ i32Max := ne_of_lt hlt
  have hfree : (c.numOps + 1 : ℤ) ∉ c.msgmap.inUse := fun hmem ↦ by
    have hle : (c.numOps : ℤ) + 1 ≤ c.numOps := h.inUse_le _ hmem
    omega
  rw [MsgmapMutex.nextMsgid, hlock, if_neg Bool.false_ne_true, nextMsgid, h.last_eq,
    show 2 ^ 31 = (2 ^ 31 - 1) + 1 from rfl, nextMsgidLoop, if_neg hne, if_pos hfree]
  rfl

/-- What adds nothing to the maps keeps the invariant if it keeps track of the requests and keeps
the slots. -/
theorem frame (h : Demux c) (hnum : c'.numOps = c.numOps)
    (hlast : c'.msgmap.last = c.msgmap.last) (hinUse : c'.msgmap.inUse ⊆ c.msgmap.inUse)
    (hop : ∀ o, (c'.ops o).id = (c.ops o).id ∧ (c'.ops o).op = (c.ops o).op)
    (hrx : ∀ o ∈ c'.rx, o < c.numOps ∧ (c'.ops o).phase = .queued) (hnodup : c'.rx.Nodup)
    (hwrote : ∀ o, .wrote o ∈ c'.log → o < c.numOps ∧ (c'.ops o).phase = .taken)
    (hdrop : ∀ o, .replyDropped o ∈ c'.log ∨ .itemsDropped o ∈ c'.log → o < c.numOps)
    (hres : ∀ id o, c'.resultmap id = some o → c.resultmap id = some o)
    (hsearch : ∀ id o, c'.searchmap id = some o → c.searchmap id = some o)
    (hslot : ∀ o < c.numOps, OpSlot c' o) : Demux c' where
  last_eq := by rw [hlast, hnum, h.last_eq]
  id_eq o ho := by rw [(hop o).1, h.id_eq o (hnum ▸ ho)]
  inUse_le id hid := by rw [hnum]; exact h.inUse_le id (hinUse hid)
  rx_queued o ho := by rw [hnum]; exact hrx o ho
  rx_nodup := hnodup
  wrote_taken o ho := by rw [hnum]; exact hwrote o ho
  dropped_lt o ho := by rw [hnum]; exact hdrop o ho
  resultmap_op id o ho := by
    rw [hnum, (hop o).1, (hop o).2]
    exact h.resultmap_op id o (hres id o ho)
  searchmap_op id o ho := by
    rw [hnum, (hop o).1, (hop o).2]
    exact h.searchmap_op id o (hsearch id o ho)
  slot o ho := hslot o (hnum ▸ ho)

/-- So does what leaves the requests alone and logs an event of another kind. -/
theorem frame_concat (h : Demux c) {e : Event} (hnum : c'.numOps = c.numOps)
    (hlast : c'.msgmap.last = c.msgmap.last) (hinUse : c'.msgmap.inUse ⊆ c.msgmap.inUse)
    (hop : ∀ o, (c'.ops o).id = (c.ops o).id ∧ (c'.ops o).op = (c.ops o).op ∧
      (c'.ops o).phase = (c.ops o).phase)
    (hrx : c'.rx.Sublist c.rx) (hlog : c'.log = c.log ++ [e])
    (he : ∀ o, e ≠ .wrote o ∧ (e = .replyDropped o ∨ e = .itemsDropped o → o < c.numOps))
    (hres : ∀ id o, c'.resultmap id = some o → c.resultmap id = some o)
    (hsearch : ∀ id o, c'.searchmap id = some o → c.searchmap id = some o)
    (hslot : ∀ o < c.numOps, OpSlot c' o) : Demux c' := by
  have hmem : ∀ e', e' ∈ c'.log → e' ∈ c.log ∨ e' = e := by
    intro e' he'
    rw [hlog] at he'
    simpa using he'
  refine h.frame hnum hlast hinUse (fun o ↦ ⟨(hop o).1, (hop o).2.1⟩) ?_ (h.rx_nodup.sublist hrx)
    ?_ ?_ hres hsearch hslot
  · intro o ho
    rw [(hop o).2.2]
    exact h.rx_queued o (hrx.subset ho)
  · intro o ho
    rw [(hop o).2.2]
    rcases hmem _ ho with ho | ho
    · exact h.wrote_taken o ho
    · exact absurd ho.symm (he o).1
  · rintro o (ho | ho) <;> rcases hmem _ ho with ho | ho
    · exact h.dropped_lt o (Or.inl ho)
    · exact (he o).2 (Or.inl ho.symm)
    · exact h.dropped_lt o (Or.inr ho)
    · exact (he o).2 (Or.inr ho.symm)

/-- An operation whose receiver was dropped is there. -/
theorem lt_of_drops (h : Demux c) {e : Event} {op : LdapOp} {o : ℕ} (he : e ∈ c.log)
    (hdrop : e.drops op o) : o < c.numOps := by
  cases e with
  | replyDropped o' =>
    obtain ⟨rfl, -⟩ : o' = o ∧ op ≠ .search := by simpa [Event.drops] using hdrop
    exact h.dropped_lt o' (Or.inl he)
  | itemsDropped o' =>
    obtain ⟨rfl, -⟩ : o' = o ∧ op = .search := by simpa [Event.drops] using hdrop
    exact h.dropped_lt o' (Or.inr he)
  | _ => cases hdrop

/-! ### Actions of the handles -/

theorem alloc (h : Demux c) {op : LdapOp} {req : Tag} {controls : Option (List RawControl)}
    (hle : (c'.numOps : ℤ) ≤ i32Max) (hs : c.alloc op req controls = some c') : Demux c' := by
  have hnum : c'.numOps = c.numOps + 1 := by
    obtain ⟨id, -, rfl⟩ := Conn.alloc_spec hs
    rfl
  -- The ids have not wrapped around, so `next_msgid` counts.
  have hlt : (c.numOps : ℤ) < i32Max := by
    have hcast : (c'.numOps : ℤ) = c.numOps + 1 := by rw [hnum]; rfl
    omega
  rw [Conn.alloc, h.nextMsgid_eq hlt (Conn.lock_of_alloc hs)] at hs
  obtain rfl := Option.some.inj hs
  set c' : Conn := { c with
    msgmap := ⟨⟨c.numOps + 1, insert (c.numOps + 1 : ℤ) c.msgmap.inUse⟩, false⟩
    numOps := c.numOps + 1
    ops := Function.update c.ops c.numOps (.new (c.numOps + 1) op req controls) } with hc'
  have hnew : c'.ops c.numOps = .new (c.numOps + 1) op req controls := Function.update_self ..
  have hold : ∀ o < c.numOps, c'.ops o = c.ops o := fun o ho ↦
    Function.update_of_ne (ne_of_lt ho) ..
  have hlt_succ : ∀ o, o < c.numOps → o < c.numOps + 1 := fun o ho ↦ Nat.lt_succ_of_lt ho
  refine ⟨rfl, ?_, ?_, ?_, h.rx_nodup, ?_, ?_, ?_, ?_, ?_⟩
  · intro o ho
    rcases Nat.lt_succ_iff_lt_or_eq.1 ho with ho | rfl
    · rw [hold o ho, h.id_eq o ho]
    · rw [hnew]
      rfl
  · intro id hid
    rcases Finset.mem_insert.1 hid with rfl | hid
    · exact le_refl _
    · exact (h.inUse_le id hid).trans (Int.le_add_one (le_refl _))
  · intro o ho
    obtain ⟨hlt, hqueued⟩ := h.rx_queued o ho
    exact ⟨hlt_succ o hlt, hold o hlt ▸ hqueued⟩
  · intro o ho
    obtain ⟨hlt, htaken⟩ := h.wrote_taken o ho
    exact ⟨hlt_succ o hlt, hold o hlt ▸ htaken⟩
  · exact fun o ho ↦ hlt_succ o (h.dropped_lt o ho)
  · intro id o ho
    obtain ⟨hlt, hop⟩ := h.resultmap_op id o ho
    exact ⟨hlt_succ o hlt, hold o hlt ▸ hop⟩
  · intro id o ho
    obtain ⟨hlt, hop⟩ := h.searchmap_op id o ho
    exact ⟨hlt_succ o hlt, hold o hlt ▸ hop⟩
  · intro o ho
    rcases Nat.lt_succ_iff_lt_or_eq.1 ho with ho | rfl
    · exact (h.slot o ho).congr ⟨_, hold o ho⟩ rfl rfl rfl
    -- Nothing in the log or the maps speaks of the new operation.
    exact OpSlot.of_new hnew (fun hw ↦ lt_irrefl _ (h.wrote_taken _ hw).1)
      (fun e he hdrop ↦ lt_irrefl _ (h.lt_of_drops he hdrop))
      (fun hres ↦ lt_irrefl _ (h.resultmap_op _ _ hres).1)
      (fun hsearch ↦ lt_irrefl _ (h.searchmap_op _ _ hsearch).1)

theorem enqueue (h : Demux c) {o : ℕ} (ho : o < c.numOps)
    (hphase : (c.ops o).phase = .allocated) :
    Demux { c.setOp o fun op ↦ { op with phase := .queued } with rx := c.rx ++ [o] } := by
  set c' : Conn := { c.setOp o fun op ↦ { op with phase := .queued } with rx := c.rx ++ [o] }
  have hself : c'.ops o = { c.ops o with phase := .queued } := Function.update_self ..
  -- What is queued or written is past `allocated`, so it is not this operation.
  have hother : ∀ o', (c.ops o').phase ≠ .allocated → c'.ops o' = c.ops o' := by
    intro o' hp
    refine Function.update_of_ne ?_ _ _
    rintro rfl
    exact hp hphase
  have hsame : ∀ o', ∃ p, c'.ops o' = { c.ops o' with phase := p } := by
    intro o'
    by_cases heq : o' = o
    · exact ⟨_, heq ▸ hself⟩
    · exact ⟨_, Function.update_of_ne heq _ _⟩
  refine h.frame rfl rfl subset_rfl ?_ ?_ ?_ ?_ h.dropped_lt (fun _ _ ↦ id) (fun _ _ ↦ id)
    fun o' ho' ↦ (h.slot o' ho').congr (hsame o') rfl rfl rfl
  · intro o'
    obtain ⟨p, hp⟩ := hsame o'
    rw [hp]
    exact ⟨rfl, rfl⟩
  · intro o' ho'
    rcases List.mem_append.1 ho' with ho' | ho'
    · have hq := h.rx_queued o' ho'
      rw [hother o' (by simp [hq.2])]
      exact hq
    · obtain rfl := List.mem_singleton.1 ho'
      rw [hself]
      exact ⟨ho, rfl⟩
  · refine List.nodup_append.2 ⟨h.rx_nodup, List.nodup_singleton o, ?_⟩
    rintro o' ho' o'' ho'' rfl
    obtain rfl := List.mem_singleton.1 ho''
    simp [(h.rx_queued o' ho').2] at hphase
  · intro o' ho'
    have ht := h.wrote_taken o' ho'
    rw [hother o' (by simp [ht.2])]
    exact ht

/-- Receivers of an operation are dropped. -/
theorem drop (h : Demux c) {o : ℕ} {e : Event} {a b : Op → Bool} (ho : o < c.numOps)
    (he : e = .replyDropped o ∨ e = .itemsDropped o) (hitems : b (c.ops o) → (c.ops o).itemsOpen)
    (hopen : Op.receiverOpen { c.ops o with replyOpen := a (c.ops o), itemsOpen := b (c.ops o) } ↔
      (c.ops o).receiverOpen ∧ ¬e.drops (c.ops o).op o) :
    Demux ((c.setOp o fun op ↦ { op with replyOpen := a op, itemsOpen := b op }).record e) := by
  set c' := (c.setOp o fun op ↦ { op with replyOpen := a op, itemsOpen := b op }).record e
  have hself : c'.ops o = { c.ops o with replyOpen := a (c.ops o), itemsOpen := b (c.ops o) } :=
    Function.update_self ..
  have hother : ∀ o' ≠ o, c'.ops o' = c.ops o' := fun o' hne ↦ Function.update_of_ne hne _ _
  have hsilent : ∀ o' op id, e ≠ .wrote o' ∧ ¬e.closes op id ∧ e.message id = none := by
    intro o' op id
    rcases he with rfl | rfl <;> simp [Event.closes, Event.message]
  refine h.frame_concat rfl rfl subset_rfl ?_ (List.Sublist.refl _) rfl ?_ (fun _ _ h ↦ h)
    (fun _ _ h ↦ h) ?_
  · intro o'
    by_cases heq : o' = o
    · rw [heq, hself]
      exact ⟨rfl, rfl, rfl⟩
    · rw [hother o' heq]
      exact ⟨rfl, rfl, rfl⟩
  · intro o'
    refine ⟨(hsilent o' .single 0).1, fun ho' ↦ ?_⟩
    rcases he with rfl | rfl <;> simp at ho' <;> exact ho' ▸ ho
  · intro o' ho'
    obtain ⟨hw, hcl, hm⟩ := hsilent o' (c.ops o').op (c.ops o').id
    by_cases heq : o' = o
    · subst heq
      refine (h.slot o' ho').drop hself hitems ?_ rfl rfl rfl hw hcl hm
      rw [hself]
      exact hopen
    · refine (h.slot o' ho').concat (hother o' heq) rfl rfl rfl ⟨hw, hcl, hm, ?_⟩
      rcases he with rfl | rfl <;> simp [Event.drops, Ne.symm heq]

theorem dropReply (h : Demux c) {o : ℕ} (ho : o < c.numOps) : Demux (c.dropReply o) := by
  refine h.drop (a := fun _ ↦ false) (b := Op.itemsOpen) ho (Or.inl rfl) id ?_
  by_cases hop : (c.ops o).op = .search <;> simp [Op.receiverOpen, Event.drops, hop]

theorem dropItems (h : Demux c) {o : ℕ} (ho : o < c.numOps) : Demux (c.dropItems o) := by
  refine h.drop (a := Op.replyOpen) (b := fun _ ↦ false) ho (Or.inr rfl) (by simp) ?_
  by_cases hop : (c.ops o).op = .search <;> simp [Op.receiverOpen, Event.drops, hop]

theorem sendScrub (h : Demux c) (id : RequestId) :
    Demux { c with idScrubRx := c.idScrubRx ++ [id] } :=
  h.frame rfl rfl subset_rfl (fun _ ↦ ⟨rfl, rfl⟩) h.rx_queued h.rx_nodup h.wrote_taken
    h.dropped_lt (fun _ _ h ↦ h) (fun _ _ h ↦ h)
    fun o ho ↦ (h.slot o ho).congr ⟨_, rfl⟩ rfl rfl rfl

theorem noId (h : Demux c) : Demux { c with msgmap := ⟨c.msgmap.map, true⟩ } :=
  h.frame rfl rfl subset_rfl (fun _ ↦ ⟨rfl, rfl⟩) h.rx_queued h.rx_nodup h.wrote_taken
    h.dropped_lt (fun _ _ h ↦ h) (fun _ _ h ↦ h)
    fun o ho ↦ (h.slot o ho).congr ⟨_, rfl⟩ rfl rfl rfl

/-! ### Actions of the driver -/

/-- The driver releases an id. -/
theorem erase (h : Demux c) (id : RequestId) : Demux (c.erase id) :=
  h.frame rfl rfl (Finset.erase_subset ..) (fun _ ↦ ⟨rfl, rfl⟩) h.rx_queued h.rx_nodup
    h.wrote_taken h.dropped_lt (fun _ _ h ↦ h) (fun _ _ h ↦ h)
    fun o ho ↦ (h.slot o ho).congr ⟨_, rfl⟩ rfl rfl rfl

/-- The driver takes the ids out of both maps at an event that closes their slots. -/
theorem unregister (h : Demux c) {e : Event} {p : RequestId → Prop} [DecidablePred p]
    (hnum : c'.numOps = c.numOps) (hlast : c'.msgmap.last = c.msgmap.last)
    (hinUse : c'.msgmap.inUse ⊆ c.msgmap.inUse)
    (hop : ∀ o, c'.ops o = c.ops o) (hrx : c'.rx.Sublist c.rx) (hlog : c'.log = c.log ++ [e])
    (hres : ∀ id, c'.resultmap id = if p id then none else c.resultmap id)
    (hsearch : ∀ id, c'.searchmap id = if p id then none else c.searchmap id)
    (he : ∀ op o id, e ≠ .wrote o ∧ e.message id = none ∧ ¬e.drops op o ∧
      (e.closes op id ↔ p id)) : Demux c' := by
  have hdrop : ∀ o, e ≠ .replyDropped o ∧ e ≠ .itemsDropped o := by
    intro o
    constructor
    · rintro rfl
      simpa [Event.drops] using (he .single o 0).2.2.1
    · rintro rfl
      simpa [Event.drops] using (he .search o 0).2.2.1
  refine h.frame_concat hnum hlast hinUse (fun o ↦ by simp [hop o]) hrx hlog ?_ ?_ ?_ ?_
  · intro o
    exact ⟨(he .single o 0).1, fun ho ↦ absurd ho (by simp [hdrop o])⟩
  · intro id o ho
    rw [hres] at ho
    split at ho
    · cases ho
    · exact ho
  · intro id o ho
    rw [hsearch] at ho
    split at ho
    · cases ho
    · exact ho
  · intro o ho
    obtain ⟨hw, hm, hd, hcl⟩ := he (c.ops o).op o (c.ops o).id
    by_cases hclosed : p (c.ops o).id
    · exact (h.slot o ho).close ⟨_, hop o⟩ (by rw [hres, if_pos hclosed])
        (by rw [hsearch, if_pos hclosed]) hlog hw (hcl.2 hclosed) hm hd
    · exact (h.slot o ho).concat (hop o) (by rw [hres, if_neg hclosed])
        (by rw [hsearch, if_neg hclosed]) hlog ⟨hw, mt hcl.1 hclosed, hm, hd⟩

theorem stop (h : Demux c) (why : Status) : Demux (c.stop why) :=
  h.unregister (p := fun _ ↦ True) rfl rfl subset_rfl (fun _ ↦ rfl) (List.nil_sublist _) rfl
    (fun _ ↦ rfl) (fun _ ↦ rfl)
    fun _ _ _ ↦ ⟨by simp, rfl, by simp [Event.drops], by simp [Event.closes]⟩

theorem turnScrub (h : Demux c) (reqId : RequestId) (ids : List RequestId) :
    Demux ((({ c with idScrubRx := ids }.unregister reqId).erase reqId).record
      (.scrubbed reqId)) := by
  refine h.unregister (p := fun id ↦ id = reqId) rfl rfl (Finset.erase_subset ..) (fun _ ↦ rfl)
    (List.Sublist.refl _) rfl ?_ ?_ ?_
  · intro id
    exact Function.update_apply ..
  · intro id
    exact Function.update_apply ..
  · intro op o id
    refine ⟨by simp, rfl, by simp [Event.drops], ?_⟩
    simp [Event.closes, eq_comm]

/-- The request of an operation is taken from the queue. -/
theorem take (h : Demux c) {o : ℕ} {rx : List ℕ} (hrx : c.rx = o :: rx) : Demux (c.take o rx) := by
  set c' : Conn := c.take o rx
  have hself : c'.ops o = { c.ops o with phase := .taken } := c.take_ops_self o rx
  have hother : ∀ o' ≠ o, c'.ops o' = c.ops o' := fun o' hne ↦ c.take_ops_of_ne rx hne
  have hsame : ∀ o', ∃ p, c'.ops o' = { c.ops o' with phase := p } := by
    intro o'
    by_cases heq : o' = o
    · exact ⟨_, heq ▸ hself⟩
    · exact ⟨_, hother o' heq⟩
  have hnodup : (o :: rx).Nodup := hrx ▸ h.rx_nodup
  refine h.frame rfl rfl subset_rfl ?_ ?_ (List.nodup_cons.1 hnodup).2 ?_ h.dropped_lt
    (fun _ _ h ↦ h) (fun _ _ h ↦ h) fun o' ho' ↦ (h.slot o' ho').congr (hsame o') rfl rfl rfl
  · intro o'
    obtain ⟨p, hp⟩ := hsame o'
    rw [hp]
    exact ⟨rfl, rfl⟩
  · intro o' ho'
    have hne : o' ≠ o := by
      rintro rfl
      exact (List.nodup_cons.1 hnodup).1 ho'
    rw [hother o' hne]
    exact h.rx_queued o' (hrx ▸ List.mem_cons_of_mem _ ho')
  · intro o' ho'
    by_cases heq : o' = o
    · subst heq
      exact ⟨(h.wrote_taken o' ho').1, by rw [hself]⟩
    · rw [hother o' heq]
      exact h.wrote_taken o' ho'

/-- The entries of a map into which an operation of the right kind was put. -/
theorem entry_of_put {p : Prop} [Decidable p] {map : RequestId → Option ℕ} {id : RequestId} {o : ℕ}
    {P : RequestId → ℕ → Prop} (hmap : ∀ id' o', map id' = some o' → P id' o') (hnew : p → P id o)
    (id' : RequestId) (o' : ℕ)
    (h : (if p then Function.update map id (some o) else map) id' = some o') : P id' o' := by
  split at h
  · rename_i hp
    rw [Function.update_apply] at h
    split at h
    · rename_i hid
      obtain rfl := Option.some.inj h
      exact hid ▸ hnew hp
    · exact hmap id' o' h
  · exact hmap id' o' h

theorem put_of_ne {p : Prop} [Decidable p] {map : RequestId → Option ℕ} {id id' : RequestId}
    (hne : id' ≠ id) (o : ℕ) :
    (if p then Function.update map id (some o) else map) id' = map id' := by
  split
  · exact Function.update_of_ne hne _ _
  · rfl

/-- The request of an operation is written and the operation registered. -/
theorem write (h : Demux c) {o : ℕ} (ho : o < c.numOps) (htaken : (c.ops o).phase = .taken)
    (hnew : .wrote o ∉ c.log) :
    Demux { c with
      resultmap :=
        if (c.ops o).op = .single then Function.update c.resultmap (c.ops o).id (some o)
        else c.resultmap
      searchmap :=
        if (c.ops o).op = .search then Function.update c.searchmap (c.ops o).id (some o)
        else c.searchmap
      log := c.log ++ [.wrote o] } := by
  classical
  -- Ids are not shared, so the entries of the others stay.
  have hids : ∀ o' < c.numOps, o' ≠ o → (c.ops o').id ≠ (c.ops o).id :=
    fun o' ho' hne hid ↦ hne (h.id_inj ho' ho hid)
  -- Before its request is written nothing is delivered, and writing it opens the slot.
  have hdel : delivered (c.ops o).op o (c.ops o).id (c.log ++ [.wrote o]) = [] := by
    rw [delivered_concat, if_neg fun hd ↦ not_slotOpen_of_not_mem hnew hd.2,
      delivered_of_not_mem hnew]
  have hold : delivered (c.ops o).op o (c.ops o).id c.log = [] := delivered_of_not_mem hnew
  have hopen : SlotOpen (c.ops o).op o (c.ops o).id (c.log ++ [.wrote o]) :=
    slotOpen_concat.2 (Or.inl ⟨hnew, rfl⟩)
  refine ⟨h.last_eq, h.id_eq, h.inUse_le, h.rx_queued, h.rx_nodup, ?_, ?_, ?_, ?_, ?_⟩
  · intro o' ho'
    rcases List.mem_append.1 ho' with ho' | ho'
    · exact h.wrote_taken o' ho'
    · obtain rfl : o' = o := by simpa using ho'
      exact ⟨ho, htaken⟩
  · intro o' ho'
    exact h.dropped_lt o' (by simpa using ho')
  · exact entry_of_put h.resultmap_op fun hop ↦ ⟨ho, hop, rfl⟩
  · exact entry_of_put h.searchmap_op fun hop ↦ ⟨ho, hop, rfl⟩
  · intro o' ho'
    by_cases heq : o' = o
    · subst heq
      have hslot := h.slot o' ho'
      refine ⟨?_, ?_, ?_, ?_, ?_, hslot.reply_null, hslot.items_nil⟩
      · exact hslot.listening.trans
          (listening_concat.trans (and_iff_left (by simp [Event.drops]))).symm
      · intro hop
        refine iff_of_true ?_ hopen
        simp only [if_pos hop, Function.update_self]
      · exact fun hop ↦ (hslot.reply_eq hop).trans (hold.trans hdel.symm)
      · intro hop _
        refine iff_of_true ?_ hopen
        simp only [if_pos hop, Function.update_self]
      · intro hop
        show List.Forall₂ ItemOf _ (delivered _ _ _ (c.log ++ [.wrote o']))
        rw [hdel, ← hold]
        exact hslot.items_eq hop
    · exact (h.slot o' ho').concat rfl (put_of_ne (hids o' ho' heq) o)
        (put_of_ne (hids o' ho' heq) o) rfl
        ⟨by simp [Ne.symm heq], by simp [Event.closes], rfl, by simp [Event.drops]⟩

/-- An operation without a response gets the null result. -/
theorem sendNull (h : Demux c) {o : ℕ} (hop : (c.ops o).op ≠ .single) :
    Demux (c.sendReply o Conn.nullResult) := by
  have hops : ∀ o', ∃ r, (c.sendReply o Conn.nullResult).ops o' = { c.ops o' with reply := r } ∧
      (r = (c.ops o').reply ∨ o' = o ∧ r = some Conn.nullResult) := by
    intro o'
    by_cases heq : o' = o
    · subst heq
      rw [Conn.sendReply, Conn.setOp_ops_self]
      split
      · exact ⟨_, rfl, Or.inr ⟨rfl, rfl⟩⟩
      · exact ⟨_, rfl, Or.inl rfl⟩
    · exact ⟨_, Function.update_of_ne heq _ _, Or.inl rfl⟩
  refine h.frame rfl rfl subset_rfl ?_ ?_ h.rx_nodup ?_ h.dropped_lt (fun _ _ h ↦ h)
    (fun _ _ h ↦ h) ?_
  · intro o'
    obtain ⟨r, hr, -⟩ := hops o'
    rw [hr]
    exact ⟨rfl, rfl⟩
  · intro o' ho'
    obtain ⟨r, hr, -⟩ := hops o'
    rw [hr]
    exact h.rx_queued o' ho'
  · intro o' ho'
    obtain ⟨r, hr, -⟩ := hops o'
    rw [hr]
    exact h.wrote_taken o' ho'
  · intro o' ho'
    obtain ⟨r, hr, hcase⟩ := hops o'
    have hslot := h.slot o' ho'
    constructor <;> rw [hr]
    · exact hslot.listening
    · exact hslot.resultmap_iff
    · intro hsingle
      rcases hcase with rfl | ⟨rfl, -⟩
      · exact hslot.reply_eq hsingle
      · exact absurd hsingle hop
    · exact hslot.searchmap_iff
    · exact hslot.items_eq
    · intro hne r' hr'
      rcases hcase with rfl | ⟨rfl, rfl⟩
      · exact hslot.reply_null hne r' hr'
      · exact (Option.some.inj hr').symm
    · exact hslot.items_nil

theorem turnOp (h : Demux c) {written : Bool} (hs : c.turnOp written = some c') : Demux c' := by
  obtain ⟨o, rx, hrx, hturn⟩ := Conn.turnOp_cases hs
  obtain ⟨ho, hqueued⟩ := h.rx_queued o (hrx ▸ List.mem_cons_self)
  have hnew : .wrote o ∉ c.log := fun hw ↦ by simp [(h.wrote_taken o hw).2] at hqueued
  have htake := h.take hrx
  have hself := c.take_ops_self o rx
  have hwrite := htake.write (o := o) ho (by rw [hself]) hnew
  have hop₁ : ((c.take o rx).ops o).op = (c.ops o).op := by rw [hself]
  have hid₁ : ((c.take o rx).ops o).id = (c.ops o).id := by rw [hself]
  rw [hop₁, hid₁] at hwrite
  cases hturn with
  | lost => exact htake.stop _
  | single hop =>
    simp only [hop, ↓reduceIte, reduceCtorEq] at hwrite
    exact hwrite
  | search hop =>
    simp only [hop, ↓reduceIte, reduceCtorEq] at hwrite
    exact hwrite.sendNull (by simp [hself, hop])
  | @abandon msgid hop =>
    simp only [hop, ↓reduceIte, reduceCtorEq] at hwrite
    refine sendNull ?_ ?_
    · refine hwrite.unregister (p := fun id ↦ id = msgid) rfl rfl (Finset.erase_subset ..)
        (fun _ ↦ rfl) (List.Sublist.refl _) rfl (fun id ↦ Function.update_apply ..)
        (fun id ↦ Function.update_apply ..) ?_
      intro op o id
      refine ⟨by simp, rfl, by simp [Event.drops], ?_⟩
      simp [Event.closes, eq_comm]
    · simp [Conn.record, Conn.erase, Conn.unregister, hself, hop]
  | abandonPoisoned hop =>
    simp only [hop, ↓reduceIte, reduceCtorEq] at hwrite
    exact hwrite.stop _
  | unbind hop =>
    simp only [hop, ↓reduceIte, reduceCtorEq] at hwrite
    exact hwrite.sendNull (by simp [hself, hop])

theorem searchItem_last {tag : Tag} {item : SearchItem} {remove : Bool}
    (h : Conn.searchItem tag = .ok (item, remove)) : remove = isDone tag := by
  unfold Conn.searchItem at h
  split at h
  · rename_i protoop
    split_ifs at h with h4 h5 h19
    · obtain ⟨-, rfl⟩ := Prod.mk.inj (Except.ok.inj h)
      rcases h4 with h4 | h4 <;> simp [isDone, h4]
    · rcases hres : LdapResult.ofTag (.structureTag protoop) with e | res
      · rw [hres] at h
        cases h
      · rw [hres] at h
        obtain ⟨-, rfl⟩ := Prod.mk.inj (Except.ok.inj h)
        simp [isDone, h5]
    · obtain ⟨-, rfl⟩ := Prod.mk.inj (Except.ok.inj h)
      simp [isDone, h19]
  · cases h

/-- A message with an id concerns one operation only. -/
theorem decoded (h : Demux c) {id : RequestId} {tag : Tag} {controls : List Control}
    (hnum : c'.numOps = c.numOps) (hlast : c'.msgmap.last = c.msgmap.last)
    (hinUse : c'.msgmap.inUse ⊆ c.msgmap.inUse)
    (hop : ∀ o, (c'.ops o).id = (c.ops o).id ∧ (c'.ops o).op = (c.ops o).op ∧
      (c'.ops o).phase = (c.ops o).phase)
    (hrx : c'.rx = c.rx) (hlog : c'.log = c.log ++ [.decoded id tag controls])
    (hres : c'.resultmap = c.resultmap ∨ c'.resultmap = Function.update c.resultmap id none)
    (hsearch : c'.searchmap = c.searchmap ∨ c'.searchmap = Function.update c.searchmap id none)
    (hother : ∀ o < c.numOps, (c.ops o).id ≠ id → c'.ops o = c.ops o)
    (hslot : ∀ o < c.numOps, (c.ops o).id = id → OpSlot c' o) : Demux c' := by
  -- Either map loses at most the entry of this id.
  have hmono : ∀ m m' : RequestId → Option ℕ, m' = m ∨ m' = Function.update m id none →
      (∀ id' o, m' id' = some o → m id' = some o) ∧ ∀ id', id' ≠ id → m' id' = m id' := by
    rintro m m' (rfl | rfl)
    · exact ⟨fun _ _ h ↦ h, fun _ _ ↦ rfl⟩
    · refine ⟨fun id' o ho ↦ ?_, fun id' hne ↦ Function.update_of_ne hne _ _⟩
      rw [Function.update_apply] at ho
      split at ho
      · cases ho
      · exact ho
  refine h.frame_concat hnum hlast hinUse hop (hrx ▸ List.Sublist.refl _) hlog ?_
    (hmono _ _ hres).1 (hmono _ _ hsearch).1 ?_
  · intro o
    exact ⟨by simp, fun ho ↦ by simp at ho⟩
  · intro o ho
    by_cases hid : (c.ops o).id = id
    · exact hslot o ho hid
    · refine (h.slot o ho).concat (hother o ho hid) ((hmono _ _ hres).2 _ hid)
        ((hmono _ _ hsearch).2 _ hid) hlog ⟨by simp, ?_, ?_, by simp [Event.drops]⟩
      · simp [Event.closes, Ne.symm hid]
      · simp [Event.message, Ne.symm hid]

/-- A message changes the operation that is registered under its id. -/
theorem decoded_update (h : Demux c) {id : RequestId} {tag : Tag} {controls : List Control} {o : ℕ}
    {op : Op} (ho : o < c.numOps) (hid : (c.ops o).id = id)
    (hop : op.id = (c.ops o).id ∧ op.op = (c.ops o).op ∧ op.phase = (c.ops o).phase)
    (hnum : c'.numOps = c.numOps) (hlast : c'.msgmap.last = c.msgmap.last)
    (hinUse : c'.msgmap.inUse ⊆ c.msgmap.inUse) (hops : c'.ops = Function.update c.ops o op)
    (hrx : c'.rx = c.rx) (hlog : c'.log = c.log ++ [.decoded id tag controls])
    (hres : c'.resultmap = c.resultmap ∨ c'.resultmap = Function.update c.resultmap id none)
    (hsearch : c'.searchmap = c.searchmap ∨ c'.searchmap = Function.update c.searchmap id none)
    (hslot : OpSlot c' o) : Demux c' := by
  have hother : ∀ o' ≠ o, c'.ops o' = c.ops o' := by
    intro o' hne
    rw [hops]
    exact Function.update_of_ne hne _ _
  refine h.decoded hnum hlast hinUse ?_ hrx hlog hres hsearch ?_ ?_
  · intro o'
    by_cases heq : o' = o
    · rw [heq, hops, Function.update_self]
      exact hop
    · rw [hother o' heq]
      exact ⟨rfl, rfl, rfl⟩
  · intro o' _ hne
    refine hother o' ?_
    rintro rfl
    exact hne hid
  · intro o' ho' hid'
    obtain rfl := h.id_inj ho' ho (hid'.trans hid.symm)
    exact hslot

/-- A message for a Search. -/
theorem sendItem (h : Demux c) {id : RequestId} {o : ℕ} {tag : Tag} {controls : List Control}
    {item : SearchItem} {remove : Bool} (hsome : c.searchmap id = some o)
    (hitem : Conn.searchItem tag = .ok (item, remove)) :
    Demux ((c.sendItem id o item controls remove).record (.decoded id tag controls)) := by
  classical
  obtain ⟨ho, hop, hid⟩ := h.searchmap_op id o hsome
  have hslot := h.slot o ho
  rw [Conn.sendItem_eq]
  set c' : Conn := Conn.record { c with
    ops := Function.update c.ops o
      (if (c.ops o).itemsOpen then { c.ops o with items := (c.ops o).items ++ [(item, controls)] }
        else c.ops o)
    searchmap :=
      if remove ∨ ¬(c.ops o).itemsOpen then Function.update c.searchmap id none
      else c.searchmap } (.decoded id tag controls)
  have hself : c'.ops o = if (c.ops o).itemsOpen
      then { c.ops o with items := (c.ops o).items ++ [(item, controls)] } else c.ops o :=
    Function.update_self ..
  have hsame : (c'.ops o).id = (c.ops o).id ∧ (c'.ops o).op = (c.ops o).op ∧
      (c'.ops o).phase = (c.ops o).phase ∧ (c'.ops o).itemsOpen = (c.ops o).itemsOpen ∧
      (c'.ops o).replyOpen = (c.ops o).replyOpen ∧ (c'.ops o).reply = (c.ops o).reply := by
    rw [hself]
    split <;> exact ⟨rfl, rfl, rfl, rfl, rfl, rfl⟩
  obtain ⟨hid₁, hop₁, hphase₁, hitems₁, hreply₁, hr₁⟩ := hsame
  show Demux c'
  refine h.decoded_update ho hid ⟨hid₁, hop₁, hphase₁⟩ rfl rfl subset_rfl ?_ rfl
    rfl (Or.inl rfl) ?_ ?_
  · rw [hself]
    rfl
  · show (if _ then _ else _) = _ ∨ (if _ then _ else _) = _
    split
    · exact Or.inr rfl
    · exact Or.inl rfl
  · have hlisten : (c'.ops o).receiverOpen ↔ (c.ops o).itemsOpen := by
      simp [Op.receiverOpen, hop₁, hop, hitems₁]
    -- In terms of the log: the handle listens, and the slot is open as the map has the entry.
    have hheard := hslot.listening_search hop
    have hopen := hslot.slotOpen_search hop (hid.symm ▸ hsome)
    rw [hid] at hopen
    constructor <;> simp only [hop₁, hid₁, hitems₁, hr₁, hop, hid]
    · rw [hlisten, ← hheard]
      exact (listening_concat.trans (and_iff_left (by simp [Event.drops]))).symm
    · rintro ⟨⟩
    · rintro ⟨⟩
    · intro _ hi
      have hclose : SlotOpen .search o id c'.log ↔ ¬remove := by
        show SlotOpen .search o id (c.log ++ [.decoded id tag controls]) ↔ _
        rw [slotOpen_concat, searchItem_last hitem]
        simp [Event.closes, hopen hi]
      rw [hclose]
      show (if remove ∨ ¬(c.ops o).itemsOpen then Function.update c.searchmap id none
        else c.searchmap) id = some o ↔ _
      cases remove <;> simp [hi, hsome]
    · intro _
      have hitems := hslot.items_eq hop
      rw [hop, hid] at hitems
      show List.Forall₂ ItemOf _ (delivered .search o id (c.log ++ [.decoded id tag controls]))
      rw [delivered_concat]
      by_cases hi : (c.ops o).itemsOpen
      · rw [if_pos ⟨hheard.2 hi, hopen hi⟩, hself, if_pos hi]
        refine List.rel_append hitems ?_
        simp only [Event.message, if_true, Option.toList_some]
        exact .cons ⟨⟨remove, hitem⟩, rfl⟩ .nil
      · rw [if_neg fun hd ↦ hi (hheard.1 hd.1), hself, if_neg hi]
        exact hitems
    · intro hne
      have hnull := hslot.reply_null
      rw [hop] at hnull
      exact hnull hne
    · exact fun hne ↦ absurd rfl hne

/-- The response to a single operation. -/
theorem sendResult (h : Demux c) {id : RequestId} {o : ℕ} (tag : Tag) (controls : List Control)
    (hsome : c.resultmap id = some o) :
    Demux (({ c with resultmap := Function.update c.resultmap id none }.sendReply o
      (tag, controls)).record (.decoded id tag controls)) := by
  classical
  obtain ⟨ho, hop, hid⟩ := h.resultmap_op id o hsome
  have hslot := h.slot o ho
  set c' : Conn := ({ c with resultmap := Function.update c.resultmap id none }.sendReply o
      (tag, controls)).record (.decoded id tag controls)
  have hself : c'.ops o = if (c.ops o).replyOpen then { c.ops o with reply := some (tag, controls) }
      else c.ops o := Function.update_self ..
  have hsame : (c'.ops o).id = (c.ops o).id ∧ (c'.ops o).op = (c.ops o).op ∧
      (c'.ops o).phase = (c.ops o).phase ∧ (c'.ops o).itemsOpen = (c.ops o).itemsOpen ∧
      (c'.ops o).replyOpen = (c.ops o).replyOpen ∧ (c'.ops o).items = (c.ops o).items := by
    rw [hself]
    split <;> exact ⟨rfl, rfl, rfl, rfl, rfl, rfl⟩
  obtain ⟨hid₁, hop₁, hphase₁, -, hopen₁, hitems₁⟩ := hsame
  show Demux c'
  refine h.decoded_update ho hid ⟨hid₁, hop₁, hphase₁⟩ rfl rfl subset_rfl ?_ rfl rfl (Or.inr rfl)
    (Or.inl rfl) ?_
  · rw [hself]
    rfl
  -- In terms of the log: the caller listens, and the slot is open as the map has the entry.
  · have hheard := hslot.listening_single hop
    have hopen := hslot.slotOpen_single hop (hid.symm ▸ hsome)
    rw [hid] at hopen
    constructor <;> simp only [hop₁, hid₁, hop, hid]
    · have hlisten : (c'.ops o).receiverOpen ↔ (c.ops o).replyOpen := by
        simp [Op.receiverOpen, hop₁, hop, hopen₁]
      rw [hlisten, ← hheard]
      exact (listening_concat.trans (and_iff_left (by simp [Event.drops]))).symm
    · intro _
      refine iff_of_false ?_ ?_
      · show Function.update c.resultmap id none id ≠ some o
        simp
      · show ¬SlotOpen .single o id (c.log ++ [.decoded id tag controls])
        rw [slotOpen_concat]
        simp [Event.closes]
    · intro _
      have hreply := hslot.reply_eq hop
      rw [hop, hid] at hreply
      show _ = delivered .single o id (c.log ++ [.decoded id tag controls])
      rw [delivered_concat]
      by_cases hi : (c.ops o).replyOpen
      · rw [if_pos ⟨hheard.2 hi, hopen⟩, hself, if_pos hi, delivered_of_slotOpen (by simp) hopen]
        simp [Event.message]
      · rw [if_neg fun hd ↦ hi (hheard.1 hd.1), hself, if_neg hi]
        exact hreply
    · rintro ⟨⟩
    · rintro ⟨⟩
    · exact fun hne ↦ absurd rfl hne
    · intro _
      rw [hitems₁]
      exact hslot.items_nil (by simp [hop])

/-- A message with an id that is in none of the maps. -/
theorem unregistered (h : Demux c) {id : RequestId} (tag : Tag) (controls : List Control)
    (hres : c.resultmap id = none) (hsearch : c.searchmap id = none) :
    Demux (c.record (.decoded id tag controls)) := by
  classical
  refine h.decoded rfl rfl subset_rfl (fun _ ↦ ⟨rfl, rfl, rfl⟩) rfl rfl (Or.inl rfl) (Or.inl rfl)
    (fun _ _ _ ↦ rfl) ?_
  intro o ho hid
  have hslot := h.slot o ho
  -- An id in neither map has no open slot, so nothing is delivered.
  have hres_iff : (c.ops o).op = .single → ¬SlotOpen (c.ops o).op o (c.ops o).id c.log := by
    intro hop hopen
    have hsome := (hslot.resultmap_iff hop).2 hopen
    rw [hid, hres] at hsome
    cases hsome
  have hsearch_iff : (c.ops o).op = .search → (c.ops o).itemsOpen →
      ¬SlotOpen (c.ops o).op o (c.ops o).id c.log := by
    intro hop hi hopen
    have hsome := (hslot.searchmap_iff hop hi).2 hopen
    rw [hid, hsearch] at hsome
    cases hsome
  have hclosed : ¬SlotOpen (c.ops o).op o (c.ops o).id c.log →
      ¬SlotOpen (c.ops o).op o (c.ops o).id (c.log ++ [.decoded id tag controls]) := by
    intro hclosed
    rw [slotOpen_concat]
    simp [hclosed]
  constructor
  · exact hslot.listening.trans
      (listening_concat.trans (and_iff_left (by simp [Event.drops]))).symm
  · intro hop
    refine iff_of_false ?_ (hclosed (hres_iff hop))
    show c.resultmap (c.ops o).id ≠ _
    rw [hid, hres]
    simp
  · intro hop
    show _ = delivered _ _ _ (c.log ++ [.decoded id tag controls])
    rw [delivered_concat, if_neg fun hd ↦ hres_iff hop hd.2]
    exact hslot.reply_eq hop
  · intro hop hi
    refine iff_of_false ?_ (hclosed (hsearch_iff hop hi))
    show c.searchmap (c.ops o).id ≠ _
    rw [hid, hsearch]
    simp
  · intro hop
    show List.Forall₂ ItemOf _ (delivered _ _ _ (c.log ++ [.decoded id tag controls]))
    rw [delivered_concat, if_neg ?_]
    · exact hslot.items_eq hop
    · rintro ⟨hlisten, hopen⟩
      refine hsearch_iff hop ((hslot.listening_search hop).1 ?_) hopen
      exact hop ▸ hlisten
  · exact hslot.reply_null
  · exact hslot.items_nil

theorem turnResp (h : Demux c) (id : RequestId) (tag : Tag) (controls : List Control) :
    Demux (c.turnResp id tag controls) := by
  generalize hs : c.turnResp id tag controls = c'
  cases Conn.turnResp_cases hs with
  | item hslot hitem => exact h.sendItem hslot hitem
  | panicked | failed => exact h.stop _
  | result hsearch hslot => exact (h.sendResult tag controls hslot).erase id
  | resultPoisoned hsearch hslot => exact (h.sendResult tag controls hslot).stop _
  | unregistered hsearch hresult => exact h.unregistered tag controls hresult hsearch

/-! ### Runs -/

/-- One step keeps the invariant as long as the ids do not wrap around. -/
theorem step (h : Demux c) {a : Conn.Act} (hle : (c'.numOps : ℤ) ≤ i32Max)
    (hs : c.step a = some c') : Demux c' := by
  cases Conn.step_cases hs with
  | alloc hs => exact h.alloc hle hs
  | noId => exact h.noId
  | enqueue ho hphase => exact h.enqueue ho hphase
  | dropReply ho => exact h.dropReply ho
  | dropItems ho => exact h.dropItems ho
  | sendScrub => exact h.sendScrub _
  | loseScrub => exact h
  | turnScrub => exact h.turnScrub _ _
  | turnOp hs => exact h.turnOp hs
  | turnResp => exact h.turnResp _ _ _
  | scrubPoisoned | stop => exact h.stop _

end Demux

/-- The invariant holds in every run, as long as the ids do not wrap around. -/
theorem Demux.of_reach {c : Conn} (h : Machine.Reach Conn.step Machine.any Conn.init c)
    (hle : (c.numOps : ℤ) ≤ i32Max) : Demux c := by
  refine h.invariant (P := fun c ↦ (c.numOps : ℤ) ≤ i32Max → Demux c) (fun _ ↦ Demux.init) ?_ hle
  intro c c' a hinv _ hs hle'
  refine (hinv ?_).step hle' hs
  have hmono : (c.numOps : ℤ) ≤ c'.numOps := by exact_mod_cast Conn.numOps_step hs
  omega

/-- What is delivered was taken from the server, with the id of the operation. -/
theorem mem_log_of_mem_delivered {op : LdapOp} {o : ℕ} {id : RequestId} {log : List Event}
    {m : Tag × List Control} (h : m ∈ delivered op o id log) : .decoded id m.1 m.2 ∈ log := by
  obtain ⟨e, he, hm⟩ := List.mem_filterMap.1 h
  have hlog : e ∈ log := List.takeWhile_subset _ (Window.mem_of_mem_window he)
  cases e with
  | decoded id' tag controls =>
    simp only [Event.message, Option.ite_none_right_eq_some, Option.some.injEq] at hm
    obtain ⟨rfl, rfl⟩ := hm
    exact hlog
  | _ => cases hm

/-- **Responses reach the operation that asked for them.** In every run of the handles and the
driver with at most `i32::MAX` operations, no two operations have the same id; a single operation
receives the first message with its id while its slot is registered and nothing else; the items of
a Search are those of the messages with its id from the moment its request was written up to the
end of its slot, in order, as long as it listens. -/
theorem delivered_of_reach {w : World}
    (h : Machine.Reach World.step Machine.any World.init w)
    (hle : (w.core.numOps : ℤ) ≤ i32Max) :
    (∀ o < w.core.numOps, ∀ o' < w.core.numOps,
      (w.core.ops o).id = (w.core.ops o').id → o = o') ∧
    ∀ o < w.core.numOps, ∀ id, (w.core.ops o).id = id →
      (∀ r ∈ (w.core.ops o).reply, r = Conn.nullResult ∧ (w.core.ops o).op ≠ .single ∨
        .decoded id r.1 r.2 ∈ w.core.log) ∧
      (∀ i ∈ (w.core.ops o).items, ∃ m, ItemOf i m ∧ .decoded id m.1 m.2 ∈ w.core.log) ∧
      ((w.core.ops o).op = .single →
        (w.core.resultmap id = some o ↔ SlotOpen .single o id w.core.log) ∧
        (delivered .single o id w.core.log).length ≤ 1 ∧
        (w.core.ops o).reply = (delivered .single o id w.core.log).head?) ∧
      ((w.core.ops o).op = .search →
        List.Forall₂ ItemOf (w.core.ops o).items (delivered .search o id w.core.log)) := by
  -- The moves of the handles are steps of the connection, which keeps the invariant.
  have hcore : Machine.Reach Conn.step Machine.any Conn.init w.core :=
    h.map fun {s s' l} _ hs ↦ World.reach_step (fun _ _ _ ↦ trivial) hs fun _ _ ↦ trivial
  have hdemux := Demux.of_reach hcore hle
  refine ⟨fun o ho o' ho' hid ↦ hdemux.id_inj ho ho' hid, ?_⟩
  rintro o ho id rfl
  have hslot := hdemux.slot o ho
  have hreply := hslot.reply_eq
  have hitems := hslot.items_eq
  refine ⟨?_, ?_, ?_, ?_⟩
  · intro r hr
    by_cases hop : (w.core.ops o).op = .single
    · refine Or.inr (@mem_log_of_mem_delivered .single o _ _ _ ?_)
      rw [← hop, ← hreply hop, Option.mem_toList]
      exact hr
    · exact Or.inl ⟨hslot.reply_null hop r hr, hop⟩
  · intro i hi
    by_cases hop : (w.core.ops o).op = .search
    · obtain ⟨hlen, hget⟩ := List.forall₂_iff_get.1 (hitems hop)
      obtain ⟨n, hn, rfl⟩ := List.getElem_of_mem hi
      exact ⟨_, hget n hn (hlen ▸ hn), mem_log_of_mem_delivered (List.get_mem _ _)⟩
    · rw [hslot.items_nil hop] at hi
      cases hi
  · intro hop
    have hresult := hslot.resultmap_iff hop
    have heq := hreply hop
    rw [hop] at hresult heq
    refine ⟨hresult, ?_, ?_⟩
    · rw [← heq]
      cases (w.core.ops o).reply <;> simp
    · rw [← heq]
      cases (w.core.ops o).reply <;> rfl
  · intro hop
    have heq := hitems hop
    rwa [hop] at heq

/-- A Search that is abandoned, and one operation of two that times out. -/
def abandonedRun : List Move :=
  [.newStream 0 false, .alloc 0 .search .ofNull none, .alloc 1 .single .ofNull none,
    .alloc 2 .single .ofNull none, .send 1, .send 0, .send 2, .turn (.turnOp true),
    .turn (.turnOp true), .turn (.turnOp true), .receive 0, .timeout 2, .turn .turnScrub,
    .turn (.turnResp 1 (.structureTag ⟨.application, 4, .C []⟩) []),
    .turn (.turnResp 3 (.structureTag ⟨.application, 11, .C []⟩) []),
    .turn (.turnResp 2 (.structureTag ⟨.application, 7, .C []⟩) []), .next 0, .receive 1,
    .alloc 1 (.abandon 1) .ofNull none, .send 1,
    .turn (.turnResp 1 (.structureTag ⟨.application, 4, .C []⟩) []), .turn (.turnOp true),
    .turn (.turnResp 1 (.structureTag ⟨.application, 4, .C []⟩) [])]

/-- Three handles: a Search that is abandoned after its second entry, an operation that gets its
response, and one whose response comes after its timeout. The entry that comes after the Abandon
and the late response are delivered to nobody. -/
theorem delivered_of_reach_three :
    ∃ w, Machine.run World.step Machine.any World.init abandonedRun = some w ∧
      (w.core.ops 0).items.length = 2 ∧ (delivered .search 0 1 w.core.log).length = 2 ∧
      (w.core.ops 1).reply.isSome ∧
      (w.core.ops 1).reply = (delivered .single 1 2 w.core.log).head? ∧
      delivered .single 2 3 w.core.log = [] := by
  have hsome : (Machine.run World.step Machine.any World.init abandonedRun).map
      (fun w ↦ decide ((w.core.numOps = 4 ∧ (w.core.ops 0).id = 1 ∧ (w.core.ops 0).op = .search ∧
        (w.core.ops 0).items.length = 2) ∧ ((w.core.ops 1).id = 2 ∧ (w.core.ops 1).op = .single ∧
        (w.core.ops 1).reply.isSome) ∧ (w.core.ops 2).id = 3 ∧ (w.core.ops 2).op = .single ∧
        (w.core.ops 2).reply.isNone)) = some true := by
    decide +kernel
  obtain ⟨w, hw, hops⟩ := Option.map_eq_some_iff.1 hsome
  obtain ⟨⟨hnum, hid0, hop0, hlen⟩, ⟨hid1, hop1, hreply1⟩, hid2, hop2, hreply2⟩ :=
    of_decide_eq_true hops
  have hreach := (delivered_of_reach (Machine.reach_of_run hw) (by rw [hnum]; decide)).2
  have hitems := (hreach 0 (by omega) 1 hid0).2.2.2 hop0
  have hfirst := ((hreach 1 (by omega) 2 hid1).2.2.1 hop1).2.2
  have hlate := ((hreach 2 (by omega) 3 hid2).2.2.1 hop2).2.2
  refine ⟨w, hw, hlen, hitems.length_eq ▸ hlen, hreply1, hfirst, ?_⟩
  rw [Option.isNone_iff_eq_none.1 hreply2] at hlate
  exact List.head?_eq_none_iff.1 hlate.symm

end Ldap3
