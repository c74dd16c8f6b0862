import Ldap3.Conn.Demux
import Ldap3.Conn.Dispatch

/-!
# The account of the ids in use

The driver's part of the account that `Ldap3.Conn.Release` keeps of the message ids: every id in use
is about to be scrubbed, or belongs to an operation that is due (`Accounts`). Which operations count
as open is left to the handles, and is a parameter here; that none is open which the driver cannot
answer any more is what the account says of them.

An operation that waits for a response is due as long as it has its slot or will get it. Its id may
have been given out before, to an operation that timed out and whose scrub overtook it. When the
driver takes that operation after the new one, the slot is gone (`Conn.Placed` excludes it); and
when it takes another open one with the id, that one is due instead.
-/

namespace Ldap3

/-! ### Operations that are due -/

namespace Conn

/-- The operation whose slot for a response is about to be taken by an Abandon. -/
def abandons (c : Conn) : Act → Option ℕ
  | .turnOp true => do
    let o ← c.rx.head?
    match (c.ops o).op with
    | .abandon msgid => c.resultmap msgid
    | _ => none
  | _ => none

/-- The operations of the list that have the id are open, unless they are Searches. -/
def OpenIn (c : Conn) (isOpen : ℕ → Prop) (id : RequestId) (os : List ℕ) : Prop :=
  ∀ o ∈ os, (c.ops o).op ≠ .search → (c.ops o).id = id → isOpen o

/-- Where an operation that waits for its response is. In the queue it is followed by no operation
with its id that was given up, which would take its slot from it; once it was taken it has the slot,
and no such operation is in the queue. -/
structure Placed (c : Conn) (isOpen : ℕ → Prop) (o : ℕ) : Prop where
  queued : (c.ops o).phase = .queued →
    ∃ pre post, c.rx = pre ++ o :: post ∧ c.OpenIn isOpen (c.ops o).id post
  taken : (c.ops o).phase = .taken →
    c.resultmap (c.ops o).id = some o ∧ c.OpenIn isOpen (c.ops o).id c.rx

/-- An open operation that will get a response, or a scrub. The response to a Search is the end of
its items, which the driver does not count as one. -/
structure Due (c : Conn) (isOpen : ℕ → Prop) (o : ℕ) : Prop where
  lt : o < c.numOps
  counts : isOpen o
  waits : (c.ops o).op ≠ .search → (c.ops o).reply = none ∧ c.Placed isOpen o

/-- The driver is done with the operation: the response is there, or will never come. -/
def Settled (c : Conn) (o : ℕ) : Prop :=
  (c.ops o).op ≠ .search ∧ (c.status = .running → (c.ops o).phase = .taken ∧
    ((c.ops o).reply ≠ none ∨ c.resultmap (c.ops o).id ≠ some o))

/-- What an action must not do to the open operations: an operation that was given up is not sent,
and an open one is not abandoned. -/
def Heeds (c : Conn) (isOpen : ℕ → Prop) : Act → Prop
  | .alloc .. => False
  | .enqueue o => (c.ops o).op ≠ .search → isOpen o
  | a => ∀ o ∈ c.abandons a, (c.ops o).op ≠ .search → ¬isOpen o

variable {c c' : Conn} {isOpen : ℕ → Prop} {id : RequestId} {os os' : List ℕ}

theorem OpenIn.mono (h : c.OpenIn isOpen id os) (hkeeps : c.Keeps c') (hsub : os' ⊆ os) :
    c'.OpenIn isOpen id os' := by
  intro o ho hop hid
  rw [hkeeps.op_eq] at hop
  rw [hkeeps.id_eq] at hid
  exact h o (hsub ho) hop hid

/-- An operation keeps its place, if the queue and its slot stay, and those behind it stay open. -/
theorem Placed.transfer {isOpen' : ℕ → Prop} {o : ℕ} (h : c.Placed isOpen o)
    (hphase : (c'.ops o).phase = (c.ops o).phase) (hid : (c'.ops o).id = (c.ops o).id)
    (hrx : c'.rx = c.rx)
    (hslot : c.resultmap (c.ops o).id = some o → c'.resultmap (c.ops o).id = some o)
    (hin : ∀ os ⊆ c.rx, c.OpenIn isOpen (c.ops o).id os → c'.OpenIn isOpen' (c.ops o).id os) :
    c'.Placed isOpen' o where
  queued hqueued := by
    obtain ⟨pre, post, hpre, hpost⟩ := h.queued (hphase ▸ hqueued)
    rw [hid]
    refine ⟨pre, post, hrx.trans hpre, hin post ?_ hpost⟩
    rw [hpre]
    exact fun o' ho' ↦ List.mem_append_right _ (List.mem_cons_of_mem _ ho')
  taken htaken := by
    obtain ⟨hres, hall⟩ := h.taken (hphase ▸ htaken)
    rw [hid, hrx]
    exact ⟨hslot hres, hin c.rx (List.Subset.refl _) hall⟩

end Conn

/-! ### The driver's part -/

/-- Every id in use is about to be scrubbed, or that of an operation that is due. -/
structure Accounts (c : Conn) (isOpen : ℕ → Prop) : Prop extends Conn.Mapped c where
  op_ne_unbind : ∀ o < c.numOps, (c.ops o).op ≠ .unbind
  resultmap_op : ∀ id o, c.resultmap id = some o →
    o < c.numOps ∧ (c.ops o).id = id ∧ (c.ops o).phase = .taken
  reply_taken : ∀ o, (c.ops o).reply ≠ none → (c.ops o).phase = .taken
  accounted : c.status = .running → ∀ id ∈ c.msgmap.inUse, id ∈ c.idScrubRx ∨
    ∃ o, c.Due isOpen o ∧ (c.ops o).id = id

namespace Accounts

variable {c c' : Conn} {isOpen isOpen' : ℕ → Prop}

theorem init : Accounts Conn.init isOpen where
  toMapped := .init
  op_ne_unbind _ ho := absurd ho (Nat.not_lt_zero _)
  resultmap_op _ _ ho := nomatch ho
  reply_taken _ ho := absurd rfl ho
  accounted _ _ hid := absurd hid (Finset.notMem_empty _)

/-- An operation may be given up if its id is scrubbed, or if the driver is done with it. -/
theorem imp (h : Accounts c isOpen) (himp : ∀ o < c.numOps, isOpen o →
    isOpen' o ∨ (c.status = .running → (c.ops o).id ∈ c.idScrubRx) ∨ c.Settled o) :
    Accounts c isOpen' := by
  refine ⟨h.toMapped, h.op_ne_unbind, h.resultmap_op, h.reply_taken, fun hrun id hid ↦ ?_⟩
  by_cases hscrub : id ∈ c.idScrubRx
  · exact Or.inl hscrub
  obtain ⟨o, hdue, rfl⟩ := (h.accounted hrun id hid).resolve_left hscrub
  -- Those with its id that wait behind it in the queue stay open, or the id is scrubbed.
  have hbehind : ∀ os ⊆ c.rx, c.OpenIn isOpen (c.ops o).id os →
      c.OpenIn isOpen' (c.ops o).id os := by
    intro os hsub hin o' ho' hop hid'
    obtain ⟨hlt, hqueued⟩ := h.rx_queued o' (hsub ho')
    rcases himp o' hlt (hin o' ho' hop hid') with hopen | hscrub' | hsettled
    · exact hopen
    · exact absurd (hid' ▸ hscrub' hrun) hscrub
    · rw [(hsettled.2 hrun).1] at hqueued
      cases hqueued
  rcases himp o hdue.lt hdue.counts with hopen | hscrub' | hsettled
  · refine Or.inr ⟨o, ⟨hdue.lt, hopen, fun hop ↦ ?_⟩, rfl⟩
    obtain ⟨hreply, hplaced⟩ := hdue.waits hop
    exact ⟨hreply, hplaced.transfer rfl rfl rfl id hbehind⟩
  · exact absurd (hscrub' hrun) hscrub
  · -- An operation that is due has no response, and its slot.
    obtain ⟨hreply, hplaced⟩ := hdue.waits hsettled.1
    obtain ⟨htaken, hdone⟩ := hsettled.2 hrun
    rcases hdone with hdone | hdone
    · exact absurd hreply hdone
    · exact absurd (hplaced.taken htaken).1 hdone

/-- What leaves the queue and the slots of the ids in use alone. -/
theorem frame (h : Accounts c isOpen) (hm : Conn.Mapped c') (hkeeps : c.Keeps c')
    (hphase : ∀ o, (c'.ops o).phase = (c.ops o).phase) (hrx : c'.rx = c.rx)
    (hstatus : c'.status = .running → c.status = .running)
    (hinUse : c'.msgmap.inUse ⊆ c.msgmap.inUse)
    (hscrub : ∀ id ∈ c'.msgmap.inUse, id ∈ c.idScrubRx → id ∈ c'.idScrubRx)
    (hres : ∀ id o, c'.resultmap id = some o → c.resultmap id = some o)
    (hkept : ∀ id ∈ c'.msgmap.inUse, c'.resultmap id = c.resultmap id)
    (hreply : ∀ o, (c'.ops o).reply = (c.ops o).reply ∨
      (c.ops o).phase = .taken ∧ (c.ops o).id ∉ c'.msgmap.inUse) : Accounts c' isOpen := by
  obtain ⟨hnum, hid, hop⟩ := hkeeps
  refine ⟨hm, ?_, ?_, ?_, ?_⟩
  · intro o ho
    rw [hop o]
    exact h.op_ne_unbind o (hnum ▸ ho)
  · intro id o ho
    rw [hnum, hid o, hphase o]
    exact h.resultmap_op id o (hres id o ho)
  · intro o ho
    rw [hphase o]
    rcases hreply o with heq | ⟨htaken, -⟩
    · exact h.reply_taken o (heq ▸ ho)
    · exact htaken
  · intro hrun id hmem
    rcases h.accounted (hstatus hrun) id (hinUse hmem) with hs | ⟨o, hdue, rfl⟩
    · exact Or.inl (hscrub id hmem hs)
    refine Or.inr ⟨o, ⟨hnum ▸ hdue.lt, hdue.counts, fun hne ↦ ?_⟩, hid o⟩
    rw [hop o] at hne
    obtain ⟨hnone, hplaced⟩ := hdue.waits hne
    refine ⟨?_, hplaced.transfer (hphase o) (hid o) hrx (fun hslot ↦ (hkept _ hmem).trans hslot)
      fun os _ hin ↦ hin.mono ⟨hnum, hid, hop⟩ (List.Subset.refl os)⟩
    rcases hreply o with heq | ⟨-, hgone⟩
    · exact heq.trans hnone
    · exact absurd hmem hgone

/-- When the loop has ended nothing is accounted for any more. -/
theorem ended (h : Accounts c isOpen) (hm : Conn.Mapped c') (hkeeps : c.Keeps c')
    (hres : c'.resultmap = fun _ ↦ none) (hstatus : c'.status ≠ .running)
    (hreply : ∀ o, (c'.ops o).reply ≠ none → (c'.ops o).phase = .taken) : Accounts c' isOpen := by
  refine ⟨hm, fun o ho ↦ ?_, fun id o ho ↦ ?_, hreply, fun hrun ↦ absurd hrun hstatus⟩
  · rw [hkeeps.op_eq o]
    exact h.op_ne_unbind o (hkeeps.numOps_eq ▸ ho)
  · rw [hres] at ho
    cases ho

theorem stop (h : Accounts c isOpen) {why : Status} (hwhy : why ≠ .running) :
    Accounts (c.stop why) isOpen :=
  h.ended (h.toMapped.stop why) (.of_ops rfl rfl) rfl hwhy h.reply_taken

theorem alloc (h : Accounts c isOpen) {op : LdapOp} {req : Tag}
    {controls : Option (List RawControl)} (hop : op ≠ .unbind) (hopen : isOpen c.numOps)
    (hs : c.alloc op req controls = some c') : Accounts c' isOpen := by
  have hm := h.toMapped.alloc hs
  obtain ⟨id, -, rfl⟩ := Conn.alloc_spec hs
  set c' : Conn := { c with
    msgmap := ⟨⟨id, insert id c.msgmap.inUse⟩, false⟩
    numOps := c.numOps + 1
    ops := Function.update c.ops c.numOps (.new id op req controls) }
  have hnew : c'.ops c.numOps = .new id op req controls := Function.update_self ..
  have hold : ∀ o ≠ c.numOps, c'.ops o = c.ops o := fun o ho ↦ Function.update_of_ne ho ..
  -- The operations in the queue are older.
  have hin : ∀ id' os, os ⊆ c.rx → c.OpenIn isOpen id' os → c'.OpenIn isOpen id' os := by
    intro id' os hsub hin o ho hop hid
    rw [hold o (h.rx_queued o (hsub ho)).1.ne] at hop hid
    exact hin o ho hop hid
  refine ⟨hm, ?_, ?_, ?_, ?_⟩
  · intro o ho
    rcases Nat.lt_succ_iff_lt_or_eq.1 ho with ho | rfl
    · rw [hold o ho.ne]
      exact h.op_ne_unbind o ho
    · rw [hnew]
      exact hop
  · intro id' o ho
    obtain ⟨hlt, hop⟩ := h.resultmap_op id' o ho
    rw [hold o hlt.ne]
    exact ⟨Nat.lt_succ_of_lt hlt, hop⟩
  · intro o ho
    by_cases heq : o = c.numOps
    · rw [heq, hnew] at ho
      exact absurd rfl ho
    · rw [hold o heq] at ho ⊢
      exact h.reply_taken o ho
  · intro hrun id' hid'
    rcases Finset.mem_insert.1 hid' with rfl | hid'
    · refine Or.inr ⟨c.numOps, ⟨Nat.lt_succ_self _, hopen, fun _ ↦ ?_⟩, by rw [hnew]; rfl⟩
      refine ⟨by rw [hnew]; rfl, fun hqueued ↦ ?_, fun htaken ↦ ?_⟩
      · rw [hnew] at hqueued
        cases hqueued
      · rw [hnew] at htaken
        cases htaken
    · rcases h.accounted hrun id' hid' with hscrub | ⟨o, hdue, hid⟩
      · exact Or.inl hscrub
      have hne := hdue.lt.ne
      refine Or.inr ⟨o, ⟨Nat.lt_succ_of_lt hdue.lt, hdue.counts, ?_⟩, by rw [hold o hne, hid]⟩
      rw [hold o hne]
      intro hop
      obtain ⟨hreply, hplaced⟩ := hdue.waits hop
      refine ⟨hreply, hplaced.transfer ?_ ?_ rfl (fun hslot ↦ hslot) (hin _)⟩ <;> rw [hold o hne]

/-- An operation is sent to the driver. -/
theorem enqueue (h : Accounts c isOpen) {o : ℕ} (ho : o < c.numOps)
    (hphase : (c.ops o).phase = .allocated) (hopen : (c.ops o).op ≠ .search → isOpen o) :
    Accounts { c.setOp o fun op ↦ { op with phase := .queued } with rx := c.rx ++ [o] } isOpen := by
  have hm := h.toMapped.enqueue ho hphase
  set c' : Conn := { c.setOp o fun op ↦ { op with phase := .queued } with rx := c.rx ++ [o] }
  have hself : c'.ops o = { c.ops o with phase := .queued } := Function.update_self ..
  have hother : ∀ o' ≠ o, c'.ops o' = c.ops o' := fun o' hne ↦ Function.update_of_ne hne _ _
  have hkeeps : c.Keeps c' := .of_update rfl rfl ⟨rfl, rfl⟩
  have hreply : ∀ o', (c'.ops o').reply = (c.ops o').reply := by
    intro o'
    by_cases heq : o' = o
    · rw [heq, hself]
    · rw [hother o' heq]
  -- Nothing was sent to the operation yet, and it is in no map.
  have hne : ∀ o', (c.ops o').phase = .taken → o' ≠ o := by
    rintro o' htaken rfl
    rw [hphase] at htaken
    cases htaken
  have hsnoc : ∀ id os, c.OpenIn isOpen id os → c'.OpenIn isOpen id (os ++ [o]) := by
    intro id os hin o' ho' hop hid
    rw [hkeeps.op_eq] at hop
    rw [hkeeps.id_eq] at hid
    rcases List.mem_append.1 ho' with ho' | ho'
    · exact hin o' ho' hop hid
    · obtain rfl := List.mem_singleton.1 ho'
      exact hopen hop
  refine ⟨hm, ?_, ?_, ?_, ?_⟩
  · intro o' ho'
    rw [hkeeps.op_eq]
    exact h.op_ne_unbind o' ho'
  · intro id o' ho'
    obtain ⟨hlt, hid, htaken⟩ := h.resultmap_op id o' ho'
    rw [hother o' (hne o' htaken)]
    exact ⟨hlt, hid, htaken⟩
  · intro o' ho'
    have htaken := h.reply_taken o' (hreply o' ▸ ho')
    rw [hother o' (hne o' htaken)]
    exact htaken
  · intro hrun id hmem
    rcases h.accounted hrun id hmem with hscrub | ⟨o', hdue, rfl⟩
    · exact Or.inl hscrub
    refine Or.inr ⟨o', ⟨hdue.lt, hdue.counts, fun hop ↦ ?_⟩, hkeeps.id_eq o'⟩
    rw [hkeeps.op_eq] at hop
    obtain ⟨hnone, hplaced⟩ := hdue.waits hop
    refine ⟨(hreply o').trans hnone, fun hqueued ↦ ?_, fun htaken ↦ ?_⟩ <;> rw [hkeeps.id_eq]
    · by_cases heq : o' = o
      · subst heq
        exact ⟨c.rx, [], rfl, fun _ ho' ↦ absurd ho' List.not_mem_nil⟩
      · rw [hother o' heq] at hqueued
        obtain ⟨pre, post, hrx, hin⟩ := hplaced.queued hqueued
        refine ⟨pre, post ++ [o], ?_, hsnoc _ _ hin⟩
        show c.rx ++ [o] = _
        rw [hrx, List.append_assoc, List.cons_append]
    · by_cases heq : o' = o
      · rw [heq, hself] at htaken
        cases htaken
      · rw [hother o' heq] at htaken
        obtain ⟨hslot, hin⟩ := hplaced.taken htaken
        exact ⟨hslot, hsnoc _ _ hin⟩

/-- The operation at the front of the queue is taken. It has its slot then, unless it is a Search or
its id is released; the slots of the others stay, unless it has the id or nobody waits for it. -/
structure Took (c c' : Conn) (isOpen : ℕ → Prop) (o : ℕ) (rx : List ℕ) : Prop where
  rx_before : c.rx = o :: rx
  rx_after : c'.rx = rx
  keeps : c.Keeps c'
  other : ∀ o' ≠ o, c'.ops o' = c.ops o'
  phase : (c'.ops o).phase = .taken
  self : (c.ops o).op ≠ .search → (c.ops o).id ∈ c'.msgmap.inUse →
    (c'.ops o).reply = none ∧ c'.resultmap (c.ops o).id = some o
  slot : ∀ id ∈ c'.msgmap.inUse, id ≠ (c.ops o).id ∨ (c.ops o).op = .search →
    c'.resultmap id = c.resultmap id ∨
      ∀ o', c.resultmap id = some o' → (c.ops o').op ≠ .search → ¬isOpen o'

namespace Took

variable {o o' : ℕ} {rx : List ℕ}

/-- It is due if it is open and all behind it with its id are. -/
theorem due_self (ht : Took c c' isOpen o rx) (hlt : o < c.numOps)
    (hmem : (c.ops o).id ∈ c'.msgmap.inUse) (hop : (c.ops o).op ≠ .search) (hopen : isOpen o)
    (hin : c.OpenIn isOpen (c.ops o).id rx) : c'.Due isOpen o := by
  obtain ⟨hnone, hslot⟩ := ht.self hop hmem
  refine ⟨ht.keeps.numOps_eq ▸ hlt, hopen, fun _ ↦ ⟨hnone, ?_, fun _ ↦ ?_⟩⟩
  · rw [ht.phase]
    rintro ⟨⟩
  · rw [ht.keeps.id_eq, ht.rx_after]
    exact ⟨hslot, hin.mono ht.keeps (List.Subset.refl _)⟩

/-- Another operation stays due, unless it was taken and has lost its slot. -/
theorem due_other (ht : Took c c' isOpen o rx) (hne : o' ≠ o) (hdue : c.Due isOpen o')
    (hslot : (c.ops o').op ≠ .search → (c.ops o').phase = .taken →
      c'.resultmap (c.ops o').id = some o') : c'.Due isOpen o' := by
  refine ⟨ht.keeps.numOps_eq ▸ hdue.lt, hdue.counts, ?_⟩
  rw [ht.other o' hne]
  intro hop
  obtain ⟨hnone, hplaced⟩ := hdue.waits hop
  refine ⟨hnone, ?_, ?_⟩ <;> rw [ht.other o' hne]
  · intro hqueued
    obtain ⟨pre, post, hpre, hin⟩ := hplaced.queued hqueued
    rw [ht.rx_before] at hpre
    rcases pre with - | ⟨a, pre⟩
    · exact absurd (List.cons.inj hpre).1.symm hne
    · exact ⟨pre, post, ht.rx_after.trans (List.cons.inj hpre).2,
        hin.mono ht.keeps (List.Subset.refl _)⟩
  · intro htaken
    rw [ht.rx_after]
    refine ⟨hslot hop htaken, (hplaced.taken htaken).2.mono ht.keeps ?_⟩
    exact ht.rx_before ▸ List.subset_cons_self o rx

/-- **An id whose operation was due** is that of an operation that is. -/
theorem exists_due (ht : Took c c' isOpen o rx) (h : Accounts c isOpen) (hdue : c.Due isOpen o')
    (hmem : (c.ops o').id ∈ c'.msgmap.inUse) :
    ∃ o'', c'.Due isOpen o'' ∧ (c'.ops o'').id = (c.ops o').id := by
  obtain ⟨hlt, hqueued⟩ := h.rx_queued o (ht.rx_before ▸ List.mem_cons_self)
  by_cases heq : o' = o
  · subst heq
    refine ⟨o', ?_, ht.keeps.id_eq o'⟩
    by_cases hop : (c.ops o').op = .search
    · exact ⟨ht.keeps.numOps_eq ▸ hlt, hdue.counts, fun hne ↦
        absurd ((ht.keeps.op_eq o').trans hop) hne⟩
    obtain ⟨pre, post, hpre, hin⟩ := (hdue.waits hop).2.queued hqueued
    -- It was the first one, so all others were behind it.
    rw [ht.rx_before] at hpre
    rcases pre with - | ⟨a, pre⟩
    · obtain rfl : rx = post := (List.cons.inj hpre).2
      exact ht.due_self hlt hmem hop hdue.counts hin
    · have hnot : o' ∉ rx := (List.nodup_cons.1 (ht.rx_before ▸ h.rx_nodup)).1
      refine absurd ?_ hnot
      rw [(List.cons.inj hpre).2]
      exact List.mem_append_right _ List.mem_cons_self
  by_cases hlost : (c.ops o').op ≠ .search ∧ (c.ops o').phase = .taken ∧
      (c.ops o').id = (c.ops o).id ∧ (c.ops o).op ≠ .search
  · -- Its slot is the other one's now.
    obtain ⟨hop, htaken, hid, hsingle⟩ := hlost
    obtain ⟨-, hin⟩ := ((hdue.waits hop).2).taken htaken
    have hopen : isOpen o := hin o (ht.rx_before ▸ List.mem_cons_self) hsingle hid.symm
    refine ⟨o, ht.due_self hlt (hid ▸ hmem) hsingle hopen fun o'' ho'' ↦ ?_,
      (ht.keeps.id_eq o).trans hid.symm⟩
    exact hid ▸ hin o'' (ht.rx_before ▸ List.mem_cons_of_mem _ ho'')
  · refine ⟨o', ht.due_other heq hdue fun hop htaken ↦ ?_, ht.keeps.id_eq o'⟩
    obtain ⟨hslot, -⟩ := ((hdue.waits hop).2).taken htaken
    rcases ht.slot _ hmem (by tauto) with hsame | hclosed
    · exact hsame.trans hslot
    · exact absurd hdue.counts (hclosed o' hslot hop)

end Took

/-- The rest of the account when an operation is taken: the slots are those of taken operations. -/
theorem taken (h : Accounts c isOpen) (hm : Conn.Mapped c') {o : ℕ} {rx : List ℕ}
    (ht : Took c c' isOpen o rx) (hstatus : c'.status = c.status)
    (hscrub : c'.idScrubRx = c.idScrubRx) (hinUse : c'.msgmap.inUse ⊆ c.msgmap.inUse)
    (hres : ∀ id o', c'.resultmap id = some o' →
      c.resultmap id = some o' ∨ o' = o ∧ (c.ops o).id = id) : Accounts c' isOpen := by
  have hphase : ∀ o', (c.ops o').phase = .taken → (c'.ops o').phase = .taken := by
    intro o' htaken
    by_cases heq : o' = o
    · exact heq ▸ ht.phase
    · rw [ht.other o' heq]
      exact htaken
  refine ⟨hm, ?_, ?_, ?_, ?_⟩
  · intro o' ho'
    rw [ht.keeps.op_eq]
    exact h.op_ne_unbind o' (ht.keeps.numOps_eq ▸ ho')
  · intro id o' ho'
    rw [ht.keeps.numOps_eq, ht.keeps.id_eq]
    rcases hres id o' ho' with ho' | ⟨rfl, hid⟩
    · obtain ⟨hlt, hid, htaken⟩ := h.resultmap_op id o' ho'
      exact ⟨hlt, hid, hphase o' htaken⟩
    · exact ⟨(h.rx_queued _ (ht.rx_before ▸ List.mem_cons_self)).1, hid, ht.phase⟩
  · intro o' ho'
    by_cases heq : o' = o
    · exact heq ▸ ht.phase
    · rw [ht.other o' heq] at ho' ⊢
      exact h.reply_taken o' ho'
  · intro hrun id hmem
    rw [hscrub]
    rcases h.accounted (hstatus ▸ hrun) id (hinUse hmem) with hs | ⟨o', hdue, rfl⟩
    · exact Or.inl hs
    · exact Or.inr (ht.exists_due h hdue hmem)

theorem turnOp (h : Accounts c isOpen) {written : Bool} (hs : c.turnOp written = some c')
    (hheeds : ∀ o ∈ c.abandons (.turnOp written), (c.ops o).op ≠ .search → ¬isOpen o) :
    Accounts c' isOpen := by
  have hm := h.toMapped.turnOp hs
  have hkeeps := Conn.keeps_turnOp hs
  obtain ⟨o, rx, hrx, hturn⟩ := Conn.turnOp_cases hs
  obtain ⟨hlt, hqueued⟩ := h.rx_queued o (hrx ▸ List.mem_cons_self)
  have htook := c.take_ops_self o rx
  have hstay : ∀ o' ≠ o, (c.take o rx).ops o' = c.ops o' := fun o' hne ↦ c.take_ops_of_ne rx hne
  have hnone : (c.ops o).reply = none := by
    by_contra hreply
    rw [h.reply_taken o hreply] at hqueued
    cases hqueued
  -- What the null result does to the operations.
  have hnull : ∀ c₁ : Conn, c₁.ops = (c.take o rx).ops →
      (∀ o' ≠ o, (c₁.sendReply o Conn.nullResult).ops o' = c.ops o') ∧
        ((c₁.sendReply o Conn.nullResult).ops o).phase = .taken := by
    intro c₁ hops
    refine ⟨fun o' hne ↦ ?_, ?_⟩
    · rw [Conn.sendReply, c₁.setOp_ops_of_ne _ hne, hops, hstay o' hne]
    · rw [Conn.sendReply, c₁.setOp_ops_self, hops, htook]
      split <;> rfl
  -- When the loop ends the operations are as they were, but for the one that was taken.
  have hreply : ∀ o', ((c.take o rx).ops o').reply ≠ none →
      ((c.take o rx).ops o').phase = .taken := by
    intro o' ho'
    by_cases heq : o' = o
    · rw [heq, htook]
    · rw [hstay o' heq] at ho' ⊢
      exact h.reply_taken o' ho'
  cases hturn with
  | lost => exact h.ended hm hkeeps rfl (by rintro ⟨⟩) hreply
  | single hop =>
    have hself : (c.ops o).op ≠ .search → ((c.take o rx).ops o).reply = none ∧
        Function.update c.resultmap (c.ops o).id (some o) (c.ops o).id = some o :=
      fun _ ↦ ⟨(congrArg Op.reply htook).trans hnone, Function.update_self ..⟩
    refine h.taken hm ⟨hrx, rfl, hkeeps, hstay, congrArg Op.phase htook, fun hne _ ↦ hself hne, ?_⟩
      rfl rfl subset_rfl ?_
    · rintro id - (hne | hsearch)
      · exact Or.inl (Function.update_of_ne hne _ _)
      · rw [hop] at hsearch
        cases hsearch
    · intro id o' ho'
      simp only [Function.update_apply] at ho'
      split at ho'
      · rename_i heq
        exact Or.inr ⟨(Option.some.inj ho').symm, heq.symm⟩
      · exact Or.inl ho'
  | search hop =>
    obtain ⟨hother, htaken⟩ := hnull _ rfl
    exact h.taken hm ⟨hrx, rfl, hkeeps, hother, htaken, fun hne ↦ absurd hop hne,
      fun _ _ _ ↦ Or.inl rfl⟩ rfl rfl subset_rfl fun _ _ ↦ Or.inl
  | @abandon msgid hop hlock =>
    obtain ⟨hother, htaken⟩ := hnull _ rfl
    refine h.taken hm ⟨hrx, rfl, hkeeps, hother, htaken,
      fun _ hmem ↦ absurd hmem (Finset.notMem_erase _ _), fun id _ _ ↦ ?_⟩ rfl rfl
      (Finset.erase_subset ..) fun id o' ho' ↦ Or.inl (update_none ho').2
    by_cases heq : id = msgid
    · -- Nobody waits for the operation that is abandoned.
      refine Or.inr fun o' ho' ↦ hheeds o' ?_
      simp [Conn.abandons, hrx, hop, ← heq, ho']
    · exact Or.inl (Function.update_of_ne heq _ _)
  | abandonPoisoned => exact h.ended hm hkeeps rfl (by rintro ⟨⟩) hreply
  | unbind hop => exact absurd hop (h.op_ne_unbind o hlt)

theorem turnResp (h : Accounts c isOpen) (id : RequestId) (tag : Tag) (controls : List Control) :
    Accounts (c.turnResp id tag controls) isOpen := by
  have hm := h.toMapped.turnResp id tag controls
  have hkeeps := c.keeps_turnResp id tag controls
  generalize hs : c.turnResp id tag controls = c' at hm hkeeps ⊢
  -- The result that is sent changes nothing of another operation, and no phase.
  have hsent : ∀ o (f : Op → Op), (f (c.ops o)).phase = (c.ops o).phase → ∀ o',
      ((c.setOp o f).ops o').phase = (c.ops o').phase ∧
        (o' ≠ o → ((c.setOp o f).ops o').reply = (c.ops o').reply) := by
    intro o f hf o'
    by_cases heq : o' = o
    · rw [heq, c.setOp_ops_self]
      exact ⟨hf, fun hne ↦ absurd rfl hne⟩
    · rw [c.setOp_ops_of_ne f heq]
      exact ⟨rfl, fun _ ↦ rfl⟩
  cases Conn.turnResp_cases hs with
  | @item o item remove hslot hitem =>
    rw [Conn.sendItem_eq] at hm hkeeps ⊢
    refine h.frame hm hkeeps (fun o' ↦ (hsent o _ ?_ o').1) rfl (fun h ↦ h) subset_rfl
      (fun _ _ h ↦ h) (fun _ _ h ↦ h) (fun _ _ ↦ rfl) fun o' ↦ Or.inl ?_
    · split <;> rfl
    · by_cases heq : o' = o
      · rw [heq]
        refine (congrArg Op.reply (c.setOp_ops_self o _)).trans ?_
        split <;> rfl
      · exact congrArg Op.reply (c.setOp_ops_of_ne _ heq)
  | panicked | failed => exact h.stop (by simp)
  | @result o hsearch hslot hlock =>
    obtain ⟨-, hid, htaken⟩ := h.resultmap_op id o hslot
    refine h.frame hm hkeeps (fun o' ↦ (hsent o _ ?_ o').1) rfl (fun h ↦ h)
      (Finset.erase_subset ..) (fun _ _ h ↦ h) (fun _ _ ho ↦ (update_none ho).2)
      (fun id' hmem ↦ Function.update_of_ne (Finset.ne_of_mem_erase hmem) _ _) fun o' ↦ ?_
    · split <;> rfl
    · by_cases heq : o' = o
      · -- The operation has its response, and its id is released with it.
        rw [heq, hid]
        exact Or.inr ⟨htaken, Finset.notMem_erase _ _⟩
      · exact Or.inl ((hsent o _ (by split <;> rfl) o').2 heq)
  | @resultPoisoned o hsearch hslot hlock =>
    obtain ⟨-, -, htaken⟩ := h.resultmap_op id o hslot
    refine h.ended hm hkeeps rfl (by rintro ⟨⟩) fun o' ho' ↦ ?_
    refine ((hsent o _ (by split <;> rfl) o').1).trans ?_
    by_cases heq : o' = o
    · rw [heq, htaken]
    · refine h.reply_taken o' fun hnone ↦ ho' ?_
      exact ((hsent o _ (by split <;> rfl) o').2 heq).trans hnone
  | unregistered =>
    exact h.frame hm hkeeps (fun _ ↦ rfl) rfl (fun h ↦ h) subset_rfl (fun _ _ h ↦ h)
      (fun _ _ h ↦ h) (fun _ _ ↦ rfl) fun _ ↦ Or.inl rfl

/-- A receiver of an operation is dropped. -/
theorem drop (h : Accounts c isOpen) (hm : Conn.Mapped c') {o : ℕ} {f : Op → Op}
    (hf : (f (c.ops o)).id = (c.ops o).id ∧ (f (c.ops o)).op = (c.ops o).op ∧
      (f (c.ops o)).phase = (c.ops o).phase ∧ (f (c.ops o)).reply = (c.ops o).reply) {e : Event}
    (hc' : c' = (c.setOp o f).record e) : Accounts c' isOpen := by
  subst hc'
  have hops : ∀ o', ((c.setOp o f).ops o').phase = (c.ops o').phase ∧
      ((c.setOp o f).ops o').reply = (c.ops o').reply := by
    intro o'
    by_cases heq : o' = o
    · rw [heq, c.setOp_ops_self]
      exact hf.2.2
    · rw [c.setOp_ops_of_ne f heq]
      exact ⟨rfl, rfl⟩
  exact h.frame hm (.of_update rfl rfl ⟨hf.1, hf.2.1⟩) (fun o' ↦ (hops o').1) rfl (fun h ↦ h)
    subset_rfl (fun _ _ h ↦ h) (fun _ _ h ↦ h) (fun _ _ ↦ rfl) fun o' ↦ Or.inl (hops o').2

/-- **One step keeps the account**, if it does nothing to the open operations that it must not. -/
theorem step (h : Accounts c isOpen) {a : Conn.Act} (hs : c.step a = some c')
    (ha : c.Heeds isOpen a) : Accounts c' isOpen := by
  have hm := h.toMapped.step hs
  cases Conn.step_cases hs with
  | alloc => exact ha.elim
  | enqueue ho hphase => exact h.enqueue ho hphase ha
  | dropReply =>
    exact h.drop hm (f := fun op ↦ { op with replyOpen := false }) ⟨rfl, rfl, rfl, rfl⟩ rfl
  | dropItems =>
    exact h.drop hm (f := fun op ↦ { op with itemsOpen := false }) ⟨rfl, rfl, rfl, rfl⟩ rfl
  | noId =>
    exact h.frame hm (.of_ops rfl rfl) (fun _ ↦ rfl) rfl (fun h ↦ h) subset_rfl (fun _ _ h ↦ h)
      (fun _ _ h ↦ h) (fun _ _ ↦ rfl) fun _ ↦ Or.inl rfl
  | sendScrub =>
    exact h.frame hm (.of_ops rfl rfl) (fun _ ↦ rfl) rfl (fun h ↦ h) subset_rfl
      (fun _ _ hmem ↦ List.mem_append_left _ hmem) (fun _ _ h ↦ h) (fun _ _ ↦ rfl)
      fun _ ↦ Or.inl rfl
  | loseScrub => exact h
  | @turnScrub reqId ids hids =>
    refine h.frame hm (.of_ops rfl rfl) (fun _ ↦ rfl) rfl (fun h ↦ h) (Finset.erase_subset ..) ?_
      (fun _ _ ho ↦ (update_none ho).2)
      (fun id hmem ↦ Function.update_of_ne (Finset.ne_of_mem_erase hmem) _ _) fun _ ↦ Or.inl rfl
    intro id hmem hscrub
    rw [hids] at hscrub
    rcases List.mem_cons.1 hscrub with rfl | hscrub
    · exact absurd hmem (Finset.notMem_erase _ _)
    · exact hscrub
  | scrubPoisoned => exact h.stop (by simp)
  | turnOp hs => exact h.turnOp hs ha
  | turnResp => exact h.turnResp _ _ _
  | stop _ hwhy => exact h.stop hwhy

end Accounts

end Ldap3
