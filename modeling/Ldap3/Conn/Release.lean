import Ldap3.Conn.Account
import Ldap3.Conn.Client

/-!
# Ids of concluded operations

Whether the id of an operation is released once the operation is over. It is released in a
different place for every kind of operation: with the response of a single operation, with the
processing of an Abandon, and by a scrub for an operation that timed out and for a Search, whose
stream sends the scrub in `finish`.

The account that is kept here says that every id in use is about to be scrubbed, or belongs to an
operation that somebody waits for. `Accounts` is its part that concerns the driver; `Ledger` adds
what is known of the handles, which is above all that a handle remembers the id of the right
operation when it sends a scrub.

The account breaks where a stream is finished or dropped without a scrub being sent for all of its
operations, and where an Abandon takes the slot of an operation whose caller waits: the caller
returns with an error, and nobody releases the id. `Tidy` is the condition on the moves of a run
that this does not happen.
-/

namespace Ldap3

/-! ### The handles' part -/

namespace World

/-- Somebody waits for the operation: the stream of a Search was neither finished nor dropped, and
did not time out; for another operation the call has not returned. -/
def IsOpen (w : World) (o : ℕ) : Prop :=
  if (w.core.ops o).op = .search then
    w.timedOut o = false ∧ (w.handles (w.owner o)).gone = false ∧
      ∃ s ∈ (w.handles (w.owner o)).stream, s.state ≠ .closed
  else
    (w.handles (w.owner o)).call = some o

instance (w : World) (o : ℕ) : Decidable (w.IsOpen o) :=
  inferInstanceAs (Decidable (if (w.core.ops o).op = .search then
    w.timedOut o = false ∧ (w.handles (w.owner o)).gone = false ∧
      ∃ s ∈ (w.handles (w.owner o)).stream, s.state ≠ .closed
  else
    (w.handles (w.owner o)).call = some o))

/-- **The operation is outstanding**: somebody waits for it, and it has no final response. The
response to a Search is not final, as its stream has to be finished. -/
def Outstanding (w : World) (o : ℕ) : Prop :=
  w.IsOpen o ∧ ((w.core.ops o).op ≠ .search → (w.core.ops o).reply = none)

instance (w : World) (o : ℕ) : Decidable (w.Outstanding o) :=
  inferInstanceAs (Decidable (_ ∧ _))

/-- The operation has its final response; a Search, whose stream has it, is over with `finish`. -/
def Concluded (w : World) (o : ℕ) : Prop :=
  ((w.core.ops o).op = .search → ∃ s ∈ (w.handles (w.owner o)).stream, s.state = .closed) ∧
    ((w.core.ops o).op ≠ .search → (w.core.ops o).reply ≠ none)

instance (w : World) (o : ℕ) : Decidable (w.Concluded o) :=
  inferInstanceAs (Decidable (_ ∧ _))

/-- **The condition on a move**: `finish` is not called on a stream that was read to the end
through an adapter; no stream takes over another one; operations that are not Searches do not use
the handle of a stream between its start and its end; the connection is not unbound; a stream that
was started is not dropped before `finish`, unless its Search timed out; and the driver takes no
Abandon of an operation whose caller still waits for the response. -/
def Tidy (w : World) : Move → Prop
  | .alloc h op _ _ => op ≠ .unbind ∧
    (op ≠ .search → ∀ s ∈ (w.handles h).stream, s.unstarted ∨ s.state = .closed)
  | .finish h => ∀ s ∈ (w.handles h).stream, s.state ≠ .done
  | .pageTurn _ _ => False
  | .drop h => ∀ s ∈ (w.handles h).stream, s.unstarted ∨ s.state = .closed ∨
    ∃ o ∈ s.rx, w.timedOut o = true
  | .turn a => ∀ o ∈ w.core.abandons a, (w.handles (w.owner o)).call ≠ some o
  | _ => True

instance (w : World) : (m : Move) → Decidable (w.Tidy m)
  | .alloc h op _ _ => inferInstanceAs (Decidable (op ≠ .unbind ∧
      (op ≠ .search → ∀ s ∈ (w.handles h).stream, s.unstarted ∨ s.state = .closed)))
  | .finish h => inferInstanceAs (Decidable (∀ s ∈ (w.handles h).stream, s.state ≠ .done))
  | .drop h => inferInstanceAs (Decidable (∀ s ∈ (w.handles h).stream, s.unstarted ∨
      s.state = .closed ∨ ∃ o ∈ s.rx, w.timedOut o = true))
  | .turn a => inferInstanceAs (Decidable (∀ o ∈ w.core.abandons a,
      (w.handles (w.owner o)).call ≠ some o))
  | .pageTurn _ _ => .isFalse id
  | .newStream _ _ | .noId _ | .send _ | .receive _ | .fail _ | .timeout _ | .next _
  | .nextTimeout _ | .nextClosed _ | .nextEnd _ | .nextErr _ => .isTrue trivial

variable {w : World} {o : ℕ}

/-- A Search is going on until its stream is closed, dropped or timed out. -/
theorem isOpen_search (hop : (w.core.ops o).op = .search) :
    w.IsOpen o ↔ w.timedOut o = false ∧ (w.handles (w.owner o)).gone = false ∧
      ∃ s ∈ (w.handles (w.owner o)).stream, s.state ≠ .closed := by
  rw [IsOpen, if_pos hop]

/-- Another operation is until its call has returned. -/
theorem isOpen_of_ne (hop : (w.core.ops o).op ≠ .search) :
    w.IsOpen o ↔ (w.handles (w.owner o)).call = some o := by
  rw [IsOpen, if_neg hop]

/-- A Search stays open as long as its handle has a stream that is not closed. -/
theorem IsOpen.setHandle {f : Handle → Handle} (h : w.IsOpen o) (hop : (w.core.ops o).op = .search)
    (hgone : (f (w.handles (w.owner o))).gone = (w.handles (w.owner o)).gone)
    (hstream : ∃ s ∈ (f (w.handles (w.owner o))).stream, s.state ≠ .closed) :
    (w.setHandle (w.owner o) f).IsOpen o := by
  have hself : (w.setHandle (w.owner o) f).handles (w.owner o) = f (w.handles (w.owner o)) :=
    Function.update_self ..
  obtain ⟨htime, hnot, -⟩ := (isOpen_search hop).1 h
  refine (isOpen_search (w := w.setHandle (w.owner o) f) hop).2 ⟨htime, ?_⟩
  show ((w.setHandle (w.owner o) f).handles (w.owner o)).gone = false ∧
    ∃ s ∈ ((w.setHandle (w.owner o) f).handles (w.owner o)).stream, s.state ≠ .closed
  rw [hself, hgone]
  exact ⟨hnot, hstream⟩

/-- Whether an operation is open depends on its kind, its handle and its timeout. -/
theorem IsOpen.congr {w' : World} (h : w.IsOpen o) (hop : (w'.core.ops o).op = (w.core.ops o).op)
    (htime : w'.timedOut o = w.timedOut o)
    (hhandle : w'.handles (w'.owner o) = w.handles (w.owner o)) : w'.IsOpen o := by
  rw [IsOpen, hop, htime, hhandle]
  exact h

end World

/-- What is known of the handles when ids are accounted for. -/
structure Ledger (w : World) : Prop where
  accounts : Accounts w.core w.IsOpen
  timedOut_lt : ∀ o, w.timedOut o = true → o < w.core.numOps
  call : ∀ h o, (w.handles h).call = some o → o < w.core.numOps ∧ w.owner o = h ∧
    (w.handles h).lastId = (w.core.ops o).id ∧
    ((w.core.ops o).op = .search → ∀ s ∈ (w.handles h).stream, s.state = .fresh)
  search : ∀ o < w.core.numOps, (w.core.ops o).op = .search →
    ∃ s ∈ (w.handles (w.owner o)).stream, ¬s.unstarted ∧ (∀ o' ∈ s.rx, o' = o) ∧
      (s.state ≠ .closed → (w.handles (w.owner o)).lastId = (w.core.ops o).id)
  rx : ∀ h, ∀ s ∈ (w.handles h).stream, ∀ o ∈ s.rx,
    o < w.core.numOps ∧ (w.core.ops o).op = .search ∧ w.owner o = h

namespace Ledger

variable {w w' : World} {h : ℕ}

theorem init : Ledger World.init where
  accounts := Accounts.init
  timedOut_lt _ ho := nomatch ho
  call _ _ ho := nomatch ho
  search _ ho := absurd ho (Nat.not_lt_zero _)
  rx _ _ hs := nomatch hs

/-- An action on the connection that does not allocate an operation. -/
theorem act (hw : Ledger w) {a : Conn.Act} (hs : w.act a = some w')
    (ha : w.core.Heeds w.IsOpen a) : Ledger w' := by
  obtain ⟨c, hc, rfl⟩ := Option.map_eq_some_iff.1 hs
  have hne : ∀ op req controls, a ≠ .alloc op req controls := by
    rintro op req controls rfl
    exact ha
  obtain ⟨hnum, hid, hop⟩ := Conn.keeps_step hc hne
  constructor
  · exact (hw.accounts.step hc ha).imp fun o _ hopen ↦ Or.inl (hopen.congr (hop o) rfl rfl)
  · intro o ho
    show o < c.numOps
    rw [hnum]
    exact hw.timedOut_lt o ho
  · intro h o ho
    show o < c.numOps ∧ w.owner o = h ∧ (w.handles h).lastId = (c.ops o).id ∧
      ((c.ops o).op = .search → _)
    rw [hnum, hid o, hop o]
    exact hw.call h o ho
  · show ∀ o < c.numOps, (c.ops o).op = .search → ∃ s ∈ (w.handles (w.owner o)).stream, _ ∧ _ ∧
      (_ → (w.handles (w.owner o)).lastId = (c.ops o).id)
    intro o ho hsearch
    rw [hid o]
    exact hw.search o (hnum ▸ ho) (hop o ▸ hsearch)
  · intro h s hs o ho
    show o < c.numOps ∧ (c.ops o).op = .search ∧ w.owner o = h
    rw [hnum, hop o]
    exact hw.rx h s hs o ho

/-- An open Search, and the stream of its handle. -/
theorem search_of_isOpen (hw : Ledger w) {o : ℕ} (ho : o < w.core.numOps)
    (hop : (w.core.ops o).op = .search) (hopen : w.IsOpen o) :
    ∃ s ∈ (w.handles (w.owner o)).stream, ¬s.unstarted ∧ s.state ≠ .closed ∧
      (∀ o' ∈ s.rx, o' = o) ∧ (w.handles (w.owner o)).lastId = (w.core.ops o).id := by
  obtain ⟨-, -, s', hs', hclosed⟩ := (World.isOpen_search hop).1 hopen
  obtain ⟨s, hs, hne, hrx, hid⟩ := hw.search o ho hop
  obtain rfl := Option.mem_unique hs' hs
  exact ⟨s', hs', hne, hclosed, hrx, hid hclosed⟩

/-- A handle changes. A stream that was started stays, and the operations of the handle that are no
longer open are scrubbed, or the driver is done with them. -/
theorem setHandle (hw : Ledger w) {f : Handle → Handle}
    (hlast : (f (w.handles h)).lastId = (w.handles h).lastId)
    (hcall : ∀ o, (f (w.handles h)).call = some o → (w.handles h).call = some o ∧
      (f (w.handles h)).stream = (w.handles h).stream)
    (hrx : ∀ s' ∈ (f (w.handles h)).stream, ∀ o ∈ s'.rx, ∃ s ∈ (w.handles h).stream, o ∈ s.rx)
    (hstarted : ∀ s ∈ (w.handles h).stream, ¬s.unstarted →
      ∃ s' ∈ (f (w.handles h)).stream, ¬s'.unstarted ∧ (s'.state ≠ .closed → s.state ≠ .closed))
    (hopen : ∀ o < w.core.numOps, w.owner o = h → w.IsOpen o → (w.setHandle h f).IsOpen o ∨
      (w.core.status = .running → (w.core.ops o).id ∈ w.core.idScrubRx) ∨ w.core.Settled o) :
    Ledger (w.setHandle h f) := by
  have hself : (w.setHandle h f).handles h = f (w.handles h) := Function.update_self ..
  have hother : ∀ h' ≠ h, (w.setHandle h f).handles h' = w.handles h' :=
    fun h' hne ↦ Function.update_of_ne hne _ _
  constructor
  · refine hw.accounts.imp fun o ho hwas ↦ ?_
    by_cases howner : w.owner o = h
    · exact hopen o ho howner hwas
    · exact Or.inl (hwas.congr rfl rfl (hother _ howner))
  · exact hw.timedOut_lt
  · intro h' o ho
    by_cases heq : h' = h
    · subst heq
      rw [hself] at ho ⊢
      obtain ⟨hold, hstream⟩ := hcall o ho
      rw [hlast, hstream]
      exact hw.call h' o hold
    · rw [hother h' heq] at ho ⊢
      exact hw.call h' o ho
  · intro o ho hop
    obtain ⟨s, hs, hne, hone, hid⟩ := hw.search o ho hop
    show ∃ s' ∈ ((w.setHandle h f).handles (w.owner o)).stream, _ ∧ _ ∧
      (_ → ((w.setHandle h f).handles (w.owner o)).lastId = (w.core.ops o).id)
    by_cases howner : w.owner o = h
    · rw [howner] at hs hid
      rw [howner, hself, hlast]
      obtain ⟨s', hs', hne', hclosed⟩ := hstarted s hs hne
      refine ⟨s', hs', hne', fun o' ho' ↦ ?_, fun hstate ↦ hid (hclosed hstate)⟩
      obtain ⟨s₁, hs₁, ho'⟩ := hrx s' hs' o' ho'
      exact hone o' (Option.mem_unique hs₁ hs ▸ ho')
    · rw [hother _ howner]
      exact ⟨s, hs, hne, hone, hid⟩
  · intro h' s' hs' o ho
    by_cases heq : h' = h
    · subst heq
      rw [hself] at hs'
      obtain ⟨s, hs, ho⟩ := hrx s' hs' o ho
      exact hw.rx h' s hs o ho
    · rw [hother h' heq] at hs'
      exact hw.rx h' s' hs' o ho

/-- A stream changes while its handle is idle. -/
theorem setStream (hw : Ledger w) {f : Stream → Stream} (hcall : (w.handles h).call = none)
    (hf : ∀ s ∈ (w.handles h).stream, (∀ o ∈ (f s).rx, o ∈ s.rx) ∧
      (¬s.unstarted → ¬(f s).unstarted) ∧ (s.state = .closed → (f s).state = .closed) ∧
      (s.state ≠ .closed → (f s).state ≠ .closed ∨
        (w.core.status = .running → (w.handles h).lastId ∈ w.core.idScrubRx))) :
    Ledger (w.setStream h f) := by
  refine hw.setHandle rfl (fun o ho ↦ ?_) ?_ ?_ ?_
  · rw [hcall] at ho
    cases ho
  · intro s' hs' o ho
    obtain ⟨s, hs, rfl⟩ := Option.mem_map.1 hs'
    exact ⟨s, hs, (hf s hs).1 o ho⟩
  · intro s hs hne
    exact ⟨f s, Option.mem_map_of_mem f hs, (hf s hs).2.1 hne, mt (hf s hs).2.2.1⟩
  · rintro o ho rfl hopen
    by_cases hop : (w.core.ops o).op = .search
    · obtain ⟨s, hs, -, hstate, -, hid⟩ := hw.search_of_isOpen ho hop hopen
      rcases (hf s hs).2.2.2 hstate with hstate' | hscrub
      · exact Or.inl (hopen.setHandle hop rfl ⟨f s, Option.mem_map_of_mem f hs, hstate'⟩)
      · exact Or.inr (Or.inl (hid ▸ hscrub))
    · -- Nobody waits for another operation of an idle handle.
      rw [World.isOpen_of_ne hop, hcall] at hopen
      cases hopen

/-- A call ends. If it was to start a stream, the stream is not closed by it; if not, its operation
is scrubbed, or the driver is done with it. -/
theorem endCall (hw : Ledger w) {o : ℕ} {started : StreamState}
    (hcall : (w.handles h).call = some o) (hstarted : started = .active ∨ started = .error)
    (hover : (w.core.ops o).op ≠ .search →
      (w.core.status = .running → (w.core.ops o).id ∈ w.core.idScrubRx) ∨ w.core.Settled o) :
    Ledger (w.endCall h o started) := by
  have hfresh := (hw.call h o hcall).2.2.2
  have hstate : started ≠ .closed ∧ started ≠ .fresh := by
    rcases hstarted with rfl | rfl <;> simp
  -- The only operation that the handle waited for is this one.
  have hothers : ∀ o' < w.core.numOps, w.owner o' = h → w.IsOpen o' →
      (w.core.ops o').op = .search ∨
        (w.core.status = .running → (w.core.ops o').id ∈ w.core.idScrubRx) ∨ w.core.Settled o' := by
    intro o' _ howner hopen
    by_cases hop : (w.core.ops o').op = .search
    · exact Or.inl hop
    rw [World.isOpen_of_ne hop, howner, hcall] at hopen
    obtain rfl := Option.some.inj hopen
    exact Or.inr (hover hop)
  by_cases hop : (w.core.ops o).op = .search
  · refine hw.setHandle rfl (fun _ ho ↦ nomatch ho) ?_ ?_ ?_
    · rw [if_pos hop]
      intro s' hs' o ho
      obtain ⟨s, hs, rfl⟩ := Option.mem_map.1 hs'
      exact ⟨s, hs, ho⟩
    · rw [if_pos hop]
      intro s hs _
      refine ⟨_, Option.mem_map_of_mem _ hs, fun hun ↦ hstate.2 hun.1, fun _ ↦ ?_⟩
      rw [hfresh hop s hs]
      simp
    · intro o' ho' howner hopen
      rcases hothers o' ho' howner hopen with hop' | hdone
      · subst howner
        obtain ⟨-, -, s, hs, -⟩ := (World.isOpen_search hop').1 hopen
        refine Or.inl (hopen.setHandle hop' rfl ?_)
        rw [if_pos hop]
        exact ⟨_, Option.mem_map_of_mem _ hs, hstate.1⟩
      · exact Or.inr hdone
  · refine hw.setHandle rfl (fun _ ho ↦ nomatch ho) ?_ ?_ ?_
    · rw [if_neg hop]
      exact fun s hs o ho ↦ ⟨s, hs, ho⟩
    · rw [if_neg hop]
      exact fun s hs hne ↦ ⟨s, hs, hne, id⟩
    · intro o' ho' howner hopen
      rcases hothers o' ho' howner hopen with hop' | hdone
      · subst howner
        refine Or.inl (hopen.setHandle hop' rfl ?_)
        rw [if_neg hop]
        exact ((World.isOpen_search hop').1 hopen).2.2
      · exact Or.inr hdone

/-- A Search is given up; its id is about to be scrubbed. -/
theorem timeOut (hw : Ledger w) {o : ℕ} (ho : o < w.core.numOps)
    (hscrub : w.core.status = .running → (w.core.ops o).id ∈ w.core.idScrubRx) :
    Ledger { w with timedOut := Function.update w.timedOut o true } := by
  refine ⟨hw.accounts.imp fun o' _ hopen ↦ ?_, fun o' ho' ↦ ?_, hw.call, hw.search, hw.rx⟩
  · by_cases heq : o' = o
    · exact Or.inr (Or.inl (heq ▸ hscrub))
    · exact Or.inl (hopen.congr rfl (Function.update_of_ne heq _ _) rfl)
  · by_cases heq : o' = o
    · exact heq ▸ ho
    · have ho' : Function.update w.timedOut o true o' = true := ho'
      rw [Function.update_of_ne heq] at ho'
      exact hw.timedOut_lt o' ho'

/-- A new stream has no operation yet. -/
theorem newStream (hw : Ledger w) {adapted : Bool} (hs : w.newStream h adapted = some w') :
    Ledger w' := by
  rw [World.newStream] at hs
  split at hs
  · rename_i hnew
    obtain rfl := Option.some.inj hs
    have hstream : (w.handles h).stream = none := by rw [hnew]; rfl
    refine hw.setHandle rfl (fun o ho ↦ ?_) ?_ ?_ ?_
    · rw [hnew] at ho
      cases ho
    · intro s' hs' o ho
      obtain rfl := Option.some.inj hs'
      cases ho
    · rw [hstream]
      rintro _ ⟨⟩
    · -- A new handle has no operation yet.
      rintro o ho rfl hopen
      by_cases hop : (w.core.ops o).op = .search
      · obtain ⟨s, hs, -⟩ := hw.search_of_isOpen ho hop hopen
        rw [hstream] at hs
        cases hs
      · rw [World.isOpen_of_ne hop, hnew] at hopen
        cases hopen
  · cases hs

/-- What the allocation of an operation leaves: the new connection, and the handle with the new
operation. -/
structure Allocated (w : World) (h : ℕ) (op : LdapOp) (w' : World) : Prop where
  numOps : w'.core.numOps = w.core.numOps + 1
  op_new : (w'.core.ops w.core.numOps).op = op
  ops_old : ∀ o < w.core.numOps, w'.core.ops o = w.core.ops o
  owner_new : w'.owner w.core.numOps = h
  owner_old : ∀ o < w.core.numOps, w'.owner o = w.owner o
  timedOut : w'.timedOut = w.timedOut
  handle : w'.handles h = { w.handles h with
    lastId := (w'.core.ops w.core.numOps).id
    call := some w.core.numOps
    stream := if op = .search then (w.handles h).stream.map fun s ↦
        { s with rx := some w.core.numOps }
      else (w.handles h).stream }
  other : ∀ h' ≠ h, w'.handles h' = w.handles h'
  idle : (w.handles h).idle
  unstarted : op = .search → ∃ s ∈ (w.handles h).stream, s.unstarted

theorem alloc_spec {op : LdapOp} {req : Tag} {controls : Option (List RawControl)}
    (hs : w.alloc h op req controls = some w') :
    w.core.alloc op req controls = some w'.core ∧ Allocated w h op w' := by
  rw [World.alloc] at hs
  split at hs
  · rename_i hcond
    obtain ⟨w₁, hact, hs⟩ := Option.bind_eq_some_iff.1 hs
    obtain ⟨c, hc, rfl⟩ := Option.map_eq_some_iff.1 hact
    obtain ⟨id, -, hc'⟩ := Conn.alloc_spec hc
    -- The action on the connection adds one operation and leaves the others as they are.
    have hnew : c.ops w.core.numOps = .new id op req controls := by
      rw [hc']
      exact Function.update_self ..
    have hold : ∀ o < w.core.numOps, c.ops o = w.core.ops o := by
      intro o ho
      rw [hc']
      exact Function.update_of_ne (ne_of_lt ho) ..
    have hnum : c.numOps = w.core.numOps + 1 := by rw [hc']
    have hop_new : (c.ops w.core.numOps).op = op := by
      rw [hnew]
      rfl
    obtain rfl := Option.some.inj hs
    by_cases hop : op = .search
    · simp only [if_pos hop]
      refine ⟨hc, hnum, hop_new, hold, Function.update_self ..,
        fun o ho ↦ Function.update_of_ne (ne_of_lt ho) .., rfl, ?_, fun h' hne ↦ ?_, hcond.1, hcond.2⟩
      · simp [World.setStream, World.setHandle, hop]
      · simp [World.setStream, World.setHandle, hne]
    · simp only [if_neg hop]
      refine ⟨hc, hnum, hop_new, hold, Function.update_self ..,
        fun o ho ↦ Function.update_of_ne (ne_of_lt ho) .., rfl, ?_, fun h' hne ↦ ?_, hcond.1, hcond.2⟩
      · simp [World.setHandle, hop]
      · simp [World.setHandle, hne]
  · cases hs

section Allocated

variable {op : LdapOp}

theorem Allocated.stream_eq (ha : Allocated w h op w') (hop : op ≠ .search) :
    (w'.handles h).stream = (w.handles h).stream := by
  rw [ha.handle, if_neg hop]

/-- The stream of a new Search was not started before. -/
theorem Allocated.state_fresh (ha : Allocated w h op w') (hop : op = .search) :
    ∀ s ∈ (w'.handles h).stream, s.state = .fresh := by
  obtain ⟨s, hs, hun⟩ := ha.unstarted hop
  rw [ha.handle, if_pos hop]
  intro s' hs'
  obtain ⟨s₁, hs₁, rfl⟩ := Option.mem_map.1 hs'
  obtain rfl := Option.mem_unique hs hs₁
  exact hun.1

/-- A Search of the same handle is over, and the new operation is no Search. -/
theorem Allocated.over (ha : Allocated w h op w') (hw : Ledger w)
    (htidy : op ≠ .search → ∀ s ∈ (w.handles h).stream, s.unstarted ∨ s.state = .closed) {o : ℕ}
    (ho : o < w.core.numOps) (hsearch : (w.core.ops o).op = .search) (hoh : w.owner o = h) :
    op ≠ .search ∧ ∀ s ∈ (w.handles h).stream, s.state = .closed := by
  obtain ⟨s, hs, hne, -, -⟩ := hw.search o ho hsearch
  rw [hoh] at hs
  have hop : op ≠ .search := by
    intro hop
    obtain ⟨s', hs', hun⟩ := ha.unstarted hop
    exact hne (Option.mem_unique hs' hs ▸ hun)
  refine ⟨hop, fun s' hs' ↦ ?_⟩
  obtain rfl := Option.mem_unique hs hs'
  exact (htidy hop s hs).resolve_left hne

/-- The operations of before go on. -/
theorem Allocated.isOpen_old (ha : Allocated w h op w') (hw : Ledger w)
    (htidy : op ≠ .search → ∀ s ∈ (w.handles h).stream, s.unstarted ∨ s.state = .closed) {o : ℕ}
    (ho : o < w.core.numOps) (hopen : w.IsOpen o) : w'.IsOpen o := by
  by_cases hoh : w.owner o = h
  · -- The handle is idle and its stream, if it was started, closed.
    by_cases hop : (w.core.ops o).op = .search
    · obtain ⟨s, hs, -, hstate, -⟩ := hw.search_of_isOpen ho hop hopen
      exact absurd ((ha.over hw htidy ho hop hoh).2 s (hoh ▸ hs)) hstate
    · rw [World.isOpen_of_ne hop, hoh, ha.idle.2] at hopen
      cases hopen
  · refine hopen.congr (by rw [ha.ops_old o ho]) (by rw [ha.timedOut]) ?_
    rw [ha.owner_old o ho, ha.other _ hoh]

/-- The new operation is open. -/
theorem Allocated.isOpen_new (ha : Allocated w h op w') (hw : Ledger w) :
    w'.IsOpen w.core.numOps := by
  rw [World.IsOpen, ha.timedOut, ha.op_new, ha.owner_new]
  split
  · rename_i hop
    obtain ⟨s, hs, -⟩ := ha.unstarted hop
    have hs' : { s with rx := some w.core.numOps } ∈ (w'.handles h).stream := by
      rw [ha.handle, if_pos hop]
      exact Option.mem_map_of_mem (fun s ↦ { s with rx := some w.core.numOps }) hs
    refine ⟨?_, ?_, _, hs', ?_⟩
    · rcases htime : w.timedOut w.core.numOps with - | -
      · rfl
      · exact absurd (hw.timedOut_lt _ htime) (lt_irrefl _)
    · rw [ha.handle]
      exact ha.idle.1
    · rw [ha.state_fresh hop _ hs']
      simp
  · rw [ha.handle]

theorem Allocated.call (ha : Allocated w h op w') (hw : Ledger w) {h' o : ℕ}
    (ho : (w'.handles h').call = some o) : o < w'.core.numOps ∧ w'.owner o = h' ∧
      (w'.handles h').lastId = (w'.core.ops o).id ∧
      ((w'.core.ops o).op = .search → ∀ s ∈ (w'.handles h').stream, s.state = .fresh) := by
  rw [ha.numOps]
  by_cases heq : h' = h
  · subst heq
    have hself := ha.handle
    rw [hself] at ho
    obtain rfl := Option.some.inj ho
    refine ⟨Nat.lt_succ_self _, ha.owner_new, by rw [hself], fun hop ↦ ?_⟩
    exact ha.state_fresh (ha.op_new.symm.trans hop)
  · rw [ha.other h' heq] at ho ⊢
    obtain ⟨hlt, hown, hrest⟩ := hw.call h' o ho
    rw [ha.owner_old o hlt, ha.ops_old o hlt]
    exact ⟨Nat.lt_succ_of_lt hlt, hown, hrest⟩

/-- Its stream holds the receiver of a Search that is open. -/
theorem Allocated.search (ha : Allocated w h op w') (hw : Ledger w)
    (htidy : op ≠ .search → ∀ s ∈ (w.handles h).stream, s.unstarted ∨ s.state = .closed) {o : ℕ}
    (ho : o < w'.core.numOps) (hop : (w'.core.ops o).op = .search) :
    ∃ s ∈ (w'.handles (w'.owner o)).stream, ¬s.unstarted ∧ (∀ o' ∈ s.rx, o' = o) ∧
      (s.state ≠ .closed → (w'.handles (w'.owner o)).lastId = (w'.core.ops o).id) := by
  rw [ha.numOps] at ho
  rcases Nat.lt_succ_iff_lt_or_eq.1 ho with ho | rfl
  · rw [ha.ops_old o ho] at hop ⊢
    rw [ha.owner_old o ho]
    obtain ⟨s, hs, hne, hone, hid⟩ := hw.search o ho hop
    by_cases hoh : w.owner o = h
    · obtain ⟨hnot, hclosed⟩ := ha.over hw htidy ho hop hoh
      rw [hoh] at hs ⊢
      rw [ha.stream_eq hnot]
      exact ⟨s, hs, hne, hone, fun hstate ↦ absurd (hclosed s hs) hstate⟩
    · rw [ha.other _ hoh]
      exact ⟨s, hs, hne, hone, hid⟩
  · have hsearch : op = .search := ha.op_new.symm.trans hop
    obtain ⟨s, hs, -⟩ := ha.unstarted hsearch
    rw [ha.owner_new, ha.handle, if_pos hsearch]
    refine ⟨_, Option.mem_map_of_mem _ hs, ?_, fun o' ho' ↦ (Option.some.inj ho').symm,
      fun _ ↦ rfl⟩
    rintro ⟨-, hrx⟩
    cases hrx

theorem Allocated.rx (ha : Allocated w h op w') (hw : Ledger w) {h' o : ℕ} {s' : Stream}
    (hs' : s' ∈ (w'.handles h').stream) (ho : o ∈ s'.rx) :
    o < w'.core.numOps ∧ (w'.core.ops o).op = .search ∧ w'.owner o = h' := by
  rw [ha.numOps]
  have hold : ∀ s ∈ (w.handles h').stream, o ∈ s.rx →
      o < w.core.numOps + 1 ∧ (w'.core.ops o).op = .search ∧ w'.owner o = h' := by
    intro s hs hos
    obtain ⟨hlt, hop, hown⟩ := hw.rx h' s hs o hos
    rw [ha.ops_old o hlt, ha.owner_old o hlt]
    exact ⟨Nat.lt_succ_of_lt hlt, hop, hown⟩
  by_cases heq : h' = h
  · subst heq
    by_cases hop : op = .search
    · rw [ha.handle, if_pos hop] at hs'
      obtain ⟨s, -, rfl⟩ := Option.mem_map.1 hs'
      obtain rfl := Option.some.inj ho
      exact ⟨Nat.lt_succ_self _, ha.op_new.trans hop, ha.owner_new⟩
    · rw [ha.stream_eq hop] at hs'
      exact hold s' hs' ho
  · rw [ha.other h' heq] at hs'
    exact hold s' hs' ho

end Allocated

theorem alloc (hw : Ledger w) {op : LdapOp} {req : Tag} {controls : Option (List RawControl)}
    (htidy : w.Tidy (.alloc h op req controls)) (hs : w.alloc h op req controls = some w') :
    Ledger w' := by
  obtain ⟨hc, ha⟩ := alloc_spec hs
  obtain ⟨hunbind, htidy⟩ := htidy
  have haccounts := hw.accounts.imp fun o ho h ↦ Or.inl (ha.isOpen_old hw htidy ho h)
  constructor
  · exact haccounts.alloc hunbind (ha.isOpen_new hw) hc
  · intro o ho
    rw [ha.timedOut] at ho
    rw [ha.numOps]
    exact Nat.lt_succ_of_lt (hw.timedOut_lt o ho)
  · exact fun h' o ho ↦ ha.call hw ho
  · exact fun o ho hop ↦ ha.search hw htidy ho hop
  · exact fun h' s' hs' o ho ↦ ha.rx hw hs' ho

/-- The stream of `next`. -/
theorem activeStream_spec {s : Stream} (hs : w.activeStream h = some s) :
    s ∈ (w.handles h).stream ∧ (w.handles h).call = none ∧ s.state = .active := by
  obtain ⟨s', hs', hs⟩ := Option.bind_eq_some_iff.1 hs
  split at hs
  · rename_i hcond
    obtain rfl := Option.some.inj hs
    exact ⟨hs', hcond.1.2, hcond.2⟩
  · cases hs

theorem dropItems (hw : Ledger w) (hs : w.dropItems h = some w') :
    Ledger w' ∧ w'.handles = w.handles := by
  rw [World.dropItems] at hs
  split at hs
  · obtain rfl := Option.some.inj hs
    exact ⟨hw, rfl⟩
  · rename_i o _
    have hheeds : w.core.Heeds w.IsOpen (.dropItems o) := by rintro _ ⟨⟩
    refine ⟨hw.act hs hheeds, ?_⟩
    obtain ⟨c, -, rfl⟩ := Option.map_eq_some_iff.1 hs
    rfl

/-- The receiver of a stream that was started is dropped. The stream is otherwise as before. -/
theorem dropRx (hw : Ledger w) (hcall : (w.handles h).call = none)
    (hstate : ∀ s ∈ (w.handles h).stream, s.state ≠ .fresh) (hs : w.dropRx h = some w') :
    Ledger w' ∧ (w'.handles h).call = none ∧
      ∀ s' ∈ (w'.handles h).stream, ∃ s ∈ (w.handles h).stream, s'.state = s.state := by
  obtain ⟨w₁, hdrop, rfl⟩ := Option.map_eq_some_iff.1 hs
  obtain ⟨hw₁, hhandles⟩ := hw.dropItems hdrop
  rw [← hhandles] at hcall hstate ⊢
  refine ⟨hw₁.setStream hcall fun s hs ↦ ⟨fun _ ho ↦ (nomatch ho), fun _ hun ↦ ?_, id, Or.inl⟩,
    ?_, fun s' hs' ↦ ?_⟩
  · exact hstate s hs hun.1
  · simpa [World.setStream, World.setHandle] using hcall
  · have hmem : s' ∈ (w₁.handles h).stream.map fun s ↦ { s with rx := none } := by
      simpa [World.setStream, World.setHandle] using hs'
    obtain ⟨s, hs, rfl⟩ := Option.mem_map.1 hmem
    exact ⟨s, hs, rfl⟩

/-- A handle sends a scrub; if the driver runs, it will take it. -/
theorem sendScrub (hw : Ledger w) {id : RequestId} (hs : w.act (.sendScrub id) = some w') :
    Ledger w' ∧ w'.handles = w.handles ∧ w'.owner = w.owner ∧ w.core.Keeps w'.core ∧
      (w'.core.status = .running → id ∈ w'.core.idScrubRx) := by
  refine ⟨hw.act hs fun _ ho ↦ (nomatch ho), ?_⟩
  obtain ⟨c, hc, rfl⟩ := Option.map_eq_some_iff.1 hs
  refine ⟨rfl, rfl, Conn.keeps_step hc (by simp), ?_⟩
  obtain rfl := Option.some.inj hc
  intro hrun
  rw [Conn.sendScrub] at hrun ⊢
  split at hrun
  · rename_i hrunning
    rw [if_pos hrunning]
    exact List.mem_append_right _ (List.mem_singleton_self id)
  · rename_i hstopped
    exact absurd hrun hstopped

/-- The id of a call that timed out is queued for a scrub. -/
theorem timeout (hw : Ledger w) (hs : w.timeout h = some w') : Ledger w' := by
  obtain ⟨o, hcall, hs⟩ := Option.bind_eq_some_iff.1 hs
  obtain ⟨w₁, hdrop, hs⟩ := Option.bind_eq_some_iff.1 hs
  obtain ⟨w₂, hscrub, hs⟩ := Option.bind_eq_some_iff.1 hs
  obtain rfl := Option.some.inj hs
  have hw₁ := hw.act hdrop fun _ ho ↦ nomatch ho
  have hcall₁ : (w₁.handles h).call = some o := by
    obtain ⟨c, -, rfl⟩ := Option.map_eq_some_iff.1 hdrop
    exact hcall
  obtain ⟨hw₂, hhandles, -, hkeeps, hmem⟩ := hw₁.sendScrub hscrub
  -- The handle's `last_id` is that of the operation it waits for, so the right id is scrubbed.
  obtain ⟨hlt, -, hid, -⟩ := hw₁.call h o hcall₁
  rw [← hhandles] at hcall₁
  have hscrubbed : w₂.core.status = .running → (w₂.core.ops o).id ∈ w₂.core.idScrubRx := by
    rw [hkeeps.id_eq, ← hid]
    exact hmem
  refine (hw₂.endCall hcall₁ (Or.inr rfl) fun _ ↦ Or.inl hscrubbed).timeOut ?_ hscrubbed
  show o < w₂.core.numOps
  rw [hkeeps.numOps_eq]
  exact hlt

theorem next (hw : Ledger w) (hs : w.next h = some w') : Ledger w' := by
  obtain ⟨s, hactive, hs⟩ := Option.bind_eq_some_iff.1 hs
  obtain ⟨hstream, hcall, hstate⟩ := activeStream_spec hactive
  obtain ⟨o, -, hs⟩ := Option.bind_eq_some_iff.1 hs
  obtain ⟨⟨item, controls⟩, -, hs⟩ := Option.bind_eq_some_iff.1 hs
  have hread := hw.setStream (f := fun s ↦ { s with read := s.read + 1 }) hcall
    fun s _ ↦ ⟨fun _ ho ↦ ho, fun h ↦ h, fun h ↦ h, Or.inl⟩
  cases item with
  | entry t =>
    obtain rfl := Option.some.inj hs
    exact hread
  | referral t =>
    obtain rfl := Option.some.inj hs
    exact hread
  | done res =>
    set w₁ := w.setStream h fun s ↦ { s with read := s.read + 1 }
    have hcall₁ : (w₁.handles h).call = none := by
      simpa [w₁, World.setStream, World.setHandle] using hcall
    have hres := hread.setStream
      (f := fun s ↦ { s with res := some { res with ctrls := controls } }) hcall₁
      fun s _ ↦ ⟨fun _ ho ↦ ho, fun h ↦ h, fun h ↦ h, Or.inl⟩
    refine (hres.dropRx ?_ ?_ hs).1
    · simpa [World.setStream, World.setHandle] using hcall₁
    · intro s' hs'
      have hstate' : s'.state = s.state := by
        have hmem : s' ∈ ((w.handles h).stream.map fun s ↦ { s with read := s.read + 1 }).map
            fun s ↦ { s with res := some { res with ctrls := controls } } := by
          simpa [w₁, World.setStream, World.setHandle] using hs'
        rw [Option.mem_def.1 hstream] at hmem
        obtain rfl := Option.some.inj hmem
        rfl
      rw [hstate', hstate]
      simp

/-- And so is that of a stream. -/
theorem nextTimeout (hw : Ledger w) (hs : w.nextTimeout h = some w') : Ledger w' := by
  obtain ⟨s, hactive, hs⟩ := Option.bind_eq_some_iff.1 hs
  obtain ⟨hstream, hcall, hstate⟩ := activeStream_spec hactive
  obtain ⟨o, hrx, hs⟩ := Option.bind_eq_some_iff.1 hs
  obtain ⟨w₁, hscrub, hs⟩ := Option.bind_eq_some_iff.1 hs
  obtain rfl := Option.some.inj hs
  obtain ⟨hlt, hop, howner⟩ := hw.rx h s hstream o hrx
  -- The stream is open, so `last_id` is still the id of its Search.
  obtain ⟨s', hs', -, -, hid⟩ := hw.search o hlt hop
  rw [howner] at hs' hid
  obtain rfl := Option.mem_unique hs' hstream
  obtain ⟨hw₁, hhandles, -, hkeeps, hmem⟩ := hw.sendScrub hscrub
  refine (hw₁.setStream ?_ ?_).timeOut ?_ ?_
  · rw [hhandles]
    exact hcall
  · intro s₁ hs₁
    rw [hhandles] at hs₁
    obtain rfl := Option.mem_unique hs₁ hs'
    refine ⟨fun _ ho ↦ ho, fun _ hun ↦ (nomatch hun.1), fun hclosed ↦ ?_, fun _ ↦ Or.inl (by simp)⟩
    rw [hstate] at hclosed
    cases hclosed
  · show o < w₁.core.numOps
    rw [hkeeps.numOps_eq]
    exact hlt
  · show w₁.core.status = .running → (w₁.core.ops o).id ∈ w₁.core.idScrubRx
    rw [hkeeps.id_eq, ← hid (by rw [hstate]; simp)]
    exact hmem

/-- The state of an active stream changes, not to the state before its start. -/
theorem setState (hw : Ledger w) {s : Stream} {state : StreamState}
    (hactive : w.activeStream h = some s) (hstate : state = .done ∨ state = .error) :
    Ledger (w.setStream h fun s ↦ { s with state := state }) := by
  obtain ⟨hstream, hcall, hactive⟩ := activeStream_spec hactive
  have hne : state ≠ .fresh ∧ state ≠ .closed := by
    rcases hstate with rfl | rfl <;> simp
  refine hw.setStream hcall fun s₁ hs₁ ↦ ?_
  obtain rfl := Option.mem_unique hs₁ hstream
  refine ⟨fun _ ho ↦ ho, fun _ hun ↦ hne.1 hun.1, fun hclosed ↦ ?_, fun _ ↦ Or.inl hne.2⟩
  rw [hactive] at hclosed
  cases hclosed

theorem nextClosed (hw : Ledger w) (hs : w.nextClosed h = some w') : Ledger w' := by
  obtain ⟨s, hactive, hs⟩ := Option.bind_eq_some_iff.1 hs
  obtain ⟨hstream, hcall, hstate⟩ := activeStream_spec hactive
  obtain ⟨o, -, hs⟩ := Option.bind_eq_some_iff.1 hs
  split at hs
  · obtain ⟨w₁, hdrop, hs⟩ := Option.bind_eq_some_iff.1 hs
    obtain rfl := Option.some.inj hs
    have hfresh : ∀ s ∈ (w.handles h).stream, s.state ≠ .fresh := by
      intro s' hs'
      obtain rfl := Option.mem_unique hs' hstream
      rw [hstate]
      simp
    obtain ⟨hw₁, hcall₁, hkept⟩ := hw.dropRx hcall hfresh hdrop
    refine hw₁.setStream hcall₁ fun s₁ hs₁ ↦ ⟨fun _ ho ↦ ho, fun _ hun ↦ (nomatch hun.1),
      fun hclosed ↦ ?_, fun _ ↦ Or.inl (by simp)⟩
    obtain ⟨s', hs', hsame⟩ := hkept s₁ hs₁
    obtain rfl := Option.mem_unique hs' hstream
    rw [hsame, hstate] at hclosed
    cases hclosed
  · cases hs

/-- **`finish` has the id scrubbed**, if the stream was not read to its end through an adapter. -/
theorem finish (hw : Ledger w) (htidy : w.Tidy (.finish h)) (hs : w.finish h = some w') :
    Ledger w' := by
  obtain ⟨s, hstream, hs⟩ := Option.bind_eq_some_iff.1 hs
  split at hs
  · rename_i hcond
    obtain ⟨⟨-, hcall⟩, -⟩ := hcond
    obtain ⟨w₁, hscrub, hs⟩ := Option.bind_eq_some_iff.1 hs
    -- The condition excludes the one case where `finish` sends no scrub.
    rw [if_pos (htidy s hstream)] at hscrub
    obtain ⟨hw₁, hhandles, -, -, hmem⟩ := hw.sendScrub hscrub
    rw [← hhandles] at hcall hmem
    have hclose := hw₁.setStream (f := fun s ↦ { s with state := .closed, res := none }) hcall
      fun s _ ↦ ⟨fun _ ho ↦ ho, fun _ hun ↦ (nomatch hun.1), fun _ ↦ rfl, fun _ ↦ Or.inr hmem⟩
    refine (hclose.dropRx ?_ ?_ hs).1
    · simpa [World.setStream, World.setHandle] using hcall
    · intro s' hs'
      have hmem' : s' ∈ (w₁.handles h).stream.map fun s ↦
          { s with state := .closed, res := none } := by
        simpa [World.setStream, World.setHandle] using hs'
      obtain ⟨s₁, -, rfl⟩ := Option.mem_map.1 hmem'
      simp
  · cases hs

/-- A turn of the driver, which abandons no open operation. -/
theorem turn (hw : Ledger w) {a : Conn.Act} (htidy : w.Tidy (.turn a))
    (hs : w.step (.turn a) = some w') : Ledger w' := by
  simp only [World.step] at hs
  split at hs
  · rename_i hturn
    have hmercy : ∀ o ∈ w.core.abandons a, (w.core.ops o).op ≠ .search → ¬w.IsOpen o := by
      intro o ho hop hopen
      exact htidy o ho ((World.isOpen_of_ne hop).1 hopen)
    refine hw.act hs ?_
    cases a with
    | alloc | noId | enqueue | dropReply | dropItems | sendScrub => cases hturn
    | turnScrub | turnOp | turnResp | stop => exact hmercy
  · cases hs

/-- A call sends its operation, which is open. -/
theorem send (hw : Ledger w) (hs : w.send h = some w') : Ledger w' := by
  obtain ⟨o, hcall, hact⟩ := Option.bind_eq_some_iff.1 hs
  refine hw.act hact fun hop ↦ ?_
  rw [World.isOpen_of_ne hop, (hw.call h o hcall).2.1]
  exact hcall

/-- A call returns with its result. From here on a Search is waited for by its stream. -/
theorem receive (hw : Ledger w) (hs : w.receive h = some w') : Ledger w' := by
  obtain ⟨o, hcall, hs⟩ := Option.bind_eq_some_iff.1 hs
  split at hs
  · rename_i hreply
    obtain rfl := Option.some.inj hs
    refine hw.endCall hcall (Or.inl rfl) fun hop ↦ Or.inr ⟨hop, fun _ ↦ ?_⟩
    exact ⟨hw.accounts.reply_taken o hreply, Or.inl hreply⟩
  · cases hs

/-- A call fails when its operation has lost its slot, or the driver has ended. -/
theorem fail (hw : Ledger w) (hs : w.fail h = some w') : Ledger w' := by
  obtain ⟨o, hcall, hs⟩ := Option.bind_eq_some_iff.1 hs
  split at hs
  · rename_i hcond
    obtain ⟨w₁, hact, hs⟩ := Option.bind_eq_some_iff.1 hs
    have hw₁ := hw.act hact fun _ ho ↦ nomatch ho
    obtain ⟨c, hc, rfl⟩ := Option.map_eq_some_iff.1 hact
    obtain rfl := Option.some.inj hs
    obtain ⟨-, hc⟩ := Option.ite_none_right_eq_some.1 hc
    obtain rfl := Option.some.inj hc
    have hself : (w.core.dropReply o).ops o = { w.core.ops o with replyOpen := false } :=
      Function.update_self ..
    -- The sender is gone: the driver has ended, or has taken the operation and lost its slot.
    refine hw₁.endCall hcall (Or.inr rfl) fun hop ↦ Or.inr ⟨hop, fun hrun ↦ ?_⟩
    rw [hself]
    obtain ⟨htaken, hslot⟩ := hcond.2.resolve_left (not_not.2 hrun)
    exact ⟨htaken, Or.inr hslot⟩
  · cases hs

/-- A handle is dropped that nobody waits for: its stream was not started, was finished, or timed
out. -/
theorem drop (hw : Ledger w) (htidy : w.Tidy (.drop h)) (hs : w.drop h = some w') :
    Ledger w' := by
  rw [World.drop] at hs
  split at hs
  · rename_i hidle
    obtain ⟨w₁, hdrop, hs⟩ := Option.bind_eq_some_iff.1 hs
    obtain rfl := Option.some.inj hs
    obtain ⟨hw₁, hhandles⟩ := hw.dropItems hdrop
    have htime : w₁.timedOut = w.timedOut := by
      rw [World.dropItems] at hdrop
      split at hdrop
      · rw [← Option.some.inj hdrop]
      · obtain ⟨c, -, rfl⟩ := Option.map_eq_some_iff.1 hdrop
        rfl
    refine hw₁.setHandle rfl (fun o ho ↦ ⟨ho, rfl⟩) (fun s hs o ho ↦ ⟨s, hs, ho⟩)
      (fun s hs hne ↦ ⟨s, hs, hne, fun h ↦ h⟩) ?_
    rintro o ho rfl hopen
    exfalso
    by_cases hop : (w₁.core.ops o).op = .search
    · obtain ⟨s, hs, hstarted, hstate, hone, -⟩ := hw₁.search_of_isOpen ho hop hopen
      rcases htidy s (hhandles ▸ hs) with hun | hclosed | ⟨o', ho', hover⟩
      · exact hstarted hun
      · exact hstate hclosed
      · obtain rfl := hone o' ho'
        rw [← htime, ((World.isOpen_search hop).1 hopen).1] at hover
        cases hover
    · rw [World.isOpen_of_ne hop, hhandles, hidle.2] at hopen
      cases hopen
  · cases hs

/-- **One move keeps the ledger**, if it meets the condition. -/
theorem step (hw : Ledger w) {m : Move} (htidy : w.Tidy m) (hs : w.step m = some w') :
    Ledger w' := by
  cases m with
  | newStream h adapted => exact hw.newStream hs
  | alloc h op req controls => exact hw.alloc htidy hs
  | noId h =>
    obtain ⟨-, hact⟩ := Option.ite_none_right_eq_some.1 hs
    exact hw.act hact fun _ ho ↦ nomatch ho
  | send h => exact hw.send hs
  | receive h => exact hw.receive hs
  | fail h => exact hw.fail hs
  | timeout h => exact hw.timeout hs
  | next h => exact hw.next hs
  | nextTimeout h => exact hw.nextTimeout hs
  | nextClosed h => exact hw.nextClosed hs
  | nextEnd h =>
    obtain ⟨s, hactive, hs⟩ := Option.bind_eq_some_iff.1 hs
    split at hs
    · exact Option.some.inj hs ▸ hw.setState hactive (Or.inl rfl)
    · cases hs
  | nextErr h =>
    obtain ⟨s, hactive, hs⟩ := Option.bind_eq_some_iff.1 hs
    split at hs
    · exact Option.some.inj hs ▸ hw.setState hactive (Or.inr rfl)
    · cases hs
  | pageTurn h h' => exact htidy.elim
  | finish h => exact hw.finish htidy hs
  | drop h => exact hw.drop htidy hs
  | turn a => exact hw.turn htidy hs

end Ledger

/-! ### Runs -/

theorem Ledger.of_reach {w : World} (h : Machine.Reach World.step World.Tidy World.init w) :
    Ledger w :=
  h.invariant Ledger.init fun hw htidy hs ↦ hw.step htidy hs

/-- What is concluded is not outstanding any more. -/
theorem not_outstanding_of_concluded {w : World} {o : ℕ} (h : w.Concluded o) :
    ¬w.Outstanding o := by
  rintro ⟨hopen, hreply⟩
  by_cases hop : (w.core.ops o).op = .search
  · obtain ⟨s, hs, hclosed⟩ := h.1 hop
    obtain ⟨-, -, s', hs', hstate⟩ := (World.isOpen_search hop).1 hopen
    exact hstate (Option.mem_unique hs' hs ▸ hclosed)
  · exact h.2 hop (hreply hop)

/-- **Ids are released when their operations are over.** In a run whose moves meet the condition,
while the driver runs and has no scrub to take, every id in use belongs to an outstanding
operation. So there are no more ids in use than outstanding operations, and the id of a concluded
operation is in use only if it was given to another one since, after `i32::MAX` operations. -/
theorem outstanding_of_inUse {w : World} (h : Machine.Reach World.step World.Tidy World.init w)
    (hrun : w.core.status = .running) (hdrained : w.core.idScrubRx = []) :
    (∀ id ∈ w.core.msgmap.inUse,
      ∃ o < w.core.numOps, w.Outstanding o ∧ (w.core.ops o).id = id) ∧
    w.core.msgmap.inUse.card ≤ ((Finset.range w.core.numOps).filter w.Outstanding).card ∧
    ∀ o < w.core.numOps, w.Concluded o → (w.core.ops o).id ∈ w.core.msgmap.inUse →
      i32Max < w.core.numOps ∧ ∃ o' < w.core.numOps, o' ≠ o ∧ w.Outstanding o' ∧
        (w.core.ops o').id = (w.core.ops o).id := by
  have hall : ∀ id ∈ w.core.msgmap.inUse,
      ∃ o < w.core.numOps, w.Outstanding o ∧ (w.core.ops o).id = id := by
    intro id hid
    rcases (Ledger.of_reach h).accounts.accounted hrun id hid with hscrub | ⟨o, hdue, hid⟩
    · rw [hdrained] at hscrub
      cases hscrub
    · exact ⟨o, hdue.lt, ⟨hdue.counts, fun hop ↦ (hdue.waits hop).1⟩, hid⟩
  refine ⟨hall, ?_, ?_⟩
  · refine (Finset.card_le_card (t := ((Finset.range w.core.numOps).filter w.Outstanding).image
      fun o ↦ (w.core.ops o).id) fun id hid ↦ ?_).trans Finset.card_image_le
    obtain ⟨o, ho, hout, rfl⟩ := hall id hid
    exact Finset.mem_image_of_mem _ (Finset.mem_filter.2 ⟨Finset.mem_range.2 ho, hout⟩)
  · intro o ho hconcluded hmem
    obtain ⟨o', ho', hout, hid⟩ := hall _ hmem
    have hne : o' ≠ o := by
      rintro rfl
      exact not_outstanding_of_concluded hconcluded hout
    refine ⟨?_, o', ho', hne, hout, hid⟩
    -- Without a wraparound ids are not reused.
    by_contra hle
    have hcore : Machine.Reach Conn.step Machine.any Conn.init w.core :=
      h.map fun {s s' l} _ hs ↦ World.reach_step (fun _ _ _ ↦ trivial) hs fun _ _ ↦ trivial
    exact hne ((Demux.of_reach hcore (not_lt.1 hle)).id_inj ho' ho hid)

/-- A Search that is finished, an operation that is scrubbed, and one that goes on. -/
def tidyRun : List Move :=
  [.newStream 0 false, .alloc 0 .search .ofNull none, .alloc 1 .single .ofNull none, .send 0,
    .turn (.turnOp true), .receive 0, .send 1, .turn (.turnResp 1 (.structureTag
      ⟨.application, 5, .C [⟨.universal, 10, .P [0]⟩, ⟨.universal, 4, .P []⟩,
        ⟨.universal, 4, .P []⟩]⟩) []),
    .next 0, .turn (.turnOp true), .timeout 1, .finish 0, .alloc 2 .single .ofNull none,
    .turn .turnScrub, .send 2, .turn .turnScrub, .turn (.turnOp true)]

/-- A direct stream that was read to its end and finished, an operation of another handle that timed
out, and the scrubs of both processed. A third handle waits for its response. -/
theorem outstanding_of_inUse_direct :
    ∃ w, Machine.run World.step World.Tidy World.init tidyRun = some w ∧
      w.core.numOps = 3 ∧ w.core.msgmap.inUse.card ≤ 1 ∧
      (∀ id ∈ w.core.msgmap.inUse,
        ∃ o < w.core.numOps, w.Outstanding o ∧ (w.core.ops o).id = id) := by
  have hsome : (Machine.run World.step World.Tidy World.init tidyRun).map
      (fun w ↦ decide (w.core.numOps = 3 ∧ w.core.status = .running ∧ w.core.idScrubRx = [] ∧
        ((Finset.range w.core.numOps).filter w.Outstanding).card = 1)) = some true := by
    decide +kernel
  obtain ⟨w, hw, hstate⟩ := Option.map_eq_some_iff.1 hsome
  obtain ⟨hnum, hrun, hdrained, hone⟩ := of_decide_eq_true hstate
  obtain ⟨hall, hcard, -⟩ := outstanding_of_inUse (Machine.reach_of_run hw) hrun hdrained
  exact ⟨w, hw, hnum, hone ▸ hcard, hall⟩

/-- `Ldap::search` with the adapter `EntriesOnly`: a search without entries is read to its end, and
`finish` is called. It is the only operation, and its id stays in use. -/
theorem search_leaks :
    ∃ w, Machine.Reach World.step Machine.any World.init w ∧ w.core.status = .running ∧
      w.core.idScrubRx = [] ∧ w.core.numOps = 1 ∧ w.Concluded 0 ∧
      (w.core.ops 0).id ∈ w.core.msgmap.inUse := by
  have hsome : (Machine.run World.step Machine.any World.init
      [.newStream 0 true, .alloc 0 .search .ofNull none, .send 0, .turn (.turnOp true),
        .receive 0, .turn (.turnResp 1 (.structureTag
          ⟨.application, 5, .C [⟨.universal, 10, .P [0]⟩, ⟨.universal, 4, .P []⟩,
            ⟨.universal, 4, .P []⟩]⟩) []),
        .next 0, .nextEnd 0, .finish 0]).map
      (fun w ↦ decide (w.core.status = .running ∧ w.core.idScrubRx = [] ∧ w.core.numOps = 1 ∧
        w.Concluded 0 ∧ (w.core.ops 0).id ∈ w.core.msgmap.inUse)) = some true := by
    decide +kernel
  obtain ⟨w, hw, hleak⟩ := Option.map_eq_some_iff.1 hsome
  exact ⟨w, Machine.reach_of_run hw, of_decide_eq_true hleak⟩

end Ldap3
