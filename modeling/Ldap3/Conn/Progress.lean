import Ldap3.Conn.Live
import Ldap3.Conn.Release

/-!
# No caller waits in vain

`op_call` waits for the receiver of its result, and `next_inner` for that of its items. Nothing else
wakes them, so they would wait forever if the driver lost an operation between its queue and its
maps, or kept the sender of a channel that it never uses again.

It does neither (`World.unblocked_of_reach`). Whatever happened before, a call returns after the
driver took the operations in front of it and one message with its id came in, and a stream goes on
after one message. What the messages say does not matter, nor whether the writes succeed: if the
driver stops, the sender of the channel is gone, and they return an error. No other handle has to
move for it. The one thing that can come between a call and its messages is another Search under the
same id, which takes entries as long as they come. Ids are shared only after more operations than
there are ids (`Conn.Demux`).

That the driver has the senders is `Conn.Live`. That the receivers are there is `Held`: a handle
waits for operations that it owns, and no other handle drops their receivers.
-/

namespace Ldap3

/-! ### The handles hold their receivers -/

/-- The receivers a handle waits for exist. It is the owner of their operations, so it alone can
drop them. A stream has read no more items than were sent. -/
structure Holds (w : World) (h : ℕ) : Prop where
  call : ∀ o ∈ (w.handles h).call, o < w.core.numOps ∧ w.owner o = h ∧
    (w.core.ops o).replyOpen ∧
    ((w.core.ops o).op = .search → ∀ s ∈ (w.handles h).stream, s.rx = some o)
  rx : (w.handles h).gone = false → ∀ s ∈ (w.handles h).stream, ∀ o ∈ s.rx,
    o < w.core.numOps ∧ w.owner o = h ∧ (w.core.ops o).itemsOpen ∧
      s.read ≤ (w.core.ops o).items.length ∧ (s.state = .active → (w.core.ops o).phase = .taken)
  fresh : ∀ s ∈ (w.handles h).stream, s.state = .fresh → s.read = 0

/-- Every handle holds its receivers. -/
def Held (w : World) : Prop :=
  ∀ h, Holds w h

namespace World

variable {w w' : World} {h : ℕ}

theorem setHandle_self (w : World) (h : ℕ) (f : Handle → Handle) :
    (w.setHandle h f).handles h = f (w.handles h) :=
  Function.update_self ..

theorem setHandle_of_ne (w : World) {h h' : ℕ} (f : Handle → Handle) (hne : h' ≠ h) :
    (w.setHandle h f).handles h' = w.handles h' :=
  Function.update_of_ne hne _ _

/-- What an action does to an operation, unless it drops one of its receivers. -/
theorem act_spec {a : Conn.Act} (hs : w.act a = some w') :
    w'.handles = w.handles ∧ w'.owner = w.owner ∧ w.core.step a = some w'.core := by
  obtain ⟨c, hc, rfl⟩ := Option.map_eq_some_iff.1 hs
  exact ⟨rfl, rfl, hc⟩

/-- Dropping the receiver of the items of a stream. -/
theorem kept_dropItems (hs : w.dropItems h = some w') :
    w'.handles = w.handles ∧ w'.owner = w.owner ∧ w.core.numOps ≤ w'.core.numOps ∧
      ∀ o < w.core.numOps, (∀ s ∈ (w.handles h).stream, s.rx ≠ some o) →
        Conn.Kept (w.core.ops o) (w'.core.ops o) := by
  rw [World.dropItems] at hs
  split at hs
  · obtain rfl := Option.some.inj hs
    exact ⟨rfl, rfl, le_rfl, fun _ _ _ ↦ .refl _⟩
  · rename_i o hrx
    obtain ⟨s, hstream, hrx⟩ := Option.bind_eq_some_iff.1 hrx
    obtain ⟨hhandles, howner, hstep⟩ := act_spec hs
    refine ⟨hhandles, howner, Conn.numOps_step hstep, fun o' ho' hne ↦ ?_⟩
    refine Conn.kept_step hstep ho' (by simp) ?_
    rintro ⟨⟩
    exact hne s hstream hrx

/-- The stream of `h` becomes another one, and nothing is dropped but the receiver it gave up. -/
structure Restreamed (w : World) (h : ℕ) (s s' : Stream) (w' : World) : Prop where
  handle : w'.handles h = { w.handles h with stream := some s' }
  other : ∀ h' ≠ h, w'.handles h' = w.handles h'
  owner : w'.owner = w.owner
  numOps : w.core.numOps ≤ w'.core.numOps
  rx : ∀ o, s'.rx = some o → s.rx = some o
  kept : ∀ o < w.core.numOps, (s.rx = some o → s'.rx = some o) →
    Conn.Kept (w.core.ops o) (w'.core.ops o)

namespace Restreamed

variable {s s₁ s₂ : Stream} {w₁ w₂ : World}

theorem trans (h₁ : Restreamed w h s s₁ w₁) (h₂ : Restreamed w₁ h s₁ s₂ w₂) :
    Restreamed w h s s₂ w₂ where
  handle := by rw [h₂.handle, h₁.handle]
  other h' hne := (h₂.other h' hne).trans (h₁.other h' hne)
  owner := h₂.owner.trans h₁.owner
  numOps := h₁.numOps.trans h₂.numOps
  rx o ho := h₁.rx o (h₂.rx o ho)
  kept o ho hso := (h₁.kept o ho fun hs ↦ h₂.rx o (hso hs)).trans
    (h₂.kept o (Nat.lt_of_lt_of_le ho h₁.numOps) fun hs ↦ hso (h₁.rx o hs))

theorem setStream (hs : (w.handles h).stream = some s) {f : Stream → Stream}
    (hrx : (f s).rx = s.rx) : Restreamed w h s (f s) (w.setStream h f) where
  handle := by
    rw [World.setStream, setHandle_self, hs]
    rfl
  other h' hne := setHandle_of_ne _ _ hne
  owner := rfl
  numOps := le_rfl
  rx o ho := hrx ▸ ho
  kept _ _ _ := .refl _

/-- An action that drops no receiver. -/
theorem act {a : Conn.Act} (hs : (w.handles h).stream = some s) (hact : w.act a = some w')
    (ha : ∀ o, a ≠ .dropReply o ∧ a ≠ .dropItems o) : Restreamed w h s s w' := by
  obtain ⟨hhandles, howner, hstep⟩ := act_spec hact
  refine ⟨by rw [hhandles, ← hs], fun h' _ ↦ by rw [hhandles], howner, Conn.numOps_step hstep,
    fun _ ↦ id, fun o ho _ ↦ Conn.kept_step hstep ho (ha o).1 (ha o).2⟩

theorem dropRx (hs : (w.handles h).stream = some s) (hdrop : w.dropRx h = some w') :
    Restreamed w h s { s with rx := none } w' := by
  obtain ⟨w₁, hitems, rfl⟩ := Option.map_eq_some_iff.1 hdrop
  obtain ⟨hhandles, howner, hnum, hkept⟩ := kept_dropItems hitems
  constructor
  · rw [World.setStream, setHandle_self, hhandles, hs]
    rfl
  · intro h' hne
    rw [World.setStream, setHandle_of_ne _ _ hne, hhandles]
  · exact howner
  · exact hnum
  · rintro o ⟨⟩
  · intro o ho hso
    refine hkept o ho fun s₁ hs₁ h ↦ ?_
    obtain rfl := Option.some.inj (hs.symm.trans hs₁)
    cases hso h

end Restreamed

theorem activeStream_idle {s : Stream} (hs : w.activeStream h = some s) :
    (w.handles h).stream = some s ∧ (w.handles h).idle ∧ s.state = .active := by
  obtain ⟨s', hs', hs⟩ := Option.bind_eq_some_iff.1 hs
  obtain ⟨⟨hidle, hstate⟩, hs⟩ := Option.ite_none_right_eq_some.1 hs
  obtain rfl := Option.some.inj hs
  exact ⟨hs', hidle, hstate⟩

end World

namespace Held

variable {w w' : World} {h : ℕ}

theorem init : Held World.init :=
  fun _ ↦ ⟨fun _ ho ↦ (nomatch ho), fun _ _ hs ↦ (nomatch hs), fun _ hs ↦ (nomatch hs)⟩

/-- The receivers of a handle stay if nothing happens to them or to the handle. -/
theorem frame (hw : Holds w h) (hnum : w.core.numOps ≤ w'.core.numOps)
    (hhandle : w'.handles h = w.handles h)
    (hops : ∀ o < w.core.numOps, w.owner o = h →
      w'.owner o = h ∧ Conn.Kept (w.core.ops o) (w'.core.ops o)) : Holds w' h := by
  obtain ⟨hcall, hrx, hfresh⟩ := hw
  rw [← hhandle] at hcall hrx hfresh
  refine ⟨fun o ho ↦ ?_, fun hgone s hs o ho ↦ ?_, hfresh⟩
  · obtain ⟨hlt, howner, hopen, hsearch⟩ := hcall o ho
    obtain ⟨howner', hkept⟩ := hops o hlt howner
    exact ⟨Nat.lt_of_lt_of_le hlt hnum, howner', hkept.reply hopen,
      fun hop ↦ hsearch (hkept.op_eq ▸ hop)⟩
  · obtain ⟨hlt, howner, hopen, hread, htaken⟩ := hrx hgone s hs o ho
    obtain ⟨howner', hkept⟩ := hops o hlt howner
    exact ⟨Nat.lt_of_lt_of_le hlt hnum, howner', hkept.items hopen, hread.trans hkept.length,
      fun hstate ↦ hkept.taken (htaken hstate)⟩

/-- A handle moves. It drops receivers of its own operations only. -/
theorem change (hw : Held w) (hnum : w.core.numOps ≤ w'.core.numOps)
    (hother : ∀ h' ≠ h, w'.handles h' = w.handles h') (howner : w'.owner = w.owner)
    (hops : ∀ o < w.core.numOps, w.owner o ≠ h → Conn.Kept (w.core.ops o) (w'.core.ops o))
    (hself : Holds w' h) : Held w' := by
  intro h'
  by_cases heq : h' = h
  · exact heq ▸ hself
  · refine frame (hw h') hnum (hother h' heq) fun o ho hown ↦ ⟨howner ▸ hown, hops o ho ?_⟩
    rintro rfl
    exact heq hown.symm

/-- An action on the connection that drops no receiver. -/
theorem act (hw : Held w) {a : Conn.Act} (hact : w.act a = some w')
    (ha : ∀ o, a ≠ .dropReply o ∧ a ≠ .dropItems o) : Held w' := by
  obtain ⟨hhandles, howner, hstep⟩ := World.act_spec hact
  intro h
  refine frame (hw h) (Conn.numOps_step hstep) (by rw [hhandles]) fun o ho hown ↦ ?_
  exact ⟨howner ▸ hown, Conn.kept_step hstep ho (ha o).1 (ha o).2⟩

/-- The stream of an idle handle changes. -/
theorem restream (hw : Held w) {s s' : Stream} (hs : (w.handles h).stream = some s)
    (hidle : (w.handles h).idle) (hr : World.Restreamed w h s s' w')
    (hread : ∀ o, s'.rx = some o → s'.read ≤ (w.core.ops o).items.length)
    (hactive : s'.state = .active → s.state = .active) (hfresh : s'.state = .fresh → s'.read = 0) :
    Held w' := by
  have hrx := (hw h).rx hidle.1 s hs
  refine hw.change hr.numOps hr.other hr.owner (fun o ho hne ↦ hr.kept o ho fun hso ↦ ?_) ?_
  · exact absurd (hrx o hso).2.1 hne
  constructor
  · intro o ho
    rw [hr.handle] at ho
    exact absurd (hidle.2.symm.trans ho) (by simp)
  · intro _ s₁ hs₁ o ho
    rw [hr.handle] at hs₁
    obtain rfl := Option.some.inj hs₁
    obtain ⟨hlt, howner, hopen, -, htaken⟩ := hrx o (hr.rx o ho)
    have hkept := hr.kept o hlt fun _ ↦ ho
    exact ⟨Nat.lt_of_lt_of_le hlt hr.numOps, hr.owner ▸ howner, hkept.items hopen,
      (hread o ho).trans hkept.length, fun hstate ↦ hkept.taken (htaken (hactive hstate))⟩
  · intro s₁ hs₁
    rw [hr.handle] at hs₁
    obtain rfl := Option.some.inj hs₁
    exact hfresh

/-- A call ends. Only the receiver of its own result may have been dropped before. -/
theorem endCall (hw : Held w) {o : ℕ} {w₁ : World} {started : StreamState}
    (hcall : (w.handles h).call = some o) (hhandles : w₁.handles = w.handles)
    (howner : w₁.owner = w.owner) (hnum : w.core.numOps ≤ w₁.core.numOps)
    (hkept : ∀ o' < w.core.numOps, o' ≠ o → Conn.Kept (w.core.ops o') (w₁.core.ops o'))
    (hself : (w₁.core.ops o).op = (w.core.ops o).op ∧ Conn.Feeds (w.core.ops o) (w₁.core.ops o))
    (hstarted : started ≠ .fresh)
    (hactive : started = .active → (w.core.ops o).phase = .taken) :
    Held (w₁.endCall h o started) := by
  obtain ⟨hlt, hown, -, hsearch⟩ := (hw h).call o hcall
  have hfeeds : ∀ o' < w.core.numOps, Conn.Feeds (w.core.ops o') (w₁.core.ops o') := by
    intro o' ho'
    by_cases heq : o' = o
    · exact heq ▸ hself.2
    · exact (hkept o' ho' heq).toFeeds
  -- The stream of the handle, with the state it gets if the call was to start it.
  have hstream : ∀ s' ∈ ((w₁.endCall h o started).handles h).stream,
      ∃ s ∈ (w.handles h).stream, s'.rx = s.rx ∧ s'.read = s.read ∧
        (s'.state = s.state ∨ s'.state = started ∧ s.rx = some o) := by
    intro s' hs'
    rw [World.endCall, World.setHandle_self, hhandles] at hs'
    by_cases hop : (w.core.ops o).op = .search
    · rw [hself.1, if_pos hop] at hs'
      obtain ⟨s, hs, rfl⟩ := Option.mem_map.1 hs'
      exact ⟨s, hs, rfl, rfl, Or.inr ⟨rfl, hsearch hop s hs⟩⟩
    · rw [hself.1, if_neg hop] at hs'
      exact ⟨s', hs', rfl, rfl, Or.inl rfl⟩
  have hgone : ((w₁.endCall h o started).handles h).gone = (w.handles h).gone := by
    rw [World.endCall, World.setHandle_self, hhandles]
  refine hw.change (h := h) hnum (fun h' hne ↦ ?_) howner (fun o' ho' hne ↦ hkept o' ho' ?_)
    ⟨?_, ?_, ?_⟩
  · rw [World.endCall, World.setHandle_of_ne _ _ hne, hhandles]
  · rintro rfl
    exact hne hown
  · intro o' ho'
    rw [World.endCall, World.setHandle_self] at ho'
    cases ho'
  · intro hnot s' hs' o' ho'
    obtain ⟨s, hs, hrx, hread, hstate⟩ := hstream s' hs'
    rw [hrx] at ho'
    obtain ⟨hlt', hown', hopen, hle, htaken⟩ := (hw h).rx (hgone ▸ hnot) s hs o' ho'
    refine ⟨Nat.lt_of_lt_of_le hlt' hnum, howner ▸ hown', (hfeeds o' hlt').items hopen,
      hread ▸ hle.trans (hfeeds o' hlt').length, fun hact ↦ (hfeeds o' hlt').taken ?_⟩
    rcases hstate with hstate | ⟨hstate, hso⟩
    · exact htaken (hstate ▸ hact)
    · obtain rfl := Option.some.inj (hso.symm.trans ho')
      exact hactive (hstate ▸ hact)
  · intro s' hs' hfresh
    obtain ⟨s, hs, -, hread, hstate⟩ := hstream s' hs'
    rcases hstate with hstate | ⟨hstate, -⟩
    · exact hread.trans ((hw h).fresh s hs (hstate ▸ hfresh))
    · exact absurd (hstate ▸ hfresh) hstarted

theorem newStream (hw : Held w) {adapted : Bool} (hs : w.newStream h adapted = some w') :
    Held w' := by
  rw [World.newStream] at hs
  obtain ⟨hnew, hs⟩ := Option.ite_none_right_eq_some.1 hs
  obtain rfl := Option.some.inj hs
  refine hw.change le_rfl (fun h' hne ↦ World.setHandle_of_ne _ _ hne) rfl
    (fun _ _ _ ↦ .refl _) ⟨?_, ?_, ?_⟩
  all_goals rw [World.setHandle_self, hnew]
  · rintro o ⟨⟩
  · rintro - s ⟨⟩ o ⟨⟩
  · rintro s ⟨⟩ -
    rfl

theorem alloc (hw : Held w) {op : LdapOp} {req : Tag} {controls : Option (List RawControl)}
    (hs : w.alloc h op req controls = some w') : Held w' := by
  obtain ⟨hc, ha⟩ := Ledger.alloc_spec hs
  have hnum : w.core.numOps ≤ w'.core.numOps := by
    rw [ha.numOps]
    exact Nat.le_succ _
  have hnew : ∃ id, w'.core.ops w.core.numOps = .new id op req controls := by
    obtain ⟨id, -, hc'⟩ := Conn.alloc_spec hc
    exact ⟨id, by rw [hc']; exact Function.update_self ..⟩
  obtain ⟨id, hnew⟩ := hnew
  intro h'
  by_cases heq : h' = h
  swap
  · refine frame (hw h') hnum (ha.other h' heq) fun o ho hown ↦ ?_
    rw [ha.owner_old o ho, ha.ops_old o ho]
    exact ⟨hown, .refl _⟩
  subst heq
  obtain ⟨-, hrx, hfresh⟩ := hw h'
  refine ⟨fun o ho ↦ ?_, fun hgone s' hs' o ho ↦ ?_, fun s' hs' hstate ↦ ?_⟩
  · rw [ha.handle] at ho
    obtain rfl := Option.some.inj ho
    refine ⟨ha.numOps ▸ Nat.lt_succ_self _, ha.owner_new, by rw [hnew]; rfl, fun hop s' hs' ↦ ?_⟩
    rw [ha.op_new] at hop
    rw [ha.handle, if_pos hop] at hs'
    obtain ⟨s, -, rfl⟩ := Option.mem_map.1 hs'
    rfl
  · rw [ha.handle] at hgone hs'
    by_cases hop : op = .search
    · obtain ⟨s, hs, hun⟩ := ha.unstarted hop
      simp only [if_pos hop] at hs'
      obtain ⟨s₁, hs₁, rfl⟩ := Option.mem_map.1 hs'
      obtain rfl := Option.mem_unique hs hs₁
      obtain rfl := Option.some.inj ho
      refine ⟨ha.numOps ▸ Nat.lt_succ_self _, ha.owner_new, by rw [hnew]; rfl, ?_, fun hact ↦ ?_⟩
      · show s.read ≤ _
        rw [hfresh s hs hun.1]
        exact Nat.zero_le _
      · exact absurd (hun.1.symm.trans hact) (by simp)
    · simp only [if_neg hop] at hs'
      obtain ⟨hlt, hown, hrest⟩ := hrx hgone s' hs' o ho
      rw [ha.owner_old o hlt, ha.ops_old o hlt]
      exact ⟨Nat.lt_of_lt_of_le hlt hnum, hown, hrest⟩
  · rw [ha.handle] at hs'
    by_cases hop : op = .search
    · simp only [if_pos hop] at hs'
      obtain ⟨s, hs, rfl⟩ := Option.mem_map.1 hs'
      exact hfresh s hs hstate
    · simp only [if_neg hop] at hs'
      exact hfresh s' hs' hstate

/-- A call returns with its result, which only an operation that was taken has. -/
theorem receive (hw : Held w) (hlive : w.core.Live) (hs : w.receive h = some w') : Held w' := by
  obtain ⟨o, hcall, hs⟩ := Option.bind_eq_some_iff.1 hs
  obtain ⟨hreply, hs⟩ := Option.ite_none_right_eq_some.1 hs
  obtain rfl := Option.some.inj hs
  exact hw.endCall hcall rfl rfl le_rfl (fun _ _ _ ↦ .refl _) ⟨rfl, .refl _⟩ (by simp)
    fun _ ↦ hlive.reply_taken o hreply

theorem fail (hw : Held w) (hs : w.fail h = some w') : Held w' := by
  obtain ⟨o, hcall, hs⟩ := Option.bind_eq_some_iff.1 hs
  obtain ⟨-, hs⟩ := Option.ite_none_right_eq_some.1 hs
  obtain ⟨w₁, hact, hs⟩ := Option.bind_eq_some_iff.1 hs
  obtain rfl := Option.some.inj hs
  obtain ⟨hhandles, howner, hstep⟩ := World.act_spec hact
  obtain ⟨hlt, -⟩ := (hw h).call o hcall
  refine hw.endCall hcall hhandles howner (Conn.numOps_step hstep) (fun o' ho' hne ↦ ?_)
    ⟨(Conn.steady_step hstep hlt).1.2.1, Conn.feeds_step hstep hlt (by simp)⟩ (by simp) (by simp)
  exact Conn.kept_step hstep ho' (by simpa using hne.symm) (by simp)

theorem timeout (hw : Held w) (hs : w.timeout h = some w') : Held w' := by
  obtain ⟨o, hcall, hs⟩ := Option.bind_eq_some_iff.1 hs
  obtain ⟨w₁, hdrop, hs⟩ := Option.bind_eq_some_iff.1 hs
  obtain ⟨w₂, hscrub, hs⟩ := Option.bind_eq_some_iff.1 hs
  obtain rfl := Option.some.inj hs
  obtain ⟨hhandles, howner, hstep⟩ := World.act_spec hdrop
  obtain ⟨hhandles', howner', hstep'⟩ := World.act_spec hscrub
  obtain ⟨hlt, -⟩ := (hw h).call o hcall
  have hlt' := Nat.lt_of_lt_of_le hlt (Conn.numOps_step hstep)
  have hended : Held (w₂.endCall h o .error) := by
    refine hw.endCall hcall (hhandles'.trans hhandles) (howner'.trans howner)
      ((Conn.numOps_step hstep).trans (Conn.numOps_step hstep')) (fun o' ho' hne ↦ ?_) ⟨?_, ?_⟩
      (by simp) (by simp)
    · have hkept := Conn.kept_step hstep ho' (by simpa using hne.symm) (by simp)
      have hlt₁ := Nat.lt_of_lt_of_le ho' (Conn.numOps_step hstep)
      exact hkept.trans (Conn.kept_step hstep' hlt₁ (by simp) (by simp))
    · exact (Conn.steady_step hstep' hlt').1.2.1.trans (Conn.steady_step hstep hlt).1.2.1
    · exact (Conn.feeds_step hstep hlt (by simp)).trans (Conn.feeds_step hstep' hlt' (by simp))
  -- That the operation timed out is nothing to the handles.
  exact fun h' ↦ frame (hended h') le_rfl rfl fun _ _ hown ↦ ⟨hown, .refl _⟩

theorem next (hw : Held w) (hs : w.next h = some w') : Held w' := by
  obtain ⟨s, hactive, hs⟩ := Option.bind_eq_some_iff.1 hs
  obtain ⟨hstream, hidle, hstate⟩ := World.activeStream_idle hactive
  obtain ⟨o, hrx, hs⟩ := Option.bind_eq_some_iff.1 hs
  obtain ⟨⟨item, controls⟩, hitem, hs⟩ := Option.bind_eq_some_iff.1 hs
  have hlt : s.read < (w.core.ops o).items.length := (List.getElem?_eq_some_iff.1 hitem).1
  have hread := World.Restreamed.setStream (f := fun s ↦ { s with read := s.read + 1 }) hstream rfl
  have hheld : ∀ {s' : Stream}, World.Restreamed w h s s' w' → s'.read = s.read + 1 →
      s'.state = s.state → Held w' := by
    intro s' hr hread hsame
    refine hw.restream hstream hidle hr (fun o' ho' ↦ ?_) (fun h ↦ hsame ▸ h) fun hfresh ↦ ?_
    · obtain rfl := Option.some.inj (hrx.symm.trans (hr.rx o' ho'))
      exact hread ▸ hlt
    · rw [hsame, hstate] at hfresh
      cases hfresh
  cases item with
  | entry t =>
    obtain rfl := Option.some.inj hs
    exact hheld hread rfl rfl
  | referral t =>
    obtain rfl := Option.some.inj hs
    exact hheld hread rfl rfl
  | done res =>
    set w₁ := w.setStream h fun s ↦ { s with read := s.read + 1 }
    have hs₁ : (w₁.handles h).stream = some { s with read := s.read + 1 } := by rw [hread.handle]
    have hres := World.Restreamed.setStream
      (f := fun s ↦ { s with res := some { res with ctrls := controls } }) hs₁ rfl
    have hdrop := World.Restreamed.dropRx (by rw [hres.handle]) hs
    exact hheld ((hread.trans hres).trans hdrop) rfl rfl

theorem nextTimeout (hw : Held w) (hs : w.nextTimeout h = some w') : Held w' := by
  obtain ⟨s, hactive, hs⟩ := Option.bind_eq_some_iff.1 hs
  obtain ⟨hstream, hidle, hstate⟩ := World.activeStream_idle hactive
  obtain ⟨o, hrx, hs⟩ := Option.bind_eq_some_iff.1 hs
  obtain ⟨w₁, hscrub, hs⟩ := Option.bind_eq_some_iff.1 hs
  obtain rfl := Option.some.inj hs
  have hact := World.Restreamed.act hstream hscrub (by simp)
  have herr := World.Restreamed.setStream (w := w₁) (f := fun s ↦ { s with state := .error })
    (by rw [hact.handle]) rfl
  have hended := hw.restream hstream hidle (hact.trans herr)
    (fun o' ho' ↦ ((hw h).rx hidle.1 s hstream o' ho').2.2.2.1) (by simp) (by simp)
  exact fun h' ↦ frame (hended h') le_rfl rfl fun _ _ hown ↦ ⟨hown, .refl _⟩

theorem nextClosed (hw : Held w) (hs : w.nextClosed h = some w') : Held w' := by
  obtain ⟨s, hactive, hs⟩ := Option.bind_eq_some_iff.1 hs
  obtain ⟨hstream, hidle, hstate⟩ := World.activeStream_idle hactive
  obtain ⟨o, hrx, hs⟩ := Option.bind_eq_some_iff.1 hs
  obtain ⟨-, hs⟩ := Option.ite_none_right_eq_some.1 hs
  obtain ⟨w₁, hdrop, hs⟩ := Option.bind_eq_some_iff.1 hs
  obtain rfl := Option.some.inj hs
  have hdropped := World.Restreamed.dropRx hstream hdrop
  have herr := World.Restreamed.setStream (w := w₁) (f := fun s ↦ { s with state := .error })
    (by rw [hdropped.handle]) rfl
  exact hw.restream hstream hidle (hdropped.trans herr) (fun _ ho ↦ nomatch ho) (by simp) (by simp)

theorem nextReturn (hw : Held w) {state : StreamState} (hstate : state = .done ∨ state = .error)
    (hs : w.nextReturn h state = some w') : Held w' := by
  obtain ⟨s, hactive, hs⟩ := Option.bind_eq_some_iff.1 hs
  obtain ⟨hstream, hidle, -⟩ := World.activeStream_idle hactive
  obtain ⟨-, hs⟩ := Option.ite_none_right_eq_some.1 hs
  obtain rfl := Option.some.inj hs
  have hset := World.Restreamed.setStream (f := fun s ↦ { s with state := state }) hstream rfl
  refine hw.restream hstream hidle hset
    (fun o' ho' ↦ ((hw h).rx hidle.1 s hstream o' ho').2.2.2.1) ?_ ?_
  · rcases hstate with rfl | rfl <;> simp
  · rcases hstate with rfl | rfl <;> simp

theorem finish (hw : Held w) (hs : w.finish h = some w') : Held w' := by
  obtain ⟨s, hstream, hs⟩ := Option.bind_eq_some_iff.1 hs
  obtain ⟨⟨hidle, -⟩, hs⟩ := Option.ite_none_right_eq_some.1 hs
  obtain ⟨w₁, hscrub, hs⟩ := Option.bind_eq_some_iff.1 hs
  have hact : World.Restreamed w h s s w₁ := by
    split at hscrub
    · exact .act hstream hscrub (by simp)
    · obtain rfl := Option.some.inj hscrub
      exact ⟨by rw [← hstream], fun _ _ ↦ rfl, rfl, le_rfl, fun _ ↦ id, fun _ _ _ ↦ .refl _⟩
  have hclose := World.Restreamed.setStream (w := w₁)
    (f := fun s ↦ { s with state := .closed, res := none }) (by rw [hact.handle]) rfl
  have hdrop := World.Restreamed.dropRx (by rw [hclose.handle]) hs
  exact hw.restream hstream hidle ((hact.trans hclose).trans hdrop) (fun _ ho ↦ nomatch ho)
    (by simp) (by simp)

theorem drop (hw : Held w) (hs : w.drop h = some w') : Held w' := by
  rw [World.drop] at hs
  obtain ⟨hidle, hs⟩ := Option.ite_none_right_eq_some.1 hs
  obtain ⟨w₁, hdrop, hs⟩ := Option.bind_eq_some_iff.1 hs
  obtain rfl := Option.some.inj hs
  obtain ⟨hhandles, howner, hnum, hkept⟩ := World.kept_dropItems hdrop
  refine hw.change (h := h) hnum (fun h' hne ↦ ?_) howner (fun o ho hne ↦ hkept o ho ?_)
    ⟨?_, ?_, ?_⟩
  · rw [World.setHandle_of_ne _ _ hne, hhandles]
  · intro s hs hso
    exact hne ((hw h).rx hidle.1 s hs o hso).2.1
  all_goals rw [World.setHandle_self, hhandles]
  · intro o ho
    exact absurd (hidle.2.symm.trans ho) (by simp)
  · rintro ⟨⟩
  · exact (hw h).fresh

/-- A stream takes over the channel of another one, and with it the ownership. -/
theorem pageTurn (hw : Held w) {h₁ : ℕ} (hs : w.pageTurn h h₁ = some w') : Held w' := by
  obtain ⟨s, hactive, hs⟩ := Option.bind_eq_some_iff.1 hs
  obtain ⟨s₁, hactive₁, hs⟩ := Option.bind_eq_some_iff.1 hs
  obtain ⟨o, hrx, hs⟩ := Option.bind_eq_some_iff.1 hs
  obtain ⟨⟨hne, -⟩, hs⟩ := Option.ite_none_right_eq_some.1 hs
  obtain rfl := Option.some.inj hs
  obtain ⟨hstream, hidle, hstate⟩ := World.activeStream_idle hactive
  obtain ⟨hstream₁, hidle₁, hstate₁⟩ := World.activeStream_idle hactive₁
  obtain ⟨hlt, hown, hopen, hread, htaken⟩ := (hw h₁).rx hidle₁.1 s₁ hstream₁ o hrx
  intro h'
  by_cases heq₁ : h' = h₁
  · subst heq₁
    refine ⟨fun o' ho' ↦ ?_, fun hgone ↦ ?_, fun s' hs' ↦ ?_⟩
    · rw [World.setHandle_self, World.setHandle_of_ne _ _ hne.symm] at ho'
      exact absurd (hidle₁.2.symm.trans ho') (by simp)
    · rw [World.setHandle_self] at hgone
      cases hgone
    · rw [World.setHandle_self] at hs'
      cases hs'
  by_cases heq : h' = h
  · subst heq
    refine ⟨fun o' ho' ↦ ?_, fun hgone s' hs' o' ho' ↦ ?_, fun s' hs' hfresh ↦ ?_⟩
    all_goals
      simp only [World.setHandle_of_ne _ _ heq₁, World.setHandle_self] at *
    · exact absurd (hidle.2.symm.trans ho') (by simp)
    · obtain rfl := Option.some.inj hs'
      obtain rfl := Option.some.inj ho'
      exact ⟨hlt, Function.update_self .., hopen, hread, fun _ ↦ htaken hstate₁⟩
    · obtain rfl := Option.some.inj hs'
      exact absurd (hstate.symm.trans hfresh) (by simp)
  · refine frame (hw h') le_rfl ?_ fun o' _ hown' ↦ ⟨?_, .refl _⟩
    · rw [World.setHandle_of_ne _ _ heq₁, World.setHandle_of_ne _ _ heq]
    · refine (Function.update_of_ne ?_ _ _).trans hown'
      rintro rfl
      exact heq₁ (hown'.symm.trans hown)

/-- **One move keeps every receiver that is waited for.** -/
theorem step (hw : Held w) (hlive : w.core.Live) {m : Move} (hs : w.step m = some w') :
    Held w' := by
  cases m with
  | newStream h adapted => exact hw.newStream hs
  | alloc h op req controls => exact hw.alloc hs
  | noId h =>
    obtain ⟨-, hact⟩ := Option.ite_none_right_eq_some.1 hs
    exact hw.act hact (by simp)
  | send h =>
    obtain ⟨o, -, hact⟩ := Option.bind_eq_some_iff.1 hs
    exact hw.act hact (by simp)
  | receive h => exact hw.receive hlive hs
  | fail h => exact hw.fail hs
  | timeout h => exact hw.timeout hs
  | next h => exact hw.next hs
  | nextTimeout h => exact hw.nextTimeout hs
  | nextClosed h => exact hw.nextClosed hs
  | nextEnd h => exact hw.nextReturn (Or.inl rfl) hs
  | nextErr h => exact hw.nextReturn (Or.inr rfl) hs
  | pageTurn h h' => exact hw.pageTurn hs
  | finish h => exact hw.finish hs
  | drop h => exact hw.drop hs
  | turn a =>
    obtain ⟨hturn, hact⟩ := Option.ite_none_right_eq_some.1 hs
    refine hw.act hact fun o ↦ ⟨?_, ?_⟩
    · rintro rfl
      cases hturn
    · rintro rfl
      cases hturn

end Held

/-! ### Runs -/

/-- What is known of every state reached. -/
structure Orderly (w : World) : Prop where
  live : w.core.Live
  mapped : w.core.Mapped
  held : Held w

namespace Orderly

variable {w w' : World}

theorem step (hw : Orderly w) {m : Move} (hs : w.step m = some w') : Orderly w' := by
  have hreach : Machine.Reach Conn.step Machine.any w.core w'.core :=
    World.reach_step (fun _ _ _ ↦ trivial) hs fun _ _ ↦ trivial
  have hcore := hreach.invariant (P := fun c ↦ c.Mapped ∧ c.Live) ⟨hw.mapped, hw.live⟩
    fun hinv _ hs ↦ ⟨hinv.1.step hs, hinv.2.step hinv.1 hs⟩
  exact ⟨hcore.2, hcore.1, hw.held.step hw.live hs⟩

theorem of_reach (hw : Machine.Reach World.step Machine.any World.init w) : Orderly w :=
  hw.invariant ⟨.init, .init, .init⟩ fun hw _ hs ↦ hw.step hs

end Orderly

/-! ### What wakes a caller -/

/-- The moves a caller relies on. -/
inductive Service where
  /-- It sends its operation. -/
  | send
  /-- The driver takes an operation from its queue. -/
  | write
  /-- A message with the id of the operation comes in. -/
  | message

/-- The moves that do a service. Whether the operation gets through to the server is left open, and
what the message says. -/
inductive Service.Done (h : ℕ) (id : RequestId) : Service → Move → Prop
  | send : Done h id .send (.send h)
  | write (written : Bool) : Done h id .write (.turn (.turnOp written))
  | message (tag : Tag) (controls : List Control) :
      Done h id .message (.turn (.turnResp id tag controls))

namespace World

variable {w w' : World} {h o n : ℕ}

/-- The property comes about by `n` services for the caller. -/
abbrev Ensured (h : ℕ) (id : RequestId) (P : World → Prop) (n : ℕ) (w : World) : Prop :=
  Machine.Ensured World.step (Service.Done h id) P n w

/-- No other operation that has the id of this one is a Search. -/
def Undivided (w : World) (o : ℕ) : Prop :=
  ∀ o' < w.core.numOps, (w.core.ops o').op = .search → (w.core.ops o').id = (w.core.ops o).id →
    o' = o

instance (w : World) (o : ℕ) : Decidable (w.Undivided o) :=
  inferInstanceAs (Decidable (∀ o' < w.core.numOps, _))

theorem Undivided.keeps (hid : w.Undivided o) (hkeeps : w.core.Keeps w'.core) :
    w'.Undivided o := by
  intro o' ho' hop heq
  rw [hkeeps.numOps_eq] at ho'
  rw [hkeeps.op_eq] at hop
  rw [hkeeps.id_eq, hkeeps.id_eq] at heq
  exact hid o' ho' hop heq

end World

end Ldap3
