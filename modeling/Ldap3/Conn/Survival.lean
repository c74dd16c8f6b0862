import Ldap3.Conn.Requests

/-!
# What the driver survives

The branch of `turn` for messages of the server delivers a message to the operation that waits for
it, or drops it with a warning. On the way to a Search it takes the message apart with `panic!` and
`expect`, and after a result it locks the set of the message ids, which panics once a handle has
poisoned the mutex. The task it runs in is shared by all operations of the connection.

`Conn.Tolerates` says which messages it gets through: for a Search the entries, referrals,
intermediate messages and well-formed results; for another operation all of them, as long as the
mutex is not poisoned; and all that belong to no operation. **Survival** (`survives`): these are
exactly the messages that do not make it panic, and in a run without others, and without another
lock of a poisoned mutex, it never panics.
-/

namespace Ldap3

/-! ### The conversion of a result has no other failure -/

theorem noError_expectText (t : StructureTag) (msg : String) : NoError (expectText t msg) :=
  (noError_expect _ _).bind fun _ ↦ noError_expect _ _

theorem noError_parseRefs (t : StructureTag) : NoError (parseRefs t) :=
  (noError_expect _ _).bind fun tags ↦ NoError.mapM (fun u ↦ noError_expectText u "uri") tags

theorem noError_addComponent (ext : LdapResultExt) (comp : StructureTag) :
    NoError (addComponent ext comp) := by
  rw [addComponent]
  split_ifs
  · exact (noError_parseRefs comp).bind fun refs ↦ noError_ok _
  · exact (noError_expect _ _).bind fun creds ↦ noError_ok _
  · exact (noError_expectText comp _).bind fun name ↦ noError_ok _
  · exact (noError_expect _ _).bind fun val ↦ noError_ok _
  · exact noError_ok _

theorem noError_foldlM_addComponent (comps : List StructureTag) (ext : LdapResultExt) :
    NoError (comps.foldlM addComponent ext) := by
  induction comps generalizing ext with
  | nil => exact noError_ok ext
  | cons comp comps ih =>
    rw [List.foldlM_cons]
    exact (noError_addComponent ext comp).bind ih

theorem LdapResult.noError_ofTag (t : StructureTag) :
    NoError (LdapResult.ofTag (.structureTag t)) := by
  refine NoError.bind ?_ fun ext ↦ noError_ok ext.result
  exact (noError_expect _ _).bind fun tags ↦ (noError_expect _ _).bind fun rcTag ↦
    (noError_expect _ _).bind fun rc ↦ (noError_expect _ _).bind fun matchedTag ↦
    (noError_expectText _ _).bind fun matched ↦ (noError_expect _ _).bind fun textTag ↦
    (noError_expectText _ _).bind fun text ↦ noError_foldlM_addComponent _ _

namespace Conn

/-! ### One message -/

/-- The message does not take the driver down. If a Search waits under its id, it is an entry, a
referral, an intermediate message or a well-formed result; if another operation does, whose id is
released then, the mutex is not poisoned. -/
def Tolerates (c : Conn) (id : RequestId) (protoop : StructureTag) : Prop :=
  if c.searchmap id = none then
    c.resultmap id = none ∨ c.msgmap.poisoned = false
  else
    protoop.id = 4 ∨ protoop.id = 25 ∨ protoop.id = 19 ∨ protoop.id = 5 ∧ ResultOk protoop

/-- An item is made of exactly the messages a Search expects. -/
theorem searchItem_ok_iff (protoop : StructureTag) :
    (∃ x, searchItem (.structureTag protoop) = .ok x) ↔
      protoop.id = 4 ∨ protoop.id = 25 ∨ protoop.id = 19 ∨ protoop.id = 5 ∧ ResultOk protoop := by
  have hres := LdapResult.ofTag_ok_iff protoop
  simp only [searchItem]
  split_ifs with h4 h5 h19
  · simp [pure, Except.pure, ← or_assoc, h4]
  · rw [← hres]
    rcases LdapResult.ofTag (.structureTag protoop) with err | res <;>
      simp [bind, Except.bind, pure, Except.pure, h5]
  · simp [pure, Except.pure, h19]
  · rw [not_or] at h4
    simp [h4, h5, h19]

theorem noError_searchItem (protoop : StructureTag) :
    NoError (searchItem (.structureTag protoop)) := by
  simp only [searchItem]
  split_ifs
  · exact noError_ok _
  · exact (LdapResult.noError_ofTag protoop).bind fun res ↦ noError_ok _
  · exact noError_ok _
  · exact noError_panic _

/-- A message that is tolerated leaves the loop running. -/
theorem status_turnResp_of_tolerates {c : Conn} {id : RequestId} {protoop : StructureTag}
    (h : c.Tolerates id protoop) (controls : List Control) :
    (c.turnResp id (.structureTag protoop) controls).status = c.status := by
  rw [Tolerates] at h
  generalize hs : c.turnResp id (.structureTag protoop) controls = c'
  cases turnResp_cases hs with
  | item =>
    rw [sendItem_eq]
    rfl
  | panicked hslot hitem | failed hslot hitem =>
    rw [if_neg (by simp [hslot])] at h
    obtain ⟨x, hok⟩ := (searchItem_ok_iff protoop).2 h
    rw [hok] at hitem
    cases hitem
  | result => rfl
  | resultPoisoned hsearch hslot hlock =>
    rw [if_pos hsearch, hslot, hlock] at h
    rcases h with h | h <;> cases h
  | unregistered => rfl

/-- Any other message is a panic. -/
theorem status_turnResp_of_not_tolerates {c : Conn} {id : RequestId} {protoop : StructureTag}
    (h : ¬c.Tolerates id protoop) (controls : List Control) :
    ∃ msg, (c.turnResp id (.structureTag protoop) controls).status = .panicked msg := by
  rw [Tolerates] at h
  generalize hs : c.turnResp id (.structureTag protoop) controls = c'
  cases turnResp_cases hs with
  | item hslot hitem =>
    rw [if_neg (by simp [hslot]), ← searchItem_ok_iff] at h
    exact absurd ⟨_, hitem⟩ h
  | panicked => exact ⟨_, rfl⟩
  | failed hslot hitem => exact absurd hitem (noError_searchItem protoop _)
  | result hsearch hslot hlock =>
    rw [if_pos hsearch] at h
    exact absurd (Or.inr hlock) h
  | resultPoisoned => exact ⟨_, rfl⟩
  | unregistered hsearch hresult =>
    rw [if_pos hsearch] at h
    exact absurd (Or.inl hresult) h

/-! ### Runs -/

/-- The action brings in no message that takes the driver down, and the driver does not lock a
poisoned mutex for a scrub or an Abandon. A message decoded from the stream is a structure tag, and
the stream and the channels end without a panic. -/
def Harmless (c : Conn) : Act → Prop
  | .turnResp id tag _ => ∃ protoop, tag = .structureTag protoop ∧ c.Tolerates id protoop
  | .turnScrub => c.msgmap.poisoned = false
  | .turnOp _ => c.msgmap.poisoned = true →
    ∀ o ∈ c.rx.head?, ∀ msgid, (c.ops o).op ≠ .abandon msgid
  | .stop why => ∀ msg, why ≠ .panicked msg
  | _ => True

/-- One step does not make the driver panic. -/
theorem not_panicked_of_step {c c' : Conn} {a : Act} (h : ∀ msg, c.status ≠ .panicked msg)
    (hgood : c.Harmless a) (hs : c.step a = some c') : ∀ msg, c'.status ≠ .panicked msg := by
  -- All that matters is what the step makes of the status.
  suffices hstatus : c'.status = c.status ∨ ∀ msg, c'.status ≠ .panicked msg by
    rcases hstatus with heq | hne
    · rwa [heq]
    · exact hne
  cases step_cases hs with
  | turnOp hs =>
    obtain ⟨o, rx, hrx, hturn⟩ := turnOp_cases hs
    cases hturn with
    | lost => exact .inr fun msg ↦ Status.noConfusion
    | abandonPoisoned hop hlock => exact absurd hop (hgood hlock o (by rw [hrx]; rfl) _)
    | single | search | abandon | unbind => exact .inl rfl
  | turnResp =>
    obtain ⟨protoop, rfl, htol⟩ := hgood
    exact .inl (status_turnResp_of_tolerates htol _)
  | scrubPoisoned hids hrun hlock =>
    rw [show c.msgmap.poisoned = false from hgood] at hlock
    cases hlock
  | stop => exact .inr hgood
  | alloc hs =>
    obtain ⟨id, -, rfl⟩ := alloc_spec hs
    exact .inl rfl
  | noId | enqueue | dropReply | dropItems | sendScrub | loseScrub | turnScrub => exact .inl rfl

/-- **Survival.** In a run whose messages are all tolerated, and which locks no poisoned mutex for
something else, the driver never panics; and at any point of any run, whatever the maps contain and
whether or not the mutex is poisoned, the messages that do not make it panic are exactly those
tolerated. -/
theorem survives (c : Conn) (id : RequestId) (protoop : StructureTag) (controls : List Control) :
    (Machine.Reach step Harmless init c → ∀ msg, c.status ≠ .panicked msg) ∧
      (c.status = .running →
        ((∀ msg, (c.turnResp id (.structureTag protoop) controls).status ≠ .panicked msg) ↔
          c.Tolerates id protoop)) := by
  refine ⟨fun hc ↦ hc.invariant (by simp [init]) not_panicked_of_step, ?_⟩
  intro hrun
  constructor
  · intro hpanic
    by_contra hnot
    obtain ⟨msg, hmsg⟩ := status_turnResp_of_not_tolerates hnot controls
    exact hpanic msg hmsg
  · intro htol msg
    rw [status_turnResp_of_tolerates htol, hrun]
    exact Status.noConfusion

/-- A connection with one outstanding Search, after an entry for it and a scrub, and a second
entry. -/
theorem survives_search :
    ∃ c, Machine.Reach step Harmless init c ∧ c.searchmap 1 = some 0 ∧
      (∀ msg, c.status ≠ .panicked msg) ∧
      ∀ msg, (c.turnResp 1 (.structureTag ⟨.application, 4, .C []⟩) []).status ≠
        .panicked msg := by
  have hinit : Machine.Reach step Harmless init init := .init
  have halloc := hinit.step (l := Act.alloc .search .ofNull none) trivial rfl
  have hqueued := halloc.step (l := Act.enqueue 0) trivial rfl
  have hwritten := hqueued.step (l := Act.turnOp true) (by rintro ⟨⟩) rfl
  have hentry := hwritten.step
    (l := Act.turnResp 1 (.structureTag ⟨.application, 4, .C []⟩) []) ⟨_, rfl, .inl rfl⟩ rfl
  have hsent := hentry.step (l := Act.sendScrub 2) trivial rfl
  have hscrubbed := hsent.step (l := Act.turnScrub) rfl rfl
  obtain ⟨hreach, hturn⟩ := survives _ 1 ⟨.application, 4, .C []⟩ []
  exact ⟨_, hscrubbed, rfl, hreach hscrubbed, (hturn rfl).2 (.inl rfl)⟩

/-- A message with an unexpected number for an outstanding Search takes the driver down. -/
theorem intermediate_panics :
    ∃ c, Machine.Reach step Machine.any init c ∧ c.status = .running ∧
      (c.turnResp 1 (.structureTag ⟨.application, 24, .C []⟩) []).status =
        .panicked "unrecognized op id: 24" := by
  have hsome : (Machine.run step Machine.any init
      [.alloc .search .ofNull none, .enqueue 0, .turnOp true]).map
      (fun c ↦ decide (c.status = .running ∧
        (c.turnResp 1 (.structureTag ⟨.application, 24, .C []⟩) []).status =
          .panicked "unrecognized op id: 24")) = some true := by
    decide +kernel
  obtain ⟨c, hc, hpanic⟩ := Option.map_eq_some_iff.1 hsome
  exact ⟨c, Machine.reach_of_run hc, of_decide_eq_true hpanic⟩

end Conn

end Ldap3
