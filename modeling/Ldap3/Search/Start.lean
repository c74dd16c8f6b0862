import Ldap3.Search.Stream

/-!
# Starting a stream

What `start` does to a stream that was just made. On the way down the chain the adapters prepare
the handle of the stream and themselves (`prepare`), and at the end of the chain the request is
sent with the handle as it is then. `start_new_of_prepare` puts this into one equation, so later
results need not follow the call through the chain.
-/

namespace Ldap3

/-! ### The inner method -/

namespace SearchStream

/-- `start_inner` with a request: setting the timeout again does not change the handle. -/
theorem startInner_of_request {s : SearchStream} {base filter : String} {scope : Scope}
    {attrs : List String} {req : Tag}
    (h : Request.search (s.ldap.searchOpts.getD {}) base scope filter attrs = .ok req) :
    s.startInner base scope filter attrs =
      (let (ldap, sent, res) := ({ s.ldap with searchOpts := none } : Ldap).opCall .search req
        s.net.answer.1.served
      ({ s with
          ldap := ldap
          rx := some s.net.answer.1.channel
          timeout := s.ldap.timeout
          net := s.net.answer.2.log sent
          state := if res.isOk then .active else s.state },
        res.map fun _ ↦ ())) := by
  rcases s with ⟨⟨lastId, timeout, controls, opts⟩, rx, state, adapters, ax, timeout', res, net⟩
  simp only [startInner, h]
  rcases timeout with - | timeout <;> dsimp only [Ldap.withTimeout] <;> split <;>
    rename_i heq <;> simp [heq, Except.map, Except.isOk, Except.toBool]

theorem startInner_of_error {s : SearchStream} {base filter : String} {scope : Scope}
    {attrs : List String} {e : Failure}
    (h : Request.search (s.ldap.searchOpts.getD {}) base scope filter attrs = .error e) :
    s.startInner base scope filter attrs =
      ({ s with ldap := { s.ldap with searchOpts := none }, timeout := s.ldap.timeout },
        .error e) := by
  simp only [startInner, h]

theorem sent_answer (net : Net) : net.answer.2.sent = net.sent := by
  rw [Net.answer]
  split <;> rfl

theorem taken_log_answer (net : Net) (sent : Option Sent) :
    (net.answer.2.log sent).taken = net.taken := by
  rw [Net.answer]
  split <;> rfl

theorem answers_log_answer (net : Net) (sent : Option Sent) :
    (net.answer.2.log sent).answers ⊆ net.answers := by
  rw [Net.answer]
  split
  · exact List.Subset.refl _
  · rename_i a answers hans
    exact fun b hb ↦ hans ▸ List.mem_cons_of_mem a hb

/-- The chain has nothing to do with the request. -/
theorem startInner_congr (s : SearchStream) (ax : ℕ) (adapters : List Adapter) (base : String)
    (scope : Scope) (filter : String) (attrs : List String) :
    ({ s with ax := ax, adapters := adapters } : SearchStream).startInner base scope filter attrs =
      ({ (s.startInner base scope filter attrs).1 with ax := ax, adapters := adapters },
        (s.startInner base scope filter attrs).2) := by
  rcases hreq : Request.search (s.ldap.searchOpts.getD {}) base scope filter attrs with e | req
  · have hcongr := @startInner_of_error { s with ax := ax, adapters := adapters } base filter scope
      attrs e hreq
    rw [hcongr, startInner_of_error hreq]
  · have hcongr := @startInner_of_request { s with ax := ax, adapters := adapters } base filter
      scope attrs req hreq
    rw [hcongr, startInner_of_request hreq]

/-- The request does not move the stream. -/
theorem frame_startInner (s : SearchStream) (base : String) (scope : Scope) (filter : String)
    (attrs : List String) : (s.startInner base scope filter attrs).1.ax = s.ax ∧
      (s.startInner base scope filter attrs).1.adapters = s.adapters := by
  rcases hreq : Request.search (s.ldap.searchOpts.getD {}) base scope filter attrs with e | req
  · rw [startInner_of_error hreq]
    exact ⟨rfl, rfl⟩
  · rw [startInner_of_request hreq]
    exact ⟨rfl, rfl⟩

end SearchStream

/-! ### The way down -/

section Prepare

variable (base : String) (scope : Scope) (filter : String) (attrs : List String)

/-- What an adapter does before it calls `start`, to itself and to the handle. -/
def Adapter.prepare (ldap : Ldap) : Adapter → Except LdapError (Adapter × Ldap)
  | .entriesOnly _ => .ok (.entriesOnly [], ldap)
  | .pagedResults pr =>
    let userControls := ldap.controls.getD []
    if userControls.any fun c ↦ c.ctype = PAGED_RESULTS_OID then
      .error (.adapterInit "found Paged Results control in op set")
    else
      let controls := userControls.filter fun c ↦ c.ctype ≠ PAGED_RESULTS_OID
      .ok (.pagedResults { pr with
          ldap := some ⟨0, ldap.timeout, some controls, ldap.searchOpts⟩
          base := base
          scope := scope
          filter := filter
          attrs := some attrs },
        { ldap with controls := some (controls ++ [Controls.PagedResults.raw ⟨pr.pageSize, []⟩]) })
  | .passThrough => .ok (.passThrough, ldap)

/-- What a chain does before the request is sent. -/
def prepare (ldap : Ldap) : List Adapter → Except LdapError (List Adapter × Ldap)
  | [] => .ok ([], ldap)
  | a :: as => do
    let (a, ldap) ← a.prepare base scope filter attrs ldap
    let (as, ldap) ← prepare ldap as
    return (a :: as, ldap)

namespace SearchStream

variable {base scope filter attrs}

/-- An adapter prepares, and calls `start`. -/
theorem adapter_start_eq (inner : Start) (a : Adapter) (s : SearchStream) :
    a.start inner s base scope filter attrs =
      match a.prepare base scope filter attrs s.ldap with
      | .error e => (a, s, .error (.err e))
      | .ok (a, ldap) => (a, inner { s with ldap := ldap } base scope filter attrs) := by
  cases a with
  | entriesOnly refs => rfl
  | pagedResults pr =>
    simp only [Adapter.start, PagedResults.start, Adapter.prepare]
    split <;> rfl
  | passThrough => rfl

/-- An error that went through a deeper call changes the state once more. -/
theorem failOnErr_update {α : Type} (x : SearchStream × Except Failure α) (ax : ℕ)
    (adapters : List Adapter) :
    failOnErr ({ (failOnErr x).1 with ax := ax, adapters := adapters }, (failOnErr x).2) =
      failOnErr ({ x.1 with ax := ax, adapters := adapters }, x.2) := by
  rcases x with ⟨s, ⟨e | -⟩ | a⟩ <;> rfl

theorem failOnErr_ax {α : Type} (x : SearchStream × Except Failure α) :
    (failOnErr x).1.ax = x.1.ax := by
  rcases x with ⟨s, ⟨e | -⟩ | a⟩ <;> rfl

theorem failOnErr_adapters {α : Type} (x : SearchStream × Except Failure α) :
    (failOnErr x).1.adapters = x.1.adapters := by
  rcases x with ⟨s, ⟨e | -⟩ | a⟩ <;> rfl

/-- **`start` on a fresh stream**: the chain is prepared from the current position on, and the
request is sent. -/
theorem startAt_of_prepare (depth : ℕ) {s : SearchStream} {as : List Adapter} {ldap : Ldap}
    (hfresh : s.state = .fresh) (hdepth : s.ax + depth = s.adapters.length)
    (hprep : prepare base scope filter attrs s.ldap (s.adapters.drop s.ax) = .ok (as, ldap)) :
    startAt (depth + 1) s base scope filter attrs =
      failOnErr (({ s with ldap := ldap, adapters := s.adapters.take s.ax ++ as }
        : SearchStream).startInner base scope filter attrs) := by
  induction depth generalizing s as ldap with
  | zero =>
    have hlen : s.ax = s.adapters.length := hdepth
    rw [hlen, List.drop_length, prepare] at hprep
    obtain ⟨rfl, rfl⟩ := Prod.mk.inj (Except.ok.inj hprep)
    have htake : s.adapters.take s.ax ++ [] = s.adapters := by
      rw [List.append_nil, hlen, List.take_length]
    rw [htake, startAt, startWith, if_neg (by simp [hfresh]), if_pos hlen]
  | succ depth ih =>
    have hlt : s.ax < s.adapters.length := by omega
    rw [List.drop_eq_getElem_cons hlt, prepare] at hprep
    obtain ⟨⟨a', ldap₁⟩, ha, h₁⟩ := Nom.bind_eq_ok.1 hprep
    obtain ⟨⟨as', ldap₂⟩, has, h₂⟩ := Nom.bind_eq_ok.1 h₁
    obtain ⟨rfl, rfl⟩ := Prod.mk.inj (Except.ok.inj h₂)
    have hbelow := @ih { s with ax := s.ax + 1, ldap := ldap₁ } as' ldap₂ hfresh
      (by dsimp only; omega) has
    have hset : ((s.adapters.take (s.ax + 1) ++ as').set s.ax a') =
        s.adapters.take s.ax ++ a' :: as' := by
      rw [List.take_succ_eq_append_getElem hlt, List.append_assoc, List.set_append_right _ _
        (by simp [Nat.le_of_lt hlt])]
      simp [Nat.min_eq_left (Nat.le_of_lt hlt)]
    rw [startAt, startWith, if_neg (by simp [hfresh]), if_neg (Nat.ne_of_lt hlt),
      List.getElem?_eq_getElem hlt]
    simp only [adapter_start_eq, ha, hbelow]
    refine (failOnErr_update _ _ _).trans ?_
    obtain ⟨hax, hadapters⟩ := frame_startInner { s with
      ldap := ldap₂, ax := s.ax + 1, adapters := s.adapters.take (s.ax + 1) ++ as' }
      base scope filter attrs
    rw [failOnErr_ax, failOnErr_adapters, hax, hadapters, Nat.add_sub_cancel, hset]
    have hdeep := startInner_congr { s with ldap := ldap₂ } (s.ax + 1)
      (s.adapters.take (s.ax + 1) ++ as') base scope filter attrs
    have hhere := startInner_congr { s with ldap := ldap₂ } s.ax
      (s.adapters.take s.ax ++ a' :: as') base scope filter attrs
    dsimp only at hdeep hhere
    rw [hdeep, hhere]

/-- If an adapter refuses to start nothing is sent. -/
theorem startAt_of_error (depth : ℕ) {s : SearchStream} {e : LdapError}
    (hfresh : s.state = .fresh) (hdepth : s.ax + depth = s.adapters.length)
    (hprep : prepare base scope filter attrs s.ldap (s.adapters.drop s.ax) = .error e) :
    (startAt (depth + 1) s base scope filter attrs).2 = .error (.err e) ∧
      (startAt (depth + 1) s base scope filter attrs).1.net = s.net := by
  induction depth generalizing s e with
  | zero =>
    have hlen : s.ax = s.adapters.length := hdepth
    rw [hlen, List.drop_length, prepare] at hprep
    cases hprep
  | succ depth ih =>
    have hlt : s.ax < s.adapters.length := by omega
    rw [List.drop_eq_getElem_cons hlt, prepare] at hprep
    rw [startAt, startWith, if_neg (by simp [hfresh]), if_neg (Nat.ne_of_lt hlt),
      List.getElem?_eq_getElem hlt]
    simp only [adapter_start_eq]
    rcases Nom.bind_eq_error.1 hprep with ha | ⟨⟨a', ldap₁⟩, ha, h₁⟩
    · simp only [ha]
      exact ⟨rfl, rfl⟩
    rcases Nom.bind_eq_error.1 h₁ with has | ⟨⟨as', ldap₂⟩, has, h₂⟩
    · obtain ⟨hres, hnet⟩ := @ih { s with ax := s.ax + 1, ldap := ldap₁ } e hfresh
        (by dsimp only; omega) has
      simp only [ha]
      rcases hcall : startAt (depth + 1) { s with ax := s.ax + 1, ldap := ldap₁ } base scope filter
        attrs with ⟨s', res⟩
      rw [hcall] at hres hnet
      obtain rfl : res = .error (.err e) := hres
      exact ⟨rfl, hnet⟩
    · cases h₂

/-- A stream that was just made is started. -/
theorem start_new_of_prepare {adapters as : List Adapter} {ldap ldap' : Ldap} (net : Net)
    (hprep : prepare base scope filter attrs ldap adapters = .ok (as, ldap')) :
    (new ldap adapters net).start base scope filter attrs =
      failOnErr ((new ldap' as net).startInner base scope filter attrs) :=
  startAt_of_prepare (s := new ldap adapters net) adapters.length rfl (Nat.zero_add _) hprep

/-- **A started stream**: the chain is prepared, the request was sent, and the stream waits for
what comes on the channel. -/
theorem start_new_eq_ok {adapters : List Adapter} {ldap : Ldap} {net : Net} {s : SearchStream}
    (h : (new ldap adapters net).start base scope filter attrs = (s, .ok ())) :
    ∃ as ldap' req, prepare base scope filter attrs ldap adapters = .ok (as, ldap') ∧
      Request.search (ldap'.searchOpts.getD {}) base scope filter attrs = .ok req ∧
      s.state = .active ∧ s.rx = some net.answer.1.channel ∧ s.adapters = as ∧ s.ax = 0 ∧
      s.timeout = ldap'.timeout ∧ s.res = none ∧
      s.net = net.answer.2.log (({ ldap' with searchOpts := none } : Ldap).opCall .search req
        net.answer.1.served).2.1 := by
  rcases hprep : prepare base scope filter attrs ldap adapters with e | ⟨as, ldap'⟩
  · obtain ⟨hres, -⟩ := @startAt_of_error base scope filter attrs adapters.length
      (new ldap adapters net) e rfl (Nat.zero_add _) hprep
    rw [show startAt (adapters.length + 1) (new ldap adapters net) base scope filter attrs =
      (s, .ok ()) from h] at hres
    cases hres
  rw [start_new_of_prepare net hprep] at h
  rcases hreq : Request.search (ldap'.searchOpts.getD {}) base scope filter attrs with e | req
  · rw [startInner_of_error (s := new ldap' as net) hreq] at h
    rcases e with e | - <;> cases h
  refine ⟨as, ldap', req, rfl, hreq, ?_⟩
  rw [startInner_of_request (s := new ldap' as net) hreq] at h
  rcases hcall : ({ ldap' with searchOpts := none } : Ldap).opCall .search req
    net.answer.1.served with ⟨ldap'', sent, res⟩
  simp only [new, hcall] at h
  rcases res with ⟨e | -⟩ | ext
  · cases h
  · cases h
  · cases h
    exact ⟨rfl, rfl, rfl, rfl, rfl, rfl, rfl⟩

end SearchStream

end Prepare

/-! ### Prepared chains -/

/-- `EntriesOnly` is in the chain. -/
def HasEntries (chain : List Adapter) : Prop :=
  ∃ refs, .entriesOnly refs ∈ chain

/-- `PagedResults` is in the chain. -/
def HasPaged (chain : List Adapter) : Prop :=
  ∃ pr, .pagedResults pr ∈ chain

/-- `start` has saved what the requests of later pages need. -/
def PagedResults.Saved (pr : PagedResults) : Prop :=
  (∃ ldap controls, pr.ldap = some ldap ∧ ldap.controls = some controls) ∧
    ∃ attrs, pr.attrs = some attrs

/-- `PagedResults` is in the chain once at most, and has been started. -/
def Prepared : List Adapter → Prop
  | [] => True
  | .pagedResults pr :: as => pr.Saved ∧ ¬HasPaged as
  | _ :: as => Prepared as

/-- Adapters of one kind. -/
def Adapter.Alike : Adapter → Adapter → Prop
  | .entriesOnly _, .entriesOnly _ => True
  | .pagedResults _, .pagedResults _ => True
  | .passThrough, .passThrough => True
  | _, _ => False

theorem HasEntries.of_alike {chain chain' : List Adapter}
    (h : List.Forall₂ Adapter.Alike chain chain') (hchain : HasEntries chain') :
    HasEntries chain := by
  obtain ⟨refs, hrefs⟩ := hchain
  induction h with
  | nil => cases hrefs
  | @cons a b as bs hab _ ih =>
    rcases List.mem_cons.1 hrefs with rfl | hmem
    · cases a with
      | entriesOnly refs' => exact ⟨refs', List.mem_cons_self⟩
      | pagedResults pr => exact hab.elim
      | passThrough => exact hab.elim
    · obtain ⟨refs', h⟩ := ih hmem
      exact ⟨refs', List.mem_cons_of_mem a h⟩

theorem HasPaged.of_alike {chain chain' : List Adapter}
    (h : List.Forall₂ Adapter.Alike chain chain') (hchain : HasPaged chain') :
    HasPaged chain := by
  obtain ⟨pr, hpr⟩ := hchain
  induction h with
  | nil => cases hpr
  | @cons a b as bs hab _ ih =>
    rcases List.mem_cons.1 hpr with rfl | hmem
    · cases a with
      | entriesOnly refs => exact hab.elim
      | pagedResults pr' => exact ⟨pr', List.mem_cons_self⟩
      | passThrough => exact hab.elim
    · obtain ⟨pr', h⟩ := ih hmem
      exact ⟨pr', List.mem_cons_of_mem a h⟩

theorem hasPaged_cons {a : Adapter} {as : List Adapter} (h : ∀ pr, a ≠ .pagedResults pr) :
    HasPaged (a :: as) ↔ HasPaged as := by
  constructor
  · rintro ⟨pr, hpr⟩
    rcases List.mem_cons.1 hpr with heq | hmem
    · exact absurd heq.symm (h pr)
    · exact ⟨pr, hmem⟩
  · rintro ⟨pr, hpr⟩
    exact ⟨pr, List.mem_cons_of_mem a hpr⟩

section Prepare

variable {base filter : String} {scope : Scope} {attrs : List String}

/-- With a Paged Results control in the set there is no more `PagedResults` to start. -/
theorem not_hasPaged_of_prepare {ldap ldap' : Ldap} {as as' : List Adapter}
    (h : prepare base scope filter attrs ldap as = .ok (as', ldap'))
    (hpr : ∃ c ∈ ldap.controls.getD [], c.ctype = PAGED_RESULTS_OID) : ¬HasPaged as' := by
  induction as generalizing ldap ldap' as' with
  | nil =>
    obtain ⟨rfl, -⟩ := Prod.mk.inj (Except.ok.inj h)
    rintro ⟨pr, hpr⟩
    cases hpr
  | cons a as ih =>
    rw [prepare] at h
    obtain ⟨⟨b, ldap₁⟩, ha, h₁⟩ := Nom.bind_eq_ok.1 h
    obtain ⟨⟨bs, ldap₂⟩, has, h₂⟩ := Nom.bind_eq_ok.1 h₁
    obtain ⟨rfl, -⟩ := Prod.mk.inj (Except.ok.inj h₂)
    cases a with
    | entriesOnly refs =>
      obtain ⟨rfl, rfl⟩ := Prod.mk.inj (Except.ok.inj ha)
      rw [hasPaged_cons (by simp)]
      exact ih has hpr
    | pagedResults pr =>
      rw [Adapter.prepare, if_pos (by simpa using hpr)] at ha
      cases ha
    | passThrough =>
      obtain ⟨rfl, rfl⟩ := Prod.mk.inj (Except.ok.inj ha)
      rw [hasPaged_cons (by simp)]
      exact ih has hpr

theorem prepared_of_prepare {ldap ldap' : Ldap} {as as' : List Adapter}
    (h : prepare base scope filter attrs ldap as = .ok (as', ldap')) : Prepared as' := by
  induction as generalizing ldap ldap' as' with
  | nil =>
    obtain ⟨rfl, -⟩ := Prod.mk.inj (Except.ok.inj h)
    trivial
  | cons a as ih =>
    rw [prepare] at h
    obtain ⟨⟨b, ldap₁⟩, ha, h₁⟩ := Nom.bind_eq_ok.1 h
    obtain ⟨⟨bs, ldap₂⟩, has, h₂⟩ := Nom.bind_eq_ok.1 h₁
    obtain ⟨rfl, -⟩ := Prod.mk.inj (Except.ok.inj h₂)
    cases a with
    | entriesOnly refs =>
      obtain ⟨rfl, rfl⟩ := Prod.mk.inj (Except.ok.inj ha)
      exact (ih has : Prepared bs)
    | pagedResults pr =>
      rw [Adapter.prepare] at ha
      split at ha
      · cases ha
      · obtain ⟨rfl, rfl⟩ := Prod.mk.inj (Except.ok.inj ha)
        refine ⟨⟨⟨_, _, rfl, rfl⟩, _, rfl⟩, not_hasPaged_of_prepare has ?_⟩
        exact ⟨_, List.mem_append_right _ List.mem_cons_self, rfl⟩
    | passThrough =>
      obtain ⟨rfl, rfl⟩ := Prod.mk.inj (Except.ok.inj ha)
      exact (ih has : Prepared bs)

/-- The adapters stay of their kind. -/
theorem alike_of_prepare {ldap ldap' : Ldap} {as as' : List Adapter}
    (h : prepare base scope filter attrs ldap as = .ok (as', ldap')) :
    List.Forall₂ Adapter.Alike as as' := by
  induction as generalizing ldap ldap' as' with
  | nil =>
    obtain ⟨rfl, -⟩ := Prod.mk.inj (Except.ok.inj h)
    exact .nil
  | cons a as ih =>
    rw [prepare] at h
    obtain ⟨⟨b, ldap₁⟩, ha, h₁⟩ := Nom.bind_eq_ok.1 h
    obtain ⟨⟨bs, ldap₂⟩, has, h₂⟩ := Nom.bind_eq_ok.1 h₁
    obtain ⟨rfl, -⟩ := Prod.mk.inj (Except.ok.inj h₂)
    refine .cons ?_ (ih has)
    cases a with
    | entriesOnly refs =>
      obtain ⟨rfl, -⟩ := Prod.mk.inj (Except.ok.inj ha)
      trivial
    | pagedResults pr =>
      rw [Adapter.prepare] at ha
      split at ha
      · cases ha
      · obtain ⟨rfl, -⟩ := Prod.mk.inj (Except.ok.inj ha)
        trivial
    | passThrough =>
      obtain ⟨rfl, -⟩ := Prod.mk.inj (Except.ok.inj ha)
      trivial

end Prepare

/-- Below `PagedResults` there is no other. -/
theorem Prepared.below {chain : List Adapter} {i : ℕ} {pr : PagedResults} (h : Prepared chain)
    (hi : chain[i]? = some (.pagedResults pr)) : pr.Saved ∧ ¬HasPaged (chain.drop (i + 1)) := by
  induction chain generalizing i with
  | nil => cases hi
  | cons a as ih =>
    rcases i with - | i
    · obtain rfl := Option.some.inj hi
      exact h
    · cases a with
      | entriesOnly refs => exact ih h hi
      | pagedResults pr' =>
        exact absurd ⟨pr, List.mem_of_getElem? hi⟩ h.2
      | passThrough => exact ih h hi

end Ldap3
