import Ldap3.Search.Frame
import Ldap3.Search.Start

/-!
# One-shot modifiers

What becomes of the modifiers of a handle over any sequence of calls. `Modifiers.after` is the
intended behaviour: a modifier stays until the next operation and is gone after it. The handle
behaves so exactly as long as every operation clears what it finds, which is the condition
`Act.Clears` on the handle and the arguments before the operation:

* `op_call` does not take the search options, so only a Search clears them;
* `add` and `modify` return before `op_call` if their arguments are refused;
* `op_call` takes the timeout only after the driver took the operation.

A Search clears everything, whatever its outcome, since it starts by moving the modifiers to a
handle of its own.
-/

namespace Ldap3

/-- The modifiers of a handle. -/
structure Modifiers where
  controls : Option (List RawControl)
  timeout : Option ℕ
  searchOpts : Option SearchOptions
  deriving DecidableEq

def Ldap.modifiers (ldap : Ldap) : Modifiers :=
  ⟨ldap.controls, ldap.timeout, ldap.searchOpts⟩

/-- The call is one of `search` and `streaming_search`. -/
def Call.isSearch {S : Type} : Call S → Bool
  | .search _ _ _ _ => true
  | _ => false

/-- A call of a method of a handle, with what happens to it outside. -/
inductive Ldap.Act (S : Type) where
  | withControls (ctrls : List RawControl)
  | withTimeout (duration : ℕ)
  | withSearchOptions (opts : SearchOptions)
  | call (c : Call S) (hc : c.isSearch = false) (served : Served)
  | search (base : String) (scope : Scope) (filter : String) (attrs : List String)
      (answers : List SearchServed)
  | streamingSearch (base : String) (scope : Scope) (filter : String) (attrs : List String)
      (answers : List SearchServed)

/-- The modifiers after a call, if they are one-shot. -/
def Modifiers.after {S : Type} (m : Modifiers) : Ldap.Act S → Modifiers
  | .withControls ctrls => { m with controls := some ctrls }
  | .withTimeout duration => { m with timeout := some duration }
  | .withSearchOptions opts => { m with searchOpts := some opts }
  | _ => ⟨none, none, none⟩

/-- A panic leaves nothing to return. -/
def returned {α β : Type} (a : α) : Except Failure β → Option α
  | .error .panic => none
  | _ => some a

namespace Ldap

variable {S : Type} [AsRef S]

/-- A method of the handle: what it sends, and the handle when it returns, if it does. -/
def act (ldap : Ldap) : Act S → List Sent × Option Ldap
  | .withControls ctrls => ([], some (ldap.withControls ctrls))
  | .withTimeout duration => ([], some (ldap.withTimeout duration))
  | .withSearchOptions opts => ([], some (ldap.withSearchOptions opts))
  | .call c _ served =>
    let (ldap, sent, res) := ldap.invoke c served
    (sent.toList, returned ldap res)
  | .search base scope filter attrs answers =>
    let (ldap, stream, res) := ldap.search base scope filter attrs ⟨answers, [], []⟩
    (stream.net.sent, returned ldap res)
  | .streamingSearch base scope filter attrs answers =>
    let (ldap, stream, res) := ldap.streamingSearch base scope filter attrs ⟨answers, [], []⟩
    (stream.net.sent, returned ldap res)

/-- A sequence of calls that return. -/
def run (ldap : Ldap) (acts : List (Act S)) : Option Ldap :=
  acts.foldlM (fun ldap a ↦ (ldap.act a).2) ldap

end Ldap

/-- **One-shot modifiers.** Every call finds the modifiers set since the operation before it, what
it sends goes out with them, and a Search is made with these search options. -/
def OneShot {S : Type} [AsRef S] (ldap : Ldap) (acts : List (Ldap.Act S)) : Prop :=
  ∀ pre a post, acts = pre ++ a :: post → ∀ l, ldap.run pre = some l →
    let m := pre.foldl Modifiers.after ldap.modifiers
    (∀ msg ∈ (l.act a).1, msg.controls = m.controls ∧ msg.timeout = m.timeout ∧
      (msg.op = .search → ∃ base scope filter attrs,
        Request.search (m.searchOpts.getD {}) base scope filter attrs = .ok msg.req)) ∧
      ∀ l', (l.act a).2 = some l' → l'.modifiers = m.after a

/-- The operation clears what it finds. -/
def Ldap.Act.Clears {S : Type} [AsRef S] (ldap : Ldap) : Ldap.Act S → Prop
  | .call c _ served =>
    ldap.searchOpts = none ∧
      match c.request {} with
      | .error _ => ldap.controls = none ∧ ldap.timeout = none
      | .ok _ => served.sent = true ∨ ldap.timeout = none
  | _ => True

/-! ### What goes out -/

/-- The message goes out with the modifiers of the handle. -/
def Ldap.Carries (ldap : Ldap) (msg : Sent) : Prop :=
  msg.controls = ldap.controls ∧ msg.timeout = ldap.timeout ∧
    (msg.op = .search → ∃ base scope filter attrs,
      Request.search (ldap.searchOpts.getD {}) base scope filter attrs = .ok msg.req)

/-- `op_call` sends what it was given, with the controls and the timeout of the handle. -/
theorem opCall_sent {ldap : Ldap} {op : LdapOp} {req : Tag} {s : Served} {msg : Sent}
    (h : (ldap.opCall op req s).2.1 = some msg) :
    msg.op = op ∧ msg.req = req ∧ msg.controls = ldap.controls ∧ msg.timeout = ldap.timeout := by
  rcases hid : s.id with - | id
  · rw [opCall_of_id_none hid] at h
    cases h
  · rcases hsent : s.sent with - | -
    · rw [opCall_of_not_sent hid hsent] at h
      cases h
    · rw [opCall_of_sent hid hsent] at h
      obtain rfl := Option.some.inj h
      exact ⟨rfl, rfl, rfl, rfl⟩

namespace SearchStream

/-- A Search is made with the modifiers of the stream's handle. -/
theorem carries_startInner {s : SearchStream} (base : String) (scope : Scope) (filter : String)
    (attrs : List String) (hnet : s.net.sent = []) :
    ∀ msg ∈ (s.startInner base scope filter attrs).1.net.sent, s.ldap.Carries msg := by
  intro msg hmsg
  rcases hreq : Request.search (s.ldap.searchOpts.getD {}) base scope filter attrs with e | req
  · rw [startInner_of_error hreq, hnet] at hmsg
    cases hmsg
  · rw [startInner_of_request hreq] at hmsg
    have hlog : msg ∈ (({ s.ldap with searchOpts := none } : Ldap).opCall .search req
        s.net.answer.1.served).2.1 := by
      simpa [Net.log, sent_answer, hnet] using hmsg
    obtain ⟨-, hreq', hctrls, htimeout⟩ := opCall_sent hlog
    exact ⟨hctrls, htimeout, fun _ ↦ ⟨base, scope, filter, attrs, by rw [hreq', hreq]⟩⟩

theorem net_failOnErr {α : Type} (x : SearchStream × Except Failure α) :
    (failOnErr x).1.net = x.1.net := by
  rw [failOnErr]
  split <;> rfl

/-- A chain that leaves the handle as it is sends a request with the modifiers of the handle. -/
theorem carries_start {adapters as : List Adapter} {ldap : Ldap} {base filter : String}
    {scope : Scope} {attrs : List String} (answers : List SearchServed)
    (hprep : prepare base scope filter attrs ldap adapters = .ok (as, ldap)) :
    (∀ msg ∈ ((new ldap adapters ⟨answers, [], []⟩).start base scope filter attrs).1.net.sent,
        ldap.Carries msg) ∧
      ((new ldap adapters ⟨answers, [], []⟩).start base scope filter attrs).1.adapters = as := by
  rw [start_new_of_prepare _ hprep, net_failOnErr, failOnErr_adapters]
  exact ⟨carries_startInner base scope filter attrs rfl, (frame_startInner _ _ _ _ _).2⟩

/-- The handle is done with once the stream has the modifiers. -/
theorem handle_search (l : Ldap) (base : String) (scope : Scope) (filter : String)
    (attrs : List String) (net : Net) :
    (l.search base scope filter attrs net).1 =
      { l with controls := none, timeout := none, searchOpts := none } := by
  rw [Ldap.search]
  rcases hstart : l.streamingSearchWith [.entriesOnly []] base scope filter attrs net with
    ⟨l', stream, e | ⟨⟩⟩ <;> obtain ⟨rfl, -⟩ := Prod.mk.inj hstart
  · rfl
  · rcases hall : readAll (stream.size + 1) stream with ⟨stream', e | entries⟩ <;>
      simp only [hall]

/-- Reading and finishing the stream of `search` sends nothing. -/
theorem sent_search (l : Ldap) (base : String) (scope : Scope) (filter : String)
    (attrs : List String) (net : Net) :
    (l.search base scope filter attrs net).2.1.net.sent =
      ((new ⟨0, l.timeout, l.controls, l.searchOpts⟩ [.entriesOnly []] net).start base scope
        filter attrs).1.net.sent := by
  have hchain : ∀ pr, .pagedResults pr ∉ ((new ⟨0, l.timeout, l.controls, l.searchOpts⟩
      [.entriesOnly []] net).start base scope filter attrs).1.adapters := by
    have hprep : prepare base scope filter attrs ⟨0, l.timeout, l.controls, l.searchOpts⟩
        [.entriesOnly []] = .ok ([.entriesOnly []], ⟨0, l.timeout, l.controls, l.searchOpts⟩) := rfl
    rw [start_new_of_prepare _ hprep, failOnErr_adapters, (frame_startInner _ _ _ _ _).2]
    simp [new]
  simp only [Ldap.search, Ldap.streamingSearchWith, Ldap.clone]
  rcases hstart : (new ⟨0, l.timeout, l.controls, l.searchOpts⟩ [.entriesOnly []] net).start base
    scope filter attrs with ⟨stream, e | ⟨⟩⟩
  · rfl
  · rw [hstart] at hchain
    have hread := sent_readAll (stream.size + 1) hchain
    rcases hall : readAll (stream.size + 1) stream with ⟨stream', e | entries⟩ <;>
      rw [hall] at hread
    · exact hread
    · have hfinish : stream'.finish.1.net = stream'.net := net_finishAt _ _
      dsimp only
      rw [hfinish]
      exact hread

end SearchStream

/-! ### One call -/

theorem ldapOp_ne_search {S : Type} {c : Call S} (hc : c.isSearch = false) :
    c.ldapOp ≠ .search := by
  intro h
  cases c <;> simp [Call.ldapOp, Call.isSearch] at h hc

section Act

variable {S : Type} [AsRef S] {l l' : Ldap}

open SearchStream

theorem act_search (base : String) (scope : Scope) (filter : String) (attrs : List String)
    (answers : List SearchServed) :
    l.act (S := S) (.search base scope filter attrs answers) =
      ((l.search base scope filter attrs ⟨answers, [], []⟩).2.1.net.sent,
        returned (l.search base scope filter attrs ⟨answers, [], []⟩).1
          (l.search base scope filter attrs ⟨answers, [], []⟩).2.2) := by
  rw [Ldap.act]

theorem act_streamingSearch (base : String) (scope : Scope) (filter : String)
    (attrs : List String) (answers : List SearchServed) :
    l.act (S := S) (.streamingSearch base scope filter attrs answers) =
      ((l.streamingSearch base scope filter attrs ⟨answers, [], []⟩).2.1.net.sent,
        returned (l.streamingSearch base scope filter attrs ⟨answers, [], []⟩).1
          (l.streamingSearch base scope filter attrs ⟨answers, [], []⟩).2.2) := by
  rw [Ldap.act]

/-- Whatever a call sends goes out with the modifiers the handle has before it. -/
theorem carries_act (l : Ldap) (a : Ldap.Act S) : ∀ msg ∈ (l.act a).1, l.Carries msg := by
  cases a with
  | withControls ctrls => exact fun _ h ↦ absurd h List.not_mem_nil
  | withTimeout duration => exact fun _ h ↦ absurd h List.not_mem_nil
  | withSearchOptions opts => exact fun _ h ↦ absurd h List.not_mem_nil
  | call c hc served =>
    intro msg hmsg
    have hsent : (l.invoke c served).2.1 = some msg := Option.mem_toList.1 hmsg
    rw [Ldap.invoke] at hsent
    split at hsent
    · cases hsent
    · obtain ⟨hop, -, hctrls, htimeout⟩ := opCall_sent hsent
      exact ⟨hctrls, htimeout, fun hsearch ↦ absurd (hop.symm.trans hsearch) (ldapOp_ne_search hc)⟩
  | search base scope filter attrs answers =>
    intro msg hmsg
    have hprep : prepare base scope filter attrs ⟨0, l.timeout, l.controls, l.searchOpts⟩
        [.entriesOnly []] = .ok ([.entriesOnly []], ⟨0, l.timeout, l.controls, l.searchOpts⟩) := rfl
    rw [act_search, sent_search] at hmsg
    exact (carries_start answers hprep).1 msg hmsg
  | streamingSearch base scope filter attrs answers =>
    have hprep : prepare base scope filter attrs ⟨0, l.timeout, l.controls, l.searchOpts⟩ [] =
        .ok ([], ⟨0, l.timeout, l.controls, l.searchOpts⟩) := rfl
    exact (carries_start answers hprep).1

theorem returned_eq_some {α β : Type} {a a' : α} {x : Except Failure β}
    (h : returned a x = some a') : a' = a ∧ x ≠ .error .panic := by
  rcases x with ⟨e | -⟩ | b
  · exact ⟨(Option.some.inj h).symm, by simp⟩
  · cases h
  · exact ⟨(Option.some.inj h).symm, by simp⟩

/-- **One call.** The modifiers are as they should be after a call exactly when it cleared what it
found. -/
theorem modifiers_act_iff {a : Ldap.Act S} (h : (l.act a).2 = some l') :
    l'.modifiers = l.modifiers.after a ↔ a.Clears l := by
  cases a with
  | withControls ctrls =>
    obtain rfl := Option.some.inj h
    exact iff_of_true rfl trivial
  | withTimeout duration =>
    obtain rfl := Option.some.inj h
    exact iff_of_true rfl trivial
  | withSearchOptions opts =>
    obtain rfl := Option.some.inj h
    exact iff_of_true rfl trivial
  | call c hc served =>
    obtain ⟨rfl, hres⟩ := returned_eq_some (a := (l.invoke c served).1)
      (x := (l.invoke c served).2.2) h
    rw [Ldap.Act.Clears]
    rcases hreq : c.request {} with e | req
    · simp only [Ldap.invoke, hreq, Ldap.modifiers, Modifiers.after, Modifiers.mk.injEq]
      tauto
    · simp only [Ldap.invoke, hreq] at hres ⊢
      rcases hid : served.id with - | id
      · rw [opCall_of_id_none hid] at hres
        exact absurd rfl hres
      · rcases hsent : served.sent with - | -
        · rw [opCall_of_not_sent hid hsent]
          simp only [Ldap.modifiers, Modifiers.after, Modifiers.mk.injEq]
          tauto
        · rw [opCall_of_sent hid hsent]
          simp only [Ldap.modifiers, Modifiers.after, Modifiers.mk.injEq]
          tauto
  | search base scope filter attrs answers =>
    rw [act_search] at h
    obtain ⟨rfl, -⟩ := returned_eq_some h
    exact iff_of_true (by rw [handle_search]; rfl) trivial
  | streamingSearch base scope filter attrs answers =>
    rw [act_streamingSearch] at h
    obtain ⟨rfl, -⟩ := returned_eq_some h
    exact iff_of_true rfl trivial

end Act

/-! ### Runs -/

theorem run_append_singleton {S : Type} [AsRef S] (l : Ldap) (pre : List (Ldap.Act S))
    (a : Ldap.Act S) : l.run (pre ++ [a]) = l.run pre >>= fun l ↦ (l.act a).2 := by
  simp [Ldap.run, List.foldlM_append]

/-- **When modifiers are one-shot.** Over a sequence of calls the modifiers affect the next
operation and no other, and are gone after it, if and only if every operation that returns clears
what it finds. -/
theorem oneShot_iff {S : Type} [AsRef S] (ldap : Ldap) (acts : List (Ldap.Act S)) :
    OneShot ldap acts ↔ ∀ pre a post, acts = pre ++ a :: post → ∀ l l', ldap.run pre = some l →
      (l.act a).2 = some l' → a.Clears l := by
  constructor
  · intro h pre a post hacts l l' hrun hact
    -- The modifiers before the call are known from the call before it.
    have hpre : l.modifiers = pre.foldl Modifiers.after ldap.modifiers := by
      rcases List.eq_nil_or_concat' pre with rfl | ⟨pre', b, rfl⟩
      · obtain rfl := Option.some.inj hrun
        rfl
      · rw [run_append_singleton] at hrun
        obtain ⟨l₀, hl₀, hb⟩ := Option.bind_eq_some_iff.1 hrun
        have hprev := (h pre' b (a :: post) (by rw [hacts, List.append_assoc]; rfl) l₀ hl₀).2 l hb
        rw [hprev, List.foldl_append]
        rfl
    have hpost := (h pre a post hacts l hrun).2 l' hact
    rw [← hpre] at hpost
    exact (modifiers_act_iff hact).1 hpost
  · intro h
    have hmods : ∀ pre post, acts = pre ++ post → ∀ l, ldap.run pre = some l →
        l.modifiers = pre.foldl Modifiers.after ldap.modifiers := by
      intro pre
      induction pre using List.reverseRecOn with
      | nil =>
        rintro post - l hrun
        obtain rfl := Option.some.inj hrun
        rfl
      | append_singleton pre a ih =>
        intro post hacts l' hrun
        rw [run_append_singleton] at hrun
        obtain ⟨l, hl, ha⟩ := Option.bind_eq_some_iff.1 hrun
        have hacts' : acts = pre ++ a :: post := by rw [hacts, List.append_assoc]; rfl
        have hclears := h pre a post hacts' l l' hl ha
        rw [List.foldl_append, ← ih (a :: post) hacts' l hl]
        exact (modifiers_act_iff ha).2 hclears
    intro pre a post hacts l hrun
    have hpre := hmods pre (a :: post) hacts l hrun
    constructor
    · intro msg hmsg
      have hcarries := carries_act l a msg hmsg
      rw [← hpre]
      exact hcarries
    · intro l' hact
      rw [← hpre]
      exact (modifiers_act_iff hact).2 (h pre a post hacts l l' hrun hact)

/-- The search options set for a Delete go into the Search after it. -/
theorem oneShot_leaks :
    ¬OneShot (⟨0, none, none, none⟩ : Ldap)
      [(.withSearchOptions { sizelimit := 1 } : Ldap.Act String),
        .call (.delete "dc=a") rfl ⟨some 1, true, none, some Conn.nullResult⟩,
        .streamingSearch "dc=a" .subtree "(a=b)" [] [⟨some 2, true, none, true, []⟩]] := by
  intro h
  let l : Ldap := ⟨0, none, none, some { sizelimit := 1 }⟩
  let a : Ldap.Act String :=
    .call (.delete "dc=a") rfl ⟨some 1, true, none, some Conn.nullResult⟩
  have hreturns : (l.act a).2.isSome := by decide +kernel
  obtain ⟨l', hact⟩ := Option.isSome_iff_exists.1 hreturns
  have hafter := (h [.withSearchOptions { sizelimit := 1 }] a _ rfl l rfl).2 l' hact
  have hopts := ((modifiers_act_iff hact).1 hafter).1
  cases hopts

end Ldap3
