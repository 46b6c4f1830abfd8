import RialtoOcdm.Backend.Lifecycle
import RialtoOcdm.Concurrency.Monitor
import RialtoOcdm.Concurrency.Tally
import RialtoOcdm.Library.CdmBackend

/-! A backend under any interleaving of its initialization, of the notifications of
the Rialto thread and of the operations of other threads: its journal is accepted by
the lifecycle, and it is in the state of the lifecycle whenever its mutex is free. -/

namespace RialtoOcdm

open Concurrency Prog Rialto

variable {R : Type} [MediaKeys R]

namespace CdmBackend

/-- An operation of the backend; `a` is the session whose members it gets references to. -/
def operation (sys : SystemId) (a : Addr) : MediaKeysCall → Code R Bool
  | .selectKeyId id keyId => selectKeyId sys id keyId
  | .containsKey id keyId => containsKey sys id keyId
  | .createKeySession sessionType isLDL => createKeySession sys sessionType isLDL a
  | .generateRequest id initDataType initData => generateRequest sys id initDataType initData
  | .loadSession id => loadSession sys id
  | .updateSession id responseData => updateSession sys id responseData
  | .setDrmHeader id requestData => setDrmHeader sys id requestData
  | .closeKeySession id => closeKeySession sys id
  | .removeKeySession id => removeKeySession sys id
  | .deleteDrmStore => deleteDrmStore sys
  | .deleteKeyStore => deleteKeyStore sys
  | .getDrmStoreHash => do return (← getDrmStoreHash sys).ok
  | .getKeyStoreHash => do return (← getKeyStoreHash sys).ok
  | .getLdlSessionsLimit => do return (← getLdlSessionsLimit sys).ok
  | .getLastDrmError id => do return (← getLastDrmError sys id).ok
  | .getDrmTime => do return (← getDrmTime sys).ok
  | .getCdmKeySessionId id => getCdmKeySessionId sys id a

/-- What the threads call. -/
inductive Call
  | initializeBackend
  | notifyApplicationState (state : ApplicationState)
  | operation (a : Addr) (call : MediaKeysCall)
  deriving DecidableEq

def entry (sys : SystemId) (initialState : ApplicationState) : Call → Code R Bool
  | .initializeBackend => initializeBackend sys initialState
  | .notifyApplicationState state => do
    notifyApplicationState sys state
    return true
  | .operation a call => operation sys a call

/-- What a call asks the backend for. -/
def Call.request (initialState : ApplicationState) : Call → Request
  | .initializeBackend => .initialized initialState
  | .notifyApplicationState state => .notified state
  | .operation _ call => .operation call

end CdmBackend

/-! ### The protocol -/

namespace CdmBackend

variable {R : Type} {sys : SystemId} {initialState : ApplicationState} {c : Call} {w w' : World R}

/-- The backend is where its journal says. -/
structure At (sys : SystemId) (w : World R) (l : Lifecycle) : Prop where
  after : Lifecycle.after (stages sys w.journal) = some l
  appState : (w.backend sys).appState = l.state
  mediaKeys : (w.backend sys).mediaKeys = l.current

/-- What an event tells of the call and of the state it happens in. -/
def Fits (sys : SystemId) (initialState : ApplicationState) (c : Call) (w w' : World R) : Event → Prop
  | .notified s state => s = sys → c = .notifyApplicationState state
  | .initialized s state => s = sys → c = .initializeBackend ∧ state = initialState
  | .mediaKeysCreated s i => s = sys → w.instances = i ∧ w'.instances = i + 1
  | .forwarded s i call => s = sys → (∃ a, c = .operation a call) ∧
    (w.backend sys).appState = .running ∧ Lifecycle.lastCreated (stages sys w.journal) = some i
  | .refused s call => s = sys →
    (∃ a, c = .operation a call) ∧ (w.backend sys).appState ≠ .running
  | .mediaKeysFailed s => s = sys → (w.backend sys).appState ≠ .running ∧
    (w'.backend sys).appState = (w.backend sys).appState
  | _ => True

/-- Operations leave the backend as it is. -/
def Leaves (sys : SystemId) (c : Call) (w w' : World R) : Prop :=
  ∀ a call, c = .operation a call → w'.backend sys = w.backend sys

/-- The state is touched under the lock; the journal grows by events that fit. -/
def protocol (R : Type) (sys : SystemId) (initialState : ApplicationState) :
    Protocol (World R) Mutex Call where
  inv w := ∃ l, Lifecycle.after (stages sys w.journal) = some l
  free m w := m = .cdmBackend sys → ∃ l, At sys w l ∧ l.pending = false
  may c held w w' := .cdmBackend sys ∈ held ∧ w.instances ≤ w'.instances ∧
    Leaves sys c w w' ∧ ∃ es, w'.journal = es ++ w.journal ∧ ∀ e ∈ es, Fits sys initialState c w w' e
  request _ _ _ _ := True

theorem guards : (protocol R sys initialState).Guards (.cdmBackend sys) := fun _ _ _ _ h => h.1

/-- A step with one event. -/
theorem may_of {e : Event} (hj : w'.journal = e :: w.journal) (hn : w.instances ≤ w'.instances)
    (hl : Leaves sys c w w') (hf : Fits sys initialState c w w' e) :
    (protocol R sys initialState).may c [.cdmBackend sys] w w' :=
  ⟨by simp, hn, hl, [e], hj, by simpa using hf⟩

/-- A step that changes the backend only. -/
theorem may_updateBackend {f : CdmBackend → CdmBackend} (hc : ∀ a call, c ≠ .operation a call) :
    (protocol R sys initialState).may c [.cdmBackend sys] w (w.updateBackend sys f) :=
  ⟨by simp, le_rfl, fun a call he => absurd he (hc a call), [], rfl, by simp⟩

/-- A stage leads on. -/
theorem after_record {e : Event} {s : Stage} {l l' : Lifecycle}
    (h : Lifecycle.after (stages sys w.journal) = some l) (he : e.stage sys = some s)
    (hn : l.next s = some l') : Lifecycle.after (stages sys (e :: w.journal)) = some l' := by
  unfold stages at h
  simp [stages, he, Lifecycle.after, h, hn]

theorem stages_append_of_none {es es' : List Event} (h : ∀ e ∈ es, e.stage sys = none) :
    stages sys (es ++ es') = stages sys es' := by
  simpa [stages, List.filterMap_eq_nil_iff] using h

/-- The end of a critical section. -/
theorem critical_ret {α : Type} {a : α} {l : Lifecycle} (h : At sys w l) (hp : l.pending = false) :
    (protocol R sys initialState).Critical (.cdmBackend sys) c (.ret a : Code R α)
      (fun _ _ => True) w :=
  .ret guards (fun _ => ⟨l, h, hp⟩) trivial

/-- An act in a critical section. -/
theorem critical_act {α : Type} {f : World R → World R} {k : World R → Code R α}
    {Q : α → World R → Prop} {l : Lifecycle} (hm : (protocol R sys initialState).may c [.cdmBackend sys] w (f w))
    (hl : Lifecycle.after (stages sys (f w).journal) = some l)
    (hk : (protocol R sys initialState).Critical (.cdmBackend sys) c (k w) Q (f w)) :
    (protocol R sys initialState).Critical (.cdmBackend sys) c (.act f k) Q w :=
  .act guards hm ⟨l, hl⟩ hk

theorem critical_update {α β : Type} {f : World R → β × World R} {k : β → Code R α}
    {Q : α → World R → Prop} {l : Lifecycle} {b : β} (hf : f w = (b, w'))
    (hm : (protocol R sys initialState).may c [.cdmBackend sys] w w')
    (hl : Lifecycle.after (stages sys w'.journal) = some l)
    (hk : (protocol R sys initialState).Critical (.cdmBackend sys) c (k b) Q w') :
    (protocol R sys initialState).Critical (.cdmBackend sys) c (.update f >>= k) Q w := by
  obtain ⟨rfl, rfl⟩ : (f w).1 = b ∧ (f w).2 = w' := by simp [hf]
  exact critical_act hm hl hk

theorem critical_read {α : Type} {k : World R → Code R α} {Q : α → World R → Prop} {l : Lifecycle}
    (hl : Lifecycle.after (stages sys w.journal) = some l)
    (hk : (protocol R sys initialState).Critical (.cdmBackend sys) c (k w) Q w) :
    (protocol R sys initialState).Critical (.cdmBackend sys) c (.act id k) Q w :=
  critical_act ⟨by simp, le_rfl, fun _ _ _ => rfl, [], rfl, by simp⟩ hl hk

/-- What is stored with an answer is none of the backend's business. -/
def Stores (sys : SystemId) {call : MediaKeysCall} (store : ℕ → Answer call → World R → World R) :
    Prop :=
  ∀ i answer w, (store i answer w).backend = w.backend ∧
    (store i answer w).instances = w.instances ∧
    ∃ es, (store i answer w).journal = es ++ w.journal ∧ ∀ e ∈ es, e.stage sys = none

theorem stores_id {call : MediaKeysCall} : Stores sys fun (_ : ℕ) (_ : Answer call) (w : World R) => w :=
  fun _ _ _ => ⟨rfl, rfl, [], rfl, by simp⟩

/-- Using a member of a session and storing a value to it. -/
theorem stores_use_updateSession {a : Addr} {m : Member} {f : Session → Session} :
    ((w.use a m).updateSession a f).backend = w.backend ∧
      ((w.use a m).updateSession a f).instances = w.instances ∧
      ∃ es, ((w.use a m).updateSession a f).journal = es ++ w.journal ∧ ∀ e ∈ es, e.stage sys = none := by
  refine ⟨rfl, rfl, if w.has a m then [] else [.misused a m], ?_, ?_⟩
  · simp only [World.updateSession_journal, World.use_journal]
    split_ifs <;> rfl
  · split_ifs <;> simp [Event.stage]

theorem stores_cdmKeySessionId {a : Addr} {id : Int32} :
    Stores (R := R) sys fun _ => storeCdmKeySessionId a id := by
  intro i answer w
  simp only [storeCdmKeySessionId]
  cases answer.out with
  | none => exact ⟨rfl, rfl, [], rfl, by simp⟩
  | some id => exact stores_use_updateSession

theorem stores_keySessionId {a : Addr} {sessionType : KeySessionType} {isLDL : Bool} :
    Stores (R := R) sys (storeKeySessionId a sessionType isLDL) := by
  have record : ∀ (w₀ w : World R) e, e.stage sys = none →
      (w.backend = w₀.backend ∧ w.instances = w₀.instances ∧
        ∃ es, w.journal = es ++ w₀.journal ∧ ∀ e ∈ es, e.stage sys = none) →
      ((w.record e).backend = w₀.backend ∧ (w.record e).instances = w₀.instances ∧
        ∃ es, (w.record e).journal = es ++ w₀.journal ∧ ∀ e ∈ es, e.stage sys = none) := by
    rintro w₀ w e he ⟨hb, hn, es, hj, hes⟩
    exact ⟨hb, hn, e :: es, by simp [hj], by simpa [he] using hes⟩
  intro i answer w
  unfold storeKeySessionId
  cases answer.out with
  | none =>
    dsimp only
    split_ifs
    · exact record w w _ rfl ⟨rfl, rfl, [], rfl, by simp⟩
    · exact ⟨rfl, rfl, [], rfl, by simp⟩
  | some id =>
    dsimp only
    split_ifs
    · exact record w _ _ rfl stores_use_updateSession
    · exact stores_use_updateSession

/-- A critical section, entered with the backend at rest. -/
theorem guarded {α : Type} {p : Code R α} (hi : (protocol R sys initialState).inv w)
    (hp : ∀ w l, At sys w l → l.pending = false →
      (protocol R sys initialState).Critical (.cdmBackend sys) c p (fun _ _ => True) w) :
    (protocol R sys initialState).Safe c (Prog.withLock (.cdmBackend sys) p)
      (fun _ held _ => held = []) [] w := by
  refine (Protocol.Critical.withLock guards (fun _ => trivial) (Q := fun _ _ => True)
    (fun _ _ _ _ _ h => h) fun w hf _ => ?_).mono (fun _ _ _ _ h => h.1) hi
  obtain ⟨l, hl, hp'⟩ := hf rfl
  exact hp w l hl hp'

variable [MediaKeys R]

theorem ask_at {a : Addr} {call : MediaKeysCall} {store : ℕ → Answer call → World R → World R}
    (hstore : Stores sys store) {l : Lifecycle} (h : At sys w l) (hp : l.pending = false) :
    At sys (w.ask sys call store).2 l ∧ (protocol R sys initialState).may (.operation a call)
      [.cdmBackend sys] w (w.ask sys call store).2 := by
  have hcons := Lifecycle.consistent h.after
  unfold World.ask
  cases hm : (w.backend sys).mediaKeys with
  | none =>
    have hnone : l.current = none := by rw [← h.mediaKeys, hm]
    refine ⟨⟨after_record h.after (s := .refused call) (by simp [Event.stage]) ?_, h.appState,
      h.mediaKeys⟩, may_of rfl le_rfl (fun _ _ _ => rfl) fun _ => ⟨⟨a, rfl⟩, ?_⟩⟩
    · simp [Lifecycle.next, hp, hnone]
    · rw [h.appState, ne_eq, ← hcons.current, hnone]
      simp
  | some i =>
    have hsome : l.current = some i := by rw [← h.mediaKeys, hm]
    obtain ⟨hb, hn, es, hj, hes⟩ := hstore i (MediaKeys.call i call w.rialto).1
      ((w.setRialto (MediaKeys.call i call w.rialto).2).record (.forwarded sys i call))
    dsimp only at hb hn hj ⊢
    refine ⟨⟨?_, by rw [hb]; exact h.appState, by rw [hb]; exact h.mediaKeys⟩, by simp,
      hn ▸ le_rfl, fun _ _ _ => congrFun hb sys, es ++ [.forwarded sys i call], by simp [hj],
      fun e he => ?_⟩
    · rw [hj, stages_append_of_none hes]
      exact after_record h.after (s := .forwarded i call) (by simp [Event.stage])
        (by simp [Lifecycle.next, hp, hsome])
    · rcases List.mem_append.mp he with he | he
      · have := hes e he
        cases e <;> simp_all [Fits, Event.stage]
      · rw [List.mem_singleton.mp he]
        refine fun _ => ⟨⟨a, rfl⟩, ?_, Lifecycle.current_eq_lastCreated h.after hsome⟩
        rw [h.appState, ← hcons.current, hsome]
        rfl

/-- Passing a call on. -/
theorem forward_safe {a : Addr} {call : MediaKeysCall} {store : ℕ → Answer call → World R → World R}
    (hi : (protocol R sys initialState).inv w) (hstore : Stores sys store) :
    (protocol R sys initialState).Safe (.operation a call) (forward sys call store)
      (fun _ held _ => held = []) [] w := by
  apply guarded hi
  intro w l hl hp
  obtain ⟨hl', hm⟩ := ask_at (a := a) hstore hl hp
  exact critical_act hm hl'.after (critical_ret hl' hp)

/-- Waiting for the running state, then passing the call on. -/
theorem createKeySession_safe {sessionType : KeySessionType} {isLDL : Bool} {a : Addr}
    (hi : (protocol R sys initialState).inv w) :
    (protocol R sys initialState).Safe (.operation a (.createKeySession sessionType isLDL))
      (createKeySession sys sessionType isLDL a) (fun _ held _ => held = []) [] w := by
  apply guarded hi
  intro w l hl hp
  refine Protocol.Critical.awaitFor guards (fun _ => ⟨l, hl, hp⟩) (fun _ => trivial) fun w hf _ => ?_
  obtain ⟨l, hl, hp⟩ := hf rfl
  obtain ⟨hl', hm⟩ := ask_at (a := a) stores_keySessionId hl hp
  exact critical_act hm hl'.after (critical_ret hl' hp)

/-- Asking for an instance, where the running state is about to be entered. -/
theorem createMediaKeys_critical {α : Type} {k : Bool → Code R α} {l : Lifecycle}
    (hc : ∀ a call, c ≠ .operation a call) (h : At sys w l) (hp : l.pending = true)
    (hok : ∀ w' i, Lifecycle.after (stages sys w'.journal) = some ⟨.running, some i, false⟩ →
      (w'.backend sys).mediaKeys = some i →
      (protocol R sys initialState).Critical (.cdmBackend sys) c (k true) (fun _ _ => True) w')
    (hfail : ∀ w', At sys w' ⟨l.state, none, false⟩ →
      (protocol R sys initialState).Critical (.cdmBackend sys) c (k false) (fun _ _ => True) w') :
    (protocol R sys initialState).Critical (.cdmBackend sys) c (createMediaKeys sys >>= k)
      (fun _ _ => True) w := by
  have hcons := Lifecycle.consistent h.after
  have hne := hcons.pending hp
  have hcur : l.current = none := by simpa using hcons.current.not.mpr hne
  have hleaves : ∀ w', Leaves sys c w w' := fun w' a call he => absurd he (hc a call)
  have hfailed : Lifecycle.after (stages sys (.mediaKeysFailed sys :: w.journal)) =
      some ⟨l.state, none, false⟩ :=
    after_record h.after (s := .failed) (by simp [Event.stage]) (by simp [Lifecycle.next, hp])
  simp only [createMediaKeys, read_bind, act_bind]
  apply critical_read h.after
  split_ifs with hfactory
  · obtain ⟨made, rialto, hf⟩ : ∃ made rialto,
        w.createMediaKeys sys = (made, (w.setRialto rialto).assignMediaKeys sys made) := ⟨_, _, rfl⟩
    cases made with
    | true =>
      have hcreated : Lifecycle.after (stages sys (.mediaKeysCreated sys w.instances :: w.journal)) =
          some ⟨.running, some w.instances, false⟩ :=
        after_record h.after (s := .created w.instances) (by simp [Event.stage])
          (by simp [Lifecycle.next, hp])
      refine critical_update hf (may_of rfl (Nat.le_succ _) (hleaves _) fun _ => ⟨rfl, rfl⟩) hcreated ?_
      exact hok _ w.instances hcreated (by simp [World.assignMediaKeys])
    | false =>
      refine critical_update hf (may_of rfl le_rfl (hleaves _) fun _ => ⟨by rwa [h.appState], ?_⟩)
        hfailed ?_
      · simp [World.assignMediaKeys]
      · refine hfail _ ⟨hfailed, ?_, ?_⟩
        · simpa [World.assignMediaKeys] using h.appState
        · simp [World.assignMediaKeys]
  · rw [modify_bind]
    refine critical_act (may_of rfl le_rfl (hleaves _) fun _ => ⟨by rwa [h.appState], rfl⟩) hfailed ?_
    exact hfail _ ⟨hfailed, h.appState, h.mediaKeys.trans hcur⟩

omit [MediaKeys R] in
/-- Entering the state that the lifecycle is in already. -/
theorem setAppState_critical {α : Type} {k : Code R α} {l : Lifecycle}
    (hc : ∀ a call, c ≠ .operation a call) (hl : Lifecycle.after (stages sys w.journal) = some l)
    (hm : (w.backend sys).mediaKeys = l.current)
    (hk : ∀ w', At sys w' l →
      (protocol R sys initialState).Critical (.cdmBackend sys) c k (fun _ _ => True) w') :
    (protocol R sys initialState).Critical (.cdmBackend sys) c
      (setAppState sys l.state >>= fun _ => k) (fun _ _ => True) w := by
  rw [setAppState, modify_bind]
  exact critical_act (may_updateBackend hc) hl (hk _ ⟨hl, by simp, by simpa using hm⟩)

theorem notifyApplicationState_safe (state : ApplicationState)
    (hi : (protocol R sys initialState).inv w) :
    (protocol R sys initialState).Safe (.notifyApplicationState state)
      (notifyApplicationState sys state) (fun _ held _ => held = []) [] w := by
  apply guarded hi
  intro w l hl hp
  have hc : ∀ a call, Call.notifyApplicationState state ≠ .operation a call := by simp
  have hstage : (Event.notified sys state).stage sys = some (.notified state) := by simp [Event.stage]
  have hmay : (protocol R sys initialState).may (.notifyApplicationState state) [.cdmBackend sys] w
      (w.record (.notified sys state)) := may_of rfl le_rfl (fun _ _ _ => rfl) fun _ => rfl
  by_cases hsame : state = l.state
  · have hl' : Lifecycle.after (stages sys (.notified sys state :: w.journal)) = some l :=
      after_record hl.after hstage (by simp [Lifecycle.next, hp, hsame])
    refine critical_update rfl hmay hl' ?_
    rw [hl.appState, if_pos hsame]
    exact critical_ret ⟨hl', hl.appState, hl.mediaKeys⟩ hp
  · have hl' : Lifecycle.after (stages sys (.notified sys state :: w.journal)) =
        some (l.enter state) :=
      after_record hl.after hstage (by simp [Lifecycle.next, hp, hsame])
    refine critical_update rfl hmay hl' ?_
    rw [hl.appState, if_neg hsame]
    by_cases hrun : state = .running
    · subst hrun
      rw [if_pos rfl]
      rw [Lifecycle.enter_running] at hl'
      refine createMediaKeys_critical (l := { l with pending := true }) hc
        ⟨hl', hl.appState, hl.mediaKeys⟩ rfl (fun w' i ha hm => ?_) (fun w' hl => ?_)
      · exact setAppState_critical hc ha hm fun w'' h => Protocol.Critical.notifyOne (critical_ret h rfl)
      · exact critical_ret hl rfl
    · rw [if_neg hrun]
      rw [Lifecycle.enter_of_ne hrun] at hl'
      rw [resetMediaKeys, modify_bind]
      apply critical_act (may_updateBackend hc) hl'
      exact setAppState_critical (k := .ret ()) (l := ⟨state, none, false⟩) hc hl' (by simp)
        fun w' h => critical_ret h rfl

theorem initializeBackend_safe (hi : (protocol R sys initialState).inv w) :
    (protocol R sys initialState).Safe .initializeBackend (initializeBackend sys initialState)
      (fun _ held _ => held = []) [] w := by
  apply guarded hi
  intro w l hl hp
  have hc : ∀ a call, Call.initializeBackend ≠ .operation a call := by simp
  have hstage : (Event.initialized sys initialState).stage sys = some (.initialized initialState) := by
    simp [Event.stage]
  have hmay : (protocol R sys initialState).may .initializeBackend [.cdmBackend sys] w
      (w.record (.initialized sys initialState)) :=
    may_of rfl le_rfl (fun _ _ _ => rfl) fun _ => ⟨rfl, rfl⟩
  by_cases hstate : l.state = .unknown
  · have hl' : Lifecycle.after (stages sys (.initialized sys initialState :: w.journal)) =
        some (l.enter initialState) :=
      after_record hl.after hstage (by simp [Lifecycle.next, hp, hstate])
    refine critical_update rfl hmay hl' ?_
    rw [hl.appState, if_neg (by simp [hstate])]
    by_cases hrun : initialState = .running
    · subst hrun
      rw [if_pos rfl]
      rw [Lifecycle.enter_running] at hl'
      refine createMediaKeys_critical (l := { l with pending := true }) hc
        ⟨hl', hl.appState, hl.mediaKeys⟩ rfl (fun w' i ha hm => ?_) (fun w' hl => ?_)
      · exact setAppState_critical (k := .ret true) hc ha hm fun w'' h => critical_ret h rfl
      · exact critical_ret hl rfl
    · rw [if_neg hrun]
      rw [Lifecycle.enter_of_ne hrun] at hl'
      have hcur : l.current = none := by
        simpa using (Lifecycle.consistent hl.after).current.not.mpr (by simp [hstate])
      exact setAppState_critical (k := .ret true) (l := ⟨initialState, none, false⟩) hc hl'
        (hl.mediaKeys.trans hcur) fun w' h => critical_ret h rfl
  · have hl' : Lifecycle.after (stages sys (.initialized sys initialState :: w.journal)) = some l :=
      after_record hl.after hstage (by simp [Lifecycle.next, hp, hstate])
    refine critical_update rfl hmay hl' ?_
    rw [hl.appState, if_pos hstate]
    exact critical_ret ⟨hl', hl.appState, hl.mediaKeys⟩ hp

omit [MediaKeys R] in
/-- What is made of the answer afterwards. -/
theorem answer_safe {α β : Type} {p : Code R α} {f : α → β} (hi : (protocol R sys initialState).inv w)
    (hp : (protocol R sys initialState).Safe c p (fun _ held _ => held = []) [] w) :
    (protocol R sys initialState).Safe c (do return f (← p)) (fun _ held _ => held = []) [] w := by
  refine .bind hi (hp.mono ?_ hi)
  rintro a _ s hs rfl s' hr _
  rfl

theorem operation_safe (a : Addr) (call : MediaKeysCall) (hi : (protocol R sys initialState).inv w) :
    (protocol R sys initialState).Safe (.operation a call) (operation sys a call)
      (fun _ held _ => held = []) [] w := by
  cases call with
  | createKeySession sessionType isLDL => exact createKeySession_safe hi
  | getCdmKeySessionId id => exact answer_safe hi (forward_safe hi stores_cdmKeySessionId)
  | _ => exact answer_safe hi (forward_safe hi stores_id)

theorem sound :
    Sound (protocol R sys initialState) (fun _ _ _ => True) (entry sys initialState) where
  free_stable c held w w' m _ hm hnot hf hlock := absurd (hlock ▸ hm.1) hnot
  post_stable _ _ _ _ _ _ _ _ _ := trivial
  entry c w hi := by
    have hpost : (protocol R sys initialState).Safe c (entry sys initialState c)
        (fun _ held _ => held = []) [] w := by
      cases c with
      | initializeBackend => exact initializeBackend_safe hi
      | notifyApplicationState state => exact answer_safe hi (notifyApplicationState_safe state hi)
      | operation a call => exact operation_safe a call hi
    exact hpost.mono (fun _ _ _ _ h => ⟨h, trivial⟩) hi

/-! ### Requests

Each call of the backend is one request of the journal, whatever else the call does. -/

/-- The requests of a backend that were dealt with. -/
abbrev dealtWith (sys : SystemId) (w : World R) : List Request := requests sys w.journal

theorem ask_dealtWith {call : MediaKeysCall} {store : ℕ → Answer call → World R → World R}
    (hstore : Stores sys store) (w : World R) :
    dealtWith sys (w.ask sys call store).2 = .operation call :: dealtWith sys w := by
  refine World.ask_snd (p := fun w' => dealtWith sys w' = .operation call :: dealtWith sys w) ?_
    fun i => ?_
  · exact requests_cons (s := .refused call) (by simp [Event.stage]) _
  · obtain ⟨-, -, es, hj, hes⟩ := hstore i (MediaKeys.call i call w.rialto).1
      ((w.setRialto (MediaKeys.call i call w.rialto).2).record (.forwarded sys i call))
    rw [dealtWith, hj, requests_append_of_none hes]
    exact requests_cons (s := .forwarded i call) (by simp [Event.stage]) _

theorem forward_notes {call : MediaKeysCall} {store : ℕ → Answer call → World R → World R}
    (hstore : Stores sys store) : (forward sys call store : Code R (Answer call)).Notes
      (dealtWith sys) (.operation call) false true :=
  .withLock (.take (ask_dealtWith hstore) fun _ => rfl)

theorem operation_notes (a : Addr) (call : MediaKeysCall) : (operation sys a call : Code R Bool).Notes
    (dealtWith sys) (.operation call) false true := by
  cases call with
  | createKeySession sessionType isLDL =>
    exact .withLock (.take (ask_dealtWith stores_keySessionId) fun _ => rfl)
  | getCdmKeySessionId id => exact (forward_notes stores_cdmKeySessionId).bind fun _ => rfl
  | _ => exact (forward_notes stores_id).bind fun _ => rfl

/-- An attempt to make an instance is no request. -/
theorem createMediaKeys_notes (r : Request) (b : Bool) :
    (createMediaKeys sys : Code R Bool).Notes (dealtWith sys) r b b := by
  refine .skip (fun _ => rfl) fun w => ?_
  change Prog.Notes _ _ (if _ then _ else _) _ _
  split_ifs
  · refine .skip (fun w => ?_) fun _ => rfl
    obtain ⟨made, rialto, hf⟩ : ∃ made rialto,
      w.createMediaKeys sys = (made, (w.setRialto rialto).assignMediaKeys sys made) := ⟨_, _, rfl⟩
    change dealtWith sys (w.createMediaKeys sys).2 = _
    rw [hf]
    cases made with
    | true => exact requests_cons (s := .created w.instances) (by simp [Event.stage]) _
    | false => exact requests_cons (s := .failed) (by simp [Event.stage]) _
  · refine .skip (fun w => ?_) fun _ => rfl
    exact requests_cons (s := .failed) (by simp [Event.stage]) _

theorem initializeBackend_notes : (initializeBackend sys initialState : Code R Bool).Notes
    (dealtWith sys) (.initialized initialState) false true := by
  refine .withLock (.take (fun w => ?_) fun w => ?_)
  · exact requests_cons (s := .initialized initialState) (by simp [Event.stage]) _
  · change Prog.Notes _ _ (if _ then _ else _) _ _
    split_ifs
    · rfl
    · apply (createMediaKeys_notes _ true).bind
      intro made
      split_ifs
      · exact .skip (fun _ => rfl) fun _ => rfl
      · rfl
    · exact .skip (fun _ => rfl) fun _ => rfl

theorem notifyApplicationState_notes (state : ApplicationState) :
    (notifyApplicationState sys state : Code R Unit).Notes (dealtWith sys) (.notified state)
      false true := by
  refine .withLock (.take (fun w => ?_) fun w => ?_)
  · exact requests_cons (s := .notified state) (by simp [Event.stage]) _
  · change Prog.Notes _ _ (if _ then _ else _) _ _
    split_ifs
    · rfl
    · apply (createMediaKeys_notes _ true).bind
      intro made
      split_ifs
      · exact .skip (fun _ => rfl) fun _ => rfl
      · rfl
    · exact .skip (fun _ => rfl) fun _ => .skip (fun _ => rfl) fun _ => rfl

theorem entry_notes (c : Call) : (entry sys initialState c : Code R Bool).Notes (dealtWith sys)
    (c.request initialState) false true := by
  cases c with
  | initializeBackend => exact initializeBackend_notes
  | notifyApplicationState state => exact (notifyApplicationState_notes state).bind fun _ => rfl
  | operation a call => exact operation_notes a call

/-! ### All interleavings -/

variable {ι : Type} [DecidableEq ι] [Fintype ι]

/-- All that is said of the instances and the initial state, by induction on the run. -/
theorem made_and_initialized {cfg cfg' : Config (World R) Mutex Condition ι Call Bool}
    (hg : Good (protocol R sys initialState) (fun _ _ _ => True) cfg)
    (hr : Reaches (entry sys initialState) cfg cfg')
    (h : (∀ i, .mediaKeysCreated sys i ∈ cfg.shared.journal → i < cfg.shared.instances) ∧
      ∀ state, .initialized sys state ∈ cfg.shared.journal → state = initialState) :
    (∀ i, .mediaKeysCreated sys i ∈ cfg'.shared.journal → i < cfg'.shared.instances) ∧
      ∀ state, .initialized sys state ∈ cfg'.shared.journal → state = initialState := by
  refine hg.keeps sound (F := fun w => (∀ i, .mediaKeysCreated sys i ∈ w.journal → i < w.instances) ∧
    ∀ state, .initialized sys state ∈ w.journal → state = initialState) ?_ hr h
  rintro c held w w' - ⟨-, hle, -, es, hj, hes⟩ ⟨hmade, hini⟩
  rw [hj]
  refine ⟨fun i hi => ?_, fun state hs => ?_⟩
  · rcases List.mem_append.mp hi with hi | hi
    · have := hes _ hi rfl
      omega
    · exact (hmade i hi).trans_le hle
  · rcases List.mem_append.mp hs with hs | hs
    · exact (hes _ hs rfl).2
    · exact hini state hs

omit [MediaKeys R] [DecidableEq ι] [Fintype ι] in
theorem good_start (rialto : R) (keySystem : SystemId → String) (mediaKeysFactory : SystemId → Bool) :
    Good (protocol R sys initialState) (fun _ _ _ => True)
      (.idle (.start rialto keySystem mediaKeysFactory) [] :
        Config (World R) Mutex Condition ι Call Bool) :=
  .idle ⟨.start, rfl⟩ fun _ _ => ⟨.start, ⟨rfl, rfl, rfl⟩, rfl⟩

/-- What a step of the call `c` tells, where it adds `es` to the journal. -/
structure Tells (sys : SystemId) (c : Call) (w w' : World R) (es : List Event) : Prop where
  forwarded : ∀ i call, .forwarded sys i call ∈ es → (∃ a, c = .operation a call) ∧
    (w.backend sys).appState = .running ∧ Lifecycle.lastCreated (stages sys w.journal) = some i
  refused : ∀ call, .refused sys call ∈ es →
    (∃ a, c = .operation a call) ∧ (w.backend sys).appState ≠ .running
  notified : ∀ state, .notified sys state ∈ es → c = .notifyApplicationState state
  initialized : ∀ state, .initialized sys state ∈ es → c = .initializeBackend
  created : ∀ i, .mediaKeysCreated sys i ∈ es → .mediaKeysCreated sys i ∉ w.journal
  failed : .mediaKeysFailed sys ∈ es → (w.backend sys).appState ≠ .running ∧
    (w'.backend sys).appState = (w.backend sys).appState
  leaves : Leaves sys c w w'

/-- All notifications come from one thread. -/
def notifiedFrom (rialtoThread : ι) (_ : Config (World R) Mutex Condition ι Call Bool) :
    Action ι Call → Bool
  | .call t (.notifyApplicationState _) => decide (t = rialtoThread)
  | _ => true

/-- The notifications that were delivered, the last one first. -/
def delivered (history : List (Call × Bool)) : List ApplicationState :=
  history.filterMap fun e => (e.1.request .unknown).notification

/-- A request that is a notification. -/
def Request.isNotified (r : Request) : Bool := r.notification.isSome

omit [MediaKeys R] in
theorem findSome?_filter_isNotified (rs : List Request) :
    (rs.filter Request.isNotified).findSome? Request.notification =
      rs.findSome? Request.notification := by
  induction rs with
  | nil => rfl
  | cons r rs ih => cases r <;> first | rfl | exact ih

omit [DecidableEq ι] [Fintype ι] [MediaKeys R] in
theorem delivered_head (history : List (Call × Bool)) :
    (history.map (Call.request initialState ·.1)).findSome? Request.notification =
      (delivered history).head? := by
  induction history with
  | nil => rfl
  | cons e history ih =>
    obtain ⟨c, r⟩ := e
    cases c with
    | notifyApplicationState state => rfl
    | _ => exact ih

/-- Where all notifications come from one thread, the one that was delivered last is the last
one of the journal. -/
theorem lastNotified_eq_delivered {rialto : R} {keySystem : SystemId → String}
    {mediaKeysFactory : SystemId → Bool} {cfg : Config (World R) Mutex Condition ι Call Bool}
    {rialtoThread : ι} (h : ReachesUnder (notifiedFrom rialtoThread · · = true)
      (entry sys initialState) (.idle (.start rialto keySystem mediaKeysFactory) []) cfg)
    (hidle : ∀ th state, cfg.thread rialtoThread = some th → th.call ≠ .notifyApplicationState state) :
    Lifecycle.lastNotified (stages sys cfg.shared.journal) = (delivered cfg.history).head? := by
  have horder := notes_in_order (dealtWith sys) (Call.request initialState) Request.isNotified
    rialtoThread rfl (entry_notes (R := R)) (fun cfg t c hc hk => ?_) h fun th ht => ?_
  · rw [Lifecycle.lastNotified_eq]
    change (dealtWith sys cfg.shared).findSome? Request.notification = _
    rw [← findSome?_filter_isNotified, horder, findSome?_filter_isNotified, delivered_head]
  · cases c with
    | notifyApplicationState state => exact of_decide_eq_true hc
    | _ => cases hk
  · cases hcall : th.call with
    | notifyApplicationState state => exact absurd hcall (hidle th state ht)
    | _ => rfl

/-- In every state that threads which initialize, notify and use a backend can reach:

* when the mutex is free the backend is where the lifecycle of its journal is, so it
  has media keys exactly in the running state;
* only a thread that owns the mutex changes the state, and a step tells what it should: a call is
  passed on by the thread that makes it, in the running state and to the instance made last, or
  refused in another state, and the backend stays as it was when the thread took the lock; an
  instance is a new one, and a creation that fails leaves the state alone;
* each call that has returned was dealt with exactly once, and so were some of those under way;
* the next notification of the running state after a failure tries again;
* if no creation has failed and no notification said `unknown`, the state is the one
  notified last, or the initial one: where the notifications come from one thread, that of the
  notification that was delivered last. -/
theorem backend_follows_application (sys : SystemId) (initialState : ApplicationState) (rialto : R)
    (keySystem : SystemId → String) (mediaKeysFactory : SystemId → Bool)
    {cfg : Config (World R) Mutex Condition ι Call Bool}
    (h : Reaches (entry sys initialState)
      (.idle (.start rialto keySystem mediaKeysFactory) []) cfg) :
    (cfg.owner (.cdmBackend sys) = none →
      (∃ l, At sys cfg.shared l) ∧
      ((cfg.shared.backend sys).mediaKeys.isSome ↔ (cfg.shared.backend sys).appState = .running)) ∧
    (∀ cfg', Step (entry sys initialState) cfg cfg' → cfg'.shared ≠ cfg.shared →
      ∃ t th es, perform (entry sys initialState) cfg (.run t) = some cfg' ∧
        cfg.thread t = some th ∧ cfg.owner (.cdmBackend sys) = some t ∧
        cfg'.shared.journal = es ++ cfg.shared.journal ∧
        Tells sys th.call cfg.shared cfg'.shared es) ∧
    (∃ pending, Tally (dealtWith sys) (Call.request initialState) cfg pending) ∧
    (cfg.owner (.cdmBackend sys) = none →
      (∀ post mid pre, stages sys cfg.shared.journal =
          post ++ .notified .running :: (mid ++ .failed :: pre) → (∀ i, .created i ∉ mid) →
        ∃ rest, post = rest ++ [.failed] ∨ ∃ i, post = rest ++ [.created i]) ∧
      ((∃ r, (.initializeBackend, r) ∈ cfg.history) →
        .mediaKeysFailed sys ∉ cfg.shared.journal →
        .notified sys .unknown ∉ cfg.shared.journal →
        (cfg.shared.backend sys).appState =
          (Lifecycle.lastNotified (stages sys cfg.shared.journal)).getD initialState ∧
        ∀ rialtoThread, ReachesUnder (notifiedFrom rialtoThread · · = true) (entry sys initialState)
            (.idle (.start rialto keySystem mediaKeysFactory) []) cfg →
          (∀ th state, cfg.thread rialtoThread = some th → th.call ≠ .notifyApplicationState state) →
          (cfg.shared.backend sys).appState = (delivered cfg.history).head?.getD initialState)) := by
  have hg := (good_start rialto keySystem mediaKeysFactory).reaches sound h
  have hmade := made_and_initialized (good_start rialto keySystem mediaKeysFactory) h
    ⟨by simp [Config.idle, World.start], by simp [Config.idle, World.start]⟩
  have htally := tally_of_reaches (dealtWith sys) (Call.request initialState) rfl
    (entry_notes (R := R)) h
  refine ⟨fun hfree => ?_, fun cfg' hs hne => ?_, htally, fun hfree => ⟨?_, ?_⟩⟩
  · obtain ⟨l, hl, -⟩ := hg.free _ hfree rfl
    refine ⟨⟨l, hl⟩, ?_⟩
    rw [hl.mediaKeys, hl.appState]
    exact (Lifecycle.consistent hl.after).current
  · obtain ⟨t, ht⟩ := ((hg.step sound hs).2.resolve_left hne)
    obtain ⟨th, hth, hm⟩ := hg.run sound ht
    obtain ⟨hlock, -, hleaves, es, hj, hes⟩ := hm.resolve_left hne
    refine ⟨t, th, es, ht, hth, (hg.owner _ t).mpr ⟨th, hth, hlock⟩, hj, ?_⟩
    exact {
      forwarded := fun i call hmem => hes _ hmem rfl
      refused := fun call hmem => hes _ hmem rfl
      notified := fun state hmem => hes _ hmem rfl
      initialized := fun state hmem => (hes _ hmem rfl).1
      created := fun i hmem hold => by
        have := (hes _ hmem rfl).1
        have := hmade.1 i hold
        omega
      failed := fun hmem => hes _ hmem rfl
      leaves := hleaves }
  · intro post mid pre hst hmid
    obtain ⟨l, hl, hp⟩ := hg.free _ hfree rfl
    exact Lifecycle.attempt_after_failure (hst ▸ hl.after) hmid hp
  · rintro ⟨r, hret⟩ hfail hunknown
    obtain ⟨l, hl, hp⟩ := hg.free _ hfree rfl
    have hinit : Stage.initialized initialState ∈ stages sys cfg.shared.journal := by
      obtain ⟨pending, hpending⟩ := htally
      have hmem : Request.initialized initialState ∈ dealtWith sys cfg.shared :=
        hpending.perm.mem_iff.mpr (List.mem_append_right _ (List.mem_map.mpr ⟨_, hret, rfl⟩))
      obtain ⟨s, hs, he⟩ := mem_requests.mp hmem
      cases s <;> cases hs
      exact mem_stages.mpr he
    have he := Lifecycle.state_eq_expected initialState hl.after (fun hm => hfail (mem_stages.mp hm))
      (fun hm => hunknown (mem_stages.mp hm)) fun state hm => hmade.2 state (mem_stages.mp hm)
    rw [hp] at he
    have hstate : (cfg.shared.backend sys).appState =
        (Lifecycle.lastNotified (stages sys cfg.shared.journal)).getD initialState := by
      rw [hl.appState]
      simpa [Lifecycle.expected, hinit] using he
    refine ⟨hstate, fun rialtoThread hunder hidle => ?_⟩
    rw [hstate, lastNotified_eq_delivered hunder hidle]

/-- Thread 0 is notified that the application is running while thread 1 initializes
the backend as inactive, which waits for the mutex. -/
def race : List (Action (Fin 2) Call) :=
  [.call 0 (.notifyApplicationState .running), .call 1 .initializeBackend] ++
    List.replicate 8 (.run 0) ++ List.replicate 4 (.run 1)

def raceStart : Config (World Compliant) Mutex Condition (Fin 2) Call Bool :=
  .idle (.start .mk (fun _ => "widevine") fun _ => true) []

theorem race_possible : (follow (entry 0 .inactive) race raceStart).isSome = true := by decide

/-- A Rialto whose factory makes no instance when it is asked first. -/
inductive Reluctant
  | asleep
  | awake

instance : MediaKeys Reluctant where
  createMediaKeys
    | _, .asleep => (false, .awake)
    | _, .awake => (true, .awake)
  call _ call r := (⟨true, call.granted⟩, r)

/-- The application is notified twice; after each time, the other thread asks for the time. -/
def retrying : List (Action (Fin 2) Call) :=
  .call 1 .initializeBackend :: List.replicate 5 (.run 1) ++
  .call 0 (.notifyApplicationState .running) :: List.replicate 6 (.run 0) ++
  .call 1 (.operation 0 .getDrmTime) :: List.replicate 4 (.run 1) ++
  .call 0 (.notifyApplicationState .running) :: List.replicate 8 (.run 0) ++
  .call 1 (.operation 0 .getDrmTime) :: List.replicate 4 (.run 1)

def retryingStart : Config (World Reluctant) Mutex Condition (Fin 2) Call Bool :=
  .idle (.start .asleep (fun _ => "widevine") fun _ => true) []

/-- The second notification gets an instance, and the second question, which goes to it, an
answer. In the race the notification wins, though the backend was initialized after it. -/
theorem backend_follows_application_retrying :
    (∃ cfg, follow (entry 0 .inactive) retrying retryingStart = some cfg ∧
      cfg.history.map Prod.snd = [true, true, false, true, true] ∧
      (cfg.shared.backend 0).mediaKeys.isSome ∧ ∃ pending,
        Tally (dealtWith 0) (Call.request .inactive) cfg pending) ∧
    ∃ cfg, followUnder (notifiedFrom 0) (entry 0 .inactive) race raceStart = some cfg ∧
      (cfg.shared.backend 0).appState = .running := by
  constructor
  · have hf : (follow (entry 0 .inactive) retrying retryingStart).map (fun cfg =>
        (cfg.owner (.cdmBackend 0), (cfg.shared.backend 0).appState, cfg.history.map Prod.snd)) =
        some (none, .running, [true, true, false, true, true]) := by decide
    obtain ⟨cfg, hcfg, he⟩ := Option.map_eq_some_iff.mp hf
    simp only [Prod.mk.injEq] at he
    obtain ⟨hfree, hrunning, hreplies⟩ := he
    obtain ⟨hstate, -, htally, -⟩ := backend_follows_application 0 .inactive
      Reluctant.asleep (fun _ => "widevine") (fun _ => true) (reaches_of_follow hcfg)
    exact ⟨cfg, hcfg, hreplies, (hstate hfree).2.mpr hrunning, htally⟩
  · have hf : (followUnder (notifiedFrom 0) (entry 0 .inactive) race raceStart).map (fun cfg =>
        (cfg.owner (.cdmBackend 0), cfg.history, decide (.mediaKeysFailed 0 ∈ cfg.shared.journal),
          decide (.notified 0 .unknown ∈ cfg.shared.journal), (cfg.thread 0).isSome)) =
        some (none, [(.initializeBackend, true), (.notifyApplicationState .running, true)],
          false, false, false) := by decide
    obtain ⟨cfg, hcfg, he⟩ := Option.map_eq_some_iff.mp hf
    simp only [Prod.mk.injEq, decide_eq_false_iff_not] at he
    obtain ⟨hfree, hhistory, hfail, hunknown, hidle⟩ := he
    have hunder := reachesUnder_of_followUnder (fun _ _ _ h => h) hcfg
    obtain ⟨-, -, -, hagree⟩ := backend_follows_application 0 .inactive
      Compliant.mk (fun _ => "widevine") (fun _ => true) hunder.reaches
    obtain ⟨-, hlast⟩ := (hagree hfree).2 ⟨true, by simp [hhistory]⟩ hfail hunknown
    refine ⟨cfg, hcfg, (hlast 0 hunder fun th state ht => ?_).trans ?_⟩
    · rw [ht] at hidle
      cases hidle
    · rw [hhistory]
      rfl

end CdmBackend

end RialtoOcdm
