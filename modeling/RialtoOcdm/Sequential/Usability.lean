import RialtoOcdm.Sequential.Clients

/-! What `initialize` promises. It answers from a flag on every call but the first, and
the flag stays when the session closes its key session. -/

namespace RialtoOcdm

open Concurrency Prog OpenCDMSessionPrivate Rialto

variable {R : Type}

/-- The session at `a` hears the messages of `sys` for a key session that was created for
it and that it has not closed since. -/
structure Usable (w : World R) (a : Addr) (sys : SystemId) : Prop where
  client : a ∈ w.clients sys
  created : ∃ mediaKeys, .keySessionCreated (w.serial a) mediaKeys (w.session a).rialtoSessionId ∈ w.journal
  opened : openKeySession (w.serial a) w.journal = some (w.session a).rialtoSessionId

/-- An open key session was created. -/
theorem created_of_openKeySession {n : ℕ} {id : Int32} {journal : List Event}
    (h : openKeySession n journal = some id) : ∃ i, .keySessionCreated n i id ∈ journal := by
  induction journal with
  | nil => cases h
  | cons e es ih =>
    have hrest : openKeySession n es = some id → ∃ i, .keySessionCreated n i id ∈ e :: es := fun h =>
      (ih h).imp fun _ => List.mem_cons_of_mem e
    cases e with
    | keySessionCreated m i id' =>
      rw [openKeySession] at h
      split_ifs at h with hm
      · cases h
        exact ⟨i, by simp [hm]⟩
      · exact hrest h
    | keySessionClosed m | destructed a m =>
      rw [openKeySession] at h
      split_ifs at h
      exact hrest h
    | _ => exact hrest h

/-- A session is usable while it has a handle. -/
theorem Consistent.usable_iff {w : World R} (h : Consistent w) {a : Addr} {o : Object}
    (ho : w.heap[a]? = some o) {sys : SystemId} (hsys : o.session.messageDispatcher = some sys) :
    Usable w a sys ↔ o.session.messageDispatcherClient ≠ none := by
  have ht := h.object a o ho
  refine ⟨fun hu hnone => ?_, fun hsome => ?_⟩
  · have := (ht.clients sys).mp hu.client
    simp [hnone] at this
  · cases ht.registered with
    | no handle listening => exact absurd handle hsome
    | yes sys' dispatcher handle initialized listening =>
      rw [hsys, Option.some.injEq] at dispatcher
      subst dispatcher
      have hopen : openKeySession (w.serial a) w.journal = some (w.session a).rialtoSessionId := by
        rw [World.serial_of ho, World.session_of ho, ← (listening_alone o.serial w.journal).1]
        exact listening
      exact ⟨(ht.clients sys).mpr handle, created_of_openKeySession hopen, hopen⟩

/-- The session has had a key session, and closed it. -/
def Closed (n : ℕ) (journal : List Event) : Prop :=
  keySessionsOf n journal ≠ [] ∧ openKeySession n journal = none

/-- The flag stays when the handle is released. -/
theorem Consistent.closed_iff {w : World R} (h : Consistent w) {a : Addr} {o : Object}
    (ho : w.heap[a]? = some o) : Closed o.serial w.journal ↔
      o.session.isInitialized = true ∧ o.session.messageDispatcherClient = none := by
  have ht := h.object a o ho
  obtain ⟨hl, hk⟩ := listening_alone o.serial w.journal
  rw [Closed, ← hl, ← hk]
  have hkeys := ht.keySessions
  rw [World.alone] at hkeys
  rw [hkeys]
  cases ht.registered with
  | no handle listening =>
    rw [World.alone] at listening
    simp [handle, listening]
  | yes sys dispatcher handle initialized listening =>
    rw [World.alone] at listening
    simp [handle, listening]

variable [MediaKeys R]

/-- In every state of a sequential run, a call of `initialize` that answers true leaves a
usable session if and only if the session is not one that has closed its key session. -/
theorem initialize_usable_iff {x : Run (World R) Mutex Condition Reply} (hx : Reachable x) {a : Addr}
    {o : Object} (ho : x.shared.heap[a]? = some o) {cdm sys : SystemId}
    (hcdm : o.session.cdmBackend = some cdm) (hsys : o.session.messageDispatcher = some sys)
    {isLDL : Bool} {w' : World R}
    (hi : (initializeSession a isLDL).exec [] x.shared = .done true w') :
    Usable w' a sys ↔ ¬ Closed o.serial x.shared.journal := by
  have h := hx.consistent
  have hd := (h.object a o ho).destroyed
  have hens := (initializeSession_ensures still_tolerant (I := fun _ => True) (by simp) ho hd hcdm hsys
    (h.handle_eq_none ho) (by simp)).done hi
  have h' : Consistent w' := (initializeSession_orderly a isLDL _ h).done hi
  rw [h.closed_iff ho]
  cases hinit : o.session.isInitialized with
  | true =>
    rw [hinit] at hens
    rw [hens.2, h.usable_iff ho hsys]
    simp
  | false =>
    rw [hinit] at hens
    simp only [Bool.false_eq_true, if_false, if_true] at hens
    have ho' := askKeySession_heap ho cdm o.session.sessionType isLDL
    generalize (x.shared.askKeySession cdm a o.session.sessionType isLDL).1.out.getD
      o.session.rialtoSessionId = id at ho'
    have ho'' : w'.heap[a]? = some { o with session := { o.session with
        rialtoSessionId := id, messageDispatcherClient := some ⟨sys, a⟩, isInitialized := true } } := by
      simp [hens.2, World.join, ho']
    rw [h'.usable_iff ho'' hsys]
    simp

/-- A session that is made and initialized. -/
theorem initialize_usable_iff_sample :
    ∃ w', (initializeSession 7 false).exec [] sample.shared = .done true w' ∧ Usable w' 7 0 := by
  obtain ⟨o, ho, hcdm, hsys, hopen⟩ : ∃ o, sample.shared.heap[7]? = some o ∧
      o.session.cdmBackend = some 0 ∧ o.session.messageDispatcher = some 0 ∧
      openKeySession o.serial sample.shared.journal = some 7 := ⟨_, rfl, rfl, rfl, rfl⟩
  obtain ⟨w', hi⟩ : ∃ w', (initializeSession 7 false).exec [] sample.shared = .done true w' := ⟨_, rfl⟩
  refine ⟨w', hi, (initialize_usable_iff sample_reachable ho hcdm hsys hi).mpr fun h => ?_⟩
  rw [h.2] at hopen
  cases hopen

/-- The session of the sample is closed. -/
theorem closed_runs : (Run.callAll entry (sampleCalls ++ [.operation (some 7) .close])
    (World.start Compliant.mk (fun _ => "widevine") fun _ => true)).isSome = true := by decide

def closedSample : Run (World Compliant) Mutex Condition Reply :=
  ⟨(Run.callAll entry (sampleCalls ++ [.operation (some 7) .close]) _).get closed_runs, []⟩

/-- A closed session is initialized once more, and does not become a client. -/
theorem initialize_unusable :
    ¬ ∀ (x : Run (World Compliant) Mutex Condition Reply) (a : Addr) (o : Object) (cdm sys : SystemId)
        (isLDL : Bool) (w' : World Compliant), Reachable x → x.shared.heap[a]? = some o →
      o.session.cdmBackend = some cdm → o.session.messageDispatcher = some sys →
      (initializeSession a isLDL).exec [] x.shared = .done true w' → Usable w' a sys := by
  intro h
  have hx : Reachable closedSample := ⟨_, _, _, Run.reaches_of_callAll (Option.some_get closed_runs).symm⟩
  obtain ⟨o, ho, hcdm, hsys⟩ : ∃ o, closedSample.shared.heap[7]? = some o ∧
      o.session.cdmBackend = some 0 ∧ o.session.messageDispatcher = some 0 := ⟨_, rfl, rfl, rfl⟩
  obtain ⟨w', hi, hnot⟩ : ∃ w', (initializeSession 7 false).exec [] closedSample.shared = .done true w' ∧
      7 ∉ w'.clients 0 := ⟨_, rfl, by decide⟩
  exact hnot (h _ 7 o 0 0 false w' hx ho hcdm hsys hi).client

end RialtoOcdm
