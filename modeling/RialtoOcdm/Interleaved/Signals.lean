import RialtoOcdm.Concurrency.Signals
import RialtoOcdm.Library.Calls

/-! The condition variables of the library, and how its code heeds them. A challenge is
stored, and the running state noted, under the mutex of those who wait for it, and with a
signal; only the initialization of a backend gives none. -/

namespace RialtoOcdm

open Concurrency Prog OpenCDMSessionPrivate Rialto

variable {R : Type}

/-- What is waited for. -/
def signals : Signals (World R) Mutex Condition where
  mutex
    | .running sys => .cdmBackend sys
    | .challenge a => .session a
  ready
    | .running sys, w => decide ((w.backend sys).appState = .running)
    | .challenge a, w => !(w.session a).challengeData.isEmpty

/-- Any call may wait for the running state, and one for a challenge. -/
def Call.Waits : Call → Condition → Prop
  | _, .running _ => True
  | .getChallengeData session .., .challenge a => session = some a
  | _, .challenge _ => False

/-- The call may reach the running state without a signal. -/
def Call.Excused : Call → Condition → Prop
  | .initializeBackend sys _, .running sys' => sys' = sys
  | _, _ => False

/-! ### Steps that make nothing ready -/

/-- Nothing is ready in `w'` that was not in `w`. -/
def Calm (w w' : World R) : Prop :=
  ∀ c, signals.ready c w' = true → signals.ready c w = true

namespace Calm

variable {w w' w'' : World R}

theorem refl (w : World R) : Calm w w := fun _ => id

theorem trans (h : Calm w w') (h' : Calm w' w'') : Calm w w'' := fun c hr => h c (h' c hr)

theorem of_eq (hb : ∀ sys, (w'.backend sys).appState = (w.backend sys).appState)
    (hs : ∀ a, (w'.session a).challengeData = (w.session a).challengeData ∨
      (w'.session a).challengeData = []) : Calm w w' := by
  intro c hr
  cases c with
  | running sys =>
    simp only [signals, hb] at hr ⊢
    exact hr
  | challenge a =>
    simp only [signals] at hr ⊢
    rcases hs a with he | he
    · rwa [he] at hr
    · simp [he] at hr

theorem record (e : Event) : Calm w (w.record e) := .of_eq (fun _ => rfl) fun _ => .inl rfl

theorem use (a : Addr) (m : Member) : Calm w (w.use a m) := .of_eq (fun _ => rfl) fun _ => .inl rfl

theorem updateSession {a : Addr} {f : Session → Session} (hf : ∀ s : Session,
    (f s).challengeData = s.challengeData ∨ (f s).challengeData = []) :
    Calm w (w.updateSession a f) := by
  refine .of_eq (fun _ => rfl) fun b => ?_
  simp only [World.session, World.heap_updateSession]
  split_ifs with hab
  · subst hab
    cases w.heap[a]? with
    | none => exact .inl rfl
    | some o => exact hf o.session
  · exact .inl rfl

theorem updateBackend {sys : SystemId} {f : CdmBackend → CdmBackend}
    (hf : (f (w.backend sys)).appState = (w.backend sys).appState ∨
      (f (w.backend sys)).appState ≠ .running) : Calm w (w.updateBackend sys f) := by
  intro c hr
  cases c with
  | running s =>
    by_cases hs : s = sys
    · subst hs
      rcases hf with hf | hf <;> simp_all [signals]
    · simpa [signals, hs] using hr
  | challenge a => exact hr

theorem allocate {a : Addr} {s : Session} (hs : s.challengeData = []) : Calm w (w.allocate a s) := by
  refine .of_eq (fun _ => rfl) fun b => ?_
  simp only [World.session, World.heap_allocate]
  split_ifs with hab
  · exact .inr hs
  · exact .inl rfl

theorem markDestroyed (a : Addr) (m : Member) : Calm w (w.markDestroyed a m) := by
  refine .of_eq (fun _ => rfl) fun b => ?_
  simp only [World.session, World.heap_markDestroyed]
  split_ifs with hab
  · subst hab
    cases w.heap[a]? <;> exact .inl rfl
  · exact .inl rfl

theorem free (a : Addr) : Calm w (w.free a) := by
  refine .of_eq (fun _ => rfl) fun b => ?_
  simp only [World.session, World.heap_free]
  split_ifs with hab
  · exact .inr rfl
  · exact .inl rfl

variable [MediaKeys R]

theorem ask {sys : SystemId} {call : MediaKeysCall} {store : ℕ → Answer call → World R → World R}
    (hs : ∀ i answer w, Calm w (store i answer w)) : Calm w (w.ask sys call store).2 :=
  World.ask_snd (p := Calm w) (.record _) fun i =>
    (show Calm w ((w.setRialto (MediaKeys.call i call w.rialto).2).record (.forwarded sys i call)) from
      .of_eq (fun _ => rfl) fun _ => .inl rfl).trans (hs i _ _)

end Calm

/-! ### Code that gives back its mutexes -/

variable {waits excused : Condition → Prop} {held : List Mutex} {α β : Type}

/-- The code of a function heeds the condition variables. -/
abbrev Attentive (waits excused : Condition → Prop) (held : List Mutex) (p : Code R α) : Prop :=
  p.Tidy signals waits excused held

theorem attentive_update {f : World R → β × World R} (hf : ∀ w, Calm w (f w).2) :
    Attentive waits excused held (.update f : Code R β) := .update fun c w => hf w c

theorem attentive_modify {f : World R → World R} (hf : ∀ w, Calm w (f w)) :
    Attentive waits excused held (.modify f : Code R Unit) := .modify fun c w => hf w c

theorem readMember_attentive (a : Addr) (m : Member) (f : Session → β) :
    Attentive waits excused held (readMember a m f : Code R β) :=
  attentive_update (f := fun w => (f (w.session a), w.use a m)) fun _ => .use a m

theorem writeMember_attentive {a : Addr} {m : Member} {f : Session → Session} (hf : ∀ s : Session,
    (f s).challengeData = s.challengeData ∨ (f s).challengeData = []) :
    Attentive waits excused held (writeMember a m f : Code R Unit) :=
  attentive_modify fun _ => (Calm.use a m).trans (.updateSession hf)

theorem note_attentive (a : Addr) (e : ℕ → Event) :
    Attentive waits excused held (note a e : Code R Unit) := attentive_modify fun _ => .record _

section Operations

variable [MediaKeys R]

/-! ### The backend -/

theorem forward_attentive {sys : SystemId} {call : MediaKeysCall}
    {store : ℕ → Answer call → World R → World R} (hs : ∀ i answer w, Calm w (store i answer w)) :
    Attentive waits excused held (CdmBackend.forward sys call store) :=
  .withLock (attentive_update fun _ => .ask hs)

theorem pass_attentive (sys : SystemId) (call : MediaKeysCall) :
    Attentive waits excused held (CdmBackend.pass sys call : Code R _) :=
  forward_attentive fun _ _ => .refl

omit [MediaKeys R] in
/-- An operation of the backend that only says whether its call worked. -/
theorem ok_attentive {call : MediaKeysCall} {p : Code R (Answer call)}
    (hp : Attentive waits excused held p) :
    Attentive waits excused held (do return (← p).ok) := hp.bind fun _ => .ret _

theorem getCdmKeySessionId_attentive (sys : SystemId) (id : Int32) (a : Addr) :
    Attentive waits excused held (CdmBackend.getCdmKeySessionId sys id a : Code R Bool) := by
  refine ok_attentive (forward_attentive fun i answer w => ?_)
  unfold CdmBackend.storeCdmKeySessionId
  cases answer.out with
  | none => exact .refl w
  | some id => exact (Calm.use a _).trans (.updateSession fun _ => .inl rfl)

omit [MediaKeys R] in
theorem calm_storeKeySessionId (a : Addr) {sessionType : KeySessionType} {isLDL : Bool} (i : ℕ)
    (answer : Answer (.createKeySession sessionType isLDL)) (w : World R) :
    Calm w (CdmBackend.storeKeySessionId a sessionType isLDL i answer w) := by
  unfold CdmBackend.storeKeySessionId
  have hid : ∀ id : Int32, Calm w ((w.use a .rialtoSessionId).updateSession a
      ({ · with rialtoSessionId := id })) := fun id =>
    (Calm.use a _).trans (.updateSession fun _ => .inl rfl)
  cases answer.out with
  | none =>
    dsimp only
    split_ifs
    · exact .record _
    · exact .refl w
  | some id =>
    dsimp only
    split_ifs
    · exact (hid id).trans (.record _)
    · exact hid id

theorem createKeySession_attentive (sys : SystemId) (hw : waits (.running sys))
    (sessionType : KeySessionType) (isLDL : Bool) (a : Addr) :
    Attentive waits excused held
      (CdmBackend.createKeySession sys sessionType isLDL a : Code R Bool) :=
  .withLock (m := .cdmBackend sys) (.bind (Tidy.wait (S := signals) (c := .running sys) hw true)
    fun _ => .bind (attentive_update fun _ => .ask (calm_storeKeySessionId a)) fun _ => .ret _)

omit [MediaKeys R] in
theorem calm_assignMediaKeys (sys : SystemId) (made : Bool) (w : World R) :
    Calm w (w.assignMediaKeys sys made) := by
  have hset : ∀ mediaKeys, Calm w (w.updateBackend sys ({ · with mediaKeys := mediaKeys })) :=
    fun _ => .updateBackend (.inl rfl)
  cases made with
  | true => exact (hset (some w.instances)).trans (.of_eq (fun _ => rfl) fun _ => .inl rfl)
  | false => exact (hset none).trans (.record _)

theorem createMediaKeys_attentive (sys : SystemId) :
    Attentive waits excused held (CdmBackend.createMediaKeys sys : Code R Bool) := by
  refine .bind .read fun w => ?_
  split_ifs
  · apply attentive_update
    intro w
    have hrialto : Calm w (w.setRialto (MediaKeys.createMediaKeys (w.backend sys).keySystem w.rialto).2) :=
      .of_eq (fun _ => rfl) fun _ => .inl rfl
    exact hrialto.trans (calm_assignMediaKeys sys _ _)
  · exact .bind (attentive_modify fun _ => .record _) fun _ => .ret _

omit [MediaKeys R] in
/-- A state that nobody waits for. -/
theorem setAppState_attentive (sys : SystemId) {state : ApplicationState} (hs : state ≠ .running) :
    Attentive waits excused held (CdmBackend.setAppState sys state : Code R Unit) :=
  attentive_modify fun _ => .updateBackend (.inr hs)

omit [MediaKeys R] in
/-- A backend whose state changes makes nothing else ready. -/
theorem ready_updateBackend {sys : SystemId} {f : CdmBackend → CdmBackend} {w : World R}
    {c : Condition} (hc : c ≠ .running sys) (hr : signals.ready c (w.updateBackend sys f) = true) :
    signals.ready c w = true := by
  cases c with
  | running s =>
    have hs : s ≠ sys := fun he => hc (by rw [he])
    simpa [signals, hs] using hr
  | challenge a => exact hr

/-- The one that waits for the running state is signalled. -/
theorem notifyApplicationState_attentive (sys : SystemId) (state : ApplicationState) :
    Attentive waits excused held (CdmBackend.notifyApplicationState sys state : Code R Unit) := by
  refine .withLock (.bind (attentive_update fun _ => .record _) fun appState => ?_)
  split_ifs with hsame hrunning
  · exact .ret _
  · refine .bind (createMediaKeys_attentive sys) fun made => ?_
    cases made with
    | false => exact .ret _
    | true =>
      exact Tidy.notify (S := signals) (c := Condition.running sys) List.mem_cons_self (Or.inl rfl)
        (fun _ _ => ready_updateBackend) rfl
  · exact .bind (attentive_modify fun _ => .updateBackend (.inl rfl)) fun _ =>
      setAppState_attentive sys hrunning

/-- Nobody is signalled. -/
theorem initializeBackend_attentive (sys : SystemId) (he : excused (.running sys))
    (state : ApplicationState) :
    Attentive waits excused held (CdmBackend.initializeBackend sys state : Code R Bool) := by
  have hset : ∀ state, Attentive waits excused (.cdmBackend sys :: held)
      (CdmBackend.setAppState sys state : Code R Unit) := fun state =>
    Tidy.excuse fun c w hc => ready_updateBackend fun hcs => hc (hcs ▸ he)
  refine .withLock (.bind (attentive_update fun _ => .record _) fun appState => ?_)
  split_ifs
  · exact .ret _
  · refine .bind (createMediaKeys_attentive sys) fun made => ?_
    cases made with
    | false => exact .ret _
    | true => exact .bind (hset _) fun _ => .ret _
  · exact .bind (hset _) fun _ => .ret _

/-! ### Sessions -/

theorem getLastDrmError_attentive (a : Addr) :
    Attentive waits excused held (getLastDrmError a : Code R UInt32) := by
  refine .bind (readMember_attentive _ _ _) fun cdm => ?_
  cases cdm with
  | none => exact .ret _
  | some cdm =>
    exact .bind (readMember_attentive _ _ _) fun id => .bind (pass_attentive _ _) fun _ => .ret _

theorem orLastDrmError_attentive (a : Addr) {p : Code R Bool} (hp : Attentive waits excused held p) :
    Attentive waits excused held (orLastDrmError a p) := by
  apply hp.bind
  intro ok
  cases ok with
  | true => exact .ret _
  | false => exact .bind (getLastDrmError_attentive a) fun _ => .ret _

omit [MediaKeys R] in
theorem onKeySessionWhere_attentive (a : Addr) {guard : Code R Bool}
    {p : SystemId → Int32 → Code R Bool} (hguard : Attentive waits excused held guard)
    (hp : ∀ cdm id, Attentive waits excused held (p cdm id)) :
    Attentive waits excused held (onKeySessionWhere a guard p) := by
  refine .bind (readMember_attentive _ _ _) fun cdm => ?_
  cases cdm with
  | none => exact .ret _
  | some cdm =>
    apply hguard.bind
    intro ok
    cases ok with
    | false => exact .ret _
    | true =>
      refine .bind (readMember_attentive _ _ _) fun id => ?_
      split_ifs
      · exact .bind (readMember_attentive _ _ _) fun id => hp cdm id
      · exact .ret _

omit [MediaKeys R] in
theorem onKeySession_attentive (a : Addr) {p : SystemId → Int32 → Code R Bool}
    (hp : ∀ cdm id, Attentive waits excused held (p cdm id)) :
    Attentive waits excused held (onKeySession a p) := onKeySessionWhere_attentive a (.ret _) hp

/-- An operation that passes one call on. -/
theorem operation_attentive (a : Addr) (call : Int32 → MediaKeysCall) :
    Attentive waits excused held (onKeySession a fun cdm id => do
      return (← CdmBackend.pass cdm (call id)).ok : Code R Bool) :=
  onKeySession_attentive a fun _ _ => ok_attentive (pass_attentive _ _)

/-- The same, and a failure is logged. -/
theorem loggedOperation_attentive (a : Addr) (call : Int32 → MediaKeysCall) :
    Attentive waits excused held (onKeySession a fun cdm id =>
      orLastDrmError a do return (← CdmBackend.pass cdm (call id)).ok : Code R Bool) :=
  onKeySession_attentive a fun _ _ => orLastDrmError_attentive a (ok_attentive (pass_attentive _ _))

omit [MediaKeys R] in
theorem addClient_attentive (sys : SystemId) (a : Addr) :
    Attentive waits excused held (MessageDispatcher.addClient sys a : Code R Unit) :=
  .withLock (attentive_modify fun _ => .of_eq (fun _ => rfl) fun _ => .inl rfl)

omit [MediaKeys R] in
theorem destroyClient_attentive (handle : MessageDispatcherClient) :
    Attentive waits excused held (MessageDispatcher.destroyClient handle : Code R Unit) :=
  .withLock (attentive_modify fun _ => .of_eq (fun _ => rfl) fun _ => .inl rfl)

omit [MediaKeys R] in
theorem assignClient_attentive (a : Addr) (handle : Option MessageDispatcherClient) :
    Attentive waits excused held (assignClient a handle : Code R Unit) := by
  have hset : ∀ w : World R, Calm w ((w.use a .messageDispatcherClient).updateSession a
      ({ · with messageDispatcherClient := handle })) := fun w =>
    (Calm.use a _).trans (.updateSession fun _ => .inl rfl)
  refine .bind (attentive_update fun w => hset w) fun old => ?_
  cases old with
  | none => exact .ret _
  | some old => exact destroyClient_attentive old

theorem initializeSession_attentive (hw : ∀ sys, waits (.running sys)) (a : Addr) (isLDL : Bool) :
    Attentive waits excused held (initializeSession a isLDL : Code R Bool) := by
  refine .bind (readMember_attentive _ _ _) fun cdm => ?_
  cases cdm with
  | none => exact .ret _
  | some cdm =>
    refine .bind (readMember_attentive _ _ _) fun sys => ?_
    cases sys with
    | none => exact .ret _
    | some sys =>
      refine .bind (readMember_attentive _ _ _) fun initialized => ?_
      cases initialized with
      | true => exact .ret _
      | false =>
        refine .bind (readMember_attentive _ _ _) fun sessionType => ?_
        refine .bind (orLastDrmError_attentive a (createKeySession_attentive cdm (hw cdm) _ _ _))
          fun ok => ?_
        cases ok with
        | false => exact .ret _
        | true =>
          refine .bind (.bind (addClient_attentive sys a) fun _ => .ret _) fun client => ?_
          exact .bind (assignClient_attentive a _) fun _ =>
            .bind (writeMember_attentive fun _ => .inl rfl) fun _ => .ret _

theorem initializeCdmKeySessionId_attentive (a : Addr) (cdm : SystemId) :
    Attentive waits excused held (initializeCdmKeySessionId a cdm : Code R Unit) := by
  have hlast : Attentive waits excused held (writeMember a .cdmKeySessionId
      ({ · with cdmKeySessionId := kDefaultSessionId }) : Code R Unit) :=
    writeMember_attentive fun _ => .inl rfl
  refine .bind (readMember_attentive _ _ _) fun id => ?_
  split_ifs
  · refine .bind (readMember_attentive _ _ _) fun id =>
      .bind (getCdmKeySessionId_attentive cdm id a) fun result => ?_
    dsimp only
    split_ifs
    · exact .ret _
    · exact hlast
  · exact hlast

theorem request_attentive (a : Addr) (cdm : SystemId) (id : Int32) (initDataType : InitDataType)
    (initData : Bytes) :
    Attentive waits excused held (request a cdm id initDataType initData : Code R Bool) := by
  refine .bind (orLastDrmError_attentive a (ok_attentive (pass_attentive cdm _))) fun ok => ?_
  cases ok with
  | true => exact .bind (initializeCdmKeySessionId_attentive a cdm) fun _ => .ret _
  | false => exact .ret _

theorem generateRequest_attentive (a : Addr) (initDataType : String) (initData : Bytes) :
    Attentive waits excused held (generateRequest a initDataType initData : Code R Bool) :=
  onKeySessionWhere_attentive a (.ret _) fun cdm id => request_attentive a cdm id _ _

theorem closeSession_attentive (a : Addr) :
    Attentive waits excused held (closeSession a : Code R Bool) := by
  refine onKeySession_attentive a fun cdm id => .bind (ok_attentive (pass_attentive cdm _)) fun ok => ?_
  cases ok with
  | false => exact .ret _
  | true =>
    refine .bind (note_attentive a _) fun _ => .bind (assignClient_attentive a none) fun _ => ?_
    refine .bind (attentive_modify fun w => ?_) fun _ =>
      .bind (writeMember_attentive fun _ => .inl rfl) fun _ => .ret _
    exact ((Calm.use a _).trans (.updateSession fun _ => .inr rfl)).trans (.record _)

theorem requestChallenge_attentive (a : Addr) :
    Attentive waits excused held (requestChallenge a : Code R Bool) :=
  onKeySessionWhere_attentive a (.bind (readMember_attentive _ _ _) fun _ => .ret _) fun cdm id =>
    .bind (readMember_attentive _ _ _) fun _ => .bind (readMember_attentive _ _ _) fun _ =>
      request_attentive a cdm id _ _

omit [MediaKeys R] in
theorem waitForChallenge_attentive (a : Addr) (hw : waits (.challenge a)) :
    Attentive waits excused held (waitForChallenge a : Code R Bytes) := by
  refine .bind (attentive_modify fun _ => .use a _) fun _ => .withLock (m := Mutex.session a) ?_
  refine .bind (attentive_modify fun _ => .use a _) fun _ => ?_
  refine .bind (Tidy.wait (S := signals) (c := .challenge a) hw false) fun _ => ?_
  exact readMember_attentive _ _ _

theorem getChallengeData_attentive (a : Addr) (hw : waits (.challenge a)) :
    Attentive waits excused held (getChallengeData a : Code R (Option Bytes)) := by
  refine .bind (requestChallenge_attentive a) fun ok => ?_
  cases ok with
  | false => exact .ret _
  | true => exact .bind (waitForChallenge_attentive a hw) fun _ => .ret _

end Operations

/-! ### Messages -/

theorem status_attentive (a : Addr) (key : Bytes) :
    Attentive waits excused held (status a key : Code R KeyStatus) := by
  refine .bind (readMember_attentive _ _ _) fun keyStatuses => ?_
  split <;> exact .ret _

theorem findSession_attentive (key : Bytes) (l : List (Addr × Int32)) :
    Attentive waits excused held (ActiveSessions.findSession key l : Code R _) := by
  induction l with
  | nil => exact .ret _
  | cons entry rest ih =>
    refine .bind (status_attentive _ _) fun s => ?_
    split_ifs
    · exact .ret _
    · exact ih

theorem calm_updateActiveSessions (f : Std.ExtTreeMap Addr Int32 → Std.ExtTreeMap Addr Int32)
    (w : World R) : Calm w (w.updateActiveSessions f) := .of_eq (fun _ => rfl) fun _ => .inl rfl

theorem get_attentive (key : Bytes) :
    Attentive waits excused held (ActiveSessions.get key : Code R (Option Addr)) := by
  refine .withLock (.bind .read fun w => .bind (findSession_attentive key _) fun found => ?_)
  cases found with
  | none => exact .ret _
  | some found =>
    exact .bind (attentive_modify fun _ => calm_updateActiveSessions _ _) fun _ => .ret _

theorem lookUp_attentive (lookups : Addr → Callback → List Bytes) (a : Addr) (callback : Callback) :
    Attentive waits excused held (lookUp lookups a callback : Code R Unit) :=
  .forM fun key => .bind (get_attentive key) fun _ => .ret _

section Messages

variable {lookups : Addr → Callback → List Bytes}

theorem invoke_attentive (a : Addr) (callback : Callback) :
    Attentive waits excused held (invoke (lookUp lookups) a callback : Code R Unit) :=
  .bind (note_attentive a _) fun _ => lookUp_attentive lookups a callback

/-- The one that waits for the challenge is signalled. -/
theorem updateChallenge_attentive (a : Addr) (challenge : Bytes) :
    Attentive waits excused held (updateChallenge a challenge : Code R Unit) := by
  refine .bind (attentive_modify fun _ => .use a _) fun _ => .withLock (m := Mutex.session a) ?_
  refine Tidy.notify (S := signals) (c := Condition.challenge a) List.mem_cons_self
    (fun _ => Or.inl rfl) (fun c w hc hr => ?_) ?_
  · -- the challenges of the other sessions stay
    cases c with
    | running sys => exact hr
    | challenge b =>
      have hb : b ≠ a := fun he => hc (by rw [he])
      simpa [signals, World.session, World.heap_updateSession, hb.symm] using hr
  · exact .bind (.ret _) fun _ => .bind (attentive_modify fun _ => .use a _) fun _ => rfl

theorem onLicenseMessage_attentive (a : Addr) (keySessionId : Int32) (message : Bytes)
    (url : String) : Attentive waits excused held
      (onLicenseMessage (lookUp lookups) a keySessionId message url : Code R Unit) := by
  refine .bind (readMember_attentive _ _ _) fun id => ?_
  split_ifs
  · refine .bind (updateChallenge_attentive a message) fun _ =>
      .bind (readMember_attentive _ _ _) fun callbacks => ?_
    split_ifs
    · exact .bind (readMember_attentive _ _ _) fun _ => invoke_attentive a _
    · exact .ret _
  · exact .ret _

theorem onKeyStatus_attentive (a : Addr) (keyStatus : Bytes × Rialto.KeyStatus) :
    Attentive waits excused held (onKeyStatus (lookUp lookups) a keyStatus : Code R Unit) :=
  .bind (writeMember_attentive fun _ => .inl rfl) fun _ =>
    .bind (readMember_attentive _ _ _) fun _ => invoke_attentive a _

theorem onKeyStatusesChanged_attentive (a : Addr) (keySessionId : Int32)
    (keyStatuses : List (Bytes × Rialto.KeyStatus)) : Attentive waits excused held
      (onKeyStatusesChanged (lookUp lookups) a keySessionId keyStatuses : Code R Unit) := by
  refine .bind (readMember_attentive _ _ _) fun id => ?_
  split_ifs
  · refine .bind (readMember_attentive _ _ _) fun callbacks => ?_
    have hall : Attentive waits excused held
        (keyStatuses.forM (onKeyStatus (lookUp lookups) a) : Code R Unit) :=
      .forM fun keyStatus => onKeyStatus_attentive a keyStatus
    split_ifs
    · exact hall.bind fun _ => .bind (readMember_attentive _ _ _) fun _ => invoke_attentive a _
    · exact hall.bind fun _ => .ret _
    · exact .ret _
  · exact .ret _

theorem deliver_attentive (sys : SystemId) (message : Message)
    (lookups : Addr → Callback → List Bytes) : Attentive waits excused held
      (MessageDispatcher.deliver (mediaKeysClient (lookUp lookups)) sys message : Code R Unit) := by
  rw [deliver_eq]
  refine .withLock (.bind (attentive_update fun _ => .record _) fun clients => .forM fun a => ?_)
  cases message with
  | licenseRequest id message url => exact onLicenseMessage_attentive a id message url
  | licenseRenewal id message => exact onLicenseMessage_attentive a id message ""
  | keyStatusesChanged id keyStatuses => exact onKeyStatusesChanged_attentive a id keyStatuses

end Messages

/-! ### The registry -/

theorem create_attentive (hint : Addr) (cdm messageDispatcher : Option SystemId)
    (sessionType : LicenseType) (callbacks : Option OpenCDMSessionCallbacks) (context : Addr)
    (initDataType : String) (initData : Bytes) : Attentive waits excused held
      (ActiveSessions.create hint cdm messageDispatcher sessionType callbacks context initDataType
        initData : Code R Addr) :=
  .withLock (.bind (attentive_update fun _ => .allocate rfl) fun _ =>
    .bind (attentive_modify fun _ => calm_updateActiveSessions _ _) fun _ => .ret _)

theorem destroyMember_attentive (a : Addr) (m : Member) :
    Attentive waits excused held (destroyMember a m : Code R PUnit) := by
  have hmark : Attentive waits excused held (.modify (·.markDestroyed a m) : Code R Unit) :=
    attentive_modify fun _ => .markDestroyed a m
  have hhandle : Attentive waits excused held (destroyHandle a : Code R Unit) := by
    refine .bind (attentive_update fun w => ?_) fun handle => ?_
    · dsimp only
      split_ifs
      · exact .record _
      · exact .refl w
    · cases handle with
      | none => exact .ret _
      | some handle => exact destroyClient_attentive handle
  unfold destroyMember
  split_ifs
  · exact hhandle.bind fun _ => hmark
  · exact hmark

theorem delete_attentive (a : Addr) : Attentive waits excused held (delete a : Code R Unit) :=
  .bind (note_attentive a _) fun _ => .bind (.forM fun m => destroyMember_attentive a m) fun _ =>
    attentive_modify fun _ => (Calm.free a).trans (.record _)

theorem remove_attentive (session : Option Addr) :
    Attentive waits excused held (ActiveSessions.remove session : Code R Unit) := by
  refine .withLock (.bind .read fun w => ?_)
  cases session with
  | none => exact .ret _
  | some a =>
    dsimp only
    cases w.activeSessions[a]? with
    | none => exact .ret _
    | some count =>
      refine .bind (attentive_modify fun _ => calm_updateActiveSessions _ _) fun _ => ?_
      split_ifs
      · exact .bind (delete_attentive a) fun _ =>
          attentive_modify fun _ => calm_updateActiveSessions _ _
      · exact .ret _

/-! ### The C interface -/

section Interface

variable [MediaKeys R]

omit [MediaKeys R] in
theorem onSession_attentive (session : Option Addr) (null : OpenCDMError)
    {op : Addr → Code R Bool} (hop : ∀ a, Attentive waits excused held (op a)) :
    Attentive waits excused held (onSession session null op) := by
  cases session with
  | none => exact .ret _
  | some a => exact .bind (hop a) fun _ => .ret _

theorem updateSession_attentive (a : Addr) (license : Bytes) :
    Attentive waits excused held (updateSession a license : Code R Bool) :=
  loggedOperation_attentive a (.updateSession · license)

theorem onLicense_attentive (session : Option Addr) (license : Option Bytes) :
    Attentive waits excused held (onLicense session license : Code R OpenCDMError) := by
  cases session with
  | none => exact .ret _
  | some a =>
    cases license with
    | none => exact .ret _
    | some license =>
      unfold onLicense
      dsimp only
      split_ifs
      · exact .ret _
      · exact .bind (updateSession_attentive a license) fun _ => .ret _

omit [MediaKeys R] in
theorem selectKeyId_attentive (a : Addr) (keyId : Bytes) :
    Attentive waits excused held (selectKeyId a keyId : Code R Bool) :=
  .bind (writeMember_attentive fun _ => .inl rfl) fun _ => .ret _

omit [MediaKeys R] in
theorem opencdmSessionSelectKeyId_attentive (session : Option Addr) (keyId : Option Bytes) :
    Attentive waits excused held (opencdmSessionSelectKeyId session keyId : Code R OpenCDMError) := by
  cases session with
  | none => exact .ret _
  | some a =>
    cases keyId with
    | none => exact .ret _
    | some key =>
      unfold opencdmSessionSelectKeyId
      dsimp only
      split_ifs
      · exact .ret _
      · exact .bind (selectKeyId_attentive a key) fun _ => .ret _

theorem operation_code_attentive (session : Option Addr) (op : Operation) :
    Attentive waits excused held (op.code session : Code R OpenCDMError) := by
  cases op with
  | close => exact onSession_attentive session _ closeSession_attentive
  | cleanDecryptContext => exact onSession_attentive session _ closeSession_attentive
  | load => exact onSession_attentive session _ fun a => loggedOperation_attentive a .loadSession
  | remove => exact onSession_attentive session _ fun a => operation_attentive a .removeKeySession
  | setDrmHeader drmHeader =>
    exact onSession_attentive session _ fun a => operation_attentive a (.setDrmHeader · drmHeader)
  | update keyMessage => exact onLicense_attentive session keyMessage
  | storeLicenseData licenseData => exact onLicense_attentive session licenseData
  | selectKeyId keyId => exact opencdmSessionSelectKeyId_attentive session keyId
  | systemError =>
    cases session with
    | none => exact .ret _
    | some a => exact .bind (getLastDrmError_attentive a) fun _ => .ret _
  | cancelChallengeData => exact .ret _

theorem opencdmSessionGetChallengeData_attentive (session : Option Addr)
    (hw : ∀ c, (Call.getChallengeData session true true 0).Waits c → waits c)
    (challenge challengeSize : Bool) (isLDL : UInt32) : Attentive waits excused held
      (opencdmSessionGetChallengeData session challenge challengeSize isLDL : Code R _) := by
  cases session with
  | none => exact .ret _
  | some a =>
    cases challengeSize with
    | false => exact .ret _
    | true =>
      refine .bind (initializeSession_attentive (fun sys => hw (.running sys) trivial) a _)
        fun ok => ?_
      cases ok with
      | false => exact .ret _
      | true =>
        refine .bind (getChallengeData_attentive a (hw (.challenge a) rfl)) fun read => ?_
        cases read <;> exact .ret _

theorem opencdmConstructSession_attentive (hw : ∀ sys, waits (.running sys)) (hint : Addr)
    (system : Option SystemId) (licenseType : LicenseType) (initDataType : String)
    (initData : Bytes) (callbacks : Option OpenCDMSessionCallbacks) (userData : Addr) :
    Attentive waits excused held (opencdmConstructSession hint system licenseType initDataType
      initData callbacks userData : Code R (OpenCDMError × Option Addr)) := by
  cases system with
  | none => exact .ret _
  | some sys =>
    refine .bind (create_attentive ..) fun a => .bind .read fun w => ?_
    have hremove : Attentive waits excused held (do
        ActiveSessions.remove (some a)
        return (.fail, none) : Code R (OpenCDMError × Option Addr)) :=
      .bind (remove_attentive (some a)) fun _ => .ret _
    split_ifs
    · exact .ret _
    · refine .bind (initializeSession_attentive hw a false) fun ok => ?_
      cases ok with
      | false => exact hremove
      | true =>
        refine .bind (generateRequest_attentive a initDataType initData) fun ok => ?_
        cases ok with
        | false => exact .bind (onSession_attentive _ _ closeSession_attentive) fun _ => hremove
        | true => exact .ret _

/-- Every call heeds the condition variables. -/
theorem entry_attentive (c : Call) : Attentive c.Waits c.Excused [] (entry c : Code R Reply) := by
  cases c with
  | constructSession =>
    exact .bind (opencdmConstructSession_attentive (fun _ => trivial) ..) fun _ => .ret _
  | destructSession session =>
    exact .bind (.bind (remove_attentive session) fun _ => .ret _) fun _ => .ret _
  | operation session op => exact .bind (operation_code_attentive session op) fun _ => .ret _
  | getChallengeData session challenge challengeSize isLDL =>
    refine .bind (opencdmSessionGetChallengeData_attentive session (fun c hc => ?_) ..)
      fun _ => .ret _
    cases c <;> exact hc
  | hasKeyId session keyId =>
    refine .bind ?_ fun _ => .ret _
    cases session with
    | none => exact .ret _
    | some a => exact .bind (operation_attentive a (.containsKey · keyId)) fun _ => .ret _
  | sessionStatus session keyId =>
    refine .bind ?_ fun _ => .ret _
    cases session with
    | none => exact .ret _
    | some a =>
      cases keyId with
      | none => exact .ret _
      | some key =>
        unfold opencdmSessionStatus
        dsimp only
        split_ifs
        · exact status_attentive a key
        · exact .ret _
  | sessionId session =>
    refine .bind ?_ fun _ => .ret _
    cases session with
    | none => exact .ret _
    | some a => exact .bind (.bind (readMember_attentive _ _ _) fun _ => .ret _) fun _ => .ret _
  | getSession keyId => exact .bind (get_attentive keyId) fun _ => .ret _
  | create => exact .bind (create_attentive ..) fun _ => .ret _
  | initializeSession a isLDL =>
    exact .bind (initializeSession_attentive (fun _ => trivial) a isLDL) fun _ => .ret _
  | generateRequest a initDataType initData =>
    exact .bind (generateRequest_attentive a initDataType initData) fun _ => .ret _
  | initializeBackend sys state =>
    have he : (Call.initializeBackend sys state).Excused (.running sys) := rfl
    exact .bind (initializeBackend_attentive sys he state) fun _ => .ret _
  | notifyApplicationState sys state =>
    exact .bind (notifyApplicationState_attentive sys state) fun _ => .ret _
  | deliver sys message lookups =>
    exact .bind (deliver_attentive sys message lookups) fun _ => .ret _

theorem entry_heeds (c : Call) : (entry c : Code R Reply).Heeds signals c.Waits c.Excused (fun _ _ => True) [] :=
  (entry_attentive c).mono fun _ _ _ => trivial

end Interface

end RialtoOcdm
