import RialtoOcdm.Backend.Access
import RialtoOcdm.Backend.Atomicity

/-! A system among threads that initialize and notify its backend, use its key sessions and
query it. It answers as the access to Rialto that it is for. -/

namespace RialtoOcdm

open Concurrency Prog Rialto

namespace OpenCDMSystem

variable {R : Type} [MediaKeys R] {sys : SystemId}

/-- The code of a call of a system whose backend is `sys`. -/
def entry (system : {s : OpenCDMSystem // s.cdmBackend = some sys}) : SystemCall → Code R SystemReply
  | .initializeBackend initialState => do
    return .ok (← CdmBackend.initializeBackend sys initialState)
  | .notifyApplicationState state => do
    CdmBackend.notifyApplicationState sys state
    return .ok true
  | .operation a call => do return .ok (← CdmBackend.operation sys a call)
  | .getDrmTime => do return .time (← opencdmSystemGetDrmTime (some system.1) true)
  | .getLdlSessionLimit => do
    return .limit (← opencdmSystemExtGetLdlSessionLimit (some system.1) true)
  | .getKeyStoreHash keyStoreHash length => do
    return .hash (← opencdmGetKeyStoreHashExt (some system.1) keyStoreHash length)
  | .getSecureStoreHash secureStoreHash length => do
    return .hash (← opencdmGetSecureStoreHashExt (some system.1) secureStoreHash length)
  | .deleteKeyStore => do return .error (← opencdmDeleteKeyStore (some system.1))
  | .deleteSecureStore => do return .error (← opencdmDeleteSecureStore (some system.1))

variable {system : {s : OpenCDMSystem // s.cdmBackend = some sys}}

omit [MediaKeys R] in
theorem onBackend_eq {call : MediaKeysCall} (p : SystemId → Code R (Answer call)) :
    OpenCDMSystemPrivate.onBackend system.1 p = p sys := by
  simp [OpenCDMSystemPrivate.onBackend, system.2]

theorem getKeyStoreHash_eq (array : Bytes) (length : {n : UInt32 // n ≠ 0}) :
    (opencdmGetKeyStoreHashExt (some system.1) array length : Code R _) = do
      let answer ← CdmBackend.getKeyStoreHash sys
      return copyHash array length answer.ok (answer.out.getD []) := by
  simp only [opencdmGetKeyStoreHashExt, if_neg length.2, OpenCDMSystemPrivate.getKeyStoreHash, onBackend_eq]

theorem getSecureStoreHash_eq (array : Bytes) (length : {n : UInt32 // n ≠ 0}) :
    (opencdmGetSecureStoreHashExt (some system.1) array length : Code R _) = do
      let answer ← CdmBackend.getDrmStoreHash sys
      return copyHash array length answer.ok (answer.out.getD []) := by
  simp only [opencdmGetSecureStoreHashExt, if_neg length.2, OpenCDMSystemPrivate.getDrmStoreHash, onBackend_eq]

theorem deleteKeyStore_eq : OpenCDMSystemPrivate.deleteKeyStore system.1 =
    (CdmBackend.deleteKeyStore sys : Code R Bool) := by
  simp [OpenCDMSystemPrivate.deleteKeyStore, system.2]

theorem deleteDrmStore_eq : OpenCDMSystemPrivate.deleteDrmStore system.1 =
    (CdmBackend.deleteDrmStore sys : Code R Bool) := by
  simp [OpenCDMSystemPrivate.deleteDrmStore, system.2]

/-- Every call does its work in one critical section of the backend. -/
theorem entry_monitor (c : SystemCall) : (entry system c : Code R SystemReply).Monitor (.cdmBackend sys) := by
  have hpass : ∀ call, (CdmBackend.pass sys call : Code R (Answer call)).Monitor (.cdmBackend sys) :=
    fun call => CdmBackend.forward_monitor
  cases c with
  | initializeBackend initialState => exact CdmBackend.initializeBackend_monitor.answer _
  | notifyApplicationState state => exact (CdmBackend.notifyApplicationState_monitor state).answer _
  | operation a call => exact (CdmBackend.operation_monitor a call).answer _
  | getDrmTime =>
    simp only [entry, opencdmSystemGetDrmTime, OpenCDMSystemPrivate.getDrmTime, onBackend_eq]
    exact ((hpass _).answer _).answer _
  | getLdlSessionLimit =>
    simp only [entry, opencdmSystemExtGetLdlSessionLimit, OpenCDMSystemPrivate.getLdlSessionsLimit, onBackend_eq]
    exact ((hpass _).answer _).answer _
  | getKeyStoreHash array length =>
    simp only [entry, getKeyStoreHash_eq]
    exact ((hpass _).answer _).answer _
  | getSecureStoreHash array length =>
    simp only [entry, getSecureStoreHash_eq]
    exact ((hpass _).answer _).answer _
  | deleteKeyStore =>
    simp only [entry, opencdmDeleteKeyStore, deleteKeyStore_eq]
    exact (((hpass _).answer _).answer _).answer _
  | deleteSecureStore =>
    simp only [entry, opencdmDeleteSecureStore, deleteDrmStore_eq]
    exact (((hpass _).answer _).answer _).answer _

/-! ### Calls one at a time -/

/-- The backend of a system, as an access. -/
structure Stands (sys : SystemId) (keySystem : String) (mediaKeysFactory : Bool) (w : World R)
    (s : Access R) : Prop where
  rialto : w.rialto = s.rialto
  instances : w.instances = s.instances
  backend : w.backend sys = ⟨s.appState, keySystem, mediaKeysFactory, s.mediaKeys⟩

variable {keySystem : String} {mediaKeysFactory : Bool} {w w' : World R} {s : Access R}

omit [MediaKeys R] in
theorem Stands.same (h : Stands sys keySystem mediaKeysFactory w s) (hrialto : w'.rialto = w.rialto)
    (hinstances : w'.instances = w.instances) (hbackend : w'.backend = w.backend) :
    Stands sys keySystem mediaKeysFactory w' s :=
  ⟨hrialto.trans h.rialto, hinstances.trans h.instances, hbackend ▸ h.backend⟩

theorem Stands.ask (h : Stands sys keySystem mediaKeysFactory w s) (call : MediaKeysCall)
    {store : ℕ → Answer call → World R → World R}
    (hstore : ∀ i answer w, (store i answer w).rialto = w.rialto ∧
      (store i answer w).instances = w.instances ∧ (store i answer w).backend = w.backend) :
    (w.ask sys call store).1 = (s.ask call).1 ∧
      Stands sys keySystem mediaKeysFactory (w.ask sys call store).2 (s.ask call).2 := by
  unfold World.ask Access.ask
  rw [h.backend, h.rialto]
  cases hm : s.mediaKeys with
  | none => exact ⟨rfl, h.same rfl rfl rfl⟩
  | some i =>
    obtain ⟨hrialto, hinstances, hbackend⟩ := hstore i (MediaKeys.call i call s.rialto).1
      ((w.setRialto (MediaKeys.call i call s.rialto).2).record (.forwarded sys i call))
    refine ⟨rfl, hrialto, hinstances.trans h.instances, ?_⟩
    dsimp only
    rw [hbackend, ← hm]
    exact h.backend

theorem pass_stands (h : Stands sys keySystem mediaKeysFactory w s) (call : MediaKeysCall) :
    (CdmBackend.pass sys call).Ensures (fun _ => False) [] (fun answer w' =>
      answer = (s.ask call).1 ∧ Stands sys keySystem mediaKeysFactory w' (s.ask call).2) w := by
  apply Ensures.withLock (by simp)
  rw [ensures_update]
  exact h.ask call fun _ _ _ => ⟨rfl, rfl, rfl⟩

omit [MediaKeys R] in
theorem Stands.setAppState (h : Stands sys keySystem mediaKeysFactory w s) (state : ApplicationState) :
    Stands sys keySystem mediaKeysFactory (w.updateBackend sys ({ · with appState := state }))
      { s with appState := state } :=
  ⟨h.rialto, h.instances, by simp [h.backend]⟩

omit [MediaKeys R] in
/-- The state that is to be set is the one that is entered. -/
theorem Stands.entered (s' : Access R) {state : ApplicationState}
    (h : Stands sys keySystem mediaKeysFactory w { s' with appState := state }) (hs : s'.appState = state) :
    Stands sys keySystem mediaKeysFactory w s' := by
  subst hs
  exact h

/-- Asking for an instance does what entering the running state does but for the state. -/
theorem createMediaKeys_stands (h : Stands sys keySystem mediaKeysFactory w s) (hnone : s.mediaKeys = none)
    {held : List Mutex} : (CdmBackend.createMediaKeys sys).Ensures (fun _ => False) held
      (fun made w' => made = (s.enter keySystem mediaKeysFactory .running).1 ∧
        Stands sys keySystem mediaKeysFactory w'
          { (s.enter keySystem mediaKeysFactory .running).2 with appState := s.appState }) w := by
  unfold CdmBackend.createMediaKeys Access.enter
  rw [if_pos rfl, read_bind, ensures_act, h.backend]
  cases mediaKeysFactory with
  | false => exact ⟨rfl, rfl, h.same rfl rfl rfl⟩
  | true =>
    obtain ⟨made, rialto, hc⟩ : ∃ made rialto, MediaKeys.createMediaKeys keySystem s.rialto =
      (made, rialto) := ⟨_, _, rfl⟩
    have hmade : w.createMediaKeys sys = (made, (w.setRialto rialto).assignMediaKeys sys made) := by
      simp [World.createMediaKeys, h.backend, h.rialto, hc]
    rw [if_pos rfl, ensures_update, id_eq, hmade]
    cases made with
    | false =>
      rw [if_pos rfl, hc]
      exact ⟨rfl, rfl, h.instances, by simp [World.assignMediaKeys, h.backend, hnone]⟩
    | true =>
      rw [if_pos rfl, hc]
      refine ⟨rfl, rfl, congrArg (· + 1) h.instances, ?_⟩
      simp [World.assignMediaKeys, h.backend, h.instances]

theorem initializeBackend_stands (h : Stands sys keySystem mediaKeysFactory w s) (hopen : s.Open)
    (initialState : ApplicationState) : (CdmBackend.initializeBackend sys initialState).Ensures
      (fun _ => False) [] (fun ok w' => ok = (s.settle keySystem mediaKeysFactory initialState).1 ∧
        Stands sys keySystem mediaKeysFactory w'
          (s.settle keySystem mediaKeysFactory initialState).2) w := by
  apply Ensures.withLock (by simp)
  rw [update_bind, ensures_act]
  have hnoted : Stands sys keySystem mediaKeysFactory (w.record (.initialized sys initialState)) s :=
    h.same rfl rfl rfl
  unfold Access.settle
  by_cases hunknown : s.appState = .unknown
  · have hnone := hopen.none (by simp [hunknown])
    rw [if_neg (by simp [h.backend, hunknown]), if_pos hunknown]
    by_cases hrunning : initialState = .running
    · subst hrunning
      rw [if_pos rfl]
      refine Ensures.bind ((createMediaKeys_stands hnoted hnone).mono ?_)
      rintro made w' ⟨hmade, hw'⟩
      let s' := (s.enter keySystem mediaKeysFactory .running).2
      have hstate := s.enter_running_appState keySystem mediaKeysFactory
      rw [← hmade] at hstate ⊢
      cases made with
      | false => exact ⟨rfl, rfl, hw'.entered s' hstate⟩
      | true => exact ⟨rfl, rfl, (hw'.setAppState .running).entered s' hstate⟩
    · rw [if_neg hrunning]
      have henter : s.enter keySystem mediaKeysFactory initialState =
          (true, { s with appState := initialState }) := by
        simp [Access.enter, hrunning, ← hnone]
      rw [henter]
      exact ⟨rfl, rfl, hnoted.setAppState initialState⟩
  · rw [if_pos (by simpa [h.backend] using hunknown), if_neg hunknown]
    exact ⟨rfl, rfl, hnoted⟩

theorem notifyApplicationState_stands (h : Stands sys keySystem mediaKeysFactory w s) (hopen : s.Open)
    (state : ApplicationState) : (CdmBackend.notifyApplicationState sys state).Ensures (fun _ => False) []
      (fun _ w' => Stands sys keySystem mediaKeysFactory w'
        (s.notify keySystem mediaKeysFactory state)) w := by
  apply Ensures.withLock (by simp)
  rw [update_bind, ensures_act]
  have hnoted : Stands sys keySystem mediaKeysFactory (w.record (.notified sys state)) s :=
    h.same rfl rfl rfl
  unfold Access.notify
  by_cases hsame : state = s.appState
  · rw [if_pos (by simp [h.backend, hsame]), if_pos hsame]
    exact ⟨rfl, hnoted⟩
  · rw [if_neg (by simpa [h.backend] using hsame), if_neg hsame]
    by_cases hrunning : state = .running
    · subst hrunning
      have hnone := hopen.none (Ne.symm hsame)
      rw [if_pos rfl]
      refine Ensures.bind ((createMediaKeys_stands hnoted hnone).mono ?_)
      rintro made w' ⟨hmade, hw'⟩
      let s' := (s.enter keySystem mediaKeysFactory .running).2
      have hstate := s.enter_running_appState keySystem mediaKeysFactory
      rw [← hmade] at hstate
      cases made with
      | false => exact ⟨rfl, hw'.entered s' hstate⟩
      | true => exact ⟨rfl, (hw'.setAppState .running).entered s' hstate⟩
    · have henter : s.enter keySystem mediaKeysFactory state =
          (true, { s with appState := state, mediaKeys := none }) := by
        simp [Access.enter, hrunning]
      rw [if_neg hrunning, henter]
      exact ⟨rfl, h.rialto, h.instances, by simp [h.backend]⟩

omit [MediaKeys R] in
theorem storeCdmKeySessionId_keeps (a : Addr) (id : Int32) (answer : Answer (.getCdmKeySessionId id))
    (w : World R) : (CdmBackend.storeCdmKeySessionId a id answer w).rialto = w.rialto ∧
      (CdmBackend.storeCdmKeySessionId a id answer w).instances = w.instances ∧
      (CdmBackend.storeCdmKeySessionId a id answer w).backend = w.backend := by
  unfold CdmBackend.storeCdmKeySessionId
  split <;> exact ⟨rfl, rfl, rfl⟩

omit [MediaKeys R] in
theorem storeKeySessionId_keeps (a : Addr) (sessionType : KeySessionType) (isLDL : Bool) (i : ℕ)
    (answer : Answer (.createKeySession sessionType isLDL)) (w : World R) :
    (CdmBackend.storeKeySessionId a sessionType isLDL i answer w).rialto = w.rialto ∧
      (CdmBackend.storeKeySessionId a sessionType isLDL i answer w).instances = w.instances ∧
      (CdmBackend.storeKeySessionId a sessionType isLDL i answer w).backend = w.backend := by
  unfold CdmBackend.storeKeySessionId
  dsimp only
  split_ifs <;> split <;> exact ⟨rfl, rfl, rfl⟩

/-- What is made of the answer of a call that is passed on. -/
theorem pass_answer_stands {α : Type} (h : Stands sys keySystem mediaKeysFactory w s)
    (call : MediaKeysCall) (f : Answer call → α) :
    (CdmBackend.pass sys call >>= fun answer => (.ret (f answer) : Code R α)).Ensures (fun _ => False) []
      (fun r w' => r = f (s.ask call).1 ∧ Stands sys keySystem mediaKeysFactory w' (s.ask call).2) w := by
  refine Ensures.bind ((pass_stands h call).mono ?_)
  rintro answer w' ⟨rfl, hw'⟩
  exact ⟨rfl, rfl, hw'⟩

theorem operation_stands (h : Stands sys keySystem mediaKeysFactory w s) (a : Addr) (call : MediaKeysCall) :
    (CdmBackend.operation sys a call).Ensures (fun _ => False) [] (fun ok w' =>
      ok = (s.ask call).1.ok ∧ Stands sys keySystem mediaKeysFactory w' (s.ask call).2) w := by
  cases call with
  | createKeySession sessionType isLDL =>
    refine Ensures.withLock (by simp) (Ensures.bind ?_)
    rw [ensures_awaitFor, update_bind, ensures_act]
    obtain ⟨hanswer, hw'⟩ := h.ask (.createKeySession sessionType isLDL)
      (storeKeySessionId_keeps a sessionType isLDL)
    exact ⟨rfl, congrArg Answer.ok hanswer, hw'⟩
  | getCdmKeySessionId id =>
    refine Ensures.bind (Ensures.withLock (by simp) ?_)
    rw [ensures_update]
    obtain ⟨hanswer, hw'⟩ := h.ask (.getCdmKeySessionId id)
      fun _ => storeCdmKeySessionId_keeps a id
    exact ⟨rfl, congrArg Answer.ok hanswer, hw'⟩
  | _ => exact pass_answer_stands h _ Answer.ok

/-- A call does what it would do to the access. -/
theorem entry_stands (h : Stands sys keySystem mediaKeysFactory w s) (hopen : s.Open) (c : SystemCall) :
    (entry system c).Ensures (fun _ => False) [] (fun r w' =>
      r = (s.next keySystem mediaKeysFactory c).1 ∧
      Stands sys keySystem mediaKeysFactory w' (s.next keySystem mediaKeysFactory c).2) w := by
  cases c with
  | initializeBackend initialState =>
    refine Ensures.bind ((initializeBackend_stands h hopen initialState).mono ?_)
    rintro ok w' ⟨rfl, hw'⟩
    exact ⟨rfl, rfl, hw'⟩
  | notifyApplicationState state =>
    refine Ensures.bind ((notifyApplicationState_stands h hopen state).mono ?_)
    exact fun _ w' hw' => ⟨rfl, rfl, hw'⟩
  | operation a call =>
    refine Ensures.bind ((operation_stands h a call).mono ?_)
    rintro ok w' ⟨rfl, hw'⟩
    exact ⟨rfl, rfl, hw'⟩
  | getDrmTime =>
    simp only [entry, opencdmSystemGetDrmTime, OpenCDMSystemPrivate.getDrmTime, onBackend_eq]
    exact pass_answer_stands h .getDrmTime fun answer => SystemReply.time (errorOf answer.ok, answer.out)
  | getLdlSessionLimit =>
    simp only [entry, opencdmSystemExtGetLdlSessionLimit, OpenCDMSystemPrivate.getLdlSessionsLimit, onBackend_eq]
    exact pass_answer_stands h .getLdlSessionsLimit fun answer =>
      SystemReply.limit (errorOf answer.ok, answer.out)
  | getKeyStoreHash array length =>
    simp only [entry, getKeyStoreHash_eq]
    exact pass_answer_stands h .getKeyStoreHash fun answer =>
      SystemReply.hash (copyHash array length answer.ok (answer.out.getD []))
  | getSecureStoreHash array length =>
    simp only [entry, getSecureStoreHash_eq]
    exact pass_answer_stands h .getDrmStoreHash fun answer =>
      SystemReply.hash (copyHash array length answer.ok (answer.out.getD []))
  | deleteKeyStore =>
    simp only [entry, opencdmDeleteKeyStore, deleteKeyStore_eq]
    exact pass_answer_stands h .deleteKeyStore fun answer => SystemReply.error (errorOf answer.ok)
  | deleteSecureStore =>
    simp only [entry, opencdmDeleteSecureStore, deleteDrmStore_eq]
    exact pass_answer_stands h .deleteDrmStore fun answer => SystemReply.error (errorOf answer.ok)

/-- Calls one at a time answer as the access does. -/
theorem answers_of_replay {w₀ : World R} (h : Stands sys keySystem mediaKeysFactory w₀ s) (hopen : s.Open)
    {order : List (SystemCall × SystemReply)} (hr : Replay (entry system) w₀ order w) :
    s.Answers keySystem mediaKeysFactory order ∧
      Stands sys keySystem mediaKeysFactory w (s.after keySystem mediaKeysFactory order) := by
  induction order generalizing w with
  | nil =>
    obtain rfl := hr
    exact ⟨trivial, h⟩
  | cons e order ih =>
    obtain ⟨w', hreplay, he⟩ := hr
    obtain ⟨hanswers, hw'⟩ := ih hreplay
    obtain ⟨hanswer, hw⟩ := (entry_stands hw' (hopen.after order) e.1).done he
    exact ⟨⟨hanswer, hanswers⟩, hw⟩

/-- The backend of a system as an access. -/
def access (sys : SystemId) (w : World R) : Access R :=
  ⟨w.rialto, w.instances, (w.backend sys).appState, (w.backend sys).mediaKeys⟩

omit [MediaKeys R] in
theorem Stands.access_eq (h : Stands sys keySystem mediaKeysFactory w s) : access sys w = s := by
  rw [access, h.rialto, h.instances, h.backend]

omit [MediaKeys R] in
theorem Stands.setRialto (h : Stands sys keySystem mediaKeysFactory w s) (rialto : R) :
    Stands sys keySystem mediaKeysFactory (w.setRialto rialto) { s with rialto := rialto } :=
  ⟨rfl, h.instances, h.backend⟩

/-- A system has the backend that it was made with, which is an access that is open if it
should be. -/
theorem construct_open [Control R] (h : Stands sys keySystem mediaKeysFactory w s) (hopen : s.Open)
    (metadata : String) (messageDispatcher : Option SystemId) :
    (OpenCDMSystemPrivate.construct keySystem metadata messageDispatcher (some sys)).Ensures (fun _ => False)
      [] (fun system w' => system.cdmBackend = some sys ∧ (access sys w').Open) w := by
  unfold OpenCDMSystemPrivate.construct
  rw [update_bind, ensures_act]
  have hcontrol := h.setRialto (Control.createControl w.rialto).2
  split
  · next control cdm hmade hcdm =>
    obtain rfl : sys = cdm := Option.some.inj hcdm
    let s' : Access R :=
      { s with rialto := (Control.registerClient sys (Control.createControl w.rialto).2).2 }
    have hopen' : s'.Open := hopen
    have hregistered := hcontrol.setRialto s'.rialto
    rw [update_bind, ensures_act]
    refine Ensures.bind ((initializeBackend_stands hregistered hopen' _).mono ?_)
    rintro ok w' ⟨-, hw'⟩
    refine ⟨rfl, rfl, ?_⟩
    rw [hw'.access_eq]
    exact hopen'.settle _
  · refine ⟨rfl, rfl, ?_⟩
    rw [hcontrol.access_eq]
    exact hopen

theorem createSystem_open [Control R] (sys : SystemId) (keySystem metadata : String) (w : World R) :
    (createSystem sys keySystem metadata).Ensures (fun _ => False) []
      (fun system w' => system.cdmBackend = some sys ∧ (access sys w').Open) w := by
  unfold createSystem
  rw [modify_bind, ensures_act, modify_bind, ensures_act]
  refine construct_open (s := ⟨_, _, .unknown, none⟩) ⟨rfl, rfl, by simp; rfl⟩ ?_ metadata (some sys)
  simp [Access.Open]

theorem opencdmCreateSystem_open [Control R] (sys : SystemId) (keySystem : String) (w : World R) :
    (opencdmCreateSystem sys keySystem).Ensures (fun _ => False) []
      (fun system w' => system.cdmBackend = some sys ∧ (access sys w').Open) w := by
  refine Ensures.bind (Ensures.bind ((createSystem_open sys keySystem "" w).mono ?_))
  exact fun _ _ hopen => ⟨rfl, rfl, hopen⟩

/-! ### All interleavings -/

variable {ι : Type} [DecidableEq ι] [Fintype ι]

/-- The calls are answered in this order: by an access, which worked for none that was called
while the application was not running, and copied hashes as a whole. -/
structure AnsweredInOrder (system : {s : OpenCDMSystem // s.cdmBackend = some sys}) (w : World R)
    (cfg : Config (World R) Mutex Condition ι SystemCall SystemReply)
    (order : List (SystemCall × SystemReply)) : Prop where
  explains : Concurrency.Explains (entry system) (.cdmBackend sys) w cfg order
  answers : (access sys w).Answers (w.backend sys).keySystem (w.backend sys).mediaKeysFactory order
  state : cfg.owner (.cdmBackend sys) = none → access sys cfg.shared =
    (access sys w).after (w.backend sys).keySystem (w.backend sys).mediaKeysFactory order
  running : ∀ c r before, (c, r) :: before <:+ order → c.Asks → r.Works → ((access sys w).after
    (w.backend sys).keySystem (w.backend sys).mediaKeysFactory before).appState = .running
  copied : ∀ array (length : {n : UInt32 // n ≠ 0}) reply,
    (.getKeyStoreHash array length, .hash reply) ∈ order ∨
      (.getSecureStoreHash array length, .hash reply) ∈ order → Copied array length reply

variable {cfg : Config (World R) Mutex Condition ι SystemCall SystemReply}
  {order : List (SystemCall × SystemReply)}

omit [DecidableEq ι] [Fintype ι] in
theorem AnsweredInOrder.of_explains (hw : (access sys w).Open)
    (h : Concurrency.Explains (entry system) (.cdmBackend sys) w cfg order) :
    AnsweredInOrder system w cfg order := by
  have hstands : Stands sys (w.backend sys).keySystem (w.backend sys).mediaKeysFactory w (access sys w) :=
    ⟨rfl, rfl, rfl⟩
  obtain ⟨w', hreplay, hfree⟩ := h.replay
  obtain ⟨hanswers, hw'⟩ := answers_of_replay hstands hw hreplay
  refine ⟨h, hanswers, fun howner => ?_, fun c r before hsuffix hc hr => ?_, fun array length reply hmem => ?_⟩
  · rw [hfree howner, hw'.access_eq]
  · obtain ⟨rfl, -⟩ := hanswers.of_suffix hsuffix
    exact Access.running_of_works (hw.after before) hc hr
  · rcases hmem with hmem | hmem
    · obtain ⟨post, before, rfl⟩ := List.append_of_mem hmem
      obtain ⟨he, -⟩ := hanswers.of_suffix (List.suffix_append post _)
      rw [SystemReply.hash.inj he]
      exact Access.copied_of_copyHash array length _ _
    · obtain ⟨post, before, rfl⟩ := List.append_of_mem hmem
      obtain ⟨he, -⟩ := hanswers.of_suffix (List.suffix_append post _)
      rw [SystemReply.hash.inj he]
      exact Access.copied_of_copyHash array length _ _

/-- Whatever threads do with a system: along every run one order of the calls grows, each of which
takes its place in it between its call and its return, and in which an access to Rialto
answers them as they are answered. -/
theorem system_answers (system : {s : OpenCDMSystem // s.cdmBackend = some sys}) (w : World R)
    (hw : (access sys w).Open) {run : ℕ → Config (World R) Mutex Condition ι SystemCall SystemReply}
    (hrun : IsRun (entry system) run) (hstart : run 0 = .idle w []) :
    ∃ order : ℕ → List (SystemCall × SystemReply),
      (∀ n, AnsweredInOrder system w (run n) (order n)) ∧ ∀ n, order n <:+ order (n + 1) := by
  obtain ⟨order, hexplains, hgrows⟩ := linearizable_of_monitor entry_monitor hrun hstart
  exact ⟨order, fun n => .of_explains hw (hexplains n), hgrows⟩

instance : Control Compliant where
  createFactory r := (true, r)
  createControl r := (true, r)
  registerClient _ r := (some .inactive, r)

/-- The memory before there is a system. -/
def vacant : World Compliant := .start .mk (fun _ => "") fun _ => false

/-- Thread 0 asks for the hash of the key store while thread 1 notifies of the running state,
deletes the key store, and is notified that the application stops. -/
def askingEarly : List (Action (Fin 2) SystemCall) :=
  [.call 0 (.getKeyStoreHash [0, 0] ⟨2, by decide⟩), .call 1 (.notifyApplicationState .running)] ++
    List.replicate 8 (.run 1) ++ List.replicate 4 (.run 0) ++
  .call 1 .deleteKeyStore :: List.replicate 4 (.run 1) ++
  .call 0 (.notifyApplicationState .inactive) :: List.replicate 6 (.run 0) ++
  .call 1 .getDrmTime :: List.replicate 4 (.run 1)

/-- The system that is made of it. -/
def widevine : {s : OpenCDMSystem // s.cdmBackend = some 0} := ⟨⟨"widevine", "", true, some 0, some 0⟩, rfl⟩

/-- The memory with the system. -/
def asleep : World Compliant :=
  match (opencdmCreateSystem 0 "widevine").exec [] vacant with
  | .done _ w => w
  | _ => vacant

theorem widevine_created : (opencdmCreateSystem 0 "widevine").exec [] vacant = .done widevine.1 asleep := rfl

/-- The application is running when the hash is asked for and when the store is deleted, and is not
when the time is asked for. -/
theorem system_answers_askingEarly :
    ∃ (run : ℕ → Config (World Compliant) Mutex Condition (Fin 2) SystemCall SystemReply) (n : ℕ),
      (opencdmCreateSystem 0 "widevine").exec [] vacant = .done widevine.1 asleep ∧
      follow (entry widevine) askingEarly (.idle asleep []) = some (run n) ∧
      (run n).history.map Prod.snd =
        [.time (.fail, none), .ok true, .error .none, .hash (.none, [0, 0]), .ok true] ∧
      ∃ order : ℕ → List (SystemCall × SystemReply),
        (∀ k, AnsweredInOrder widevine asleep (run k) (order k)) ∧ ∀ k, order k <:+ order (k + 1) := by
  have hf : (follow (entry widevine) askingEarly (.idle asleep [])).map (fun cfg =>
      cfg.history.map Prod.snd) =
      some [.time (.fail, none), .ok true, .error .none, .hash (.none, [0, 0]), .ok true] := by decide
  obtain ⟨cfg, hcfg, hreplies⟩ := Option.map_eq_some_iff.mp hf
  obtain ⟨run, hrun, hstart, n, rfl⟩ := (reaches_of_follow hcfg).exists_run
  obtain ⟨-, hopen⟩ := (opencdmCreateSystem_open 0 "widevine" vacant).done widevine_created
  exact ⟨run, n, widevine_created, hcfg, hreplies, system_answers widevine asleep hopen hrun hstart⟩

end OpenCDMSystem

end RialtoOcdm
