import RialtoOcdm.Concurrency.Guarded
import RialtoOcdm.Interleaved.Wakeups

/-! Calls of the library that come to an end. A call asks for a second mutex in three
places: a session locks its own while its dispatcher delivers, a look-up in a callback
takes that of the registry then, and a session is destroyed, and gives its handle back,
under that of the registry. Only the last two are at odds with each other. -/

namespace RialtoOcdm

open Concurrency Prog OpenCDMSessionPrivate Rialto

/-- The call delivers a message to an application that looks sessions up. -/
def Call.LooksUp : Call → Prop
  | .deliver _ _ lookups => ∃ a callback, lookups a callback ≠ []
  | _ => False

/-- The call may destroy a session. -/
def Call.Destroys : Call → Bool
  | .destructSession _ | .constructSession .. => true
  | _ => false

/-- What a call may ask for while it holds others, the last one locked first. -/
def Call.Asks (c : Call) : List Mutex → Mutex → Prop
  | [], .turn _ => False
  | [], _ => True
  | [.dispatcher _], .session _ => True
  | [.dispatcher _], .activeSessions => c.LooksUp
  | [.activeSessions], .dispatcher _ => c.Destroys
  | _, _ => False

variable {R : Type}

/-- It waits for a while for the running state, or without a limit for a challenge. -/
def Call.usage (c : Call) : Usage (World R) Mutex Condition where
  asks := c.Asks
  waits condition timed ready := c.Waits condition ∧ ready = signals.ready condition ∧
    (timed = true ∨ ∃ a, condition = .challenge a)

section Functions

variable {c : Call} {held : List Mutex} {α : Type}

/-- The code of a function, as part of the call `c`. -/
abbrev Decently (c : Call) (held : List Mutex) (p : Code R α) : Prop := p.Decent c.usage held

theorem readMember_decently (a : Addr) (m : Member) (f : Session → α) :
    Decently c held (readMember a m f : Code R α) := .act fun _ => .ret _

section Operations

variable [MediaKeys R]

/-! ### The backend -/

theorem forward_decently {sys : SystemId} {call : MediaKeysCall}
    {store : ℕ → Answer call → World R → World R} :
    Decently c [] (CdmBackend.forward sys call store) := .withLock trivial .update

theorem ok_decently {sys : SystemId} {call : MediaKeysCall}
    {store : ℕ → Answer call → World R → World R} :
    Decently c [] (do return (← CdmBackend.forward sys call store).ok) :=
  forward_decently.bind fun _ => .ret _

theorem createKeySession_decently (sys : SystemId) (sessionType : KeySessionType) (isLDL : Bool)
    (a : Addr) : Decently c [] (CdmBackend.createKeySession sys sessionType isLDL a : Code R Bool) :=
  .withLock trivial (.bind (.wait trivial ⟨trivial, rfl, .inl rfl⟩) fun _ =>
    .bind .update fun _ => .ret _)

theorem createMediaKeys_decently (sys : SystemId) :
    Decently c held (CdmBackend.createMediaKeys sys : Code R Bool) := by
  refine .bind .read fun w => ?_
  split_ifs
  · exact .update
  · exact .bind .modify fun _ => .ret _

theorem notifyApplicationState_decently (sys : SystemId) (state : ApplicationState) :
    Decently c [] (CdmBackend.notifyApplicationState sys state : Code R Unit) := by
  refine .withLock trivial (.bind .update fun appState => ?_)
  split_ifs
  · exact .ret _
  · refine .bind (createMediaKeys_decently sys) fun made => ?_
    cases made with
    | false => exact .ret _
    | true => exact .bind .modify fun _ => .signal
  · exact .bind .modify fun _ => .modify

theorem initializeBackend_decently (sys : SystemId) (state : ApplicationState) :
    Decently c [] (CdmBackend.initializeBackend sys state : Code R Bool) := by
  refine .withLock trivial (.bind .update fun appState => ?_)
  split_ifs
  · exact .ret _
  · refine .bind (createMediaKeys_decently sys) fun made => ?_
    cases made with
    | false => exact .ret _
    | true => exact .bind .modify fun _ => .ret _
  · exact .bind .modify fun _ => .ret _

/-! ### Sessions -/

theorem getLastDrmError_decently (a : Addr) : Decently c [] (getLastDrmError a : Code R UInt32) := by
  refine .bind (readMember_decently _ _ _) fun cdm => ?_
  cases cdm with
  | none => exact .ret _
  | some cdm =>
    exact .bind (readMember_decently _ _ _) fun id => .bind forward_decently fun _ => .ret _

theorem orLastDrmError_decently (a : Addr) {p : Code R Bool} (hp : Decently c [] p) :
    Decently c [] (orLastDrmError a p) := by
  apply hp.bind
  intro ok
  cases ok with
  | true => exact .ret _
  | false => exact .bind (getLastDrmError_decently a) fun _ => .ret _

omit [MediaKeys R] in
theorem onKeySessionWhere_decently (a : Addr) {guard : Code R Bool}
    {p : SystemId → Int32 → Code R Bool} (hguard : Decently c [] guard)
    (hp : ∀ cdm id, Decently c [] (p cdm id)) : Decently c [] (onKeySessionWhere a guard p) := by
  refine .bind (readMember_decently _ _ _) fun cdm => ?_
  cases cdm with
  | none => exact .ret _
  | some cdm =>
    apply hguard.bind
    intro ok
    cases ok with
    | false => exact .ret _
    | true =>
      refine .bind (readMember_decently _ _ _) fun id => ?_
      split_ifs
      · exact .bind (readMember_decently _ _ _) fun id => hp cdm id
      · exact .ret _

omit [MediaKeys R] in
theorem onKeySession_decently (a : Addr) {p : SystemId → Int32 → Code R Bool}
    (hp : ∀ cdm id, Decently c [] (p cdm id)) : Decently c [] (onKeySession a p) :=
  onKeySessionWhere_decently a (.ret _) hp

omit [MediaKeys R] in
theorem destroyClient_decently (handle : MessageDispatcherClient)
    (h : c.Asks held (.dispatcher handle.dispatcher)) :
    Decently c held (MessageDispatcher.destroyClient handle : Code R Unit) := .withLock h .modify

omit [MediaKeys R] in
theorem assignClient_decently (a : Addr) (handle : Option MessageDispatcherClient) :
    Decently c [] (assignClient a handle : Code R Unit) := by
  refine .bind .update fun old => ?_
  cases old with
  | none => exact .ret _
  | some old => exact destroyClient_decently old trivial

theorem initializeSession_decently (a : Addr) (isLDL : Bool) :
    Decently c [] (initializeSession a isLDL : Code R Bool) := by
  refine .bind (readMember_decently _ _ _) fun cdm => ?_
  cases cdm with
  | none => exact .ret _
  | some cdm =>
    refine .bind (readMember_decently _ _ _) fun sys => ?_
    cases sys with
    | none => exact .ret _
    | some sys =>
      refine .bind (readMember_decently _ _ _) fun initialized => ?_
      cases initialized with
      | true => exact .ret _
      | false =>
        refine .bind (readMember_decently _ _ _) fun sessionType => ?_
        refine .bind (orLastDrmError_decently a (createKeySession_decently ..)) fun ok => ?_
        cases ok with
        | false => exact .ret _
        | true =>
          refine .bind (.bind (.withLock trivial .modify) fun _ => .ret _) fun client => ?_
          exact .bind (assignClient_decently a _) fun _ => .bind .modify fun _ => .ret _

theorem initializeCdmKeySessionId_decently (a : Addr) (cdm : SystemId) :
    Decently c [] (initializeCdmKeySessionId a cdm : Code R Unit) := by
  refine .bind (readMember_decently _ _ _) fun id => ?_
  split_ifs
  · refine .bind (readMember_decently _ _ _) fun id => .bind ok_decently fun result => ?_
    dsimp only
    split_ifs
    · exact .ret _
    · exact .modify
  · exact .modify

theorem request_decently (a : Addr) (cdm : SystemId) (id : Int32) (initDataType : InitDataType)
    (initData : Bytes) : Decently c [] (request a cdm id initDataType initData : Code R Bool) := by
  refine .bind (orLastDrmError_decently a ok_decently) fun ok => ?_
  cases ok with
  | true => exact .bind (initializeCdmKeySessionId_decently a cdm) fun _ => .ret _
  | false => exact .ret _

theorem generateRequest_decently (a : Addr) (initDataType : String) (initData : Bytes) :
    Decently c [] (generateRequest a initDataType initData : Code R Bool) :=
  onKeySessionWhere_decently a (.ret _) fun cdm id => request_decently a cdm id _ _

theorem closeSession_decently (a : Addr) : Decently c [] (closeSession a : Code R Bool) := by
  refine onKeySession_decently a fun cdm id => .bind ok_decently fun ok => ?_
  cases ok with
  | false => exact .ret _
  | true =>
    exact .bind .modify fun _ => .bind (assignClient_decently a none) fun _ => .bind .modify fun _ =>
      .bind .modify fun _ => .ret _

theorem getChallengeData_decently (a : Addr) (hw : c.Waits (.challenge a)) :
    Decently c [] (getChallengeData a : Code R (Option Bytes)) := by
  have hrequest : Decently c [] (requestChallenge a : Code R Bool) :=
    onKeySessionWhere_decently a (.bind (readMember_decently _ _ _) fun _ => .ret _) fun cdm id =>
      .bind (readMember_decently _ _ _) fun _ => .bind (readMember_decently _ _ _) fun _ =>
        request_decently a cdm id _ _
  apply hrequest.bind
  intro ok
  cases ok with
  | false => exact .ret _
  | true =>
    refine .bind (.bind .modify fun _ => .withLock trivial (.bind .modify fun _ => ?_)) fun _ => .ret _
    exact .bind (.wait trivial ⟨hw, rfl, .inr ⟨a, rfl⟩⟩) fun _ => .act fun _ => .ret _

end Operations

/-! ### Messages -/

theorem status_decently (a : Addr) (key : Bytes) : Decently c held (status a key : Code R KeyStatus) := by
  refine .bind (readMember_decently _ _ _) fun keyStatuses => ?_
  split <;> exact .ret _

theorem findSession_decently (key : Bytes) (l : List (Addr × Int32)) :
    Decently c held (ActiveSessions.findSession key l : Code R _) := by
  induction l with
  | nil => exact .ret _
  | cons entry rest ih =>
    refine .bind (status_decently _ _) fun s => ?_
    split_ifs
    · exact .ret _
    · exact ih

theorem get_decently (key : Bytes) (h : c.Asks held .activeSessions) :
    Decently c held (ActiveSessions.get key : Code R (Option Addr)) := by
  refine .withLock h (.bind .read fun w => .bind (findSession_decently key _) fun found => ?_)
  cases found with
  | none => exact .ret _
  | some found => exact .bind .modify fun _ => .ret _

section Messages

variable {lookups : Addr → Callback → List Bytes} {sys : SystemId}

/-- An application that looks sessions up asks for the mutex of the registry. -/
theorem lookUp_decently (h : ∀ a callback, lookups a callback ≠ [] → c.LooksUp) (a : Addr)
    (callback : Callback) : Decently c [.dispatcher sys] (lookUp lookups a callback : Code R Unit) := by
  unfold lookUp
  cases hkeys : lookups a callback with
  | nil => exact .ret _
  | cons key keys =>
    have hc : c.LooksUp := h a callback (by simp [hkeys])
    exact .forM fun key => .bind (get_decently key hc) fun _ => .ret _

theorem onMessage_decently (h : ∀ a callback, lookups a callback ≠ [] → c.LooksUp) (a : Addr)
    (message : Message) :
    Decently c [.dispatcher sys] (onMessage (lookUp lookups) a message : Code R Unit) := by
  have hinvoke : ∀ callback, Decently c [.dispatcher sys] (invoke (lookUp lookups) a callback : Code R Unit) :=
    fun callback => .bind .modify fun _ => lookUp_decently h a callback
  have hlicense : ∀ id message url, Decently c [.dispatcher sys]
      (onLicenseMessage (lookUp lookups) a id message url : Code R Unit) := by
    intro id message url
    refine .bind (readMember_decently _ _ _) fun id' => ?_
    split_ifs
    · refine .bind (.bind .modify fun _ => .withLock trivial (.bind .modify fun _ =>
        .bind .modify fun _ => .signal)) fun _ => .bind (readMember_decently _ _ _) fun callbacks => ?_
      split_ifs
      · exact .bind (readMember_decently _ _ _) fun _ => hinvoke _
      · exact .ret _
    · exact .ret _
  cases message with
  | licenseRequest id message url => exact hlicense id message url
  | licenseRenewal id message => exact hlicense id message ""
  | keyStatusesChanged id keyStatuses =>
    refine .bind (readMember_decently _ _ _) fun id' => ?_
    split_ifs
    · refine .bind (readMember_decently _ _ _) fun callbacks => ?_
      have hall : Decently c [.dispatcher sys] (keyStatuses.forM (onKeyStatus (lookUp lookups) a) : Code R Unit) :=
        .forM fun keyStatus => .bind .modify fun _ => .bind (readMember_decently _ _ _) fun _ => hinvoke _
      split_ifs
      · exact hall.bind fun _ => .bind (readMember_decently _ _ _) fun _ => hinvoke _
      · exact hall.bind fun _ => .ret _
      · exact .ret _
    · exact .ret _

theorem deliver_decently (sys : SystemId) (message : Message) (lookups : Addr → Callback → List Bytes) :
    Decently (.deliver sys message lookups) []
      (MessageDispatcher.deliver (mediaKeysClient (lookUp lookups)) sys message : Code R Unit) := by
  rw [deliver_eq]
  refine .withLock trivial (.bind .update fun clients => .forM fun a => ?_)
  refine onMessage_decently (fun a callback hkeys => ?_) a message
  exact ⟨a, callback, hkeys⟩

end Messages

/-! ### The registry -/

theorem create_decently (hint : Addr) (cdm messageDispatcher : Option SystemId)
    (sessionType : LicenseType) (callbacks : Option OpenCDMSessionCallbacks) (context : Addr)
    (initDataType : String) (initData : Bytes) : Decently c [] (ActiveSessions.create hint cdm
      messageDispatcher sessionType callbacks context initDataType initData : Code R Addr) :=
  .withLock trivial (.bind .update fun _ => .bind .modify fun _ => .ret _)

/-- Only the handle of the dispatcher asks for something when it is destroyed. -/
theorem destroyMember_decently (h : c.Destroys) (a : Addr) (m : Member) :
    Decently c [.activeSessions] (destroyMember a m : Code R PUnit) := by
  have hhandle : Decently c [.activeSessions] (destroyHandle a : Code R Unit) := by
    refine .bind .update fun handle => ?_
    cases handle with
    | none => exact .ret _
    | some handle => exact destroyClient_decently handle h
  unfold destroyMember
  split_ifs
  · exact hhandle.bind fun _ => .modify
  · exact .modify

theorem remove_decently (h : c.Destroys) (session : Option Addr) :
    Decently c [] (ActiveSessions.remove session : Code R Unit) := by
  refine .withLock trivial (.bind .read fun w => ?_)
  cases session with
  | none => exact .ret _
  | some a =>
    dsimp only
    cases w.activeSessions[a]? with
    | none => exact .ret _
    | some count =>
      refine .bind .modify fun _ => ?_
      split_ifs
      · refine .bind (.bind .modify fun _ => .bind ?_ fun _ => .modify) fun _ => .modify
        exact .forM fun m => destroyMember_decently h a m
      · exact .ret _

/-! ### The C interface -/

section Interface

variable [MediaKeys R]

omit [MediaKeys R] in
theorem onSession_decently (session : Option Addr) (null : OpenCDMError) {op : Addr → Code R Bool}
    (hop : ∀ a, Decently c [] (op a)) : Decently c [] (onSession session null op) := by
  cases session with
  | none => exact .ret _
  | some a => exact .bind (hop a) fun _ => .ret _

theorem onLicense_decently (session : Option Addr) (license : Option Bytes) :
    Decently c [] (onLicense session license : Code R OpenCDMError) := by
  unfold onLicense
  split
  · exact .ret _
  · exact .ret _
  · split_ifs
    · exact .ret _
    · exact .bind (onKeySession_decently _ fun _ _ => orLastDrmError_decently _ ok_decently) fun _ => .ret _

theorem operation_code_decently (session : Option Addr) (op : Operation) :
    Decently c [] (op.code session : Code R OpenCDMError) := by
  cases op with
  | close | cleanDecryptContext => exact onSession_decently session _ closeSession_decently
  | load =>
    exact onSession_decently session _ fun a =>
      onKeySession_decently a fun _ _ => orLastDrmError_decently a ok_decently
  | remove | setDrmHeader =>
    exact onSession_decently session _ fun a => onKeySession_decently a fun _ _ => ok_decently
  | update license | storeLicenseData license => exact onLicense_decently session license
  | selectKeyId keyId =>
    change Decently c [] (opencdmSessionSelectKeyId session keyId)
    unfold opencdmSessionSelectKeyId
    split
    · split_ifs
      · exact .ret _
      · exact .bind (.bind .modify fun _ => .ret _) fun _ => .ret _
    · exact .ret _
  | systemError =>
    cases session with
    | none => exact .ret _
    | some a => exact .bind (getLastDrmError_decently a) fun _ => .ret _
  | cancelChallengeData => exact .ret _

theorem opencdmConstructSession_decently (h : c.Destroys) (hint : Addr) (system : Option SystemId)
    (licenseType : LicenseType) (initDataType : String) (initData : Bytes)
    (callbacks : Option OpenCDMSessionCallbacks) (userData : Addr) :
    Decently c [] (opencdmConstructSession hint system licenseType initDataType initData callbacks
      userData : Code R (OpenCDMError × Option Addr)) := by
  cases system with
  | none => exact .ret _
  | some sys =>
    refine .bind (create_decently ..) fun a => .bind .read fun w => ?_
    have hremove : Decently c [] (do
        ActiveSessions.remove (some a)
        return (.fail, none) : Code R (OpenCDMError × Option Addr)) :=
      .bind (remove_decently h (some a)) fun _ => .ret _
    split_ifs
    · exact .ret _
    · refine .bind (initializeSession_decently a false) fun ok => ?_
      cases ok with
      | false => exact hremove
      | true =>
        refine .bind (generateRequest_decently a initDataType initData) fun ok => ?_
        cases ok with
        | false => exact .bind (onSession_decently _ _ closeSession_decently) fun _ => hremove
        | true => exact .ret _

/-- Every call uses the mutexes and condition variables as it should. -/
theorem entry_decently (c : Call) : Decently c [] (entry c : Code R Reply) := by
  cases c with
  | constructSession =>
    refine .bind (opencdmConstructSession_decently ?_ ..) fun _ => .ret _
    rfl
  | destructSession session =>
    refine .bind (.bind (remove_decently ?_ session) fun _ => .ret _) fun _ => .ret _
    rfl
  | operation session op => exact .bind (operation_code_decently session op) fun _ => .ret _
  | getChallengeData session challenge challengeSize isLDL =>
    refine .bind ?_ fun _ => .ret _
    cases session with
    | none => exact .ret _
    | some a =>
      cases challengeSize with
      | false => exact .ret _
      | true =>
        refine .bind (initializeSession_decently a _) fun ok => ?_
        cases ok with
        | false => exact .ret _
        | true =>
          refine .bind (getChallengeData_decently a rfl) fun read => ?_
          cases read <;> exact .ret _
  | hasKeyId session keyId =>
    refine .bind ?_ fun _ => .ret _
    cases session with
    | none => exact .ret _
    | some a => exact .bind (onKeySession_decently a fun _ _ => ok_decently) fun _ => .ret _
  | sessionStatus session keyId =>
    refine .bind ?_ fun _ => .ret _
    unfold opencdmSessionStatus
    split
    · split_ifs
      · exact status_decently _ _
      · exact .ret _
    · exact .ret _
  | sessionId session =>
    refine .bind ?_ fun _ => .ret _
    cases session with
    | none => exact .ret _
    | some a => exact .bind (.bind (readMember_decently _ _ _) fun _ => .ret _) fun _ => .ret _
  | getSession keyId => exact .bind (get_decently keyId trivial) fun _ => .ret _
  | create => exact .bind (create_decently ..) fun _ => .ret _
  | initializeSession a isLDL => exact .bind (initializeSession_decently a isLDL) fun _ => .ret _
  | generateRequest a initDataType initData =>
    exact .bind (generateRequest_decently a initDataType initData) fun _ => .ret _
  | initializeBackend sys state => exact .bind (initializeBackend_decently sys state) fun _ => .ret _
  | notifyApplicationState sys state =>
    exact .bind (notifyApplicationState_decently sys state) fun _ => .ret _
  | deliver sys message lookups =>
    exact .bind (deliver_decently sys message lookups) fun _ => .ret _

end Interface

end Functions

/-! ### The order of the mutexes -/

/-- The order where nobody looks up. -/
def Mutex.order : Mutex → ℕ
  | .activeSessions => 0
  | .dispatcher _ => 1
  | _ => 2

variable {c : Call} {held : List Mutex} {m : Mutex}

theorem Call.Asks.order_lt (h : c.Asks held m) (hc : ¬ c.LooksUp) : ∀ l ∈ held, l.order < m.order := by
  unfold Call.Asks at h
  split at h
  · exact h.elim
  · simp
  · simp [Mutex.order]
  · exact absurd h hc
  · simp [Mutex.order]
  · exact h.elim

/-- The other order, where nothing is destroyed. -/
theorem Call.Asks.rank_lt (h : c.Asks held m) (hc : ¬ c.Destroys) : ∀ l ∈ held, l.rank < m.rank := by
  unfold Call.Asks at h
  split at h
  · exact h.elim
  · simp
  · simp [Mutex.rank]
  · simp [Mutex.rank]
  · exact absurd h hc
  · exact h.elim

/-- The code does not know of the turns that its callers take. -/
theorem entry_avoids [MediaKeys R] (c : Call) (a : Addr) : (entry c : Code R Reply).Avoids (.turn a) :=
  (entry_decently c).avoids (fun held h => by
    unfold Call.usage Call.Asks at h
    rcases held with _ | ⟨l, _ | ⟨l', held⟩⟩
    · exact h
    · cases l <;> exact h
    · cases l <;> exact h) (by simp)

section Runs

variable [MediaKeys R] {ι : Type} [DecidableEq ι] [Fintype ι]

/-- What is left where nothing is due: calls that are blocked for a challenge. In a run without lost
wake-ups there is none for them. -/
structure Rested (w : World R) (cfg : Config (World R) Mutex Condition ι Call Reply) : Prop where
  blocked : ∀ t th, cfg.thread t = some th → ∃ a challenge challengeSize isLDL,
    th.call = .getChallengeData (some a) challenge challengeSize isLDL ∧ th.waitsOn (.challenge a) = true
  awaited : ReachesUnder Spares entry (.idle w []) cfg → ∀ a t, cfg.waiting (.challenge a) t = true →
    (cfg.shared.session a).challengeData = []

/-- In whatever order the threads run, without new calls and wake-ups without a signal they come to
an end. Unless some thread looks sessions up in a callback while some thread may destroy one,
that is when all have returned but those that wait for a challenge. -/
theorem calls_complete (w : World R) {cfg : Config (World R) Mutex Condition ι Call Reply}
    (hr : Reaches entry (.idle w []) cfg)
    (h : (∀ t th, cfg.thread t = some th → ¬ th.call.LooksUp) ∨
      ∀ t th, cfg.thread t = some th → ¬ th.call.Destroys) :
    (∀ run : ℕ → Config (World R) Mutex Condition ι Call Reply, run 0 = cfg →
      ¬ ∀ n, Proceeds entry (run n) (run (n + 1))) ∧
    ∀ cfg', GoesOn entry cfg cfg' → AtRest entry cfg' → Rested w cfg' := by
  refine ⟨fun run _ => not_proceeds_forever run, fun cfg' hgo hrest => ?_⟩
  have hg : Orderly Call.usage cfg' := (Orderly.idle w).reaches entry_decently (hr.trans hgo.reaches)
  obtain ⟨rank, hrank⟩ : ∃ rank : Mutex → ℕ, ∀ t th, cfg'.thread t = some th → ∀ held m,
      (th.call.usage (R := R)).asks held m → ∀ l ∈ held, rank l < rank m := by
    rcases h with hlooks | hdestroys
    · refine ⟨Mutex.order, fun t th ht held m hasks => ?_⟩
      obtain ⟨tu, hu, hc⟩ := hgo.call ht
      exact Call.Asks.order_lt hasks (hc ▸ hlooks t tu hu)
    · refine ⟨Mutex.rank, fun t th ht held m hasks => ?_⟩
      obtain ⟨tu, hu, hc⟩ := hgo.call ht
      exact Call.Asks.rank_lt hasks (hc ▸ hdestroys t tu hu)
  refine ⟨fun t th ht => ?_, fun hspares a t hw => ?_⟩
  · obtain ⟨condition, ready, hw, hwaits, -, htimed⟩ := hg.waits rank hrank hrest ht
    obtain ⟨a, rfl⟩ := htimed.resolve_left Bool.false_ne_true
    unfold Call.Waits at hwaits
    split at hwaits
    · next he => cases he
    · next session challenge challengeSize isLDL b hc hb =>
      cases hb
      exact ⟨a, challenge, challengeSize, isLDL, by rw [hc, hwaits], hw⟩
    · exact hwaits.elim
  · have hfree : cfg'.owner ((signals (R := R)).mutex (.challenge a)) = none :=
      hg.owner_eq_none (fun u tu hu => hg.all_blocked rank hrank hrest hu) _
    obtain ⟨hheeding, hawake⟩ := Config.awake_of_reachesUnder entry_heeds hspares
    by_contra hdata
    have hready : (signals (R := R)).ready (.challenge a) cfg'.shared = true := by simpa [signals] using hdata
    rw [hawake.waiting_eq_false hheeding hfree hready t] at hw
    cases hw

end Runs

/-- A thread has begun to ask for the challenge of a session. -/
def asking : List (Action (Fin 2) Call) := opening ++ made 1 (.getChallengeData (some 1) false true 0) 1

/-- It goes on until it is blocked, and there is no challenge for it. -/
theorem calls_complete_asking : ∃ cfg cfg', follow entry asking newProcess = some cfg ∧
    (∀ run : ℕ → Config (World Compliant) Mutex Condition (Fin 2) Call Reply, run 0 = cfg →
      ¬ ∀ n, Proceeds entry (run n) (run (n + 1))) ∧
    GoesOn entry cfg cfg' ∧ AtRest entry cfg' ∧ Rested newProcess.shared cfg' ∧
    cfg'.waiting (.challenge 1) 1 = true ∧ (cfg'.shared.session 1).challengeData = [] := by
  have hf : (followUnder noneInitializes entry asking newProcess).map (fun cfg =>
      decide (∀ t, (cfg.thread t).all fun th => !th.call.Destroys)) = some true := by decide
  obtain ⟨cfg, hcfg, hall⟩ := Option.map_eq_some_iff.mp hf
  have hr := reachesUnder_of_followUnder (fun _ _ _ => spares_of_noneInitializes) hcfg
  obtain ⟨hends, hrested⟩ := calls_complete _ hr.reaches (.inr fun t th ht => by
    have hdestroys := of_decide_eq_true hall t
    simpa [ht] using hdestroys)
  have hf' : ((followUnder noneInitializes entry asking newProcess).bind
      (followUnder noneInitializes entry (List.replicate 20 (.run 1)))).map (fun cfg =>
      (decide (AtRest entry cfg), cfg.waiting (.challenge 1) 1)) = some (true, true) := by decide
  rw [hcfg, Option.bind_some] at hf'
  obtain ⟨cfg', hcfg', he⟩ := Option.map_eq_some_iff.mp hf'
  simp only [Prod.mk.injEq, decide_eq_true_eq] at he
  obtain ⟨hrest, hw⟩ := he
  have hgo : GoesOn entry cfg cfg' := goesOn_of_follow (by decide) (follow_of_followUnder hcfg')
  have hrested := hrested cfg' hgo hrest
  exact ⟨cfg, cfg', follow_of_followUnder hcfg, hends, hgo, hrest, hrested, hw,
    hrested.awaited (hr.trans (reachesUnder_of_followUnder (fun _ _ _ => spares_of_noneInitializes) hcfg')) 1 1 hw⟩

end RialtoOcdm
