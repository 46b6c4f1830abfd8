import RialtoOcdm.Interleaved.Routines

/-! Deliveries, the registry, and with them every call: under every discipline its
code is safe in any interleaving, whatever the application looks up in its callbacks. -/

namespace RialtoOcdm

open Concurrency Prog Protocol Rialto OpenCDMSessionPrivate

variable {R κ : Type} [MediaKeys R] {P : Protocol (World R) Mutex κ} {k : κ} {ρ : Rules R}
  {held : List Mutex} {C : World R → Prop}

section

omit [MediaKeys R]

theorem Delivers.cons {m : Mutex} {w : World R} {a : Addr} (h : Delivers held w a) :
    Delivers (m :: held) w a := h.imp fun _ => And.imp_left (List.mem_cons_of_mem m)

theorem Delivers.uses {w : World R} {a : Addr} (h : Delivers held w a) : Uses ρ held w a :=
  .inr (.inl h)

end

namespace Discipline

/-! ### Look-ups -/

theorem status (D : Discipline P k ρ) (hC : Inside P ρ held C) {a : Addr}
    (hu : ∀ w, P.inv w → C w → Uses ρ held w a) (key : Bytes) :
    P.Routine C k held (status a key : Code R KeyStatus) := by
  refine .bind (D.readMember hC hu _) fun keyStatuses => ?_
  split <;> exact Routine.ret hC.keeps _

theorem findSession (D : Discipline P k ρ) (hC : Inside P ρ held C) (hr : .activeSessions ∈ held)
    (keyId : Bytes) (entries : List (Addr × Int32)) :
    P.Routine C k held (ActiveSessions.findSession keyId entries : Code R _) := by
  induction entries with
  | nil => exact Routine.ret hC.keeps _
  | cons entry rest ih =>
    refine .bind (D.status hC (fun _ _ _ => .inr (.inr hr)) keyId) fun found => ?_
    split_ifs
    · exact Routine.ret hC.keeps _
    · exact ih

theorem getSession (D : Discipline P k ρ) (hC : Inside P ρ held C) (hheld : ∀ l ∈ held, l.rank < 2)
    (keyId : Bytes) : P.Routine C k held (opencdmGetSession keyId : Code R (Option Addr)) := by
  refine D.withLock (m := .activeSessions) hC Nat.two_pos hheld (.bind (D.read hC.cons) fun w => ?_)
  refine .bind (D.findSession hC.cons List.mem_cons_self keyId _) fun found => ?_
  cases found with
  | none => exact Routine.ret hC.keeps.cons _
  | some entry =>
    exact .bind (D.modify hC.cons (fun w _ _ => .count w _) fun _ => rfl) fun _ =>
      Routine.ret hC.keeps.cons _

theorem lookUp (D : Discipline P k ρ) (hC : Inside P ρ held C) (hheld : ∀ l ∈ held, l.rank < 2)
    (lookups : Addr → Callback → List Bytes) (a : Addr) (callback : Callback) :
    P.Routine C k held (RialtoOcdm.lookUp lookups a callback : Code R Unit) :=
  .forM hC.keeps fun key _ => .bind (D.getSession hC hheld key) fun _ => Routine.ret hC.keeps _

/-! ### Messages -/

section Messages

variable {a : Addr} {lookups : Addr → Callback → List Bytes}

theorem invoke (D : Discipline P k ρ) (hC : Inside P ρ held C) (hheld : ∀ l ∈ held, l.rank < 2)
    (hd : ∀ w, P.inv w → C w → Delivers held w a) (callback : Callback) :
    P.Routine C k held (invoke (RialtoOcdm.lookUp lookups) a callback : Code R Unit) :=
  .bind (D.modify hC (fun w hi hc => .callback w a callback (hd w hi hc)) fun _ => rfl) fun _ =>
    D.lookUp hC hheld lookups a callback

theorem updateChallenge (D : Discipline P k ρ) (hC : Inside P ρ held C) (hheld : ∀ l ∈ held, l.rank < 2)
    (hd : ∀ w, P.inv w → C w → Delivers held w a) (challenge : Bytes) :
    P.Routine C k held (updateChallenge a challenge : Code R Unit) := by
  refine .bind (D.modify hC (fun w hi hc => .use w a _ (hd w hi hc).uses) fun _ => rfl)
    fun _ => ?_
  have hd' : ∀ w, P.inv w → C w → Delivers (.session a :: held) w a := fun w hi hc =>
    Delivers.cons (hd w hi hc)
  apply D.withLock (m := .session a) hC Nat.two_pos hheld
  refine .bind (D.modify hC.cons (fun w hi hc => .challenge w a challenge (hd' w hi hc)) fun _ => rfl)
    fun _ => ?_
  exact .bind (D.modify hC.cons (fun w hi hc => .use w a _ ((hd' w hi hc).uses)) fun _ => rfl)
    fun _ => .signal hC.keeps.cons _

theorem onLicenseMessage (D : Discipline P k ρ) (hC : Inside P ρ held C)
    (hheld : ∀ l ∈ held, l.rank < 2) (hd : ∀ w, P.inv w → C w → Delivers held w a)
    (keySessionId : Int32) (message : Bytes) (url : String) :
    P.Routine C k held
      (onLicenseMessage (RialtoOcdm.lookUp lookups) a keySessionId message url : Code R Unit) := by
  have hu : ∀ w, P.inv w → C w → Uses ρ held w a := fun w hi hc => (hd w hi hc).uses
  refine .bind (D.readMember hC hu _) fun id => ?_
  split_ifs
  · refine .bind (D.updateChallenge hC hheld hd message) fun _ => ?_
    refine .bind (D.readMember hC hu _) fun callbacks => ?_
    split_ifs
    · exact .bind (D.readMember hC hu _) fun context => D.invoke hC hheld hd _
    · exact Routine.ret hC.keeps _
  · exact Routine.ret hC.keeps _

theorem onKeyStatus (D : Discipline P k ρ) (hC : Inside P ρ held C) (hheld : ∀ l ∈ held, l.rank < 2)
    (hd : ∀ w, P.inv w → C w → Delivers held w a) (keyStatus : Bytes × Rialto.KeyStatus) :
    P.Routine C k held (onKeyStatus (RialtoOcdm.lookUp lookups) a keyStatus : Code R Unit) := by
  refine .bind (D.modify hC (fun w hi hc => .keyStatus w a keyStatus (hd w hi hc)) fun _ => rfl)
    fun _ => ?_
  exact .bind (D.readMember hC (fun w hi hc => (hd w hi hc).uses) _) fun context =>
    D.invoke hC hheld hd _

theorem onKeyStatusesChanged (D : Discipline P k ρ) (hC : Inside P ρ held C)
    (hheld : ∀ l ∈ held, l.rank < 2) (hd : ∀ w, P.inv w → C w → Delivers held w a)
    (keySessionId : Int32) (keyStatuses : List (Bytes × Rialto.KeyStatus)) :
    P.Routine C k held
      (onKeyStatusesChanged (RialtoOcdm.lookUp lookups) a keySessionId keyStatuses : Code R Unit) := by
  have hu : ∀ w, P.inv w → C w → Uses ρ held w a := fun w hi hc => (hd w hi hc).uses
  refine .bind (D.readMember hC hu _) fun id => ?_
  split_ifs
  · refine .bind (D.readMember hC hu _) fun callbacks => ?_
    have hall : P.Routine C k held (keyStatuses.forM (OpenCDMSessionPrivate.onKeyStatus
        (RialtoOcdm.lookUp lookups) a) : Code R Unit) :=
      .forM hC.keeps fun keyStatus _ => D.onKeyStatus hC hheld hd keyStatus
    split_ifs
    · exact .bind hall fun _ => .bind (D.readMember hC hu _) fun context => D.invoke hC hheld hd _
    · exact .bind hall fun _ => Routine.ret hC.keeps _
    · exact Routine.ret hC.keeps _
  · exact Routine.ret hC.keeps _

theorem onMessage (D : Discipline P k ρ) (hC : Inside P ρ held C) (hheld : ∀ l ∈ held, l.rank < 2)
    (hd : ∀ w, P.inv w → C w → Delivers held w a) (message : Message) :
    P.Routine C k held (onMessage (RialtoOcdm.lookUp lookups) a message : Code R Unit) := by
  cases message with
  | licenseRequest id message url => exact D.onLicenseMessage hC hheld hd id message url
  | licenseRenewal id message => exact D.onLicenseMessage hC hheld hd id message ""
  | keyStatusesChanged id keyStatuses => exact D.onKeyStatusesChanged hC hheld hd id keyStatuses

/-- While the lock of a dispatcher is held, its clients stay. -/
theorem inside_clients (D : Discipline P k ρ) {sys : SystemId} (hr : .dispatcher sys ∈ held)
    (clients : List Addr) : Inside P ρ held fun w => ∀ b ∈ clients, b ∈ w.clients sys where
  keeps w w' hi hrely hc := by
    refine hrely.stable (F := fun w => ∀ b ∈ clients, b ∈ w.clients sys) ?_ hi hc
    intro c held' w w' hd _ hm h b hb
    rw [D.clients c held' w w' sys hm fun hmem => hd hr hmem]
    exact h b hb
  same held' w w' _ he hc b hb := by rw [he]; exact hc b hb

/-- Every message goes to clients. -/
theorem deliver (D : Discipline P k ρ) (hheld : Outside held) (sys : SystemId) (message : Message)
    (lookups : Addr → Callback → List Bytes) : Plain P k held
      (MessageDispatcher.deliver (mediaKeysClient (RialtoOcdm.lookUp lookups)) sys message :
        Code R Unit) := by
  have hheld' : ∀ l ∈ Mutex.dispatcher sys :: held, l.rank < 2 :=
    List.forall_mem_cons.mpr ⟨Nat.one_lt_two, hheld.lt_two⟩
  rw [deliver_eq]
  apply D.withLock (m := .dispatcher sys) inside_true Nat.one_pos (hheld.lt Nat.one_pos)
  refine .enter (D := fun clients w => ∀ b ∈ clients, b ∈ w.clients sys) keeps_true (fun w hi _ => ?_)
    fun clients => ?_
  · have ha := D.act (.dispatcher sys :: held) w _ hi (.message w sys message)
    exact ⟨ha.1, ha.2, trivial, fun b hb => Std.ExtTreeSet.mem_toList.mp hb⟩
  · have hC : Inside P ρ (.dispatcher sys :: held) fun w => ∀ b ∈ clients, b ∈ w.clients sys :=
      D.inside_clients List.mem_cons_self clients
    have hC' : Inside P ρ (.dispatcher sys :: held) fun w => True ∧ ∀ b ∈ clients, b ∈ w.clients sys :=
      ⟨keeps_true.and hC.keeps, fun l w w' ha he hc => ⟨trivial, hC.same l w w' ha he hc.2⟩⟩
    exact .forM hC'.keeps fun b hb =>
      D.onMessage hC' hheld' (fun w _ hc => ⟨sys, List.mem_cons_self, hc.2 b hb⟩) message

end Messages

/-! ### The registry -/

/-- What is known of a session that is new lasts. -/
theorem create (D : Discipline P k ρ) (hheld : Outside held) {F : Addr → World R → Prop}
    (hF : ∀ a, P.Lasting (F a)) (hnew : ∀ w a s, P.inv w → a ∉ w.heap → F a (w.allocate a s))
    (hint : Addr) {cdm : Option SystemId} (hb : ∀ sys, cdm = some sys → ρ.backend sys)
    (messageDispatcher : Option SystemId) (sessionType : LicenseType)
    (callbacks : Option OpenCDMSessionCallbacks) (context : Addr) (initDataType : String)
    (initData : Bytes) : P.Yields (fun _ => True) k held (ActiveSessions.create hint cdm
      messageDispatcher sessionType callbacks context initDataType initData : Code R Addr) F := by
  apply D.withLock_yields (m := .activeSessions) inside_true Nat.two_pos (hheld.lt Nat.two_pos) hF
  refine .bind hF (D.act_yields hF fun w hi => ?_) fun a => ?_
  · have ha := w.address_not_mem hint
    exact ⟨.allocate w _ ha cdm messageDispatcher hb sessionType callbacks context initDataType initData,
      hnew w _ _ hi ha⟩
  · exact .after ((D.assume (hF a)).modify_plain fun w _ => .count w _) fun _ =>
      .ret keeps_true (hF a).assume fun w hi => hi.2

/-- A member's destructor. One that unregisters the session does not keep to the order
of the mutexes. -/
theorem destroyMember (D : Discipline P k ρ) {a : Addr} (hd : P.Always (ρ.delete a)) (m : Member) :
    Plain P k held (destroyMember a m : Code R PUnit) := by
  have hmark : Plain P k held (.modify (·.markDestroyed a m) : Code R Unit) :=
    D.modify_plain fun w hi => .markDestroyed w a m (hd w hi)
  unfold OpenCDMSessionPrivate.destroyMember
  split_ifs
  · refine .bind ?_ fun _ => hmark
    have hQ : ∀ handle : Option MessageDispatcherClient, P.Lasting fun w : World R =>
        handle.isSome → ∃ n, .unregistering n ∈ w.journal := by
      intro handle c held w w' hi hm h hs
      obtain ⟨n, hn⟩ := h hs
      exact ⟨n, D.mem_lasting _ c held w w' hi hm hn⟩
    refine .of_yields (D.act_yields hQ fun w hi => ?_) hQ fun handle => ?_
    · dsimp only
      split_ifs with hs
      · exact ⟨.unregistering w a (hd w hi), fun _ => ⟨w.serial a, List.mem_cons_self⟩⟩
      · exact ⟨.read w, fun h => absurd h hs⟩
    · cases handle with
      | none => exact Plain.ret _
      | some handle =>
        exact (D.assume (hQ _)).destroyClient handle fun w hi => .inr (hi.2 rfl)
  · exact hmark

theorem delete_plain (D : Discipline P k ρ) (a : Addr) :
    Plain P k held (OpenCDMSessionPrivate.delete a : Code R Unit) := by
  have hF := D.delete_lasting a
  refine .of_yields (Q := fun _ => ρ.delete a) (D.act_yields (fun _ => hF) (f := fun w =>
    ((), w.record (.destructing (w.serial a)))) fun w hi => ⟨.destructing w a, D.delete w a hi⟩)
    (fun _ => hF) fun _ => ?_
  have D' := D.assume hF
  refine .bind (.forM keeps_true fun m _ => D'.destroyMember always_assume m) fun _ => ?_
  exact D'.modify_plain fun w hi => .free w a hi.2

theorem remove (D : Discipline P k ρ) (hheld : Outside held) (session : Option Addr) :
    Plain P k held (ActiveSessions.remove session : Code R Unit) := by
  refine D.withLock (m := .activeSessions) inside_true Nat.two_pos (hheld.lt Nat.two_pos)
    (.bind (D.read inside_true) fun w => ?_)
  cases session with
  | none => exact Plain.ret _
  | some a =>
    dsimp only
    cases w.activeSessions[a]? with
    | none => exact Plain.ret _
    | some count =>
      refine .bind (D.modify_plain fun w _ => .count w _) fun _ => ?_
      split_ifs
      · exact .bind (D.delete_plain a) fun _ => D.modify_plain fun w _ => .count w _
      · exact Plain.ret _

/-! ### The interface -/

section Interface

omit [MediaKeys R]

theorem onSession {session : Option Addr} {null : OpenCDMError} {op : Addr → Code R Bool}
    (hop : ∀ a, session = some a → Plain P k held (op a)) :
    Plain P k held (onSession session null op) := by
  cases session with
  | none => exact Plain.ret _
  | some a => exact .bind (hop a rfl) fun _ => Plain.ret _

end Interface

theorem onLicense (D : Discipline P k ρ) (hheld : Outside held) {session : Option Addr}
    (ho : ∀ a, session = some a → P.Always (ρ.own a)) (license : Option Bytes) :
    Plain P k held (onLicense session license : Code R OpenCDMError) := by
  unfold RialtoOcdm.onLicense
  split
  · exact Plain.ret _
  · exact Plain.ret _
  · next a _ =>
    split_ifs
    · exact Plain.ret _
    · exact .bind (D.loggedOperation hheld (ho a rfl) fun _ => rfl) fun _ => Plain.ret _

theorem selectKey (D : Discipline P k ρ) {session : Option Addr}
    (ho : ∀ a, session = some a → P.Always (ρ.own a)) (keyId : Option Bytes) :
    Plain P k held (opencdmSessionSelectKeyId session keyId : Code R OpenCDMError) := by
  unfold opencdmSessionSelectKeyId
  split
  · next a _ =>
    split_ifs
    · exact Plain.ret _
    · exact .bind (D.selectKeyId (ho a rfl) _) fun _ => Plain.ret _
  · exact Plain.ret _

theorem operation_code (D : Discipline P k ρ) (hheld : Outside held) {session : Option Addr}
    {op : Operation} (ho : ∀ a, session = some a → P.Always (ρ.own a))
    (hl : ∀ a, (Call.operation session op).Closes a → P.Always (ρ.leave a)) :
    Plain P k held (op.code session : Code R OpenCDMError) := by
  cases op with
  | close => exact onSession fun a h => D.closeSession hheld (ho a h) (hl a h)
  | cleanDecryptContext => exact onSession fun a h => D.closeSession hheld (ho a h) (hl a h)
  | load => exact onSession fun a h => D.loggedOperation hheld (ho a h) fun _ => rfl
  | remove => exact onSession fun a h => D.operation hheld (ho a h) fun _ => rfl
  | setDrmHeader drmHeader => exact onSession fun a h => D.operation hheld (ho a h) fun _ => rfl
  | update keyMessage => exact D.onLicense hheld ho keyMessage
  | storeLicenseData licenseData => exact D.onLicense hheld ho licenseData
  | selectKeyId keyId => exact D.selectKey ho keyId
  | systemError =>
    cases session with
    | none => exact Plain.ret _
    | some a => exact .bind (D.getLastDrmError hheld (ho a rfl)) fun _ => Plain.ret _
  | cancelChallengeData => exact Plain.ret _

theorem constructSession (D : Discipline P k ρ) (hheld : Outside held)
    (hj : ∀ w a, P.inv w → (w.session a).isInitialized = false → ρ.join a w)
    (hnew : ∀ w a s, P.inv w → a ∉ w.heap → ρ.own a (w.allocate a s) ∧ ρ.leave a (w.allocate a s))
    (hint : Addr) {system : Option SystemId} (hb : ∀ sys, system = some sys → ρ.backend sys)
    (licenseType : LicenseType) (initDataType : String)
    (initData : Bytes) (callbacks : Option OpenCDMSessionCallbacks) (userData : Addr) :
    Plain P k held (opencdmConstructSession hint system licenseType initDataType initData callbacks
      userData : Code R (OpenCDMError × Option Addr)) := by
  cases system with
  | none => exact Plain.ret _
  | some sys =>
    have hF : ∀ a, P.Lasting fun w => ρ.own a w ∧ ρ.leave a w := fun a c held w w' hi hm h =>
      ⟨D.own_lasting a c held w w' hi hm h.1, D.leave_lasting a c held w w' hi hm h.2⟩
    refine .of_yields (D.create hheld hF hnew _ hb _ _ _ _ _ _) hF fun a => ?_
    have D' := D.assume (hF a)
    have ho : (P.assume fun w => ρ.own a w ∧ ρ.leave a w).Always (ρ.own a) := fun w hi => hi.2.1
    refine .bind (D'.read inside_true) fun w => ?_
    split_ifs
    · exact Plain.ret _
    · refine .bind (D'.initializeSession hheld ho (fun w hi => hj w a hi.1) false) fun ok => ?_
      split_ifs
      · exact .bind (D'.remove hheld (some a)) fun _ => Plain.ret _
      · refine .bind (D'.generateRequest hheld ho initDataType initData) fun ok => ?_
        split_ifs
        · refine .bind (onSession fun b hb => ?_) fun _ =>
            .bind (D'.remove hheld (some a)) fun _ => Plain.ret _
          cases hb
          exact D'.closeSession hheld ho fun w hi => hi.2.2
        · exact Plain.ret _

/-! ### The backend -/

theorem createMediaKeys (D : Discipline P k ρ) (sys : SystemId) :
    Plain P k held (CdmBackend.createMediaKeys sys : Code R Bool) := by
  refine .bind (D.read inside_true) fun w => ?_
  split_ifs
  · exact D.act_plain fun w _ => .createMediaKeys w sys
  · exact .bind (D.modify_plain fun w _ => .mediaKeysFailed w sys) fun _ => Plain.ret _

theorem setAppState (D : Discipline P k ρ) (sys : SystemId) (state : ApplicationState) :
    Plain P k held (CdmBackend.setAppState sys state : Code R Unit) :=
  D.modify_plain fun w _ => .updateBackend w sys _ fun _ => .inl rfl

theorem resetMediaKeys (D : Discipline P k ρ) (sys : SystemId) :
    Plain P k held (CdmBackend.resetMediaKeys sys : Code R Unit) :=
  D.modify_plain fun w _ => .updateBackend w sys _ fun _ => .inr rfl

theorem initializeBackend (D : Discipline P k ρ) (hheld : Outside held) (sys : SystemId)
    (initialState : ApplicationState) :
    Plain P k held (CdmBackend.initializeBackend sys initialState : Code R Bool) := by
  refine D.withLock (m := .cdmBackend sys) inside_true Nat.two_pos (hheld.lt Nat.two_pos)
    (.bind (D.act_plain fun w _ => .initialized w sys initialState) fun appState => ?_)
  split_ifs
  · exact Plain.ret _
  · refine .bind (D.createMediaKeys sys) fun ok => ?_
    split_ifs
    · exact .bind (D.setAppState sys _) fun _ => Plain.ret _
    · exact Plain.ret _
  · exact .bind (D.setAppState sys _) fun _ => Plain.ret _

theorem notifyApplicationState (D : Discipline P k ρ) (hheld : Outside held) (sys : SystemId)
    (state : ApplicationState) :
    Plain P k held (CdmBackend.notifyApplicationState sys state : Code R Unit) := by
  refine D.withLock (m := .cdmBackend sys) inside_true Nat.two_pos (hheld.lt Nat.two_pos)
    (.bind (D.act_plain fun w _ => .notified w sys state) fun appState => ?_)
  split_ifs
  · exact Plain.ret _
  · refine .bind (D.createMediaKeys sys) fun ok => ?_
    split_ifs
    · exact .bind (D.setAppState sys _) fun _ => .signal keeps_true _
    · exact Plain.ret _
  · exact .bind (D.resetMediaKeys sys) fun _ => D.setAppState sys _

/-! ### Calls -/

theorem getChallengeReply (D : Discipline P k ρ) (hheld : Outside held) {session : Option Addr}
    (ho : ∀ a, session = some a → P.Always (ρ.own a))
    (hj : ∀ w a, P.inv w → (w.session a).isInitialized = false → ρ.join a w)
    (challenge challengeSize : Bool) (isLDL : UInt32) : Plain P k held
      (opencdmSessionGetChallengeData session challenge challengeSize isLDL : Code R ChallengeReply) := by
  cases session with
  | none => exact Plain.ret _
  | some a =>
    cases challengeSize with
    | false => exact Plain.ret _
    | true =>
      refine .bind (D.initializeSession hheld (ho a rfl) (fun w hi => hj w a hi) _) fun ok => ?_
      cases ok with
      | false => exact Plain.ret _
      | true =>
        refine .bind (D.getChallengeData hheld (ho a rfl)) fun read => ?_
        cases read <;> exact Plain.ret _

/-- Every call is safe wherever it starts. -/
theorem entry (D : Discipline P k ρ) {c : Call} (E : Entitled P ρ c) (hheld : Outside held) :
    Plain P k held (entry c : Code R Reply) := by
  cases c with
  | constructSession hint system licenseType initDataType initData callbacks userData =>
    exact .bind (D.constructSession hheld E.join (E.new trivial) hint E.backend licenseType initDataType
      initData callbacks userData) fun _ => Plain.ret _
  | destructSession session =>
    exact .bind (.bind (D.remove hheld session) fun _ => Plain.ret _) fun _ => Plain.ret _
  | operation session op =>
    exact .bind (D.operation_code hheld (fun a h => E.own a h) E.leave) fun _ => Plain.ret _
  | getChallengeData session challenge challengeSize isLDL =>
    exact .bind (D.getChallengeReply hheld (fun a h => E.own a h) E.join challenge challengeSize isLDL)
      fun _ => Plain.ret _
  | hasKeyId session keyId =>
    refine .bind (p := opencdmSessionHasKeyId session keyId) ?_ fun _ => Plain.ret _
    cases session with
    | none => exact Plain.ret _
    | some a => exact .bind (D.operation hheld (E.own a rfl) fun _ => rfl) fun _ => Plain.ret _
  | sessionStatus session keyId =>
    refine .bind (p := opencdmSessionStatus session keyId) ?_ fun _ => Plain.ret _
    unfold opencdmSessionStatus
    split
    · next a key =>
      split_ifs
      · exact D.status inside_true (fun w hi _ => .inl (E.own a rfl w hi)) key
      · exact Plain.ret _
    · exact Plain.ret _
  | sessionId session =>
    refine .bind (p := opencdmSessionId session) ?_ fun _ => Plain.ret _
    cases session with
    | none => exact Plain.ret _
    | some a => exact .bind (D.readOwn inside_true (E.own a rfl) _) fun _ => Plain.ret _
  | getSession keyId =>
    exact .bind (D.getSession inside_true (hheld.lt_two) keyId) fun _ =>
      Plain.ret _
  | create hint cdm messageDispatcher sessionType callbacks context initDataType initData =>
    exact .bind (D.create hheld (fun _ => lasting_true) (fun _ _ _ _ _ => trivial) hint E.backend
      messageDispatcher sessionType callbacks context initDataType initData) fun _ => Plain.ret _
  | initializeSession session isLDL =>
    exact .bind (D.initializeSession hheld (E.own session rfl) (fun w hi => E.join w session hi) isLDL)
      fun _ => Plain.ret _
  | generateRequest session initDataType initData =>
    exact .bind (D.generateRequest hheld (E.own session rfl) initDataType initData) fun _ =>
      Plain.ret _
  | initializeBackend sys initialState =>
    exact .bind (D.initializeBackend hheld sys initialState) fun _ => Plain.ret _
  | notifyApplicationState sys state =>
    exact .bind (D.notifyApplicationState hheld sys state) fun _ => Plain.ret _
  | deliver sys message lookups =>
    exact .bind (D.deliver hheld sys message lookups) fun _ => Plain.ret _

end Discipline

/-! ### Anything may be called -/

/-- Nothing is asked of a call. -/
def openRules : Rules R where
  own _ _ := True
  join _ _ := True
  leave _ _ := True
  delete _ _ := True
  opened _ _ := True
  granted _ _ _ := True
  backend _ := True

/-- What every step keeps is kept whatever is called. -/
theorem openSound {P : Protocol (World R) Mutex Call}
    (hact : ∀ c held w w', P.inv w → Act openRules held w w' → P.may c held w w' ∧ P.inv w')
    (hjournal : ∀ c held w w', P.may c held w w' → w.journal <:+ w'.journal)
    (hclients : ∀ c held w w' sys, P.may c held w w' → .dispatcher sys ∉ held →
      w'.clients sys = w.clients sys)
    (hrequest : ∀ c held m w, Ordered held m w → P.request c held m w) (hfree : ∀ m w, P.free m w) :
    Sound P (fun _ _ _ => True) entry where
  free_stable _ _ _ _ m _ _ _ _ := hfree m _
  post_stable _ _ _ _ _ _ _ _ _ := trivial
  entry c w hi := by
    have D : Discipline P c openRules :=
      { act := hact c
        journal := hjournal
        clients := hclients
        request := hrequest c
        free := fun m w _ _ => hfree m w
        own_lasting := fun _ => lasting_true
        join_lasting := fun _ => lasting_true
        leave_lasting := fun _ => lasting_true
        delete_lasting := fun _ => lasting_true
        opened_lasting := fun _ => lasting_true
        granted_lasting := fun _ _ => lasting_true
        opened := fun _ _ _ _ => trivial
        granted := fun _ _ _ _ => trivial
        backend := fun _ _ _ _ _ => trivial
        delete := fun _ _ _ => trivial }
    have E : Entitled P openRules c :=
      { own := fun _ _ _ _ => trivial
        join := fun _ _ _ _ => trivial
        leave := fun _ _ _ _ => trivial
        new := fun _ _ _ _ _ _ => ⟨trivial, trivial⟩
        backend := fun _ _ => trivial }
    refine (D.entry E outside_nil w hi trivial).mono ?_ hi
    rintro r _ w' - ⟨rfl, -, -⟩
    exact ⟨rfl, trivial⟩

end RialtoOcdm
