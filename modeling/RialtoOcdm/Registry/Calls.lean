import RialtoOcdm.Registry.Interleaving

/-! Every call uses the registry as it is meant to be used: outside of `ActiveSessions` the
library makes and deletes no sessions and leaves the counts alone, and a call returns with
the references that it hands over, unless the application keeps one that it has looked up. -/

namespace RialtoOcdm.Registry

open Concurrency Prog Rialto OpenCDMSessionPrivate

variable {R : Type} {α β : Type} {careful : Prop} {c : Call} {s : Option Addr}

/-- What a thread has after a part of the call `c`. -/
def Leaves (c : Call) (g g' : Multiset Addr) : Prop := g ≤ g' ∧ (¬ LooksUp c → g' = g)

theorem Leaves.refl (g : Multiset Addr) : Leaves c g g := ⟨le_rfl, fun _ => rfl⟩

theorem Leaves.trans (g₁ g₂ g₃ : Multiset Addr) (h : Leaves c g₁ g₂) (h' : Leaves c g₂ g₃) :
    Leaves c g₁ g₃ := ⟨h.1.trans h'.1, fun hc => (h'.2 hc).trans (h.2 hc)⟩

/-- A step of code about the session `s`, if it is about one. It uses no other, and is nothing
to the registry. -/
structure Touches (s : Option Addr) (w w' : World R) : Prop extends Unrelated w w' where
  used : (∀ a, s = some a → ∀ m, w.has a m = true) → NoMisuse w w'

namespace Touches

variable {s : Option Addr} {w w' w'' : World R}

theorem refl (w : World R) : Touches s w w := ⟨.refl w, fun _ => .same rfl⟩

/-- A step that does not show in the journal and leaves the registry alone. -/
theorem same (hu : Unrelated w w') (h : w'.journal = w.journal) : Touches s w w' :=
  ⟨hu, fun _ => .same h⟩

theorem has (h : Unrelated w w') (a : Addr) (m : Member) : w'.has a m = w.has a m := by
  have ho := h.objects a
  unfold World.has
  cases hw : w.heap[a]? <;> cases hw' : w'.heap[a]? <;> simp_all

theorem trans (h : Touches s w w') (h' : Touches s w' w'') : Touches s w w'' where
  toUnrelated := h.toUnrelated.trans h'.toUnrelated
  used hs a m hm := h.used hs a m (h'.used (fun b hb m => (has h.toUnrelated b m).trans (hs b hb m)) a m hm)

theorem record (w : World R) {e : Event} (hc : constructed [e] = []) (hd : destructed [e] = [])
    (he : ∀ a m, e ≠ .misused a m) : Touches s w (w.record e) := ⟨.record w hc hd, fun _ => .record w he⟩

theorem use (w : World R) (a : Addr) (m : Member) : Touches (some a) w (w.use a m) where
  toUnrelated := .use w a m
  used hs := by
    rw [World.use_of_has (hs a rfl m)]
    exact .same rfl

theorem updateSession (w : World R) (a : Addr) (f : Session → Session) :
    Touches s w (w.updateSession a f) := .same (.updateSession w a f) rfl

theorem useUpdate (w : World R) (a : Addr) (m : Member) (f : Session → Session) :
    Touches (some a) w ((w.use a m).updateSession a f) := (use w a m).trans (.updateSession _ a f)

theorem updateClients (w : World R) (sys : SystemId) (f : Std.ExtTreeSet Addr → Std.ExtTreeSet Addr) :
    Touches s w (w.updateClients sys f) := .same (.updateClients w sys f) rfl

theorem updateBackend (w : World R) (sys : SystemId) (f : CdmBackend → CdmBackend) :
    Touches s w (w.updateBackend sys f) := .same ⟨rfl, rfl, fun _ => rfl, rfl, rfl⟩ rfl

end Touches

/-- Who uses the session `s` in the call `c`: its thread has a reference to it, or the call is
about it, or it handles a message. -/
def Entitled (careful : Prop) (c : Call) (s : Option Addr) (g : Multiset Addr) : Prop :=
  careful → ∀ a, s = some a → (a ∈ g ∨ c.ActsFor a) ∨ Handles c

/-- A part of the call `c` outside of the registry, about the session `s`. -/
def Aside (careful : Prop) (c : Call) (s : Option Addr) (p : Code R α) : Prop :=
  p.Apart (registry R careful) .activeSessions c (Entitled careful c s) (Leaves c)

namespace Aside

variable {p : Code R α}

theorem ret (r : α) : Aside careful c s (.ret r : Code R α) := Apart.ret Leaves.refl r

theorem bind {k : α → Code R β} (h : Aside careful c s p) (hk : ∀ r, Aside careful c s (k r)) :
    Aside careful c s (p >>= k) := Apart.bind Leaves.trans h hk

theorem act {f : World R → World R} {k : World R → Code R α} (hf : ∀ w, Touches s w (f w))
    (hk : ∀ w, Aside careful c s (k w)) : Aside careful c s (.act f k : Code R α) := by
  refine Apart.act (fun g w hs hknown => ⟨(hf w).toUnrelated, fun hcareful hno => ?_⟩) hk
  exact (hf w).used fun a ha => hknown hcareful a ((hs hcareful a ha).resolve_right hno)

theorem modify {f : World R → World R} (hf : ∀ w, Touches s w (f w)) :
    Aside careful c s (.modify f : Code R Unit) := act hf fun _ => ret ()

theorem update {f : World R → α × World R} (hf : ∀ w, Touches s w (f w).2) :
    Aside careful c s (.update f : Code R α) := act hf fun _ => ret _

theorem read : Aside careful c s (.read : Code R (World R)) := act Touches.refl ret

theorem withLock {m : Mutex} (hm : m ≠ .activeSessions) (h : Aside careful c s p) :
    Aside careful c s (withLock m p) := Apart.withLock hm h

theorem wait {cv : Condition} {m : Mutex} {timed : Bool} {ready : World R → Bool}
    (hm : m ≠ .activeSessions) : Aside careful c s (.wait cv m timed ready (.ret ()) : Code R Unit) :=
  Apart.wait hm (ret ())

theorem signal (cv : Condition) : Aside careful c s (.signal cv : Code R Unit) := Apart.notifyOne (ret ())

theorem forM {l : List β} {f : β → Code R PUnit} (h : ∀ b ∈ l, Aside careful c s (f b)) :
    Aside careful c s (l.forM f) := Apart.forM Leaves.refl Leaves.trans h

theorem readMember (a : Addr) (m : Member) (f : Session → β) :
    Aside careful c (some a) (readMember a m f : Code R β) := act (fun w => .use w a m) fun _ => ret _

theorem writeMember (a : Addr) (m : Member) (f : Session → Session) :
    Aside careful c (some a) (writeMember a m f : Code R Unit) := modify fun w => .useUpdate w a m f

theorem locked (a : Addr) (h : Aside careful c (some a) p) : Aside careful c (some a) (locked a p) :=
  bind (modify fun w => .use w a _) fun _ => withLock (by simp) h

/-- Who handles a message may use any session. -/
theorem of_handles {s' : Option Addr} (hc : Handles c) (h : Aside careful c s p) : Aside careful c s' p := by
  refine fun g _ => (h g fun _ _ _ => .inr hc).mono ?_
  rintro r g' z ⟨hz, -, hg⟩
  exact ⟨hz, fun _ _ _ => .inr hc, hg⟩

end Aside

/-! ### The backend -/

theorem Touches.storeKeySessionId (a : Addr) (sessionType : KeySessionType) (isLDL : Bool) (i : ℕ)
    (answer : Answer (.createKeySession sessionType isLDL)) (w : World R) :
    Touches (some a) w (CdmBackend.storeKeySessionId a sessionType isLDL i answer w) := by
  unfold CdmBackend.storeKeySessionId
  cases answer.out with
  | none =>
    dsimp only
    split_ifs
    · exact .record w rfl rfl (by nofun)
    · exact .refl w
  | some id =>
    have hstored := Touches.useUpdate w a .rialtoSessionId ({ · with rialtoSessionId := id })
    dsimp only
    split_ifs
    · exact hstored.trans (.record _ rfl rfl (by nofun))
    · exact hstored

theorem Touches.storeCdmKeySessionId (a : Addr) (keySessionId : Int32)
    (answer : Answer (.getCdmKeySessionId keySessionId)) (w : World R) :
    Touches (some a) w (CdmBackend.storeCdmKeySessionId a keySessionId answer w) := by
  unfold CdmBackend.storeCdmKeySessionId
  split
  · exact .refl w
  · exact .useUpdate w a _ _

section Backend

variable [MediaKeys R]

theorem Touches.createMediaKeys (w : World R) (sys : SystemId) :
    Touches s w (w.createMediaKeys sys).2 := by
  unfold World.createMediaKeys World.assignMediaKeys
  dsimp only
  split_ifs
  · exact ⟨⟨rfl, rfl, fun _ => rfl, rfl, rfl⟩, fun _ => .record _ (by nofun)⟩
  · exact ⟨⟨rfl, rfl, fun _ => rfl, rfl, rfl⟩, fun _ => .record _ (by nofun)⟩

/-- A call of the instance, if what is stored is nothing to the registry. -/
theorem Touches.ask (w : World R) (sys : SystemId) {call : MediaKeysCall}
    {store : ℕ → Answer call → World R → World R} (hstore : ∀ i answer w, Touches s w (store i answer w)) :
    Touches s w (w.ask sys call store).2 := by
  apply World.ask_snd (p := Touches s w) (.record w rfl rfl (by nofun))
  intro i
  have hcalled : Touches s w ((w.setRialto (MediaKeys.call i call w.rialto).2).record
    (.forwarded sys i call)) := ⟨⟨rfl, rfl, fun _ => rfl, rfl, rfl⟩, fun _ => .record _ (by nofun)⟩
  exact hcalled.trans (hstore i _ _)

theorem forward_aside (sys : SystemId) {call : MediaKeysCall}
    {store : ℕ → Answer call → World R → World R} (hstore : ∀ i answer w, Touches s w (store i answer w)) :
    Aside careful c s (CdmBackend.forward sys call store : Code R _) :=
  .withLock (by simp) (.update fun w => .ask w sys hstore)

theorem pass_aside (sys : SystemId) (call : MediaKeysCall) :
    Aside careful c s (CdmBackend.pass sys call : Code R _) := forward_aside sys fun _ _ => .refl

theorem createMediaKeys_aside (sys : SystemId) :
    Aside careful c s (CdmBackend.createMediaKeys sys : Code R Bool) := by
  refine .bind .read fun w => ?_
  split_ifs
  · exact .update fun w => .createMediaKeys w sys
  · exact .bind (.modify fun w => .record w rfl rfl (by nofun)) fun _ => .ret false

theorem notifyApplicationState_aside (sys : SystemId) (state : ApplicationState) :
    Aside careful c s (CdmBackend.notifyApplicationState sys state : Code R Unit) := by
  refine .withLock (by simp) (.bind (.update fun w => .record w rfl rfl (by nofun)) fun appState => ?_)
  split_ifs
  · exact .ret ()
  · refine .bind (createMediaKeys_aside sys) fun made => ?_
    split_ifs
    · exact .bind (.modify fun w => .updateBackend w sys _) fun _ => .signal _
    · exact .ret ()
  · exact .bind (.modify fun w => .updateBackend w sys _) fun _ =>
      .modify fun w => .updateBackend w sys _

theorem initializeBackend_aside (sys : SystemId) (initialState : ApplicationState) :
    Aside careful c s (CdmBackend.initializeBackend sys initialState : Code R Bool) := by
  refine .withLock (by simp) (.bind (.update fun w => .record w rfl rfl (by nofun)) fun appState => ?_)
  have hset : Aside careful c s (CdmBackend.setAppState sys initialState : Code R Unit) :=
    .modify fun w => .updateBackend w sys _
  split_ifs
  · exact .ret true
  · refine .bind (createMediaKeys_aside sys) fun made => ?_
    split_ifs
    · exact .bind hset fun _ => .ret true
    · exact .ret false
  · exact .bind hset fun _ => .ret true

theorem createKeySession_aside (sys : SystemId) (sessionType : KeySessionType) (isLDL : Bool) (a : Addr) :
    Aside careful c (some a) (CdmBackend.createKeySession sys sessionType isLDL a : Code R Bool) := by
  refine .withLock (by simp) (.bind (.wait (by simp)) fun _ => ?_)
  exact .bind (.update fun w => .ask w sys (.storeKeySessionId a sessionType isLDL)) fun answer =>
    .ret answer.ok

end Backend

/-! ### Sessions -/

theorem createClient_aside (sys : SystemId) (a : Addr) :
    Aside careful c s (MessageDispatcher.createClient sys a : Code R _) :=
  .bind (.withLock (by simp) (.modify fun w => .updateClients w sys _)) fun _ => .ret _

theorem assignClient_aside (a : Addr) (handle : Option MessageDispatcherClient) :
    Aside careful c (some a) (assignClient a handle : Code R Unit) := by
  refine .bind (.update fun w => ?_) fun old => ?_
  · dsimp only
    exact .useUpdate w a _ _
  · cases old with
    | none => exact .ret ()
    | some old => exact .withLock (by simp) (.modify fun w => .updateClients w _ _)

theorem status_aside (a : Addr) (key : Bytes) : Aside careful c (some a) (status a key : Code R KeyStatus) := by
  refine .bind (.readMember a _ _) fun keyStatuses => ?_
  split <;> exact .ret _

theorem onKeySessionWhere_aside (a : Addr) {guard : Code R Bool} {p : SystemId → Int32 → Code R Bool}
    (hguard : Aside careful c (some a) guard) (h : ∀ cdm id, Aside careful c (some a) (p cdm id)) :
    Aside careful c (some a) (onKeySessionWhere a guard p) := by
  refine .bind (.readMember a _ _) fun cdm => ?_
  cases cdm with
  | none => exact .ret false
  | some cdm =>
    refine .bind hguard fun ok => ?_
    split_ifs
    · refine .bind (.readMember a _ _) fun id => ?_
      split_ifs
      · exact .bind (.readMember a _ _) fun id => h cdm id
      · exact .ret false
    · exact .ret false

theorem onKeySession_aside (a : Addr) {p : SystemId → Int32 → Code R Bool}
    (h : ∀ cdm id, Aside careful c (some a) (p cdm id)) : Aside careful c (some a) (onKeySession a p) :=
  onKeySessionWhere_aside a (.ret true) h

theorem waitForChallenge_aside (a : Addr) :
    Aside careful c (some a) (waitForChallenge a : Code R Bytes) := by
  refine .locked a (.bind (.modify fun w => .use w a _) fun _ => ?_)
  exact .bind (.wait (by simp)) fun _ => .act (fun w => .use w a _) fun w => .ret _

section Sessions

variable [MediaKeys R]

theorem getLastDrmError_aside (a : Addr) : Aside careful c (some a) (getLastDrmError a : Code R UInt32) := by
  refine .bind (.readMember a _ _) fun cdm => ?_
  cases cdm with
  | none => exact .ret _
  | some cdm =>
    exact .bind (.readMember a _ _) fun id => .bind (pass_aside cdm _) fun answer => .ret _

theorem orLastDrmError_aside (a : Addr) {p : Code R Bool} (h : Aside careful c (some a) p) :
    Aside careful c (some a) (orLastDrmError a p) := by
  refine .bind h fun ok => ?_
  split_ifs
  · exact .ret true
  · exact .bind (getLastDrmError_aside a) fun _ => .ret false

/-- An operation that passes a call on and answers whether it worked. -/
theorem pass_ok_aside (sys : SystemId) (call : MediaKeysCall) :
    Aside careful c s (do return (← CdmBackend.pass sys call).ok : Code R Bool) :=
  .bind (pass_aside sys call) fun answer => .ret answer.ok

theorem initializeSession_aside (a : Addr) (isLDL : Bool) :
    Aside careful c (some a) (initializeSession a isLDL : Code R Bool) := by
  refine .bind (.readMember a _ _) fun cdm => ?_
  cases cdm with
  | none => exact .ret false
  | some cdm =>
    refine .bind (.readMember a _ _) fun messageDispatcher => ?_
    cases messageDispatcher with
    | none => exact .ret false
    | some messageDispatcher =>
      refine .bind (.readMember a _ _) fun isInitialized => ?_
      split_ifs
      · exact .ret true
      · refine .bind (.readMember a _ _) fun sessionType => ?_
        refine .bind (orLastDrmError_aside a (createKeySession_aside cdm _ _ a)) fun created => ?_
        split_ifs
        · refine .bind (createClient_aside _ a) fun client => ?_
          exact .bind (assignClient_aside a client) fun _ => .bind (.writeMember a _ _) fun _ => .ret true
        · exact .ret false

theorem initializeCdmKeySessionId_aside (a : Addr) (cdm : SystemId) :
    Aside careful c (some a) (initializeCdmKeySessionId a cdm : Code R Unit) := by
  have hdefault : Aside careful c (some a) (writeMember a .cdmKeySessionId
      ({ · with cdmKeySessionId := kDefaultSessionId }) : Code R Unit) := .writeMember a _ _
  refine .bind (.readMember a _ _) fun id => ?_
  split_ifs
  · refine .bind (.readMember a _ _) fun id => .bind (.bind (forward_aside cdm fun _ answer w =>
      .storeCdmKeySessionId a id answer w) fun answer => .ret answer.ok) fun result => ?_
    dsimp only
    split_ifs
    · exact .ret ()
    · exact hdefault
  · exact hdefault

theorem request_aside (a : Addr) (cdm : SystemId) (id : Int32) (initDataType : InitDataType)
    (initData : Bytes) : Aside careful c (some a) (request a cdm id initDataType initData : Code R Bool) := by
  refine .bind (orLastDrmError_aside a (pass_ok_aside cdm _)) fun ok => ?_
  split_ifs
  · exact .bind (initializeCdmKeySessionId_aside a cdm) fun _ => .ret true
  · exact .ret false

theorem generateRequest_aside (a : Addr) (initDataType : String) (initData : Bytes) :
    Aside careful c (some a) (generateRequest a initDataType initData : Code R Bool) :=
  onKeySessionWhere_aside a (.ret _) fun cdm id => request_aside a cdm id _ initData

theorem closeSession_aside (a : Addr) : Aside careful c (some a) (closeSession a : Code R Bool) := by
  refine onKeySession_aside a fun cdm id => .bind (pass_ok_aside cdm _) fun ok => ?_
  split_ifs
  · refine .bind (.modify fun w => .record w rfl rfl (by nofun)) fun _ => ?_
    refine .bind (assignClient_aside a none) fun _ => ?_
    refine .bind (.modify fun w => ?_) fun _ => .bind (.writeMember a _ _) fun _ => .ret true
    exact (Touches.useUpdate w a _ _).trans (.record _ rfl rfl (by nofun))
  · exact .ret false

theorem updateSession_aside (a : Addr) (license : Bytes) :
    Aside careful c (some a) (updateSession a license : Code R Bool) :=
  onKeySession_aside a fun cdm _ => orLastDrmError_aside a (pass_ok_aside cdm _)

theorem getChallengeData_aside (a : Addr) :
    Aside careful c (some a) (getChallengeData a : Code R (Option Bytes)) := by
  have hguard : Aside careful c (some a) (do
      return (← readMember a .initDataType (·.initDataType)) ≠ .unknown : Code R Bool) :=
    .bind (.readMember a _ _) fun initDataType => .ret _
  have hrequest : Aside careful c (some a) (requestChallenge a : Code R Bool) :=
    onKeySessionWhere_aside a hguard fun cdm id => .bind (.readMember a _ _) fun initDataType =>
      .bind (.readMember a _ _) fun initData => request_aside a cdm id initDataType initData
  refine .bind hrequest fun ok => ?_
  split_ifs
  · exact .bind (waitForChallenge_aside a) fun challenge => .ret (some challenge)
  · exact .ret none

theorem operation_aside (session : Option Addr) (op : Operation) :
    Aside careful c session (op.code session : Code R OpenCDMError) := by
  have hon : ∀ (null : OpenCDMError) {p : Addr → Code R Bool}, (∀ a, Aside careful c (some a) (p a)) →
      Aside careful c session (onSession session null p) := by
    rintro null p hp
    cases session with
    | none => exact .ret null
    | some a => exact .bind (hp a) fun ok => .ret (errorOf ok)
  have hlicense : ∀ license : Option Bytes,
      Aside careful c session (onLicense session license : Code R OpenCDMError) := by
    intro license
    unfold onLicense
    split
    · exact .ret _
    · exact .ret _
    · split_ifs
      · exact .ret _
      · exact .bind (updateSession_aside _ _) fun ok => .ret (errorOf ok)
  cases op with
  | close => exact hon _ closeSession_aside
  | cleanDecryptContext => exact hon _ closeSession_aside
  | load => exact hon _ fun a => onKeySession_aside a fun cdm _ => orLastDrmError_aside a (pass_ok_aside cdm _)
  | remove => exact hon _ fun a => onKeySession_aside a fun cdm _ => pass_ok_aside cdm _
  | setDrmHeader drmHeader => exact hon _ fun a => onKeySession_aside a fun cdm _ => pass_ok_aside cdm _
  | update keyMessage => exact hlicense keyMessage
  | storeLicenseData licenseData => exact hlicense licenseData
  | selectKeyId keyId =>
    change Aside careful c session (opencdmSessionSelectKeyId session keyId)
    unfold opencdmSessionSelectKeyId
    split
    · split_ifs
      · exact .ret _
      · exact .bind (.bind (.writeMember _ _ _) fun _ => .ret true) fun ok => .ret (errorOf ok)
    · exact .ret _
  | systemError =>
    cases session with
    | none => exact .ret _
    | some a => exact .bind (getLastDrmError_aside a) fun _ => .ret _
  | cancelChallengeData => exact .ret _

theorem opencdmSessionGetChallengeData_aside (session : Option Addr) (challenge challengeSize : Bool)
    (isLDL : UInt32) : Aside careful c session
      (opencdmSessionGetChallengeData session challenge challengeSize isLDL : Code R ChallengeReply) := by
  unfold opencdmSessionGetChallengeData
  cases session with
  | none => exact .ret _
  | some a =>
    cases challengeSize with
    | false => exact .ret _
    | true =>
      refine .bind (initializeSession_aside a _) fun initialized => ?_
      cases initialized with
      | false => exact .ret _
      | true =>
        refine .bind (getChallengeData_aside a) fun read => ?_
        cases read with
        | none => exact .ret _
        | some read => exact .ret _

end Sessions

/-! ### Messages -/

section Messages

variable {sys : SystemId} {message : Message} {lookups : Addr → Callback → List Bytes}

/-- What a look-up finds the application keeps. -/
theorem lookUp_aside (a : Addr) (callback : Callback) :
    Aside careful (.deliver sys message lookups) (some a) (lookUp lookups a callback : Code R Unit) := by
  refine .forM fun key hkey => .bind (fun g _ => (get_serves key).mono ?_) fun _ => .ret _
  have hlooks : LooksUp (.deliver sys message lookups) := ⟨a, callback, List.ne_nil_of_mem hkey⟩
  rintro r g' z ⟨hz, rfl⟩
  refine ⟨hz, fun _ _ _ => .inr trivial, ?_, fun hnot => absurd hlooks hnot⟩
  cases r with
  | none => exact le_rfl
  | some b => exact Multiset.le_cons_self g b

theorem invoke_aside (a : Addr) (callback : Callback) :
    Aside careful (.deliver sys message lookups) (some a) (invoke (lookUp lookups) a callback : Code R Unit) :=
  .bind (.modify fun w => .record w rfl rfl (by nofun)) fun _ => lookUp_aside a callback

theorem updateChallenge_aside (a : Addr) (challenge : Bytes) :
    Aside careful c (some a) (updateChallenge a challenge : Code R Unit) := by
  refine .locked a (.bind (.modify fun w => ?_) fun _ => .bind (.modify fun w => .use w a _) fun _ => .signal _)
  exact (Touches.useUpdate w a _ _).trans (.record _ rfl rfl (by nofun))

theorem onLicenseMessage_aside (a : Addr) (keySessionId : Int32) (license : Bytes) (url : String) :
    Aside careful (.deliver sys message lookups) (some a)
      (onLicenseMessage (lookUp lookups) a keySessionId license url : Code R Unit) := by
  refine .bind (.readMember a _ _) fun id => ?_
  split_ifs
  · refine .bind (updateChallenge_aside a license) fun _ => .bind (.readMember a _ _) fun callbacks => ?_
    split_ifs
    · exact .bind (.readMember a _ _) fun context => invoke_aside a _
    · exact .ret ()
  · exact .ret ()

theorem onKeyStatusesChanged_aside (a : Addr) (keySessionId : Int32)
    (keyStatuses : List (Bytes × Rialto.KeyStatus)) : Aside careful (.deliver sys message lookups) (some a)
      (onKeyStatusesChanged (lookUp lookups) a keySessionId keyStatuses : Code R Unit) := by
  have hstatus : ∀ keyStatus, Aside careful (.deliver sys message lookups) (some a)
      (onKeyStatus (lookUp lookups) a keyStatus : Code R Unit) := fun keyStatus =>
    .bind (.writeMember a _ _) fun _ => .bind (.readMember a _ _) fun context => invoke_aside a _
  refine .bind (.readMember a _ _) fun id => ?_
  split_ifs
  · refine .bind (.readMember a _ _) fun callbacks => ?_
    split_ifs
    · refine .bind (.forM fun keyStatus _ => hstatus keyStatus) fun _ => ?_
      exact .bind (.readMember a _ _) fun context => invoke_aside a _
    · exact .bind (.forM fun keyStatus _ => hstatus keyStatus) fun _ => .ret ()
    · exact .ret ()
  · exact .ret ()

theorem deliver_aside : Aside careful (.deliver sys message lookups) none
    (MessageDispatcher.deliver (mediaKeysClient (lookUp lookups)) sys message : Code R Unit) := by
  rw [deliver_eq]
  refine .withLock (by simp) (.bind (.update fun w => .record w rfl rfl (by nofun)) fun clients =>
    .forM fun a _ => .of_handles trivial (s := some a) ?_)
  cases message with
  | licenseRequest id license url => exact onLicenseMessage_aside a id license url
  | licenseRenewal id license => exact onLicenseMessage_aside a id license ""
  | keyStatusesChanged id keyStatuses => exact onKeyStatusesChanged_aside a id keyStatuses

end Messages

/-! ### Calls -/

/-- A call that makes and deletes no session and that hands over no reference. -/
theorem Aside.returns {p : Code R α} (h : Aside careful c s p) (reply : α → Reply) (htaken : taken c = 0)
    (hgiven : ∀ r, given c (reply r) = 0) (hs : ∀ a, s = some a → c.ActsFor a) :
    (p >>= fun r => .ret (reply r)).Serves (registry R careful) .activeSessions c
      ((registry R careful).Returns c) ((registry R careful).start c) none := by
  refine Serves.bind ((h _ fun _ a ha => .inl (.inr (hs a ha))).mono ?_)
  rintro r g' z ⟨hz, -, -, hsame⟩
  refine ⟨hz, ?_, fun hc => ?_⟩
  · rw [hgiven]
    exact Multiset.zero_le g'
  · rw [hgiven, hsame hc]
    exact htaken

variable [MediaKeys R]

theorem opencdmSessionHasKeyId_aside (session : Option Addr) (keyId : Bytes) :
    Aside careful c session (opencdmSessionHasKeyId session keyId : Code R UInt32) := by
  cases session with
  | none => exact .ret 0
  | some a =>
    exact .bind (onKeySession_aside a fun cdm _ => pass_ok_aside cdm _) fun found => .ret _

omit [MediaKeys R] in
theorem opencdmSessionStatus_aside (session : Option Addr) (keyId : Option Bytes) :
    Aside careful c session (opencdmSessionStatus session keyId : Code R KeyStatus) := by
  unfold opencdmSessionStatus
  split
  · split_ifs
    · exact status_aside _ _
    · exact .ret _
  · exact .ret _

omit [MediaKeys R] in
theorem opencdmSessionId_aside (session : Option Addr) :
    Aside careful c session (opencdmSessionId session : Code R (Option String)) := by
  cases session with
  | none => exact .ret none
  | some a => exact .bind (.readMember a _ _) fun id => .ret (some id)

/-- The new session is removed again if it does not get a key session. -/
theorem constructSession_serves (hint : Addr) (sys : SystemId) (licenseType : LicenseType)
    (initDataType : String) (initData : Bytes) (callbacks : Option OpenCDMSessionCallbacks)
    (userData : Addr) (hc : ¬ LooksUp c) : (opencdmConstructSession hint (some sys) licenseType
      initDataType initData callbacks userData : Code R _).Serves (registry R careful) .activeSessions c
        (fun r g z => z = none ∧ g = r.2.elim 0 fun a => {a}) 0 none := by
  refine Serves.bind ((create_serves hint _ _ _ _ _ _ _).mono ?_)
  rintro a _ _ ⟨rfl, rfl⟩ w
  have hremove : ∀ e : OpenCDMError, (do
      ActiveSessions.remove (some a)
      return (e, none) : Code R (OpenCDMError × Option Addr)).Serves (registry R careful) .activeSessions c
        (fun r g z => z = none ∧ g = r.2.elim 0 fun a => {a}) {a} none := by
    refine fun e => Serves.bind ((remove_serves (Multiset.mem_singleton_self a)).mono ?_)
    rintro _ _ z ⟨hz, rfl⟩
    exact ⟨hz, Multiset.erase_singleton a⟩
  have hentitled : Entitled careful c (some a) {a} := by
    rintro - b ⟨⟩
    exact .inl (.inl (Multiset.mem_singleton_self a))
  refine fun _ => ⟨.refl w, fun _ _ => .same rfl, ?_⟩
  dsimp only
  rw [bind_ret_code]
  split_ifs
  · exact ⟨rfl, rfl⟩
  · refine Serves.bind ((initializeSession_aside a false _ hentitled).mono ?_)
    rintro initialized _ _ ⟨rfl, -, -, hsame⟩
    obtain rfl := hsame hc
    cases initialized with
    | false => exact hremove .fail
    | true =>
      refine Serves.bind ((generateRequest_aside a initDataType initData _ hentitled).mono ?_)
      rintro generated _ _ ⟨rfl, -, -, hsame⟩
      obtain rfl := hsame hc
      cases generated with
      | false =>
        refine Serves.bind ((operation_aside (some a) .close _ hentitled).mono ?_)
        rintro _ _ _ ⟨rfl, -, -, hsame⟩
        obtain rfl := hsame hc
        exact hremove .fail
      | true => exact ⟨rfl, rfl⟩

/-- The code of a call may rely on the registry, and keeps it. -/
theorem entry_serves (c : Call) : (entry c : Code R Reply).Serves (registry R careful) .activeSessions c
    ((registry R careful).Returns c) ((registry R careful).start c) none := by
  cases c with
  | constructSession hint system licenseType initDataType initData callbacks userData =>
    cases system with
    | none => exact ⟨rfl, le_rfl, fun _ => rfl⟩
    | some sys =>
      refine Serves.bind ((constructSession_serves hint sys licenseType initDataType initData callbacks
        userData id).mono ?_)
      rintro ⟨e, session⟩ _ z ⟨hz, rfl⟩
      cases session with
      | none => exact ⟨hz, le_rfl, fun _ => rfl⟩
      | some a => exact ⟨hz, le_rfl, fun _ => rfl⟩
  | destructSession session =>
    cases session with
    | none =>
      refine Serves.bind (Serves.bind (remove_null.mono ?_))
      rintro _ _ z ⟨hz, rfl⟩
      exact ⟨hz, le_rfl, fun _ => rfl⟩
    | some a =>
      refine Serves.bind (Serves.bind ((remove_serves (Multiset.mem_singleton_self a)).mono ?_))
      rintro _ _ z ⟨hz, rfl⟩
      exact ⟨hz, Multiset.zero_le _, fun _ => Multiset.erase_singleton a⟩
  | operation session op => exact (operation_aside session op).returns .error rfl (fun _ => rfl) fun _ => id
  | getChallengeData session challenge challengeSize isLDL =>
    exact (opencdmSessionGetChallengeData_aside session challenge challengeSize isLDL).returns .challenge
      rfl (fun _ => rfl) fun _ => id
  | hasKeyId session keyId =>
    exact (opencdmSessionHasKeyId_aside session keyId).returns .number rfl (fun _ => rfl) fun _ => id
  | sessionStatus session keyId =>
    exact (opencdmSessionStatus_aside session keyId).returns .status rfl (fun _ => rfl) fun _ => id
  | sessionId session => exact (opencdmSessionId_aside session).returns .id rfl (fun _ => rfl) fun _ => id
  | getSession keyId =>
    refine Serves.bind ((get_serves keyId).mono ?_)
    rintro r _ z ⟨hz, rfl⟩
    cases r with
    | none => exact ⟨hz, le_rfl, fun _ => rfl⟩
    | some a => exact ⟨hz, le_rfl, fun _ => rfl⟩
  | create hint cdm messageDispatcher sessionType callbacks context initDataType initData =>
    refine Serves.bind ((create_serves hint cdm messageDispatcher sessionType callbacks context initDataType
      initData).mono ?_)
    rintro a _ z ⟨hz, rfl⟩
    exact ⟨hz, le_rfl, fun _ => rfl⟩
  | initializeSession session isLDL =>
    exact (initializeSession_aside session isLDL).returns .ok rfl (fun _ => rfl) fun _ => Option.some.inj
  | generateRequest session initDataType initData =>
    exact (generateRequest_aside session initDataType initData).returns .ok rfl (fun _ => rfl)
      fun _ => Option.some.inj
  | initializeBackend sys initialState =>
    exact (initializeBackend_aside (s := none) sys initialState).returns .ok rfl (fun _ => rfl) (by nofun)
  | notifyApplicationState sys state =>
    exact (notifyApplicationState_aside (s := none) sys state).returns (fun _ => .done) rfl (fun _ => rfl)
      (by nofun)
  | deliver sys message lookups => exact deliver_aside.returns (fun _ => .done) rfl (fun _ => rfl) (by nofun)

end RialtoOcdm.Registry
