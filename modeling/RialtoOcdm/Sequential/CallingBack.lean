import RialtoOcdm.Concurrency.Relock
import RialtoOcdm.Sequential.Clients

/-! Calling back. The application is called back by a thread that holds the lock of the
dispatcher, which is not recursive. What it calls then blocks the thread for good where
it adds a client to the dispatcher or removes one. -/

namespace RialtoOcdm

open Concurrency Prog OpenCDMSessionPrivate Rialto

/-- What an application may call for the system that calls it back. -/
inductive BackCall
  | constructSession (hint : Addr) (licenseType : LicenseType) (initDataType : String)
      (initData : Bytes) (callbacks : Option OpenCDMSessionCallbacks) (userData : Addr)
  | update (session : Option Addr) (keyMessage : Option Bytes)
  | close (session : Option Addr)
  | cleanDecryptContext (session : Option Addr)
  | destructSession (session : Option Addr)
  | getSession (keyId : Bytes)
  | sessionStatus (session : Option Addr) (keyId : Option Bytes)

def BackCall.call (sys : SystemId) : BackCall → Call
  | constructSession hint licenseType initDataType initData callbacks userData =>
    .constructSession hint (some sys) licenseType initDataType initData callbacks userData
  | update session keyMessage => .operation session (.update keyMessage)
  | close session => .operation session .close
  | cleanDecryptContext session => .operation session .cleanDecryptContext
  | destructSession session => .destructSession session
  | getSession keyId => .getSession keyId
  | sessionStatus session keyId => .sessionStatus session keyId

variable {R : Type}

/-- What an application does in a callback: it calls, as the state is then and as it was
answered before. -/
inductive Reaction (R : Type)
  | done
  | call (c : World R → BackCall) (next : Reply → Reaction R)

/-- The session has a handle of the dispatcher. -/
def World.Attached (w : World R) (sys : SystemId) (a : Addr) : Prop :=
  ∃ client, (w.session a).messageDispatcherClient = some ⟨sys, client⟩

variable [MediaKeys R]

def Reaction.code (sys : SystemId) : Reaction R → Code R Unit
  | done => return
  | call c next => do
    let w ← .read
    let reply ← entry ((c w).call sys)
    (next reply).code sys

/-- Rialto closes the key session of the session. -/
def World.Closes (w : World R) (a : Addr) : Prop :=
  ∃ cdm, (w.session a).cdmBackend = some cdm ∧ (w.session a).rialtoSessionId ≠ kInvalidSessionId ∧
    (w.ask cdm (.closeKeySession (w.session a).rialtoSessionId) fun _ _ w => w).1.ok = true

/-- The call comes to add a client to the dispatcher or to remove one. -/
def BackCall.Relocks (sys : SystemId) (w : World R) : BackCall → Prop
  | constructSession _ licenseType .. =>
    isPlayreadyKeysystem (w.backend sys).keySystem = false ∧ (w.ask sys (.createKeySession
      (getRialtoSessionType licenseType) false) fun _ _ w => w).1.ok = true
  | close session | cleanDecryptContext session =>
    ∃ a, session = some a ∧ w.Attached sys a ∧ w.Closes a
  | destructSession session =>
    ∃ a, session = some a ∧ w.activeSessions[a]? = some 1 ∧ w.Attached sys a
  | _ => False

/-- An application that makes no call that relocks. -/
def Reaction.Careful (sys : SystemId) : Reaction R → Prop
  | done => True
  | call c next => (∀ w, ¬ (c w).Relocks sys w) ∧ ∀ reply, (next reply).Careful sys

variable {I : World R → Prop} {held : List Mutex} {w : World R} {sys : SystemId} {a : Addr}

/-- Code that may do anything but lock what is held. -/
abbrev Passes (sys : SystemId) {α : Type} (p : Code R α) (w : World R) : Prop :=
  ∀ I : World R → Prop, p.Ensures I [.dispatcher sys] (fun _ _ => True) w

theorem any_tolerant : Tolerant fun _ _ : World R => True :=
  ⟨fun _ => trivial, fun _ _ _ _ _ => trivial, fun _ _ _ => trivial, fun _ _ _ _ => trivial⟩

omit [MediaKeys R] in
theorem cdmBackend_not_mem (s : SystemId) : .cdmBackend s ∉ [Mutex.dispatcher sys] := by simp

/-- The answer depends on the backend and on Rialto only. -/
theorem ask_answer {w w' : World R} (hb : w'.backend = w.backend) (hr : w'.rialto = w.rialto)
    {s : SystemId} {call : MediaKeysCall} {store store' : ℕ → Answer call → World R → World R} :
    (w'.ask s call store).1 = (w.ask s call store').1 := by
  simp only [World.ask, hb, hr]
  cases (w.backend s).mediaKeys <;> rfl

/-- A call is passed on after the members it needs were read. -/
theorem pass_answers (w : World R) (sys cdm : SystemId) (call : MediaKeysCall) (a : Addr) :
    (CdmBackend.pass cdm call).Ensures I [.dispatcher sys] (fun answer w₁ =>
      answer.ok = (w.ask cdm call fun _ _ w => w).1.ok ∧ w₁.session a = w.session a)
      (((w.use a .cdmBackend).use a .rialtoSessionId).use a .rialtoSessionId) :=
  (pass_ensures (by simp) call).mono fun answer w₁ hw₁ => by
    obtain ⟨rfl, rfl⟩ := Prod.ext_iff.mp hw₁
    refine ⟨congrArg Answer.ok (ask_answer ?_ ?_), (Still.ask _ cdm call).session a⟩ <;> rfl

/-! ### Closing -/

omit [MediaKeys R] in
theorem assignClient_passes (h : ¬ w.Attached sys a) (handle : Option MessageDispatcherClient) :
    Passes sys (assignClient a handle) w := by
  intro I
  simp only [assignClient, update_bind, ensures_act]
  cases hold : (w.session a).messageDispatcherClient with
  | none => simp
  | some old =>
    refine (removeClient_ensures (fun hmem => h ⟨old.client, ?_⟩) _).mono fun _ _ _ => trivial
    have hsys : old.dispatcher = sys := by simpa using hmem
    rw [hold, ← hsys]

omit [MediaKeys R] in
theorem assignClient_relocks (h : w.Attached sys a) (handle : Option MessageDispatcherClient) :
    (assignClient a handle).relocks [.dispatcher sys] w = true := by
  obtain ⟨client, h⟩ := h
  simp only [assignClient, update_bind, relocks, h]
  exact relocks_withLock (by simp)

theorem closeSession_passes (h : w.Attached sys a → ¬ w.Closes a) : Passes sys (closeSession a) w := by
  intro I
  rw [closeSession, onKeySession, onKeySessionWhere]
  simp only [readMember, act_bind, ret_bind, ensures_act, pure_eq, if_true]
  cases hcdm : (w.session a).cdmBackend with
  | none => exact ensures_ret.mpr trivial
  | some cdm =>
    simp only [ensures_act]
    split_ifs with hid
    · simp only [ensures_act]
      have hpass := pass_answers (I := I) w sys cdm
        (.closeKeySession (w.session a).rialtoSessionId) a
      refine .bind (.bind (hpass.mono ?_))
      rintro answer w₁ ⟨hok, hs⟩
      apply ensures_ret.mpr
      split_ifs with hanswer
      · have hnot : ¬ (w₁.record (.keySessionClosed (w₁.serial a))).Attached sys a := by
          rintro ⟨client, hc⟩
          exact h ⟨client, hs ▸ hc⟩ ⟨cdm, hcdm, Ne.symm hid, hok ▸ hanswer⟩
        refine .bind (ensures_modify.mpr (.bind ((assignClient_passes hnot none I).mono fun _ w₂ _ => ?_)))
        simp [writeMember]
      · exact ensures_ret.mpr trivial
    · exact ensures_ret.mpr trivial

theorem closeSession_relocks (h : w.Attached sys a) (hc : w.Closes a) :
    (closeSession a).relocks [.dispatcher sys] w = true := by
  obtain ⟨cdm, hcdm, hid, hok⟩ := hc
  rw [closeSession, onKeySession, onKeySessionWhere]
  simp only [readMember, act_bind, ret_bind, relocks, hcdm, pure_eq, if_true]
  have hne : -1 ≠ ((w.use a .cdmBackend).session a).rialtoSessionId := Ne.symm hid
  rw [if_pos hne]
  have hpass := pass_answers (I := fun _ => False) w sys cdm
    (.closeKeySession (w.session a).rialtoSessionId) a
  refine Ensures.relocks_bind (.bind (hpass.mono ?_))
  rintro answer w₁ ⟨hok₁, hs⟩
  apply ensures_ret.mpr
  rw [if_pos (hok₁.trans hok)]
  have hattached : (w₁.record (.keySessionClosed (w₁.serial a))).Attached sys a := by
    obtain ⟨client, hc⟩ := h
    exact ⟨client, hs ▸ hc⟩
  exact Prog.relocks_bind (p := assignClient a none) (assignClient_relocks hattached none)

/-! ### Destroying -/

omit [MediaKeys R] in
theorem freeHandle_of_not_attached {held : List Mutex} (h : ¬ w.Attached sys a)
    (hheld : ∀ s, .dispatcher s ∈ held → s = sys) : w.FreeHandle held a := fun handle hh hmem =>
  h ⟨handle.client, by rw [hh, ← hheld _ hmem]⟩

omit [MediaKeys R] in
theorem remove_passes (h : w.activeSessions[a]? = some 1 → ¬ w.Attached sys a) :
    Passes sys (ActiveSessions.remove (some a)) w := fun I =>
  (remove_ensures (by simp) fun hc => freeHandle_of_not_attached (h hc) (by simp)).mono
    fun _ _ _ => trivial

omit [MediaKeys R] in
theorem destroyHandle_relocks (h : w.Attached sys a) (hmem : .dispatcher sys ∈ held) :
    (destroyHandle a).relocks held w = true := by
  obtain ⟨client, h⟩ := h
  simp only [destroyHandle, update_bind, relocks, h]
  exact relocks_withLock hmem

omit [MediaKeys R] in
/-- The members that are destroyed before the handle leave it as it is. -/
theorem delete_relocks (h : w.Attached sys a) (hmem : .dispatcher sys ∈ held) :
    (delete a).relocks held w = true := by
  have hsplit : Member.all.reverse = [.keyStatuses, .playreadyKeyId, .challengeData, .isInitialized,
      .initData, .initDataType, .sessionType, .callbacks, .cdmKeySessionId, .rialtoSessionId] ++
      .messageDispatcherClient :: [.messageDispatcher, .cdmBackend, .context, .challengeCv, .mutex,
        .log] := rfl
  simp only [delete, note, modify_bind, relocks]
  rw [hsplit]
  refine Prog.relocks_bind (relocks_forM ((destroyMembers_ensures (fun hin => absurd hin (by decide))
    (by decide)).mono fun _ w' hw' => ?_))
  rw [if_neg (by decide)] at hw'
  have hattached : w'.Attached sys a := by
    obtain ⟨client, hc⟩ := h
    exact ⟨client, hw'.session ▸ hc⟩
  simp only [destroyMember, if_true]
  exact Prog.relocks_bind (destroyHandle_relocks hattached hmem)

omit [MediaKeys R] in
theorem remove_relocks (hc : w.activeSessions[a]? = some 1) (h : w.Attached sys a) :
    (ActiveSessions.remove (some a)).relocks [.dispatcher sys] w = true := by
  apply relocks_withLock_of
  simp only [read_bind, relocks, id, hc, modify_bind]
  exact Prog.relocks_bind (delete_relocks h (by simp))

/-! ### Constructing -/

section Constructing

variable {hint : Addr} {licenseType : LicenseType} {initDataType : String} {initData : Bytes}
  {callbacks : Option OpenCDMSessionCallbacks} {userData : Addr}

omit [MediaKeys R] in
theorem create_fresh (hheld : .activeSessions ∉ held) : (ActiveSessions.create hint (some sys)
    (some sys) licenseType callbacks userData initDataType initData).Ensures I held (fun a w₁ =>
      (∃ n, w₁.heap[a]? = some ⟨n, construct (some sys) (some sys) licenseType callbacks userData
        initDataType initData, []⟩) ∧ w₁.backend = w.backend ∧ w₁.rialto = w.rialto) w :=
  (create_ensures hheld hint _ _ _ _ _ _ _).mono fun a w₁ hw₁ => by
    obtain ⟨rfl, rfl⟩ := Prod.mk.inj hw₁
    exact ⟨⟨w.allocated + 1, by simp⟩, rfl, rfl⟩

theorem construct_passes (h : ¬ (BackCall.constructSession hint licenseType initDataType initData
    callbacks userData).Relocks sys w) : Passes sys (opencdmConstructSession hint (some sys) licenseType
      initDataType initData callbacks userData) w := by
  intro I
  refine .bind ((create_fresh (by simp)).mono fun a w₁ ⟨⟨n, ho⟩, hb, hr⟩ => .bind (ensures_read.mpr ?_))
  rw [hb]
  split_ifs with hplayready
  · exact ensures_ret.mpr trivial
  have hrefused : (w₁.askKeySession sys a (getRialtoSessionType licenseType) false).1.ok ≠ true := by
    intro hok
    refine h ⟨by simpa using hplayready, ?_⟩
    rw [← hok, ask_answer hb hr]
  refine .bind ((initializeSession_ensures still_tolerant cdmBackend_not_mem ho rfl rfl rfl
    (fun _ => rfl) fun _ hok => absurd hok hrefused).mono fun ok w₂ hw₂ => ?_)
  obtain ⟨hok, hw₂⟩ := hw₂
  cases ok with
  | true => exact absurd hok.symm hrefused
  | false =>
    -- the session that is removed has no handle
    have ho₂ := askKeySession_heap ho sys (getRialtoSessionType licenseType) false
    have hnot : ¬ w₂.Attached sys a := by
      rintro ⟨client, hc⟩
      cases (congrArg Session.messageDispatcherClient ((Still.session hw₂ a).trans
        (World.session_of ho₂))).symm.trans hc
    exact .bind ((remove_passes (fun _ => hnot) I).mono fun _ _ _ => ensures_ret.mpr trivial)

theorem initializeSession_relocks {o : Object} (ho : w.heap[a]? = some o) (hd : o.destroyed = [])
    {cdm : SystemId} (hcdm : o.session.cdmBackend = some cdm)
    (hsys : o.session.messageDispatcher = some sys) (hinit : o.session.isInitialized = false)
    (hok : (w.askKeySession cdm a o.session.sessionType false).1.ok = true) :
    (initializeSession a false).relocks [.dispatcher sys] w = true := by
  rw [initializeSession]
  simp only [readMember, act_bind, ret_bind, relocks, World.use_live ho hd, World.session_of ho, hcdm,
    hsys, hinit]
  rw [if_neg (by simp)]
  simp only [relocks, World.use_live ho hd, World.session_of ho]
  refine Ensures.relocks_bind (.bind ((createKeySession_ensures (by simp) _ _ a).mono ?_))
  rintro ok w₁ ⟨hok₁, -⟩
  rw [if_pos (hok₁.trans hok)]
  apply ensures_ret.mpr
  rw [if_pos rfl]
  exact Prog.relocks_bind (p := MessageDispatcher.createClient sys a)
    (Prog.relocks_bind (relocks_withLock (by simp)))

theorem construct_relocks (h : (BackCall.constructSession hint licenseType initDataType initData
    callbacks userData).Relocks sys w) : (opencdmConstructSession hint (some sys) licenseType
      initDataType initData callbacks userData).relocks [.dispatcher sys] w = true := by
  obtain ⟨hplayready, hok⟩ := h
  refine Ensures.relocks_bind ((create_fresh (by simp)).mono fun a w₁ ⟨⟨n, ho⟩, hb, hr⟩ => ?_)
  simp only [read_bind, relocks, id, hb, hplayready]
  refine Prog.relocks_bind (p := initializeSession a false)
    (initializeSession_relocks ho rfl rfl rfl rfl ?_)
  rw [← hok]
  exact congrArg Answer.ok (ask_answer hb hr)

end Constructing

/-! ### Calling back -/

/-- Code that passes from every state. -/
abbrev Harmless (sys : SystemId) {α : Type} (p : Code R α) : Prop :=
  Does [.dispatcher sys] (fun _ _ => True) p

omit [MediaKeys R] in
theorem Passes.then {α β : Type} {p : Code R α} (h : Passes sys p w) {g : α → Code R β}
    (hg : ∀ a, Harmless sys (g a)) : Passes sys (p >>= g) w := fun I =>
  .bind ((h I).mono fun a w' _ => hg a I w')

theorem get_harmless (key : Bytes) : Harmless sys (ActiveSessions.get key : Code R _) := by
  have hfind : ∀ l : List (Addr × Int32), Does [.activeSessions, .dispatcher sys] (fun _ _ => True)
      (ActiveSessions.findSession key l : Code R _) := by
    intro l
    induction l with
    | nil => exact any_tolerant.ret _
    | cons entry rest ih =>
      apply any_tolerant.bind (any_tolerant.status _ _)
      intro s
      split_ifs
      · exact any_tolerant.ret _
      · exact ih
  refine fun I w => .withLock (by simp) (.bind (ensures_read.mpr (.bind ((hfind _ I w).mono fun r w' _ => ?_))))
  cases r with
  | none => exact ensures_ret.mpr trivial
  | some found => simp

theorem onLicense_harmless (session : Option Addr) (license : Option Bytes) :
    Harmless sys (onLicense session license : Code R OpenCDMError) := by
  unfold onLicense
  cases session with
  | none => exact any_tolerant.ret _
  | some a =>
    cases license with
    | none => exact any_tolerant.ret _
    | some license =>
      dsimp only
      split_ifs
      · exact any_tolerant.ret _
      · refine any_tolerant.bind (any_tolerant.onKeySessionWhere a (any_tolerant.ret _) fun cdm id => ?_)
          fun _ => any_tolerant.ret _
        exact any_tolerant.orLastDrmError cdmBackend_not_mem a
          (any_tolerant.pass_ok (cdmBackend_not_mem cdm) trivial)

theorem status_harmless (session : Option Addr) (keyId : Option Bytes) :
    Harmless sys (opencdmSessionStatus session keyId : Code R KeyStatus) := by
  cases session <;> cases keyId <;> try exact any_tolerant.ret _
  dsimp only [opencdmSessionStatus]
  split_ifs
  · exact any_tolerant.status _ _
  · exact any_tolerant.ret _

theorem onClose_passes (session : Option Addr) (null : OpenCDMError)
    (h : ¬ ∃ a, session = some a ∧ w.Attached sys a ∧ w.Closes a) :
    Passes sys (onSession session null closeSession) w := by
  cases session with
  | none => exact fun I => any_tolerant.ret _ I w
  | some a =>
    exact (closeSession_passes fun ha hc => h ⟨a, rfl, ha, hc⟩).then fun _ => any_tolerant.ret _

omit [MediaKeys R] in
theorem destruct_passes (session : Option Addr)
    (h : ¬ ∃ a, session = some a ∧ w.activeSessions[a]? = some 1 ∧ w.Attached sys a) :
    Passes sys (ActiveSessions.remove session) w := by
  cases session with
  | none => exact fun I => .withLock (by simp) (by simp [read_bind])
  | some a => exact remove_passes fun hc ha => h ⟨a, rfl, hc, ha⟩

theorem passes_of_not_relocks {c : BackCall} (h : ¬ c.Relocks sys w) :
    Passes sys (entry (c.call sys)) w := by
  cases c with
  | constructSession => exact (construct_passes h).then fun ⟨_, _⟩ => any_tolerant.ret _
  | update session keyMessage =>
    exact fun I => any_tolerant.bind (onLicense_harmless session keyMessage)
      (fun _ => any_tolerant.ret _) I w
  | close session => exact (onClose_passes session _ h).then fun _ => any_tolerant.ret _
  | cleanDecryptContext session => exact (onClose_passes session _ h).then fun _ => any_tolerant.ret _
  | destructSession session =>
    exact ((destruct_passes session h).then fun _ => any_tolerant.ret _).then
      fun _ => any_tolerant.ret _
  | getSession keyId =>
    exact fun I => any_tolerant.bind (get_harmless keyId) (fun _ => any_tolerant.ret _) I w
  | sessionStatus session keyId =>
    exact fun I => any_tolerant.bind (status_harmless session keyId) (fun _ => any_tolerant.ret _) I w

theorem relocks_of_relocks {c : BackCall} (h : c.Relocks sys w) :
    (entry (c.call sys)).relocks [.dispatcher sys] w = true := by
  cases c with
  | constructSession => exact Prog.relocks_bind (construct_relocks h)
  | close session =>
    obtain ⟨a, rfl, hattached, hcloses⟩ := h
    exact Prog.relocks_bind (Prog.relocks_bind (closeSession_relocks hattached hcloses))
  | cleanDecryptContext session =>
    obtain ⟨a, rfl, hattached, hcloses⟩ := h
    exact Prog.relocks_bind (Prog.relocks_bind (closeSession_relocks hattached hcloses))
  | destructSession session =>
    obtain ⟨a, rfl, hcount, hattached⟩ := h
    exact Prog.relocks_bind (Prog.relocks_bind (remove_relocks hcount hattached))
  | _ => exact h.elim

theorem code_harmless {r : Reaction R} (h : r.Careful sys) : Harmless sys (r.code sys) := by
  induction r with
  | done => exact any_tolerant.ret _
  | call c next ih =>
    intro I w
    refine .bind (ensures_read.mpr (.bind ((passes_of_not_relocks (h.1 w) I).mono fun reply w' _ => ?_)))
    exact ih reply (h.2 reply) I w'

variable {app : Application R}

omit [MediaKeys R] in
theorem updateChallenge_harmless (a : Addr) (challenge : Bytes) :
    Harmless sys (updateChallenge a challenge : Code R Unit) := fun I w =>
  ensures_act.mpr (.withLock (by simp) (by simp))

theorem onMessage_harmless (happ : ∀ a callback, Harmless sys (app a callback)) (a : Addr)
    (message : Message) : Harmless sys (onMessage app a message) := by
  have hT : Tolerant fun _ _ : World R => True := any_tolerant
  have hinvoke : ∀ callback, Harmless sys (invoke app a callback) := fun callback =>
    hT.bind (hT.modify fun _ => trivial) fun _ => happ a callback
  have hlicense : ∀ id message url, Harmless sys (onLicenseMessage app a id message url) := by
    intro id message url
    apply hT.bind (hT.readMember a _ _)
    intro own
    split_ifs
    · refine hT.bind (updateChallenge_harmless a message) fun _ =>
        hT.bind (hT.readMember a _ _) fun callbacks => ?_
      split_ifs
      · exact hT.bind (hT.readMember a _ _) fun _ => hinvoke _
      · exact hT.ret _
    · exact hT.ret _
  cases message with
  | licenseRequest id message url => exact hlicense id message url
  | licenseRenewal id message => exact hlicense id message ""
  | keyStatusesChanged id keyStatuses =>
    apply hT.bind (hT.readMember a _ _)
    intro own
    split_ifs
    · apply hT.bind (hT.readMember a _ _)
      intro callbacks
      have hloop : Harmless sys (keyStatuses.forM (onKeyStatus app a)) := hT.forM fun keyStatus =>
        hT.bind (hT.modify fun _ => trivial) fun _ => hT.bind (hT.readMember a _ _) fun _ => hinvoke _
      split_ifs
      · exact hT.bind hloop fun _ => hT.bind (hT.readMember a _ _) fun _ => hinvoke _
      · exact hT.bind hloop fun _ => hT.ret _
      · exact hT.ret _
    · exact hT.ret _

/-- A call that is made in a callback, by the thread that delivers and holds the lock of the
dispatcher, locks a mutex that the thread holds if and only if it is one that adds a
client to the dispatcher or removes one. A delivery to an application that makes no such
call in its callbacks comes to its end, from every state. -/
theorem calls_back_iff (sys : SystemId) :
    (∀ (c : BackCall) (w : World R),
      (entry (c.call sys)).relocks [.dispatcher sys] w = false ↔ ¬ c.Relocks sys w) ∧
    ∀ react : Addr → Callback → Reaction R, (∀ a callback, (react a callback).Careful sys) →
      ∀ message (w : World R), (MessageDispatcher.deliver (mediaKeysClient fun a callback =>
        (react a callback).code sys) sys message).relocks [] w = false := by
  refine ⟨fun c w => ⟨fun h hrelocks => ?_, fun h => ?_⟩, fun react hreact message w => ?_⟩
  · rw [relocks_of_relocks hrelocks] at h
    cases h
  · exact (passes_of_not_relocks h fun _ => True).not_relocks
  · rw [deliver_eq]
    have hloop : ∀ l : List Addr, Harmless sys (l.forM fun a => onMessage (fun a callback =>
        (react a callback).code sys) a message) := fun l =>
      any_tolerant.forM fun a => onMessage_harmless (fun a callback => code_harmless (hreact a callback))
        a message
    have hdeliver : (MessageDispatcher.forEachClient sys message fun a => onMessage (fun a callback =>
        (react a callback).code sys) a message).Ensures (fun _ => True) [] (fun _ _ => True) w :=
      .withLock (by simp) (ensures_act.mpr (hloop _ _ _))
    exact hdeliver.not_relocks

/-- In a callback for a key the session of the key is looked up and asked for its status, and in
one for a challenge it is given a license. -/
def answering (a : Addr) : Callback → Reaction R
  | .keyUpdate _ keyId _ => .call (fun _ => .getSession keyId) fun
    | .session session => .call (fun _ => .sessionStatus session (some keyId)) fun _ => .done
    | _ => .done
  | .processChallenge .. => .call (fun _ => .update (some a) (some [1])) fun _ => .done
  | .keysUpdated _ => .done

theorem answering_careful (a : Addr) (callback : Callback) :
    (answering a callback : Reaction R).Careful sys := by
  cases callback with
  | processChallenge userData url challenge challengeLength => exact ⟨fun _ => id, fun _ => trivial⟩
  | keyUpdate userData keyId length =>
    refine ⟨fun _ => id, fun reply => ?_⟩
    cases reply with
    | session session => exact ⟨fun _ => id, fun _ => trivial⟩
    | _ => trivial
  | keysUpdated userData => trivial

/-- The session of the sample is told the status of a key, and it is looked up in the callback. -/
theorem calls_back_iff_sample :
    (MessageDispatcher.deliver (mediaKeysClient fun a callback => (answering a callback).code 0) 0
      (.keyStatusesChanged 7 [([1], .usable)])).relocks [] sample.shared = false ∧
    ∃ w', (MessageDispatcher.deliver (mediaKeysClient fun a callback => (answering a callback).code 0) 0
      (.keyStatusesChanged 7 [([1], .usable)])).exec [] sample.shared = .done () w' ∧
      w'.activeSessions[7]? = some 2 :=
  ⟨(calls_back_iff 0).2 answering answering_careful _ _, _, rfl, by decide⟩

/-- A session is closed when it is told of a renewal. -/
theorem close_in_callback_relocks : Reachable sample ∧
    (MessageDispatcher.deliver (mediaKeysClient fun a _ =>
      (Reaction.call (fun _ => .close (some a)) fun _ => .done).code 0) 0 (.licenseRenewal 7 [1])).relocks
      [] sample.shared = true :=
  ⟨sample_reachable, by decide⟩

end RialtoOcdm
