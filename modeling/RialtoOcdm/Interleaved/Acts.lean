import RialtoOcdm.Concurrency.Routine
import RialtoOcdm.Library.Calls

/-! What one step of a thread can do to the process, and with which mutexes. A
discipline is a protocol that allows all of it to a call, under some rules: which
sessions the call is about, which may get a key session, be closed or be deleted, and
what is known of their backends and of key session ids. -/

namespace RialtoOcdm

open Concurrency Protocol Rialto OpenCDMSessionPrivate

variable {R κ : Type}

/-- Mutexes are taken in the order of their ranks. -/
def Mutex.rank : Mutex → ℕ
  | .turn _ => 0
  | .dispatcher _ => 1
  | _ => 2

/-- The mutex is the next one in the order, or a registered session was destroyed,
which does not keep to it. -/
def Ordered (held : List Mutex) (m : Mutex) (w : World R) : Prop :=
  (∀ l ∈ held, l.rank < m.rank) ∨ ∃ n, .unregistering n ∈ w.journal

/-- The session that a call is given. -/
def Call.ActsFor : Call → Addr → Prop
  | .operation session _, a | .getChallengeData session .., a | .hasKeyId session _, a
  | .sessionStatus session _, a | .sessionId session, a => session = some a
  | .initializeSession b _, a | .generateRequest b .., a => b = a
  | _, _ => False

/-- The call closes the session. -/
def Call.Closes : Call → Addr → Prop
  | .operation session .close, a | .operation session .cleanDecryptContext, a => session = some a
  | _, _ => False

/-- The call makes a session and goes on with it. -/
def Call.Makes : Call → Prop
  | .constructSession .. => True
  | _ => False

/-- The backend of the session that the call makes. -/
def Call.madeFor : Call → Option SystemId
  | .constructSession _ system .. => system
  | .create _ cdm .. => cdm
  | _ => none

/-- What a call may do to sessions, and what is known. -/
structure Rules (R : Type) where
  /-- The call is about the session. -/
  own : Addr → World R → Prop
  /-- The session may get a key session, may be closed, may be deleted. -/
  join : Addr → World R → Prop
  leave : Addr → World R → Prop
  delete : Addr → World R → Prop
  /-- The session has a key session, and this is its id. -/
  opened : Addr → World R → Prop
  granted : Addr → Int32 → World R → Prop
  /-- Some session has this backend. -/
  backend : SystemId → Prop

/-- The thread delivers a message to the session. -/
def Delivers (held : List Mutex) (w : World R) (a : Addr) : Prop :=
  ∃ sys, .dispatcher sys ∈ held ∧ a ∈ w.clients sys

/-- Who uses members of a session: a call about it, a delivery, a look-up. -/
def Uses (ρ : Rules R) (held : List Mutex) (w : World R) (a : Addr) : Prop :=
  ρ.own a w ∨ Delivers held w a ∨ .activeSessions ∈ held

/-- One step. -/
inductive Act [MediaKeys R] (ρ : Rules R) (held : List Mutex) : World R → World R → Prop
  | read (w) : Act ρ held w w
  | use (w) (a : Addr) (m : Member) (h : Uses ρ held w a) : Act ρ held w (w.use a m)
  /- The backend. -/
  | updateBackend (w) (sys : SystemId) (f : CdmBackend → CdmBackend)
      (hf : ∀ b, (f b).mediaKeys = b.mediaKeys ∨ (f b).mediaKeys = none) :
      Act ρ held w (w.updateBackend sys f)
  | createMediaKeys (w) (sys : SystemId) : Act ρ held w (w.createMediaKeys sys).2
  | mediaKeysFailed (w) (sys : SystemId) : Act ρ held w (w.record (.mediaKeysFailed sys))
  | notified (w) (sys : SystemId) (state : ApplicationState) :
      Act ρ held w (w.record (.notified sys state))
  | initialized (w) (sys : SystemId) (state : ApplicationState) :
      Act ρ held w (w.record (.initialized sys state))
  /- Calls of Rialto for a session. -/
  | pass (w) (sys : SystemId) (call : MediaKeysCall) (a : Addr) (hb : ρ.backend sys) (ho : ρ.own a w)
      (hg : ∀ id, call.actsOn = some id → ρ.granted a id w) :
      Act ρ held w (w.ask sys call fun _ _ w => w).2
  | getCdmKeySessionId (w) (sys : SystemId) (id : Int32) (a : Addr) (hb : ρ.backend sys) (ho : ρ.own a w)
      (hg : ρ.granted a id w) : Act ρ held w (w.ask sys (.getCdmKeySessionId id)
        fun _ => CdmBackend.storeCdmKeySessionId a id).2
  | createKeySession (w) (sys : SystemId) (sessionType : KeySessionType) (isLDL : Bool) (a : Addr)
      (hb : ρ.backend sys) (hj : ρ.join a w) : Act ρ held w (w.ask sys (.createKeySession sessionType isLDL)
        (CdmBackend.storeKeySessionId a sessionType isLDL)).2
  /- A session gets a key session. -/
  | insertClient (w) (sys : SystemId) (a : Addr) (hd : .dispatcher sys ∈ held) (hj : ρ.join a w) :
      Act ρ held w (w.updateClients sys (·.insert a))
  | setHandle (w) (a : Addr) (handle : MessageDispatcherClient) (hj : ρ.join a w) :
      Act ρ held w ((w.use a .messageDispatcherClient).updateSession a
        ({ · with messageDispatcherClient := some handle }))
  | setInitialized (w) (a : Addr) (hj : ρ.join a w) :
      Act ρ held w ((w.use a .isInitialized).updateSession a ({ · with isInitialized := true }))
  | setCdmKeySessionId (w) (a : Addr) (id : String) (ho : ρ.own a w) :
      Act ρ held w ((w.use a .cdmKeySessionId).updateSession a ({ · with cdmKeySessionId := id }))
  | setPlayreadyKeyId (w) (a : Addr) (keyId : Bytes) (ho : ρ.own a w) :
      Act ρ held w ((w.use a .playreadyKeyId).updateSession a ({ · with playreadyKeyId := keyId }))
  /- A session closes it. -/
  | closed (w) (a : Addr) (hl : ρ.leave a w) :
      Act ρ held w (w.record (.keySessionClosed (w.serial a)))
  | clearHandle (w) (a : Addr) (hl : ρ.leave a w) :
      Act ρ held w ((w.use a .messageDispatcherClient).updateSession a
        ({ · with messageDispatcherClient := none }))
  | eraseClient (w) (sys : SystemId) (a : Addr) (hd : .dispatcher sys ∈ held) :
      Act ρ held w (w.updateClients sys (·.erase a))
  | clearChallenge (w) (a : Addr) (hl : ρ.leave a w) :
      Act ρ held w (((w.use a .challengeData).updateSession a
        ({ · with challengeData := [] })).record (.challengeCleared (w.serial a)))
  | clearKeyStatuses (w) (a : Addr) (hl : ρ.leave a w) :
      Act ρ held w ((w.use a .keyStatuses).updateSession a ({ · with keyStatuses := ∅ }))
  /- A message is delivered. -/
  | message (w) (sys : SystemId) (message : Message) : Act ρ held w (w.record (.message sys message))
  | challenge (w) (a : Addr) (challenge : Bytes) (hd : Delivers held w a) :
      Act ρ held w (((w.use a .challengeData).updateSession a
        ({ · with challengeData := challenge })).record (.challenge (w.serial a) challenge))
  | keyStatus (w) (a : Addr) (keyStatus : Bytes × Rialto.KeyStatus) (hd : Delivers held w a) :
      Act ρ held w ((w.use a .keyStatuses).updateSession a fun s =>
        { s with keyStatuses := s.keyStatuses.insert keyStatus.1 keyStatus.2 })
  | callback (w) (a : Addr) (callback : Callback) (hd : Delivers held w a) :
      Act ρ held w (w.record (.callback (w.serial a) callback))
  /- The registry. -/
  | allocate (w) (a : Addr) (ha : a ∉ w.heap) (cdm messageDispatcher : Option SystemId)
      (hb : ∀ sys, cdm = some sys → ρ.backend sys) (sessionType : LicenseType)
      (callbacks : Option OpenCDMSessionCallbacks) (context : Addr) (initDataType : String) (initData : Bytes) :
      Act ρ held w (w.allocate a (construct cdm messageDispatcher sessionType callbacks context
        initDataType initData))
  | count (w) (f : Std.ExtTreeMap Addr Int32 → Std.ExtTreeMap Addr Int32) :
      Act ρ held w (w.updateActiveSessions f)
  /- A session is deleted. -/
  | destructing (w) (a : Addr) : Act ρ held w (w.record (.destructing (w.serial a)))
  | unregistering (w) (a : Addr) (hd : ρ.delete a w) :
      Act ρ held w (w.record (.unregistering (w.serial a)))
  | markDestroyed (w) (a : Addr) (m : Member) (hd : ρ.delete a w) :
      Act ρ held w (w.markDestroyed a m)
  | free (w) (a : Addr) (hd : ρ.delete a w) :
      Act ρ held w ((w.free a).record (.destructed a (w.serial a)))

/-- A protocol that allows every step to the call `k` under the rules. -/
structure Discipline [MediaKeys R] (P : Protocol (World R) Mutex κ) (k : κ) (ρ : Rules R) : Prop where
  act : ∀ held w w', P.inv w → Act ρ held w w' → P.may k held w w' ∧ P.inv w'
  journal : ∀ c held w w', P.may c held w w' → w.journal <:+ w'.journal
  clients : ∀ c held w w' sys, P.may c held w w' → .dispatcher sys ∉ held →
    w'.clients sys = w.clients sys
  request : ∀ held m w, Ordered held m w → P.request k held m w
  free : ∀ m w, (∀ a, m ≠ .turn a) → P.inv w → P.free m w
  own_lasting : ∀ a, P.Lasting (ρ.own a)
  join_lasting : ∀ a, P.Lasting (ρ.join a)
  leave_lasting : ∀ a, P.Lasting (ρ.leave a)
  delete_lasting : ∀ a, P.Lasting (ρ.delete a)
  opened_lasting : ∀ a, P.Lasting (ρ.opened a)
  granted_lasting : ∀ a id, P.Lasting (ρ.granted a id)
  opened : ∀ w a, P.inv w → -1 ≠ (w.session a).rialtoSessionId → ρ.opened a w
  granted : ∀ w a, P.inv w → ρ.opened a w → ρ.granted a (w.session a).rialtoSessionId w
  backend : ∀ w a sys, P.inv w → (w.session a).cdmBackend = some sys → ρ.backend sys
  delete : ∀ w a, P.inv w → ρ.delete a (w.record (.destructing (w.serial a)))

/-- What is known of the sessions that a call is given, or makes. -/
structure Entitled (P : Protocol (World R) Mutex κ) (ρ : Rules R) (c : Call) : Prop where
  own : ∀ a, c.ActsFor a → P.Always (ρ.own a)
  join : ∀ w a, P.inv w → (w.session a).isInitialized = false → ρ.join a w
  leave : ∀ a, c.Closes a → P.Always (ρ.leave a)
  new : c.Makes → ∀ w a s, P.inv w → a ∉ w.heap →
    ρ.own a (w.allocate a s) ∧ ρ.leave a (w.allocate a s)
  backend : ∀ sys, c.madeFor = some sys → ρ.backend sys

variable [MediaKeys R] {P : Protocol (World R) Mutex κ} {k : κ} {ρ : Rules R}

/-- What lasts may be assumed. -/
theorem Discipline.assume (D : Discipline P k ρ) {F : World R → Prop} (hF : P.Lasting F) :
    Discipline (P.assume F) k ρ where
  act held w w' hi ha := by
    obtain ⟨hm, hi'⟩ := D.act held w w' hi.1 ha
    exact ⟨hm, hi', hF k held w w' hi.1 hm hi.2⟩
  journal := D.journal
  clients := D.clients
  request := D.request
  free m w hm hi := D.free m w hm hi.1
  own_lasting a := (D.own_lasting a).assume
  join_lasting a := (D.join_lasting a).assume
  leave_lasting a := (D.leave_lasting a).assume
  delete_lasting a := (D.delete_lasting a).assume
  opened_lasting a := (D.opened_lasting a).assume
  granted_lasting a id := (D.granted_lasting a id).assume
  opened w a hi := D.opened w a hi.1
  granted w a hi := D.granted w a hi.1
  backend w a sys hi := D.backend w a sys hi.1
  delete w a hi := D.delete w a hi.1

/-- An event that is in the journal stays there. -/
theorem Discipline.mem_lasting (D : Discipline P k ρ) (e : Event) : P.Lasting (e ∈ ·.journal) :=
  fun c held w w' _ hm he => (D.journal c held w w' hm).subset he

end RialtoOcdm
