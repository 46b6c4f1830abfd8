import RialtoOcdm.Library.CdmBackend
import RialtoOcdm.Library.MessageDispatcher

/-! `OpenCDMSessionPrivate`: a session of an application. It passes its operations to
the backend under its key session id, and gets the messages of the dispatcher from
`initialize` to a successful close. -/

namespace RialtoOcdm

open Concurrency Rialto

variable {R : Type}

/-- What an application does in a callback of a session. -/
abbrev Application (R : Type) := Addr → Callback → Code R Unit

namespace OpenCDMSessionPrivate

/-- The constructor. -/
def construct (cdm messageDispatcher : Option SystemId) (sessionType : LicenseType)
    (callbacks : Option OpenCDMSessionCallbacks) (context : Addr) (initDataType : String)
    (initData : Bytes) : Session where
  context := context
  cdmBackend := cdm
  messageDispatcher := messageDispatcher
  messageDispatcherClient := none
  rialtoSessionId := kInvalidSessionId
  cdmKeySessionId := ""
  callbacks := callbacks
  sessionType := getRialtoSessionType sessionType
  initDataType := getRialtoInitDataType initDataType
  initData := initData
  isInitialized := false
  challengeData := []
  playreadyKeyId := []
  keyStatuses := ∅

/-- Assign `m_messageDispatcherClient`; a handle it held is destroyed after that. -/
def assignClient (a : Addr) (handle : Option MessageDispatcherClient) : Code R Unit := do
  let old ← .update fun w => ((w.session a).messageDispatcherClient,
    (w.use a .messageDispatcherClient).updateSession a
      ({ · with messageDispatcherClient := handle }))
  match old with
  | none => return
  | some old => MessageDispatcher.destroyClient old

/-! ### Operations -/

section Operations

variable [MediaKeys R]

def getLastDrmError (a : Addr) : Code R UInt32 := do
  match ← readMember a .cdmBackend (·.cdmBackend) with
  | none => return -1
  | some cdm =>
    let id ← readMember a .rialtoSessionId (·.rialtoSessionId)
    let answer ← CdmBackend.getLastDrmError cdm id
    return answer.out.getD 0

/-- A failure is logged with the last error. -/
def orLastDrmError (a : Addr) (p : Code R Bool) : Code R Bool := do
  if ← p then
    return true
  else
    let _ ← getLastDrmError a
    return false

/-- What an operation on the key session starts with: it needs a backend, what `guard`
asks for, and an id. -/
def onKeySessionWhere (a : Addr) (guard : Code R Bool) (p : SystemId → Int32 → Code R Bool) :
    Code R Bool := do
  match ← readMember a .cdmBackend (·.cdmBackend) with
  | none => return false
  | some cdm =>
    if ← guard then
      if -1 ≠ (← readMember a .rialtoSessionId (·.rialtoSessionId)) then
        p cdm (← readMember a .rialtoSessionId (·.rialtoSessionId))
      else
        return false
    else
      return false

/-- The same without a further condition. -/
def onKeySession (a : Addr) (p : SystemId → Int32 → Code R Bool) : Code R Bool :=
  onKeySessionWhere a (pure true) p

def initializeSession (a : Addr) (isLDL : Bool) : Code R Bool := do
  match ← readMember a .cdmBackend (·.cdmBackend) with
  | none => return false
  | some cdm =>
    match ← readMember a .messageDispatcher (·.messageDispatcher) with
    | none => return false
    | some messageDispatcher =>
      if ← readMember a .isInitialized (·.isInitialized) then
        return true
      else
        let sessionType ← readMember a .sessionType (·.sessionType)
        if ← orLastDrmError a (CdmBackend.createKeySession cdm sessionType isLDL a) then
          let client ← MessageDispatcher.createClient messageDispatcher a
          assignClient a client
          writeMember a .isInitialized ({ · with isInitialized := true })
          return true
        else
          return false

def kDefaultSessionId : String := "0"

/-- Called where `m_cdmBackend` is `cdm`. -/
def initializeCdmKeySessionId (a : Addr) (cdm : SystemId) : Code R Unit := do
  let result ←
    if -1 ≠ (← readMember a .rialtoSessionId (·.rialtoSessionId)) then do
      let id ← readMember a .rialtoSessionId (·.rialtoSessionId)
      CdmBackend.getCdmKeySessionId cdm id a
    else
      pure false
  if result then
    return
  else
    writeMember a .cdmKeySessionId ({ · with cdmKeySessionId := kDefaultSessionId })

/-- Ask for a request and, when that works, for the id of the CDM. -/
def request (a : Addr) (cdm : SystemId) (id : Int32) (initDataType : InitDataType)
    (initData : Bytes) : Code R Bool := do
  if ← orLastDrmError a (CdmBackend.generateRequest cdm id initDataType initData) then
    initializeCdmKeySessionId a cdm
    return true
  else
    return false

def generateRequest (a : Addr) (initDataType : String) (initData : Bytes) : Code R Bool :=
  let dataType := getRialtoInitDataType initDataType
  onKeySessionWhere a (pure (decide (dataType ≠ .unknown))) fun cdm id =>
    request a cdm id dataType initData

def loadSession (a : Addr) : Code R Bool :=
  onKeySession a fun cdm id => orLastDrmError a (CdmBackend.loadSession cdm id)

def updateSession (a : Addr) (license : Bytes) : Code R Bool :=
  onKeySession a fun cdm id => orLastDrmError a (CdmBackend.updateSession cdm id license)

def removeSession (a : Addr) : Code R Bool := onKeySession a CdmBackend.removeKeySession

def containsKey (a : Addr) (keyId : Bytes) : Code R Bool :=
  onKeySession a fun cdm id => CdmBackend.containsKey cdm id keyId

def setDrmHeader (a : Addr) (drmHeader : Bytes) : Code R Bool :=
  onKeySession a fun cdm id => CdmBackend.setDrmHeader cdm id drmHeader

def selectKeyId (a : Addr) (keyId : Bytes) : Code R Bool := do
  writeMember a .playreadyKeyId ({ · with playreadyKeyId := keyId })
  return true

def closeSession (a : Addr) : Code R Bool :=
  onKeySession a fun cdm id => do
    if ← CdmBackend.closeKeySession cdm id then
      note a .keySessionClosed
      assignClient a none
      .modify fun w => ((w.use a .challengeData).updateSession a
        ({ · with challengeData := [] })).record (.challengeCleared (w.serial a))
      writeMember a .keyStatuses ({ · with keyStatuses := ∅ })
      return true
    else
      return false

/-- `m_mutex` is held for `p`. -/
def locked {α : Type} (a : Addr) (p : Code R α) : Code R α := do
  .modify (·.use a .mutex)
  .withLock (.session a) p

def waitForChallenge (a : Addr) : Code R Bytes :=
  locked a do
    .modify (·.use a .challengeCv)
    .await (.challenge a) (.session a) fun w => !(w.session a).challengeData.isEmpty
    readMember a .challengeData (·.challengeData)

/-- Every call asks for a request of its own, with the data the session was made for. -/
def requestChallenge (a : Addr) : Code R Bool :=
  onKeySessionWhere a (do return (← readMember a .initDataType (·.initDataType)) ≠ .unknown)
    fun cdm id => do
      let initDataType ← readMember a .initDataType (·.initDataType)
      let initData ← readMember a .initData (·.initData)
      request a cdm id initDataType initData

def getChallengeData (a : Addr) : Code R (Option Bytes) := do
  if ← requestChallenge a then
    return some (← waitForChallenge a)
  else
    return none

end Operations

def status (a : Addr) (key : Bytes) : Code R KeyStatus := do
  let keyStatuses ← readMember a .keyStatuses (·.keyStatuses)
  match keyStatuses[key]? with
  | some keyStatus => return convertKeyStatus keyStatus
  | none => return .internalError

def getSessionId (a : Addr) : Code R String := readMember a .cdmKeySessionId (·.cdmKeySessionId)

/-! ### Messages -/

section Messages

variable (app : Application R)

/-- Call the application back. -/
def invoke (a : Addr) (callback : Callback) : Code R Unit := do
  note a fun serial => .callback serial callback
  app a callback

def updateChallenge (a : Addr) (challenge : Bytes) : Code R Unit :=
  locked a do
    .modify fun w => ((w.use a .challengeData).updateSession a
      ({ · with challengeData := challenge })).record (.challenge (w.serial a) challenge)
    .modify (·.use a .challengeCv)
    .signal (.challenge a)

/-- A license message: the challenge first, then the callback. -/
def onLicenseMessage (a : Addr) (keySessionId : Int32) (message : Bytes) (url : String) :
    Code R Unit := do
  if keySessionId = (← readMember a .rialtoSessionId (·.rialtoSessionId)) then
    updateChallenge a message
    let callbacks ← readMember a .callbacks (·.callbacks)
    if callbacks.any (·.processChallenge) then
      let context ← readMember a .context (·.context)
      invoke app a (.processChallenge context url message (.ofNat message.length))

def onLicenseRequest (a : Addr) (keySessionId : Int32) (licenseRequestMessage : Bytes)
    (url : String) : Code R Unit :=
  onLicenseMessage app a keySessionId licenseRequestMessage url

def onLicenseRenewal (a : Addr) (keySessionId : Int32) (licenseRenewalMessage : Bytes) :
    Code R Unit :=
  onLicenseMessage app a keySessionId licenseRenewalMessage ""

/-- One pair of a key-status message. -/
def onKeyStatus (a : Addr) (keyStatus : Bytes × Rialto.KeyStatus) : Code R Unit := do
  writeMember a .keyStatuses fun s =>
    { s with keyStatuses := s.keyStatuses.insert keyStatus.1 keyStatus.2 }
  let context ← readMember a .context (·.context)
  invoke app a (.keyUpdate context keyStatus.1 (.ofNat keyStatus.1.length))

def onKeyStatusesChanged (a : Addr) (keySessionId : Int32)
    (keyStatuses : List (Bytes × Rialto.KeyStatus)) : Code R Unit := do
  if keySessionId = (← readMember a .rialtoSessionId (·.rialtoSessionId)) then
    let callbacks ← readMember a .callbacks (·.callbacks)
    if callbacks.any (·.keyUpdate) then
      keyStatuses.forM (onKeyStatus app a)
      if callbacks.any (·.keysUpdated) then
        let context ← readMember a .context (·.context)
        invoke app a (.keysUpdated context)

/-- A session as a client of the dispatcher. -/
def mediaKeysClient : MediaKeysClient R where
  onLicenseRequest := onLicenseRequest app
  onLicenseRenewal := onLicenseRenewal app
  onKeyStatusesChanged := onKeyStatusesChanged app

/-- The handler of a message. -/
def onMessage (a : Addr) : Message → Code R Unit
  | .licenseRequest id message url => onLicenseRequest app a id message url
  | .licenseRenewal id message => onLicenseRenewal app a id message
  | .keyStatusesChanged id keyStatuses => onKeyStatusesChanged app a id keyStatuses

theorem deliver_eq (sys : SystemId) (message : Message) :
    MessageDispatcher.deliver (mediaKeysClient app) sys message =
      MessageDispatcher.forEachClient sys message fun a => onMessage app a message := by
  cases message <;> rfl

end Messages

/-! ### Destruction -/

/-- The destructor of `m_messageDispatcherClient`. -/
def destroyHandle (a : Addr) : Code R Unit := do
  let handle ← .update fun w => ((w.session a).messageDispatcherClient,
    if (w.session a).messageDispatcherClient.isSome then w.record (.unregistering (w.serial a)) else w)
  match handle with
  | none => return
  | some handle => MessageDispatcher.destroyClient handle

/-- Destroy a member; only the handle of the dispatcher does something then. -/
def destroyMember (a : Addr) (m : Member) : Code R Unit := do
  if m = .messageDispatcherClient then
    destroyHandle a
  .modify (·.markDestroyed a m)

/-- `delete`: the members in the reverse order of their declaration, then the memory. -/
def delete (a : Addr) : Code R Unit := do
  note a .destructing
  Member.all.reverse.forM (destroyMember a)
  .modify fun w => (w.free a).record (.destructed a (w.serial a))

end OpenCDMSessionPrivate

end RialtoOcdm
