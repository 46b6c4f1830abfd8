import RialtoOcdm.Library.OpenCDM

/-! Everything that the threads of a process call: the C interface, the functions of
a session that it is made of, and the two ways in which Rialto calls the library. -/

namespace RialtoOcdm

open Concurrency OpenCDMSessionPrivate

variable {R : Type}

/-- The functions on a session that answer an error only. -/
inductive Operation
  | close
  | cleanDecryptContext
  | load
  | remove
  | setDrmHeader (drmHeader : Bytes)
  | update (keyMessage : Option Bytes)
  | storeLicenseData (licenseData : Option Bytes)
  | selectKeyId (keyId : Option Bytes)
  | systemError
  | cancelChallengeData

/-- A call. `hint` is where a new session is allocated if there is none, and `lookups`
what an application looks up when it is called back for the session at an address. -/
inductive Call
  | constructSession (hint : Addr) (system : Option SystemId) (licenseType : LicenseType)
      (initDataType : String) (initData : Bytes) (callbacks : Option OpenCDMSessionCallbacks)
      (userData : Addr)
  | destructSession (session : Option Addr)
  | operation (session : Option Addr) (op : Operation)
  | getChallengeData (session : Option Addr) (challenge challengeSize : Bool) (isLDL : UInt32)
  | hasKeyId (session : Option Addr) (keyId : Bytes)
  | sessionStatus (session : Option Addr) (keyId : Option Bytes)
  | sessionId (session : Option Addr)
  | getSession (keyId : Bytes)
  | create (hint : Addr) (cdm messageDispatcher : Option SystemId) (sessionType : LicenseType)
      (callbacks : Option OpenCDMSessionCallbacks) (context : Addr) (initDataType : String)
      (initData : Bytes)
  | initializeSession (session : Addr) (isLDL : Bool)
  | generateRequest (session : Addr) (initDataType : String) (initData : Bytes)
  | initializeBackend (sys : SystemId) (initialState : Rialto.ApplicationState)
  | notifyApplicationState (sys : SystemId) (state : Rialto.ApplicationState)
  | deliver (sys : SystemId) (message : Rialto.Message) (lookups : Addr → Callback → List Bytes)

inductive Reply
  | done
  | error (e : OpenCDMError)
  | constructed (e : OpenCDMError) (session : Option Addr)
  | session (session : Option Addr)
  | challenge (reply : ChallengeReply)
  | number (n : UInt32)
  | status (s : KeyStatus)
  | id (id : Option String)
  | ok (ok : Bool)
  deriving DecidableEq

/-- An application that looks sessions up in its callbacks. -/
def lookUp (lookups : Addr → Callback → List Bytes) : Application R := fun a callback =>
  (lookups a callback).forM fun key => do
    let _ ← opencdmGetSession key

variable [MediaKeys R]

def Operation.code (session : Option Addr) : Operation → Code R OpenCDMError
  | close => opencdmSessionClose session
  | cleanDecryptContext => opencdmSessionCleanDecryptContext session
  | load => opencdmSessionLoad session
  | remove => opencdmSessionRemove session
  | setDrmHeader drmHeader => opencdmSessionSetDrmHeader session drmHeader
  | update keyMessage => opencdmSessionUpdate session keyMessage
  | storeLicenseData licenseData => opencdmSessionStoreLicenseData session licenseData
  | selectKeyId keyId => opencdmSessionSelectKeyId session keyId
  | systemError => opencdmSessionSystemError session
  | cancelChallengeData => opencdmSessionCancelChallengeData session

/-- The code of a call. -/
def entry : Call → Code R Reply
  | .constructSession hint system licenseType initDataType initData callbacks userData => do
    let (e, session) ← opencdmConstructSession hint system licenseType initDataType initData
      callbacks userData
    return .constructed e session
  | .destructSession session => do return .error (← opencdmDestructSession session)
  | .operation session op => do return .error (← op.code session)
  | .getChallengeData session challenge challengeSize isLDL => do
    return .challenge (← opencdmSessionGetChallengeData session challenge challengeSize isLDL)
  | .hasKeyId session keyId => do return .number (← opencdmSessionHasKeyId session keyId)
  | .sessionStatus session keyId => do return .status (← opencdmSessionStatus session keyId)
  | .sessionId session => do return .id (← opencdmSessionId session)
  | .getSession keyId => do return .session (← opencdmGetSession keyId)
  | .create hint cdm messageDispatcher sessionType callbacks context initDataType initData => do
    return .session (some (← ActiveSessions.create hint cdm messageDispatcher sessionType callbacks
      context initDataType initData))
  | .initializeSession session isLDL => do
    return .ok (← OpenCDMSessionPrivate.initializeSession session isLDL)
  | .generateRequest session initDataType initData => do
    return .ok (← OpenCDMSessionPrivate.generateRequest session initDataType initData)
  | .initializeBackend sys initialState => do
    return .ok (← CdmBackend.initializeBackend sys initialState)
  | .notifyApplicationState sys state => do
    CdmBackend.notifyApplicationState sys state
    return .done
  | .deliver sys message lookups => do
    MessageDispatcher.deliver (mediaKeysClient (lookUp lookups)) sys message
    return .done

end RialtoOcdm
