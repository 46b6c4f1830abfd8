import RialtoOcdm.Library.ActiveSessions

/-! The C interface, `open_cdm.cpp` and `open_cdm_ext.cpp`: the functions on sessions.
A pointer that may be null is an option. -/

namespace RialtoOcdm

open Concurrency OpenCDMSessionPrivate

variable {R : Type}

/-- Whether an operation on a session that is not null worked. -/
def errorOf (ok : Bool) : OpenCDMError := if ok then .none else .fail

/-- The system is not null; it only hands the registry what it looks for. -/
def opencdmGetSystemSession (_system : Option SystemId) (keyId : Bytes) : Code R (Option Addr) :=
  ActiveSessions.get keyId

def opencdmGetSession (keyId : Bytes) : Code R (Option Addr) := opencdmGetSystemSession none keyId

def opencdmDestructSession (session : Option Addr) : Code R OpenCDMError := do
  ActiveSessions.remove session
  return .none

def opencdmSessionStatus (session : Option Addr) (keyId : Option Bytes) : Code R KeyStatus :=
  match session, keyId with
  | some a, some key => if key.length ≠ 0 then status a key else return .internalError
  | _, _ => return .internalError

/-- A null pointer is answered with one. -/
def opencdmSessionId (session : Option Addr) : Code R (Option String) :=
  match session with
  | none => return none
  | some a => do return some (← getSessionId a)

section Operations

variable [MediaKeys R]

/-- The functions that pass on to a session and fail on null. -/
def onSession (session : Option Addr) (null : OpenCDMError) (op : Addr → Code R Bool) :
    Code R OpenCDMError :=
  match session with
  | none => return null
  | some a => do return errorOf (← op a)

def opencdmSessionClose (session : Option Addr) : Code R OpenCDMError :=
  onSession session .invalidSession closeSession

def opencdmSessionCleanDecryptContext (session : Option Addr) : Code R OpenCDMError :=
  onSession session .fail closeSession

def opencdmSessionLoad (session : Option Addr) : Code R OpenCDMError :=
  onSession session .invalidSession loadSession

def opencdmSessionRemove (session : Option Addr) : Code R OpenCDMError :=
  onSession session .invalidSession removeSession

def opencdmSessionSetDrmHeader (session : Option Addr) (drmHeader : Bytes) :
    Code R OpenCDMError :=
  onSession session .fail (setDrmHeader · drmHeader)

/-- The license must not be null or empty. -/
def onLicense (session : Option Addr) (license : Option Bytes) : Code R OpenCDMError :=
  match session, license with
  | none, _ => return .invalidSession
  | some _, none => return .fail
  | some a, some license =>
    if license.length = 0 then return .fail else do return errorOf (← updateSession a license)

def opencdmSessionUpdate (session : Option Addr) (keyMessage : Option Bytes) :
    Code R OpenCDMError :=
  onLicense session keyMessage

def opencdmSessionStoreLicenseData (session : Option Addr) (licenseData : Option Bytes) :
    Code R OpenCDMError :=
  onLicense session licenseData

def opencdmSessionHasKeyId (session : Option Addr) (keyId : Bytes) : Code R UInt32 :=
  match session with
  | none => return 0
  | some a => do return if ← containsKey a keyId then 1 else 0

def opencdmSessionSelectKeyId (session : Option Addr) (keyId : Option Bytes) :
    Code R OpenCDMError :=
  match session, keyId with
  | some a, some key =>
    if key.length = 0 then return .fail else do return errorOf (← selectKeyId a key)
  | _, _ => return .fail

def opencdmSessionSystemError (session : Option Addr) : Code R OpenCDMError :=
  match session with
  | none => return .fail
  | some a => do
    let _ ← getLastDrmError a
    return .none

def opencdmSessionCancelChallengeData (_session : Option Addr) : Code R OpenCDMError :=
  return .none

/-- What `opencdm_session_get_challenge_data` leaves behind: the value it stored in
`*challengeSize`, and the bytes it copied to `challenge`. -/
structure ChallengeReply where
  error : OpenCDMError
  challengeSize : Option UInt32
  written : Bytes
  deriving DecidableEq

/-- Nothing was stored. -/
def ChallengeReply.failed : ChallengeReply := ⟨.fail, none, []⟩

/-- `challenge` and `challengeSize` tell which pointers are not null. -/
def opencdmSessionGetChallengeData (session : Option Addr) (challenge challengeSize : Bool)
    (isLDL : UInt32) : Code R ChallengeReply :=
  match session with
  | none => return .failed
  | some a => do
    if !challengeSize then
      return .failed
    else if !(← initializeSession a (isLDL ≠ 0)) then
      return .failed
    else
      match ← getChallengeData a with
      | none => return .failed
      | some challengeVec =>
        -- all of the challenge is copied, whatever the size of the buffer
        return ⟨.none, some (.ofNat challengeVec.length), if challenge then challengeVec else []⟩

/-- Construct a session; answers what is stored in `*session` as well. -/
def opencdmConstructSession (hint : Addr) (system : Option SystemId) (licenseType : LicenseType)
    (initDataType : String) (initData : Bytes) (callbacks : Option OpenCDMSessionCallbacks)
    (userData : Addr) : Code R (OpenCDMError × Option Addr) :=
  match system with
  | none => return (.fail, none)
  | some sys => do
    let newSession ← ActiveSessions.create hint (some sys) (some sys) licenseType callbacks userData
      initDataType initData
    let w ← .read
    if isPlayreadyKeysystem (w.backend sys).keySystem then
      return (.none, some newSession)
    else if !(← initializeSession newSession false) then
      ActiveSessions.remove (some newSession)
      return (.fail, none)
    else if !(← generateRequest newSession initDataType initData) then
      let _ ← opencdmSessionClose (some newSession)
      ActiveSessions.remove (some newSession)
      return (.fail, none)
    else
      return (.none, some newSession)

end Operations

end RialtoOcdm
