import Mathlib.Data.List.Infix

/-! The values that cross the interfaces of the library: the enumerations of OpenCDM
and of Rialto with the conversions between them, the messages Rialto sends, the
callbacks an application gets, and the calls of a media keys instance. -/

namespace RialtoOcdm

/-- The address of an object. -/
abbrev Addr := ℕ

/-- An `OpenCDMSystem`, which owns one `CdmBackend` and one `MessageDispatcher`. -/
abbrev SystemId := ℕ

abbrev Bytes := List UInt8

/-! ### OpenCDM -/

/-- `LicenseType`; a C caller may pass a value that is none of the enumerators. -/
inductive LicenseType
  | temporary
  | persistentUsageRecord
  | persistentLicense
  | other (value : ℕ)
  deriving DecidableEq

/-- The values of OpenCDM's `KeyStatus` that the library produces. -/
inductive KeyStatus
  | usable
  | expired
  | released
  | outputRestricted
  | statusPending
  | internalError
  deriving DecidableEq

/-- The values of `OpenCDMError` that the library produces. -/
inductive OpenCDMError
  | none
  | fail
  | invalidSession
  deriving DecidableEq

/-- `OpenCDMSessionCallbacks`: which of the function pointers are not null. -/
structure OpenCDMSessionCallbacks where
  processChallenge : Bool
  keyUpdate : Bool
  keysUpdated : Bool
  deriving DecidableEq

/-- What the application is told: the arguments of a callback after the session,
with the lengths as the parameters of the callbacks hold them. -/
inductive Callback
  | processChallenge (userData : Addr) (url : String) (challenge : Bytes) (challengeLength : UInt16)
  | keyUpdate (userData : Addr) (keyId : Bytes) (length : UInt8)
  | keysUpdated (userData : Addr)
  deriving DecidableEq

/-! ### Rialto -/

namespace Rialto

/-- `firebolt::rialto::KeyStatus`, with the values that no enumerator names. -/
inductive KeyStatus
  | usable
  | expired
  | outputRestricted
  | pending
  | internalError
  | released
  | other (value : ℕ)
  deriving DecidableEq

inductive ApplicationState
  | unknown
  | running
  | inactive
  deriving DecidableEq

inductive KeySessionType
  | unknown
  | temporary
  | persistentLicence
  deriving DecidableEq

inductive InitDataType
  | unknown
  | cenc
  | webm
  | drmheader
  deriving DecidableEq

/-- `kInvalidSessionId`. -/
def kInvalidSessionId : Int32 := -1

/-- A message to an `IMediaKeysClient`. -/
inductive Message
  | licenseRequest (keySessionId : Int32) (licenseRequestMessage : Bytes) (url : String)
  | licenseRenewal (keySessionId : Int32) (licenseRenewalMessage : Bytes)
  | keyStatusesChanged (keySessionId : Int32) (keyStatuses : List (Bytes × KeyStatus))
  deriving DecidableEq

/-- The key session a message is for. -/
def Message.keySessionId : Message → Int32
  | .licenseRequest keySessionId _ _ => keySessionId
  | .licenseRenewal keySessionId _ => keySessionId
  | .keyStatusesChanged keySessionId _ => keySessionId

/-- A call of a media keys instance, without the arguments passed by reference. -/
inductive MediaKeysCall
  | selectKeyId (keySessionId : Int32) (keyId : Bytes)
  | containsKey (keySessionId : Int32) (keyId : Bytes)
  | createKeySession (sessionType : KeySessionType) (isLDL : Bool)
  | generateRequest (keySessionId : Int32) (initDataType : InitDataType) (initData : Bytes)
  | loadSession (keySessionId : Int32)
  | updateSession (keySessionId : Int32) (responseData : Bytes)
  | setDrmHeader (keySessionId : Int32) (requestData : Bytes)
  | closeKeySession (keySessionId : Int32)
  | removeKeySession (keySessionId : Int32)
  | deleteDrmStore
  | deleteKeyStore
  | getDrmStoreHash
  | getKeyStoreHash
  | getLdlSessionsLimit
  | getLastDrmError (keySessionId : Int32)
  | getDrmTime
  | getCdmKeySessionId (keySessionId : Int32)
  deriving DecidableEq

namespace MediaKeysCall

/-- The type of the argument passed by reference. -/
abbrev Out : MediaKeysCall → Type
  | createKeySession .. => Int32
  | getDrmStoreHash | getKeyStoreHash => Bytes
  | getLdlSessionsLimit | getLastDrmError _ => UInt32
  | getDrmTime => UInt64
  | getCdmKeySessionId _ => String
  | _ => Unit

/-- The key session that a call acts on. The last error may be asked for without one. -/
def actsOn : MediaKeysCall → Option Int32
  | selectKeyId id _ | containsKey id _ | generateRequest id _ _ | loadSession id
  | updateSession id _ | setDrmHeader id _ | closeKeySession id | removeKeySession id
  | getCdmKeySessionId id => some id
  | _ => none

end MediaKeysCall

/-- The answer to a call: whether the status is `OK` (for `containsKey`, the answer
itself) and what was written to the argument passed by reference, if anything was. -/
structure Answer (call : MediaKeysCall) where
  ok : Bool
  out : Option call.Out

end Rialto

/-- Rialto, which is not part of the library, with a state of its own: the factory
makes media keys instances or does not, and an instance answers calls. -/
class MediaKeys (R : Type) where
  createMediaKeys : String → R → Bool × R
  call : ℕ → (call : Rialto.MediaKeysCall) → R → Rialto.Answer call × R

/-- A Rialto that grants everything; its instances call each key session 7. -/
inductive Compliant
  | mk

def Rialto.MediaKeysCall.granted : (call : Rialto.MediaKeysCall) → Option call.Out
  | .createKeySession .. => some (7 : Int32)
  | _ => none

instance : MediaKeys Compliant where
  createMediaKeys _ r := (true, r)
  call _ call r := (⟨true, call.granted⟩, r)

/-! ### Conversions -/

def convertKeyStatus : Rialto.KeyStatus → KeyStatus
  | .usable => .usable
  | .expired => .expired
  | .released => .released
  | .outputRestricted => .outputRestricted
  | .pending => .statusPending
  | .internalError => .internalError
  | .other _ => .internalError

def getRialtoSessionType : LicenseType → Rialto.KeySessionType
  | .temporary => .temporary
  | .persistentUsageRecord => .unknown
  | .persistentLicense => .persistentLicence
  | .other _ => .unknown

def getRialtoInitDataType (type : String) : Rialto.InitDataType :=
  if type = "cenc" then .cenc
  else if type = "webm" then .webm
  else if type = "drmheader" then .drmheader
  else .unknown

/-- The key system's name contains "playready". -/
def isPlayreadyKeysystem (keySystem : String) : Bool :=
  decide ("playready".toList <:+: keySystem.toList)

end RialtoOcdm
