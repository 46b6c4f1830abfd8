import RialtoOcdm.Library.OpenCDM

/-! Systems: `OpenCDMSystemPrivate`, and the functions of the C interface on systems, in
`open_cdm.cpp` and `open_cdm_ext.cpp`. A system passes what it is asked on to its backend. -/

namespace RialtoOcdm

open Concurrency Rialto

/-- What else Rialto has. There may be a factory of media keys and a control, to which a
backend is registered; the control may then tell the state of the application. -/
class Control (R : Type) where
  createFactory : R → Bool × R
  createControl : R → Bool × R
  registerClient : SystemId → R → Option ApplicationState × R

/-- `OpenCDMSystemPrivate`, whose members do not change. -/
structure OpenCDMSystem where
  keySystem : String
  metadata : String
  control : Bool
  messageDispatcher : Option SystemId
  cdmBackend : Option SystemId

variable {R : Type}

section Construction

variable [MediaKeys R] [Control R]

namespace OpenCDMSystemPrivate

/-- The constructor. From its registration on the backend may be notified of states. -/
def construct (system metadata : String) (messageDispatcher cdmBackend : Option SystemId) :
    Code R OpenCDMSystem := do
  let control ← .update fun w =>
    let (control, rialto) := Control.createControl w.rialto
    (control, w.setRialto rialto)
  match control, cdmBackend with
  | true, some cdm =>
    let initialState ← .update fun w =>
      let (state, rialto) := Control.registerClient cdm w.rialto
      (state.getD .unknown, w.setRialto rialto)
    let _ ← CdmBackend.initializeBackend cdm initialState
    return ⟨system, metadata, true, messageDispatcher, some cdm⟩
  | _, _ => return ⟨system, metadata, control, messageDispatcher, cdmBackend⟩

end OpenCDMSystemPrivate

/-- `sys` is new; its dispatcher and its backend are made here. -/
def createSystem (sys : SystemId) (system metadata : String) : Code R OpenCDMSystem := do
  .modify (·.updateClients sys fun _ => ∅)
  .modify fun w =>
    let (factory, rialto) := Control.createFactory w.rialto
    (w.setRialto rialto).updateBackend sys fun _ => ⟨.unknown, system, factory, none⟩
  OpenCDMSystemPrivate.construct system metadata (some sys) (some sys)

def opencdmCreateSystemExtended (sys : SystemId) (keySystem : String) :
    Code R (OpenCDMError × OpenCDMSystem) := do
  return (.none, ← createSystem sys keySystem "")

def opencdmCreateSystem (sys : SystemId) (keySystem : String) : Code R OpenCDMSystem := do
  let (_, system) ← opencdmCreateSystemExtended sys keySystem
  return system

end Construction

namespace OpenCDMSystemPrivate

variable [MediaKeys R] (system : OpenCDMSystem)

/-- Ask the backend; without one nothing works. -/
def onBackend {call : MediaKeysCall} (p : SystemId → Code R (Answer call)) : Code R (Answer call) :=
  match system.cdmBackend with
  | none => return ⟨false, none⟩
  | some cdm => p cdm

def getDrmTime : Code R (Answer .getDrmTime) := onBackend system CdmBackend.getDrmTime

def getLdlSessionsLimit : Code R (Answer .getLdlSessionsLimit) :=
  onBackend system CdmBackend.getLdlSessionsLimit

def getKeyStoreHash : Code R (Answer .getKeyStoreHash) := onBackend system CdmBackend.getKeyStoreHash

def getDrmStoreHash : Code R (Answer .getDrmStoreHash) := onBackend system CdmBackend.getDrmStoreHash

def deleteKeyStore : Code R Bool :=
  match system.cdmBackend with
  | none => return false
  | some cdm => CdmBackend.deleteKeyStore cdm

def deleteDrmStore : Code R Bool :=
  match system.cdmBackend with
  | none => return false
  | some cdm => CdmBackend.deleteDrmStore cdm

end OpenCDMSystemPrivate

open OpenCDMSystemPrivate

/-! ### The C interface -/

section Queries

variable [MediaKeys R]

/-- `time` tells whether the pointer is not null; Rialto writes to `*time` itself, also when it
fails. -/
def opencdmSystemGetDrmTime (system : Option OpenCDMSystem) (time : Bool) :
    Code R (OpenCDMError × Option UInt64) :=
  match system, time with
  | some system, true => do
    let answer ← getDrmTime system
    return (errorOf answer.ok, answer.out)
  | _, _ => return (.fail, none)

def opencdmSystemExtGetLdlSessionLimit (system : Option OpenCDMSystem) (ldlLimit : Bool) :
    Code R (OpenCDMError × Option UInt32) :=
  match system, ldlLimit with
  | some system, true => do
    let answer ← getLdlSessionsLimit system
    return (errorOf answer.ok, answer.out)
  | _, _ => return (.fail, none)

/-- `memcpy` of all of `data` to the front of an array. -/
def memcpy (array data : Bytes) : Bytes := data ++ array.drop data.length

/-- What becomes of an array of the given length to which a hash is to be copied. -/
def copyHash (array : Bytes) (length : UInt32) (ok : Bool) (hash : Bytes) : OpenCDMError × Bytes :=
  if !ok then (.fail, array)
  else if length.toNat < hash.length then (.fail, array)
  else (.none, memcpy array hash)

/-- Rialto writes to a vector that is empty at first, which is copied if it fits. -/
def opencdmGetKeyStoreHashExt (system : Option OpenCDMSystem) (keyStoreHash : Bytes)
    (keyStoreHashLength : UInt32) : Code R (OpenCDMError × Bytes) :=
  match system with
  | none => return (.fail, keyStoreHash)
  | some system =>
    if keyStoreHashLength = 0 then return (.fail, keyStoreHash) else do
      let answer ← getKeyStoreHash system
      return copyHash keyStoreHash keyStoreHashLength answer.ok (answer.out.getD [])

def opencdmGetSecureStoreHashExt (system : Option OpenCDMSystem) (secureStoreHash : Bytes)
    (secureStoreHashLength : UInt32) : Code R (OpenCDMError × Bytes) :=
  match system with
  | none => return (.fail, secureStoreHash)
  | some system =>
    if secureStoreHashLength = 0 then return (.fail, secureStoreHash) else do
      let answer ← getDrmStoreHash system
      return copyHash secureStoreHash secureStoreHashLength answer.ok (answer.out.getD [])

def opencdmDeleteKeyStore (system : Option OpenCDMSystem) : Code R OpenCDMError :=
  match system with
  | none => return .fail
  | some system => do return errorOf (← deleteKeyStore system)

def opencdmDeleteSecureStore (system : Option OpenCDMSystem) : Code R OpenCDMError :=
  match system with
  | none => return .fail
  | some system => do return errorOf (← deleteDrmStore system)

end Queries

end RialtoOcdm
