import RialtoOcdm.Library.World

/-! `CdmBackend`: the one way from the sessions of a system to Rialto. It has a media
keys instance while the application is running, and passes calls on to it. -/

namespace RialtoOcdm

open Concurrency Rialto

variable {R : Type} [MediaKeys R]

/-- The factory has made an instance, or none. -/
def World.assignMediaKeys (sys : SystemId) (made : Bool) (w : World R) : World R :=
  if made then
    { (w.updateBackend sys ({ · with mediaKeys := some w.instances })).record
        (.mediaKeysCreated sys w.instances) with instances := w.instances + 1 }
  else
    (w.updateBackend sys ({ · with mediaKeys := none })).record (.mediaKeysFailed sys)

/-- Ask the factory for an instance and keep what it gives. -/
def World.createMediaKeys (sys : SystemId) (w : World R) : Bool × World R :=
  let (made, rialto) := MediaKeys.createMediaKeys (w.backend sys).keySystem w.rialto
  (made, (w.setRialto rialto).assignMediaKeys sys made)

/-- Pass a call on to the instance, if there is one; `store` is what the instance
and the answer mean for the argument passed by reference. -/
def World.ask (sys : SystemId) (call : MediaKeysCall)
    (store : ℕ → Answer call → World R → World R) (w : World R) : Answer call × World R :=
  match (w.backend sys).mediaKeys with
  | none => (⟨false, none⟩, w.record (.refused sys call))
  | some mediaKeys =>
    let (answer, rialto) := MediaKeys.call mediaKeys call w.rialto
    (answer, store mediaKeys answer ((w.setRialto rialto).record (.forwarded sys mediaKeys call)))

/-- What is true of the world after a call was refused, and after the instance answered it. -/
theorem World.ask_cases {p : World R → Prop} {sys : SystemId} {w : World R} {call : MediaKeysCall}
    {store : ℕ → Answer call → World R → World R} (hnone : p (w.record (.refused sys call)))
    (hsome : ∀ i, (w.backend sys).mediaKeys = some i → p (store i (MediaKeys.call i call w.rialto).1
      ((w.setRialto (MediaKeys.call i call w.rialto).2).record (.forwarded sys i call)))) :
    p (w.ask sys call store).2 := by
  unfold World.ask
  cases hi : (w.backend sys).mediaKeys with
  | none => exact hnone
  | some i => exact hsome i hi

/-- The same, whatever instance it was. -/
theorem World.ask_snd {p : World R → Prop} {sys : SystemId} {w : World R} {call : MediaKeysCall}
    {store : ℕ → Answer call → World R → World R} (hnone : p (w.record (.refused sys call)))
    (hsome : ∀ i, p (store i (MediaKeys.call i call w.rialto).1
      ((w.setRialto (MediaKeys.call i call w.rialto).2).record (.forwarded sys i call)))) :
    p (w.ask sys call store).2 := World.ask_cases hnone fun i _ => hsome i

namespace CdmBackend

def setAppState (sys : SystemId) (state : ApplicationState) : Code R Unit :=
  .modify fun w => w.updateBackend sys ({ · with appState := state })

def resetMediaKeys (sys : SystemId) : Code R Unit :=
  .modify fun w => w.updateBackend sys ({ · with mediaKeys := none })

def createMediaKeys (sys : SystemId) : Code R Bool := do
  let w ← .read
  if (w.backend sys).mediaKeysFactory then
    .update (·.createMediaKeys sys)
  else
    .modify (·.record (.mediaKeysFailed sys))
    return false

def notifyApplicationState (sys : SystemId) (state : ApplicationState) : Code R Unit :=
  .withLock (.cdmBackend sys) do
    let appState ← .update fun w => ((w.backend sys).appState, w.record (.notified sys state))
    if state = appState then
      return
    else if state = .running then
      if ← createMediaKeys sys then
        setAppState sys state
        .signal (.running sys)
    else
      resetMediaKeys sys
      setAppState sys state

def initializeBackend (sys : SystemId) (initialState : ApplicationState) : Code R Bool :=
  .withLock (.cdmBackend sys) do
    let appState ← .update fun w =>
      ((w.backend sys).appState, w.record (.initialized sys initialState))
    if appState ≠ .unknown then
      return true
    else if initialState = .running then
      if ← createMediaKeys sys then
        setAppState sys initialState
        return true
      else
        return false
    else
      setAppState sys initialState
      return true

/-! ### Operations

All but `createKeySession` take the lock and pass a call on. -/

/-- Pass a call on, under the lock. -/
def forward (sys : SystemId) (call : MediaKeysCall)
    (store : ℕ → Answer call → World R → World R) : Code R (Answer call) :=
  .withLock (.cdmBackend sys) (.update (·.ask sys call store))

/-- A call that writes to nothing but a variable of its caller. -/
def pass (sys : SystemId) (call : MediaKeysCall) : Code R (Answer call) :=
  forward sys call fun _ _ w => w

def selectKeyId (sys : SystemId) (keySessionId : Int32) (keyId : Bytes) : Code R Bool := do
  return (← pass sys (.selectKeyId keySessionId keyId)).ok

def containsKey (sys : SystemId) (keySessionId : Int32) (keyId : Bytes) : Code R Bool := do
  return (← pass sys (.containsKey keySessionId keyId)).ok

/-- What a call of `createKeySession` means for the session at `a`, whose key
session id it gets a reference to. -/
def storeKeySessionId (a : Addr) (sessionType : KeySessionType) (isLDL : Bool) (mediaKeys : ℕ)
    (answer : Answer (.createKeySession sessionType isLDL)) (w : World R) : World R :=
  let w := match answer.out with
    | none => w
    | some id => (w.use a .rialtoSessionId).updateSession a ({ · with rialtoSessionId := id })
  if answer.ok then
    w.record (.keySessionCreated (w.serial a) mediaKeys (w.session a).rialtoSessionId)
  else w

/-- The application may be about to reach the running state, so this waits for it. -/
def createKeySession (sys : SystemId) (sessionType : KeySessionType) (isLDL : Bool)
    (keySessionId : Addr) : Code R Bool :=
  .withLock (.cdmBackend sys) do
    .awaitFor (.running sys) (.cdmBackend sys) fun w => decide ((w.backend sys).appState = .running)
    let answer ← .update (·.ask sys (.createKeySession sessionType isLDL)
      (storeKeySessionId keySessionId sessionType isLDL))
    return answer.ok

def generateRequest (sys : SystemId) (keySessionId : Int32) (initDataType : InitDataType)
    (initData : Bytes) : Code R Bool := do
  return (← pass sys (.generateRequest keySessionId initDataType initData)).ok

def loadSession (sys : SystemId) (keySessionId : Int32) : Code R Bool := do
  return (← pass sys (.loadSession keySessionId)).ok

def updateSession (sys : SystemId) (keySessionId : Int32) (responseData : Bytes) : Code R Bool := do
  return (← pass sys (.updateSession keySessionId responseData)).ok

def setDrmHeader (sys : SystemId) (keySessionId : Int32) (requestData : Bytes) : Code R Bool := do
  return (← pass sys (.setDrmHeader keySessionId requestData)).ok

def closeKeySession (sys : SystemId) (keySessionId : Int32) : Code R Bool := do
  return (← pass sys (.closeKeySession keySessionId)).ok

def removeKeySession (sys : SystemId) (keySessionId : Int32) : Code R Bool := do
  return (← pass sys (.removeKeySession keySessionId)).ok

def deleteDrmStore (sys : SystemId) : Code R Bool := do
  return (← pass sys .deleteDrmStore).ok

def deleteKeyStore (sys : SystemId) : Code R Bool := do
  return (← pass sys .deleteKeyStore).ok

def getDrmStoreHash (sys : SystemId) : Code R (Answer .getDrmStoreHash) := pass sys _

def getKeyStoreHash (sys : SystemId) : Code R (Answer .getKeyStoreHash) := pass sys _

def getLdlSessionsLimit (sys : SystemId) : Code R (Answer .getLdlSessionsLimit) := pass sys _

def getLastDrmError (sys : SystemId) (keySessionId : Int32) :
    Code R (Answer (.getLastDrmError keySessionId)) := pass sys _

def getDrmTime (sys : SystemId) : Code R (Answer .getDrmTime) := pass sys _

/-- What a call of `getCdmKeySessionId` means for the session at `a`. -/
def storeCdmKeySessionId (a : Addr) (keySessionId : Int32)
    (answer : Answer (.getCdmKeySessionId keySessionId)) (w : World R) : World R :=
  match answer.out with
  | none => w
  | some id => (w.use a .cdmKeySessionId).updateSession a ({ · with cdmKeySessionId := id })

def getCdmKeySessionId (sys : SystemId) (keySessionId : Int32) (cdmKeySessionId : Addr) :
    Code R Bool := do
  let answer ← forward sys (.getCdmKeySessionId keySessionId) fun _ =>
    storeCdmKeySessionId cdmKeySessionId keySessionId
  return answer.ok

end CdmBackend

end RialtoOcdm
