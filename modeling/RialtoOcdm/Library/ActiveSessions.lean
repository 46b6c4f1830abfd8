import RialtoOcdm.Library.OpenCDMSessionPrivate

/-! `ActiveSessions`: the registry of all sessions of the process, with a count of
references for each. A session is deleted with its last reference. -/

namespace RialtoOcdm

open Concurrency

variable {R : Type}

namespace ActiveSessions

/-- The new session is allocated at `hint` if it can be. -/
def create (hint : Addr) (cdm messageDispatcher : Option SystemId) (sessionType : LicenseType)
    (callbacks : Option OpenCDMSessionCallbacks) (context : Addr) (initDataType : String)
    (initData : Bytes) : Code R Addr :=
  .withLock .activeSessions do
    let newSession ← .update fun w => (w.address hint, w.allocate (w.address hint)
      (OpenCDMSessionPrivate.construct cdm messageDispatcher sessionType callbacks context
        initDataType initData))
    .modify (·.updateActiveSessions (·.insertIfNew newSession 1))
    return newSession

/-- The first session of the list that knows the key. -/
def findSession (keyId : Bytes) : List (Addr × Int32) → Code R (Option (Addr × Int32))
  | [] => return none
  | entry :: rest => do
    if (← OpenCDMSessionPrivate.status entry.1 keyId) ≠ .internalError then
      return some entry
    else
      findSession keyId rest

def get (keyId : Bytes) : Code R (Option Addr) :=
  .withLock .activeSessions do
    let w ← .read
    match ← findSession keyId w.activeSessions.toList with
    | some (session, count) =>
      .modify (·.updateActiveSessions (·.insert session (count + 1)))
      return some session
    | none => return none

/-- The pointer may be null. -/
def remove (session : Option Addr) : Code R Unit :=
  .withLock .activeSessions do
    let w ← .read
    match session with
    | none => return
    | some a =>
      match w.activeSessions[a]? with
      | none => return
      | some count =>
        .modify (·.updateActiveSessions (·.insert a (count - 1)))
        if count - 1 = 0 then
          OpenCDMSessionPrivate.delete a
          .modify (·.updateActiveSessions (·.erase a))

end ActiveSessions

end RialtoOcdm
