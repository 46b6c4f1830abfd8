import RialtoOcdm.Concurrency.Prog
import RialtoOcdm.Library.Types
import Mathlib.Logic.Function.Basic
import Mathlib.Tactic.Simps.Basic
import Std.Data.ExtTreeMap.Lemmas
import Std.Data.ExtTreeSet.Lemmas

/-! The state of a process that uses the library: the backends and dispatchers of
its systems, the registry of active sessions, the session objects, and Rialto. The
journal is history, the last event first; no code reads it. Using a member of a
session that has been destroyed is recorded there and goes on with the old value. -/

namespace RialtoOcdm

open Concurrency

/-- The members of `OpenCDMSessionPrivate`, in the order of their declaration. -/
inductive Member
  | log
  | mutex
  | challengeCv
  | context
  | cdmBackend
  | messageDispatcher
  | messageDispatcherClient
  | rialtoSessionId
  | cdmKeySessionId
  | callbacks
  | sessionType
  | initDataType
  | initData
  | isInitialized
  | challengeData
  | playreadyKeyId
  | keyStatuses
  deriving DecidableEq

/-- All members, the one declared first in front. -/
def Member.all : List Member :=
  [log, mutex, challengeCv, context, cdmBackend, messageDispatcher, messageDispatcherClient,
    rialtoSessionId, cdmKeySessionId, callbacks, sessionType, initDataType, initData, isInitialized,
    challengeData, playreadyKeyId, keyStatuses]

/-- A `MessageDispatcherClient`: the dispatcher of a system and a client of it. -/
structure MessageDispatcherClient where
  dispatcher : SystemId
  client : Addr
  deriving DecidableEq

/-- The members of `OpenCDMSessionPrivate` with a value. Pointers to a backend or
a dispatcher name the system that owns it. -/
structure Session where
  context : Addr
  cdmBackend : Option SystemId
  messageDispatcher : Option SystemId
  messageDispatcherClient : Option MessageDispatcherClient
  rialtoSessionId : Int32
  cdmKeySessionId : String
  callbacks : Option OpenCDMSessionCallbacks
  sessionType : Rialto.KeySessionType
  initDataType : Rialto.InitDataType
  initData : Bytes
  isInitialized : Bool
  challengeData : Bytes
  playreadyKeyId : Bytes
  keyStatuses : Std.ExtTreeMap Bytes Rialto.KeyStatus

/-- What stands for a session where there is none. -/
def Session.null : Session where
  context := 0
  cdmBackend := none
  messageDispatcher := none
  messageDispatcherClient := none
  rialtoSessionId := Rialto.kInvalidSessionId
  cdmKeySessionId := ""
  callbacks := none
  sessionType := .unknown
  initDataType := .unknown
  initData := []
  isInitialized := false
  challengeData := []
  playreadyKeyId := []
  keyStatuses := ∅

/-- A session in memory. Objects are numbered as they are made, from one on, so
that two at one address are told apart. -/
structure Object where
  serial : ℕ
  session : Session
  destroyed : List Member

/-- `CdmBackend`. A media keys instance is a number of its own. -/
structure CdmBackend where
  appState : Rialto.ApplicationState
  keySystem : String
  mediaKeysFactory : Bool
  mediaKeys : Option ℕ

/-- What happened. -/
inductive Event
  /-- A backend is notified of a state, or initialized with one. -/
  | notified (sys : SystemId) (state : Rialto.ApplicationState)
  | initialized (sys : SystemId) (state : Rialto.ApplicationState)
  /-- A backend got a media keys instance, or asked for one in vain. -/
  | mediaKeysCreated (sys : SystemId) (mediaKeys : ℕ)
  | mediaKeysFailed (sys : SystemId)
  /-- A call went to an instance, or to none. -/
  | forwarded (sys : SystemId) (mediaKeys : ℕ) (call : Rialto.MediaKeysCall)
  | refused (sys : SystemId) (call : Rialto.MediaKeysCall)
  | constructed (session : Addr) (serial : ℕ) (messageDispatcher : Option SystemId)
      (callbacks : Option OpenCDMSessionCallbacks) (context : Addr)
  /-- A session got a key session, or closed it. -/
  | keySessionCreated (serial : ℕ) (mediaKeys : ℕ) (keySessionId : Int32)
  | keySessionClosed (serial : ℕ)
  /-- A dispatcher starts to deliver a message. -/
  | message (sys : SystemId) (message : Rialto.Message)
  /-- A session was given a challenge, or forgot it. -/
  | challenge (serial : ℕ) (challenge : Bytes)
  | challengeCleared (serial : ℕ)
  | callback (serial : ℕ) (callback : Callback)
  /-- The destructor of a session begins, comes to a handle that is not null, ends. -/
  | destructing (serial : ℕ)
  | unregistering (serial : ℕ)
  | destructed (session : Addr) (serial : ℕ)
  /-- A member was used that is not there. -/
  | misused (session : Addr) (member : Member)
  deriving DecidableEq

structure World (R : Type) where
  rialto : R
  /-- How many media keys instances were made. -/
  instances : ℕ
  backend : SystemId → CdmBackend
  clients : SystemId → Std.ExtTreeSet Addr
  activeSessions : Std.ExtTreeMap Addr Int32
  heap : Std.ExtTreeMap Addr Object
  /-- How many sessions were made. -/
  allocated : ℕ
  journal : List Event

/-- The mutexes of the library, and one that is none of the code: the clients of a
session take `turn` where they use it one after the other. -/
inductive Mutex
  | activeSessions
  | dispatcher (sys : SystemId)
  | cdmBackend (sys : SystemId)
  | session (a : Addr)
  | turn (a : Addr)
  deriving DecidableEq

inductive Condition
  | running (sys : SystemId)
  | challenge (a : Addr)
  deriving DecidableEq

/-- Code of the library, and of an application that calls it. -/
abbrev Code (R : Type) : Type → Type := Prog (World R) Mutex Condition

variable {R : Type}

namespace World

/-- Nothing but systems, none of which has a media keys instance yet. -/
def start (rialto : R) (keySystem : SystemId → String) (mediaKeysFactory : SystemId → Bool) :
    World R where
  rialto := rialto
  instances := 0
  backend sys := ⟨.unknown, keySystem sys, mediaKeysFactory sys, none⟩
  clients _ := ∅
  activeSessions := ∅
  heap := ∅
  allocated := 0
  journal := []

variable (w : World R)

/-- The session at an address. -/
def session (a : Addr) : Session := w.heap[a]?.elim .null Object.session

/-- The number of the session at an address. -/
def serial (a : Addr) : ℕ := w.heap[a]?.elim 0 Object.serial

/-- The member is there. -/
def has (a : Addr) (m : Member) : Bool := w.heap[a]?.any fun o => decide (m ∉ o.destroyed)

@[simps] def record (e : Event) : World R := { w with journal := e :: w.journal }

/-- Use a member. -/
@[simps] def use (a : Addr) (m : Member) : World R :=
  { w with journal := if w.has a m then w.journal else .misused a m :: w.journal }

/-- Change the session at an address. -/
@[simps rialto instances backend clients activeSessions allocated journal]
def updateSession (a : Addr) (f : Session → Session) : World R :=
  { w with heap := w.heap.modify a fun o => { o with session := f o.session } }

@[simps] def updateBackend (sys : SystemId) (f : CdmBackend → CdmBackend) : World R :=
  { w with backend := Function.update w.backend sys (f (w.backend sys)) }

@[simps] def updateClients (sys : SystemId) (f : Std.ExtTreeSet Addr → Std.ExtTreeSet Addr) :
    World R :=
  { w with clients := Function.update w.clients sys (f (w.clients sys)) }

@[simps] def updateActiveSessions (f : Std.ExtTreeMap Addr Int32 → Std.ExtTreeMap Addr Int32) :
    World R :=
  { w with activeSessions := f w.activeSessions }

/-- Rialto answers. -/
@[simps] def setRialto (r : R) : World R := { w with rialto := r }

/-- Where the next session is allocated: at `hint`, unless there is one already. -/
def address (hint : Addr) : Addr :=
  if hint ∈ w.heap then w.heap.maxKey?.getD 0 + 1 else hint

/-- A new session at an address. -/
@[simps rialto instances backend clients activeSessions allocated journal]
def allocate (a : Addr) (s : Session) : World R :=
  { w with
    heap := w.heap.insert a ⟨w.allocated + 1, s, []⟩
    allocated := w.allocated + 1
    journal := .constructed a (w.allocated + 1) s.messageDispatcher s.callbacks s.context ::
      w.journal }

/-- A member's destructor is done. -/
@[simps rialto instances backend clients activeSessions allocated journal]
def markDestroyed (a : Addr) (m : Member) : World R :=
  { w with heap := w.heap.modify a fun o => { o with destroyed := m :: o.destroyed } }

/-- The memory of a session is given back. -/
@[simps rialto instances backend clients activeSessions allocated journal]
def free (a : Addr) : World R :=
  { w with heap := w.heap.erase a }

/-! ### Objects -/

theorem address_not_mem (hint : Addr) : w.address hint ∉ w.heap := by
  unfold address
  split_ifs with h
  · intro hmem
    cases hmax : w.heap.maxKey? with
    | none => simp [Std.ExtTreeMap.maxKey?_eq_none_iff.mp hmax] at h
    | some top =>
      have hle := (Std.ExtTreeMap.maxKey?_eq_some_iff_mem_and_forall.mp hmax).2 _ hmem
      rw [hmax, Option.getD_some, Nat.isLE_compare] at hle
      omega
  · exact h

variable {w}

@[simp] theorem heap_updateSession {a b : Addr} {f : Session → Session} :
    (w.updateSession a f).heap[b]? =
      if a = b then w.heap[a]?.map fun o => { o with session := f o.session } else w.heap[b]? := by
  simp [updateSession, Std.ExtTreeMap.getElem?_modify]

@[simp] theorem heap_markDestroyed {a b : Addr} {m : Member} :
    (w.markDestroyed a m).heap[b]? =
      if a = b then w.heap[a]?.map fun o => { o with destroyed := m :: o.destroyed }
      else w.heap[b]? := by
  simp [markDestroyed, Std.ExtTreeMap.getElem?_modify]

@[simp] theorem heap_allocate {a b : Addr} {s : Session} :
    (w.allocate a s).heap[b]? =
      if a = b then some ⟨w.allocated + 1, s, []⟩ else w.heap[b]? := by
  simp [allocate, Std.ExtTreeMap.getElem?_insert]

@[simp] theorem heap_free {a b : Addr} :
    (w.free a).heap[b]? = if a = b then none else w.heap[b]? := by
  simp [free, Std.ExtTreeMap.getElem?_erase]

theorem mem_of_object {a : Addr} {o : Object} (h : w.heap[a]? = some o) : a ∈ w.heap :=
  Std.ExtTreeMap.mem_iff_isSome_getElem?.mpr (by simp [h])

theorem object_of_mem {a : Addr} (h : a ∈ w.heap) : ∃ o, w.heap[a]? = some o :=
  Option.isSome_iff_exists.mp (Std.ExtTreeMap.mem_iff_isSome_getElem?.mp h)

theorem count_of_mem {a : Addr} (h : a ∈ w.activeSessions) : ∃ n, w.activeSessions[a]? = some n :=
  Option.isSome_iff_exists.mp (Std.ExtTreeMap.mem_iff_isSome_getElem?.mp h)

theorem mem_of_count {a : Addr} {n : Int32} (h : w.activeSessions[a]? = some n) :
    a ∈ w.activeSessions := Std.ExtTreeMap.mem_iff_isSome_getElem?.mpr (by simp [h])

theorem session_of {a : Addr} {o : Object} (h : w.heap[a]? = some o) : w.session a = o.session := by
  simp [session, h]

theorem serial_of {a : Addr} {o : Object} (h : w.heap[a]? = some o) : w.serial a = o.serial := by
  simp [serial, h]

@[simp] theorem serial_updateSession {a b : Addr} {f : Session → Session} :
    (w.updateSession a f).serial b = w.serial b := by
  unfold serial
  rw [heap_updateSession]
  split_ifs with hab
  · subst hab
    cases w.heap[a]? <;> rfl
  · rfl

end World

/-! ### Statements -/

/-- Read a member of the session at `a`. -/
def readMember {β : Type} (a : Addr) (m : Member) (f : Session → β) : Code R β :=
  .act (·.use a m) fun w => .ret (f (w.session a))

/-- Assign a member of the session at `a`. -/
def writeMember (a : Addr) (m : Member) (f : Session → Session) : Code R Unit :=
  .modify fun w => (w.use a m).updateSession a f

/-- Note an event about the session at `a`. -/
def note (a : Addr) (e : ℕ → Event) : Code R Unit := .modify fun w => w.record (e (w.serial a))

end RialtoOcdm
