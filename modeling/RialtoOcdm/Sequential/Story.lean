import RialtoOcdm.Library.World

/-! What happens to the sessions of a process, and what one session makes of it. The
story of a journal has the constructions and destructions of sessions, the key
sessions they get and close, and the messages, the last one first, without any
address. The inputs of a session are its own part of the story: of the messages only
those for its key session while it has one. `Alone` is a session run on its inputs. -/

namespace RialtoOcdm

open Rialto

inductive Happening
  | constructed (serial : ℕ) (messageDispatcher : Option SystemId)
      (callbacks : Option OpenCDMSessionCallbacks) (context : Addr)
  | initialized (serial : ℕ) (keySessionId : Int32)
  | closed (serial : ℕ)
  | destructed (serial : ℕ)
  | delivered (sys : SystemId) (message : Message)
  deriving DecidableEq

def Event.happening : Event → Option Happening
  | .constructed _ serial messageDispatcher callbacks context =>
    some (.constructed serial messageDispatcher callbacks context)
  | .keySessionCreated serial _ keySessionId => some (.initialized serial keySessionId)
  | .keySessionClosed serial => some (.closed serial)
  | .destructed _ serial => some (.destructed serial)
  | .message sys m => some (.delivered sys m)
  | _ => none

def story (journal : List Event) : List Happening := journal.filterMap Event.happening

/-- The callbacks that a session has made, the last one first. -/
def callbacksOf (serial : ℕ) (journal : List Event) : List Callback :=
  journal.filterMap fun
    | .callback n callback => if n = serial then some callback else none
    | _ => none

/-- What a session by itself is told. -/
inductive Input
  | constructed (messageDispatcher : Option SystemId) (callbacks : Option OpenCDMSessionCallbacks)
      (context : Addr)
  | initialized (keySessionId : Int32)
  | closed
  | destructed
  | received (message : Message)
  deriving DecidableEq

/-- A session by itself. It listens while it has a key session. -/
structure Alone where
  messageDispatcher : Option SystemId
  table : Option OpenCDMSessionCallbacks
  context : Addr
  listening : Option Int32
  keySessions : List Int32
  challenge : Bytes
  keyStatuses : Std.ExtTreeMap Bytes Rialto.KeyStatus
  callbacks : List Callback

namespace Alone

/-- Before the construction. -/
def blank : Alone := ⟨none, none, 0, none, [], [], ∅, []⟩

/-- A license message. -/
def receiveLicense (x : Alone) (message : Bytes) (url : String) : Alone :=
  { x with
    challenge := message
    callbacks :=
      if x.table.any (·.processChallenge) then
        .processChallenge x.context url message (.ofNat message.length) :: x.callbacks
      else x.callbacks }

/-- A pair of a key-status message. -/
def receiveStatus (x : Alone) (keyStatus : Bytes × Rialto.KeyStatus) : Alone :=
  { x with
    keyStatuses := x.keyStatuses.insert keyStatus.1 keyStatus.2
    callbacks := .keyUpdate x.context keyStatus.1 (.ofNat keyStatus.1.length) :: x.callbacks }

/-- The end of a key-status message. -/
def receiveEnd (x : Alone) : Alone :=
  { x with
    callbacks :=
      if x.table.any (·.keysUpdated) then .keysUpdated x.context :: x.callbacks else x.callbacks }

def receive (x : Alone) : Message → Alone
  | .licenseRequest _ message url => x.receiveLicense message url
  | .licenseRenewal _ message => x.receiveLicense message ""
  | .keyStatusesChanged _ keyStatuses =>
    if x.table.any (·.keyUpdate) then (keyStatuses.foldl receiveStatus x).receiveEnd else x

def next (x : Alone) : Input → Alone
  | .constructed messageDispatcher callbacks context =>
    { x with messageDispatcher := messageDispatcher, table := callbacks, context := context }
  | .initialized id => { x with listening := some id, keySessions := id :: x.keySessions }
  | .closed => { x with listening := none, challenge := [], keyStatuses := ∅ }
  | .destructed => { x with listening := none }
  | .received message => x.receive message

/-- The message is for the key session that the session has. -/
def Hears (x : Alone) (sys : SystemId) (message : Message) : Prop :=
  x.messageDispatcher = some sys ∧ x.listening = some message.keySessionId

instance (x : Alone) (sys : SystemId) (message : Message) : Decidable (x.Hears sys message) :=
  inferInstanceAs (Decidable (_ ∧ _))

/-- What a happening is to session `n`, if it is any of its business. -/
def input (n : ℕ) (x : Alone) : Happening → Option Input
  | .constructed serial messageDispatcher callbacks context =>
    if serial = n then some (.constructed messageDispatcher callbacks context) else none
  | .initialized serial id => if serial = n then some (.initialized id) else none
  | .closed serial => if serial = n then some .closed else none
  | .destructed serial => if serial = n then some .destructed else none
  | .delivered sys message => if x.Hears sys message then some (.received message) else none

end Alone

/-- A session by itself after some inputs, the last one first. -/
def alone : List Input → Alone
  | [] => .blank
  | i :: is => (alone is).next i

/-- Session `n`'s own part of a story. -/
def inputs (n : ℕ) : List Happening → List Input
  | [] => []
  | h :: hs => ((alone (inputs n hs)).input n h).toList ++ inputs n hs

/-- Session `n` by itself, after all that is in the journal. -/
def World.alone {R : Type} (w : World R) (n : ℕ) : Alone :=
  RialtoOcdm.alone (inputs n (story w.journal))

/-- Whom a happening is for, if not for those who hear it. -/
def Happening.serial : Happening → Option ℕ
  | .constructed n _ _ _ | .initialized n _ | .closed n | .destructed n => some n
  | .delivered _ _ => none

variable {n : ℕ} {h : Happening} {hs : List Happening} {e : Event} {journal : List Event}

/-- What happens to another session is no concern of this one. -/
theorem inputs_cons_of_ne {m : ℕ} (hm : h.serial = some m) (hne : m ≠ n) :
    inputs n (h :: hs) = inputs n hs := by
  cases h with
  | delivered sys message => cases hm
  | _ => cases hm; simp [inputs, Alone.input, hne]

theorem inputs_closed {m : ℕ} :
    inputs n (.closed m :: hs) = if m = n then .closed :: inputs n hs else inputs n hs := by
  rw [inputs, Alone.input]
  split_ifs <;> rfl

/-- A message for another key session is no concern of this one. -/
theorem inputs_delivered_of_not_hears {sys : SystemId} {message : Message}
    (hx : ¬ (alone (inputs n hs)).Hears sys message) :
    inputs n (.delivered sys message :: hs) = inputs n hs := by
  simp [inputs, Alone.input, hx]

theorem story_cons_of_none (he : e.happening = none) : story (e :: journal) = story journal := by
  simp [story, he]

theorem story_cons (he : e.happening = some h) : story (e :: journal) = h :: story journal := by
  simp [story, he]

end RialtoOcdm
