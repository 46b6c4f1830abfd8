import RialtoOcdm.Library.OpenCDMSystem

/-! What a system is for: an access to Rialto that makes calls one at a time and is open while
the application is running. It may be asked for the time, the limit of sessions and the
hashes of its stores, which are copied as a whole, and to delete these. -/

namespace RialtoOcdm

open Rialto

variable {R : Type}

/-- An access to Rialto: how many media keys instances there were, the state of the
application, and the instance that answers. -/
structure Access (R : Type) where
  rialto : R
  instances : ℕ
  appState : ApplicationState
  mediaKeys : Option ℕ

/-- What is called of a system. The length of an array is not 0. -/
inductive SystemCall
  | initializeBackend (initialState : ApplicationState)
  | notifyApplicationState (state : ApplicationState)
  | operation (a : Addr) (call : MediaKeysCall)
  | getDrmTime
  | getLdlSessionLimit
  | getKeyStoreHash (keyStoreHash : Bytes) (length : {n : UInt32 // n ≠ 0})
  | getSecureStoreHash (secureStoreHash : Bytes) (length : {n : UInt32 // n ≠ 0})
  | deleteKeyStore
  | deleteSecureStore

inductive SystemReply
  | ok (ok : Bool)
  | error (e : OpenCDMError)
  | time (reply : OpenCDMError × Option UInt64)
  | limit (reply : OpenCDMError × Option UInt32)
  | hash (reply : OpenCDMError × Bytes)
  deriving DecidableEq

/-- The call is not about the state of the application. -/
def SystemCall.Asks : SystemCall → Prop
  | initializeBackend _ => False
  | notifyApplicationState _ => False
  | _ => True

/-- It reports that it worked. -/
def SystemReply.Works : SystemReply → Prop
  | .ok worked => worked = true
  | .error e => e = .none
  | .time reply => reply.1 = .none
  | .limit reply => reply.1 = .none
  | .hash reply => reply.1 = .none

/-- An array of the caller and what is answered: all of a hash that fits is at the front of the
array, or nothing has changed. -/
def Copied (array : Bytes) (length : UInt32) (reply : OpenCDMError × Bytes) : Prop :=
  reply = (.fail, array) ∨ ∃ hash, hash.length ≤ length.toNat ∧ reply = (.none, memcpy array hash)

namespace Access

variable [MediaKeys R] (keySystem : String) (mediaKeysFactory : Bool) (s : Access R)

/-- The instance answers, if there is one. -/
def ask (call : MediaKeysCall) : Answer call × Access R :=
  match s.mediaKeys with
  | none => (⟨false, none⟩, s)
  | some i =>
    let (answer, rialto) := MediaKeys.call i call s.rialto
    (answer, { s with rialto := rialto })

/-- Enter a state, if that can be done. -/
def enter (state : ApplicationState) : Bool × Access R :=
  if state = .running then
    if mediaKeysFactory then
      match MediaKeys.createMediaKeys keySystem s.rialto with
      | (true, rialto) => (true, ⟨rialto, s.instances + 1, .running, some s.instances⟩)
      | (false, rialto) => (false, { s with rialto := rialto })
    else
      (false, s)
  else
    (true, { s with appState := state, mediaKeys := none })

/-- The first state is entered once. -/
def settle (initialState : ApplicationState) : Bool × Access R :=
  if s.appState = .unknown then s.enter keySystem mediaKeysFactory initialState else (true, s)

def notify (state : ApplicationState) : Access R :=
  if state = s.appState then s else (s.enter keySystem mediaKeysFactory state).2

/-- A call, all at once. -/
def next : SystemCall → SystemReply × Access R
  | .initializeBackend initialState =>
    (s.settle keySystem mediaKeysFactory initialState).map .ok id
  | .notifyApplicationState state => (.ok true, s.notify keySystem mediaKeysFactory state)
  | .operation _ call => (s.ask call).map (.ok ·.ok) id
  | .getDrmTime => (s.ask .getDrmTime).map (fun answer => .time (errorOf answer.ok, answer.out)) id
  | .getLdlSessionLimit =>
    (s.ask .getLdlSessionsLimit).map (fun answer => .limit (errorOf answer.ok, answer.out)) id
  | .getKeyStoreHash array length => (s.ask .getKeyStoreHash).map
    (fun answer => .hash (copyHash array length answer.ok (answer.out.getD []))) id
  | .getSecureStoreHash array length => (s.ask .getDrmStoreHash).map
    (fun answer => .hash (copyHash array length answer.ok (answer.out.getD []))) id
  | .deleteKeyStore => (s.ask .deleteKeyStore).map (.error <| errorOf ·.ok) id
  | .deleteSecureStore => (s.ask .deleteDrmStore).map (.error <| errorOf ·.ok) id

/-- Calls one after the other, the last one in front. -/
def after : List (SystemCall × SystemReply) → Access R
  | [] => s
  | (c, _) :: order => ((after order).next keySystem mediaKeysFactory c).2

/-- Each call was answered by what came before. -/
def Answers : List (SystemCall × SystemReply) → Prop
  | [] => True
  | (c, r) :: order =>
    r = ((s.after keySystem mediaKeysFactory order).next keySystem mediaKeysFactory c).1 ∧
      Answers order

theorem enter_running_appState : (s.enter keySystem mediaKeysFactory .running).2.appState =
    if (s.enter keySystem mediaKeysFactory .running).1 then .running else s.appState := by
  unfold enter
  rw [if_pos rfl]
  cases mediaKeysFactory with
  | false => rfl
  | true =>
    rcases MediaKeys.createMediaKeys keySystem s.rialto with ⟨made, rialto⟩
    cases made <;> rfl

/-- It is open while the application is running. -/
def Open : Prop := s.mediaKeys.isSome ↔ s.appState = .running

variable {s keySystem mediaKeysFactory}

omit [MediaKeys R] in
theorem Open.none (h : s.Open) (hs : s.appState ≠ .running) : s.mediaKeys = none := by
  rw [← Option.not_isSome_iff_eq_none]
  exact fun hsome => hs (h.mp hsome)

theorem Open.ask (h : s.Open) (call : MediaKeysCall) : (s.ask call).2.Open := by
  unfold Access.ask
  split
  · exact h
  · exact h

theorem Open.enter (h : s.Open) (state : ApplicationState) :
    (s.enter keySystem mediaKeysFactory state).2.Open := by
  unfold Access.enter
  split_ifs with hrunning
  · split
    · simp [Open]
    · exact h
  · exact h
  · simp [Open, hrunning]

theorem Open.settle (h : s.Open) (initialState : ApplicationState) :
    (s.settle keySystem mediaKeysFactory initialState).2.Open := by
  unfold Access.settle
  split_ifs
  · exact h.enter initialState
  · exact h

theorem Open.notify (h : s.Open) (state : ApplicationState) :
    (s.notify keySystem mediaKeysFactory state).Open := by
  unfold Access.notify
  split_ifs
  · exact h
  · exact h.enter state

theorem Open.next (h : s.Open) (c : SystemCall) : (s.next keySystem mediaKeysFactory c).2.Open := by
  cases c with
  | initializeBackend initialState => exact h.settle initialState
  | notifyApplicationState state => exact h.notify state
  | _ => exact h.ask _

theorem Open.after (h : s.Open) (order : List (SystemCall × SystemReply)) :
    (s.after keySystem mediaKeysFactory order).Open := by
  induction order with
  | nil => exact h
  | cons e order ih => exact ih.next e.1

/-- While it is not open nothing works. -/
theorem ask_of_not_running (h : s.Open) (hs : s.appState ≠ .running) (call : MediaKeysCall) :
    s.ask call = (⟨false, none⟩, s) := by
  unfold Access.ask
  rw [h.none hs]

/-- What worked was asked while the application was running. -/
theorem running_of_works (h : s.Open) {c : SystemCall} (hc : c.Asks)
    (hr : (s.next keySystem mediaKeysFactory c).1.Works) : s.appState = .running := by
  by_contra hs
  have hask := ask_of_not_running h hs
  cases c with
  | initializeBackend | notifyApplicationState => exact hc
  | getKeyStoreHash | getSecureStoreHash =>
    simp [next, hask, SystemReply.Works, copyHash] at hr
  | _ => simp [next, hask, SystemReply.Works, errorOf] at hr

theorem Answers.of_suffix {before order : List (SystemCall × SystemReply)}
    (h : s.Answers keySystem mediaKeysFactory order) (hs : before <:+ order) :
    s.Answers keySystem mediaKeysFactory before := by
  induction order with
  | nil => rwa [List.suffix_nil.mp hs]
  | cons e order ih =>
    rcases List.suffix_cons_iff.mp hs with rfl | hs
    · exact h
    · exact ih h.2 hs

/-- An array is left alone, or a whole hash is at its front that is no longer than was said. -/
theorem copied_of_copyHash (array : Bytes) (length : UInt32) (ok : Bool) (hash : Bytes) :
    Copied array length (copyHash array length ok hash) := by
  unfold copyHash
  split_ifs with hok hlong
  · exact .inl rfl
  · exact .inl rfl
  · exact .inr ⟨hash, Nat.not_lt.mp hlong, rfl⟩

end Access

end RialtoOcdm
