import RialtoOcdm.Sequential.Runs
import Mathlib.Algebra.Group.Nat.Defs

/-! What the application sees of a message in its callbacks. It gets a pointer and a
length, reads as many bytes, and asks within the callback for a key for the status of
the key it was given. -/

namespace RialtoOcdm

open Concurrency Prog OpenCDMSessionPrivate Rialto

/-- What the application notes in a callback. -/
inductive Seen
  | challenge (challenge : Bytes)
  | key (keyId : Bytes) (status : KeyStatus)
  deriving DecidableEq

variable {R : Type}

/-- The notes of the application are kept beside the state of Rialto. -/
def World.jot (w : World (R × List Seen)) (s : Seen) : World (R × List Seen) :=
  w.setRialto (w.rialto.1, w.rialto.2 ++ [s])

/-- An application that reads what it is given. -/
def reader : Application (R × List Seen) := fun a callback =>
  match callback with
  | .processChallenge _ _ challenge challengeLength =>
    .modify (·.jot (.challenge (challenge.take challengeLength.toNat)))
  | .keyUpdate _ keyId length => do
    let status ← opencdmSessionStatus (some a) (some (keyId.take length.toNat))
    .modify (·.jot (.key (keyId.take length.toNat) status))
  | .keysUpdated _ => return

/-- What is to be seen of a pair. No status is told of an empty key id. -/
def seenKey (keyStatus : Bytes × Rialto.KeyStatus) : Seen :=
  .key keyStatus.1 (if keyStatus.1 = [] then .internalError else convertKeyStatus keyStatus.2)

/-- What is to be seen of a message. -/
def Rialto.Message.seen : Message → List Seen
  | .licenseRequest _ message _ => [.challenge message]
  | .licenseRenewal _ message => [.challenge message]
  | .keyStatusesChanged _ keyStatuses => keyStatuses.map seenKey

/-- The lengths of the message are values of the parameters of the callbacks. -/
def Rialto.Message.Fits : Message → Prop
  | .licenseRequest _ message _ => message.length < 2 ^ 16
  | .licenseRenewal _ message => message.length < 2 ^ 16
  | .keyStatusesChanged _ keyStatuses => ∀ p ∈ keyStatuses, p.1.length < 2 ^ 8

/-! ### One callback -/

/-- The session at `a` has a full table of callbacks, and the application has noted `seen`. -/
structure Listening (a : Addr) (id : Int32) (seen : List Seen) (w : World (R × List Seen))
    (o : Object) : Prop where
  object : w.heap[a]? = some o
  destroyed : o.destroyed = []
  table : o.session.callbacks = some ⟨true, true, true⟩
  id : o.session.rialtoSessionId = id
  seen : w.rialto.2 = seen

variable {I : World (R × List Seen) → Prop} {held : List Mutex} {w : World (R × List Seen)} {a : Addr}
  {o : Object} {id : Int32} {seen : List Seen}

theorem Listening.jot (h : Listening a id seen w o) (s : Seen) :
    Listening a id (seen ++ [s]) (w.jot s) o :=
  ⟨h.object, h.destroyed, h.table, h.id, by rw [← h.seen]; rfl⟩

theorem Listening.record (h : Listening a id seen w o) (e : Event) : Listening a id seen (w.record e) o :=
  ⟨h.object, h.destroyed, h.table, h.id, h.seen⟩

/-- The session learns something. -/
theorem Listening.update (h : Listening a id seen w o) {f : Session → Session}
    (hf : ∀ s, (f s).callbacks = s.callbacks ∧ (f s).rialtoSessionId = s.rialtoSessionId) :
    Listening a id seen (w.updateSession a f) { o with session := f o.session } :=
  ⟨by simp [h.object], h.destroyed, (hf _).1.trans h.table, (hf _).2.trans h.id, h.seen⟩

/-- What the application reads of a license. -/
def readLicense (message : Bytes) : Seen :=
  .challenge (message.take (UInt16.ofNat message.length).toNat)

theorem onLicenseMessage_reads (hheld : .session a ∉ held) (h : Listening a id seen w o)
    (message : Bytes) (url : String) : (onLicenseMessage reader a id message url).Ensures I held
      (fun _ w' => ∃ o', Listening a id (seen ++ [readLicense message]) w' o') w := by
  rw [onLicenseMessage, ensures_readMember h.object h.destroyed, if_pos h.id.symm]
  have hset := h.update (f := ({ · with challengeData := message })) fun s => ⟨rfl, rfl⟩
  have huse := World.use_live h.object h.destroyed
  have huse' := World.use_live (hset.record (.challenge (w.serial a) message)).object hset.destroyed
  refine .bind ?_
  simp only [updateChallenge, locked, modify_bind, ensures_act, huse]
  refine .withLock hheld ?_
  simp only [ensures_act, huse, huse', ensures_signal]
  have h' := hset.record (.challenge (w.serial a) message)
  rw [ensures_readMember h'.object h'.destroyed, h'.table, if_pos (by rfl),
    ensures_readMember h'.object h'.destroyed]
  exact .bind (ensures_modify.mpr (ensures_modify.mpr ⟨_, (h'.record _).jot _⟩))

/-- What the application may read of a pair: the key id as far as the length goes, and its
own status if that is all of it. -/
def ReadsKey (keyStatus : Bytes × Rialto.KeyStatus) (s : Seen) : Prop :=
  ∃ status, s = .key (keyStatus.1.take (UInt8.ofNat keyStatus.1.length).toNat) status ∧
    (keyStatus.1.length < 2 ^ 8 → s = seenKey keyStatus)

theorem sessionStatus_live (h : Listening a id seen w o) (key : Bytes) :
    (opencdmSessionStatus (some a) (some key)).Ensures I held (fun r w' =>
      r = (if key = [] then .internalError else o.session.statusOf key) ∧ w' = w) w := by
  simp only [opencdmSessionStatus, ne_eq, List.length_eq_zero_iff, ite_not]
  split_ifs
  · exact ensures_ret.mpr ⟨rfl, rfl⟩
  · rw [status, ensures_readMember h.object h.destroyed, Session.statusOf]
    cases o.session.keyStatuses[key]? <;> exact ensures_ret.mpr ⟨rfl, rfl⟩

theorem onKeyStatus_reads (h : Listening a id seen w o) (keyStatus : Bytes × Rialto.KeyStatus) :
    (onKeyStatus reader a keyStatus).Ensures I held (fun _ w' => ∃ o' s, ReadsKey keyStatus s ∧
      Listening a id (seen ++ [s]) w' o') w := by
  simp only [onKeyStatus, writeMember, modify_bind, ensures_act, World.use_live h.object h.destroyed]
  have h₁ := h.update (f := fun s => { s with
    keyStatuses := s.keyStatuses.insert keyStatus.1 keyStatus.2 }) fun s => ⟨rfl, rfl⟩
  rw [ensures_readMember h₁.object h₁.destroyed]
  refine .bind (ensures_modify.mpr ?_)
  have h₂ := h₁.record (.callback ((w.updateSession a fun s => { s with
    keyStatuses := s.keyStatuses.insert keyStatus.1 keyStatus.2 }).serial a)
    (.keyUpdate o.session.context keyStatus.1 (.ofNat keyStatus.1.length)))
  refine .bind ((sessionStatus_live h₂ _).mono ?_)
  rintro status w' ⟨hstatus, rfl⟩
  refine ensures_modify.mpr ⟨_, _, ⟨status, rfl, fun hlt => ?_⟩, h₂.jot _⟩
  rw [UInt8.toNat_ofNat', Nat.mod_eq_of_lt hlt, List.take_length] at hstatus ⊢
  rw [hstatus, seenKey, Session.statusOf]
  simp

theorem onKeyStatuses_reads (keyStatuses : List (Bytes × Rialto.KeyStatus)) (h : Listening a id seen w o) :
    (keyStatuses.forM (onKeyStatus reader a)).Ensures I held (fun _ w' => ∃ o' l,
      List.Forall₂ ReadsKey keyStatuses l ∧ Listening a id (seen ++ l) w' o') w := by
  induction keyStatuses generalizing w seen o with
  | nil => exact ensures_ret.mpr ⟨o, [], .nil, by simpa using h⟩
  | cons keyStatus rest ih =>
    refine .bind ((onKeyStatus_reads h keyStatus).mono fun _ w₁ ⟨o₁, s, hs, h₁⟩ => ?_)
    refine (ih h₁).mono fun _ w₂ ⟨o₂, l, hl, h₂⟩ => ⟨o₂, s :: l, .cons hs hl, ?_⟩
    rwa [List.append_assoc, List.singleton_append] at h₂

theorem onKeyStatusesChanged_reads (h : Listening a id seen w o)
    (keyStatuses : List (Bytes × Rialto.KeyStatus)) :
    (onKeyStatusesChanged reader a id keyStatuses).Ensures I held (fun _ w' => ∃ o' l,
      List.Forall₂ ReadsKey keyStatuses l ∧ Listening a id (seen ++ l) w' o') w := by
  rw [onKeyStatusesChanged, ensures_readMember h.object h.destroyed, if_pos h.id.symm,
    ensures_readMember h.object h.destroyed, h.table, if_pos (by rfl)]
  refine .bind ((onKeyStatuses_reads keyStatuses h).mono ?_)
  rintro _ w₁ ⟨o₁, l, hl, h₁⟩
  rw [if_pos (by rfl), ensures_readMember h₁.object h₁.destroyed]
  exact .bind (ensures_modify.mpr (ensures_ret.mpr ⟨o₁, l, hl, h₁.record _⟩))

/-! ### A message -/

/-- What the application may read of a message. -/
def Reads : Message → List Seen → Prop
  | .licenseRequest _ message _, l => l = [readLicense message]
  | .licenseRenewal _ message, l => l = [readLicense message]
  | .keyStatusesChanged _ keyStatuses, l => List.Forall₂ ReadsKey keyStatuses l

/-- Whatever the message, the session has made its callbacks when its handler returns. -/
theorem onMessage_reads (hheld : .session a ∉ held) (message : Message)
    (h : Listening a message.keySessionId seen w o) : ∃ w' l,
    (onMessage reader a message).exec held w = .done () w' ∧ w'.rialto.2 = seen ++ l ∧ Reads message l := by
  have hens : (onMessage reader a message).Ensures (fun _ => False) held
      (fun _ w' => ∃ l, w'.rialto.2 = seen ++ l ∧ Reads message l) w := by
    cases message with
    | licenseRequest id message url =>
      exact (onLicenseMessage_reads hheld h message url).mono fun _ _ ⟨o', h'⟩ => ⟨_, h'.seen, rfl⟩
    | licenseRenewal id message =>
      exact (onLicenseMessage_reads hheld h message "").mono fun _ _ ⟨o', h'⟩ => ⟨_, h'.seen, rfl⟩
    | keyStatusesChanged id keyStatuses =>
      exact (onKeyStatusesChanged_reads h keyStatuses).mono fun _ _ ⟨o', l, hl, h'⟩ => ⟨l, h'.seen, hl⟩
  obtain ⟨_, w', he, l, hw', hl⟩ := hens.returns
  exact ⟨w', l, he, hw', hl⟩

theorem readsKeys_eq {keyStatuses : List (Bytes × Rialto.KeyStatus)} {l : List Seen}
    (h : List.Forall₂ ReadsKey keyStatuses l) (hf : ∀ p ∈ keyStatuses, p.1.length < 2 ^ 8) :
    l = keyStatuses.map seenKey := by
  induction h with
  | nil => rfl
  | cons hs _ ih =>
    obtain ⟨_, -, hs⟩ := hs
    rw [List.map_cons, hs (hf _ List.mem_cons_self), ← ih fun p hp => hf p (List.mem_cons_of_mem _ hp)]

theorem readLicense_eq {message : Bytes} (h : message.length < 2 ^ 16) :
    readLicense message = .challenge message := by
  rw [readLicense, UInt16.toNat_ofNat', Nat.mod_eq_of_lt h, List.take_length]

theorem Reads.eq_seen {message : Message} {l : List Seen} (h : Reads message l) (hf : message.Fits) :
    l = message.seen := by
  cases message with
  | licenseRequest id message url => exact h.trans (congrArg (fun s => [s]) (readLicense_eq hf))
  | licenseRenewal id message => exact h.trans (congrArg (fun s => [s]) (readLicense_eq hf))
  | keyStatusesChanged id keyStatuses => exact readsKeys_eq h hf

/-- A message whose lengths are values of the parameters of the callbacks: in every state,
when it is delivered to a session with a full table of callbacks, the application reads
the license, or the key ids with their statuses, that Rialto sent, in their order. Of an
empty key id it is told no status. -/
theorem callbacks_show_message {held : List Mutex} (hheld : .session a ∉ held)
    {w : World (R × List Seen)} {o : Object} (ho : w.heap[a]? = some o) (hd : o.destroyed = [])
    (ht : o.session.callbacks = some ⟨true, true, true⟩) {message : Message}
    (hid : message.keySessionId = o.session.rialtoSessionId) (hf : message.Fits) :
    ∃ w', (onMessage reader a message).exec held w = .done () w' ∧
      w'.rialto.2 = w.rialto.2 ++ message.seen := by
  obtain ⟨w', l, he, hw', hl⟩ := onMessage_reads hheld message ⟨ho, hd, ht, hid.symm, rfl⟩
  exact ⟨w', he, hl.eq_seen hf ▸ hw'⟩

/-- A Rialto is one with notes beside it. -/
instance {ν : Type} [MediaKeys R] : MediaKeys (R × ν) where
  createMediaKeys keySystem r := ((MediaKeys.createMediaKeys keySystem r.1).1,
    (MediaKeys.createMediaKeys keySystem r.1).2, r.2)
  call i call r := ((MediaKeys.call i call r.1).1, (MediaKeys.call i call r.1).2, r.2)

/-- A process with a session. -/
theorem attentive_runs : (Run.callAll entry [.initializeBackend 0 .running,
    .constructSession 7 (some 0) .temporary "cenc" [] (some ⟨true, true, true⟩) 5]
    (World.start (Compliant.mk, ([] : List Seen)) (fun _ => "widevine") fun _ => true)).isSome = true := by
  decide

def attentive : Run (World (Compliant × List Seen)) Mutex Condition Reply :=
  ⟨(Run.callAll entry _ _).get attentive_runs, []⟩

theorem attentive_reachable : Reachable attentive :=
  ⟨_, _, _, Run.reaches_of_callAll (Option.some_get attentive_runs).symm⟩

/-- The application sees the two keys with their statuses. -/
theorem callbacks_show_message_sample : ∃ w', (onMessage reader 7
    (.keyStatusesChanged 7 [([1], .usable), ([2, 3], .expired)])).exec [.dispatcher 0] attentive.shared =
      .done () w' ∧ w'.rialto.2 = [.key [1] .usable, .key [2, 3] .expired] := by
  obtain ⟨o, ho, hd, ht, hid⟩ : ∃ o, attentive.shared.heap[7]? = some o ∧ o.destroyed = [] ∧
      o.session.callbacks = some ⟨true, true, true⟩ ∧ o.session.rialtoSessionId = 7 :=
    ⟨_, rfl, rfl, rfl, rfl⟩
  exact callbacks_show_message (by simp) ho hd ht hid.symm (by simp [Message.Fits])

/-- What Rialto sent. -/
def Rialto.Message.sent : Message → List Seen
  | .licenseRequest _ message _ => [.challenge message]
  | .licenseRenewal _ message => [.challenge message]
  | .keyStatusesChanged _ keyStatuses => keyStatuses.map fun p => .key p.1 (convertKeyStatus p.2)

/-- No status is told of an empty key id, and the length of a long key id or license is
cut off. -/
theorem callbacks_show_less : Reachable attentive ∧ ∀ message ∈ [
    .keyStatusesChanged 7 [([], .usable)],
    .keyStatusesChanged 7 [(List.replicate (2 ^ 8) 0, .usable)],
    .licenseRenewal 7 (List.replicate (2 ^ 16) 0)],
    ¬ ∃ w', (onMessage reader 7 message).exec [.dispatcher 0] attentive.shared = .done () w' ∧
      w'.rialto.2 = attentive.shared.rialto.2 ++ message.sent := by
  obtain ⟨o, ho, hd, ht, hid⟩ : ∃ o, attentive.shared.heap[7]? = some o ∧ o.destroyed = [] ∧
      o.session.callbacks = some ⟨true, true, true⟩ ∧ o.session.rialtoSessionId = 7 :=
    ⟨_, rfl, rfl, rfl, rfl⟩
  have hreads : ∀ message : Message, message.keySessionId = 7 → (∃ w', (onMessage reader 7 message).exec
      [.dispatcher 0] attentive.shared = .done () w' ∧
      w'.rialto.2 = attentive.shared.rialto.2 ++ message.sent) → Reads message message.sent := by
    rintro message hm ⟨w', he, hw'⟩
    obtain ⟨w'', l, he', hw'', hl⟩ := onMessage_reads
      (by simp : Mutex.session 7 ∉ [.dispatcher 0]) message ⟨ho, hd, ht, hid.trans hm.symm, rfl⟩
    obtain rfl : w' = w'' := by simpa using he.symm.trans he'
    rwa [List.append_cancel_left (hw'.symm.trans hw'')]
  refine ⟨attentive_reachable, ?_⟩
  simp only [List.forall_mem_cons, List.not_mem_nil, false_implies, implies_true, and_true]
  refine ⟨fun h => ?_, fun h => ?_, fun h => ?_⟩
  · obtain ⟨-, -, hs⟩ := (List.forall₂_cons.mp (hreads _ rfl h)).1
    exact absurd (hs (by decide)) (by decide)
  · obtain ⟨status, hs, -⟩ := (List.forall₂_cons.mp (hreads _ rfl h)).1
    have hlength := congrArg List.length (Seen.key.inj hs).1
    rw [List.length_take, List.length_replicate, UInt8.toNat_ofNat'] at hlength
    exact absurd hlength (by decide)
  · have hs : [Seen.challenge (List.replicate (2 ^ 16) 0)] = [readLicense (List.replicate (2 ^ 16) 0)] :=
      hreads _ rfl h
    have hlength := congrArg List.length (Seen.challenge.inj (List.head_eq_of_cons_eq hs))
    rw [List.length_take, List.length_replicate, UInt16.toNat_ofNat'] at hlength
    exact absurd hlength (by decide)

end RialtoOcdm
