import RialtoOcdm.Sequential.Runs

/-! Who is a client. In sequential runs the clients of a dispatcher are the sessions
that have a key session: it was made once, and is not closed. -/

namespace RialtoOcdm

open Concurrency

variable {R : Type}

/-- The key session that session `n` has after what is in the journal. -/
def openKeySession (n : ℕ) : List Event → Option Int32
  | [] => none
  | .keySessionCreated m _ id :: es => if m = n then some id else openKeySession n es
  | .keySessionClosed m :: es => if m = n then none else openKeySession n es
  | .destructed _ m :: es => if m = n then none else openKeySession n es
  | _ :: es => openKeySession n es

/-- All key sessions that session `n` has got, the last one first. -/
def keySessionsOf (n : ℕ) (journal : List Event) : List Int32 :=
  journal.filterMap fun
    | .keySessionCreated m _ id => if m = n then some id else none
    | _ => none

/-- Messages do not change who has which key session. -/
theorem alone_inputs_cons (n : ℕ) (h : Happening) (hs : List Happening) :
    alone (inputs n (h :: hs)) =
      (((alone (inputs n hs)).input n h).elim (alone (inputs n hs)) (alone (inputs n hs)).next) := by
  rw [inputs]
  cases (alone (inputs n hs)).input n h <;> rfl

theorem listening_alone (n : ℕ) (journal : List Event) :
    (alone (inputs n (story journal))).listening = openKeySession n journal ∧
    (alone (inputs n (story journal))).keySessions = keySessionsOf n journal := by
  induction journal with
  | nil => exact ⟨rfl, rfl⟩
  | cons e es ih =>
    cases hh : e.happening with
    | none =>
      rw [story_cons_of_none hh]
      cases e <;> first | exact ih | cases hh
    | some h =>
      rw [story_cons hh, alone_inputs_cons]
      cases e <;> simp only [Event.happening, Option.some.injEq, reduceCtorEq] at hh <;> subst hh
      case message sys message =>
        simp only [Alone.input, openKeySession, keySessionsOf, List.filterMap_cons]
        split_ifs
        · obtain ⟨-, -, -, hl, hk⟩ := (alone (inputs n (story es))).receive_frame message
          exact ⟨hl.trans ih.1, hk.trans ih.2⟩
        · exact ih
      all_goals
        simp only [Alone.input, openKeySession, keySessionsOf, List.filterMap_cons]
        split_ifs
        · simp [Alone.next, ih.1, ih.2, keySessionsOf]
        · simpa [keySessionsOf] using ih

variable [MediaKeys R]

/-- In every state of a sequential run:

* a session is a client of its dispatcher, and of no other, if and only if it has a
  handle, if and only if it has got a key session that it has not closed since;
* there are no other clients, and all of them are initialized sessions in memory;
* no session has got more than one key session, and it keeps its id;
* to close a session returns, and closes its key session, and no other, if and only if
  the answer is true. -/
theorem client_iff_key_session {x : Run (World R) Mutex Condition Reply} (hx : Reachable x) :
    (∀ (a : Addr) o, x.shared.heap[a]? = some o →
      (∀ sys, a ∈ x.shared.clients sys ↔
        o.session.messageDispatcher = some sys ∧ o.session.messageDispatcherClient ≠ none) ∧
      (o.session.messageDispatcherClient ≠ none ↔
        (openKeySession o.serial x.shared.journal).isSome)) ∧
    (∀ n, (openKeySession n x.shared.journal).isSome →
      ∃ (a : Addr) (o : Object), x.shared.heap[a]? = some o ∧ o.serial = n) ∧
    (∀ sys, ∀ a ∈ x.shared.clients sys, ∃ o, x.shared.heap[a]? = some o ∧ o.destroyed = [] ∧
      o.session.isInitialized = true) ∧
    (∀ n, (keySessionsOf n x.shared.journal).length ≤ 1) ∧
    (∀ (a : Addr) o, x.shared.heap[a]? = some o →
      ∀ id ∈ keySessionsOf o.serial x.shared.journal, o.session.rialtoSessionId = id) ∧
    (∀ (a : Addr) o, x.shared.heap[a]? = some o →
      ∃ ok w', (OpenCDMSessionPrivate.closeSession a).exec [] x.shared = .done ok w' ∧
        ∀ n, openKeySession n w'.journal =
          if ok = true ∧ o.serial = n then none else openKeySession n x.shared.journal) := by
  have h := hx.consistent
  refine ⟨fun a o ho => ?_, fun n hn => ?_, fun sys a ha => ?_, fun n => ?_, fun a o ho id hid => ?_,
    fun a o ho => ?_⟩
  · have ht := h.object a o ho
    have hl : (x.shared.alone o.serial).listening = openKeySession o.serial x.shared.journal :=
      (listening_alone _ _).1
    cases ht.registered with
    | no handle listening => simp [ht.clients, handle, ← hl, listening]
    | yes sys dispatcher handle initialized listening =>
      simp [ht.clients, handle, dispatcher, ← hl, listening]
  · by_contra hno
    have hover := (h.gone n fun a o ho hs => hno ⟨a, o, ho, hs⟩).1
    rw [World.alone, (listening_alone n _).1] at hover
    simp [hover] at hn
  · obtain ⟨o, ho⟩ := World.object_of_mem (h.clients sys a ha)
    have ht := h.object a o ho
    refine ⟨o, ho, ht.destroyed, ?_⟩
    cases ht.registered with
    | no handle listening => simp [ht.clients, handle] at ha
    | yes sys dispatcher handle initialized listening => exact initialized
  · rw [← (listening_alone n _).2]
    by_cases hlive : ∃ (a : Addr) (o : Object), x.shared.heap[a]? = some o ∧ o.serial = n
    · obtain ⟨a, o, ho, rfl⟩ := hlive
      have hk := (h.object a o ho).keySessions
      rw [World.alone] at hk
      rw [hk]
      split_ifs <;> simp
    · exact (h.gone n fun a o ho hs => hlive ⟨a, o, ho, hs⟩).2
  · have hk := (h.object a o ho).keySessions
    rw [World.alone, (listening_alone _ _).2] at hk
    rw [hk] at hid
    split_ifs at hid
    · exact (List.mem_singleton.mp hid).symm
    · simp at hid
  · obtain ⟨ok, w', he, -, hstory⟩ := h.closes ho
    refine ⟨ok, w', he, fun n => ?_⟩
    rw [← (listening_alone n _).1, ← (listening_alone n _).1, hstory]
    cases ok with
    | false => simp
    | true =>
      rw [if_pos rfl, inputs_closed]
      by_cases hn : o.serial = n
      · simp [hn, alone, Alone.next]
      · simp [hn]

/-- A process that has made a session, which was told the status of a key. -/
def sampleCalls : List Call :=
  [.initializeBackend 0 .running,
    .constructSession 7 (some 0) .temporary "cenc" [] (some ⟨true, true, true⟩) 5,
    .deliver 0 (.keyStatusesChanged 7 [([1], .usable)]) fun _ _ => []]

theorem sample_runs : (Run.callAll entry sampleCalls
    (World.start Compliant.mk (fun _ => "widevine") fun _ => true)).isSome = true := by decide

def sample : Run (World Compliant) Mutex Condition Reply :=
  ⟨(Run.callAll entry sampleCalls _).get sample_runs, []⟩

theorem sample_reachable : Reachable sample :=
  ⟨_, _, _, Run.reaches_of_callAll (Option.some_get sample_runs).symm⟩

/-- A Rialto that grants everything and numbers its key sessions. -/
structure Numbering where
  next : Int32

namespace Numbering

def answer : (call : Rialto.MediaKeysCall) → Numbering → Rialto.Answer call × Numbering
  | .createKeySession .., r => (⟨true, some r.next⟩, ⟨r.next + 1⟩)
  | _, r => (⟨true, none⟩, r)

instance : MediaKeys Numbering where
  createMediaKeys _ r := (true, r)
  call _ := answer

end Numbering

/-- Two sessions, each of which is told the status of the key. Then the first one is closed,
and there is another message for its key session. -/
def twoCalls : List Call :=
  [.initializeBackend 0 .running,
    .constructSession 7 (some 0) .temporary "cenc" [] (some ⟨true, true, true⟩) 5,
    .constructSession 9 (some 0) .temporary "cenc" [] (some ⟨true, true, true⟩) 6,
    .deliver 0 (.keyStatusesChanged 1 [([1], .usable)]) fun _ _ => [],
    .deliver 0 (.keyStatusesChanged 2 [([1], .usable)]) fun _ _ => [],
    .operation (some 7) .close,
    .deliver 0 (.keyStatusesChanged 1 [([1], .usable)]) fun _ _ => []]

theorem two_runs : (Run.callAll entry twoCalls
    (World.start (⟨1⟩ : Numbering) (fun _ => "widevine") fun _ => true)).isSome = true := by decide

def two : Run (World Numbering) Mutex Condition Reply := ⟨(Run.callAll entry twoCalls _).get two_runs, []⟩

theorem two_reachable : Reachable two := ⟨_, _, _, Run.reaches_of_callAll (Option.some_get two_runs).symm⟩

/-- The session that is closed is no client any more, and the other one is, until it is
closed too. -/
theorem client_iff_key_session_sample : 7 ∉ two.shared.clients 0 ∧ 9 ∈ two.shared.clients 0 ∧
    ∃ ok w', (OpenCDMSessionPrivate.closeSession 9).exec [] two.shared = .done ok w' ∧
      openKeySession 2 w'.journal = if ok = true then none else some 2 := by
  obtain ⟨o, ho, hclosed⟩ : ∃ o, two.shared.heap[7]? = some o ∧
      (openKeySession o.serial two.shared.journal).isSome = false := ⟨_, rfl, rfl⟩
  obtain ⟨o', ho', hd, hn, hs⟩ : ∃ o, two.shared.heap[9]? = some o ∧
      o.session.messageDispatcher = some 0 ∧ o.serial = 2 ∧
      openKeySession o.serial two.shared.journal = some 2 := ⟨_, rfl, rfl, rfl, rfl⟩
  obtain ⟨hclient, -, -, -, -, hcloses⟩ := client_iff_key_session two_reachable
  refine ⟨fun hmem => ?_, ((hclient 9 o' ho').1 0).mpr ⟨hd, (hclient 9 o' ho').2.mpr (by simp [hs])⟩, ?_⟩
  · have hopen := (hclient 7 o ho).2.mp (((hclient 7 o ho).1 0).mp hmem).2
    rw [hclosed] at hopen
    cases hopen
  · obtain ⟨ok, w', he, hafter⟩ := hcloses 9 o' ho'
    refine ⟨ok, w', he, ?_⟩
    rw [hn] at hs
    simpa [hn, hs] using hafter 2

end RialtoOcdm
