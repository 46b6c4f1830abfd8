import RialtoOcdm.Interleaved.Numbering
import RialtoOcdm.Sequential.Lookup

/-! What a session knows, and who listens. The challenge does not depend on the table of
callbacks. The statuses of the keys do: without a callback for key updates a session
does not take note of them. -/

namespace RialtoOcdm

open Concurrency OpenCDMSessionPrivate Rialto

variable {R : Type}

/-- The license that a session was sent last, since it closed its key session last. -/
def lastLicense : List Input → Bytes
  | [] => []
  | .closed :: _ => []
  | .received (.licenseRequest _ message _) :: _ => message
  | .received (.licenseRenewal _ message) :: _ => message
  | _ :: is => lastLicense is

/-- The input, whoever listens. -/
def Input.untabled : Input → Input
  | .constructed messageDispatcher _ context => .constructed messageDispatcher none context
  | i => i

/-- The same history, but for the tables of callbacks. -/
def SameHistory (is is' : List Input) : Prop := is.map Input.untabled = is'.map Input.untabled

theorem lastLicense_untabled (is : List Input) : lastLicense (is.map Input.untabled) = lastLicense is := by
  induction is with
  | nil => rfl
  | cons i is ih =>
    cases i with
    | received message => cases message <;> first | rfl | exact ih
    | closed => rfl
    | _ => exact ih

theorem lastReported_untabled (key : Bytes) (is : List Input) :
    lastReported key (is.map Input.untabled) = lastReported key is := by
  induction is with
  | nil => rfl
  | cons i is ih =>
    cases i with
    | received message =>
      cases message with
      | keyStatusesChanged id keyStatuses => exact congrArg (lastPair key keyStatuses).or ih
      | _ => exact ih
    | closed => rfl
    | _ => exact ih

theorem Alone.foldl_challenge (keyStatuses : List (Bytes × Rialto.KeyStatus)) (x : Alone) :
    (keyStatuses.foldl receiveStatus x).challenge = x.challenge := by
  induction keyStatuses generalizing x with
  | nil => rfl
  | cons keyStatus rest ih => exact ih (x.receiveStatus keyStatus)

/-- The challenge of a session is the license it was sent last. -/
theorem challenge_alone (is : List Input) : (alone is).challenge = lastLicense is := by
  induction is with
  | nil => rfl
  | cons i is ih =>
    cases i with
    | received message =>
      cases message with
      | keyStatusesChanged id keyStatuses =>
        simp only [alone, Alone.next, Alone.receive, lastLicense]
        split_ifs
        · exact (Alone.foldl_challenge keyStatuses _).trans ih
        · exact ih
      | _ => rfl
    | closed => rfl
    | _ => exact ih

/-! ### Statuses -/

/-- Nobody is told anything before the construction. -/
theorem untold_of_not_constructed {n : ℕ} {hs : List Happening} (hn : n ∉ numbers hs) :
    (alone (inputs n hs)).messageDispatcher = none ∧ (alone (inputs n hs)).keyStatuses = ∅ ∧
      ∀ key, lastReported key (inputs n hs) = none := by
  induction hs with
  | nil => exact ⟨rfl, rfl, fun _ => rfl⟩
  | cons e es ih =>
    cases e with
    | constructed m d c u =>
      simp only [numbers, List.filterMap_cons, List.mem_cons, not_or] at hn
      rw [inputs_cons_of_ne rfl (Ne.symm hn.1)]
      exact ih hn.2
    | delivered sys message =>
      have ih := ih hn
      rw [inputs_delivered_of_not_hears fun hx => by simp [Alone.Hears, ih.1] at hx]
      exact ih
    | closed m =>
      obtain ⟨hd, hk, hr⟩ := ih hn
      simp only [inputs, Alone.input]
      split_ifs
      · exact ⟨hd, rfl, fun _ => rfl⟩
      · exact ⟨hd, hk, hr⟩
    | _ =>
      obtain ⟨hd, hk, hr⟩ := ih hn
      simp only [inputs, Alone.input]
      split_ifs <;> exact ⟨hd, hk, hr⟩

/-- A session knows what it was told last of a key if there is a callback for key
updates, and else nothing. -/
theorem keyStatuses_alone_of_nodup {hs : List Happening} (h : (numbers hs).Nodup) (n : ℕ) (key : Bytes) :
    (alone (inputs n hs)).keyStatuses[key]? =
      if (alone (inputs n hs)).table.any (·.keyUpdate) then lastReported key (inputs n hs) else none := by
  induction hs with
  | nil => simp [inputs, alone, Alone.blank]
  | cons e es ih =>
    cases e with
    | constructed m d c u =>
      obtain ⟨hm, hes⟩ := List.nodup_cons.mp h
      by_cases hn : m = n
      · subst hn
        obtain ⟨-, hk, hr⟩ := untold_of_not_constructed hm
        simp only [inputs, Alone.input, if_true, Option.toList_some, List.singleton_append, alone,
          Alone.next, lastReported, hr, hk]
        simp
      · rw [inputs_cons_of_ne rfl hn]
        exact ih hes
    | delivered sys message =>
      by_cases hx : (alone (inputs n es)).Hears sys message
      · have hcons : inputs n (.delivered sys message :: es) = .received message :: inputs n es := by
          simp [inputs, Alone.input, hx]
        obtain ⟨-, htable, -⟩ := (alone (inputs n es)).receive_frame message
        rw [hcons]
        simp only [alone, Alone.next, htable]
        cases message with
        | keyStatusesChanged id keyStatuses =>
          simp only [Alone.receive, lastReported]
          split_ifs with ht
          · have ih := ih h
            rw [if_pos ht] at ih
            exact (Alone.foldl_keyStatuses key keyStatuses _).trans (congrArg _ ih)
          · have ih := ih h
            rwa [if_neg ht] at ih
        | _ => exact ih h
      · rw [inputs_delivered_of_not_hears hx]
        exact ih h
    | closed m =>
      by_cases hn : m = n
      · subst hn
        simp [inputs, Alone.input, alone, Alone.next, lastReported]
      · rw [inputs_cons_of_ne rfl hn]
        exact ih h
    | initialized m id =>
      by_cases hn : m = n
      · subst hn
        simp only [inputs, Alone.input, if_true, Option.toList_some, List.singleton_append]
        exact ih h
      · rw [inputs_cons_of_ne rfl hn]
        exact ih h
    | destructed m =>
      by_cases hn : m = n
      · subst hn
        simp only [inputs, Alone.input, if_true, Option.toList_some, List.singleton_append]
        exact ih h
      · rw [inputs_cons_of_ne rfl hn]
        exact ih h

/-- What a session should answer for a key. -/
def reported (key : Bytes) (is : List Input) : KeyStatus :=
  (lastReported key is).elim .internalError convertKeyStatus

/-- The session has a callback for key updates, or there is no status to know. -/
def Heeds (s : Session) (is : List Input) : Prop :=
  s.callbacks.any (·.keyUpdate) = true ∨ ∀ key, reported key is = .internalError

theorem Consistent.statusOf {w : World R} (h : Consistent w) (hn : Numbered w) {a : Addr} {o : Object}
    (ho : w.heap[a]? = some o) (key : Bytes) : (w.session a).statusOf key =
      if o.session.callbacks.any (·.keyUpdate) then reported key (inputs o.serial (story w.journal))
      else .internalError := by
  have ht := h.object a o ho
  have hd : (w.alone o.serial).keyStatuses = o.session.keyStatuses := congrArg Prod.snd ht.data
  rw [World.session_of ho, Session.statusOf, ← hd, ← ht.table, World.alone,
    keyStatuses_alone_of_nodup hn.nodup]
  split_ifs <;> rfl

theorem status_exec {w : World R} (hi : w.Intact) {a : Addr} (ha : a ∈ w.heap) (key : Bytes) :
    (status a key).exec [] w = .done ((w.session a).statusOf key) w := by
  have hens : (status a key).Ensures (fun _ => False) []
      (fun r w' => r = (w.session a).statusOf key ∧ w' = w) w := status_ensures hi ha key
  obtain ⟨r, w', he, hr, hw⟩ := hens.returns
  rw [he, hr, hw]

/-- The session answers for every key what it was told last. -/
def Knows (w : World R) (a : Addr) (is : List Input) : Prop :=
  ∀ key, ∃ w', (status a key : Code R KeyStatus).exec [] w = .done (reported key is) w'

theorem Consistent.knows_iff {w : World R} (h : Consistent w) (hn : Numbered w) {a : Addr} {o : Object}
    (ho : w.heap[a]? = some o) : Knows w a (inputs o.serial (story w.journal)) ↔
      Heeds o.session (inputs o.serial (story w.journal)) := by
  have ha : a ∈ w.heap := World.mem_of_object ho
  simp only [Knows, status_exec h.sane.intact ha, h.statusOf hn ho, Heeds]
  by_cases ht : o.session.callbacks.any (·.keyUpdate) = true
  · simp [ht]
  · simp [ht, eq_comm]

variable [MediaKeys R]

/-- Two sessions with the same history, but for the table of callbacks, have the same
challenge. They answer for every key what the history says, and are found alike, if and
only if each has a callback for key updates or the history has no status to know. -/
theorem knows_whoever_listens_iff {x y : Run (World R) Mutex Condition Reply} (hx : Reachable x)
    (hy : Reachable y) {a b : Addr} {o o' : Object} (ho : x.shared.heap[a]? = some o)
    (ho' : y.shared.heap[b]? = some o')
    (hs : SameHistory (inputs o.serial (story x.shared.journal))
      (inputs o'.serial (story y.shared.journal))) :
    (o.session.challengeData = o'.session.challengeData ∧
      Knows x.shared a (inputs o.serial (story x.shared.journal)) ∧
      Knows y.shared b (inputs o'.serial (story y.shared.journal)) ∧
      ∀ key n m, x.shared.answers key (a, n) = y.shared.answers key (b, m)) ↔
    Heeds o.session (inputs o.serial (story x.shared.journal)) ∧
      Heeds o'.session (inputs o'.serial (story y.shared.journal)) := by
  have h := hx.consistent
  have h' := hy.consistent
  rw [h.knows_iff hx.numbered ho, h'.knows_iff hy.numbered ho']
  refine ⟨fun ⟨_, hk, hk', _⟩ => ⟨hk, hk'⟩, fun ⟨hk, hk'⟩ => ⟨?_, hk, hk', fun key n m => ?_⟩⟩
  · have hc : (x.shared.alone o.serial).challenge = o.session.challengeData :=
      congrArg Prod.fst (h.object a o ho).data
    have hc' : (y.shared.alone o'.serial).challenge = o'.session.challengeData :=
      congrArg Prod.fst (h'.object b o' ho').data
    rw [← hc, ← hc', World.alone, World.alone, challenge_alone, challenge_alone,
      ← lastLicense_untabled, ← lastLicense_untabled (inputs o'.serial _), hs]
  · have hstatus : ∀ {x : Run (World R) Mutex Condition Reply}, Reachable x → ∀ {a : Addr} {o : Object},
        x.shared.heap[a]? = some o → Heeds o.session (inputs o.serial (story x.shared.journal)) →
        (x.shared.session a).statusOf key = reported key (inputs o.serial (story x.shared.journal)) := by
      intro x hx a o ho hk
      rw [hx.consistent.statusOf hx.numbered ho key]
      rcases hk with ht | hnone
      · rw [if_pos ht]
      · rw [hnone, ite_self]
    have hsame : reported key (inputs o.serial (story x.shared.journal)) =
        reported key (inputs o'.serial (story y.shared.journal)) := by
      rw [reported, reported, ← lastReported_untabled, ← lastReported_untabled key (inputs o'.serial _), hs]
    rw [World.answers, World.answers, hstatus hx ho hk, hstatus hy ho' hk', hsame]

/-- The sample process, with another table of callbacks. -/
def tabledCalls (callbacks : Option OpenCDMSessionCallbacks) : List Call :=
  [.initializeBackend 0 .running, .constructSession 7 (some 0) .temporary "cenc" [] callbacks 5,
    .deliver 0 (.keyStatusesChanged 7 [([1], .usable)]) fun _ _ => []]

theorem heeding_runs : (Run.callAll entry (tabledCalls (some ⟨false, true, false⟩))
    (World.start Compliant.mk (fun _ => "widevine") fun _ => true)).isSome = true := by decide

theorem heedless_runs : (Run.callAll entry (tabledCalls none)
    (World.start Compliant.mk (fun _ => "widevine") fun _ => true)).isSome = true := by decide

/-- It is told of keys only. -/
def heeding : Run (World Compliant) Mutex Condition Reply := ⟨(Run.callAll entry _ _).get heeding_runs, []⟩

/-- It is told nothing. -/
def heedless : Run (World Compliant) Mutex Condition Reply := ⟨(Run.callAll entry _ _).get heedless_runs, []⟩

theorem knows_whoever_listens_iff_sample : sample.shared.answers [1] (7, 1) = heeding.shared.answers [1] (7, 1) := by
  have hy : Reachable heeding := ⟨_, _, _, Run.reaches_of_callAll (Option.some_get heeding_runs).symm⟩
  obtain ⟨o, ho, hn, ht⟩ : ∃ o, sample.shared.heap[7]? = some o ∧ o.serial = 1 ∧
      o.session.callbacks.any (·.keyUpdate) = true := ⟨_, rfl, rfl, rfl⟩
  obtain ⟨o', ho', hn', ht'⟩ : ∃ o, heeding.shared.heap[7]? = some o ∧ o.serial = 1 ∧
      o.session.callbacks.any (·.keyUpdate) = true := ⟨_, rfl, rfl, rfl⟩
  have hs : SameHistory (inputs 1 (story sample.shared.journal)) (inputs 1 (story heeding.shared.journal)) := by
    unfold SameHistory
    decide
  exact ((knows_whoever_listens_iff sample_reachable hy ho ho' (by rw [hn, hn']; exact hs)).mpr
    ⟨.inl ht, .inl ht'⟩).2.2.2 [1] 1 1

/-- A session that was told the status of a key does not know it without a callback. -/
theorem knows_less_without_callback :
    ¬ ∀ (x y : Run (World Compliant) Mutex Condition Reply) (a b : Addr) (o o' : Object),
      Reachable x → Reachable y → x.shared.heap[a]? = some o → y.shared.heap[b]? = some o' →
      SameHistory (inputs o.serial (story x.shared.journal)) (inputs o'.serial (story y.shared.journal)) →
      o.session.challengeData = o'.session.challengeData ∧
        ∀ key, (x.shared.session a).statusOf key = (y.shared.session b).statusOf key := by
  intro h
  have hy : Reachable heedless := ⟨_, _, _, Run.reaches_of_callAll (Option.some_get heedless_runs).symm⟩
  obtain ⟨o, ho, hn⟩ : ∃ o, sample.shared.heap[7]? = some o ∧ o.serial = 1 := ⟨_, rfl, rfl⟩
  obtain ⟨o', ho', hn'⟩ : ∃ o, heedless.shared.heap[7]? = some o ∧ o.serial = 1 := ⟨_, rfl, rfl⟩
  have hs : SameHistory (inputs 1 (story sample.shared.journal)) (inputs 1 (story heedless.shared.journal)) := by
    unfold SameHistory
    decide
  have hstatus := (h _ _ 7 7 o o' sample_reachable hy ho ho' (by rw [hn, hn']; exact hs)).2 [1]
  exact absurd hstatus (by decide)

end RialtoOcdm
