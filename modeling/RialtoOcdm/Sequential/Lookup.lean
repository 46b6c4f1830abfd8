import RialtoOcdm.Sequential.Clients

/-! Looking a key up. Where all sessions have a callback for key updates, a look-up
finds a session that was told last, of the key, a status it may be found for. -/

namespace RialtoOcdm

open Concurrency Rialto

variable {R : Type}

/-- The status in the last pair for the key. -/
def lastPair (key : Bytes) : List (Bytes × Rialto.KeyStatus) → Option Rialto.KeyStatus
  | [] => none
  | (k, s) :: rest => (lastPair key rest).or (if k = key then some s else none)

/-- The status of the key that a session was told last, since it closed its key
session last. The last input comes first. -/
def lastReported (key : Bytes) : List Input → Option Rialto.KeyStatus
  | [] => none
  | .closed :: _ => none
  | .received (.keyStatusesChanged _ keyStatuses) :: is =>
    (lastPair key keyStatuses).or (lastReported key is)
  | _ :: is => lastReported key is

theorem Alone.foldl_keyStatuses (key : Bytes) (keyStatuses : List (Bytes × Rialto.KeyStatus))
    (x : Alone) : (keyStatuses.foldl receiveStatus x).keyStatuses[key]? =
      (lastPair key keyStatuses).or x.keyStatuses[key]? := by
  induction keyStatuses generalizing x with
  | nil => rfl
  | cons keyStatus rest ih =>
    rw [List.foldl_cons, ih, lastPair, Option.or_assoc]
    congr 1
    simp only [receiveStatus, Std.ExtTreeMap.getElem?_insert, Std.compare_eq_iff_eq]
    split_ifs <;> rfl

/-- All sessions of the story have a callback for key updates. -/
def KeyUpdates (hs : List Happening) : Prop :=
  ∀ n messageDispatcher callbacks context, .constructed n messageDispatcher callbacks context ∈ hs →
    callbacks.any (·.keyUpdate) = true

/-- Who hears messages has been constructed. -/
theorem table_of_messageDispatcher {hs : List Happening} (h : KeyUpdates hs) (n : ℕ)
    (hd : (alone (inputs n hs)).messageDispatcher ≠ none) :
    (alone (inputs n hs)).table.any (·.keyUpdate) = true := by
  induction hs with
  | nil => exact absurd rfl hd
  | cons e es ih =>
    have ih := ih fun m d c u hm => h m d c u (List.mem_cons_of_mem _ hm)
    rw [alone_inputs_cons] at hd ⊢
    cases e with
    | constructed m d c u =>
      simp only [Alone.input] at hd ⊢
      split_ifs at hd ⊢
      · exact h m d c u (by simp)
      · exact ih hd
    | delivered sys message =>
      simp only [Alone.input] at hd ⊢
      split_ifs at hd ⊢
      · obtain ⟨hd', ht, -⟩ := (alone (inputs n es)).receive_frame message
        simp only [Option.elim_some, Alone.next] at hd ⊢
        rw [ht]
        exact ih (hd' ▸ hd)
      · exact ih hd
    | _ =>
      simp only [Alone.input] at hd ⊢
      split_ifs at hd ⊢ <;> exact ih hd

/-- The key statuses of a session are those it was told last. -/
theorem keyStatuses_alone {hs : List Happening} (h : KeyUpdates hs) (n : ℕ) (key : Bytes) :
    (alone (inputs n hs)).keyStatuses[key]? = lastReported key (inputs n hs) := by
  induction hs with
  | nil => simp [inputs, alone, Alone.blank, lastReported]
  | cons e es ih =>
    have htail : KeyUpdates es := fun m d c u hm => h m d c u (List.mem_cons_of_mem _ hm)
    have ih := ih htail
    rw [inputs]
    cases e with
    | delivered sys message =>
      simp only [Alone.input]
      split_ifs with hx
      · have htable := table_of_messageDispatcher htail n (by simp [hx.1])
        cases message with
        | keyStatusesChanged id keyStatuses =>
          simp only [Option.toList_some, List.singleton_append, alone, Alone.next, Alone.receive,
            lastReported, if_pos htable, ← ih]
          exact Alone.foldl_keyStatuses key keyStatuses _
        | _ => exact ih
      · exact ih
    | closed m =>
      simp only [Alone.input]
      split_ifs
      · simp [alone, Alone.next, lastReported]
      · exact ih
    | _ =>
      simp only [Alone.input]
      split_ifs <;> exact ih

/-- A session answers for the key if and only if the status it was told last says so. -/
theorem Consistent.statusOf_ne_iff {w : World R} (h : Consistent w) (hk : KeyUpdates (story w.journal))
    {a : Addr} {o : Object} (ho : w.heap[a]? = some o) (key : Bytes) :
    (w.session a).statusOf key ≠ .internalError ↔
      ∃ s, lastReported key (inputs o.serial (story w.journal)) = some s ∧
        convertKeyStatus s ≠ .internalError := by
  have hd : (w.alone o.serial).keyStatuses = o.session.keyStatuses :=
    congrArg Prod.snd (h.object a o ho).data
  rw [← keyStatuses_alone hk, ← World.alone, hd, Session.statusOf, World.session_of ho]
  cases o.session.keyStatuses[key]? <;> simp

variable [MediaKeys R]

theorem Consistent.reported_of_close {w : World R} (h : Consistent w) {a : Addr} {o : Object}
    (ho : w.heap[a]? = some o) (key : Bytes) :
    ∃ ok w', (OpenCDMSessionPrivate.closeSession a).exec [] w = .done ok w' ∧
      ∀ n, lastReported key (inputs n (story w'.journal)) =
        if ok = true ∧ o.serial = n then none else lastReported key (inputs n (story w.journal)) := by
  obtain ⟨ok, w', he, -, hstory⟩ := h.closes ho
  refine ⟨ok, w', he, fun n => ?_⟩
  rw [hstory]
  cases ok with
  | false => simp
  | true =>
    rw [if_pos rfl, inputs_closed]
    by_cases hn : o.serial = n
    · simp [hn, lastReported]
    · simp [hn]

/-- In every state of a sequential run in which all sessions have a callback for key
updates, a look-up of a key returns. It finds a session if and only if there is one in
the registry that was told last, of the key, since its last close, a status other than
an internal error. What it finds is such a session, with one reference more after it,
and nothing else has changed; when it finds none nothing has changed at all. A session has
been told nothing since its last close, which is one that was answered with true. -/
theorem lookup_exact {x : Run (World R) Mutex Condition Reply} (hx : Reachable x)
    (hk : KeyUpdates (story x.shared.journal)) (key : Bytes) :
    (∃ found w', (opencdmGetSession key).exec [] x.shared = .done found w' ∧
      (found.isSome ↔ ∃ (a : Addr) (o : Object), a ∈ x.shared.activeSessions ∧
        x.shared.heap[a]? = some o ∧
        ∃ s, lastReported key (inputs o.serial (story x.shared.journal)) = some s ∧
          convertKeyStatus s ≠ .internalError) ∧
      (∀ a, found = some a → ∃ n o, x.shared.activeSessions[a]? = some n ∧
        x.shared.heap[a]? = some o ∧
        (∃ s, lastReported key (inputs o.serial (story x.shared.journal)) = some s ∧
          convertKeyStatus s ≠ .internalError) ∧
        w' = x.shared.updateActiveSessions (·.insert a (n + 1))) ∧
      (found = none → w' = x.shared)) ∧
    ∀ (a : Addr) o, x.shared.heap[a]? = some o →
      ∃ ok w', (OpenCDMSessionPrivate.closeSession a).exec [] x.shared = .done ok w' ∧
        ∀ n, lastReported key (inputs n (story w'.journal)) =
          if ok = true ∧ o.serial = n then none else lastReported key (inputs n (story x.shared.journal)) := by
  have h := hx.consistent
  refine ⟨?_, fun a o ho => h.reported_of_close ho key⟩
  have hget : (ActiveSessions.get key).Ensures (fun _ => False) []
      (fun r w' => (r, w') = x.shared.get key) x.shared :=
    get_ensures h.sane.intact (fun a => (h.registered a).mp) (by simp) key
  obtain ⟨found, w', he, hw⟩ := hget.returns
  refine ⟨found, w', he, ?_⟩
  have hobject : ∀ a ∈ x.shared.activeSessions, ∃ o, x.shared.heap[a]? = some o := fun a ha =>
    World.object_of_mem ((h.registered a).mp ha)
  unfold World.get at hw
  split at hw
  · next a n hfind =>
    cases hw
    have hn : x.shared.activeSessions[a]? = some n :=
      Std.ExtTreeMap.mem_toList_iff_getElem?_eq_some.mp (List.mem_of_find?_eq_some hfind)
    have ha : a ∈ x.shared.activeSessions := World.mem_of_count hn
    obtain ⟨o, ho⟩ := hobject a ha
    have hs := (h.statusOf_ne_iff hk ho key).mp (by simpa [World.answers] using List.find?_some hfind)
    refine ⟨by simp only [Option.isSome_some, true_iff]; exact ⟨a, o, ha, ho, hs⟩, ?_, by simp⟩
    rintro _ ⟨⟩
    exact ⟨n, o, hn, ho, hs, rfl⟩
  · next hfind =>
    cases hw
    refine ⟨?_, by simp, fun _ => rfl⟩
    simp only [Option.isSome_none, Bool.false_eq_true, false_iff]
    rintro ⟨a, o, ha, ho, hs⟩
    obtain ⟨n, hn⟩ := World.count_of_mem ha
    have hmem := Std.ExtTreeMap.mem_toList_iff_getElem?_eq_some.mpr hn
    have := List.find?_eq_none.mp hfind (a, n) hmem
    exact this (by simpa [World.answers] using (h.statusOf_ne_iff hk ho key).mpr hs)

/-- Two sessions were told of the key, and the one that was not closed is found. -/
theorem lookup_exact_sample : ∃ w', (opencdmGetSession [1]).exec [] two.shared = .done (some 9) w' := by
  have hk : KeyUpdates (story two.shared.journal) := by
    have hstory : story two.shared.journal = [.delivered 0 (.keyStatusesChanged 1 [([1], .usable)]), .closed 1,
        .delivered 0 (.keyStatusesChanged 2 [([1], .usable)]),
        .delivered 0 (.keyStatusesChanged 1 [([1], .usable)]), .initialized 2 2,
        .constructed 2 (some 0) (some ⟨true, true, true⟩) 6, .initialized 1 1,
        .constructed 1 (some 0) (some ⟨true, true, true⟩) 5] := by decide
    intro n d c u hm
    rw [hstory] at hm
    simp only [List.mem_cons, List.not_mem_nil, Happening.constructed.injEq, reduceCtorEq, false_or,
      or_false] at hm
    rcases hm with ⟨-, -, rfl, -⟩ | ⟨-, -, rfl, -⟩ <;> rfl
  obtain ⟨⟨found, w', he, hfound, hsome, -⟩, -⟩ := lookup_exact two_reachable hk [1]
  obtain ⟨o, ho, hs⟩ : ∃ o, two.shared.heap[9]? = some o ∧
      lastReported [1] (inputs o.serial (story two.shared.journal)) = some .usable := ⟨_, rfl, rfl⟩
  obtain ⟨a, rfl⟩ := Option.isSome_iff_exists.mp
    (hfound.mpr ⟨9, o, by decide, ho, .usable, hs, by decide⟩)
  obtain ⟨n, o', hn, ho', ⟨s, hs', -⟩, -⟩ := hsome a rfl
  -- the other session has been told nothing since its close
  have hkeys : two.shared.activeSessions.keys = [7, 9] := by decide
  have ha : a = 7 ∨ a = 9 := by
    simpa [hkeys] using Std.ExtTreeMap.mem_keys.mpr (World.mem_of_count hn)
  rcases ha with rfl | rfl
  · obtain ⟨o₇, ho₇, hclosed⟩ : ∃ o, two.shared.heap[7]? = some o ∧
        lastReported [1] (inputs o.serial (story two.shared.journal)) = none := ⟨_, rfl, rfl⟩
    rw [ho₇, Option.some.injEq] at ho'
    rw [← ho', hclosed] at hs'
    cases hs'
  · exact ⟨w', he⟩

end RialtoOcdm
