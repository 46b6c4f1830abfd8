import RialtoOcdm.Sequential.Clients

/-! Looking a key up for a system. There is one registry for all systems, and it is
walked in the order of the addresses: the session that is found is the first one that
knows the key, through whatever system it was constructed. -/

namespace RialtoOcdm

open Concurrency Rialto

variable {R : Type} [MediaKeys R]

omit [MediaKeys R] in
/-- There is a session at the address, and it reports a status for the key. -/
def Reports (w : World R) (key : Bytes) (a : Addr) : Prop :=
  a ∈ w.heap ∧ (w.session a).statusOf key ≠ .internalError

omit [MediaKeys R] in
theorem Consistent.reports_iff {w : World R} (h : Consistent w) {key : Bytes} {a : Addr} :
    Reports w key a ↔ ∃ n, (a, n) ∈ w.activeSessions.toList ∧ w.answers key (a, n) = true := by
  simp only [Reports, ← h.registered, Std.ExtTreeMap.mem_toList_iff_getElem?_eq_some, World.answers,
    decide_eq_true_eq, exists_and_right, Std.ExtTreeMap.mem_iff_isSome_getElem?, Option.isSome_iff_exists]

/-- In every state of a sequential run a look-up for a system returns. What it finds is
the session at the lowest address that reports a status for the key other than an
internal error, whatever the system; it finds nothing only if no session does. -/
theorem system_session_first {x : Run (World R) Mutex Condition Reply} (hx : Reachable x)
    (system : Option SystemId) (key : Bytes) : ∃ found w',
      (opencdmGetSystemSession system key).exec [] x.shared = .done found w' ∧
      (∀ a, found = some a → Reports x.shared key a ∧ ∀ b, Reports x.shared key b → a ≤ b) ∧
      (found = none → ∀ a, ¬ Reports x.shared key a) := by
  have h := hx.consistent
  have hget : (ActiveSessions.get key).Ensures (fun _ => False) []
      (fun r w' => (r, w') = x.shared.get key) x.shared :=
    get_ensures h.sane.intact (fun a => (h.registered a).mp) (by simp) key
  obtain ⟨found, w', he, hw⟩ := hget.returns
  refine ⟨found, w', he, ?_⟩
  simp only [h.reports_iff]
  unfold World.get at hw
  split at hw
  · next a n hfind =>
    cases hw
    refine ⟨?_, by simp⟩
    rintro _ ⟨⟩
    obtain ⟨hanswers, before, after, hlist, hbefore⟩ := List.find?_eq_some_iff_append.mp hfind
    refine ⟨⟨n, List.mem_of_find?_eq_some hfind, hanswers⟩, fun b ⟨m, hb, hm⟩ => ?_⟩
    -- the registry is in the order of the addresses
    have hordered := Std.ExtTreeMap.ordered_keys_toList (t := x.shared.activeSessions)
    rw [hlist] at hordered hb
    rcases List.mem_append.mp hb with hb | hb
    · exact absurd hm (by simpa using hbefore _ hb)
    · rcases List.mem_cons.mp hb with hb | hb
      · exact (congrArg Prod.fst hb).ge
      · have hlt := (List.pairwise_cons.mp (List.pairwise_append.mp hordered).2.1).1 _ hb
        exact (Nat.compare_eq_lt.mp hlt).le
  · next hfind =>
    cases hw
    refine ⟨by simp, fun _ a ⟨n, hmem, hanswers⟩ => ?_⟩
    exact absurd hanswers (by simpa using List.find?_eq_none.mp hfind (a, n) hmem)

/-- Two systems with a session each. A status was delivered to the one of the first. -/
theorem neighbours_run : (Run.callAll entry [.initializeBackend 0 .running, .initializeBackend 1 .running,
    .constructSession 7 (some 0) .temporary "cenc" [] (some ⟨true, true, true⟩) 5,
    .constructSession 9 (some 1) .temporary "cenc" [] (some ⟨true, true, true⟩) 5,
    .deliver 0 (.keyStatusesChanged 7 [([1], .usable)]) fun _ _ => []]
    (World.start Compliant.mk (fun _ => "widevine") fun _ => true)).isSome = true := by decide

def neighbours : Run (World Compliant) Mutex Condition Reply := ⟨(Run.callAll entry _ _).get neighbours_run, []⟩

theorem neighbours_reachable : Reachable neighbours :=
  ⟨_, _, _, Run.reaches_of_callAll (Option.some_get neighbours_run).symm⟩

/-- The session of the first system is found for the second one. -/
theorem system_session_first_sample : ∃ w', (opencdmGetSystemSession (some 1) [1]).exec [] neighbours.shared =
    .done (some 7) w' ∧ Reports neighbours.shared [1] 7 := by
  obtain ⟨found, w', he, hsome, -⟩ := system_session_first neighbours_reachable (some 1) [1]
  obtain ⟨w'', he'⟩ : ∃ w'', (opencdmGetSystemSession (some 1) [1]).exec [] neighbours.shared =
      .done (some 7) w'' := ⟨_, rfl⟩
  obtain ⟨rfl, rfl⟩ : found = some 7 ∧ w' = w'' := by simpa using he.symm.trans he'
  exact ⟨w', he, (hsome 7 rfl).1⟩

/-- A look-up for a system finds a session that was constructed through another one. -/
theorem system_session_of_other_system :
    ¬ ∀ (x : Run (World Compliant) Mutex Condition Reply) (sys : SystemId) (key : Bytes) (a : Addr)
        (w' : World Compliant), Reachable x →
      (opencdmGetSystemSession (some sys) key).exec [] x.shared = .done (some a) w' →
      (x.shared.session a).cdmBackend = some sys := by
  intro h
  obtain ⟨w', he⟩ : ∃ w', (opencdmGetSystemSession (some 1) [1]).exec [] neighbours.shared =
      .done (some 7) w' := ⟨_, rfl⟩
  have hsys : (neighbours.shared.session 7).cdmBackend = some 0 := by decide
  exact absurd ((h _ 1 [1] 7 w' neighbours_reachable he).symm.trans hsys) (by decide)

end RialtoOcdm
