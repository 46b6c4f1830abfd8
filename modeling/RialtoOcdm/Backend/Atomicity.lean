import RialtoOcdm.Backend.Interleaving
import RialtoOcdm.Concurrency.Linearizable

/-! Every call of a backend does its work in one critical section, `createKeySession` after
its wait. So the backend is linearizable. -/

namespace RialtoOcdm.CdmBackend

open Concurrency Prog Rialto

variable {R : Type} [MediaKeys R] {sys : SystemId} {initialState : ApplicationState}

theorem forward_monitor {call : MediaKeysCall} {store : ℕ → Answer call → World R → World R} :
    (forward sys call store : Code R (Answer call)).Monitor (.cdmBackend sys) :=
  .withLock (.update (by simp))

theorem operation_monitor (a : Addr) (call : MediaKeysCall) :
    (operation sys a call : Code R Bool).Monitor (.cdmBackend sys) := by
  cases call with
  | createKeySession sessionType isLDL => exact .awaitFor (.bind (.update (by simp)) fun _ => .ret)
  | _ => exact forward_monitor.answer _

theorem createMediaKeys_within {held : List Mutex} (hne : held ≠ []) :
    (createMediaKeys sys : Code R Bool).Within held := by
  refine .bind (.read hne) fun w => ?_
  split_ifs
  · exact .update hne
  · exact .act hne fun _ => .ret

theorem initializeBackend_monitor :
    (initializeBackend sys initialState : Code R Bool).Monitor (.cdmBackend sys) := by
  have hne : [Mutex.cdmBackend sys] ≠ [] := by simp
  refine .withLock (.bind (.update hne) fun appState => ?_)
  split_ifs
  · exact .ret
  · refine .bind (createMediaKeys_within hne) fun made => ?_
    split_ifs
    · exact .act hne fun _ => .ret
    · exact .ret
  · exact .act hne fun _ => .ret

theorem notifyApplicationState_monitor (state : ApplicationState) :
    (notifyApplicationState sys state : Code R Unit).Monitor (.cdmBackend sys) := by
  have hne : [Mutex.cdmBackend sys] ≠ [] := by simp
  refine .withLock (.bind (.update hne) fun appState => ?_)
  split_ifs
  · exact .ret
  · refine .bind (createMediaKeys_within hne) fun made => ?_
    split_ifs
    · exact .act hne fun _ => .signal hne
    · exact .ret
  · exact .act hne fun _ => .act hne fun _ => .ret

theorem entry_monitor (c : Call) :
    (entry sys initialState c : Code R Bool).Monitor (.cdmBackend sys) := by
  cases c with
  | operation a call => exact operation_monitor a call
  | initializeBackend => exact initializeBackend_monitor
  | notifyApplicationState state => exact (notifyApplicationState_monitor state).answer _

variable {ι : Type} [DecidableEq ι] [Fintype ι]

/-- Whatever threads initialize, notify and use a backend, and in whatever state it is at
first: along every run one order of the calls grows, each of which takes its place in it
between its call and its return, and which explains the answers and the state. -/
theorem backend_linearizable (sys : SystemId) (initialState : ApplicationState) (w : World R)
    {run : ℕ → Config (World R) Mutex Condition ι Call Bool}
    (hrun : IsRun (entry sys initialState) run) (hstart : run 0 = .idle w []) :
    ∃ order : ℕ → List (Call × Bool),
      (∀ n, Explains (entry sys initialState) (.cdmBackend sys) w (run n) (order n)) ∧
        ∀ n, order n <:+ order (n + 1) :=
  linearizable_of_monitor entry_monitor hrun hstart

/-- The race of a notification with the initialization is part of such a run. -/
theorem backend_linearizable_race : ∃ (run : ℕ → Config (World Compliant) Mutex Condition (Fin 2) Call Bool)
    (n : ℕ), follow (entry 0 .inactive) race raceStart = some (run n) ∧
      ∃ order : ℕ → List (Call × Bool),
        (∀ k, Explains (entry 0 .inactive) (.cdmBackend 0) raceStart.shared (run k) (order k)) ∧
          ∀ k, order k <:+ order (k + 1) := by
  let cfg := (follow (entry 0 .inactive) race raceStart).get race_possible
  have hcfg : follow (entry 0 .inactive) race raceStart = some cfg := (Option.some_get _).symm
  obtain ⟨run, hrun, hstart, n, hn⟩ := (reaches_of_follow hcfg).exists_run
  exact ⟨run, n, hn ▸ hcfg, backend_linearizable 0 .inactive raceStart.shared hrun hstart⟩

end RialtoOcdm.CdmBackend
