import RialtoOcdm.Concurrency.LockOrder
import RialtoOcdm.Interleaved.Lifetimes

/-! Threads of the library that block each other. A look-up in a callback takes the
mutex of the registry while its dispatcher is locked, and the destruction of a session
that is a client takes the mutex of the dispatcher while the registry is locked. As
long as no such session is destroyed, all mutexes are taken in one order. -/

namespace RialtoOcdm

open Concurrency

variable {R ι : Type} [MediaKeys R] [DecidableEq ι] [Fintype ι]

/-- No threads block each other in a run in which every destructor of a session finds
that the handle of the dispatcher is null. -/
theorem not_deadlock {rialto : R} {keySystem : SystemId → String} {mediaKeysFactory : SystemId → Bool}
    {cfg : Config (World R) Mutex Condition ι Call Reply}
    (hr : Reaches entry (.idle (.start rialto keySystem mediaKeysFactory) []) cfg)
    (h : ∀ n, .unregistering n ∉ cfg.shared.journal) : ¬ Deadlock cfg := by
  have hg := good_of_reaches hr
  apply hg.not_deadlock_of_request Mutex.rank
  intro c held m hreq
  exact hreq.resolve_right fun ⟨n, hn⟩ => h n hn

/-- A message is delivered, and the look-up in its callback is about to start. -/
def lookingUp : List (Action (Fin 2) Call) :=
  opening ++ made 0 (.deliver 0 (.licenseRequest 7 [1] "") fun _ _ => [[1]]) 12

/-- Then the session that is called back is destroyed. -/
def blocked : List (Action (Fin 2) Call) := lookingUp ++ made 1 (.destructSession (some 1)) 15

theorem not_deadlock_lookingUp :
    ∃ cfg, follow entry lookingUp newProcess = some cfg ∧ ¬ Deadlock cfg := by
  have hf : (follow entry lookingUp newProcess).map (fun cfg =>
      cfg.shared.journal.all fun | .unregistering _ => false | _ => true) = some true := by decide
  obtain ⟨cfg, hcfg, hj⟩ := Option.map_eq_some_iff.mp hf
  refine ⟨cfg, hcfg, not_deadlock (reaches_of_follow hcfg) fun n hn => ?_⟩
  exact absurd (List.all_eq_true.mp hj _ hn) (by simp)

/-- Two threads block each other when a session is destroyed as a client. -/
theorem deadlock_blocked :
    ¬ ∀ cfg : Config (World Compliant) Mutex Condition (Fin 2) Call Reply,
      Reaches entry newProcess cfg → ¬ Deadlock cfg := by
  intro h
  have hf : (follow entry blocked newProcess).map (fun cfg =>
      ((cfg.thread 0).bind Thread.wanted, cfg.owner .activeSessions,
        (cfg.thread 1).bind Thread.wanted, cfg.owner (.dispatcher 0))) =
      some (some .activeSessions, some 1, some (.dispatcher 0), some 0) := by decide
  obtain ⟨cfg, hcfg, he⟩ := Option.map_eq_some_iff.mp hf
  simp only [Prod.mk.injEq] at he
  obtain ⟨h₀, ho₁, h₁, ho₀⟩ := he
  exact h cfg (reaches_of_follow hcfg)
    ⟨0, .tail (.single (waitsFor_of_wanted h₀ ho₁)) (waitsFor_of_wanted h₁ ho₀)⟩

end RialtoOcdm
