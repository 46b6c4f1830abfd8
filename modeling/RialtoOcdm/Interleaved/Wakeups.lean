import RialtoOcdm.Interleaved.Lifetimes
import RialtoOcdm.Interleaved.Signals

/-! Wake-ups. A signal wakes one of the threads that wait, and a backend may be running
from its initialization on without a signal; as long as neither leaves a thread behind,
nobody is blocked on what is there. -/

namespace RialtoOcdm

open Concurrency

variable {R ι : Type} [MediaKeys R] [DecidableEq ι] [Fintype ι]

/-- The condition on the runs: a signal for what is there finds at most one thread that
waits, and no backend is initialized as running while a thread waits for that. -/
def Spares (cfg : Config (World R) Mutex Condition ι Call Reply) (a : Action ι Call) : Prop :=
  signals.Spares Call.Excused cfg a

/-- What `c` stands for holds, its mutex is free, and thread `t` is still blocked on it. -/
def Overslept (cfg : Config (World R) Mutex Condition ι Call Reply) (c : Condition) (t : ι) : Prop :=
  cfg.owner ((signals (R := R)).mutex c) = none ∧ signals.ready c cfg.shared = true ∧
    cfg.waiting c t = true

/-- No wake-up is lost in a run that meets the condition. -/
theorem not_overslept {rialto : R} {keySystem : SystemId → String}
    {mediaKeysFactory : SystemId → Bool} {cfg : Config (World R) Mutex Condition ι Call Reply}
    (hr : ReachesUnder Spares entry (.idle (.start rialto keySystem mediaKeysFactory) []) cfg)
    (c : Condition) (t : ι) : ¬ Overslept cfg c t := by
  obtain ⟨hheeding, hawake⟩ := Config.awake_of_reachesUnder entry_heeds hr
  rintro ⟨hfree, hready, hw⟩
  rw [hawake.waiting_eq_false hheeding hfree hready t] at hw
  cases hw

/-- No thread initializes a backend. -/
def noneInitializes (cfg : Config (World R) Mutex Condition (Fin 2) Call Reply)
    (_ : Action (Fin 2) Call) : Bool :=
  decide (∀ t, (cfg.thread t).all fun th => match th.call with
    | .initializeBackend .. => false
    | _ => true)

omit [MediaKeys R] in
/-- Two threads that initialize no backend: one of them signals, so only the other waits. -/
theorem spares_of_noneInitializes {cfg : Config (World R) Mutex Condition (Fin 2) Call Reply}
    {a : Action (Fin 2) Call} (h : noneInitializes cfg a = true) : Spares cfg a := by
  rintro t th - ht
  refine ⟨fun c k hcode _ u v hu hv => ?_, fun c f k _ he _ => ?_⟩
  · have hne : ∀ w, cfg.waiting c w = true → w ≠ t := fun w hw hwt => by
      simp [hwt, Config.waiting, ht, Thread.waitsOn, hcode] at hw
    have := hne u hu
    have := hne v hv
    omega
  · have ht' := of_decide_eq_true h t
    rw [ht, Option.all_some] at ht'
    cases hc : th.call <;> simp only [hc] at ht' he <;> cases c <;> simp_all [Call.Excused]

/-- A session is constructed, and a thread waits for its challenge. -/
def awaiting : List (Action (Fin 2) Call) :=
  opening ++ made 1 (.getChallengeData (some 1) false true 0) 21

/-- The challenge comes, and the thread is signalled. -/
def challenged : List (Action (Fin 2) Call) :=
  awaiting ++ made 0 (.deliver 0 (.licenseRequest 7 [1] "") fun _ _ => []) 7 ++
    [.notify 0 1, .run 0]

theorem not_overslept_challenged : ∃ cfg, ReachesUnder Spares entry newProcess cfg ∧
    (cfg.shared.session 1).challengeData = [1] ∧ cfg.waiting (.challenge 1) 1 = false := by
  have hf : (followUnder noneInitializes entry challenged newProcess).map (fun cfg =>
      (cfg.owner (.session 1), (cfg.shared.session 1).challengeData)) = some (none, [1]) := by
    decide
  obtain ⟨cfg, hcfg, he⟩ := Option.map_eq_some_iff.mp hf
  simp only [Prod.mk.injEq] at he
  obtain ⟨hfree, hdata⟩ := he
  have hr := reachesUnder_of_followUnder (fun _ _ _ => spares_of_noneInitializes) hcfg
  have hnot := not_overslept hr (.challenge 1) 1
  refine ⟨cfg, hr, hdata, Bool.eq_false_iff.mpr fun hw => hnot ⟨hfree, ?_, hw⟩⟩
  simp [signals, hdata]

/-! ### Wake-ups that are lost -/

/-- Three threads with a PlayReady system, whose sessions are initialized late. -/
def playready : Config (World Compliant) Mutex Condition (Fin 3) Call Reply :=
  .idle (.start .mk (fun _ => "playready") fun _ => true) []

/-- A session is constructed at address 1. -/
def constructing : Call := .constructSession 1 (some 0) .temporary "cenc" [] none 0

/-- A thread waits for the running state, and the backend is initialized with it. -/
def initialized : List (Action (Fin 3) Call) :=
  .call 0 constructing :: List.replicate 6 (.run 0) ++
  .call 0 (.getChallengeData (some 1) false true 0) :: List.replicate 6 (.run 0) ++
  .call 1 (.initializeBackend 0 .running) :: List.replicate 7 (.run 1)

/-- Two threads wait for a challenge, and one is signalled. -/
def crowded : List (Action (Fin 3) Call) :=
  .call 0 (.initializeBackend 0 .running) :: List.replicate 7 (.run 0) ++
  .call 0 constructing :: List.replicate 6 (.run 0) ++
  .call 0 (.getChallengeData (some 1) false true 0) :: List.replicate 31 (.run 0) ++
  .call 1 (.getChallengeData (some 1) false true 0) :: List.replicate 21 (.run 1) ++
  .call 2 (.deliver 0 (.licenseRequest 7 [1] "") fun _ _ => []) :: List.replicate 7 (.run 2) ++
  [.notify 2 0, .run 2]

theorem overslept_of_follow (as : List (Action (Fin 3) Call)) (c : Condition) (t : Fin 3)
    (h : (follow entry as playready).map (fun cfg =>
      (cfg.owner ((signals (R := Compliant)).mutex c), signals.ready c cfg.shared,
        cfg.waiting c t)) = some (none, true, true)) :
    ∃ cfg, Reaches entry playready cfg ∧ Overslept cfg c t := by
  obtain ⟨cfg, hcfg, he⟩ := Option.map_eq_some_iff.mp h
  simp only [Prod.mk.injEq] at he
  exact ⟨cfg, reaches_of_follow hcfg, he⟩

/-- A wake-up is lost for the running state, and one for a challenge. -/
theorem wakeups_lost :
    (¬ ∀ (cfg : Config (World Compliant) Mutex Condition (Fin 3) Call Reply) (t : Fin 3),
      Reaches entry playready cfg → ¬ Overslept cfg (.running 0) t) ∧
    ¬ ∀ (cfg : Config (World Compliant) Mutex Condition (Fin 3) Call Reply) (t : Fin 3),
      Reaches entry playready cfg → ¬ Overslept cfg (.challenge 1) t := by
  constructor
  · intro h
    obtain ⟨cfg, hr, ho⟩ := overslept_of_follow initialized (.running 0) 0 (by decide)
    exact h cfg 0 hr ho
  · intro h
    obtain ⟨cfg, hr, ho⟩ := overslept_of_follow crowded (.challenge 1) 1 (by decide)
    exact h cfg 1 hr ho

end RialtoOcdm
