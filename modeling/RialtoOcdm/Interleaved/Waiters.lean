import RialtoOcdm.Concurrency.Waiters
import RialtoOcdm.Interleaved.Lifetimes
import RialtoOcdm.Interleaved.Signals

/-! Threads that wait for a challenge, and another one that closes the session. The
closing clears the challenge and leaves the dispatcher without a signal, so whoever
waits then waits for ever. -/

namespace RialtoOcdm

open Concurrency OpenCDMSessionPrivate

variable {R ι : Type}

/-- The session that was constructed last at `a` has been closed. -/
def closedIn (a : Addr) : List (Call × Reply) → Bool
  | [] => false
  | (.constructSession .., .constructed _ (some b)) :: history => b ≠ a && closedIn a history
  | (.create .., .session (some b)) :: history => b ≠ a && closedIn a history
  | (.operation session .close, .error .none) :: history => session = some a || closedIn a history
  | (.operation session .cleanDecryptContext, .error .none) :: history =>
    session = some a || closedIn a history
  | _ :: history => closedIn a history

theorem closedIn_cons {a : Addr} {c : Call} {r : Reply} {history : List (Call × Reply)}
    (h : closedIn a ((c, r) :: history) = true) :
    closedIn a history = true ∨ c.Closes a ∧ r = .error .none := by
  unfold closedIn at h
  split at h
  · next heq => cases heq
  · next heq =>
    cases heq
    exact .inl (Bool.and_eq_true_iff.mp h).2
  · next heq =>
    cases heq
    exact .inl (Bool.and_eq_true_iff.mp h).2
  · next heq =>
    cases heq
    exact (Bool.or_eq_true_iff.mp h).symm.imp_right fun hs =>
      ⟨show _ = some a from of_decide_eq_true hs, rfl⟩
  · next heq =>
    cases heq
    exact (Bool.or_eq_true_iff.mp h).symm.imp_right fun hs =>
      ⟨show _ = some a from of_decide_eq_true hs, rfl⟩
  · next heq =>
    cases heq
    exact .inl h

/-- The closing of the session at `a`. It clears the challenge when it notes that. -/
def closing (a : Addr) : Closing (World R) Call Reply where
  closes c := c.Closes a
  done r := r = .error .none
  clears w w' := ∃ new, w'.journal = new ++ w.journal ∧ .challengeCleared (w.serial a) ∈ new
  closed history := closedIn a history = true
  closed_nil := Bool.false_ne_true
  closed_cons := closedIn_cons

variable [MediaKeys R]

omit [MediaKeys R] in
/-- Whatever an operation on a key session does, it starts with what may fail. -/
theorem onKeySession_passes (a : Addr) {p : SystemId → Int32 → Code R Bool}
    {J : World R → World R → Prop} (hp : ∀ cdm id, (p cdm id).Passes J (· = true)) :
    (onKeySession a p).Passes J (· = true) := by
  apply Prog.passes_bind
  intro cdm
  cases cdm with
  | none => exact Bool.false_ne_true
  | some cdm =>
    apply Prog.passes_bind
    intro ok
    cases ok with
    | false => exact Bool.false_ne_true
    | true =>
      apply Prog.passes_bind
      intro id
      split_ifs
      · exact Prog.passes_bind _ fun id => hp cdm id
      · exact Bool.false_ne_true

/-- A session that says it is closed has cleared its challenge. -/
theorem closeSession_clears (a : Addr) :
    (closeSession a : Code R Bool).Passes (closing (R := R) a).clears (· = true) := by
  refine onKeySession_passes a fun cdm id => Prog.passes_bind _ fun ok => ?_
  cases ok with
  | false => exact Bool.false_ne_true
  | true =>
    refine Prog.passes_bind _ fun _ => Prog.passes_bind _ fun _ => Prog.passes_modify fun w => ?_
    refine ⟨_ :: (if w.has a .challengeData then [] else [.misused a .challengeData]), ?_,
      List.mem_cons_self⟩
    rw [World.record_journal, World.updateSession_journal, World.use_journal]
    split_ifs <;> rfl

theorem entry_passes {a : Addr} {c : Call} (hc : c.Closes a) :
    (entry c : Code R Reply).Passes (closing (R := R) a).clears (closing (R := R) a).done := by
  have herror : ∀ ok, ¬ ok = true → errorOf ok ≠ .none := by decide
  have hcode : ∀ null, (onSession (some a) null closeSession : Code R OpenCDMError).Passes
      (closing (R := R) a).clears (· = .none) := fun null =>
    (closeSession_clears a).bind fun ok hok => herror ok hok
  cases c with
  | operation session op =>
    cases op with
    | close =>
      obtain rfl : session = some a := hc
      exact (hcode .invalidSession).bind fun e he => fun h => he (Reply.error.inj h)
    | cleanDecryptContext =>
      obtain rfl : session = some a := hc
      exact (hcode .fail).bind fun e he => fun h => he (Reply.error.inj h)
    | _ => exact hc.elim
  | _ => exact hc.elim

/-- Only a call for the challenge waits for it. -/
theorem eq_getChallengeData_of_mayWait {a : Addr} {c : Call}
    (h : (entry c : Code R Reply).MayWait (.challenge a)) :
    ∃ challenge challengeSize isLDL, c = .getChallengeData (some a) challenge challengeSize isLDL := by
  have hw := (entry_attentive c).waits_of_mayWait h
  cases c with
  | getChallengeData session challenge challengeSize isLDL =>
    obtain rfl : session = some a := hw
    exact ⟨challenge, challengeSize, isLDL, rfl⟩
  | _ => exact hw.elim

theorem entry_not_mayWait {a : Addr} {c : Call} (hc : c.Closes a) :
    ¬ (entry c : Code R Reply).MayWait (.challenge a) := by
  intro h
  obtain ⟨_, _, _, rfl⟩ := eq_getChallengeData_of_mayWait h
  exact hc

/-- Without a backend the call fails at once. -/
theorem entry_getChallengeData (a : Addr) (challenge : Bool) (isLDL : UInt32) :
    ∃ k, (entry (.getChallengeData (some a) challenge true isLDL) : Code R Reply) =
      .act (·.use a .cdmBackend) k ∧
      ∀ w, (w.session a).cdmBackend = none → k w = .ret (.challenge .failed) := by
  refine ⟨_, rfl, fun w hw => ?_⟩
  dsimp only
  rw [hw]
  rfl

/-- So no call is bound to wait from the start. -/
theorem entry_not_willWait [Nonempty (World R)] (a : Addr) (c : Call) :
    ¬ (entry c : Code R Reply).WillWait (.challenge a) := by
  intro h
  obtain ⟨challenge, challengeSize, isLDL, rfl⟩ := eq_getChallengeData_of_mayWait h.mayWait
  cases challengeSize with
  | false => exact h
  | true =>
    obtain ⟨w⟩ := ‹Nonempty (World R)›
    obtain ⟨k, hk, hfails⟩ := entry_getChallengeData (R := R) a challenge isLDL
    rw [hk] at h
    have hw := h (w.free a)
    rw [hfails _ (by simp [World.session, Session.null])] at hw
    exact hw

/-! ### Threads that are left behind -/

variable [DecidableEq ι] [Fintype ι]

/-- The session at `a` is closed, its dispatcher does not know it, and thread `t` is
still blocked. -/
def Stranded (cfg : Config (World R) Mutex Condition ι Call Reply) (a : Addr) (t : ι) : Prop :=
  closedIn a cfg.history = true ∧
    (∀ sys ∈ (cfg.shared.session a).messageDispatcher, a ∉ cfg.shared.clients sys) ∧
    cfg.waiting (.challenge a) t = true

/-- The condition on the runs: where a session that is closed forgets its challenge, no
thread is bound to wait for it, and from then on none comes to be. -/
def LeavesNobody (cfg : Config (World R) Mutex Condition ι Call Reply) (act : Action ι Call) :
    Prop :=
  ∀ a, (closing a).Spares (.challenge a) cfg act

/-- No thread is left behind in a run that meets the condition. -/
theorem not_stranded {rialto : R} {keySystem : SystemId → String}
    {mediaKeysFactory : SystemId → Bool} {cfg : Config (World R) Mutex Condition ι Call Reply}
    (hr : ReachesUnder LeavesNobody entry (.idle (.start rialto keySystem mediaKeysFactory) []) cfg)
    (a : Addr) (t : ι) : ¬ Stranded cfg a t := by
  have : Nonempty (World R) := ⟨cfg.shared⟩
  have hreleased := Closing.released_of_reachesUnder (fun _ _ hs => hs a) (entry_not_willWait a)
    (fun _ => entry_passes) (fun _ => entry_not_mayWait) hr
  rintro ⟨hclosed, -, hw⟩
  rw [hreleased.waiting_eq_false hclosed t] at hw
  cases hw

/-! ### Runs in which nobody asks where a session is closed -/

def Call.ClosesSome : Call → Bool
  | .operation _ .close | .operation _ .cleanDecryptContext => true
  | _ => false

def Call.AsksForChallenge : Call → Bool
  | .getChallengeData .. => true
  | _ => false

/-- No thread asks for a challenge, or none closes or has closed a session. -/
def apart (cfg : Config (World R) Mutex Condition ι Call Reply) (_ : Action ι Call) : Bool :=
  decide (∀ t, (cfg.thread t).all (!·.call.AsksForChallenge)) ||
    decide (∀ t, (cfg.thread t).all (!·.call.ClosesSome)) && cfg.history.all (!·.1.ClosesSome)

theorem Call.Closes.closesSome {c : Call} {a : Addr} (h : c.Closes a) : c.ClosesSome = true := by
  cases c with
  | operation session op =>
    cases op with
    | close => rfl
    | cleanDecryptContext => rfl
    | _ => exact h.elim
  | _ => exact h.elim

theorem closesSome_of_closedIn {a : Addr} {history : List (Call × Reply)}
    (h : closedIn a history = true) : ∃ x ∈ history, x.1.ClosesSome = true := by
  induction history with
  | nil => cases h
  | cons x history ih =>
    rcases closedIn_cons h with h | ⟨hc, -⟩
    · obtain ⟨y, hy, hc⟩ := ih h
      exact ⟨y, List.mem_cons_of_mem x hy, hc⟩
    · exact ⟨x, List.mem_cons_self, hc.closesSome⟩

theorem leavesNobody_of_apart {w : World R} {cfg : Config (World R) Mutex Condition ι Call Reply}
    {act : Action ι Call} (hr : Reaches entry (.idle w []) cfg) (h : apart cfg act = true) :
    LeavesNobody cfg act := by
  have : Nonempty (World R) := ⟨w⟩
  have hheeding := (Heeding.idle w []).reaches entry_heeds hr
  have hasks : ∀ a u tu, cfg.thread u = some tu → tu.code.MayWait (.challenge a) →
      tu.call.AsksForChallenge = true := by
    intro a u tu hu hw
    have hwaits := hheeding.waits_of_mayWait hu hw
    cases hc : tu.call <;> rw [hc] at hwaits <;> first | rfl | exact hwaits.elim
  rintro a t th f k - ht hcode
  simp only [apart, Bool.or_eq_true, Bool.and_eq_true, decide_eq_true_eq] at h
  rcases h with h | ⟨h, hhistory⟩
  · -- no thread asks
    have hnone : ∀ u tu, cfg.thread u = some tu → ¬ tu.code.MayWait (.challenge a) := by
      intro u tu hu hw
      have hall := h u
      simp [hu, hasks a u tu hu hw] at hall
    refine ⟨fun _ _ u tu hu hw => hnone u tu hu hw.mayWait, fun _ hw => ?_⟩
    exact absurd (by rw [hcode]; exact ⟨cfg.shared, hw.mayWait⟩) (hnone t th ht)
  · -- none closes
    have hnone : ∀ u tu, cfg.thread u = some tu → ¬ tu.call.Closes a := by
      intro u tu hu hc
      have hall := h u
      simp [hu, hc.closesSome] at hall
    refine ⟨fun hc => absurd hc (hnone t th ht), fun hshut => ?_⟩
    rcases hshut with hclosed | ⟨u, tu, hu, hc, -⟩
    · obtain ⟨x, hx, hc⟩ := closesSome_of_closedIn hclosed
      have hall := List.all_eq_true.mp hhistory x hx
      simp [hc] at hall
    · exact absurd hc (hnone u tu hu)

/-- A thread waits for the challenge of a session. -/
def waitingOne : List (Action (Fin 2) Call) :=
  opening ++ made 1 (.getChallengeData (some 1) false true 0) 21

/-- It gets the challenge, and then the session is closed. -/
def released : List (Action (Fin 2) Call) :=
  waitingOne ++ made 0 (.deliver 0 (.licenseRequest 7 [1] "") fun _ _ => []) 7 ++
    .notify 0 1 :: List.replicate 6 (.run 0) ++ List.replicate 5 (.run 1) ++
    made 0 (.operation (some 1) .close) 14

theorem not_stranded_released : ∃ cfg, ReachesUnder LeavesNobody entry newProcess cfg ∧
    closedIn 1 cfg.history = true ∧ ¬ Stranded cfg 1 1 := by
  have hf : (followUnder apart entry released newProcess).map (closedIn 1 ·.history) = some true := by
    decide
  obtain ⟨cfg, hcfg, hclosed⟩ := Option.map_eq_some_iff.mp hf
  have hr := reachesUnder_of_followUnder (fun _ _ => leavesNobody_of_apart) hcfg
  exact ⟨cfg, hr, hclosed, not_stranded hr 1 1⟩

/-- A thread that waits is left behind when the session is closed. -/
theorem stranded :
    ¬ ∀ (cfg : Config (World Compliant) Mutex Condition (Fin 2) Call Reply) (a : Addr) (t : Fin 2),
      Reaches entry newProcess cfg → ¬ Stranded cfg a t := by
  intro h
  have hf : (follow entry (waitingOne ++ made 0 (.operation (some 1) .close) 14) newProcess).map
      (fun cfg => (closedIn 1 cfg.history, (cfg.shared.session 1).messageDispatcher,
        decide (1 ∈ cfg.shared.clients 0), cfg.waiting (.challenge 1) 1)) =
      some (true, some 0, false, true) := by decide
  obtain ⟨cfg, hcfg, he⟩ := Option.map_eq_some_iff.mp hf
  simp only [Prod.mk.injEq] at he
  obtain ⟨hclosed, hdispatcher, hclient, hw⟩ := he
  refine h cfg 1 1 (reaches_of_follow hcfg) ⟨hclosed, fun sys hsys => ?_, hw⟩
  obtain rfl : 0 = sys := Option.some.inj (hdispatcher.symm.trans hsys)
  exact of_decide_eq_false hclient

end RialtoOcdm
