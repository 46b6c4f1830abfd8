import RialtoOcdm.Interleaved.Lifetimes
import RialtoOcdm.Concurrency.Trace
import Mathlib.Algebra.Group.Nat.Defs

/-! The size of a challenge and the challenge itself are read by two calls. What the
second one writes is the challenge of that time, whatever the first one said. -/

namespace RialtoOcdm

open Concurrency OpenCDMSessionPrivate

variable {R ι : Type} [MediaKeys R]

/-- What is answered when the session has this challenge. -/
def replyWith (challenge : Bool) (challengeData : Bytes) : ChallengeReply :=
  ⟨.none, some (.ofNat challengeData.length), if challenge then challengeData else []⟩

/-- `m_challengeData` is read. -/
abbrev readsChallenge (a : Addr) : World R → World R := (·.use a .challengeData)

omit [MediaKeys R] in
theorem waitForChallenge_consults (a : Addr) : (waitForChallenge a : Code R Bytes).Consults
    (readsChallenge a) (fun w challenge => challenge = (w.session a).challengeData) fun _ => True :=
  .inr fun _ => .inr fun _ => .inl ⟨rfl, fun _ => rfl⟩

theorem getChallengeData_consults (a : Addr) : (getChallengeData a : Code R (Option Bytes)).Consults
    (readsChallenge a) (fun w read => read = some (w.session a).challengeData) fun read => read ≠ none := by
  apply Prog.consults_bind
  intro requested
  cases requested with
  | false => exact not_not_intro rfl
  | true =>
    refine (waitForChallenge_consults a).bind (fun _ h => absurd trivial h) ?_
    rintro w _ rfl
    rfl

/-- A call that answers with a challenge has read it. -/
theorem entry_consults (a : Addr) (challenge : Bool) (isLDL : UInt32) :
    (entry (.getChallengeData (some a) challenge true isLDL) : Code R Reply).Consults (readsChallenge a)
      (fun w reply => reply = .challenge (replyWith challenge (w.session a).challengeData))
      fun reply => ∃ r, reply = .challenge r ∧ r.error = .none := by
  have hcall : (opencdmSessionGetChallengeData (some a) challenge true isLDL : Code R ChallengeReply).Consults
      (readsChallenge a) (fun w r => r = replyWith challenge (w.session a).challengeData)
      fun r => r.error = .none := by
    apply Prog.consults_bind
    intro initialized
    cases initialized with
    | false => exact fun h => by cases h
    | true =>
      refine (getChallengeData_consults a).bind (fun read hread => ?_) ?_
      · rw [not_not.mp hread]
        exact fun h => by cases h
      · rintro w _ rfl
        rfl
  refine hcall.bind (fun r hr => ?_) ?_
  · rintro ⟨r', he, hr'⟩
    cases he
    exact hr hr'
  · rintro w _ rfl
    rfl

variable [DecidableEq ι] [Fintype ι]

/-- Thread `t` asks for the challenge of session `n` at `a` right after moment `i`, and is
about to return `r` at moment `j`. -/
structure Asks (run : ℕ → Config (World R) Mutex Condition ι Call Reply) (t : ι) (a : Addr) (n : ℕ)
    (challenge : Bool) (r : ChallengeReply) (i j : ℕ) : Prop where
  call : ∃ isLDL, InCall run t (.getChallengeData (some a) challenge true isLDL) i j
  answers : ∃ th, (run j).thread t = some th ∧ th.code = .ret (.challenge r)
  first : (run i).shared.serial a = n
  last : (run j).shared.serial a = n

/-- The call reads the challenge at moment `k`. -/
def ReadsAt (run : ℕ → Config (World R) Mutex Condition ι Call Reply) (t : ι) (a : Addr) (i j k : ℕ) : Prop :=
  i < k ∧ k < j ∧ Takes entry run t (readsChallenge a) k

/-- What was delivered to the session last, at moment `k`. -/
abbrev delivered (run : ℕ → Config (World R) Mutex Condition ι Call Reply) (n k : ℕ) : Bytes :=
  challengeAfter n (run k).shared.journal

variable {rialto : R} {keySystem : SystemId → String} {mediaKeysFactory : SystemId → Bool}
  {run : ℕ → Config (World R) Mutex Condition ι Call Reply} {t t₁ t₂ : ι} {a : Addr} {n : ℕ}
  {challenge : Bool} {r r₁ r₂ : ChallengeReply} {i j i₁ j₁ i₂ j₂ : ℕ}

/-- What a call for challenge data answers is what had been delivered when it read it. -/
theorem Asks.exists_readsAt (hrun : IsRun entry run)
    (hstart : run 0 = .idle (.start rialto keySystem mediaKeysFactory) []) (hn : n ≠ 0)
    (h : Asks run t a n challenge r i j) (he : r.error = .none) :
    ∃ k, ReadsAt run t a i j k ∧ r = replyWith challenge (delivered run n k) := by
  obtain ⟨isLDL, hin⟩ := h.call
  obtain ⟨th, hth, hcode⟩ := h.answers
  obtain ⟨k, hi, hj, htakes, hr⟩ :=
    hin.exists_takes hrun (entry_consults a challenge isLDL) hth hcode ⟨r, rfl, he⟩
  cases hr
  have hg : ∀ k, Good anything (fun _ _ _ => True) (run k) := fun k =>
    good_of_reaches (hstart ▸ hrun.reaches k)
  have hlives : Lives (run k).shared := (hg k).inv
  have hs : (run k).shared.serial a = n :=
    serial_between (hg i) (hrun.reaches_of_le hi.le) (hrun.reaches_of_le hj.le) hn h.first h.last
  refine ⟨k, ⟨hi, hj, htakes⟩, ?_⟩
  rw [hlives.challengeData (hs ▸ hn), hs]

/-- The second call writes no more than the first one said if and only if what was delivered
last before it read the challenge is not longer than what was delivered last before the first
one did, up to what fits in 32 bits. -/
theorem written_le_size_iff (hrun : IsRun entry run)
    (hstart : run 0 = .idle (.start rialto keySystem mediaKeysFactory) []) (hn : n ≠ 0)
    (h₁ : Asks run t₁ a n false r₁ i₁ j₁) (h₂ : Asks run t₂ a n true r₂ i₂ j₂)
    (he₁ : r₁.error = .none) (he₂ : r₂.error = .none) :
    ∃ k₁ k₂, ReadsAt run t₁ a i₁ j₁ k₁ ∧ ReadsAt run t₂ a i₂ j₂ k₂ ∧
      ((∃ size, r₁.challengeSize = some size ∧ r₂.written.length ≤ size.toNat) ↔
        (delivered run n k₂).length ≤ (delivered run n k₁).length % 2 ^ 32) := by
  obtain ⟨k₁, hk₁, rfl⟩ := h₁.exists_readsAt hrun hstart hn he₁
  obtain ⟨k₂, hk₂, rfl⟩ := h₂.exists_readsAt hrun hstart hn he₂
  exact ⟨k₁, k₂, hk₁, hk₂, by simp [replyWith]⟩

/-- A client asks for the size of a challenge and, when another message came, for the
challenge. -/
def askTwice (message : Bytes) : List (Action (Fin 2) Call) :=
  opening ++
  made 0 (.deliver 0 (.licenseRequest 7 [1] "") fun _ _ => []) 14 ++
  made 0 (.getChallengeData (some 1) false true 0) 24 ++
  made 0 (.deliver 0 (.licenseRenewal 7 message) fun _ _ => []) 14 ++
  made 0 (.getChallengeData (some 1) true true 0) 24

theorem length_askTwice (message : Bytes) : (askTwice message).length = 120 := rfl

/-- Whether the first thread is in a call, what it is about to return, and the session at 1. -/
def momentOf (cfg : Config (World Compliant) Mutex Condition (Fin 2) Call Reply) : Bool × Option Reply × ℕ :=
  ((cfg.thread 0).isSome, (cfg.thread 0).bind fun th => match th.code with
    | .ret r => some r
    | _ => none, cfg.shared.serial 1)

theorem exists_ret_of_momentOf {cfg : Config (World Compliant) Mutex Condition (Fin 2) Call Reply}
    {b : Bool} {r : Reply} {s : ℕ} (h : momentOf cfg = (b, some r, s)) :
    ∃ th, cfg.thread 0 = some th ∧ th.code = .ret r := by
  obtain ⟨th, hth, hr⟩ := Option.bind_eq_some_iff.mp (Prod.mk.inj (Prod.mk.inj h).2).1
  refine ⟨th, hth, ?_⟩
  split at hr
  · next hcode => rw [hcode, Option.some.inj hr]
  · cases hr

/-- The run in which the client does so. -/
theorem exists_asks (message : Bytes)
    (hf : [55, 79, 95, 119, 120].map (fun n => (follow entry ((askTwice message).take n) newProcess).map
      momentOf) = [some (false, none, 1), some (true, some (.challenge ⟨.none, some 1, []⟩), 1),
        some (false, none, 1), some (true, some (.challenge ⟨.none, some (.ofNat message.length), message⟩), 1),
        some (false, none, 1)]) :
    ∃ run, IsRun entry run ∧ run 0 = newProcess ∧ Asks run 0 1 1 false ⟨.none, some 1, []⟩ 55 79 ∧
      Asks run 0 1 1 true ⟨.none, some (.ofNat message.length), message⟩ 95 119 := by
  simp only [List.map_cons, List.map_nil, List.cons.injEq, Option.map_eq_some_iff] at hf
  obtain ⟨⟨_, h₅₅, hm₅₅⟩, ⟨_, h₇₉, hm₇₉⟩, ⟨_, h₉₅, hm₉₅⟩, ⟨_, h₁₁₉, hm₁₁₉⟩, ⟨_, h₁₂₀, -⟩, -⟩ := hf
  have hf : follow entry (askTwice message) newProcess = some _ := h₁₂₀
  obtain ⟨run, hrun, hfollows, htake⟩ := exists_run_of_follow hf
  cases h₅₅.symm.trans (htake 55)
  cases h₇₉.symm.trans (htake 79)
  cases h₉₅.symm.trans (htake 95)
  cases h₁₁₉.symm.trans (htake 119)
  have hthere : ∀ {n b r s}, momentOf (run n) = (b, r, s) → (run n).shared.serial 1 = s := fun h =>
    (Prod.mk.inj (Prod.mk.inj h).2).2
  have hin : ∀ {n b r s}, momentOf (run n) = (b, r, s) → ((run n).thread 0).isSome = b := fun h =>
    (Prod.mk.inj h).1
  refine ⟨run, hrun, Option.some.inj (htake 0).symm, ⟨⟨0, ?_⟩, exists_ret_of_momentOf hm₇₉, hthere hm₅₅,
    hthere hm₇₉⟩, ⟨0, ?_⟩, exists_ret_of_momentOf hm₁₁₉, hthere hm₉₅, hthere hm₁₁₉⟩
  · exact hfollows.inCall rfl (by decide) (by simp [length_askTwice]) (by rfl) (hin hm₇₉)
  · exact hfollows.inCall rfl (by decide) (by simp [length_askTwice]) (by rfl) (hin hm₁₁₉)

/-- A message of the same length comes between the calls. -/
theorem written_le_size_iff_renewed : ∃ run : ℕ → Config (World Compliant) Mutex Condition (Fin 2) Call Reply,
    ∃ k₁ k₂, IsRun entry run ∧ run 0 = newProcess ∧ ReadsAt run 0 1 55 79 k₁ ∧ ReadsAt run 0 1 95 119 k₂ ∧
      (delivered run 1 k₂).length ≤ (delivered run 1 k₁).length % 2 ^ 32 := by
  obtain ⟨run, hrun, hstart, h₁, h₂⟩ := exists_asks [2] (by decide)
  obtain ⟨k₁, k₂, hk₁, hk₂, hiff⟩ := written_le_size_iff hrun hstart one_ne_zero h₁ h₂ rfl rfl
  exact ⟨run, k₁, k₂, hrun, hstart, hk₁, hk₂, hiff.mp ⟨1, rfl, by decide⟩⟩

/-- A longer message comes between the calls, and all of it is written. -/
theorem written_exceeds_size :
    ¬ ∀ (run : ℕ → Config (World Compliant) Mutex Condition (Fin 2) Call Reply) (t₁ t₂ : Fin 2) (a : Addr)
        (n : ℕ) (r₁ r₂ : ChallengeReply) (i₁ j₁ i₂ j₂ : ℕ), IsRun entry run → run 0 = newProcess → n ≠ 0 →
      Asks run t₁ a n false r₁ i₁ j₁ → j₁ ≤ i₂ → Asks run t₂ a n true r₂ i₂ j₂ →
      r₁.error = .none → r₂.error = .none →
      ∃ size, r₁.challengeSize = some size ∧ r₂.written.length ≤ size.toNat := by
  intro h
  obtain ⟨run, hrun, hstart, h₁, h₂⟩ := exists_asks [2, 3] (by decide)
  obtain ⟨size, hs, hle⟩ := h run _ _ _ _ _ _ _ _ _ _ hrun hstart one_ne_zero h₁ (by decide) h₂ rfl rfl
  cases hs
  exact absurd hle (by decide)

end RialtoOcdm
