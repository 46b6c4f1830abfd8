import RialtoOcdm.Concurrency.Prog
import Mathlib.Data.Fintype.Basic
import Mathlib.Logic.Relation

/-! Threads that share a state, mutexes and condition variables. Any thread may
call any entry at any time; one action of the scheduler is one atomic step of one
thread. `perform` is executable, so that a schedule can be evaluated, and the
reachable configurations are those of all schedules. -/

namespace Concurrency

variable {σ μ χ ι κ ρ : Type}

/-- A thread inside a call: the rest of its code, the mutexes it holds (the last
one locked first), and whether it is blocked at the `wait` its code starts with. -/
structure Thread (σ μ χ κ ρ : Type) where
  call : κ
  code : Prog σ μ χ ρ
  held : List μ
  blocked : Bool

/-- The shared state, the owner of every mutex, the threads that are in a call,
and the calls that have returned, the last one first. -/
structure Config (σ μ χ ι κ ρ : Type) where
  shared : σ
  owner : μ → Option ι
  thread : ι → Option (Thread σ μ χ κ ρ)
  history : List (κ × ρ)

namespace Config

/-- Nobody is in a call. -/
def idle (s : σ) (h : List (κ × ρ)) : Config σ μ χ ι κ ρ := ⟨s, fun _ => none, fun _ => none, h⟩

variable [DecidableEq ι]

/-- Thread `t` goes on as `th`. -/
def put (cfg : Config σ μ χ ι κ ρ) (t : ι) (th : Thread σ μ χ κ ρ) : Config σ μ χ ι κ ρ :=
  { cfg with thread := Function.update cfg.thread t (some th) }

@[simp] theorem put_shared (cfg : Config σ μ χ ι κ ρ) (t : ι) (th : Thread σ μ χ κ ρ) :
    (cfg.put t th).shared = cfg.shared := rfl

@[simp] theorem put_owner (cfg : Config σ μ χ ι κ ρ) (t : ι) (th : Thread σ μ χ κ ρ) :
    (cfg.put t th).owner = cfg.owner := rfl

@[simp] theorem put_history (cfg : Config σ μ χ ι κ ρ) (t : ι) (th : Thread σ μ χ κ ρ) :
    (cfg.put t th).history = cfg.history := rfl

@[simp] theorem put_self (cfg : Config σ μ χ ι κ ρ) (t : ι) (th : Thread σ μ χ κ ρ) :
    (cfg.put t th).thread t = some th := by simp [put]

theorem put_of_ne (cfg : Config σ μ χ ι κ ρ) {t u : ι} (th : Thread σ μ χ κ ρ) (h : u ≠ t) :
    (cfg.put t th).thread u = cfg.thread u := by simp [put, h]

/-- Where a thread, or what is noted of it, comes from when thread `t` has moved. -/
theorem update_eq_some {α : Type} {thread : ι → Option α} {t u : ι} {x : Option α} {tu : α}
    (h : Function.update thread t x u = some tu) :
    u = t ∧ x = some tu ∨ u ≠ t ∧ thread u = some tu := by
  by_cases hut : u = t
  · subst hut
    rw [Function.update_self] at h
    exact .inl ⟨rfl, h⟩
  · rw [Function.update_of_ne hut] at h
    exact .inr ⟨hut, h⟩

theorem thread_of_remove {cfg : Config σ μ χ ι κ ρ} {t u : ι} {tu : Thread σ μ χ κ ρ}
    (h : Function.update cfg.thread t none u = some tu) : cfg.thread u = some tu :=
  ((update_eq_some h).resolve_left fun he => by cases he.2).2

end Config

/-- Blocked on `c`. -/
def Thread.waitsOn [DecidableEq χ] (th : Thread σ μ χ κ ρ) (c : χ) : Bool :=
  match th.code with
  | .wait c' _ _ _ _ => th.blocked && c' == c
  | _ => false

theorem Thread.blocked_of_waitsOn [DecidableEq χ] {th : Thread σ μ χ κ ρ} {c : χ}
    (h : th.waitsOn c = true) :
    th.blocked = true ∧ ∃ m timed ready k, th.code = .wait c m timed ready k := by
  unfold Thread.waitsOn at h
  split at h
  · next c' m timed ready k hcode =>
    simp only [Bool.and_eq_true, beq_iff_eq] at h
    exact ⟨h.1, m, timed, ready, k, h.2 ▸ hcode⟩
  · cases h

/-- A thread that waits is not the one that runs. -/
theorem Thread.ne_of_waitsOn [DecidableEq χ] {thread : ι → Option (Thread σ μ χ κ ρ)} {t u : ι}
    {th tu : Thread σ μ χ κ ρ} {c : χ} (ht : thread t = some th) (hb : th.blocked = false)
    (hu : thread u = some tu) (hw : tu.waitsOn c = true) : u ≠ t := by
  rintro rfl
  rw [ht, Option.some.injEq] at hu
  rw [← hu] at hw
  rw [(Thread.blocked_of_waitsOn hw).1] at hb
  cases hb

/-- A blocked thread that is woken has to get its mutex back before it looks again. -/
def Thread.wake (th : Thread σ μ χ κ ρ) : Thread σ μ χ κ ρ :=
  match th.code with
  | .wait _ m _ _ _ => { th with code := .lock m th.code, blocked := false }
  | _ => th

@[simp] theorem Thread.wake_call (th : Thread σ μ χ κ ρ) : th.wake.call = th.call := by
  unfold Thread.wake
  split <;> rfl

/-- What the scheduler may let happen: a call, a step of a thread, a step of a
thread that signals another one, a wake-up without signal, the end of a timed wait. -/
inductive Action (ι κ : Type) where
  | call (t : ι) (c : κ)
  | run (t : ι)
  | notify (t u : ι)
  | wake (t : ι)
  | timeout (t : ι)

section Perform

variable [DecidableEq ι] [DecidableEq μ] [DecidableEq χ] [Fintype ι]

/-- One step of thread `t`, which is `th` and not blocked. -/
def runThread (cfg : Config σ μ χ ι κ ρ) (t : ι) (th : Thread σ μ χ κ ρ) :
    Option (Config σ μ χ ι κ ρ) :=
  match th.code with
  | .ret r => some { cfg with
      thread := Function.update cfg.thread t none
      history := (th.call, r) :: cfg.history }
  | .act f k => some { cfg.put t { th with code := k cfg.shared } with shared := f cfg.shared }
  | .lock m k =>
    if cfg.owner m = none then
      some { cfg.put t { th with code := k, held := m :: th.held } with
        owner := Function.update cfg.owner m (some t) }
    else none
  | .unlock m k =>
    if cfg.owner m = some t then
      some { cfg.put t { th with code := k, held := th.held.erase m } with
        owner := Function.update cfg.owner m none }
    else none
  | .wait _ m _ ready k =>
    if ready cfg.shared then some (cfg.put t { th with code := k })
    else if cfg.owner m = some t then
      some { cfg.put t { th with held := th.held.erase m, blocked := true } with
        owner := Function.update cfg.owner m none }
    else none
  | .notifyOne c k =>
    if ∀ u, (cfg.thread u).all (!·.waitsOn c) then some (cfg.put t { th with code := k }) else none

/-- One action of the scheduler, when it is possible. -/
def perform (entry : κ → Prog σ μ χ ρ) (cfg : Config σ μ χ ι κ ρ) :
    Action ι κ → Option (Config σ μ χ ι κ ρ)
  | .call t c =>
    match cfg.thread t with
    | none => some (cfg.put t ⟨c, entry c, [], false⟩)
    | some _ => none
  | .run t =>
    match cfg.thread t with
    | some th => if th.blocked then none else runThread cfg t th
    | none => none
  | .notify t u =>
    match cfg.thread t, cfg.thread u with
    | some th, some tu =>
      match th.code with
      | .notifyOne c k =>
        if th.blocked = false ∧ tu.waitsOn c then
          some ((cfg.put t { th with code := k }).put u tu.wake)
        else none
      | _ => none
    | _, _ => none
  | .wake t =>
    match cfg.thread t with
    | some th => if th.blocked then some (cfg.put t th.wake) else none
    | none => none
  | .timeout t =>
    match cfg.thread t with
    | some th =>
      match th.code with
      | .wait _ m true _ k =>
        if th.blocked then some (cfg.put t { th with code := .lock m k, blocked := false }) else none
      | _ => none
    | none => none

/-- What an action does. -/
inductive Moves (entry : κ → Prog σ μ χ ρ) (cfg : Config σ μ χ ι κ ρ) :
    Action ι κ → Config σ μ χ ι κ ρ → Prop
  | call (t : ι) (c : κ) (ht : cfg.thread t = none) :
      Moves entry cfg (.call t c) (cfg.put t ⟨c, entry c, [], false⟩)
  | ret {t : ι} {th : Thread σ μ χ κ ρ} {r : ρ} (ht : cfg.thread t = some th)
      (hb : th.blocked = false) (hcode : th.code = .ret r) :
      Moves entry cfg (.run t) { cfg with
        thread := Function.update cfg.thread t none, history := (th.call, r) :: cfg.history }
  | act {t : ι} {th : Thread σ μ χ κ ρ} {f : σ → σ} {k : σ → Prog σ μ χ ρ}
      (ht : cfg.thread t = some th) (hb : th.blocked = false) (hcode : th.code = .act f k) :
      Moves entry cfg (.run t)
        { cfg.put t { th with code := k cfg.shared } with shared := f cfg.shared }
  | lock {t : ι} {th : Thread σ μ χ κ ρ} {m : μ} {k : Prog σ μ χ ρ} (ht : cfg.thread t = some th)
      (hb : th.blocked = false) (hcode : th.code = .lock m k) (hm : cfg.owner m = none) :
      Moves entry cfg (.run t) { cfg.put t { th with code := k, held := m :: th.held } with
        owner := Function.update cfg.owner m (some t) }
  | unlock {t : ι} {th : Thread σ μ χ κ ρ} {m : μ} {k : Prog σ μ χ ρ} (ht : cfg.thread t = some th)
      (hb : th.blocked = false) (hcode : th.code = .unlock m k) (hm : cfg.owner m = some t) :
      Moves entry cfg (.run t) { cfg.put t { th with code := k, held := th.held.erase m } with
        owner := Function.update cfg.owner m none }
  | goOn {t : ι} {th : Thread σ μ χ κ ρ} {c : χ} {m : μ} {timed : Bool} {ready : σ → Bool}
      {k : Prog σ μ χ ρ} (ht : cfg.thread t = some th) (hb : th.blocked = false)
      (hcode : th.code = .wait c m timed ready k) (hr : ready cfg.shared = true) :
      Moves entry cfg (.run t) (cfg.put t { th with code := k })
  | block {t : ι} {th : Thread σ μ χ κ ρ} {c : χ} {m : μ} {timed : Bool} {ready : σ → Bool}
      {k : Prog σ μ χ ρ} (ht : cfg.thread t = some th) (hb : th.blocked = false)
      (hcode : th.code = .wait c m timed ready k) (hr : ready cfg.shared = false)
      (hm : cfg.owner m = some t) :
      Moves entry cfg (.run t) { cfg.put t { th with held := th.held.erase m, blocked := true } with
        owner := Function.update cfg.owner m none }
  | notifyNobody {t : ι} {th : Thread σ μ χ κ ρ} {c : χ} {k : Prog σ μ χ ρ}
      (ht : cfg.thread t = some th) (hb : th.blocked = false) (hcode : th.code = .notifyOne c k)
      (hn : ∀ u tu, cfg.thread u = some tu → tu.waitsOn c = false) :
      Moves entry cfg (.run t) (cfg.put t { th with code := k })
  | notify {t u : ι} {th tu : Thread σ μ χ κ ρ} {c : χ} {k : Prog σ μ χ ρ}
      (ht : cfg.thread t = some th) (hb : th.blocked = false) (hcode : th.code = .notifyOne c k)
      (hu : cfg.thread u = some tu) (hw : tu.waitsOn c = true) :
      Moves entry cfg (.notify t u) ((cfg.put t { th with code := k }).put u tu.wake)
  | wake {t : ι} {th : Thread σ μ χ κ ρ} (ht : cfg.thread t = some th) (hb : th.blocked = true) :
      Moves entry cfg (.wake t) (cfg.put t th.wake)
  | timeout {t : ι} {th : Thread σ μ χ κ ρ} {c : χ} {m : μ} {ready : σ → Bool} {k : Prog σ μ χ ρ}
      (ht : cfg.thread t = some th) (hb : th.blocked = true)
      (hcode : th.code = .wait c m true ready k) :
      Moves entry cfg (.timeout t) (cfg.put t { th with code := .lock m k, blocked := false })

theorem moves_of_runThread {entry : κ → Prog σ μ χ ρ} {cfg cfg' : Config σ μ χ ι κ ρ} {t : ι}
    {th : Thread σ μ χ κ ρ} (ht : cfg.thread t = some th) (hb : th.blocked = false)
    (h : runThread cfg t th = some cfg') : Moves entry cfg (.run t) cfg' := by
  unfold runThread at h
  cases hcode : th.code with
  | ret r =>
    simp only [hcode, Option.some.injEq] at h
    exact h ▸ .ret ht hb hcode
  | act f k =>
    simp only [hcode, Option.some.injEq] at h
    exact h ▸ .act ht hb hcode
  | lock m k =>
    simp only [hcode, Option.ite_none_right_eq_some, Option.some.injEq] at h
    exact h.2 ▸ .lock ht hb hcode h.1
  | unlock m k =>
    simp only [hcode, Option.ite_none_right_eq_some, Option.some.injEq] at h
    exact h.2 ▸ .unlock ht hb hcode h.1
  | wait c m timed ready k =>
    simp only [hcode] at h
    split_ifs at h with hr hm
    · cases h
      exact .goOn ht hb hcode hr
    · cases h
      rw [← hcode]
      exact .block ht hb hcode (by simpa using hr) hm
  | notifyOne c k =>
    simp only [hcode, Option.ite_none_right_eq_some, Option.some.injEq] at h
    refine h.2 ▸ .notifyNobody ht hb hcode fun u tu hu => ?_
    simpa [hu] using h.1 u

theorem moves_of_perform {entry : κ → Prog σ μ χ ρ} {cfg cfg' : Config σ μ χ ι κ ρ}
    {a : Action ι κ} (h : perform entry cfg a = some cfg') : Moves entry cfg a cfg' := by
  cases a with
  | call t c =>
    cases ht : cfg.thread t with
    | none =>
      simp only [perform, ht, Option.some.injEq] at h
      exact h ▸ .call t c ht
    | some th => simp [perform, ht] at h
  | run t =>
    cases ht : cfg.thread t with
    | none => simp [perform, ht] at h
    | some th =>
      simp only [perform, ht, Option.ite_none_left_eq_some] at h
      exact moves_of_runThread ht (by simpa using h.1) h.2
  | notify t u =>
    simp only [perform] at h
    split at h
    · next th tu ht hu =>
      split at h
      · next c k hcode =>
        rw [Option.ite_none_right_eq_some, Option.some.injEq] at h
        exact h.2 ▸ .notify ht h.1.1 hcode hu h.1.2
      · cases h
    · cases h
  | wake t =>
    cases ht : cfg.thread t with
    | none => simp [perform, ht] at h
    | some th =>
      simp only [perform, ht, Option.ite_none_right_eq_some, Option.some.injEq] at h
      exact h.2 ▸ .wake ht h.1
  | timeout t =>
    simp only [perform] at h
    split at h
    · next th ht =>
      split at h
      · next c m ready k hcode =>
        rw [Option.ite_none_right_eq_some, Option.some.injEq] at h
        exact h.2 ▸ .timeout ht h.1 hcode
      · cases h
    · cases h

theorem perform_of_moves {entry : κ → Prog σ μ χ ρ} {cfg cfg' : Config σ μ χ ι κ ρ}
    {a : Action ι κ} (h : Moves entry cfg a cfg') : perform entry cfg a = some cfg' := by
  cases h with
  | call t c ht => simp [perform, ht]
  | ret ht hb hcode => simp [perform, runThread, ht, hb, hcode]
  | act ht hb hcode => simp [perform, runThread, ht, hb, hcode]
  | lock ht hb hcode hm => simp [perform, runThread, ht, hb, hcode, hm]
  | unlock ht hb hcode hm => simp [perform, runThread, ht, hb, hcode, hm]
  | goOn ht hb hcode hr => simp [perform, runThread, ht, hb, hcode, hr]
  | block ht hb hcode hr hm => simp [perform, runThread, ht, hb, hcode, hr, hm]
  | @notifyNobody t th c k ht hb hcode hn =>
    have hnone : ∀ u, (cfg.thread u).all (!·.waitsOn c) = true := fun u => by
      cases hu : cfg.thread u with
      | none => rfl
      | some tu => simp [hn u tu hu]
    simp only [perform, runThread, ht, hb, hcode]
    exact if_pos hnone
  | notify ht hb hcode hu hw => simp [perform, ht, hb, hcode, hu, hw]
  | wake ht hb => simp [perform, ht, hb]
  | timeout ht hb hcode => simp [perform, ht, hb, hcode]

/-- One step of the machine. -/
def Step (entry : κ → Prog σ μ χ ρ) (cfg cfg' : Config σ μ χ ι κ ρ) : Prop :=
  ∃ a, perform entry cfg a = some cfg'

/-- Any number of steps. -/
def Reaches (entry : κ → Prog σ μ χ ρ) : Config σ μ χ ι κ ρ → Config σ μ χ ι κ ρ → Prop :=
  Relation.ReflTransGen (Step entry)

/-- Any number of steps, by actions that meet `K`. -/
def ReachesUnder (K : Config σ μ χ ι κ ρ → Action ι κ → Prop) (entry : κ → Prog σ μ χ ρ) :
    Config σ μ χ ι κ ρ → Config σ μ χ ι κ ρ → Prop :=
  Relation.ReflTransGen fun cfg cfg' => ∃ a, K cfg a ∧ perform entry cfg a = some cfg'

theorem Reaches.under {entry : κ → Prog σ μ χ ρ} {cfg cfg' : Config σ μ χ ι κ ρ}
    (h : Reaches entry cfg cfg') : ReachesUnder (fun _ _ => True) entry cfg cfg' :=
  Relation.ReflTransGen.mono (fun _ _ ⟨a, ha⟩ => ⟨a, trivial, ha⟩) _ _ h

theorem ReachesUnder.reaches {K : Config σ μ χ ι κ ρ → Action ι κ → Prop} {entry : κ → Prog σ μ χ ρ}
    {cfg cfg' : Config σ μ χ ι κ ρ} (h : ReachesUnder K entry cfg cfg') : Reaches entry cfg cfg' :=
  Relation.ReflTransGen.mono (fun _ _ ⟨a, _, ha⟩ => ⟨a, ha⟩) _ _ h

/-- A run, which goes on for ever: from one moment to the next there is a step, or nothing
happens. -/
def IsRun (entry : κ → Prog σ μ χ ρ) (run : ℕ → Config σ μ χ ι κ ρ) : Prop :=
  ∀ n, run (n + 1) = run n ∨ Step entry (run n) (run (n + 1))

section IsRun

variable {entry : κ → Prog σ μ χ ρ} {run : ℕ → Config σ μ χ ι κ ρ} {cfg cfg' : Config σ μ χ ι κ ρ}

theorem IsRun.reaches_of_le (h : IsRun entry run) {m n : ℕ} (hmn : m ≤ n) :
    Reaches entry (run m) (run n) := by
  induction n, hmn using Nat.le_induction with
  | base => exact .refl
  | succ n _ ih =>
    rcases h n with he | hs
    · rwa [he]
    · exact ih.tail hs

theorem IsRun.reaches (h : IsRun entry run) (n : ℕ) : Reaches entry (run 0) (run n) :=
  h.reaches_of_le n.zero_le

/-- What can be reached is reached by a run. -/
theorem Reaches.exists_run (h : Reaches entry cfg cfg') :
    ∃ run, IsRun entry run ∧ run 0 = cfg ∧ ∃ n, run n = cfg' := by
  induction h using Relation.ReflTransGen.head_induction_on with
  | refl => exact ⟨fun _ => cfg', fun _ => .inl rfl, rfl, 0, rfl⟩
  | @head cfg mid hs _ ih =>
    obtain ⟨run, hrun, rfl, n, rfl⟩ := ih
    refine ⟨fun k => k.casesOn cfg run, fun k => ?_, rfl, n + 1, rfl⟩
    cases k with
    | zero => exact .inr hs
    | succ k => exact hrun k

/-- What each step continues is continued along a run. -/
theorem IsRun.exists_along {α : Type} {P : Config σ μ χ ι κ ρ → α → Prop} {r : α → α → Prop}
    (h : IsRun entry run) (hrefl : ∀ a, r a a)
    (hstep : ∀ cfg cfg' a, P cfg a → Step entry cfg cfg' → ∃ b, P cfg' b ∧ r a b) {a₀ : α}
    (h₀ : P (run 0) a₀) : ∃ f : ℕ → α, f 0 = a₀ ∧ (∀ n, P (run n) (f n)) ∧ ∀ n, r (f n) (f (n + 1)) := by
  have hnext : ∀ n (a : {a // P (run n) a}), ∃ b : {b // P (run (n + 1)) b}, r a b := fun n a => by
    rcases h n with he | hs
    · exact ⟨⟨a, by rw [he]; exact a.2⟩, hrefl a⟩
    · obtain ⟨b, hb, hr⟩ := hstep _ _ _ a.2 hs
      exact ⟨⟨b, hb⟩, hr⟩
  choose next hnext using hnext
  let f : (n : ℕ) → {a // P (run n) a} := fun n => Nat.rec ⟨a₀, h₀⟩ next n
  refine ⟨fun n => (f n).1, rfl, fun n => (f n).2, fun n => hnext n (f n)⟩

end IsRun

/-- Two threads have the numerals for names. -/
instance instNeZeroTwo : @NeZero ℕ Zero.ofOfNat0 2 := ⟨two_ne_zero⟩

/-- Follow a schedule. -/
def follow (entry : κ → Prog σ μ χ ρ) :
    List (Action ι κ) → Config σ μ χ ι κ ρ → Option (Config σ μ χ ι κ ρ)
  | [], cfg => some cfg
  | a :: as, cfg => (perform entry cfg a).bind (follow entry as)

theorem reaches_of_follow {entry : κ → Prog σ μ χ ρ} {as : List (Action ι κ)}
    {cfg cfg' : Config σ μ χ ι κ ρ} (h : follow entry as cfg = some cfg') :
    Reaches entry cfg cfg' := by
  induction as generalizing cfg with
  | nil => cases h; exact .refl
  | cons a as ih =>
    simp only [follow, Option.bind_eq_some_iff] at h
    obtain ⟨mid, ha, hf⟩ := h
    exact .head ⟨a, ha⟩ (ih hf)

/-- Follow a schedule as long as its actions meet `K`. -/
def followUnder (K : Config σ μ χ ι κ ρ → Action ι κ → Bool) (entry : κ → Prog σ μ χ ρ) :
    List (Action ι κ) → Config σ μ χ ι κ ρ → Option (Config σ μ χ ι κ ρ)
  | [], cfg => some cfg
  | a :: as, cfg =>
    if K cfg a then (perform entry cfg a).bind (followUnder K entry as) else none

theorem follow_of_followUnder {K : Config σ μ χ ι κ ρ → Action ι κ → Bool} {entry : κ → Prog σ μ χ ρ}
    {as : List (Action ι κ)} {cfg cfg' : Config σ μ χ ι κ ρ} (h : followUnder K entry as cfg = some cfg') :
    follow entry as cfg = some cfg' := by
  induction as generalizing cfg with
  | nil => exact h
  | cons a as ih =>
    simp only [followUnder, Option.ite_none_right_eq_some, Option.bind_eq_some_iff] at h
    obtain ⟨-, mid, hp, hf⟩ := h
    exact Option.bind_eq_some_iff.mpr ⟨mid, hp, ih hf⟩

theorem reachesUnder_of_followUnder {K : Config σ μ χ ι κ ρ → Action ι κ → Bool}
    {K' : Config σ μ χ ι κ ρ → Action ι κ → Prop} {entry : κ → Prog σ μ χ ρ}
    {as : List (Action ι κ)} {cfg cfg' : Config σ μ χ ι κ ρ}
    (hK : ∀ mid a, Reaches entry cfg mid → K mid a = true → K' mid a)
    (h : followUnder K entry as cfg = some cfg') : ReachesUnder K' entry cfg cfg' := by
  induction as generalizing cfg with
  | nil => cases h; exact .refl
  | cons a as ih =>
    simp only [followUnder, Option.ite_none_right_eq_some, Option.bind_eq_some_iff] at h
    obtain ⟨hk, mid, ha, hf⟩ := h
    have hrest := ih (fun cfg'' a' hr => hK cfg'' a' (.head ⟨a, ha⟩ hr)) hf
    exact .head ⟨a, hK cfg a .refl hk, ha⟩ hrest

end Perform

end Concurrency
