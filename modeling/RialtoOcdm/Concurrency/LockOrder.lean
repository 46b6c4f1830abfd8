import RialtoOcdm.Concurrency.Protocol
import Mathlib.Order.Basic

/-! Threads that block each other. `t` waits for `u` when its next step takes a
mutex that `u` owns; a deadlock is a cycle of this relation. If every thread asks
only for mutexes of a higher rank than those it holds, there is none. -/

namespace Concurrency

variable {σ μ χ ι κ ρ : Type}

/-- The thread is about to take `m`. -/
def Thread.Wants (th : Thread σ μ χ κ ρ) (m : μ) : Prop :=
  th.blocked = false ∧ ∃ k, th.code = .lock m k

/-- The mutex that the thread is about to take. -/
def Thread.wanted (th : Thread σ μ χ κ ρ) : Option μ :=
  match th.code with
  | .lock m _ => if th.blocked then none else some m
  | _ => none

theorem Thread.wants_of_wanted {th : Thread σ μ χ κ ρ} {m : μ} (h : th.wanted = some m) :
    th.Wants m := by
  unfold Thread.wanted at h
  split at h
  · next m' k hk =>
    split_ifs at h with hb
    cases h
    exact ⟨by simpa using hb, k, hk⟩
  · cases h

/-- `t` is about to take a mutex that `u` owns. -/
def WaitsFor (cfg : Config σ μ χ ι κ ρ) (t u : ι) : Prop :=
  ∃ th m, cfg.thread t = some th ∧ th.Wants m ∧ cfg.owner m = some u

/-- Some threads wait for each other in a circle. -/
def Deadlock (cfg : Config σ μ χ ι κ ρ) : Prop := ∃ t, Relation.TransGen (WaitsFor cfg) t t

variable {cfg : Config σ μ χ ι κ ρ}

theorem waitsFor_of_wanted {t u : ι} {m : μ} (h : (cfg.thread t).bind Thread.wanted = some m)
    (ho : cfg.owner m = some u) : WaitsFor cfg t u := by
  obtain ⟨th, ht, hm⟩ := Option.bind_eq_some_iff.mp h
  exact ⟨th, m, ht, Thread.wants_of_wanted hm, ho⟩

/-- Along a chain of waiting threads the ranks of the mutexes waited for rise. -/
theorem rank_lt_of_chain (rank : μ → ℕ)
    (howner : ∀ m t, cfg.owner m = some t → ∃ th, cfg.thread t = some th ∧ m ∈ th.held)
    (horder : ∀ t th m, cfg.thread t = some th → th.Wants m → ∀ h ∈ th.held, rank h < rank m)
    {t u : ι} (hc : Relation.TransGen (WaitsFor cfg) t u) :
    ∀ th tu m m', cfg.thread t = some th → th.Wants m → cfg.thread u = some tu → tu.Wants m' →
      rank m < rank m' := by
  -- one link: the mutex waited for is held by a thread that waits for a higher one
  have link : ∀ t u, WaitsFor cfg t u → ∀ th tu m m', cfg.thread t = some th → th.Wants m →
      cfg.thread u = some tu → tu.Wants m' → rank m < rank m' := by
    intro t u ⟨th', m₀, ht', hw', ho⟩ th tu m m' ht hw hu hwu
    rw [ht, Option.some.injEq] at ht'
    subst ht'
    obtain ⟨_, k, hk⟩ := hw
    obtain ⟨_, k', hk'⟩ := hw'
    rw [hk, Prog.lock.injEq] at hk'
    obtain ⟨rfl, _⟩ := hk'
    obtain ⟨tu', hu', hmem⟩ := howner m u ho
    rw [hu, Option.some.injEq] at hu'
    subst hu'
    exact horder u tu m' hu hwu m hmem
  induction hc with
  | single h => exact link _ _ h
  | @tail v w hpre h ih =>
    intro th tw m m' ht hw hwth hww
    obtain ⟨tv, mv, hv, hwv, ho⟩ := h
    exact (ih th tv m mv ht hw hv hwv).trans (link v w ⟨tv, mv, hv, hwv, ho⟩ tv tw mv m' hv hwv hwth hww)

theorem not_deadlock_of_rank (rank : μ → ℕ)
    (howner : ∀ m t, cfg.owner m = some t → ∃ th, cfg.thread t = some th ∧ m ∈ th.held)
    (horder : ∀ t th m, cfg.thread t = some th → th.Wants m → ∀ h ∈ th.held, rank h < rank m) :
    ¬ Deadlock cfg := by
  rintro ⟨t, hc⟩
  obtain ⟨u, ⟨th, m, ht, hw, -⟩, -⟩ := Relation.TransGen.head'_iff.mp hc
  exact lt_irrefl _ (rank_lt_of_chain rank howner horder hc th th m m ht hw ht hw)

/-- A protocol whose requests go up in rank has no deadlocks. -/
theorem Good.not_deadlock_of_request {P : Protocol σ μ κ} {post : κ → ρ → σ → Prop} (h : Good P post cfg)
    (rank : μ → ℕ)
    (hreq : ∀ c held m, P.request c held m cfg.shared → ∀ l ∈ held, rank l < rank m) :
    ¬ Deadlock cfg := by
  refine not_deadlock_of_rank rank (fun m t => (h.owner m t).mp) (fun t th m ht hw => ?_)
  obtain ⟨hb, k, hk⟩ := hw
  have hs := (ThreadSafe.of_running hb).mp (h.threads t th ht)
  rw [hk] at hs
  exact hreq th.call th.held m (hs cfg.shared .refl h.inv).1

end Concurrency
