import Mathlib.Data.List.Basic
import Mathlib.Logic.Function.Basic

/-! Code of a thread over a shared state. A program is a tree of atomic actions,
mutex operations and condition-variable operations, so that one text has both a
sequential meaning (`exec`, the thread runs alone) and an interleaved one. The
weakest precondition `wp` is the sequential proof rule: the program does not block
itself, and a call that starts to wait gives the state back under an invariant and
is resumed under it. `Ensures` is the same for a program that gives back the
mutexes it takes. -/

namespace Concurrency

/-- A program over states `σ`, mutexes `μ` and condition variables `χ`. An action
is one atomic step; its continuation sees the state before it. `wait c m timed
ready` is `wait(lock, ready)`, or `wait_for(lock, time, ready)` when `timed`. -/
inductive Prog (σ μ χ α : Type) where
  | ret (a : α)
  | act (f : σ → σ) (k : σ → Prog σ μ χ α)
  | lock (m : μ) (k : Prog σ μ χ α)
  | unlock (m : μ) (k : Prog σ μ χ α)
  | wait (c : χ) (m : μ) (timed : Bool) (ready : σ → Bool) (k : Prog σ μ χ α)
  | notifyOne (c : χ) (k : Prog σ μ χ α)

namespace Prog

variable {σ μ χ α β : Type}

def bind : Prog σ μ χ α → (α → Prog σ μ χ β) → Prog σ μ χ β
  | ret a, g => g a
  | act f k, g => act f fun s => (k s).bind g
  | lock m k, g => lock m (k.bind g)
  | unlock m k, g => unlock m (k.bind g)
  | wait c m timed ready k, g => wait c m timed ready (k.bind g)
  | notifyOne c k, g => notifyOne c (k.bind g)

instance : Monad (Prog σ μ χ) where
  pure := ret
  bind := bind

@[simp] theorem pure_eq (a : α) : (pure a : Prog σ μ χ α) = ret a := rfl

@[simp] theorem ret_bind (a : α) (g : α → Prog σ μ χ β) : (ret a : Prog σ μ χ α) >>= g = g a := rfl

@[simp] theorem act_bind (f : σ → σ) (k : σ → Prog σ μ χ α) (g : α → Prog σ μ χ β) :
    act f k >>= g = act f fun s => k s >>= g := rfl

@[simp] theorem lock_bind (m : μ) (k : Prog σ μ χ α) (g : α → Prog σ μ χ β) :
    lock m k >>= g = lock m (k >>= g) := rfl

@[simp] theorem unlock_bind (m : μ) (k : Prog σ μ χ α) (g : α → Prog σ μ χ β) :
    unlock m k >>= g = unlock m (k >>= g) := rfl

@[simp] theorem wait_bind (c : χ) (m : μ) (timed : Bool) (ready : σ → Bool) (k : Prog σ μ χ α)
    (g : α → Prog σ μ χ β) : wait c m timed ready k >>= g = wait c m timed ready (k >>= g) := rfl

@[simp] theorem notifyOne_bind (c : χ) (k : Prog σ μ χ α) (g : α → Prog σ μ χ β) :
    notifyOne c k >>= g = notifyOne c (k >>= g) := rfl

theorem bind_assoc {γ : Type} (p : Prog σ μ χ α) (g : α → Prog σ μ χ β) (g' : β → Prog σ μ χ γ) :
    p >>= g >>= g' = p >>= fun a => g a >>= g' := by
  induction p with
  | ret a => rfl
  | act f k ih => exact congrArg (act f) (funext ih)
  | lock m k ih => exact congrArg (lock m) ih
  | unlock m k ih => exact congrArg (unlock m) ih
  | wait c m timed ready k ih => exact congrArg (wait c m timed ready) ih
  | notifyOne c k ih => exact congrArg (notifyOne c) ih

/-! ### Statements -/

/-- Read the state. -/
def read : Prog σ μ χ σ := act id ret

/-- Change the state. -/
def modify (f : σ → σ) : Prog σ μ χ Unit := act f fun _ => ret ()

/-- Change the state and answer, in one step. -/
def update (f : σ → β × σ) : Prog σ μ χ β := act (fun s => (f s).2) fun s => ret (f s).1

/-- A scope guarded by `m`: every way out of `p` releases it. -/
def withLock (m : μ) (p : Prog σ μ χ α) : Prog σ μ χ α :=
  lock m (p >>= fun a => unlock m (ret a))

/-- Wait on `c`, giving `m` up meanwhile, until `ready`. -/
def await (c : χ) (m : μ) (ready : σ → Bool) : Prog σ μ χ Unit := wait c m false ready (ret ())

/-- As `await`, but go on after some time even when not `ready`. -/
def awaitFor (c : χ) (m : μ) (ready : σ → Bool) : Prog σ μ χ Unit := wait c m true ready (ret ())

/-- Signal one of the threads waiting on `c`. -/
def signal (c : χ) : Prog σ μ χ Unit := notifyOne c (ret ())

@[simp] theorem read_bind (g : σ → Prog σ μ χ α) : read >>= g = act id g := rfl

@[simp] theorem modify_bind (f : σ → σ) (g : Unit → Prog σ μ χ α) :
    modify f >>= g = act f fun _ => g () := rfl

@[simp] theorem update_bind (f : σ → β × σ) (g : β → Prog σ μ χ α) :
    update f >>= g = act (fun s => (f s).2) fun s => g (f s).1 := rfl

@[simp] theorem signal_bind (c : χ) (g : Unit → Prog σ μ χ α) :
    signal c >>= g = notifyOne c (g ()) := rfl

/-! ### Running alone -/

/-- What a program that runs alone comes to: it returns, it waits for others with
the rest of its code, or it blocks itself. -/
inductive Outcome (σ μ χ α : Type) where
  | done (a : α) (s : σ)
  | waiting (p : Prog σ μ χ α) (s : σ)
  | stuck

/-- Run a program that holds `held` while nobody else runs. A timed wait runs out. -/
def exec [DecidableEq μ] (held : List μ) : Prog σ μ χ α → σ → Outcome σ μ χ α
  | ret a, s => .done a s
  | act f k, s => (k s).exec held (f s)
  | lock m k, s => if m ∈ held then .stuck else k.exec (m :: held) s
  | unlock m k, s => k.exec (held.erase m) s
  | wait c m timed ready k, s =>
    if ready s || timed then k.exec held s
    else if held = [m] then .waiting (lock m (wait c m timed ready k)) s else .stuck
  | notifyOne _ k, s => k.exec held s

/-- Weakest precondition of a program that runs alone, holding `held`. Where it
waits, it must leave `I`, and it goes on from any state of `I` that is ready. -/
def wp (I : σ → Prop) : Prog σ μ χ α → List μ → (α → List μ → σ → Prop) → σ → Prop
  | ret a, held, Q, s => Q a held s
  | act f k, held, Q, s => (k s).wp I held Q (f s)
  | lock m k, held, Q, s => m ∉ held ∧ k.wp I (m :: held) Q s
  | unlock m k, held, Q, s => ∃ rest, held = m :: rest ∧ k.wp I rest Q s
  | wait _ m timed ready k, held, Q, s =>
    ((ready s || timed) = true → k.wp I held Q s) ∧
    ((ready s || timed) = false →
      held = [m] ∧ I s ∧ ∀ s', I s' → ready s' = true → k.wp I held Q s')
  | notifyOne _ k, held, Q, s => k.wp I held Q s

/-- `p` returns with the mutexes it was started with, and then `Q` holds. -/
def Ensures (I : σ → Prop) (held : List μ) (p : Prog σ μ χ α) (Q : α → σ → Prop) (s : σ) : Prop :=
  p.wp I held (fun a held' s' => held' = held ∧ Q a s') s

section Rules

variable {I : σ → Prop} {held : List μ} {p : Prog σ μ χ α} {s s' : σ}

theorem wp_mono {Q Q' : α → List μ → σ → Prop} (h : ∀ a held s, Q a held s → Q' a held s) :
    p.wp I held Q s → p.wp I held Q' s := by
  induction p generalizing held s with
  | ret a => exact h a held s
  | act f k ih => exact ih s
  | lock m k ih => exact fun ⟨hm, hk⟩ => ⟨hm, ih hk⟩
  | unlock m k ih => exact fun ⟨rest, he, hk⟩ => ⟨rest, he, ih hk⟩
  | wait c m timed ready k ih =>
    intro ⟨h₁, h₂⟩
    refine ⟨fun hr => ih (h₁ hr), fun hr => ?_⟩
    obtain ⟨he, hI, hk⟩ := h₂ hr
    exact ⟨he, hI, fun s' hs hr' => ih (hk s' hs hr')⟩
  | notifyOne c k ih => exact ih

theorem wp_bind {g : α → Prog σ μ χ β} {Q : β → List μ → σ → Prop}
    (h : p.wp I held (fun a held s => (g a).wp I held Q s) s) : (p >>= g).wp I held Q s := by
  induction p generalizing held s with
  | ret a => exact h
  | act f k ih => exact ih s h
  | lock m k ih => exact ⟨h.1, ih h.2⟩
  | unlock m k ih =>
    obtain ⟨rest, he, hk⟩ := h
    exact ⟨rest, he, ih hk⟩
  | wait c m timed ready k ih =>
    refine ⟨fun hr => ih (h.1 hr), fun hr => ?_⟩
    obtain ⟨he, hI, hk⟩ := h.2 hr
    exact ⟨he, hI, fun s' hs hr' => ih (hk s' hs hr')⟩
  | notifyOne c k ih => exact ih h

variable {Q Q' : α → σ → Prop}

theorem Ensures.mono (h : p.Ensures I held Q s) (hQ : ∀ a s, Q a s → Q' a s) :
    p.Ensures I held Q' s :=
  wp_mono (fun _ _ _ ⟨he, hq⟩ => ⟨he, hQ _ _ hq⟩) h

/-- Sequencing: the first program must establish the precondition of the second. -/
theorem Ensures.bind {g : α → Prog σ μ χ β} {Q : β → σ → Prop}
    (h : p.Ensures I held (fun a => (g a).Ensures I held Q) s) : (p >>= g).Ensures I held Q s :=
  wp_bind (wp_mono (fun a held' s' ⟨he, hg⟩ => by rw [he]; exact hg) h)

theorem Ensures.withLock {m : μ} (hm : m ∉ held) (h : p.Ensures I (m :: held) Q s) :
    (withLock m p).Ensures I held Q s :=
  ⟨hm, wp_bind (wp_mono (fun _ _ _ ⟨he, hq⟩ => ⟨held, he, rfl, hq⟩) h)⟩

/-- A loop: `J` is what holds before the rounds of a list that are left. -/
theorem Ensures.forM {l : List β} {f : β → Prog σ μ χ PUnit} {J : List β → σ → Prop}
    (h : ∀ b rest s, b :: rest <:+ l → J (b :: rest) s →
      (f b).Ensures I held (fun _ => J rest) s) (hs : J l s) :
    (l.forM f).Ensures I held (fun _ => J []) s := by
  induction l generalizing s with
  | nil => exact ⟨rfl, hs⟩
  | cons b l ih =>
    refine Ensures.bind ((h b l s List.suffix_rfl hs).mono fun _ s' hs' => ?_)
    exact ih (fun b' rest s hsuf => h b' rest s (hsuf.trans (List.suffix_cons b l))) hs'

@[simp] theorem ensures_ret {a : α} : (ret a : Prog σ μ χ α).Ensures I held Q s ↔ Q a s := by
  simp [Ensures, wp]

@[simp] theorem ensures_act {f : σ → σ} {k : σ → Prog σ μ χ α} :
    (act f k).Ensures I held Q s ↔ (k s).Ensures I held Q (f s) := Iff.rfl

@[simp] theorem ensures_notifyOne {c : χ} {k : Prog σ μ χ α} :
    (notifyOne c k).Ensures I held Q s ↔ k.Ensures I held Q s := Iff.rfl

@[simp] theorem ensures_read {Q : σ → σ → Prop} :
    (read : Prog σ μ χ σ).Ensures I held Q s ↔ Q s s := by simp [read]

@[simp] theorem ensures_modify {f : σ → σ} {Q : Unit → σ → Prop} :
    (modify f : Prog σ μ χ Unit).Ensures I held Q s ↔ Q () (f s) := by simp [modify]

@[simp] theorem ensures_update {f : σ → β × σ} {Q : β → σ → Prop} :
    (update f : Prog σ μ χ β).Ensures I held Q s ↔ Q (f s).1 (f s).2 := by simp [update]

@[simp] theorem ensures_signal {c : χ} {Q : Unit → σ → Prop} :
    (signal c : Prog σ μ χ Unit).Ensures I held Q s ↔ Q () s := by simp [signal]

/-- Nobody ends a timed wait of a program that runs alone, but time does. -/
@[simp] theorem ensures_awaitFor {c : χ} {m : μ} {ready : σ → Bool} {Q : Unit → σ → Prop} :
    (awaitFor c m ready : Prog σ μ χ Unit).Ensures I held Q s ↔ Q () s := by
  simp [Ensures, awaitFor, wp]

/-- A wait for others to establish what is waited for. -/
theorem Ensures.await {c : χ} {m : μ} {ready : σ → Bool} {Q : Unit → σ → Prop} (hs : I s)
    (h : ∀ s, I s → ready s = true → Q () s) :
    (await c m ready : Prog σ μ χ Unit).Ensures I [m] Q s := by
  refine ⟨fun hr => ⟨rfl, h s hs (by simpa using hr)⟩, fun _ => ⟨rfl, hs, fun s' hs' hr => ?_⟩⟩
  exact ⟨rfl, h s' hs' hr⟩

end Rules

variable [DecidableEq μ] {I : σ → Prop} {Q : α → List μ → σ → Prop} {p : Prog σ μ χ α}
  {held : List μ} {s : σ}

/-- What `wp` says of a run: a program that returns does so in its postcondition,
one that waits leaves the invariant and can be resumed under it, and none is stuck. -/
theorem wp_exec (h : p.wp I held Q s) :
    match p.exec held s with
    | .done a s' => ∃ held', Q a held' s'
    | .waiting p' s' => I s' ∧ ∀ s, I s → p'.wp I [] Q s
    | .stuck => False := by
  induction p generalizing s held with
  | ret b => exact ⟨held, h⟩
  | act f k ih => exact ih s h
  | lock m k ih =>
    rw [exec, if_neg h.1]
    exact ih h.2
  | unlock m k ih =>
    obtain ⟨rest, rfl, hk⟩ := h
    simpa [exec] using ih hk
  | wait c m timed ready k ih =>
    simp only [exec]
    by_cases hr : (ready s || timed) = true
    · rw [if_pos hr]
      exact ih (h.1 hr)
    · rw [Bool.not_eq_true] at hr
      obtain ⟨he, hI, hk⟩ := h.2 hr
      subst he
      simp only [hr, Bool.false_eq_true, if_false, if_true]
      refine ⟨hI, fun s hs => ⟨List.not_mem_nil, fun hr' => ?_, fun _ => ⟨rfl, hs, hk⟩⟩⟩
      -- the wait was not timed, so it goes on only when it is ready
      rw [Bool.or_eq_false_iff] at hr
      exact hk s hs (by simpa [hr.2] using hr')
  | notifyOne c k ih => exact ih h

/-- Where nothing can be waited for, a program that ensures something returns. -/
theorem Ensures.returns {Q : α → σ → Prop} (h : p.Ensures (fun _ => False) held Q s) :
    ∃ a s', p.exec held s = .done a s' ∧ Q a s' := by
  have := wp_exec h
  split at this
  · next a s' he =>
    obtain ⟨_, _, hq⟩ := this
    exact ⟨a, s', he, hq⟩
  · exact this.1.elim
  · exact this.elim

/-- A program that returned did what it ensures. -/
theorem Ensures.done {Q : α → σ → Prop} (h : p.Ensures I held Q s) {a : α} {s' : σ}
    (he : p.exec held s = .done a s') : Q a s' := by
  have := wp_exec h
  rw [he] at this
  obtain ⟨_, _, hq⟩ := this
  exact hq

end Prog

end Concurrency
