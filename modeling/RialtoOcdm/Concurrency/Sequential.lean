import RialtoOcdm.Concurrency.Prog
import Mathlib.Logic.Relation

/-! Sequential runs. Calls run one at a time; a call that waits is put aside with the
rest of its code, and others run before it goes on. What every call ensures from any
state in which it holds is an invariant of these runs. -/

namespace Concurrency

variable {σ μ χ κ ρ : Type}

/-- The shared state, and what is left of the calls that wait. -/
structure Run (σ μ χ ρ : Type) where
  shared : σ
  waiting : List (Prog σ μ χ ρ)

/-- A call comes to its end or starts to wait, or one that waits is gone on with. -/
inductive Run.Step [DecidableEq μ] (entry : κ → Prog σ μ χ ρ) : Run σ μ χ ρ → Run σ μ χ ρ → Prop
  | call {s s' ps} (c : κ) {r} (h : (entry c).exec [] s = .done r s') : Step entry ⟨s, ps⟩ ⟨s', ps⟩
  | wait {s s' ps} (c : κ) {p} (h : (entry c).exec [] s = .waiting p s') :
      Step entry ⟨s, ps⟩ ⟨s', p :: ps⟩
  | resume {s s' pre p post r} (h : p.exec [] s = .done r s') :
      Step entry ⟨s, pre ++ p :: post⟩ ⟨s', pre ++ post⟩
  | waitAgain {s s' pre p p' post} (h : p.exec [] s = .waiting p' s') :
      Step entry ⟨s, pre ++ p :: post⟩ ⟨s', pre ++ p' :: post⟩

namespace Run

variable {entry : κ → Prog σ μ χ ρ} {I : σ → Prop} {x y : Run σ μ χ ρ}

/-- The rest of a call may be run in any state of the invariant. -/
def Resumable (I : σ → Prop) (p : Prog σ μ χ ρ) : Prop :=
  ∀ s, I s → p.wp I [] (fun _ _ s' => I s') s

/-- The invariant holds, and those who wait keep it. -/
structure Keeps (I : σ → Prop) (x : Run σ μ χ ρ) : Prop where
  shared : I x.shared
  waiting : ∀ p ∈ x.waiting, Resumable I p

variable [DecidableEq μ]

/-- A program that ran keeps the invariant if its precondition is met. -/
theorem keeps_of_wp {p : Prog σ μ χ ρ} {s s' : σ} {r : ρ}
    (h : p.wp I [] (fun _ _ s' => I s') s) (he : p.exec [] s = .done r s') : I s' := by
  have := Prog.wp_exec h
  rw [he] at this
  obtain ⟨_, hi⟩ := this
  exact hi

theorem resumable_of_wp {p p' : Prog σ μ χ ρ} {s s' : σ}
    (h : p.wp I [] (fun _ _ s' => I s') s) (he : p.exec [] s = .waiting p' s') :
    I s' ∧ Resumable I p' := by
  have := Prog.wp_exec h
  rwa [he] at this

/-- The step lemma. -/
theorem Keeps.step (hentry : ∀ c s, I s → (entry c).Ensures I [] (fun _ s' => I s') s)
    (h : Keeps I x) (hs : Step entry x y) : Keeps I y := by
  have hcall : ∀ c s, I s → (entry c).wp I [] (fun _ _ s' => I s') s := fun c s hi =>
    Prog.wp_mono (fun _ _ _ hq => hq.2) (hentry c s hi)
  cases hs with
  | call c he => exact ⟨keeps_of_wp (hcall c _ h.shared) he, h.waiting⟩
  | wait c he =>
    obtain ⟨hi, hp⟩ := resumable_of_wp (hcall c _ h.shared) he
    exact ⟨hi, List.forall_mem_cons.mpr ⟨hp, h.waiting⟩⟩
  | resume he =>
    refine ⟨keeps_of_wp (h.waiting _ (by simp) _ h.shared) he, fun p hp => h.waiting p ?_⟩
    simp only [List.mem_append, List.mem_cons] at hp ⊢
    tauto
  | waitAgain he =>
    obtain ⟨hi, hp'⟩ := resumable_of_wp (h.waiting _ (by simp) _ h.shared) he
    refine ⟨hi, fun p hp => ?_⟩
    simp only [List.mem_append, List.mem_cons] at hp
    rcases hp with hp | rfl | hp
    · exact h.waiting p (by simp [hp])
    · exact hp'
    · exact h.waiting p (by simp [hp])

/-- The run lemma. -/
theorem Keeps.reaches (hentry : ∀ c s, I s → (entry c).Ensures I [] (fun _ s' => I s') s)
    (h : Keeps I x) (hr : Relation.ReflTransGen (Step entry) x y) : Keeps I y := by
  induction hr with
  | refl => exact h
  | tail _ hs ih => exact ih.step hentry hs

/-- Calls one after the other, none of which waits. -/
def callAll (entry : κ → Prog σ μ χ ρ) : List κ → σ → Option σ
  | [], s => some s
  | c :: cs, s =>
    match (entry c).exec [] s with
    | .done _ s' => callAll entry cs s'
    | _ => none

theorem reaches_of_callAll {cs : List κ} {s s' : σ} (h : callAll entry cs s = some s') :
    Relation.ReflTransGen (Step entry) ⟨s, []⟩ ⟨s', []⟩ := by
  induction cs generalizing s with
  | nil => cases h; exact .refl
  | cons c cs ih =>
    simp only [callAll] at h
    split at h
    · next he => exact .head (.call c he) (ih h)
    · cases h

end Run

end Concurrency
