import RialtoOcdm.Concurrency.Prog

/-! Programs that lock a mutex they hold. The mutexes are not recursive, so a program
that comes to this blocks itself. What a program ensures tells that it does not. -/

namespace Concurrency.Prog

variable {σ μ χ α β : Type} [DecidableEq μ]

/-- A program that holds `held` and runs alone comes to lock a mutex that it holds. -/
def relocks : Prog σ μ χ α → List μ → σ → Bool
  | ret _, _, _ => false
  | act f k, held, s => (k s).relocks held (f s)
  | lock m k, held, s => m ∈ held || k.relocks (m :: held) s
  | unlock m k, held, s => k.relocks (held.erase m) s
  | wait _ _ timed ready k, held, s => (ready s || timed) && k.relocks held s
  | notifyOne _ k, held, s => k.relocks held s

variable {I : σ → Prop} {held : List μ} {p : Prog σ μ χ α} {s : σ}

theorem not_relocks_of_wp {Q : α → List μ → σ → Prop} (h : p.wp I held Q s) :
    p.relocks held s = false := by
  induction p generalizing held s with
  | ret a => rfl
  | act f k ih => exact ih s h
  | lock m k ih => simpa [relocks, h.1] using ih h.2
  | unlock m k ih =>
    obtain ⟨rest, rfl, hk⟩ := h
    simpa [relocks] using ih hk
  | wait c m timed ready k ih =>
    rw [relocks, Bool.and_eq_false_iff]
    by_cases hr : (ready s || timed) = true
    · exact .inr (ih (h.1 hr))
    · exact .inl (by simpa using hr)
  | notifyOne c k ih => exact ih h

theorem Ensures.not_relocks {Q : α → σ → Prop} (h : p.Ensures I held Q s) :
    p.relocks held s = false := not_relocks_of_wp h

theorem relocks_bind {g : α → Prog σ μ χ β} (h : p.relocks held s = true) :
    (p >>= g).relocks held s = true := by
  induction p generalizing held s with
  | ret a => cases h
  | act f k ih => exact ih s h
  | lock m k ih =>
    rw [relocks, Bool.or_eq_true] at h
    exact Bool.or_eq_true _ _ |>.mpr (h.imp_right ih)
  | unlock m k ih => exact ih h
  | wait c m timed ready k ih =>
    rw [relocks, Bool.and_eq_true] at h
    exact Bool.and_eq_true _ _ |>.mpr ⟨h.1, ih h.2⟩
  | notifyOne c k ih => exact ih h

/-- A program that returns, and one after it that relocks. -/
theorem relocks_bind_of_wp {g : α → Prog σ μ χ β}
    (h : p.wp (fun _ => False) held (fun a held' s' => (g a).relocks held' s' = true) s) :
    (p >>= g).relocks held s = true := by
  induction p generalizing held s with
  | ret a => exact h
  | act f k ih => exact ih s h
  | lock m k ih => exact Bool.or_eq_true _ _ |>.mpr (.inr (ih h.2))
  | unlock m k ih =>
    obtain ⟨rest, rfl, hk⟩ := h
    refine (?_ : (k >>= g).relocks ((m :: rest).erase m) s = true)
    rw [List.erase_cons_head]
    exact ih hk
  | wait c m timed ready k ih =>
    by_cases hr : (ready s || timed) = true
    · exact Bool.and_eq_true _ _ |>.mpr ⟨hr, ih (h.1 hr)⟩
    · exact (h.2 (by simpa using hr)).2.1.elim
  | notifyOne c k ih => exact ih h

theorem Ensures.relocks_bind {g : α → Prog σ μ χ β}
    (h : p.Ensures (fun _ => False) held (fun a s' => (g a).relocks held s' = true) s) :
    (p >>= g).relocks held s = true :=
  relocks_bind_of_wp (wp_mono (fun _ _ _ ⟨he, hg⟩ => he ▸ hg) h)

theorem relocks_withLock {m : μ} (h : m ∈ held) : (withLock m p).relocks held s = true := by
  simp [withLock, relocks, h]

theorem relocks_withLock_of {m : μ} (h : p.relocks (m :: held) s = true) :
    (withLock m p).relocks held s = true := Bool.or_eq_true _ _ |>.mpr (.inr (Prog.relocks_bind h))

/-- A loop that relocks in the round of `b`. -/
theorem relocks_forM {l₁ l₂ : List β} {b : β} {f : β → Prog σ μ χ PUnit}
    (h : (l₁.forM f).Ensures (fun _ => False) held (fun _ s' => (f b).relocks held s' = true) s) :
    ((l₁ ++ b :: l₂).forM f).relocks held s = true := by
  have happ : ∀ l : List β, (l ++ b :: l₂).forM f = l.forM f >>= fun _ => (b :: l₂).forM f := by
    intro l
    induction l with
    | nil => rfl
    | cons x l ih => exact (congrArg (f x >>= fun _ => ·) ih).trans (bind_assoc _ _ _).symm
  rw [happ]
  exact (h.mono fun _ _ hb => Prog.relocks_bind hb).relocks_bind

end Concurrency.Prog
