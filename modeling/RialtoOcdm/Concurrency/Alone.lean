import RialtoOcdm.Concurrency.Protocol
import RialtoOcdm.Concurrency.Sequential

/-! Sequential runs are interleavings of a special kind. What a protocol allows to the
calls it allows to calls that run one at a time, and its invariant holds in every state
between them. -/

namespace Concurrency

open Protocol

variable {σ μ χ κ ρ α : Type} [DecidableEq μ] {P : Protocol σ μ κ} {c : κ} {held : List μ} {s : σ}

/-- A program that is safe and runs alone does to the others what interference may do to
them. If it waits it is safe to go on with. -/
theorem Protocol.Safe.exec (hfree : ∀ m, P.Always (P.free m)) {p : Prog σ μ χ α}
    {Q : α → List μ → σ → Prop} (h : P.Safe c p Q held s) (hs : P.inv s) :
    match p.exec held s with
    | .done _ s' => P.Rely [] s s'
    | .waiting p' s' => P.Rely [] s s' ∧ P.Safe c p' Q [] s'
    | .stuck => True := by
  induction p generalizing held s with
  | ret a => exact Rely.refl
  | act f k ih =>
    obtain ⟨hm, hi, hk⟩ := h s .refl hs
    have hstep : P.Rely [] s (f s) := .step (List.disjoint_nil_left _) hi hm
    have := ih s hk hi
    simp only [Prog.exec]
    split at this
    · exact hstep.trans this
    · exact ⟨hstep.trans this.1, this.2⟩
    · trivial
  | lock m k ih =>
    simp only [Prog.exec]
    split_ifs
    · trivial
    · exact ih ((h s .refl hs).2 (hfree m s hs)) hs
  | unlock m k ih =>
    obtain ⟨rest, rfl, h⟩ := h
    simpa [Prog.exec] using ih (h s .refl hs).2 hs
  | wait cv m timed ready k ih =>
    obtain ⟨rest, rfl, W, hW, hstable, hgo, hblock⟩ := h
    by_cases hr : (ready s || timed) = true
    · simp only [Prog.exec, if_pos hr]
      exact ih (hgo s hW hs (by simpa using hr)) hs
    · simp only [Prog.exec, if_neg hr]
      split_ifs with he
      · obtain rfl : rest = [] := by simpa using he
        rw [Bool.or_eq_true, not_or, Bool.not_eq_true] at hr
        refine ⟨.refl, fun s' hr' hi => ?_⟩
        obtain ⟨hreq, hW'⟩ := (hblock s hW hs hr.1).2 s' hr' hi
        exact ⟨hreq, fun hf => ⟨[], rfl, W, hW' hf, hstable, hgo, hblock⟩⟩
      · trivial
  | notifyOne cv k ih => exact ih h hs

/-- The invariant holds, and what is left of the calls that wait is safe. -/
structure Run.Safe (P : Protocol σ μ κ) (x : Run σ μ χ ρ) : Prop where
  shared : P.inv x.shared
  waiting : ∀ p ∈ x.waiting, ∃ c Q, P.Safe c p Q [] x.shared

omit [DecidableEq μ] in
/-- The shared state changes as by interference, and those who wait still do or are
safe. -/
theorem Run.Safe.rely {x y : Run σ μ χ ρ} (h : Run.Safe P x) (hr : P.Rely [] x.shared y.shared)
    (hy : ∀ p ∈ y.waiting, p ∈ x.waiting ∨ ∃ c Q, P.Safe c p Q [] y.shared) : Run.Safe P y where
  shared := hr.inv h.shared
  waiting p hp := by
    refine (hy p hp).elim (fun hx => ?_) id
    obtain ⟨c, Q, hc⟩ := h.waiting p hx
    exact ⟨c, Q, hc.rely h.shared hr⟩

variable {post : κ → ρ → σ → Prop} {entry : κ → Prog σ μ χ ρ}

theorem Run.Safe.step (hS : Sound P post entry) (hfree : ∀ m, P.Always (P.free m)) {x y : Run σ μ χ ρ}
    (h : Run.Safe P x) (hs : Run.Step entry x y) : Run.Safe P y := by
  cases hs with
  | call c he =>
    have := (hS.entry c _ h.shared).exec hfree h.shared
    rw [he] at this
    exact h.rely this fun p hp => .inl hp
  | wait c he =>
    have := (hS.entry c _ h.shared).exec hfree h.shared
    rw [he] at this
    apply h.rely this.1
    intro p hp
    exact (List.mem_cons.mp hp).elim (fun hp => .inr ⟨c, _, hp ▸ this.2⟩) .inl
  | resume he =>
    obtain ⟨c, Q, hp⟩ := h.waiting _ (List.mem_append_right _ List.mem_cons_self)
    have := hp.exec hfree h.shared
    rw [he] at this
    refine h.rely this fun p hp => .inl ?_
    simp only [List.mem_append, List.mem_cons] at hp ⊢
    tauto
  | waitAgain he =>
    obtain ⟨c, Q, hp⟩ := h.waiting _ (List.mem_append_right _ List.mem_cons_self)
    have := hp.exec hfree h.shared
    rw [he] at this
    apply h.rely this.1
    intro p hp
    simp only [List.mem_append, List.mem_cons] at hp ⊢
    rcases hp with hp | rfl | hp
    · exact .inl (.inl hp)
    · exact .inr ⟨c, Q, this.2⟩
    · exact .inl (.inr (.inr hp))

/-- What is an invariant of all interleavings is one of sequential runs. -/
theorem Sound.run (hS : Sound P post entry) (hfree : ∀ m, P.Always (P.free m)) {s : σ}
    (hs : P.inv s) {x : Run σ μ χ ρ} (hr : Relation.ReflTransGen (Run.Step entry) ⟨s, []⟩ x) :
    P.inv x.shared := by
  have hx : Run.Safe P x := by
    induction hr with
    | refl => exact ⟨hs, by simp⟩
    | tail _ hstep ih => exact ih.step hS hfree hstep
  exact hx.shared

end Concurrency
