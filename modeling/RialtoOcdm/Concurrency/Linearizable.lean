import RialtoOcdm.Concurrency.Resource
import Mathlib.Data.List.Nodup
import Mathlib.Data.List.Perm.Basic

/-! Calls that do all of their work in one critical section. Such a call takes effect as if
it ran alone, at one point between the time it is made and the time it returns. So threads
that make no other calls behave as if they made them one at a time. -/

namespace Concurrency

variable {σ μ χ ι κ ρ α β : Type}

/-! ### Code of a critical section -/

namespace Prog

/-- Code of critical sections, with the mutexes it holds, the last one locked first. It
gives back in turn what it takes and waits for nothing, and when nothing is held there is
only the answer left. `Q` is what it ends with. -/
def Section : Prog σ μ χ α → (α → List μ → Prop) → List μ → Prop
  | ret a, Q, held => Q a held
  | act _ k, Q, held => held ≠ [] ∧ ∀ s, (k s).Section Q held
  | lock m k, Q, held => held ≠ [] ∧ m ∉ held ∧ k.Section Q (m :: held)
  | unlock m k, Q, held => ∃ rest, held = m :: rest ∧ k.Section Q rest
  | wait .., _, _ => False
  | notifyOne _ k, Q, held => held ≠ [] ∧ k.Section Q held

variable {p : Prog σ μ χ α} {Q Q' : α → List μ → Prop} {held : List μ} {m : μ}

theorem Section.mono (h : p.Section Q held) (hQ : ∀ a held, Q a held → Q' a held) :
    p.Section Q' held := by
  induction p generalizing held with
  | ret a => exact hQ a held h
  | act f k ih => exact ⟨h.1, fun s => ih s (h.2 s)⟩
  | lock m k ih => exact ⟨h.1, h.2.1, ih h.2.2⟩
  | unlock m k ih =>
    obtain ⟨rest, he, hk⟩ := h
    exact ⟨rest, he, ih hk⟩
  | wait c m timed ready k ih => exact h.elim
  | notifyOne c k ih => exact ⟨h.1, ih h.2⟩

/-- Sequencing. -/
theorem Section.bind {g : α → Prog σ μ χ β} {Q : β → List μ → Prop}
    (h : p.Section (fun a held => (g a).Section Q held) held) : (p >>= g).Section Q held := by
  induction p generalizing held with
  | ret a => exact h
  | act f k ih => exact ⟨h.1, fun s => ih s (h.2 s)⟩
  | lock m k ih => exact ⟨h.1, h.2.1, ih h.2.2⟩
  | unlock m k ih =>
    obtain ⟨rest, he, hk⟩ := h
    exact ⟨rest, he, ih hk⟩
  | wait c m timed ready k ih => exact h.elim
  | notifyOne c k ih => exact ⟨h.1, ih h.2⟩

theorem Section.ret_of_nil (h : p.Section Q []) : ∃ a, p = ret a := by
  cases p with
  | ret a => exact ⟨a, rfl⟩
  | act f k | lock m k | notifyOne c k => exact absurd rfl h.1
  | unlock m k =>
    obtain ⟨rest, he, -⟩ := h
    cases he
  | wait c m timed ready k => exact h.elim

/-- Code inside of critical sections that holds the same mutexes at its end. -/
def Within (held : List μ) (p : Prog σ μ χ α) : Prop := p.Section (fun _ held' => held' = held) held

theorem Within.ret {a : α} : (ret a : Prog σ μ χ α).Within held := rfl

theorem Within.act {f : σ → σ} {k : σ → Prog σ μ χ α} (hne : held ≠ []) (h : ∀ s, (k s).Within held) :
    (act f k).Within held := ⟨hne, h⟩

theorem Within.bind {g : α → Prog σ μ χ β} (h : p.Within held) (hg : ∀ a, (g a).Within held) :
    (p >>= g).Within held :=
  Section.bind (h.mono fun a _ he => he ▸ hg a)

theorem Within.forM {l : List β} {f : β → Prog σ μ χ PUnit} (h : ∀ b ∈ l, (f b).Within held) :
    (l.forM f).Within held := by
  induction l with
  | nil => exact .ret
  | cons b l ih =>
    rw [List.forall_mem_cons] at h
    exact h.1.bind fun _ => ih h.2

theorem Within.read (hne : held ≠ []) : (read : Prog σ μ χ σ).Within held := ⟨hne, fun _ => rfl⟩

theorem Within.modify {f : σ → σ} (hne : held ≠ []) : (modify f : Prog σ μ χ Unit).Within held :=
  ⟨hne, fun _ => rfl⟩

theorem Within.update {f : σ → β × σ} (hne : held ≠ []) : (update f : Prog σ μ χ β).Within held :=
  ⟨hne, fun _ => rfl⟩

theorem Within.signal {c : χ} (hne : held ≠ []) : (signal c : Prog σ μ χ Unit).Within held :=
  ⟨hne, rfl⟩

/-- The rest of a critical section. -/
def Ends (m : μ) (k : Prog σ μ χ α) : Prop := k.Section (fun _ held => held = []) [m]

/-- A call that does all of its work under `m`, perhaps after a wait that ends some time. -/
def Monitor (m : μ) (p : Prog σ μ χ α) : Prop := ∃ k, p = .lock m k ∧
  (k.Ends m ∨ ∃ c ready k', k = .wait c m true ready k' ∧ k'.Ends m)

theorem Within.ends (h : p.Within [m]) : (p >>= fun a => unlock m (.ret a)).Ends m :=
  Section.bind (h.mono fun _ _ he => ⟨[], he, rfl⟩)

/-- A scope guarded by `m`. -/
theorem Monitor.withLock (h : p.Within [m]) : (Prog.withLock m p).Monitor m :=
  ⟨_, rfl, .inl h.ends⟩

/-- A scope guarded by `m` that first waits for a while. -/
theorem Monitor.awaitFor {c : χ} {ready : σ → Bool} (h : p.Within [m]) :
    (Prog.withLock m (Prog.awaitFor c m ready >>= fun _ => p)).Monitor m :=
  ⟨_, rfl, .inr ⟨c, ready, _, rfl, h.ends⟩⟩

/-- What is made of the answer afterwards. -/
theorem Monitor.answer (h : p.Monitor m) (f : α → β) :
    (p >>= fun a => (.ret (f a) : Prog σ μ χ β)).Monitor m := by
  have hends : ∀ {k : Prog σ μ χ α}, k.Ends m → (k >>= fun a => (.ret (f a) : Prog σ μ χ β)).Ends m :=
    fun hk => Section.bind (hk.mono fun _ _ => id)
  obtain ⟨k, rfl, hk⟩ := h
  refine ⟨_, rfl, hk.imp hends ?_⟩
  rintro ⟨c, ready, k', rfl, hk'⟩
  exact ⟨c, ready, _, rfl, hends hk'⟩

end Prog

/-! ### Calls one at a time -/

section Linearizable

variable [DecidableEq μ] (entry : κ → Prog σ μ χ ρ) (m : μ)

/-- The calls, the last one in front, run one at a time from `s₀` with these answers and
come to `s`. -/
def Replay (s₀ : σ) : List (κ × ρ) → σ → Prop
  | [], s => s = s₀
  | (c, r) :: order, s => ∃ s', Replay s₀ order s' ∧ (entry c).exec [] s' = .done r s

/-- `order` explains a configuration. It holds the calls that have returned and some of
those that are going on, with all that are about to return; run one at a time from `s₀` they
answer as they did or will; and when the mutex is free they leave the state that is there. -/
structure Explains (s₀ : σ) (cfg : Config σ μ χ ι κ ρ) (order : List (κ × ρ)) : Prop where
  replay : ∃ s, Replay entry s₀ order s ∧ (cfg.owner m = none → cfg.shared = s)
  calls : ∃ pending : List (ι × κ × ρ), (pending.map Prod.fst).Nodup ∧
    (∀ t c r, (t, c, r) ∈ pending → ∃ th, cfg.thread t = some th ∧ th.call = c) ∧
    (∀ t th r, cfg.thread t = some th → th.code = .ret r → (t, th.call, r) ∈ pending) ∧
    order.Perm (pending.map Prod.snd ++ cfg.history)

/-- The whole state as a resource. It is kept with the order of the calls that have taken
effect, each of which has its answer then. -/
def Resource.whole : Resource σ κ ρ (σ × List (κ × ρ)) (Option ρ) where
  start _ := none
  effect c a g a' g' := g = none ∧ ∃ r, g' = some r ∧ (entry c).exec [] a.1 = .done r a'.1 ∧
    a'.2 = (c, r) :: a.2
  finish _ r g := g = some r
  pre _ _ _ := True
  rel s a := s = a.1
  during _ _ _ _ := True
  known _ _ _ := True
  does _ _ _ := True
  env := Eq
  env_refl _ := rfl
  env_trans := Eq.trans
  rel_env h he := he ▸ h

variable {entry m} {s₀ : σ} {c : κ} {cfg : Config σ μ χ ι κ ρ}
  {x y : Sharing ι κ ρ (σ × List (κ × ρ)) (Option ρ)} {held : List μ}

/-- The rest of a critical section takes effect as it would if it ran alone from the state
in which the section began. -/
theorem Prog.Section.serves {k : Prog σ μ χ ρ} {s : σ} {a : σ × List (κ × ρ)}
    (hk : k.Section (fun _ held => held = []) held) (hlast : held.getLast? = some m)
    (hn : held.Nodup) (he : k.exec held s = (entry c).exec [] a.1) :
    k.Serves (Resource.whole entry) m c ((Resource.whole entry).Returns c) none (some (a, s)) := by
  induction k generalizing held s with
  | ret r =>
    rw [show held = [] from hk] at hlast
    cases hlast
  | act f k ih =>
    rintro _ rfl
    exact ⟨trivial, trivial, ih s (hk.2 s) hlast hn he⟩
  | lock m' k ih =>
    obtain ⟨hne, hnot, hk⟩ := hk
    refine ⟨fun hm => hnot (hm ▸ List.mem_of_getLast? hlast), ?_⟩
    rintro _ rfl
    refine ⟨trivial, ih hk ((List.getLast?_cons_of_ne_nil hne).trans hlast) (hn.cons hnot) ?_⟩
    rwa [Prog.exec, if_neg hnot] at he
  | unlock m' k ih =>
    obtain ⟨rest, rfl, hk⟩ := hk
    rw [Prog.exec, List.erase_cons_head] at he
    rintro _ rfl
    cases rest with
    | nil =>
      obtain rfl : m' = m := by simpa using hlast
      obtain ⟨r, rfl⟩ := hk.ret_of_nil
      refine ⟨trivial, fun hne => absurd rfl hne, fun _ => ?_⟩
      exact ⟨(s, (c, r) :: a.2), some r, .inr ⟨rfl, r, rfl, he.symm, rfl⟩, rfl, rfl, rfl⟩
    | cons m'' rest =>
      have hlast : (m'' :: rest).getLast? = some m := hlast
      have hmem := List.mem_of_getLast? hlast
      refine ⟨trivial, fun _ => ih hk hlast hn.of_cons he, ?_⟩
      rintro rfl
      exact absurd hmem (List.nodup_cons.mp hn).1
  | wait cv m' timed ready k ih => exact hk.elim
  | notifyOne cv k ih =>
    rintro _ rfl
    exact ⟨trivial, ih hk.2 hlast hn he⟩

theorem Prog.Monitor.serves (h : (entry c).Monitor m) :
    (entry c).Serves (Resource.whole entry) m c ((Resource.whole entry).Returns c) none none := by
  obtain ⟨k, hk, hbody⟩ := h
  have he : ∀ s, k.exec [m] s = (entry c).exec [] s := fun s => by simp [hk, Prog.exec]
  rw [hk]
  refine ⟨fun hm => absurd rfl hm, ?_⟩
  rintro _ a _ - rfl
  rcases hbody with hends | ⟨cv, ready, k', rfl, hends⟩
  · exact hends.serves (by simp) (by simp) (he a.1)
  · refine ⟨rfl, rfl, ?_⟩
    rintro b _ - rfl -
    apply hends.serves (by simp) (by simp)
    rw [← he b.1]
    simp [Prog.exec]

variable (entry s₀) in
/-- The order that is kept with the state explains the answers: it has the calls that have
returned and those about to, each once. -/
structure Explained (x : Sharing ι κ ρ (σ × List (κ × ρ)) (Option ρ)) : Prop where
  replay : Replay entry s₀ x.resource.2 x.resource.1
  calls : ∃ pending : List (ι × κ × ρ), pending.Nodup ∧
    (∀ t c r, (t, c, r) ∈ pending ↔ x.thread t = some (c, some r)) ∧
    x.resource.2.Perm (pending.map Prod.snd ++ x.history)

theorem Explained.idle : Explained entry s₀ (.idle (s₀, []) : Sharing ι κ ρ _ _) :=
  ⟨rfl, [], .nil, by simp [Sharing.idle], .nil⟩

theorem Resource.Simulates.explains (h : (Resource.whole entry).Simulates m cfg x)
    (hx : Explained entry s₀ x) : Explains entry m s₀ cfg x.resource.2 where
  replay := ⟨_, hx.replay, h.free⟩
  calls := by
    obtain ⟨pending, hn, hmem, hperm⟩ := hx.calls
    refine ⟨pending, ?_, fun t c r hm => ?_, fun t th r ht hr => ?_, h.history ▸ hperm⟩
    · apply hn.map_on
      rintro ⟨t, c, r⟩ h₁ ⟨_, c', r'⟩ h₂ rfl
      have he := ((hmem t c r).mp h₁).symm.trans ((hmem t c' r').mp h₂)
      simp_all
    · rw [hmem] at hm
      cases ht : cfg.thread t with
      | none =>
        rw [h.absent t ht] at hm
        cases hm
      | some th =>
        obtain ⟨g, hg, -⟩ := h.threads t th ht
        rw [hg, Option.some.injEq, Prod.mk.injEq] at hm
        exact ⟨th, rfl, hm.1⟩
    · obtain ⟨g, hg, hp⟩ := h.threads t th ht
      rw [hmem, hg]
      cases hp with
      | inside _ _ hs => exact absurd hr (Resource.not_ret_of_serves hs r)
      | blocked _ _ hcode => rw [hr] at hcode; cases hcode
      | outside _ hs =>
        rw [hr] at hs
        rw [show g = some r from hs.2]

variable [DecidableEq ι]

theorem Explained.call (h : Explained entry s₀ x) {t : ι} (ht : x.thread t = none) (c : κ) :
    Explained entry s₀ (x.call t c none) := by
  obtain ⟨pending, hn, hmem, hperm⟩ := h.calls
  refine ⟨h.replay, pending, hn, fun u d r => ?_, hperm⟩
  rw [hmem, Sharing.call_thread]
  by_cases hut : u = t
  · subst hut
    simp [ht]
  · simp [hut]

/-- The step lemma. -/
theorem Explained.goes (h : Explained entry s₀ x) (hs : Sharing.Goes (Resource.whole entry) x y) :
    Explained entry s₀ y := by
  obtain ⟨pending, hn, hmem, hperm⟩ := h.calls
  cases hs with
  | @effect t c g a g' ht he =>
    obtain ⟨rfl, r, rfl, hexec, horder⟩ := he
    refine ⟨by rw [Sharing.effect_resource, horder]; exact ⟨_, h.replay, hexec⟩, (t, c, r) :: pending,
      ?_, fun u d r' => ?_, ?_⟩
    · refine List.nodup_cons.mpr ⟨fun hm => ?_, hn⟩
      rw [hmem, ht] at hm
      simp at hm
    · rw [List.mem_cons, hmem, Sharing.effect_thread]
      by_cases hut : u = t
      · subst hut
        simp [ht, eq_comm]
      · simp [hut]
    · rw [Sharing.effect_resource, horder]
      exact hperm.cons _
  | @ret t c g r ht hf =>
    classical
    obtain rfl : g = some r := hf
    refine ⟨h.replay, pending.erase (t, c, r), hn.erase _, fun u d r' => ?_, ?_⟩
    · rw [hn.mem_erase_iff, hmem, Sharing.ret_thread]
      by_cases hut : u = t
      · subst hut
        simp [ht, eq_comm]
      · simp [hut]
    · apply hperm.trans
      apply (((List.perm_cons_erase ((hmem t c r).mpr ht)).map Prod.snd).append_right _).trans
      exact List.perm_middle.symm

/-- What has taken effect stays where it is in the order. -/
theorem Sharing.Reaches.order (h : Sharing.Reaches (Resource.whole entry) x y) :
    x.resource.2 <:+ y.resource.2 := by
  induction h with
  | refl => exact List.suffix_rfl
  | tail _ hs ih =>
    rcases hs with ⟨c, ht⟩ | ⟨ht, he⟩ | ⟨ht, hf⟩
    · exact ih
    · obtain ⟨-, r, -, -, horder⟩ := he
      exact ih.trans (horder ▸ List.suffix_cons _ _)
    · exact ih

variable [Fintype ι] [DecidableEq χ]

/-- Calls that do all of their work under one mutex are linearizable: along every run one
order of the calls grows that explains each configuration. A call is not in it before it is made,
and is in it when it has returned. -/
theorem linearizable_of_monitor (hentry : ∀ c, (entry c).Monitor m)
    {run : ℕ → Config σ μ χ ι κ ρ} (hrun : IsRun entry run) (hstart : run 0 = .idle s₀ []) :
    ∃ order : ℕ → List (κ × ρ), (∀ n, Explains entry m s₀ (run n) (order n)) ∧
      ∀ n, order n <:+ order (n + 1) := by
  have hK : (Resource.whole entry).Keeps m (fun (_ : Config σ μ χ ι κ ρ) _ => True) (Explained entry s₀) :=
    ⟨fun _ _ _ c _ h _ ht => h.call ht c, fun _ _ h hs => h.goes hs,
      fun _ _ _ _ _ _ _ _ _ _ => trivial, fun _ _ _ _ _ _ _ _ _ _ _ => trivial⟩
  let Ordered (cfg : Config σ μ χ ι κ ρ) (order : List (κ × ρ)) : Prop :=
    ∃ x, Explained entry s₀ x ∧ (Resource.whole entry).Simulates m cfg x ∧ x.resource.2 = order
  have hidle : Ordered (run 0) [] := ⟨.idle (s₀, []), .idle, hstart ▸ .idle rfl, rfl⟩
  have hstep : ∀ cfg cfg' order, Ordered cfg order → Step entry cfg cfg' →
      ∃ order', Ordered cfg' order' ∧ order <:+ order' := by
    rintro cfg cfg' _ ⟨x, hx, hsim, rfl⟩ hs
    have hreaches : Reaches entry cfg cfg' := .single hs
    obtain ⟨y, hy, hiy, hsim'⟩ := hsim.reaches (fun c => (hentry c).serves) hK hx hreaches.under
    exact ⟨y.resource.2, ⟨y, hiy, hsim', rfl⟩, Sharing.Reaches.order hy⟩
  obtain ⟨order, -, hordered, hgrows⟩ := hrun.exists_along (fun _ => List.suffix_rfl) hstep hidle
  refine ⟨order, fun n => ?_, hgrows⟩
  obtain ⟨x, hx, hsim, he⟩ := hordered n
  exact he ▸ hsim.explains hx

end Linearizable

end Concurrency
