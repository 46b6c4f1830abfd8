import RialtoOcdm.Concurrency.Machine
import Mathlib.Algebra.BigOperators.Group.Finset.Basic
import Mathlib.Algebra.Order.Sub.Basic

/-! Calls that are lent a share of what there is, and give back another. `Owns` is what is
asked of a program: with its share it does right by the state, whatever share the others
have of it. If every call does, then in every interleaving the state agrees with what the
clients have and what the calls under way have. -/

namespace Concurrency

variable {σ μ χ ι κ ρ α β M : Type}

/-- `holds s m` tells that the state `s` agrees with the shares that there are, `m` together.
A call is lent `start`, and gives back `finish` when it returns. -/
structure Lending (σ κ ρ M : Type) where
  holds : σ → M → Prop
  start : κ → M
  finish : κ → ρ → M

namespace Prog

variable [AddCommMonoid M] {I : σ → M → Prop} {p : Prog σ μ χ α} {own : M}
  {Q Q' : α → M → Prop}

/-- A program that has the share `own`, while others have the `rest`. In the end `Q` is true
of its answer and its share. -/
def Owns (I : σ → M → Prop) : Prog σ μ χ α → (α → M → Prop) → M → Prop
  | ret r, Q, own => Q r own
  | act f k, Q, own => ∀ s rest, I s (own + rest) → ∃ own', I (f s) (own' + rest) ∧ (k s).Owns I Q own'
  | lock _ k, Q, own => k.Owns I Q own
  | unlock _ k, Q, own => k.Owns I Q own
  | wait _ _ _ _ k, Q, own => k.Owns I Q own
  | notifyOne _ k, Q, own => k.Owns I Q own

theorem Owns.mono (h : p.Owns I Q own) (hQ : ∀ r own, Q r own → Q' r own) : p.Owns I Q' own := by
  induction p generalizing own with
  | ret r => exact hQ r own h
  | act f k ih =>
    intro s rest hs
    obtain ⟨own', hs', hk⟩ := h s rest hs
    exact ⟨own', hs', ih s hk⟩
  | lock m k ih => exact ih h
  | unlock m k ih => exact ih h
  | wait c m timed ready k ih => exact ih h
  | notifyOne c k ih => exact ih h

/-- Sequencing. -/
theorem Owns.bind {k : α → Prog σ μ χ β} {Q : β → M → Prop}
    (h : p.Owns I (fun r own => (k r).Owns I Q own) own) : (p >>= k).Owns I Q own := by
  induction p generalizing own with
  | ret r => exact h
  | act f k ih =>
    intro s rest hs
    obtain ⟨own', hs', hk⟩ := h s rest hs
    exact ⟨own', hs', ih s hk⟩
  | lock m k ih => exact ih h
  | unlock m k ih => exact ih h
  | wait c m timed ready k ih => exact ih h
  | notifyOne c k ih => exact ih h

end Prog

namespace Lending

variable [Fintype ι] [AddCancelCommMonoid M] (L : Lending σ κ ρ M) {cfg cfg' : Config σ μ χ ι κ ρ}
  {entry : κ → Prog σ μ χ ρ}

/-- What calls have given back. -/
def given (cfg : Config σ μ χ ι κ ρ) : M := (cfg.history.map fun e => L.finish e.1 e.2).sum

/-- What is lent to the call of a thread, if it is in one. -/
def loan (th : Option (Thread σ μ χ κ ρ)) : M := th.elim 0 fun th => L.start th.call

def underWay (thread : ι → Option (Thread σ μ χ κ ρ)) : M := ∑ t, L.loan (thread t)

/-- What calls have been lent, those that have returned and those under way. -/
def lent (cfg : Config σ μ χ ι κ ρ) : M :=
  (cfg.history.map fun e => L.start e.1).sum + L.underWay cfg.thread

/-- The clients have the share `m`. -/
def Have (cfg : Config σ μ χ ι κ ρ) (m : M) : Prop := m + L.lent cfg = L.given cfg

/-- Clients lend what they have. -/
def Covered (cfg : Config σ μ χ ι κ ρ) (b : Action ι κ) : Prop :=
  ∀ t c, b = .call t c → ∃ m, L.Have cfg (m + L.start c)

/-- What a call does with its share is right, and it gives back what it has to. -/
def Runs (th : Thread σ μ χ κ ρ) (own : M) : Prop :=
  th.code.Owns L.holds (fun r own' => own' = L.finish th.call r) own

/-- The clients have `m` and the threads have `own`, which is all there is. -/
structure Shared (cfg : Config σ μ χ ι κ ρ) (m : M) (own : ι → M) : Prop where
  clients : L.Have cfg m
  state : L.holds cfg.shared (m + ∑ t, own t)
  idle : ∀ t, cfg.thread t = none → own t = 0
  code : ∀ t th, cfg.thread t = some th → L.Runs th (own t)

variable {L} {m : M} {own : ι → M} {t : ι} {th : Thread σ μ χ κ ρ}

/-- Nobody has anything yet. -/
theorem Shared.start {s : σ} (hs : L.holds s 0) :
    L.Shared (.idle s [] : Config σ μ χ ι κ ρ) 0 fun _ => 0 where
  clients := by simp [Have, lent, underWay, loan, given, Config.idle]
  state := by simpa [Config.idle] using hs
  idle _ _ := rfl
  code _ _ ht := by cases ht

/-! ### Steps -/

variable [DecidableEq ι]

theorem sum_update {γ : Type} (f : γ → M) (g : ι → γ) (t : ι) (o : γ) :
    ∑ u, f (Function.update g t o u) = f o + ∑ u ∈ Finset.univ.erase t, f (g u) := by
  rw [← Finset.add_sum_erase _ _ (Finset.mem_univ t), Function.update_self]
  congr 1
  exact Finset.sum_congr rfl fun u hu => by rw [Function.update_of_ne (Finset.ne_of_mem_erase hu)]

theorem underWay_update {v : Option (Thread σ μ χ κ ρ)} :
    L.underWay (Function.update cfg.thread t v) + L.loan (cfg.thread t) =
      L.underWay cfg.thread + L.loan v := by
  unfold underWay
  rw [sum_update, ← Finset.add_sum_erase _ (fun u => L.loan (cfg.thread u)) (Finset.mem_univ t)]
  ac_rfl

omit [Fintype ι] in
theorem update_code {o : M} {v : Option (Thread σ μ χ κ ρ)}
    (hothers : ∀ u tu, cfg.thread u = some tu → L.Runs tu (own u))
    (hself : ∀ tu, v = some tu → L.Runs tu o) :
    ∀ u tu, Function.update cfg.thread t v u = some tu → L.Runs tu (Function.update own t o u) := by
  intro u tu hu
  rcases Config.update_eq_some hu with ⟨rfl, hv⟩ | ⟨hut, hu⟩
  · rw [Function.update_self]
    exact hself tu hv
  · rw [Function.update_of_ne hut]
    exact hothers u tu hu

omit [Fintype ι] in
theorem update_idle {o : M} {v : Option (Thread σ μ χ κ ρ)}
    (hothers : ∀ u, cfg.thread u = none → own u = 0) (hself : v = none → o = 0) :
    ∀ u, Function.update cfg.thread t v u = none → Function.update own t o u = 0 := by
  intro u hu
  by_cases hut : u = t
  · subst hut
    rw [Function.update_self] at hu ⊢
    exact hself hu
  · rw [Function.update_of_ne hut] at hu ⊢
    exact hothers u hu

/-- A thread goes on in its call, with another share of the state. -/
theorem Shared.goes (h : L.Shared cfg m own) (ht : cfg.thread t = some th) (th' : Thread σ μ χ κ ρ)
    (owner : μ → Option ι) (hcall : th'.call = th.call) {s : σ} {o : M}
    (hs : L.holds s (m + (o + ∑ u ∈ Finset.univ.erase t, own u))) (hruns : L.Runs th' o) :
    L.Shared { cfg.put t th' with shared := s, owner := owner } m (Function.update own t o) where
  clients := by
    have hway : L.underWay (cfg.put t th').thread + L.loan (cfg.thread t) = _ := underWay_update
    rw [ht, loan, loan, Option.elim_some, Option.elim_some, hcall, add_left_inj] at hway
    have hclients := h.clients
    rw [Have, lent] at hclients ⊢
    exact (congrArg (fun x => m + (_ + x)) hway).trans hclients
  state := by rwa [sum_update fun o : M => o]
  idle := update_idle h.idle (by simp)
  code := update_code h.code fun tu he => Option.some.inj he ▸ hruns

/-- A thread goes on in its call, with the share that it has. -/
theorem Shared.stays (h : L.Shared cfg m own) (ht : cfg.thread t = some th) {th' : Thread σ μ χ κ ρ}
    {owner : μ → Option ι} (hcall : th'.call = th.call)
    (hcode : ∀ Q : ρ → M → Prop, th.code.Owns L.holds Q (own t) → th'.code.Owns L.holds Q (own t)) :
    L.Shared { cfg.put t th' with owner := owner } m own := by
  have hruns : L.Runs th' (own t) := by
    unfold Runs
    rw [hcall]
    exact hcode _ (h.code t th ht)
  have hs := h.state
  rw [← Finset.add_sum_erase _ _ (Finset.mem_univ t)] at hs
  have hgoes := h.goes ht th' owner hcall hs hruns
  rwa [Function.update_eq_self] at hgoes

theorem Shared.acts (h : L.Shared cfg m own) (ht : cfg.thread t = some th) {f : σ → σ}
    {k : σ → Prog σ μ χ ρ} (hcode : th.code = .act f k) :
    ∃ o, L.Shared { cfg.put t { th with code := k cfg.shared } with shared := f cfg.shared } m
      (Function.update own t o) := by
  have hruns := h.code t th ht
  have hs := h.state
  rw [Runs, hcode] at hruns
  rw [← Finset.add_sum_erase _ _ (Finset.mem_univ t), add_left_comm] at hs
  obtain ⟨o, ho, hk⟩ := hruns cfg.shared _ hs
  rw [add_left_comm] at ho
  exact ⟨o, h.goes ht { th with code := k cfg.shared } cfg.owner rfl ho hk⟩

theorem Shared.calls (h : L.Shared cfg m own) {c : κ} {m' : M} (hm : L.Have cfg (m' + L.start c))
    (ht : cfg.thread t = none)
    (hentry : (entry c).Owns L.holds (fun r own' => own' = L.finish c r) (L.start c)) :
    L.Shared (cfg.put t ⟨c, entry c, [], false⟩) m' (Function.update own t (L.start c)) where
  clients := by
    have hway : L.underWay (cfg.put t ⟨c, entry c, [], false⟩).thread + L.loan (cfg.thread t) = _ :=
      underWay_update
    rw [ht, loan, loan, Option.elim_none, Option.elim_some, add_zero] at hway
    rw [Have, lent] at hm ⊢
    rw [hway]
    refine Eq.trans ?_ hm
    rw [Config.put_history]
    ac_rfl
  state := by
    have hlends : m = m' + L.start c := add_right_cancel (h.clients.trans hm.symm)
    have hs := h.state
    rw [← Finset.add_sum_erase _ _ (Finset.mem_univ t), h.idle t ht, zero_add, hlends, add_assoc] at hs
    rwa [sum_update fun o : M => o]
  idle := update_idle h.idle (by simp)
  code := update_code h.code fun tu he => Option.some.inj he ▸ hentry

theorem Shared.returns (h : L.Shared cfg m own) (ht : cfg.thread t = some th) {r : ρ}
    (hcode : th.code = .ret r) :
    L.Shared { cfg with thread := Function.update cfg.thread t none, history := (th.call, r) :: cfg.history }
      (m + L.finish th.call r) (Function.update own t 0) where
  clients := by
    have hway : L.underWay (Function.update cfg.thread t none) + L.loan (cfg.thread t) = _ :=
      underWay_update
    rw [ht, loan, loan, Option.elim_none, Option.elim_some, add_zero] at hway
    have hclients := h.clients
    simp only [Have, lent, given, List.map_cons, List.sum_cons] at hclients ⊢
    rw [← hclients, ← hway]
    ac_rfl
  state := by
    have hruns := h.code t th ht
    rw [Runs, hcode] at hruns
    have hs := h.state
    rw [← Finset.add_sum_erase _ _ (Finset.mem_univ t), show own t = _ from hruns, ← add_assoc] at hs
    rwa [sum_update fun o : M => o, zero_add]
  idle := update_idle h.idle fun _ => rfl
  code := update_code h.code (by simp)

omit [Fintype ι] [DecidableEq ι] in
/-- A thread that wakes up has to take its mutex first, which is nothing to its share. -/
theorem wake_code {Q : ρ → M → Prop} {o : M} (h : th.code.Owns L.holds Q o) :
    th.wake.code.Owns L.holds Q o := by
  unfold Thread.wake
  split <;> exact h

variable [DecidableEq μ] [DecidableEq χ]

/-- The step lemma. -/
theorem Shared.step (hentry : ∀ c, (entry c).Owns L.holds (fun r own' => own' = L.finish c r) (L.start c))
    (h : L.Shared cfg m own) {b : Action ι κ} (hb : L.Covered cfg b)
    (hp : perform entry cfg b = some cfg') : ∃ m' own', L.Shared cfg' m' own' := by
  cases moves_of_perform hp with
  | call t c ht =>
    obtain ⟨m', hm'⟩ := hb t c rfl
    exact ⟨_, _, h.calls hm' ht (hentry c)⟩
  | ret ht _ hcode => exact ⟨_, _, h.returns ht hcode⟩
  | act ht _ hcode =>
    obtain ⟨o, ho⟩ := h.acts ht hcode
    exact ⟨_, _, ho⟩
  | lock ht _ hcode =>
    exact ⟨m, own, h.stays ht (by rfl) fun Q hQ => by rw [hcode] at hQ; exact hQ⟩
  | unlock ht _ hcode =>
    exact ⟨m, own, h.stays ht (by rfl) fun Q hQ => by rw [hcode] at hQ; exact hQ⟩
  | goOn ht _ hcode =>
    exact ⟨m, own, h.stays ht (by rfl) fun Q hQ => by rw [hcode] at hQ; exact hQ⟩
  | block ht => exact ⟨m, own, h.stays ht (by rfl) fun Q hQ => by exact hQ⟩
  | notifyNobody ht _ hcode =>
    exact ⟨m, own, h.stays ht (by rfl) fun Q hQ => by rw [hcode] at hQ; exact hQ⟩
  | @notify t u th tu c k ht hrun hcode hu hw =>
    have hstays : L.Shared (cfg.put t { th with code := k }) m own :=
      h.stays ht (by rfl) fun Q hQ => by rw [hcode] at hQ; exact hQ
    have hu' : (cfg.put t { th with code := k }).thread u = some tu := by
      rwa [Config.put_of_ne _ _ (Thread.ne_of_waitsOn ht hrun hu hw)]
    exact ⟨m, own, hstays.stays hu' (Thread.wake_call _) fun Q => wake_code⟩
  | wake ht => exact ⟨m, own, h.stays ht (Thread.wake_call _) fun Q => wake_code⟩
  | timeout ht _ hcode =>
    exact ⟨m, own, h.stays ht (by rfl) fun Q hQ => by rw [hcode] at hQ; exact hQ⟩

/-- The run lemma: in any interleaving the state agrees with the shares of all. -/
theorem Shared.reaches (hentry : ∀ c, (entry c).Owns L.holds (fun r own' => own' = L.finish c r) (L.start c))
    (h : L.Shared cfg m own) (hr : ReachesUnder L.Covered entry cfg cfg') :
    ∃ m' own', L.Shared cfg' m' own' := by
  induction hr with
  | refl => exact ⟨m, own, h⟩
  | tail _ hstep ih =>
    obtain ⟨m', own', h'⟩ := ih
    obtain ⟨b, hb, hp⟩ := hstep
    exact h'.step hentry hb hp

end Lending

end Concurrency
