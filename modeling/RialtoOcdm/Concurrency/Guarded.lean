import RialtoOcdm.Concurrency.Progress

/-! Calls that are made under a mutex of their own, which none of the code uses. Where
such calls do not overlap anyway the mutex makes no difference. -/

namespace Concurrency

variable {σ μ χ ι κ ρ α β : Type}

namespace Prog

/-- The code has nothing to do with the mutex. -/
def Avoids (m₀ : μ) : Prog σ μ χ α → Prop
  | ret _ => True
  | act _ k => ∀ s, (k s).Avoids m₀
  | lock m k | unlock m k | wait _ m _ _ k => m ≠ m₀ ∧ k.Avoids m₀
  | notifyOne _ k => k.Avoids m₀

variable {U : Usage σ μ χ} {p : Prog σ μ χ α} {Q : α → List μ → Prop} {held : List μ} {m₀ : μ}

/-- Code that does not ask for a mutex has nothing to do with it. -/
theorem Abides.avoids (h : p.Abides U Q held) (hU : ∀ held, ¬ U.asks held m₀) (hheld : m₀ ∉ held) :
    p.Avoids m₀ := by
  induction p generalizing held with
  | ret a => trivial
  | act f k ih => exact fun s => ih s (h s) hheld
  | lock m k ih =>
    have hm : m ≠ m₀ := fun he => hU held (he ▸ h.1)
    exact ⟨hm, ih h.2 (by simp [hm.symm, hheld])⟩
  | unlock m k ih =>
    obtain ⟨rest, rfl, hk⟩ := h
    rw [List.mem_cons, not_or] at hheld
    exact ⟨Ne.symm hheld.1, ih hk hheld.2⟩
  | wait c m timed ready k ih =>
    obtain ⟨-, hm, -, hk⟩ := h
    exact ⟨fun he => hU [] (he ▸ hm), ih hk hheld⟩
  | notifyOne c k ih => exact ih h hheld

end Prog

/-- Some calls are made under a mutex. -/
def guarded (g : κ → Bool) (m₀ : μ) (entry : κ → Prog σ μ χ ρ) (c : κ) : Prog σ μ χ ρ :=
  if g c then .withLock m₀ (entry c) else entry c

/-- Calls under the mutex do not overlap. -/
def TakesTurns (g : κ → Bool) (cfg : Config σ μ χ ι κ ρ) : Action ι κ → Prop
  | .call _ c => g c = true → ∀ t th, cfg.thread t = some th → g th.call = false
  | _ => True

variable {g : κ → Bool} {m₀ : μ} {entry : κ → Prog σ μ χ ρ}

/-- What a call comes to when it gives the mutex back at its end. -/
def finish (g : κ → Bool) (m₀ : μ) (c : κ) (p : Prog σ μ χ ρ) : Prog σ μ χ ρ :=
  if g c then p >>= fun r => .unlock m₀ (.ret r) else p

/-- A thread in a call under the mutex, and in the call itself. -/
structure Thread.Guards (g : κ → Bool) (m₀ : μ) (th tp : Thread σ μ χ κ ρ) : Prop where
  call : th.call = tp.call
  code : th.code = finish g m₀ tp.call tp.code
  blocked : th.blocked = tp.blocked
  avoids : tp.code.Avoids m₀

/-- The calls of `x` that are to be made under the mutex are, and hold it. -/
structure Guards (g : κ → Bool) (m₀ : μ) (x y : Config σ μ χ ι κ ρ) : Prop where
  shared : x.shared = y.shared
  history : x.history = y.history
  owner : ∀ m, m ≠ m₀ → x.owner m = y.owner m
  thread : ∀ t, Option.Rel (Thread.Guards g m₀) (x.thread t) (y.thread t)
  turn : ∀ t, x.owner m₀ = some t ↔ ∃ tp, y.thread t = some tp ∧ g tp.call = true

variable {x y x' y' : Config σ μ χ ι κ ρ}

section Finish

variable {c : κ} {m : μ} {q : Prog σ μ χ ρ}

@[simp] theorem finish_act (f : σ → σ) (k : σ → Prog σ μ χ ρ) :
    finish g m₀ c (.act f k) = .act f fun s => finish g m₀ c (k s) := by
  unfold finish
  split_ifs <;> rfl

@[simp] theorem finish_lock : finish g m₀ c (.lock m q) = .lock m (finish g m₀ c q) := by
  unfold finish
  split_ifs <;> rfl

@[simp] theorem finish_unlock : finish g m₀ c (.unlock m q) = .unlock m (finish g m₀ c q) := by
  unfold finish
  split_ifs <;> rfl

@[simp] theorem finish_wait (cv : χ) (timed : Bool) (ready : σ → Bool) :
    finish g m₀ c (.wait cv m timed ready q) = .wait cv m timed ready (finish g m₀ c q) := by
  unfold finish
  split_ifs <;> rfl

@[simp] theorem finish_notifyOne (cv : χ) :
    finish g m₀ c (.notifyOne cv q) = .notifyOne cv (finish g m₀ c q) := by
  unfold finish
  split_ifs <;> rfl

end Finish

theorem Thread.Guards.waitsOn [DecidableEq χ] {th tp : Thread σ μ χ κ ρ} (h : th.Guards g m₀ tp) (cv : χ) :
    th.waitsOn cv = tp.waitsOn cv := by
  unfold Thread.waitsOn
  rw [h.code, h.blocked]
  cases tp.code with
  | ret r => unfold finish; split_ifs <;> rfl
  | _ => simp

theorem Thread.wake_eq_self {th : Thread σ μ χ κ ρ}
    (h : ∀ cv m timed ready k, th.code ≠ .wait cv m timed ready k) : th.wake = th := by
  unfold Thread.wake
  split
  · next hcode => exact absurd hcode (h _ _ _ _ _)
  · rfl

theorem Thread.Guards.wake {th tp : Thread σ μ χ κ ρ} (h : th.Guards g m₀ tp) :
    th.wake.Guards g m₀ tp.wake := by
  cases hp : tp.code with
  | wait cv m timed ready k =>
    have hth : th.code = .wait cv m timed ready (finish g m₀ tp.call k) := by rw [h.code, hp, finish_wait]
    have havoids := h.avoids
    rw [hp] at havoids
    simp only [Thread.wake, hth, hp]
    exact ⟨h.call, by simp, rfl, havoids.1, havoids⟩
  | _ =>
    have hth : ∀ cv m timed ready k, th.code ≠ .wait cv m timed ready k := by
      rw [h.code, hp]
      unfold finish
      split_ifs <;> exact fun _ _ _ _ _ he => by cases he
    rw [Thread.wake_eq_self hth, Thread.wake_eq_self fun _ _ _ _ _ he => by rw [hp] at he; cases he]
    exact h

theorem Guards.exists_thread (h : Guards g m₀ x y) {t : ι} {tp : Thread σ μ χ κ ρ}
    (ht : y.thread t = some tp) : ∃ th, x.thread t = some th ∧ th.Guards g m₀ tp := by
  have := h.thread t
  rw [ht] at this
  cases hx : x.thread t with
  | none =>
    rw [hx] at this
    cases this
  | some th =>
    rw [hx] at this
    cases this with
    | some hth => exact ⟨th, rfl, hth⟩

theorem Guards.exists_call (h : Guards g m₀ x y) {t : ι} {th : Thread σ μ χ κ ρ}
    (ht : x.thread t = some th) : ∃ tp, y.thread t = some tp ∧ th.Guards g m₀ tp := by
  have := h.thread t
  rw [ht] at this
  cases hy : y.thread t with
  | none =>
    rw [hy] at this
    cases this
  | some tp =>
    rw [hy] at this
    cases this with
    | some hth => exact ⟨tp, rfl, hth⟩

theorem Guards.eq_none (h : Guards g m₀ x y) {t : ι} (ht : y.thread t = none) : x.thread t = none := by
  have := h.thread t
  rw [ht] at this
  cases hx : x.thread t with
  | none => rfl
  | some th =>
    rw [hx] at this
    cases this

section Step

variable [DecidableEq ι]

theorem rel_update {α α' : Type} {r : α → α' → Prop} {f : ι → Option α} {f' : ι → Option α'}
    (h : ∀ u, Option.Rel r (f u) (f' u)) {o : Option α} {o' : Option α'} (ho : Option.Rel r o o') (t u : ι) :
    Option.Rel r (Function.update f t o u) (Function.update f' t o' u) := by
  by_cases hu : u = t
  · subst hu
    simpa using ho
  · simpa [hu] using h u

/-- Thread `t` goes on in its call. -/
theorem Guards.put (h : Guards g m₀ x y) {t : ι} {th' tp tp' : Thread σ μ χ κ ρ}
    (ht : y.thread t = some tp) (hx : x'.thread = Function.update x.thread t (some th'))
    (hy : y'.thread = Function.update y.thread t (some tp')) (hth : th'.Guards g m₀ tp')
    (hcall : tp'.call = tp.call) (hs : x'.shared = y'.shared) (hh : x'.history = y'.history)
    (ho : ∀ m, m ≠ m₀ → x'.owner m = y'.owner m) (ho₀ : x'.owner m₀ = x.owner m₀) :
    Guards g m₀ x' y' := by
  refine ⟨hs, hh, ho, fun u => ?_, fun u => ?_⟩
  · rw [hx, hy]
    exact rel_update h.thread (.some hth) t u
  · rw [ho₀, h.turn u, hy]
    by_cases hu : u = t
    · subst hu
      simp [ht, hcall]
    · simp [hu]

variable [DecidableEq μ]

omit [DecidableEq ι] in
theorem Guards.owner_update (h : Guards g m₀ x y) (m : μ) (o : Option ι) :
    ∀ l, l ≠ m₀ → Function.update x.owner m o l = Function.update y.owner m o l := fun l hl => by
  simp only [Function.update_apply, h.owner l hl]

variable [DecidableEq χ] [Fintype ι]

/-- A call under the mutex gets it at once when nobody has it. -/
theorem reaches_call {t : ι} {c : κ} (hx : x.thread t = none) (hfree : x.owner m₀ = none)
    (hc : g c = true) : Reaches (guarded g m₀ entry) x
      { x.put t ⟨c, finish g m₀ c (entry c), [m₀], false⟩ with
        owner := Function.update x.owner m₀ (some t) } := by
  refine .tail (.single ⟨.call t c, perform_of_moves (.call t c hx)⟩) ⟨.run t, ?_⟩
  simp [perform, runThread, guarded, finish, hc, Prog.withLock, Config.put, hfree]

/-- It gives the mutex back, and returns. -/
theorem reaches_ret {t : ι} {th : Thread σ μ χ κ ρ} {r : ρ} (hx : x.thread t = some th)
    (hb : th.blocked = false) (hcode : th.code = .unlock m₀ (.ret r)) (howner : x.owner m₀ = some t) :
    Reaches (guarded g m₀ entry) x { x with
      owner := Function.update x.owner m₀ none, thread := Function.update x.thread t none
      history := (th.call, r) :: x.history } := by
  refine .tail (.single ⟨.run t, perform_of_moves (.unlock hx hb hcode howner)⟩) ⟨.run t, ?_⟩
  simp [perform, runThread, Config.put, hb]

theorem reaches_of_moves {a : Action ι κ} (hm : Moves (guarded g m₀ entry) x a x') :
    Reaches (guarded g m₀ entry) x x' := .single ⟨a, perform_of_moves hm⟩

/-- A call is made, under the mutex if it is one of those. -/
theorem Guards.call (h : Guards g m₀ x y) {t : ι} {c : κ} (hentry : (entry c).Avoids m₀)
    (hturn : g c = true → ∀ t th, y.thread t = some th → g th.call = false) (ht : y.thread t = none) :
    ∃ x', Reaches (guarded g m₀ entry) x x' ∧ Guards g m₀ x' (y.put t ⟨c, entry c, [], false⟩) := by
  have hx := h.eq_none ht
  cases hc : g c with
  | false =>
    have hcode : guarded g m₀ entry c = finish g m₀ c (entry c) := by simp [guarded, finish, hc]
    have hth : Thread.Guards g m₀ ⟨c, guarded g m₀ entry c, [], false⟩ ⟨c, entry c, [], false⟩ :=
      ⟨rfl, hcode, rfl, hentry⟩
    refine ⟨_, reaches_of_moves (.call t c hx), h.shared, h.history, h.owner,
      rel_update h.thread (.some hth) t, fun u => (h.turn u).trans ?_⟩
    by_cases hu : u = t
    · subst hu
      simp [ht, hc]
    · simp [Config.put_of_ne _ _ hu]
  | true =>
    have hfree : ∀ u, x.owner m₀ ≠ some u := fun u ho => by
      obtain ⟨tu, htu, hgu⟩ := (h.turn u).mp ho
      rw [hturn hc u tu htu] at hgu
      cases hgu
    have hth : Thread.Guards g m₀ ⟨c, finish g m₀ c (entry c), [m₀], false⟩ ⟨c, entry c, [], false⟩ :=
      ⟨rfl, rfl, rfl, hentry⟩
    refine ⟨_, reaches_call hx (Option.eq_none_iff_forall_ne_some.mpr hfree) hc, h.shared, h.history,
      fun m hm => (Function.update_of_ne hm _ _).trans (h.owner m hm),
      rel_update h.thread (.some hth) t, fun u => ?_⟩
    by_cases hu : u = t
    · subst hu
      simp [hc]
    · have := mt (h.turn u).mpr (hfree u)
      simpa [Config.put_of_ne _ _ hu, Ne.symm hu] using this

/-- A call returns, with the mutex given back if it had it. -/
theorem Guards.ret (h : Guards g m₀ x y) {t : ι} {tp : Thread σ μ χ κ ρ} {r : ρ} (ht : y.thread t = some tp)
    (hb : tp.blocked = false) (hcode : tp.code = .ret r) :
    ∃ x', Reaches (guarded g m₀ entry) x x' ∧ Guards g m₀ x' { y with
      thread := Function.update y.thread t none, history := (tp.call, r) :: y.history } := by
  obtain ⟨th, hth, hg⟩ := h.exists_thread ht
  have hhistory : (th.call, r) :: x.history = (tp.call, r) :: y.history := by rw [hg.call, h.history]
  cases hc : g tp.call with
  | false =>
    have hcode' : th.code = .ret r := by rw [hg.code, hcode]; simp [finish, hc]
    refine ⟨_, reaches_of_moves (.ret hth (hg.blocked.trans hb) hcode'), h.shared, hhistory, h.owner,
      rel_update h.thread .none t, fun u => (h.turn u).trans ?_⟩
    by_cases hu : u = t
    · subst hu
      simp [ht, hc]
    · simp [hu]
  | true =>
    have hcode' : th.code = .unlock m₀ (.ret r) := by rw [hg.code, hcode]; simp [finish, hc]
    have howner : x.owner m₀ = some t := (h.turn t).mpr ⟨tp, ht, hc⟩
    refine ⟨_, reaches_ret hth (hg.blocked.trans hb) hcode' howner, h.shared, hhistory,
      fun m hm => (Function.update_of_ne hm _ _).trans (h.owner m hm), rel_update h.thread .none t,
      fun u => ?_⟩
    by_cases hu : u = t
    · subst hu
      simp
    · have : x.owner m₀ ≠ some u := by simp [howner, Ne.symm hu]
      simpa [hu] using mt (h.turn u).mpr this

/-- The step lemma. A call under the mutex gets it at once, and gives it back at its end. -/
theorem Guards.step (h : Guards g m₀ x y) (hentry : ∀ c, (entry c).Avoids m₀) {a : Action ι κ}
    (hturn : TakesTurns g y a) (hm : Moves entry y a y') :
    ∃ x', Reaches (guarded g m₀ entry) x x' ∧ Guards g m₀ x' y' := by
  cases hm with
  | call t c ht => exact h.call (hentry c) hturn ht
  | ret ht hb hcode => exact h.ret ht hb hcode
  | @act t tp f k ht hb hcode =>
    obtain ⟨th, hth, hg⟩ := h.exists_thread ht
    have hcode' : th.code = .act f fun s => finish g m₀ tp.call (k s) := by rw [hg.code, hcode, finish_act]
    have havoids := hg.avoids
    rw [hcode] at havoids
    have hnext : finish g m₀ tp.call (k x.shared) = finish g m₀ tp.call (k y.shared) := by rw [h.shared]
    exact ⟨_, reaches_of_moves (.act hth (hg.blocked.trans hb) hcode'), h.put ht rfl rfl
      ⟨hg.call, hnext, hg.blocked, havoids y.shared⟩ rfl (congrArg f h.shared) h.history h.owner rfl⟩
  | @lock t tp m k ht hb hcode hfree =>
    obtain ⟨th, hth, hg⟩ := h.exists_thread ht
    have hcode' : th.code = .lock m (finish g m₀ tp.call k) := by rw [hg.code, hcode, finish_lock]
    obtain ⟨hne, havoids⟩ : m ≠ m₀ ∧ k.Avoids m₀ := by simpa [hcode, Prog.Avoids] using hg.avoids
    refine ⟨_, reaches_of_moves (.lock hth (hg.blocked.trans hb) hcode' ((h.owner m hne).trans hfree)),
      h.put ht rfl rfl ⟨hg.call, rfl, hg.blocked, havoids⟩ rfl h.shared h.history (fun l hl => ?_) ?_⟩
    · exact h.owner_update m (some t) l hl
    · exact Function.update_of_ne hne.symm _ _
  | @unlock t tp m k ht hb hcode howner =>
    obtain ⟨th, hth, hg⟩ := h.exists_thread ht
    have hcode' : th.code = .unlock m (finish g m₀ tp.call k) := by rw [hg.code, hcode, finish_unlock]
    obtain ⟨hne, havoids⟩ : m ≠ m₀ ∧ k.Avoids m₀ := by simpa [hcode, Prog.Avoids] using hg.avoids
    refine ⟨_, reaches_of_moves (.unlock hth (hg.blocked.trans hb) hcode' ((h.owner m hne).trans howner)),
      h.put ht rfl rfl ⟨hg.call, rfl, hg.blocked, havoids⟩ rfl h.shared h.history (fun l hl => ?_) ?_⟩
    · exact h.owner_update m none l hl
    · exact Function.update_of_ne hne.symm _ _
  | @goOn t tp cv m timed ready k ht hb hcode hready =>
    obtain ⟨th, hth, hg⟩ := h.exists_thread ht
    have hcode' : th.code = .wait cv m timed ready (finish g m₀ tp.call k) := by rw [hg.code, hcode, finish_wait]
    obtain ⟨hne, havoids⟩ : m ≠ m₀ ∧ k.Avoids m₀ := by simpa [hcode, Prog.Avoids] using hg.avoids
    exact ⟨_, reaches_of_moves (.goOn hth (hg.blocked.trans hb) hcode' (h.shared ▸ hready)),
      h.put ht rfl rfl ⟨hg.call, rfl, hg.blocked, havoids⟩ rfl h.shared h.history h.owner rfl⟩
  | @block t tp cv m timed ready k ht hb hcode hready howner =>
    obtain ⟨th, hth, hg⟩ := h.exists_thread ht
    have hcode' : th.code = .wait cv m timed ready (finish g m₀ tp.call k) := by rw [hg.code, hcode, finish_wait]
    obtain ⟨hne, -⟩ : m ≠ m₀ ∧ k.Avoids m₀ := by simpa [hcode, Prog.Avoids] using hg.avoids
    have howner' : x.owner m = some t := (h.owner m hne).trans howner
    refine ⟨_, reaches_of_moves (.block hth (hg.blocked.trans hb) hcode' (h.shared ▸ hready) howner'),
      h.put ht rfl rfl ⟨hg.call, hg.code, rfl, hg.avoids⟩ rfl h.shared h.history (fun l hl => ?_) ?_⟩
    · exact h.owner_update m none l hl
    · exact Function.update_of_ne hne.symm _ _
  | @notifyNobody t tp cv k ht hb hcode hn =>
    obtain ⟨th, hth, hg⟩ := h.exists_thread ht
    have hcode' : th.code = .notifyOne cv (finish g m₀ tp.call k) := by rw [hg.code, hcode, finish_notifyOne]
    have havoids := hg.avoids
    rw [hcode] at havoids
    have hnobody : ∀ u tu, x.thread u = some tu → tu.waitsOn cv = false := fun u tu hu => by
      obtain ⟨tv, hv, hgu⟩ := h.exists_call hu
      rw [hgu.waitsOn]
      exact hn u tv hv
    exact ⟨_, reaches_of_moves (.notifyNobody hth (hg.blocked.trans hb) hcode' hnobody), h.put ht rfl rfl
      ⟨hg.call, rfl, hg.blocked, havoids⟩ rfl h.shared h.history h.owner rfl⟩
  | @notify t u tp tu cv k ht hb hcode hu hw =>
    obtain ⟨th, hth, hg⟩ := h.exists_thread ht
    obtain ⟨tv, htv, hgu⟩ := h.exists_thread hu
    have hcode' : th.code = .notifyOne cv (finish g m₀ tp.call k) := by rw [hg.code, hcode, finish_notifyOne]
    have havoids := hg.avoids
    rw [hcode] at havoids
    have hput : Guards g m₀ (x.put t { th with code := finish g m₀ tp.call k }) (y.put t { tp with code := k }) :=
      h.put ht rfl rfl ⟨hg.call, rfl, hg.blocked, havoids⟩ rfl h.shared h.history h.owner rfl
    have hne : u ≠ t := Thread.ne_of_waitsOn ht hb hu hw
    exact ⟨_, reaches_of_moves (.notify hth (hg.blocked.trans hb) hcode' htv ((hgu.waitsOn cv).trans hw)),
      hput.put ((Config.put_of_ne _ _ hne).trans hu) rfl rfl hgu.wake tu.wake_call hput.shared hput.history
        hput.owner rfl⟩
  | @wake t tp ht hb =>
    obtain ⟨th, hth, hg⟩ := h.exists_thread ht
    exact ⟨_, reaches_of_moves (.wake hth (hg.blocked.trans hb)),
      h.put ht rfl rfl hg.wake tp.wake_call h.shared h.history h.owner rfl⟩
  | @timeout t tp cv m ready k ht hb hcode =>
    obtain ⟨th, hth, hg⟩ := h.exists_thread ht
    have hcode' : th.code = .wait cv m true ready (finish g m₀ tp.call k) := by rw [hg.code, hcode, finish_wait]
    have havoids := hg.avoids
    rw [hcode] at havoids
    exact ⟨_, reaches_of_moves (.timeout hth (hg.blocked.trans hb) hcode'), h.put ht rfl rfl
      ⟨hg.call, (finish_lock ..).symm, rfl, havoids⟩ rfl h.shared h.history h.owner rfl⟩

/-- The run lemma. Calls that do not overlap can as well be made under a mutex. -/
theorem exists_guards (m₀ : μ) (hentry : ∀ c, (entry c).Avoids m₀) {s : σ} {l : List (κ × ρ)}
    (h : ReachesUnder (TakesTurns g) entry (.idle s l) y) :
    ∃ x, Reaches (guarded g m₀ entry) (.idle s l) x ∧ Guards g m₀ x y := by
  induction h with
  | refl => exact ⟨.idle s l, .refl, rfl, rfl, fun _ _ => rfl, fun _ => .none, fun _ => by simp [Config.idle]⟩
  | tail _ hstep ih =>
    obtain ⟨a, hturn, ha⟩ := hstep
    obtain ⟨x, hx, hg⟩ := ih
    obtain ⟨x', hx', hg'⟩ := hg.step hentry hturn (moves_of_perform ha)
    exact ⟨x', hx.trans hx', hg'⟩

end Step

end Concurrency
