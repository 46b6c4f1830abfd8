import RialtoOcdm.Concurrency.Signals

/-! Waiters that are left behind. Some calls close what other threads wait for: they
clear it, and nothing signals it from then on. Nobody is left behind as long as no
thread is bound to wait when it is cleared, and none comes to be bound to wait later. -/

namespace Concurrency

variable {σ μ χ ι κ ρ α β : Type}

namespace Prog

/-- The program waits on `c` whatever happens. -/
def WillWait (c : χ) : Prog σ μ χ α → Prop
  | ret _ => False
  | act _ k => ∀ s, (k s).WillWait c
  | lock _ k => k.WillWait c
  | unlock _ k => k.WillWait c
  | wait c' _ _ _ k => c' = c ∨ k.WillWait c
  | notifyOne _ k => k.WillWait c

/-- The program takes a step of `J` before it returns what satisfies `Q`. -/
def Passes (J : σ → σ → Prop) (Q : α → Prop) : Prog σ μ χ α → Prop
  | ret a => ¬ Q a
  | act f k => ∀ s, J s (f s) ∨ (k s).Passes J Q
  | lock _ k => k.Passes J Q
  | unlock _ k => k.Passes J Q
  | wait _ _ _ _ k => k.Passes J Q
  | notifyOne _ k => k.Passes J Q

variable {c : χ} {p : Prog σ μ χ α} {J : σ → σ → Prop} {Q : α → Prop}

theorem WillWait.mayWait [Nonempty σ] (h : p.WillWait c) : p.MayWait c := by
  induction p with
  | ret a => exact h
  | act f k ih =>
    obtain ⟨s⟩ := ‹Nonempty σ›
    exact ⟨s, ih s (h s)⟩
  | lock m k ih => exact ih h
  | unlock m k ih => exact ih h
  | wait c' m timed ready k ih => exact h.imp_right ih
  | notifyOne c' k ih => exact ih h

theorem Passes.bind {g : α → Prog σ μ χ β} {Q' : β → Prop} (hp : p.Passes J Q)
    (hg : ∀ a, ¬ Q a → (g a).Passes J Q') : (p >>= g).Passes J Q' := by
  induction p with
  | ret a => exact hg a hp
  | act f k ih => exact fun s => (hp s).imp_right (ih s)
  | lock m k ih => exact ih hp
  | unlock m k ih => exact ih hp
  | wait c' m timed ready k ih => exact ih hp
  | notifyOne c' k ih => exact ih hp

/-- Nothing is asked of a program that returns nothing of the kind. -/
theorem passes_false (p : Prog σ μ χ α) : p.Passes J fun _ => False := by
  induction p with
  | ret a => exact id
  | act f k ih => exact fun s => .inr (ih s)
  | lock m k ih => exact ih
  | unlock m k ih => exact ih
  | wait c' m timed ready k ih => exact ih
  | notifyOne c' k ih => exact ih

/-- The last part takes the step. -/
theorem passes_bind (p : Prog σ μ χ α) {g : α → Prog σ μ χ β} {Q' : β → Prop}
    (hg : ∀ a, (g a).Passes J Q') : (p >>= g).Passes J Q' :=
  (passes_false p).bind fun a _ => hg a

/-- The first step is the one. -/
theorem passes_modify {f : σ → σ} (hf : ∀ s, J s (f s)) {g : Unit → Prog σ μ χ β} {Q' : β → Prop} :
    (modify f >>= g).Passes J Q' := fun s => .inl (hf s)

end Prog

/-- Calls that close something, what they return when they have, the step that clears
what is waited for, and when it counts as closed. -/
structure Closing (σ κ ρ : Type) where
  closes : κ → Prop
  done : ρ → Prop
  clears : σ → σ → Prop
  closed : List (κ × ρ) → Prop
  closed_nil : ¬ closed []
  closed_cons : ∀ {k r h}, closed ((k, r) :: h) → closed h ∨ closes k ∧ done r

namespace Closing

variable (C : Closing σ κ ρ) (c : χ)

/-- It is closed, or a call that closes it has cleared what is waited for. -/
def Shut (cfg : Config σ μ χ ι κ ρ) : Prop :=
  C.closed cfg.history ∨ ∃ t th, cfg.thread t = some th ∧ C.closes th.call ∧
    ¬ th.code.Passes C.clears C.done

/-- No thread is bound to wait on `c`. -/
def Unawaited (cfg : Config σ μ χ ι κ ρ) : Prop :=
  ∀ t th, cfg.thread t = some th → ¬ th.code.WillWait c

/-- The condition on a step: where it clears what is waited for, no thread is bound to
wait on `c`, and it does not bind its thread to wait where that is done. -/
def Spares (cfg : Config σ μ χ ι κ ρ) (a : Action ι κ) : Prop :=
  ∀ t th f k, a = .run t → cfg.thread t = some th → th.code = .act f k →
    (C.closes th.call → C.clears cfg.shared (f cfg.shared) → Unawaited c cfg) ∧
    (C.Shut cfg → (k cfg.shared).WillWait c → th.code.WillWait c)

/-- The invariant: nobody is left behind, and the calls that close do not wait. -/
structure Released (cfg : Config σ μ χ ι κ ρ) : Prop where
  unawaited : C.Shut cfg → Unawaited c cfg
  quiet : ∀ t th, cfg.thread t = some th → C.closes th.call → ¬ th.code.MayWait c

variable {C c} {cfg cfg' : Config σ μ χ ι κ ρ} {th th' : Thread σ μ χ κ ρ} {t : ι}

theorem Released.idle (s : σ) : C.Released c (Config.idle s [] : Config σ μ χ ι κ ρ) where
  unawaited _ t th ht := by cases ht
  quiet t th ht := by cases ht

/-- What is closed has nobody blocked on it. -/
theorem Released.waiting_eq_false [DecidableEq χ] (h : C.Released c cfg) (hc : C.closed cfg.history) (t : ι) :
    cfg.waiting c t = false := by
  cases hw : cfg.waiting c t with
  | false => rfl
  | true =>
    rw [Config.waiting, Option.any_eq_true] at hw
    obtain ⟨th, ht, hw⟩ := hw
    obtain ⟨-, m, timed, ready, k, hcode⟩ := Thread.blocked_of_waitsOn hw
    exact absurd (by rw [hcode]; exact .inl rfl) (h.unawaited (.inl hc) t th ht)

/-- A thread goes on, and what it has to do is only less. -/
structure GoesOn (c : χ) (C : Closing σ κ ρ) (th th' : Thread σ μ χ κ ρ) : Prop where
  call : th'.call = th.call
  willWait : th'.code.WillWait c → th.code.WillWait c
  mayWait : th'.code.MayWait c → th.code.MayWait c
  passes : th.code.Passes C.clears C.done → th'.code.Passes C.clears C.done

theorem GoesOn.wake (th : Thread σ μ χ κ ρ) : GoesOn c C th th.wake := by
  unfold Thread.wake
  split
  · exact ⟨rfl, id, id, id⟩
  · exact ⟨rfl, id, id, id⟩

variable [DecidableEq ι]

/-- One thread moves on. -/
theorem Released.update (h : C.Released c cfg) (ht : cfg.thread t = some th)
    (hthread : cfg'.thread = Function.update cfg.thread t (some th'))
    (hhistory : cfg'.history = cfg.history) (hg : GoesOn c C th th') : C.Released c cfg' := by
  refine ⟨fun hs => ?_, fun u tu hu hc => ?_⟩
  · have hs' : C.Shut cfg := by
      rcases hs with hs | ⟨u, tu, hu, hc, hp⟩
      · exact .inl (hhistory ▸ hs)
      · obtain ⟨rfl, ⟨⟩⟩ | ⟨-, hu⟩ := Config.update_eq_some (hthread ▸ hu)
        · exact .inr ⟨u, th, ht, hg.call ▸ hc, fun hp' => hp (hg.passes hp')⟩
        · exact .inr ⟨u, tu, hu, hc, hp⟩
    intro u tu hu hw
    obtain ⟨rfl, ⟨⟩⟩ | ⟨-, hu⟩ := Config.update_eq_some (hthread ▸ hu)
    · exact h.unawaited hs' u th ht (hg.willWait hw)
    · exact h.unawaited hs' u tu hu hw
  · obtain ⟨rfl, ⟨⟩⟩ | ⟨-, hu⟩ := Config.update_eq_some (hthread ▸ hu)
    · exact fun hw => h.quiet u th ht (hg.call ▸ hc) (hg.mayWait hw)
    · exact h.quiet u tu hu hc

/-- A call comes in. -/
theorem Released.call {p : κ → Prog σ μ χ ρ} (h : C.Released c cfg) (t : ι) (k : κ)
    (hwait : ¬ (p k).WillWait c) (hpass : C.closes k → (p k).Passes C.clears C.done)
    (hquiet : C.closes k → ¬ (p k).MayWait c) :
    C.Released c (cfg.put t ⟨k, p k, [], false⟩) := by
  have hold : ∀ u tu, (cfg.put t ⟨k, p k, [], false⟩).thread u = some tu →
      tu = ⟨k, p k, [], false⟩ ∨ cfg.thread u = some tu := fun u tu hu =>
    (Config.update_eq_some hu).imp (fun he => (Option.some.inj he.2).symm) And.right
  refine ⟨fun hshut => ?_, fun u tu hu hc => ?_⟩
  · have hshut' : C.Shut cfg := by
      rcases hshut with hshut | ⟨u, tu, hu, hc, hp⟩
      · exact .inl hshut
      · rcases hold u tu hu with rfl | hu
        · exact absurd (hpass hc) hp
        · exact .inr ⟨u, tu, hu, hc, hp⟩
    intro u tu hu
    rcases hold u tu hu with rfl | hu
    · exact hwait
    · exact h.unawaited hshut' u tu hu
  · rcases hold u tu hu with rfl | hu
    · exact hquiet hc
    · exact h.quiet u tu hu hc

/-- A call returns: what it closes was shut before. -/
theorem Released.ret {r : ρ} (h : C.Released c cfg) (ht : cfg.thread t = some th)
    (hcode : th.code = .ret r)
    (hthread : cfg'.thread = Function.update cfg.thread t none)
    (hhistory : cfg'.history = (th.call, r) :: cfg.history) : C.Released c cfg' := by
  have hold : ∀ u tu, cfg'.thread u = some tu → cfg.thread u = some tu := fun u tu hu => by
    obtain ⟨-, ⟨⟩⟩ | ⟨-, hu⟩ := Config.update_eq_some (hthread ▸ hu)
    exact hu
  refine ⟨fun hshut u tu hu => ?_, fun u tu hu => h.quiet u tu (hold u tu hu)⟩
  have hshut' : C.Shut cfg := by
    rcases hshut with hshut | ⟨v, tv, hv, hc, hp⟩
    · rw [hhistory] at hshut
      rcases C.closed_cons hshut with hshut | ⟨hc, hdone⟩
      · exact .inl hshut
      · exact .inr ⟨t, th, ht, hc, by rw [hcode]; exact not_not_intro hdone⟩
    · exact .inr ⟨v, tv, hold v tv hv, hc, hp⟩
  exact h.unawaited hshut' u tu (hold u tu hu)

/-- What an action of thread `t` shuts was shut before, or the action is what clears it. -/
theorem Shut.of_act {f : σ → σ} {k : σ → Prog σ μ χ ρ} (ht : cfg.thread t = some th)
    (hcode : th.code = .act f k)
    (hthread : cfg'.thread = Function.update cfg.thread t (some { th with code := k cfg.shared }))
    (hhistory : cfg'.history = cfg.history) (hshut : C.Shut cfg') :
    C.Shut cfg ∨ C.closes th.call ∧ C.clears cfg.shared (f cfg.shared) := by
  rcases hshut with hshut | ⟨u, tu, hu, hc, hp⟩
  · exact .inl (.inl (hhistory ▸ hshut))
  · obtain ⟨rfl, ⟨⟩⟩ | ⟨-, hu⟩ := Config.update_eq_some (hthread ▸ hu)
    · by_cases hpass : th.code.Passes C.clears C.done
      · rw [hcode] at hpass
        exact .inr ⟨hc, (hpass cfg.shared).resolve_right hp⟩
      · exact .inl (.inr ⟨u, th, ht, hc, hpass⟩)
    · exact .inl (.inr ⟨u, tu, hu, hc, hp⟩)

/-- A thread acts. -/
theorem Released.act [Nonempty σ] {f : σ → σ} {k : σ → Prog σ μ χ ρ} (h : C.Released c cfg)
    (ht : cfg.thread t = some th) (hcode : th.code = .act f k)
    (hclear : C.closes th.call → C.clears cfg.shared (f cfg.shared) → Unawaited c cfg)
    (hbind : C.Shut cfg → (k cfg.shared).WillWait c → th.code.WillWait c)
    (hthread : cfg'.thread = Function.update cfg.thread t (some { th with code := k cfg.shared }))
    (hhistory : cfg'.history = cfg.history) : C.Released c cfg' := by
  have hquiet : C.closes th.call → ¬ (k cfg.shared).MayWait c := fun hc hw =>
    h.quiet t th ht hc (by rw [hcode]; exact ⟨cfg.shared, hw⟩)
  refine ⟨fun hshut => ?_, fun u tu hu hc => ?_⟩
  · have hnone : Unawaited c cfg ∧ ¬ (k cfg.shared).WillWait c := by
      rcases Shut.of_act ht hcode hthread hhistory hshut with hshut | ⟨hc, hJ⟩
      · have hu := h.unawaited hshut
        exact ⟨hu, fun hw => hu t th ht (hbind hshut hw)⟩
      · exact ⟨hclear hc hJ, fun hw => hquiet hc hw.mayWait⟩
    intro u tu hu
    obtain ⟨rfl, ⟨⟩⟩ | ⟨-, hu⟩ := Config.update_eq_some (hthread ▸ hu)
    · exact hnone.2
    · exact hnone.1 u tu hu
  · obtain ⟨rfl, ⟨⟩⟩ | ⟨-, hu⟩ := Config.update_eq_some (hthread ▸ hu)
    · exact hquiet hc
    · exact h.quiet u tu hu hc

variable [DecidableEq μ] [DecidableEq χ] [Nonempty σ] {entry : κ → Prog σ μ χ ρ} {a : Action ι κ}

/-- The step lemma. -/
theorem Released.step (hwait : ∀ k, ¬ (entry k).WillWait c)
    (hpass : ∀ k, C.closes k → (entry k).Passes C.clears C.done)
    (hquiet : ∀ k, C.closes k → ¬ (entry k).MayWait c) (h : C.Released c cfg)
    (hs : C.Spares c cfg a) (hm : Moves entry cfg a cfg') : C.Released c cfg' := by
  cases hm with
  | call t k ht => exact h.call t k (hwait k) (hpass k) (hquiet k)
  | ret ht hb hcode => exact h.ret ht hcode rfl rfl
  | @act t th f k ht hb hcode =>
    obtain ⟨hclear, hbind⟩ := hs t th f k rfl ht hcode
    exact h.act ht hcode hclear hbind rfl rfl
  | lock ht hb hcode =>
    refine h.update ht rfl rfl ⟨rfl, ?_, ?_, ?_⟩ <;> rw [hcode] <;> exact id
  | unlock ht hb hcode =>
    refine h.update ht rfl rfl ⟨rfl, ?_, ?_, ?_⟩ <;> rw [hcode] <;> exact id
  | goOn ht hb hcode =>
    refine h.update ht rfl rfl ⟨rfl, ?_, ?_, ?_⟩ <;> rw [hcode]
    · exact Or.inr
    · exact Or.inr
    · exact id
  | block ht hb hcode => exact h.update ht rfl rfl ⟨rfl, id, id, id⟩
  | notifyNobody ht hb hcode =>
    refine h.update ht rfl rfl ⟨rfl, ?_, ?_, ?_⟩ <;> rw [hcode] <;> exact id
  | @notify t u th tu c' k ht hb hcode hu hw =>
    have hmid : C.Released c (cfg.put t { th with code := k }) := by
      refine h.update ht rfl rfl ⟨rfl, ?_, ?_, ?_⟩ <;> rw [hcode] <;> exact id
    have hne := Thread.ne_of_waitsOn ht hb hu hw
    exact hmid.update (by rw [Config.put_of_ne _ _ hne]; exact hu) rfl rfl (.wake tu)
  | wake ht hb => exact h.update ht rfl rfl (.wake _)
  | timeout ht hb hcode =>
    refine h.update ht rfl rfl ⟨rfl, ?_, ?_, ?_⟩ <;> rw [hcode]
    · exact Or.inr
    · exact Or.inr
    · exact id

variable [Fintype ι]

/-- The run lemma. -/
theorem released_of_reachesUnder {K : Config σ μ χ ι κ ρ → Action ι κ → Prop}
    (hK : ∀ cfg a, K cfg a → C.Spares c cfg a) (hwait : ∀ k, ¬ (entry k).WillWait c)
    (hpass : ∀ k, C.closes k → (entry k).Passes C.clears C.done)
    (hquiet : ∀ k, C.closes k → ¬ (entry k).MayWait c) {s : σ}
    (hr : ReachesUnder K entry (Config.idle s []) cfg) : C.Released c cfg := by
  induction hr with
  | refl => exact .idle s
  | tail _ hstep ih =>
    obtain ⟨a, hk, hp⟩ := hstep
    exact ih.step hwait hpass hquiet (hK _ a hk) (moves_of_perform hp)

end Closing

end Concurrency
