import RialtoOcdm.Concurrency.Machine

/-! Signals. A condition variable stands for a condition on the state and goes with a
mutex. Code heeds its condition variables when it makes a condition true only while it
holds the mutex, and then signals before it gives that up. A signal wakes one thread, so
a wake-up can be lost where more than one waits, or where code is excused. -/

namespace Concurrency

variable {σ μ χ ι κ ρ α β : Type}

/-- What a condition variable stands for: its mutex, and what is waited for. -/
structure Signals (σ μ χ : Type) where
  mutex : χ → μ
  ready : χ → σ → Bool

namespace Prog

/-- The program may come to wait on `c`. -/
def MayWait (c : χ) : Prog σ μ χ α → Prop
  | ret _ => False
  | act _ k => ∃ s, (k s).MayWait c
  | lock _ k => k.MayWait c
  | unlock _ k => k.MayWait c
  | wait c' _ _ _ k => c' = c ∨ k.MayWait c
  | notifyOne _ k => k.MayWait c

variable (S : Signals σ μ χ)

/-- The program signals `c` before it waits or gives up the mutex of `c`. -/
def WillNotify (c : χ) : Prog σ μ χ α → Prop
  | ret _ => False
  | act _ k => ∀ s, (k s).WillNotify c
  | lock _ k => k.WillNotify c
  | unlock m k => m ≠ S.mutex c ∧ k.WillNotify c
  | wait .. => False
  | notifyOne c' k => c' = c ∨ k.WillNotify c

/-- The program, holding `held`, heeds the condition variables but for the `excused` ones,
waits on those in `waits` only, and then `Q` holds of what it returns and holds. -/
def Heeds (waits excused : χ → Prop) : Prog σ μ χ α → (α → List μ → Prop) → List μ → Prop
  | ret a, Q, held => Q a held
  | act f k, Q, held =>
    (∀ c s, S.ready c (f s) = true → S.ready c s = true ∨ excused c ∨
      S.mutex c ∈ held ∧ (k s).WillNotify S c) ∧ ∀ s, (k s).Heeds waits excused Q held
  | lock m k, Q, held => k.Heeds waits excused Q (m :: held)
  | unlock m k, Q, held => ∃ rest, held = m :: rest ∧ k.Heeds waits excused Q rest
  | wait c m _ ready k, Q, held => waits c ∧ m = S.mutex c ∧ ready = S.ready c ∧
    (∃ rest, held = m :: rest) ∧ k.Heeds waits excused Q held
  | notifyOne _ k, Q, held => k.Heeds waits excused Q held

/-- It gives back the mutexes it takes. -/
def Tidy (waits excused : χ → Prop) (held : List μ) (p : Prog σ μ χ α) : Prop :=
  p.Heeds S waits excused (fun _ held' => held' = held) held

variable {S} {waits excused : χ → Prop} {held : List μ} {p : Prog σ μ χ α} {c : χ}

theorem WillNotify.bind {g : α → Prog σ μ χ β} (h : p.WillNotify S c) : (p >>= g).WillNotify S c := by
  induction p with
  | ret a => exact h.elim
  | act f k ih => exact fun s => ih s (h s)
  | lock m k ih => exact ih h
  | unlock m k ih => exact ⟨h.1, ih h.2⟩
  | wait => exact h.elim
  | notifyOne c' k ih => exact h.imp_right ih

/-- Where it waits is among what it waits on. -/
theorem Heeds.waits_of_mayWait {Q : α → List μ → Prop} (h : p.Heeds S waits excused Q held)
    (hw : p.MayWait c) : waits c := by
  induction p generalizing held with
  | ret a => exact hw.elim
  | act f k ih =>
    obtain ⟨s, hs⟩ := hw
    exact ih s (h.2 s) hs
  | lock m k ih => exact ih h hw
  | unlock m k ih =>
    obtain ⟨rest, -, hk⟩ := h
    exact ih hk hw
  | wait c' m timed ready k ih =>
    rcases hw with rfl | hw
    · exact h.1
    · exact ih h.2.2.2.2 hw
  | notifyOne c' k ih => exact ih h hw

theorem Heeds.mono {Q Q' : α → List μ → Prop} (hQ : ∀ a held, Q a held → Q' a held)
    (h : p.Heeds S waits excused Q held) : p.Heeds S waits excused Q' held := by
  induction p generalizing held with
  | ret a => exact hQ a held h
  | act f k ih => exact ⟨h.1, fun s => ih s (h.2 s)⟩
  | lock m k ih => exact ih h
  | unlock m k ih =>
    obtain ⟨rest, he, hk⟩ := h
    exact ⟨rest, he, ih hk⟩
  | wait c' m timed ready k ih =>
    obtain ⟨hw, hm, hr, hhead, hk⟩ := h
    exact ⟨hw, hm, hr, hhead, ih hk⟩
  | notifyOne c' k ih => exact ih h

theorem Heeds.bind {g : α → Prog σ μ χ β} {Q : β → List μ → Prop}
    (h : p.Heeds S waits excused (fun a held' => (g a).Heeds S waits excused Q held') held) :
    (p >>= g).Heeds S waits excused Q held := by
  induction p generalizing held with
  | ret a => exact h
  | act f k ih =>
    refine ⟨fun c s hr => ?_, fun s => ih s (h.2 s)⟩
    exact (h.1 c s hr).imp_right (Or.imp_right (And.imp_right WillNotify.bind))
  | lock m k ih => exact ih h
  | unlock m k ih =>
    obtain ⟨rest, he, hk⟩ := h
    exact ⟨rest, he, ih hk⟩
  | wait c' m timed ready k ih =>
    obtain ⟨hw, hm, hr, hhead, hk⟩ := h
    exact ⟨hw, hm, hr, hhead, ih hk⟩
  | notifyOne c' k ih => exact ih h

namespace Tidy

theorem ret (a : α) : Tidy S waits excused held (ret a : Prog σ μ χ α) := rfl

theorem bind {g : α → Prog σ μ χ β} (hp : Tidy S waits excused held p)
    (hg : ∀ a, Tidy S waits excused held (g a)) : Tidy S waits excused held (p >>= g) :=
  Heeds.bind (hp.mono fun a held' (he : held' = held) => by rw [he]; exact hg a)

/-- A step that makes nothing ready. -/
theorem update {f : σ → β × σ} (hf : ∀ c s, S.ready c (f s).2 = true → S.ready c s = true) :
    Tidy S waits excused held (update f : Prog σ μ χ β) :=
  ⟨fun c s hr => .inl (hf c s hr), fun _ => rfl⟩

theorem modify {f : σ → σ} (hf : ∀ c s, S.ready c (f s) = true → S.ready c s = true) :
    Tidy S waits excused held (modify f : Prog σ μ χ Unit) :=
  ⟨fun c s hr => .inl (hf c s hr), fun _ => rfl⟩

theorem read : Tidy S waits excused held (read : Prog σ μ χ σ) :=
  ⟨fun _ _ hr => .inl hr, fun _ => rfl⟩

theorem withLock {m : μ} (hp : Tidy S waits excused (m :: held) p) :
    Tidy S waits excused held (withLock m p) :=
  Heeds.bind (hp.mono fun _ _ he => ⟨held, he, rfl⟩)

theorem forM {l : List β} {f : β → Prog σ μ χ PUnit} (hf : ∀ b, Tidy S waits excused held (f b)) :
    Tidy S waits excused held (l.forM f) := by
  induction l with
  | nil => exact ret _
  | cons b l ih => exact (hf b).bind fun _ => ih

/-- A wait, timed or not. -/
theorem wait (hw : waits c) (timed : Bool) : Tidy S waits excused (S.mutex c :: held)
    (.wait c (S.mutex c) timed (S.ready c) (.ret ()) : Prog σ μ χ Unit) :=
  ⟨hw, rfl, rfl, ⟨held, rfl⟩, rfl⟩

/-- A step that makes `c` ready, and the signal. -/
theorem notify {f : σ → σ} {k : Prog σ μ χ α} (hm : S.mutex c ∈ held) (hn : k.WillNotify S c)
    (hf : ∀ c' s, c' ≠ c → S.ready c' (f s) = true → S.ready c' s = true)
    (hk : Tidy S waits excused held k) : Tidy S waits excused held (.act f fun _ => k) := by
  refine ⟨fun c' s hr => ?_, fun _ => hk⟩
  by_cases hc : c' = c
  · subst hc
    exact .inr (.inr ⟨hm, hn⟩)
  · exact .inl (hf c' s hc hr)

/-- A step that makes ready what is excused. -/
theorem excuse {f : σ → σ} (hf : ∀ c s, ¬ excused c → S.ready c (f s) = true → S.ready c s = true) :
    Tidy S waits excused held (.modify f : Prog σ μ χ Unit) := by
  refine ⟨fun c s hr => ?_, fun _ => rfl⟩
  by_cases hc : excused c
  · exact .inr (.inl hc)
  · exact .inl (hf c s hc hr)

end Tidy

end Prog

/-! ### Threads that wait -/

section Threads

/-- What is known of a thread. A blocked one gets its mutex back before it goes on. -/
def Thread.Heeds (S : Signals σ μ χ) (waits excused : κ → χ → Prop) (th : Thread σ μ χ κ ρ) : Prop :=
  if th.blocked then ∃ c m timed ready k, th.code = .wait c m timed ready k ∧
    th.code.Heeds S (waits th.call) (excused th.call) (fun _ _ => True) (m :: th.held)
  else th.code.Heeds S (waits th.call) (excused th.call) (fun _ _ => True) th.held

/-- The invariant of the machine. -/
structure Heeding (S : Signals σ μ χ) (waits excused : κ → χ → Prop) (cfg : Config σ μ χ ι κ ρ) :
    Prop where
  owner : ∀ t th, cfg.thread t = some th → ∀ m ∈ th.held, cfg.owner m = some t
  nodup : ∀ t th, cfg.thread t = some th → th.held.Nodup
  code : ∀ t th, cfg.thread t = some th → th.Heeds S waits excused

variable {S : Signals σ μ χ} {waits excused : κ → χ → Prop} {cfg cfg' : Config σ μ χ ι κ ρ}
  {th : Thread σ μ χ κ ρ} {t : ι}

theorem Heeding.idle (s : σ) (h : List (κ × ρ)) :
    Heeding S waits excused (Config.idle s h : Config σ μ χ ι κ ρ) where
  owner t th ht := by cases ht
  nodup t th ht := by cases ht
  code t th ht := by cases ht

/-- What is known of a thread that runs. -/
theorem Heeding.running (h : Heeding S waits excused cfg) (ht : cfg.thread t = some th)
    (hb : th.blocked = false) {p : Prog σ μ χ ρ} (hcode : th.code = p) :
    p.Heeds S (waits th.call) (excused th.call) (fun _ _ => True) th.held := by
  subst hcode
  simpa [Thread.Heeds, hb] using h.code t th ht

/-- Where a thread may come to wait is among what its call waits on. -/
theorem Heeding.waits_of_mayWait {c : χ} (h : Heeding S waits excused cfg)
    (ht : cfg.thread t = some th) (hw : th.code.MayWait c) : waits th.call c := by
  have hh := h.code t th ht
  unfold Thread.Heeds at hh
  split_ifs at hh
  · obtain ⟨_, _, _, _, _, -, hh⟩ := hh
    exact hh.waits_of_mayWait hw
  · exact hh.waits_of_mayWait hw

/-- A thread that runs goes on. -/
theorem Thread.heeds_of_running (hb : th.blocked = false) {code : Prog σ μ χ ρ} {held : List μ}
    (h : code.Heeds S (waits th.call) (excused th.call) (fun _ _ => True) held) :
    Thread.Heeds S waits excused { th with code := code, held := held } := by
  simpa [Thread.Heeds, hb] using h

/-- A thread that waited asks for its mutex. -/
theorem Thread.heeds_of_lock {m : μ} {code : Prog σ μ χ ρ}
    (h : code.Heeds S (waits th.call) (excused th.call) (fun _ _ => True) (m :: th.held)) :
    Thread.Heeds S waits excused { th with code := .lock m code, blocked := false } := by
  rw [Thread.Heeds, if_neg Bool.false_ne_true]
  exact h

theorem Thread.Heeds.wake (h : th.Heeds S waits excused) (hb : th.blocked = true) :
    th.wake.Heeds S waits excused ∧ th.wake.held = th.held ∧ th.wake.blocked = false := by
  rw [Thread.Heeds, if_pos hb] at h
  obtain ⟨c, m, timed, ready, k, hcode, hk⟩ := h
  have hwake : th.wake = { th with code := .lock m th.code, blocked := false } := by
    simp [Thread.wake, hcode]
  rw [hwake]
  exact ⟨Thread.heeds_of_lock hk, rfl, rfl⟩

variable [DecidableEq ι]

/-- Thread `t` goes on, and the other threads keep what they hold. -/
theorem Heeding.update (h : Heeding S waits excused cfg)
    (hthread : cfg'.thread = Function.update cfg.thread t (some th))
    (hothers : ∀ m u, u ≠ t → cfg.owner m = some u → cfg'.owner m = some u)
    (hself : ∀ m ∈ th.held, cfg'.owner m = some t) (hn : th.held.Nodup)
    (hcode : th.Heeds S waits excused) : Heeding S waits excused cfg' := by
  refine ⟨fun u tu hu m hm => ?_, fun u tu hu => ?_, fun u tu hu => ?_⟩
  · obtain ⟨rfl, ⟨⟩⟩ | ⟨hut, hu⟩ := Config.update_eq_some (hthread ▸ hu)
    · exact hself m hm
    · exact hothers m u hut (h.owner u tu hu m hm)
  · obtain ⟨rfl, ⟨⟩⟩ | ⟨hut, hu⟩ := Config.update_eq_some (hthread ▸ hu)
    · exact hn
    · exact h.nodup u tu hu
  · obtain ⟨rfl, ⟨⟩⟩ | ⟨hut, hu⟩ := Config.update_eq_some (hthread ▸ hu)
    · exact hcode
    · exact h.code u tu hu

/-- A thread goes on with what it holds. -/
theorem Heeding.put (h : Heeding S waits excused cfg) {th' : Thread σ μ χ κ ρ}
    (ht : cfg.thread t = some th) (hcode : th'.Heeds S waits excused) (hheld : th'.held = th.held)
    (s : σ) : Heeding S waits excused { cfg.put t th' with shared := s } :=
  h.update rfl (fun _ _ _ ho => ho) (fun m hm => h.owner t th ht m (hheld ▸ hm))
    (hheld ▸ h.nodup t th ht) hcode

variable [DecidableEq μ]

/-- A thread that holds a mutex gives it up. -/
theorem Heeding.giveUp (h : Heeding S waits excused cfg) {th' : Thread σ μ χ κ ρ} {m : μ}
    (ht : cfg.thread t = some th) (hheld : th.held = m :: th'.held)
    (hcode : th'.Heeds S waits excused) : Heeding S waits excused
      { cfg.put t th' with owner := Function.update cfg.owner m none } := by
  have hn := h.nodup t th ht
  have hown := h.owner t th ht
  rw [hheld] at hn hown
  have hm : cfg.owner m = some t := hown m List.mem_cons_self
  refine h.update rfl (fun m' u hu ho => ?_) (fun m' hm' => ?_) (List.nodup_cons.mp hn).2 hcode
  · have hne : m' ≠ m := fun he => hu (by rw [he, hm] at ho; exact (Option.some.inj ho).symm)
    simpa [hne] using ho
  · have hne : m' ≠ m := fun he => (List.nodup_cons.mp hn).1 (he ▸ hm')
    simpa [hne] using hown m' (List.mem_cons_of_mem m hm')

variable [DecidableEq χ] {entry : κ → Prog σ μ χ ρ} {a : Action ι κ}

/-- The step lemma. -/
theorem Heeding.step (hentry : ∀ c, (entry c).Heeds S (waits c) (excused c) (fun _ _ => True) [])
    (h : Heeding S waits excused cfg) (hm : Moves entry cfg a cfg') :
    Heeding S waits excused cfg' := by
  cases hm with
  | call t c ht =>
    refine h.update rfl (fun _ _ _ ho => ho) (fun m hm => by cases hm) List.nodup_nil ?_
    simpa [Thread.Heeds] using hentry c
  | @ret t th r ht hb hcode =>
    exact ⟨fun u tu hu => h.owner u tu (Config.thread_of_remove hu),
      fun u tu hu => h.nodup u tu (Config.thread_of_remove hu),
      fun u tu hu => h.code u tu (Config.thread_of_remove hu)⟩
  | act ht hb hcode =>
    have hh := h.running ht hb hcode
    exact h.put ht (Thread.heeds_of_running hb (hh.2 cfg.shared)) rfl _
  | @lock t th m k ht hb hcode hm =>
    have hh := h.running ht hb hcode
    have hown := h.owner t th ht
    have hnot : m ∉ th.held := fun hmem => by simp [hown m hmem] at hm
    refine h.update rfl (fun m' u hu ho => ?_) (fun m' hm' => ?_)
      (List.nodup_cons.mpr ⟨hnot, h.nodup t th ht⟩) (Thread.heeds_of_running hb hh)
    · have hne : m' ≠ m := fun he => by simp [he, hm] at ho
      simpa [hne] using ho
    · by_cases hne : m' = m
      · simp [hne]
      · simpa [hne] using hown m' ((List.mem_cons.mp hm').resolve_left hne)
  | @unlock t th m k ht hb hcode hm =>
    have hh := h.running ht hb hcode
    obtain ⟨rest, he, hk⟩ := hh
    have herase : th.held.erase m = rest := by simp [he]
    rw [herase]
    exact h.giveUp ht he (Thread.heeds_of_running hb hk)
  | goOn ht hb hcode hr =>
    have hh := h.running ht hb hcode
    exact h.put ht (Thread.heeds_of_running hb hh.2.2.2.2) rfl _
  | @block t th c m timed ready k ht hb hcode hr hm =>
    have hh := h.running ht hb hcode
    obtain ⟨rest, he⟩ : ∃ rest, th.held = m :: rest := hh.2.2.2.1
    have herase : th.held.erase m = rest := by simp [he]
    rw [herase]
    apply h.giveUp ht he
    rw [Thread.Heeds, if_pos rfl]
    exact ⟨c, m, timed, ready, k, hcode, he ▸ h.running ht hb rfl⟩
  | @notifyNobody t th c k ht hb hcode hn =>
    have hh : k.Heeds S (waits th.call) (excused th.call) (fun _ _ => True) th.held :=
      (h.running ht hb hcode :)
    exact h.put ht (Thread.heeds_of_running hb hh) rfl _
  | @notify t u th tu c k ht hb hcode hu hw =>
    have hh : k.Heeds S (waits th.call) (excused th.call) (fun _ _ => True) th.held :=
      (h.running ht hb hcode :)
    have hbu := (Thread.blocked_of_waitsOn hw).1
    have hne := Thread.ne_of_waitsOn ht hb hu hw
    obtain ⟨hwake, hheld, -⟩ := (h.code u tu hu).wake hbu
    exact (h.put ht (Thread.heeds_of_running hb hh) rfl cfg.shared).put
      (by rw [Config.put_of_ne _ _ hne]; exact hu) hwake hheld _
  | wake ht hb =>
    obtain ⟨hwake, hheld, -⟩ := (h.code _ _ ht).wake hb
    exact h.put ht hwake hheld _
  | timeout ht hb hcode =>
    have hh := h.code _ _ ht
    rw [Thread.Heeds, if_pos hb] at hh
    obtain ⟨c, m, timed, ready, k, he, hk⟩ := hh
    rw [hcode] at he hk
    cases he
    exact h.put ht (Thread.heeds_of_lock hk.2.2.2.2) rfl _

/-- The run lemma. -/
theorem Heeding.reaches [Fintype ι]
    (hentry : ∀ c, (entry c).Heeds S (waits c) (excused c) (fun _ _ => True) [])
    (h : Heeding S waits excused cfg) (hr : Reaches entry cfg cfg') :
    Heeding S waits excused cfg' := by
  induction hr with
  | refl => exact h
  | tail _ hstep ih =>
    obtain ⟨a, hp⟩ := hstep
    exact ih.step hentry (moves_of_perform hp)

end Threads

/-! ### Wake-ups -/

section Wakeups

variable [DecidableEq χ]

/-- Thread `u` is blocked on `c`. -/
def Config.waiting (cfg : Config σ μ χ ι κ ρ) (c : χ) (u : ι) : Bool :=
  (cfg.thread u).any (·.waitsOn c)

/-- A signal for what is ready finds at most one thread that waits for it, and what is
excused becomes ready only where no thread waits for it. -/
def Signals.Spares (S : Signals σ μ χ) (excused : κ → χ → Prop) (cfg : Config σ μ χ ι κ ρ)
    (a : Action ι κ) : Prop :=
  ∀ t th, (a = .run t ∨ ∃ u, a = .notify t u) → cfg.thread t = some th →
    (∀ c k, th.code = .notifyOne c k → S.ready c cfg.shared = true →
      ∀ u v, cfg.waiting c u = true → cfg.waiting c v = true → u = v) ∧
    ∀ c f k, th.code = .act f k → excused th.call c → S.ready c (f cfg.shared) = true →
      S.ready c cfg.shared = true ∨ ∀ u, cfg.waiting c u = false

/-- A thread that holds the mutex of `c` will signal it. -/
def Config.WillNotify (S : Signals σ μ χ) (cfg : Config σ μ χ ι κ ρ) (c : χ) : Prop :=
  ∃ t th, cfg.thread t = some th ∧ th.blocked = false ∧ S.mutex c ∈ th.held ∧ th.code.WillNotify S c

/-- Whoever waits for what is ready will be signalled. -/
def Config.Awake (S : Signals σ μ χ) (cfg : Config σ μ χ ι κ ρ) : Prop :=
  ∀ c u, S.ready c cfg.shared = true → cfg.waiting c u = true → cfg.WillNotify S c

variable {S : Signals σ μ χ} {waits excused : κ → χ → Prop} {cfg cfg' : Config σ μ χ ι κ ρ}
  {t : ι} {x : Option (Thread σ μ χ κ ρ)} {c : χ}

theorem Thread.waitsOn_of_running {th : Thread σ μ χ κ ρ} (hb : th.blocked = false) :
    th.waitsOn c = false := by
  cases hw : th.waitsOn c with
  | false => rfl
  | true => exact absurd (Thread.blocked_of_waitsOn hw).1 (by simp [hb])

/-- Where the mutex of a condition variable is free and what it stands for is ready, no
thread waits for it: no wake-up was lost. -/
theorem Config.Awake.waiting_eq_false (h : cfg.Awake S) (hh : Heeding S waits excused cfg)
    (hfree : cfg.owner (S.mutex c) = none) (hready : S.ready c cfg.shared = true) (u : ι) :
    cfg.waiting c u = false := by
  cases hw : cfg.waiting c u with
  | false => rfl
  | true =>
    obtain ⟨t, th, ht, -, hm, -⟩ := h c u hready hw
    rw [hh.owner t th ht _ hm] at hfree
    cases hfree

variable [DecidableEq ι]

theorem waiting_of_update {u : ι} (hthread : cfg'.thread = Function.update cfg.thread t x)
    (hx : ∀ th, x = some th → th.waitsOn c = false) (hw : cfg'.waiting c u = true) :
    u ≠ t ∧ cfg.waiting c u = true := by
  rw [Config.waiting, hthread] at hw
  by_cases hut : u = t
  · subst hut
    rw [Function.update_self, Option.any_eq_true] at hw
    obtain ⟨th, hth, hw⟩ := hw
    rw [hx th hth] at hw
    cases hw
  · rw [Function.update_of_ne hut] at hw
    exact ⟨hut, hw⟩

/-- A thread that goes on does not wait. -/
theorem waiting_of_running {u : ι} {th : Thread σ μ χ κ ρ} (hw : cfg'.waiting c u = true)
    (hthread : cfg'.thread = Function.update cfg.thread t (some th)) (hb : th.blocked = false) :
    u ≠ t ∧ cfg.waiting c u = true :=
  waiting_of_update hthread (fun _ hth => Option.some.inj hth ▸ Thread.waitsOn_of_running hb) hw

section

omit [DecidableEq χ]

/-- Thread `t` moves, and still signals if it was the one to do it. -/
theorem Config.WillNotify.update {th : Thread σ μ χ κ ρ} (h : cfg.WillNotify S c)
    (hthread : cfg'.thread = Function.update cfg.thread t x) (ht : cfg.thread t = some th)
    (hx : th.blocked = false → S.mutex c ∈ th.held → th.code.WillNotify S c →
      ∃ th', x = some th' ∧ th'.blocked = false ∧ S.mutex c ∈ th'.held ∧ th'.code.WillNotify S c) :
    cfg'.WillNotify S c := by
  obtain ⟨v, tv, hv, hb, hm, hn⟩ := h
  by_cases hvt : v = t
  · subst hvt
    rw [ht, Option.some.injEq] at hv
    subst hv
    obtain ⟨th', rfl, hth'⟩ := hx hb hm hn
    exact ⟨v, th', by rw [hthread, Function.update_self], hth'⟩
  · exact ⟨v, tv, by rw [hthread, Function.update_of_ne hvt, hv], hb, hm, hn⟩

/-- Thread `t` is not the one. -/
theorem Config.WillNotify.update_of_not {th : Thread σ μ χ κ ρ} (h : cfg.WillNotify S c)
    (hthread : cfg'.thread = Function.update cfg.thread t x) (ht : cfg.thread t = some th)
    (hnot : th.blocked = false → ¬ th.code.WillNotify S c) : cfg'.WillNotify S c :=
  h.update hthread ht fun hb _ hn => absurd hn (hnot hb)

end

/-- Thread `t` acts: what its step makes ready it will signal itself, or nobody waits
for it. -/
theorem Config.Awake.act {th : Thread σ μ χ κ ρ} {f : σ → σ} {k : σ → Prog σ μ χ ρ}
    (h : cfg.Awake S) (hh : Heeding S waits excused cfg) (ht : cfg.thread t = some th)
    (hb : th.blocked = false) (hcode : th.code = .act f k)
    (hs : ∀ c, excused th.call c → S.ready c (f cfg.shared) = true →
      S.ready c cfg.shared = true ∨ ∀ u, cfg.waiting c u = false)
    (hthread : cfg'.thread = Function.update cfg.thread t (some { th with code := k cfg.shared }))
    (hshared : cfg'.shared = f cfg.shared) : cfg'.Awake S := by
  intro c u hr hw
  rw [hshared] at hr
  obtain ⟨-, hw⟩ := waiting_of_running hw hthread hb
  have hheeds := hh.running ht hb hcode
  by_cases hready : S.ready c cfg.shared = true
  · refine (h c u hready hw).update hthread ht fun _ hmem hn => ⟨_, rfl, hb, hmem, ?_⟩
    rw [hcode] at hn
    exact hn cfg.shared
  · -- the step makes it ready
    rcases hheeds.1 c cfg.shared hr with hready' | hexcused | ⟨hmem, hn⟩
    · exact absurd hready' hready
    · rcases hs c hexcused hr with hready' | hnobody
      · exact absurd hready' hready
      · rw [hnobody u] at hw
        cases hw
    · exact ⟨t, { th with code := k cfg.shared }, by rw [hthread, Function.update_self], hb, hmem, hn⟩

/-- Thread `t` signals `c'` and wakes `v`, the only one that waits for it. -/
theorem Config.Awake.notify {v : ι} {th tv : Thread σ μ χ κ ρ} {c' : χ} {k : Prog σ μ χ ρ}
    (h : cfg.Awake S) (hh : Heeding S waits excused cfg) (ht : cfg.thread t = some th)
    (hb : th.blocked = false) (hcode : th.code = .notifyOne c' k) (hv : cfg.thread v = some tv)
    (hwv : tv.waitsOn c')
    (hs : S.ready c' cfg.shared = true →
      ∀ u v, cfg.waiting c' u = true → cfg.waiting c' v = true → u = v) :
    ((cfg.put t { th with code := k }).put v tv.wake).Awake S := by
  intro c u hr hw
  have hbv := (Thread.blocked_of_waitsOn hwv).1
  have hne := Thread.ne_of_waitsOn ht hb hv hwv
  have hv' : (cfg.put t { th with code := k }).thread v = some tv := by
    rw [Config.put_of_ne _ _ hne, hv]
  obtain ⟨-, -, hwake⟩ := (hh.code v tv hv).wake hbv
  obtain ⟨huv, hw⟩ := waiting_of_running hw rfl hwake
  obtain ⟨-, hw⟩ := waiting_of_running hw rfl hb
  by_cases hc : c' = c
  · subst hc
    exact absurd (hs hr u v hw (by simp [Config.waiting, hv, hwv])) huv
  · have hmid : (cfg.put t { th with code := k }).WillNotify S c := by
      refine (h c u hr hw).update rfl ht fun _ hmem hn => ⟨_, rfl, hb, hmem, ?_⟩
      rw [hcode] at hn
      exact hn.resolve_left hc
    exact hmid.update_of_not rfl hv' fun hrun => by simp [hrun] at hbv

variable [DecidableEq μ] {entry : κ → Prog σ μ χ ρ} {a : Action ι κ}

/-- The step lemma. -/
theorem Config.Awake.step (h : cfg.Awake S) (hh : Heeding S waits excused cfg)
    (hs : S.Spares excused cfg a) (hm : Moves entry cfg a cfg') : cfg'.Awake S := by
  intro c u hr hw
  cases hm with
  | call t k ht =>
    obtain ⟨-, hw⟩ := waiting_of_running hw rfl rfl
    obtain ⟨v, tv, hv, hn⟩ := h c u hr hw
    have hne : v ≠ t := fun he => by simp [he, ht] at hv
    exact ⟨v, tv, by rw [Config.put_of_ne _ _ hne, hv], hn⟩
  | @ret t th r ht hb hcode =>
    obtain ⟨-, hw⟩ := waiting_of_update rfl (by nofun) hw
    exact (h c u hr hw).update_of_not rfl ht fun _ => by rw [hcode]; exact id
  | @act t th f k ht hb hcode =>
    exact h.act hh ht hb hcode (fun c he => (hs t th (.inl rfl) ht).2 c f k hcode he) rfl rfl c u hr hw
  | @lock t th m k ht hb hcode hm =>
    obtain ⟨-, hw⟩ := waiting_of_running hw rfl hb
    refine (h c u hr hw).update rfl ht fun _ hmem hn =>
      ⟨_, rfl, hb, List.mem_cons_of_mem m hmem, ?_⟩
    rw [hcode] at hn
    exact hn
  | @unlock t th m k ht hb hcode hm =>
    obtain ⟨-, hw⟩ := waiting_of_running hw rfl hb
    apply (h c u hr hw).update rfl ht
    intro _ hmem hn
    rw [hcode] at hn
    exact ⟨_, rfl, hb, (List.mem_erase_of_ne (Ne.symm hn.1)).mpr hmem, hn.2⟩
  | @goOn t th c' m timed ready k ht hb hcode hr' =>
    obtain ⟨-, hw⟩ := waiting_of_running hw rfl hb
    exact (h c u hr hw).update_of_not rfl ht fun _ => by rw [hcode]; exact id
  | @block t th c' m timed ready k ht hb hcode hr' hm =>
    have hheeds := hh.running ht hb hcode
    by_cases hc : c' = c
    · -- it does not wait for what is ready
      subst hc
      rw [hheeds.2.2.1] at hr'
      cases (hr.symm.trans hr' : true = false)
    · obtain ⟨-, hw⟩ := waiting_of_update rfl (fun th' hth => by
        rw [← Option.some.inj hth]
        simp [Thread.waitsOn, hcode, hc]) hw
      exact (h c u hr hw).update_of_not rfl ht fun _ => by rw [hcode]; exact id
  | @notifyNobody t th c' k ht hb hcode hn =>
    obtain ⟨-, hw⟩ := waiting_of_running hw rfl hb
    refine (h c u hr hw).update rfl ht fun _ hmem hnotify => ⟨_, rfl, hb, hmem, ?_⟩
    rw [hcode] at hnotify
    apply hnotify.resolve_left
    intro hc
    rw [Config.waiting, Option.any_eq_true] at hw
    obtain ⟨tu, hu, hw⟩ := hw
    rw [← hc, hn u tu hu] at hw
    cases hw
  | @notify t v th tv c' k ht hb hcode hv hwv =>
    exact h.notify hh ht hb hcode hv hwv ((hs t th (.inr ⟨v, rfl⟩) ht).1 c' k hcode) c u hr hw
  | @wake t th ht hb =>
    obtain ⟨-, -, hwake⟩ := (hh.code t th ht).wake hb
    obtain ⟨-, hw⟩ := waiting_of_running hw rfl hwake
    exact (h c u hr hw).update_of_not rfl ht fun hrun => by simp [hrun] at hb
  | @timeout t th c' m ready k ht hb hcode =>
    obtain ⟨-, hw⟩ := waiting_of_running hw rfl rfl
    exact (h c u hr hw).update_of_not rfl ht fun hrun => by simp [hrun] at hb

variable [Fintype ι]

/-- The run lemma. -/
theorem Config.awake_of_reachesUnder
    (hentry : ∀ c, (entry c).Heeds S (waits c) (excused c) (fun _ _ => True) []) {s : σ}
    {history : List (κ × ρ)}
    (hr : ReachesUnder (S.Spares excused) entry (Config.idle s history) cfg) :
    Heeding S waits excused cfg ∧ cfg.Awake S := by
  induction hr with
  | refl => exact ⟨.idle s history, fun c u _ hw => by simp [Config.waiting, Config.idle] at hw⟩
  | tail _ hstep ih =>
    obtain ⟨a, hs, hp⟩ := hstep
    have hm := moves_of_perform hp
    exact ⟨ih.1.step hentry hm, ih.2.step ih.1 hs hm⟩

end Wakeups

end Concurrency
