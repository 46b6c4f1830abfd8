import RialtoOcdm.Concurrency.Machine

/-! Rely–guarantee reasoning for the machine. A protocol says what one atomic step
of a thread may do to the shared state, given the call it is in and the mutexes it
holds, and what is true of the state when a mutex is free. `Safe` is the weakest
precondition of a program under interference by steps the protocol allows to
threads that hold other mutexes. If every entry is safe, every reachable
configuration is `Good` and every step is one the protocol allows. -/

namespace Concurrency

variable {σ μ χ ι κ ρ α β : Type}

/-- `inv` holds always, `free m` whenever `m` is free; `may c held s s'` is what a
step of a thread in call `c` holding `held` may do, and `request c held m s` is
what must hold while it asks for `m`. -/
structure Protocol (σ μ κ : Type) where
  inv : σ → Prop
  free : μ → σ → Prop
  may : κ → List μ → σ → σ → Prop
  request : κ → List μ → μ → σ → Prop

namespace Protocol

variable (P : Protocol σ μ κ)

/-- A step of another thread, seen by one that holds `held`. -/
def Other (held : List μ) (s s' : σ) : Prop :=
  P.inv s' ∧ ∃ c held', held.Disjoint held' ∧ P.may c held' s s'

/-- What the others can do meanwhile. -/
def Rely (held : List μ) : σ → σ → Prop := Relation.ReflTransGen (P.Other held)

variable {P}

theorem Rely.refl {held : List μ} {s : σ} : P.Rely held s s := Relation.ReflTransGen.refl

theorem Rely.trans {held : List μ} {s₁ s₂ s₃ : σ} (h : P.Rely held s₁ s₂) (h' : P.Rely held s₂ s₃) :
    P.Rely held s₁ s₃ := Relation.ReflTransGen.trans h h'

theorem Rely.step {held held' : List μ} {s s' : σ} {c : κ} (hd : held.Disjoint held')
    (hi : P.inv s') (h : P.may c held' s s') : P.Rely held s s' := .single ⟨hi, c, held', hd, h⟩

/-- Holding more mutexes excludes more steps. -/
theorem Rely.mono {held held' : List μ} {s s' : σ} (hsub : held ⊆ held') (h : P.Rely held' s s') :
    P.Rely held s s' := by
  refine Relation.ReflTransGen.mono (fun a b hab => ?_) _ _ h
  obtain ⟨hi, c, l, hd, hm⟩ := hab
  exact ⟨hi, c, l, fun m hm₁ hm₂ => hd (hsub hm₁) hm₂, hm⟩

theorem Rely.inv {held : List μ} {s s' : σ} (h : P.Rely held s s') (hs : P.inv s) : P.inv s' := by
  cases h with
  | refl => exact hs
  | tail _ h => exact h.1

/-- A fact no other thread can change stays true. -/
theorem Rely.stable {held : List μ} {s s' : σ} {F : σ → Prop}
    (hF : ∀ c held' s s', held.Disjoint held' → P.inv s → P.may c held' s s' → F s → F s')
    (h : P.Rely held s s') (hs : P.inv s) (hf : F s) : F s' := by
  induction h with
  | refl => exact hf
  | tail hpre hstep ih =>
    obtain ⟨_, c, l, hd, hm⟩ := hstep
    exact hF c l _ _ hd (Rely.inv hpre hs) hm ih

variable (P)

/-- Weakest precondition of a program of call `c` under interference, from `s`
with the mutexes `held`: each of its steps is allowed, and `Q` holds when it
returns and stays true. At a wait, `W` is what the waiter keeps. -/
def Safe (c : κ) : Prog σ μ χ α → (α → List μ → σ → Prop) → List μ → σ → Prop
  | .ret a, Q, held, s => ∀ s', P.Rely held s s' → P.inv s' → Q a held s'
  | .act f k, Q, held, s => ∀ s', P.Rely held s s' → P.inv s' →
    P.may c held s' (f s') ∧ P.inv (f s') ∧ Safe c (k s') Q held (f s')
  | .lock m k, Q, held, s => ∀ s', P.Rely held s s' → P.inv s' →
    P.request c held m s' ∧ (P.free m s' → Safe c k Q (m :: held) s')
  | .unlock m k, Q, held, s => ∃ rest, held = m :: rest ∧ ∀ s', P.Rely held s s' → P.inv s' →
    P.free m s' ∧ Safe c k Q rest s'
  | .wait _ m timed ready k, Q, held, s => ∃ rest, held = m :: rest ∧ ∃ W : σ → Prop, W s ∧
    (∀ s s', W s → P.inv s → P.Rely held s s' → W s') ∧
    (∀ s, W s → P.inv s → ready s = true ∨ timed = true → Safe c k Q held s) ∧
    ∀ s, W s → P.inv s → ready s = false → P.free m s ∧ ∀ s', P.Rely rest s s' → P.inv s' →
      P.request c rest m s' ∧ (P.free m s' → W s')
  | .notifyOne _ k, Q, held, s => Safe c k Q held s

variable {P} {c : κ} {p : Prog σ μ χ α} {Q Q' : α → List μ → σ → Prop} {held : List μ} {s s' : σ}

/-- Interference does not invalidate the precondition. -/
theorem Safe.rely (h : P.Safe c p Q held s) (hs : P.inv s) (hr : P.Rely held s s') :
    P.Safe c p Q held s' := by
  induction p generalizing held s s' with
  | ret a => exact fun s'' hr' => h s'' (hr.trans hr')
  | act f k ih => exact fun s'' hr' => h s'' (hr.trans hr')
  | lock m k ih => exact fun s'' hr' => h s'' (hr.trans hr')
  | unlock m k ih =>
    obtain ⟨rest, he, h⟩ := h
    exact ⟨rest, he, fun s'' hr' => h s'' (hr.trans hr')⟩
  | wait cv m timed ready k ih =>
    obtain ⟨rest, he, W, hW, hst, hgo, hblock⟩ := h
    exact ⟨rest, he, W, hst s s' hW hs hr, hst, hgo, hblock⟩
  | notifyOne cv k ih => exact ih h hs hr

theorem Safe.mono (hQ : ∀ a held s, P.inv s → Q a held s → Q' a held s) (hs : P.inv s)
    (h : P.Safe c p Q held s) : P.Safe c p Q' held s := by
  induction p generalizing held s with
  | ret a => exact fun s' hr hi => hQ a held s' hi (h s' hr hi)
  | act f k ih =>
    intro s' hr hi
    obtain ⟨hm, hi', hk⟩ := h s' hr hi
    exact ⟨hm, hi', ih s' hi' hk⟩
  | lock m k ih =>
    intro s' hr hi
    exact ⟨(h s' hr hi).1, fun hf => ih hi ((h s' hr hi).2 hf)⟩
  | unlock m k ih =>
    obtain ⟨rest, he, h⟩ := h
    exact ⟨rest, he, fun s' hr hi => ⟨(h s' hr hi).1, ih hi (h s' hr hi).2⟩⟩
  | wait cv m timed ready k ih =>
    obtain ⟨rest, he, W, hW, hst, hgo, hblock⟩ := h
    exact ⟨rest, he, W, hW, hst, fun s hw hi hr => ih hi (hgo s hw hi hr), hblock⟩
  | notifyOne cv k ih => exact ih hs h

/-- Sequencing. -/
theorem Safe.bind {g : α → Prog σ μ χ β} {Q : β → List μ → σ → Prop} (hs : P.inv s)
    (h : P.Safe c p (fun a held s => P.Safe c (g a) Q held s) held s) :
    P.Safe c (p >>= g) Q held s := by
  induction p generalizing held s with
  | ret a => exact h s .refl hs
  | act f k ih =>
    intro s' hr hi
    obtain ⟨hm, hi', hk⟩ := h s' hr hi
    exact ⟨hm, hi', ih s' hi' hk⟩
  | lock m k ih =>
    intro s' hr hi
    exact ⟨(h s' hr hi).1, fun hf => ih hi ((h s' hr hi).2 hf)⟩
  | unlock m k ih =>
    obtain ⟨rest, he, h⟩ := h
    exact ⟨rest, he, fun s' hr hi => ⟨(h s' hr hi).1, ih hi (h s' hr hi).2⟩⟩
  | wait cv m timed ready k ih =>
    obtain ⟨rest, he, W, hW, hst, hgo, hblock⟩ := h
    exact ⟨rest, he, W, hW, hst, fun s hw hi hr => ih hi (hgo s hw hi hr), hblock⟩
  | notifyOne cv k ih => exact ih hs h

/-- A waiter that gave `m` up asks for it again, and looks again or, when its time
is over, goes on. -/
theorem Safe.relock {cv : χ} {m : μ} {timed : Bool} {ready : σ → Bool} {k : Prog σ μ χ α}
    (hs : P.inv s) (h : P.Safe c (.wait cv m timed ready k) Q held s) (hr : ready s = false) :
    ∃ rest, held = m :: rest ∧ P.free m s ∧
      P.Safe c (.lock m (.wait cv m timed ready k)) Q rest s ∧
      (timed = true → P.Safe c (.lock m k) Q rest s) := by
  obtain ⟨rest, he, W, hW, hst, hgo, hblock⟩ := h
  subst he
  obtain ⟨hfree, hback⟩ := hblock s hW hs hr
  refine ⟨rest, rfl, hfree, fun s' hr' hi => ?_, fun ht s' hr' hi => ?_⟩
  · obtain ⟨hreq, hw⟩ := hback s' hr' hi
    exact ⟨hreq, fun hf => ⟨rest, rfl, W, hw hf, hst, hgo, hblock⟩⟩
  · obtain ⟨hreq, hw⟩ := hback s' hr' hi
    exact ⟨hreq, fun hf => hgo s' (hw hf) hi (.inr ht)⟩

/-! ### Lasting facts

A fact that no step the protocol allows makes false may be assumed throughout. -/

/-- Once true, always true. -/
def Lasting (P : Protocol σ μ κ) (F : σ → Prop) : Prop :=
  ∀ c held s s', P.inv s → P.may c held s s' → F s → F s'

/-- True wherever the protocol is kept to. -/
def Always (P : Protocol σ μ κ) (F : σ → Prop) : Prop := ∀ s, P.inv s → F s

/-- The protocol where `F` holds. -/
def assume (P : Protocol σ μ κ) (F : σ → Prop) : Protocol σ μ κ := { P with inv s := P.inv s ∧ F s }

variable {F G : σ → Prop}

theorem Always.assume (h : P.Always G) : (P.assume F).Always G := fun s hi => h s hi.1

theorem always_assume : (P.assume F).Always F := fun _ hi => hi.2

theorem Lasting.rely (hF : P.Lasting F) (hs : P.inv s) (hf : F s) (hr : P.Rely held s s') : F s' :=
  hr.stable (fun c held' s s' _ => hF c held' s s') hs hf

theorem Rely.of_assume (hr : (P.assume F).Rely held s s') : P.Rely held s s' := by
  refine Relation.ReflTransGen.mono (fun a b hab => ?_) _ _ hr
  exact ⟨hab.1.1, hab.2⟩

theorem Lasting.rely_assume (hF : P.Lasting F) (hs : P.inv s) (hf : F s) (hr : P.Rely held s s') :
    (P.assume F).Rely held s s' := by
  induction hr with
  | refl => exact .refl
  | tail hpre hstep ih =>
    obtain ⟨hi, c, l, hd, hm⟩ := hstep
    have hf' := hF c l _ _ (Rely.inv hpre hs) hm (hF.rely hs hf hpre)
    exact ih.tail ⟨⟨hi, hf'⟩, c, l, hd, hm⟩

/-- What is safe where `F` holds is safe from a state in which it does. -/
theorem Safe.of_assume (hF : P.Lasting F) (hs : P.inv s) (hf : F s)
    (h : (P.assume F).Safe c p Q held s) : P.Safe c p Q held s := by
  induction p generalizing held s with
  | ret a => exact fun s' hr hi => h s' (hF.rely_assume hs hf hr) ⟨hi, hF.rely hs hf hr⟩
  | act f k ih =>
    intro s' hr hi
    obtain ⟨hm, ⟨hi', hf'⟩, hk⟩ := h s' (hF.rely_assume hs hf hr) ⟨hi, hF.rely hs hf hr⟩
    exact ⟨hm, hi', ih s' hi' hf' hk⟩
  | lock m k ih =>
    intro s' hr hi
    have hf' := hF.rely hs hf hr
    obtain ⟨hreq, hk⟩ := h s' (hF.rely_assume hs hf hr) ⟨hi, hf'⟩
    exact ⟨hreq, fun hfree => ih hi hf' (hk hfree)⟩
  | unlock m k ih =>
    obtain ⟨rest, he, h⟩ := h
    refine ⟨rest, he, fun s' hr hi => ?_⟩
    have hf' := hF.rely hs hf hr
    obtain ⟨hfree, hk⟩ := h s' (hF.rely_assume hs hf hr) ⟨hi, hf'⟩
    exact ⟨hfree, ih hi hf' hk⟩
  | wait cv m timed ready k ih =>
    obtain ⟨rest, he, W, hW, hst, hgo, hblock⟩ := h
    refine ⟨rest, he, fun s => W s ∧ F s, ⟨hW, hf⟩, fun s s' hw hi hr => ?_, fun s hw hi hr => ?_,
      fun s hw hi hr => ?_⟩
    · exact ⟨hst s s' hw.1 ⟨hi, hw.2⟩ (hF.rely_assume hi hw.2 hr), hF.rely hi hw.2 hr⟩
    · exact ih hi hw.2 (hgo s hw.1 ⟨hi, hw.2⟩ hr)
    · obtain ⟨hfree, hback⟩ := hblock s hw.1 ⟨hi, hw.2⟩ hr
      refine ⟨hfree, fun s' hr' hi' => ?_⟩
      have hf' := hF.rely hi hw.2 hr'
      obtain ⟨hreq, hback⟩ := hback s' (hF.rely_assume hi hw.2 hr') ⟨hi', hf'⟩
      exact ⟨hreq, fun hfree => ⟨hback hfree, hf'⟩⟩
  | notifyOne cv k ih => exact ih hs hf h

end Protocol

/-! ### Soundness -/

section Soundness

variable (P : Protocol σ μ κ) (post : κ → ρ → σ → Prop)

/-- A call ends holding nothing, in its postcondition. -/
def Finished (c : κ) (r : ρ) (held : List μ) (s : σ) : Prop := held = [] ∧ post c r s

/-- What is known of a thread. A blocked one gets its mutex back before it goes on. -/
def ThreadSafe (s : σ) (th : Thread σ μ χ κ ρ) : Prop :=
  if th.blocked then
    ∃ cv m timed ready k, th.code = .wait cv m timed ready k ∧
      P.Safe th.call (.lock m (.wait cv m timed ready k)) (Finished post th.call) th.held s ∧
      (timed = true → P.Safe th.call (.lock m k) (Finished post th.call) th.held s)
  else P.Safe th.call th.code (Finished post th.call) th.held s

/-- The invariant of the machine. -/
structure Good (cfg : Config σ μ χ ι κ ρ) : Prop where
  inv : P.inv cfg.shared
  free : ∀ m, cfg.owner m = none → P.free m cfg.shared
  owner : ∀ m t, cfg.owner m = some t ↔ ∃ th, cfg.thread t = some th ∧ m ∈ th.held
  nodup : ∀ t th, cfg.thread t = some th → th.held.Nodup
  threads : ∀ t th, cfg.thread t = some th → ThreadSafe P post cfg.shared th
  returned : ∀ c r, (c, r) ∈ cfg.history → post c r cfg.shared

/-- What is to be shown of a protocol with its entries and their postconditions. -/
structure Sound (entry : κ → Prog σ μ χ ρ) : Prop where
  free_stable : ∀ c held s s' m, P.inv s → P.may c held s s' → m ∉ held → P.free m s → P.free m s'
  post_stable : ∀ c r c' held s s', P.inv s → P.may c' held s s' → post c r s → post c r s'
  entry : ∀ c s, P.inv s → P.Safe c (entry c) (Finished post c) [] s

variable {P post} {cfg : Config σ μ χ ι κ ρ}

theorem ThreadSafe.rely {th : Thread σ μ χ κ ρ} {s s' : σ} (h : ThreadSafe P post s th)
    (hs : P.inv s) (hr : P.Rely th.held s s') : ThreadSafe P post s' th := by
  unfold ThreadSafe at h ⊢
  split_ifs with hb
  · rw [if_pos hb] at h
    obtain ⟨cv, m, timed, ready, k, he, h₁, h₂⟩ := h
    exact ⟨cv, m, timed, ready, k, he, h₁.rely hs hr, fun ht => (h₂ ht).rely hs hr⟩
  · rw [if_neg hb] at h
    exact h.rely hs hr

theorem ThreadSafe.of_running {th : Thread σ μ χ κ ρ} {s : σ} (hb : th.blocked = false) :
    ThreadSafe P post s th ↔ P.Safe th.call th.code (Finished post th.call) th.held s := by
  simp [ThreadSafe, hb]

theorem ThreadSafe.running {th : Thread σ μ χ κ ρ} {s : σ} (hb : th.blocked = false)
    (h : P.Safe th.call th.code (Finished post th.call) th.held s) : ThreadSafe P post s th :=
  (ThreadSafe.of_running hb).mpr h

/-- What is known of a thread that runs. -/
theorem Good.safe (h : Good P post cfg) {t : ι} {th : Thread σ μ χ κ ρ} (ht : cfg.thread t = some th)
    (hb : th.blocked = false) {p : Prog σ μ χ ρ} (hcode : th.code = p) :
    P.Safe th.call p (Finished post th.call) th.held cfg.shared :=
  hcode ▸ (ThreadSafe.of_running hb).mp (h.threads t th ht)

theorem Good.idle {s : σ} (hi : P.inv s) (hf : ∀ m, P.free m s) :
    Good P post (Config.idle s [] : Config σ μ χ ι κ ρ) where
  inv := hi
  free m _ := hf m
  owner m t := by simp [Config.idle]
  nodup t th h := by simp [Config.idle] at h
  threads t th h := by simp [Config.idle] at h
  returned c r h := by simp [Config.idle] at h

/-- Threads other than the owner do not hold the mutex. -/
theorem Good.disjoint (h : Good P post cfg) {t u : ι} {th tu : Thread σ μ χ κ ρ} (hne : u ≠ t)
    (ht : cfg.thread t = some th) (hu : cfg.thread u = some tu) : tu.held.Disjoint th.held := by
  intro m hmu hmt
  have h₁ := (h.owner m u).mpr ⟨tu, hu, hmu⟩
  have h₂ := (h.owner m t).mpr ⟨th, ht, hmt⟩
  rw [h₁, Option.some.injEq] at h₂
  exact hne h₂

variable [DecidableEq ι]

/-- Thread `t` changes, into `x`: the others stay as they are, so the invariant is
a matter of `t` and of what the others know of the state. -/
theorem Good.update (h : Good P post cfg) {cfg' : Config σ μ χ ι κ ρ} (t : ι)
    (x : Option (Thread σ μ χ κ ρ)) (hx : cfg'.thread = Function.update cfg.thread t x)
    (hinv : P.inv cfg'.shared) (hfree : ∀ m, cfg'.owner m = none → P.free m cfg'.shared)
    (hothers : ∀ m u, u ≠ t → (cfg'.owner m = some u ↔ cfg.owner m = some u))
    (hself : ∀ m, cfg'.owner m = some t ↔ ∃ th, x = some th ∧ m ∈ th.held)
    (hn : ∀ th, x = some th → th.held.Nodup)
    (hsafe : ∀ th, x = some th → ThreadSafe P post cfg'.shared th)
    (hrest : ∀ u tu, u ≠ t → cfg.thread u = some tu → ThreadSafe P post cfg'.shared tu)
    (hret : ∀ c r, (c, r) ∈ cfg'.history → post c r cfg'.shared) : Good P post cfg' where
  inv := hinv
  free := hfree
  owner m u := by
    by_cases hu : u = t
    · subst hu; rw [hx, Function.update_self]; exact hself m
    · rw [hothers m u hu, hx, Function.update_of_ne hu]; exact h.owner m u
  nodup u tu hu := by
    rw [hx] at hu
    rcases Config.update_eq_some hu with ⟨-, he⟩ | ⟨-, hu⟩
    · exact hn tu he
    · exact h.nodup u tu hu
  threads u tu hu := by
    rw [hx] at hu
    rcases Config.update_eq_some hu with ⟨-, he⟩ | ⟨hut, hu⟩
    · exact hsafe tu he
    · exact hrest u tu hut hu
  returned := hret

/-- A thread takes a step that concerns neither the state nor the mutexes. -/
theorem Good.put (h : Good P post cfg) {t : ι} {th : Thread σ μ χ κ ρ}
    (hheld : ∀ m, m ∈ th.held ↔ ∃ th', cfg.thread t = some th' ∧ m ∈ th'.held)
    (hn : th.held.Nodup) (hsafe : ThreadSafe P post cfg.shared th) : Good P post (cfg.put t th) := by
  refine h.update t (some th) rfl h.inv h.free (fun _ _ _ => Iff.rfl) (fun m => ?_) ?_ ?_
    (fun u tu _ hu => h.threads u tu hu) h.returned
  · simp [h.owner, hheld]
  · rintro _ ⟨⟩; exact hn
  · rintro _ ⟨⟩; exact hsafe

theorem Good.put_same (h : Good P post cfg) {t : ι} {th th' : Thread σ μ χ κ ρ}
    (ht : cfg.thread t = some th) (hheld : th'.held = th.held)
    (hsafe : ThreadSafe P post cfg.shared th') : Good P post (cfg.put t th') :=
  h.put (fun m => by simp [ht, hheld]) (hheld ▸ h.nodup t th ht) hsafe

/-- A thread changes the state. -/
theorem Good.act (h : Good P post cfg) {entry : κ → Prog σ μ χ ρ} (hS : Sound P post entry) {t : ι}
    {th : Thread σ μ χ κ ρ} (ht : cfg.thread t = some th) {s' : σ} (hi : P.inv s')
    (hm : P.may th.call th.held cfg.shared s') (code : Prog σ μ χ ρ)
    (hsafe : ThreadSafe P post s' { th with code := code }) :
    Good P post { cfg.put t { th with code := code } with shared := s' } := by
  refine h.update t (some { th with code := code }) rfl hi (fun m hfree => ?_)
    (fun _ _ _ => Iff.rfl) (fun m => by simp [h.owner, ht]) ?_ ?_ (fun u tu hut hu => ?_)
    (fun c r hcr => hS.post_stable c r _ _ _ _ h.inv hm (h.returned c r hcr))
  · have hfree : cfg.owner m = none := hfree
    refine hS.free_stable _ _ _ _ m h.inv hm (fun hmem => ?_) (h.free m hfree)
    rw [(h.owner m t).mpr ⟨th, ht, hmem⟩] at hfree
    cases hfree
  · rintro _ ⟨⟩; exact h.nodup t th ht
  · rintro _ ⟨⟩; exact hsafe
  · exact (h.threads u tu hu).rely h.inv (.step (h.disjoint hut ht hu) hi hm)

/-- A call returns. -/
theorem Good.ret (h : Good P post cfg) {t : ι} {th : Thread σ μ χ κ ρ}
    (ht : cfg.thread t = some th) (hheld : th.held = []) {r : ρ} (hp : post th.call r cfg.shared) :
    Good P post { cfg with
      thread := Function.update cfg.thread t none, history := (th.call, r) :: cfg.history } := by
  refine h.update t none rfl h.inv h.free (fun _ _ _ => Iff.rfl) (fun m => ?_) (by nofun) (by nofun)
    (fun u tu _ hu => h.threads u tu hu) (fun c r' hcr => ?_)
  · simp [h.owner, ht, hheld]
  · rcases List.mem_cons.mp hcr with he | hmem
    · cases he; exact hp
    · exact h.returned c r' hmem

/-- A woken thread asks for its mutex. -/
theorem Good.wake (h : Good P post cfg) {t : ι} {th : Thread σ μ χ κ ρ}
    (ht : cfg.thread t = some th) (hb : th.blocked = true) : Good P post (cfg.put t th.wake) := by
  have hs := h.threads t th ht
  rw [ThreadSafe, if_pos hb] at hs
  obtain ⟨cv, m, timed, ready, k, he, hs, -⟩ := hs
  apply h.put_same ht (by simp [Thread.wake, he])
  rw [ThreadSafe.of_running (by simp [Thread.wake, he])]
  simpa [Thread.wake, he] using hs

variable [DecidableEq μ]

/-- A thread takes a free mutex. -/
theorem Good.lock (h : Good P post cfg) {t : ι} {th : Thread σ μ χ κ ρ}
    (ht : cfg.thread t = some th) {m : μ} (hm : cfg.owner m = none) (code : Prog σ μ χ ρ)
    (hsafe : ThreadSafe P post cfg.shared { th with code := code, held := m :: th.held }) :
    Good P post { cfg.put t { th with code := code, held := m :: th.held } with
      owner := Function.update cfg.owner m (some t) } := by
  have hnone : ∀ u, cfg.owner m ≠ some u := by simp [hm]
  refine h.update t (some { th with code := code, held := m :: th.held }) rfl h.inv
    (fun m' hm' => ?_) (fun m' u hu => ?_) (fun m' => ?_) ?_ ?_
    (fun u tu _ hu => h.threads u tu hu) h.returned
  · by_cases he : m' = m
    · exact he ▸ h.free m hm
    · exact h.free m' (by simpa [he] using hm')
  · by_cases he : m' = m
    · subst he; simp [hnone, Ne.symm hu]
    · simp [he]
  · by_cases he : m' = m
    · subst he; simp
    · simp [he, h.owner, ht]
  · rintro _ ⟨⟩
    exact List.nodup_cons.mpr ⟨fun hmem => hnone t ((h.owner m t).mpr ⟨th, ht, hmem⟩), h.nodup t th ht⟩
  · rintro _ ⟨⟩; exact hsafe

/-- A thread gives up the mutex it took last. -/
theorem Good.unlock (h : Good P post cfg) {t : ι} {th th' : Thread σ μ χ κ ρ}
    (ht : cfg.thread t = some th) {m : μ} (hheld : th.held = m :: th'.held)
    (hf : P.free m cfg.shared) (hsafe : ThreadSafe P post cfg.shared th') :
    Good P post { cfg.put t th' with owner := Function.update cfg.owner m none } := by
  have hn := h.nodup t th ht
  rw [hheld, List.nodup_cons] at hn
  have hown : cfg.owner m = some t := (h.owner m t).mpr ⟨th, ht, by simp [hheld]⟩
  refine h.update t (some th') rfl h.inv (fun m' hm' => ?_) (fun m' u hu => ?_) (fun m' => ?_) ?_ ?_
    (fun u tu _ hu => h.threads u tu hu) h.returned
  · by_cases he : m' = m
    · exact he ▸ hf
    · exact h.free m' (by simpa [he] using hm')
  · by_cases he : m' = m
    · subst he; simp [hown, Ne.symm hu]
    · simp [he]
  · by_cases he : m' = m
    · subst he; simp [hn.1]
    · simp [he, h.owner, ht, hheld]
  · rintro _ ⟨⟩; exact hn.2
  · rintro _ ⟨⟩; exact hsafe

variable [DecidableEq χ] [Fintype ι]

/-- What a step of a thread does to the state: nothing, or what the protocol allows. -/
def Allowed (P : Protocol σ μ κ) (th : Thread σ μ χ κ ρ) (s s' : σ) : Prop :=
  s' = s ∨ P.may th.call th.held s s'

omit [Fintype ι] in
/-- A move keeps the invariant, and only a thread that runs changes the state. -/
theorem Good.moves {entry : κ → Prog σ μ χ ρ} (hS : Sound P post entry) (h : Good P post cfg)
    {a : Action ι κ} {cfg' : Config σ μ χ ι κ ρ} (hm : Moves entry cfg a cfg') : Good P post cfg' ∧
      (cfg'.shared = cfg.shared ∨ ∃ t th, a = .run t ∧ cfg.thread t = some th ∧
        P.may th.call th.held cfg.shared cfg'.shared) := by
  cases hm with
  | call t c ht =>
    refine ⟨h.put (by simp [ht]) List.nodup_nil ?_, .inl rfl⟩
    exact ThreadSafe.running rfl (hS.entry c _ h.inv)
  | ret ht hb hcode =>
    obtain ⟨hheld, hp⟩ := h.safe ht hb hcode cfg.shared .refl h.inv
    exact ⟨h.ret ht hheld hp, .inl rfl⟩
  | act ht hb hcode =>
    obtain ⟨hm, hi, hk⟩ := h.safe ht hb hcode cfg.shared .refl h.inv
    exact ⟨h.act hS ht hi hm _ (.running hb hk), .inr ⟨_, _, rfl, ht, hm⟩⟩
  | lock ht hb hcode hm =>
    have hk := (h.safe ht hb hcode cfg.shared .refl h.inv).2 (h.free _ hm)
    exact ⟨h.lock ht hm _ (.running hb hk), .inl rfl⟩
  | unlock ht hb hcode =>
    obtain ⟨rest, hheld, hs⟩ := h.safe ht hb hcode
    obtain ⟨hf, hk⟩ := hs cfg.shared .refl h.inv
    refine ⟨h.unlock ht (by simp [hheld]) hf (.running hb ?_), .inl rfl⟩
    simpa [hheld] using hk
  | goOn ht hb hcode hr =>
    obtain ⟨rest, hheld, W, hW, -, hgo, -⟩ := h.safe ht hb hcode
    exact ⟨h.put_same ht rfl (.running hb (hgo _ hW h.inv (.inl hr))), .inl rfl⟩
  | block ht hb hcode hr =>
    obtain ⟨rest, hheld, hf, hlock, htime⟩ := (h.safe ht hb hcode).relock h.inv hr
    refine ⟨h.unlock ht (by simp [hheld]) hf ?_, .inl rfl⟩
    rw [ThreadSafe, if_pos rfl]
    refine ⟨_, _, _, _, _, hcode, ?_, fun htd => ?_⟩
    · simpa [hheld] using hlock
    · simpa [hheld] using htime htd
  | notifyNobody ht hb hcode =>
    have hk := h.safe ht hb hcode
    exact ⟨h.put_same ht rfl (.running hb hk), .inl rfl⟩
  | @notify t u th tu c k ht hb hcode hu hw =>
    have hk := h.safe ht hb hcode
    have hput : Good P post (cfg.put t { th with code := k }) := h.put_same ht rfl (.running hb hk)
    have hblocked : tu.blocked = true := (Thread.blocked_of_waitsOn hw).1
    refine ⟨hput.wake ?_ hblocked, .inl rfl⟩
    rw [Config.put_of_ne _ _ (Thread.ne_of_waitsOn ht hb hu hw)]
    exact hu
  | wake ht hb => exact ⟨h.wake ht hb, .inl rfl⟩
  | timeout ht hb hcode =>
    have hs := h.threads _ _ ht
    rw [ThreadSafe, if_pos hb] at hs
    obtain ⟨cv, m, timed, ready, k, he, -, htime⟩ := hs
    rw [hcode] at he
    cases he
    exact ⟨h.put_same ht rfl (.running rfl (htime rfl)), .inl rfl⟩

/-- A thread that runs does what the protocol allows. -/
theorem Good.run {entry : κ → Prog σ μ χ ρ} (hS : Sound P post entry) (h : Good P post cfg) {t : ι}
    {cfg' : Config σ μ χ ι κ ρ} (hr : perform entry cfg (.run t) = some cfg') :
    ∃ th, cfg.thread t = some th ∧ Allowed P th cfg.shared cfg'.shared := by
  cases ht : cfg.thread t with
  | none => simp [perform, ht] at hr
  | some th =>
    refine ⟨th, rfl, (h.moves hS (moves_of_perform hr)).2.imp_right ?_⟩
    rintro ⟨u, tu, ⟨⟩, hu, hm⟩
    obtain rfl := Option.some.inj (ht.symm.trans hu)
    exact hm

/-- The step lemma: a step keeps the invariant, and only threads that run change the
state. -/
theorem Good.step {entry : κ → Prog σ μ χ ρ} (hS : Sound P post entry) (h : Good P post cfg)
    {cfg' : Config σ μ χ ι κ ρ} (hstep : Step entry cfg cfg') :
    Good P post cfg' ∧ (cfg'.shared = cfg.shared ∨ ∃ t, perform entry cfg (.run t) = some cfg') := by
  obtain ⟨a, ha⟩ := hstep
  refine (h.moves hS (moves_of_perform ha)).imp_right (Or.imp_right ?_)
  rintro ⟨t, th, rfl, -⟩
  exact ⟨t, ha⟩

/-- The run lemma. -/
theorem Good.reaches {entry : κ → Prog σ μ χ ρ} (hS : Sound P post entry) (h : Good P post cfg)
    {cfg' : Config σ μ χ ι κ ρ} (hr : Reaches entry cfg cfg') : Good P post cfg' := by
  induction hr with
  | refl => exact h
  | tail _ hstep ih => exact (ih.step hS hstep).1

/-- A fact of the shared state that the protocol keeps holds along every run. -/
theorem Good.keeps {entry : κ → Prog σ μ χ ρ} (hS : Sound P post entry) (h : Good P post cfg)
    {F : σ → Prop} (hF : ∀ c held s s', P.inv s → P.may c held s s' → F s → F s')
    {cfg' : Config σ μ χ ι κ ρ} (hr : Reaches entry cfg cfg') (hf : F cfg.shared) :
    F cfg'.shared := by
  induction hr with
  | refl => exact hf
  | tail hpre hstep ih =>
    have hg := h.reaches hS hpre
    rcases (hg.step hS hstep).2 with he | ⟨t, ht⟩
    · rw [he]; exact ih
    · obtain ⟨th, -, he | hm⟩ := hg.run hS ht
      · rw [he]; exact ih
      · exact hF _ _ _ _ hg.inv hm ih

end Soundness

end Concurrency
