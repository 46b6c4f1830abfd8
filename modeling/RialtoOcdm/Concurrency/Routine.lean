import RialtoOcdm.Concurrency.Protocol

/-! Routines: programs that are safe wherever they start, give back the mutexes they
take, and are put together without naming a state. A routine runs in a context that
the others keep while `held` is held, and yields lasting facts, which the code after
it may assume. -/

namespace Concurrency

variable {σ μ χ κ α β : Type}

namespace Protocol

variable (P : Protocol σ μ κ)

/-- The others keep `C` while `held` is held. -/
def Keeps (held : List μ) (C : σ → Prop) : Prop :=
  ∀ s s', P.inv s → P.Rely held s s' → C s → C s'

/-- `p` is safe in the context `C` and yields `Q`. -/
def Yields (C : σ → Prop) (c : κ) (held : List μ) (p : Prog σ μ χ α) (Q : α → σ → Prop) : Prop :=
  ∀ s, P.inv s → C s → P.Safe c p (fun a h s' => h = held ∧ C s' ∧ Q a s') held s

/-- `p` is safe in the context `C`. -/
def Routine (C : σ → Prop) (c : κ) (held : List μ) (p : Prog σ μ χ α) : Prop :=
  P.Yields C c held p fun _ _ => True

variable {P} {C F : σ → Prop} {c : κ} {held : List μ} {p : Prog σ μ χ α} {Q Q' : α → σ → Prop}

theorem lasting_true : P.Lasting fun _ => True := fun _ _ _ _ _ _ _ => trivial

theorem keeps_true : P.Keeps held fun _ => True := fun _ _ _ _ _ => trivial

theorem Keeps.and {D : σ → Prop} (h : P.Keeps held C) (h' : P.Keeps held D) :
    P.Keeps held fun s => C s ∧ D s := fun s s' hi hr hc => ⟨h s s' hi hr hc.1, h' s s' hi hr hc.2⟩

theorem Keeps.cons {m : μ} (h : P.Keeps held C) : P.Keeps (m :: held) C := fun s s' hi hr =>
  h s s' hi (hr.mono (List.subset_cons_self m held))

theorem Keeps.assume (h : P.Keeps held C) : (P.assume F).Keeps held C := fun s s' hi hr =>
  h s s' hi.1 hr.of_assume

theorem Lasting.assume {G : σ → Prop} (h : P.Lasting G) : (P.assume F).Lasting G :=
  fun c held s s' hi => h c held s s' hi.1

/-- A fact that lasts is a context. -/
theorem Lasting.keeps (h : P.Lasting C) : P.Keeps held C := fun _ _ hi hr hc => h.rely hi hc hr

namespace Yields

theorem ret (hC : P.Keeps held C) {a : α} (hQ : P.Lasting (Q a)) (h : ∀ s, P.inv s → Q a s) :
    P.Yields C c held (.ret a : Prog σ μ χ α) Q := fun s hi hc s' hr _ =>
  ⟨rfl, hC s s' hi hr hc, hQ.rely hi (h s hi) hr⟩

/-- Sequencing: what the first program yields may be assumed in the second. -/
theorem bind {g : α → Prog σ μ χ β} {Q' : β → σ → Prop} (hQ : ∀ a, P.Lasting (Q a))
    (hp : P.Yields C c held p Q) (hg : ∀ a, (P.assume (Q a)).Yields C c held (g a) Q') :
    P.Yields C c held (p >>= g) Q' := fun s hi hc => by
  refine .bind hi ((hp s hi hc).mono ?_ hi)
  rintro a _ s' hi' ⟨rfl, hc', hq⟩
  exact .of_assume (hQ a) hi' hq (hg a s' ⟨hi', hq⟩ hc')

/-- Sequencing, where it does not matter what the first program yields. -/
theorem after {g : α → Prog σ μ χ β} {Q' : β → σ → Prop} (hp : P.Routine C c held p)
    (hg : ∀ a, P.Yields C c held (g a) Q') : P.Yields C c held (p >>= g) Q' := fun s hi hc => by
  refine .bind hi ((hp s hi hc).mono ?_ hi)
  rintro a _ s' hi' ⟨rfl, hc', -⟩
  exact hg a s' hi' hc'

theorem update (hC : P.Keeps held C) {f : σ → α × σ} (hQ : ∀ a, P.Lasting (Q a))
    (h : ∀ s, P.inv s → C s → P.may c held s (f s).2 ∧ P.inv (f s).2 ∧ C (f s).2 ∧ Q (f s).1 (f s).2) :
    P.Yields C c held (.update f : Prog σ μ χ α) Q := fun s hi hc s' hr hi' => by
  obtain ⟨hm, hi'', hc'', hq⟩ := h s' hi' (hC s s' hi hr hc)
  exact ⟨hm, hi'', fun s'' hr' _ => ⟨rfl, hC _ s'' hi'' hr' hc'', (hQ _).rely hi'' hq hr'⟩⟩

/-- A scope guarded by `m`. -/
theorem withLock {m : μ} (hC : P.Keeps held C) (hQ : ∀ a, P.Lasting (Q a))
    (hreq : ∀ s, P.inv s → C s → P.request c held m s) (hfree : ∀ s, P.inv s → P.free m s)
    (hp : P.Yields C c (m :: held) p Q) : P.Yields C c held (.withLock m p) Q := by
  intro s hi hc s' hr hi'
  have hc' := hC s s' hi hr hc
  refine ⟨hreq s' hi' hc', fun _ => .bind hi' ((hp s' hi' hc').mono ?_ hi')⟩
  rintro a _ s₁ hi₁ ⟨rfl, hc₁, hq₁⟩
  refine ⟨held, rfl, fun s₂ hr₂ hi₂ => ⟨hfree s₂ hi₂, fun s₃ hr₃ _ => ⟨rfl, ?_, ?_⟩⟩⟩
  · exact hC s₂ s₃ hi₂ hr₃ (hC.cons s₁ s₂ hi₁ hr₂ hc₁)
  · exact (hQ a).rely hi₂ ((hQ a).rely hi₁ hq₁ hr₂) hr₃

end Yields

namespace Routine

theorem ret (hC : P.Keeps held C) (a : α) : P.Routine C c held (.ret a : Prog σ μ χ α) :=
  Yields.ret hC lasting_true fun _ _ => trivial

theorem bind {g : α → Prog σ μ χ β} (hp : P.Routine C c held p)
    (hg : ∀ a, P.Routine C c held (g a)) : P.Routine C c held (p >>= g) := Yields.after hp hg

theorem update (hC : P.Keeps held C) {f : σ → α × σ}
    (h : ∀ s, P.inv s → C s → P.may c held s (f s).2 ∧ P.inv (f s).2 ∧ C (f s).2) :
    P.Routine C c held (.update f : Prog σ μ χ α) :=
  Yields.update hC (fun _ => lasting_true) fun s hi hc =>
    ⟨(h s hi hc).1, (h s hi hc).2.1, (h s hi hc).2.2, trivial⟩

/-- A fact that the first program yields is known in the rest. -/
theorem of_yields {g : α → Prog σ μ χ β} {Q : α → σ → Prop} (hp : P.Yields C c held p Q)
    (hQ : ∀ a, P.Lasting (Q a)) (hg : ∀ a, (P.assume (Q a)).Routine C c held (g a)) :
    P.Routine C c held (p >>= g) := hp.bind hQ hg

/-- A step that leads into a narrower context. -/
theorem enter (hC : P.Keeps held C) {f : σ → α × σ} {D : α → σ → Prop}
    {g : α → Prog σ μ χ β} (h : ∀ s, P.inv s → C s →
      P.may c held s (f s).2 ∧ P.inv (f s).2 ∧ C (f s).2 ∧ D (f s).1 (f s).2)
    (hg : ∀ a, P.Routine (fun s => C s ∧ D a s) c held (g a)) :
    P.Routine C c held (.update f >>= g) := fun s hi hc s' hr hi' => by
  obtain ⟨hm, hi'', hc'', hc₁⟩ := h s' hi' (hC s s' hi hr hc)
  exact ⟨hm, hi'', (hg _ _ hi'' ⟨hc'', hc₁⟩).mono
    (fun _ _ _ _ ⟨he, hc₂, _⟩ => ⟨he, hc₂.1, trivial⟩) hi''⟩

theorem signal (hC : P.Keeps held C) (cv : χ) :
    P.Routine C c held (.signal cv : Prog σ μ χ Unit) := fun s hi hc =>
  (Routine.ret hC () : P.Routine C c held (.ret () : Prog σ μ χ Unit)) s hi hc

theorem withLock {m : μ} (hC : P.Keeps held C) (hreq : ∀ s, P.inv s → C s → P.request c held m s)
    (hfree : ∀ s, P.inv s → P.free m s) (hp : P.Routine C c (m :: held) p) :
    P.Routine C c held (.withLock m p) :=
  Yields.withLock hC (fun _ => lasting_true) hreq hfree hp

/-- A wait that gives up `m`, timed or not. -/
theorem wait {m : μ} (hC : P.Keeps held C) (hreq : ∀ s, P.inv s → C s → P.request c held m s)
    (hfree : ∀ s, P.inv s → P.free m s) (cv : χ) (timed : Bool) (ready : σ → Bool) :
    P.Routine C c (m :: held) (.wait cv m timed ready (.ret ()) : Prog σ μ χ Unit) := by
  intro s hi hc
  refine ⟨held, rfl, C, hc, fun s s' hc hi hr => hC.cons s s' hi hr hc, fun s hc hi _ => ?_,
    fun s hc hi _ => ⟨hfree s hi, fun s' hr hi' => ?_⟩⟩
  · exact Routine.ret hC.cons () s hi hc
  · have hc' := hC s s' hi hr hc
    exact ⟨hreq s' hi' hc', fun _ => hc'⟩

theorem forM (hC : P.Keeps held C) {l : List β} {f : β → Prog σ μ χ PUnit}
    (hf : ∀ b ∈ l, P.Routine C c held (f b)) : P.Routine C c held (l.forM f) := by
  induction l with
  | nil => exact .ret hC _
  | cons b l ih => exact (hf b (by simp)).bind fun _ => ih fun b hb => hf b (by simp [hb])

end Routine

/-! ### Preconditions and postconditions

A program that leads from one context to another. -/

variable (P) in
/-- `p` leads from `C` to `D`, whatever the others do meanwhile. -/
def Leads (C : σ → Prop) (c : κ) (held : List μ) (p : Prog σ μ χ α) (D : α → σ → Prop) : Prop :=
  ∀ s, P.inv s → C s → P.Safe c p (fun a h s' => h = held ∧ D a s') held s

theorem Routine.leads (h : P.Routine C c held p) : P.Leads C c held p fun _ => C := fun s hi hc =>
  (h s hi hc).mono (fun _ _ _ _ ⟨he, hc', _⟩ => ⟨he, hc'⟩) hi

namespace Leads

variable {D : α → σ → Prop} {E : β → σ → Prop}

theorem ret {a : α} (hD : P.Keeps held (D a)) (h : ∀ s, P.inv s → C s → D a s) :
    P.Leads C c held (.ret a : Prog σ μ χ α) D := fun s hi hc s' hr _ =>
  ⟨rfl, hD s s' hi hr (h s hi hc)⟩

/-- Sequencing. -/
theorem bind {g : α → Prog σ μ χ β} (hp : P.Leads C c held p D)
    (hg : ∀ a, P.Leads (D a) c held (g a) E) : P.Leads C c held (p >>= g) E := fun s hi hc => by
  refine .bind hi ((hp s hi hc).mono ?_ hi)
  rintro a _ s' hi' ⟨rfl, hd⟩
  exact hg a s' hi' hd

theorem update (hC : P.Keeps held C) (hD : ∀ a, P.Keeps held (D a)) {f : σ → α × σ}
    (h : ∀ s, P.inv s → C s → P.may c held s (f s).2 ∧ P.inv (f s).2 ∧ D (f s).1 (f s).2) :
    P.Leads C c held (.update f : Prog σ μ χ α) D := fun s hi hc s' hr hi' => by
  obtain ⟨hm, hi'', hd⟩ := h s' hi' (hC s s' hi hr hc)
  exact ⟨hm, hi'', fun s'' hr' _ => ⟨rfl, hD _ _ s'' hi'' hr' hd⟩⟩

theorem modify {D : Unit → σ → Prop} (hC : P.Keeps held C) (hD : P.Keeps held (D ())) {f : σ → σ}
    (h : ∀ s, P.inv s → C s → P.may c held s (f s) ∧ P.inv (f s) ∧ D () (f s)) :
    P.Leads C c held (.modify f : Prog σ μ χ Unit) D :=
  update (f := fun s => ((), f s)) hC (fun _ => hD) h

/-- A scope guarded by `m`: what is true of the state when `m` is free is known inside,
and is true again at its end. -/
theorem withLock {m : μ} (hC : P.Keeps held C) (hD : ∀ a, P.Keeps held (D a))
    (hreq : ∀ s, P.inv s → C s → P.request c held m s)
    (hp : P.Leads (fun s => C s ∧ P.free m s) c (m :: held) p fun a s => D a s ∧ P.free m s)
    (hfree : ∀ a, P.Keeps (m :: held) fun s => D a s ∧ P.free m s) :
    P.Leads C c held (.withLock m p) D := by
  intro s hi hc s' hr hi'
  have hc' := hC s s' hi hr hc
  refine ⟨hreq s' hi' hc', fun hf => .bind hi' ((hp s' hi' ⟨hc', hf⟩).mono ?_ hi')⟩
  rintro a _ s₁ hi₁ ⟨rfl, hd₁⟩
  refine ⟨held, rfl, fun s₂ hr₂ hi₂ => ?_⟩
  obtain ⟨hd₂, hf₂⟩ := hfree a s₁ s₂ hi₁ hr₂ hd₁
  exact ⟨hf₂, fun s₃ hr₃ _ => ⟨rfl, hD a s₂ s₃ hi₂ hr₃ hd₂⟩⟩

/-- A scope guarded by a mutex that guards nothing of the kind. -/
theorem withPlainLock {m : μ} (hC : P.Keeps held C) (hD : ∀ a, P.Keeps held (D a))
    (hreq : ∀ s, P.inv s → C s → P.request c held m s) (hfree : ∀ s, P.inv s → P.free m s)
    (hp : P.Leads C c (m :: held) p D) : P.Leads C c held (.withLock m p) D := by
  refine .withLock hC hD hreq (fun s hi hc => (hp s hi hc.1).mono ?_ hi) fun a s s' hi hr hd =>
    ⟨(hD a).cons s s' hi hr hd.1, hfree s' (hr.inv hi)⟩
  rintro a _ s' hi' ⟨rfl, hd⟩
  exact ⟨rfl, hd, hfree s' hi'⟩

end Leads

end Protocol

end Concurrency
