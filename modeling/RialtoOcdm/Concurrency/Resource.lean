import RialtoOcdm.Concurrency.Machine
import Mathlib.Algebra.BigOperators.Group.Finset.Basic

/-! A resource that is used under a mutex, while other code changes the state in ways that
are nothing to it. What is abstract of the resource and of the threads is a machine of its
own, in which a whole critical section is one effect. `Serves` is what is asked of a
program; if every call serves, the machine of the threads simulates the abstract one, so
that what is invariant there holds in every interleaving. -/

namespace Concurrency

variable {σ μ χ ι κ ρ α β A G : Type}

/-- A resource over the states `σ`, of type `A` in the abstract. A thread in a call has
something of its own, of type `G`: `start` is what it begins with and `finish` tells with
what it may return. An effect of the call changes both. `rel` holds between two critical
sections, `during` in each, and `env` is what others may do any time. A critical section
may rely on `pre`, other code on `known`; `does` is asked of each step of a call. -/
structure Resource (σ κ ρ A G : Type) where
  start : κ → G
  effect : κ → A → G → A → G → Prop
  finish : κ → ρ → G → Prop
  pre : κ → A → G → Prop
  rel : σ → A → Prop
  during : κ → A → G → σ → Prop
  known : κ → G → σ → Prop
  does : κ → σ → σ → Prop
  env : σ → σ → Prop
  env_refl : ∀ s, env s s
  env_trans : ∀ {s₁ s₂ s₃}, env s₁ s₂ → env s₂ s₃ → env s₁ s₃
  rel_env : ∀ {s s' a}, rel s a → env s s' → rel s' a

/-- The resource, the calls that the threads are in with what they have, and the calls that
have returned, the last one first. -/
structure Sharing (ι κ ρ A G : Type) where
  resource : A
  thread : ι → Option (κ × G)
  history : List (κ × ρ)

namespace Sharing

/-- Nobody is in a call. -/
def idle (a : A) : Sharing ι κ ρ A G := ⟨a, fun _ => none, []⟩

variable [DecidableEq ι]

@[simps] def call (x : Sharing ι κ ρ A G) (t : ι) (c : κ) (g : G) : Sharing ι κ ρ A G :=
  { x with thread := Function.update x.thread t (some (c, g)) }

@[simps] def effect (x : Sharing ι κ ρ A G) (t : ι) (c : κ) (a : A) (g : G) : Sharing ι κ ρ A G :=
  { x with resource := a, thread := Function.update x.thread t (some (c, g)) }

@[simps] def ret (x : Sharing ι κ ρ A G) (t : ι) (c : κ) (r : ρ) : Sharing ι κ ρ A G :=
  { x with thread := Function.update x.thread t none, history := (c, r) :: x.history }

/-- A critical section of a call takes effect, or a call returns. -/
inductive Goes (O : Resource σ κ ρ A G) (x : Sharing ι κ ρ A G) : Sharing ι κ ρ A G → Prop
  | effect {t c g a g'} (h : x.thread t = some (c, g)) (he : O.effect c x.resource g a g') :
      Goes O x (x.effect t c a g')
  | ret {t c g r} (h : x.thread t = some (c, g)) (hf : O.finish c r g) : Goes O x (x.ret t c r)

inductive Step (O : Resource σ κ ρ A G) (x : Sharing ι κ ρ A G) : Sharing ι κ ρ A G → Prop
  | call {t} (c : κ) (h : x.thread t = none) : Step O x (x.call t c (O.start c))
  | goes {y} (h : Goes O x y) : Step O x y

def Reaches (O : Resource σ κ ρ A G) : Sharing ι κ ρ A G → Sharing ι κ ρ A G → Prop :=
  Relation.ReflTransGen (Step O)

section Total

variable [Fintype ι] {x y : Sharing ι κ ρ A G} {t : ι} {c : κ} {g : G}

/-- What the threads that are in a call have, counted by `f`. -/
def total (x : Sharing ι κ ρ A G) (f : κ → G → ℕ) : ℕ :=
  Finset.univ.sum fun t => (x.thread t).elim 0 fun e => f e.1 e.2

theorem total_update (f : κ → G → ℕ) {v : Option (κ × G)} (h : y.thread = Function.update x.thread t v) :
    y.total f + (x.thread t).elim 0 (fun e => f e.1 e.2) = x.total f + v.elim 0 fun e => f e.1 e.2 := by
  have hx := Finset.add_sum_erase Finset.univ (fun u => (x.thread u).elim 0 fun e => f e.1 e.2)
    (Finset.mem_univ t)
  have hy := Finset.add_sum_erase Finset.univ (fun u => (y.thread u).elim 0 fun e => f e.1 e.2)
    (Finset.mem_univ t)
  have hrest : (Finset.univ.erase t).sum (fun u => (y.thread u).elim 0 fun e => f e.1 e.2) =
      (Finset.univ.erase t).sum fun u => (x.thread u).elim 0 fun e => f e.1 e.2 := by
    apply Finset.sum_congr rfl
    intro u hu
    rw [h, Function.update_of_ne (Finset.ne_of_mem_erase hu)]
  have hv : y.thread t = v := by rw [h, Function.update_self]
  simp only [hv] at hy
  unfold total
  omega

theorem total_call (f : κ → G → ℕ) (h : x.thread t = none) :
    (x.call t c g).total f = x.total f + f c g := by
  have hu := total_update (x := x) (y := x.call t c g) f rfl
  rwa [h] at hu

theorem total_effect (f : κ → G → ℕ) (h : x.thread t = some (c, g)) (a : A) (g' : G) :
    (x.effect t c a g').total f + f c g = x.total f + f c g' := by
  have hu := total_update (x := x) (y := x.effect t c a g') f rfl
  rwa [h] at hu

theorem total_ret (f : κ → G → ℕ) (h : x.thread t = some (c, g)) (r : ρ) :
    (x.ret t c r).total f + f c g = x.total f := by
  have hu := total_update (x := x) (y := x.ret t c r) f rfl
  rwa [h] at hu

/-- What one of them has is no more. -/
theorem le_total (f : κ → G → ℕ) (h : x.thread t = some (c, g)) : f c g ≤ x.total f := by
  have hx := Finset.add_sum_erase Finset.univ (fun u => (x.thread u).elim 0 fun e => f e.1 e.2)
    (Finset.mem_univ t)
  rw [h] at hx
  exact Nat.le.intro hx

/-- Nor is what two of them have. -/
theorem add_le_total (f : κ → G → ℕ) (h : x.thread t = some (c, g)) {u : ι} {c' : κ} {g' : G}
    (hu : x.thread u = some (c', g')) (hut : u ≠ t) : f c g + f c' g' ≤ x.total f := by
  have hx := Finset.add_sum_erase Finset.univ (fun u => (x.thread u).elim 0 fun e => f e.1 e.2)
    (Finset.mem_univ t)
  have hx' := Finset.add_sum_erase (Finset.univ.erase t) (fun u => (x.thread u).elim 0 fun e => f e.1 e.2)
    (Finset.mem_erase.mpr ⟨hut, Finset.mem_univ u⟩)
  rw [h, ← hx', hu, ← Nat.add_assoc] at hx
  exact Nat.le.intro hx

end Total

end Sharing

/-! ### Programs -/

namespace Prog

/-- `ret_bind` for code that is left of an action. -/
theorem bind_ret_code (r : α) (k : α → Prog σ μ χ β) : (ret r : Prog σ μ χ α).bind k = k r := rfl

/-- What a call `c` does is right by the resource, which `m` guards: `g` is what its thread
has. In a critical section there is the resource as it was found and the state as it is. -/
def Serves (O : Resource σ κ ρ A G) (m : μ) (c : κ) :
    Prog σ μ χ α → (α → G → Option (A × σ) → Prop) → G → Option (A × σ) → Prop
  | ret r, Q, g, z => Q r g z
  | act f k, Q, g, none => ∀ s, O.known c g s →
    O.env s (f s) ∧ O.does c s (f s) ∧ (k s).Serves O m c Q g none
  | act f k, Q, g, some (a, s) => ∀ s', O.env s s' →
    O.during c a g s' ∧ O.does c s' (f s') ∧ (k s').Serves O m c Q g (some (a, f s'))
  | lock m' k, Q, g, none => (m' ≠ m → k.Serves O m c Q g none) ∧
    (m' = m → ∀ a s, O.pre c a g → O.rel s a → k.Serves O m c Q g (some (a, s)))
  | lock m' k, Q, g, some (a, s) => m' ≠ m ∧ ∀ s', O.env s s' →
    O.during c a g s' ∧ k.Serves O m c Q g (some (a, s'))
  | unlock m' k, Q, g, none => m' ≠ m ∧ k.Serves O m c Q g none
  | unlock m' k, Q, g, some (a, s) => ∀ s', O.env s s' → O.during c a g s' ∧
    (m' ≠ m → k.Serves O m c Q g (some (a, s'))) ∧
    (m' = m → ∃ a' g', ((a' = a ∧ g' = g) ∨ O.effect c a g a' g') ∧ O.rel s' a' ∧
      k.Serves O m c Q g' none)
  | wait _ m' _ _ k, Q, g, none => m' ≠ m ∧ k.Serves O m c Q g none
  -- the resource must be as it was found, and is found again later
  | wait _ m' timed ready k, Q, g, some (a, s) => m' = m ∧ O.rel s a ∧
    ∀ a s, O.pre c a g → O.rel s a → ready s = true ∨ timed = true →
      k.Serves O m c Q g (some (a, s))
  | notifyOne _ k, Q, g, none => k.Serves O m c Q g none
  | notifyOne _ k, Q, g, some (a, s) => ∀ s', O.env s s' →
    O.during c a g s' ∧ k.Serves O m c Q g (some (a, s'))

section Serves

variable {O : Resource σ κ ρ A G} {m : μ} {c : κ} {p : Prog σ μ χ α}
  {Q Q' : α → G → Option (A × σ) → Prop} {g : G} {z : Option (A × σ)} {a : A} {s s' : σ}

theorem Serves.mono (h : p.Serves O m c Q g z) (hQ : ∀ r g z, Q r g z → Q' r g z) :
    p.Serves O m c Q' g z := by
  induction p generalizing g z with
  | ret r => exact hQ r g z h
  | act f k ih =>
    rcases z with _ | ⟨a, s⟩
    · exact fun s hs => ⟨(h s hs).1, (h s hs).2.1, ih s (h s hs).2.2⟩
    · exact fun s' hs => ⟨(h s' hs).1, (h s' hs).2.1, ih s' (h s' hs).2.2⟩
  | lock m' k ih =>
    rcases z with _ | ⟨a, s⟩
    · exact ⟨fun hm => ih (h.1 hm), fun hm a s hp hr => ih (h.2 hm a s hp hr)⟩
    · exact ⟨h.1, fun s' hs => ⟨(h.2 s' hs).1, ih (h.2 s' hs).2⟩⟩
  | unlock m' k ih =>
    rcases z with _ | ⟨a, s⟩
    · exact ⟨h.1, ih h.2⟩
    · intro s' hs
      obtain ⟨hJ, hne, heq⟩ := h s' hs
      refine ⟨hJ, fun hm => ih (hne hm), fun hm => ?_⟩
      obtain ⟨a', g', he, hr, hk⟩ := heq hm
      exact ⟨a', g', he, hr, ih hk⟩
  | wait cv m' timed ready k ih =>
    rcases z with _ | ⟨a, s⟩
    · exact ⟨h.1, ih h.2⟩
    · exact ⟨h.1, h.2.1, fun a s hp hr hg => ih (h.2.2 a s hp hr hg)⟩
  | notifyOne cv k ih =>
    rcases z with _ | ⟨a, s⟩
    · exact ih h
    · exact fun s' hs => ⟨(h s' hs).1, ih (h s' hs).2⟩

/-- Sequencing. -/
theorem Serves.bind {k : α → Prog σ μ χ β} {Q : β → G → Option (A × σ) → Prop}
    (h : p.Serves O m c (fun r g z => (k r).Serves O m c Q g z) g z) :
    (p >>= k).Serves O m c Q g z := by
  induction p generalizing g z with
  | ret r => exact h
  | act f k ih =>
    rcases z with _ | ⟨a, s⟩
    · exact fun s hs => ⟨(h s hs).1, (h s hs).2.1, ih s (h s hs).2.2⟩
    · exact fun s' hs => ⟨(h s' hs).1, (h s' hs).2.1, ih s' (h s' hs).2.2⟩
  | lock m' k ih =>
    rcases z with _ | ⟨a, s⟩
    · exact ⟨fun hm => ih (h.1 hm), fun hm a s hp hr => ih (h.2 hm a s hp hr)⟩
    · exact ⟨h.1, fun s' hs => ⟨(h.2 s' hs).1, ih (h.2 s' hs).2⟩⟩
  | unlock m' k ih =>
    rcases z with _ | ⟨a, s⟩
    · exact ⟨h.1, ih h.2⟩
    · intro s' hs
      obtain ⟨hJ, hne, heq⟩ := h s' hs
      refine ⟨hJ, fun hm => ih (hne hm), fun hm => ?_⟩
      obtain ⟨a', g', he, hr, hk⟩ := heq hm
      exact ⟨a', g', he, hr, ih hk⟩
  | wait cv m' timed ready k ih =>
    rcases z with _ | ⟨a, s⟩
    · exact ⟨h.1, ih h.2⟩
    · exact ⟨h.1, h.2.1, fun a s hp hr hg => ih (h.2.2 a s hp hr hg)⟩
  | notifyOne cv k ih =>
    rcases z with _ | ⟨a, s⟩
    · exact ih h
    · exact fun s' hs => ⟨(h s' hs).1, ih (h s' hs).2⟩

/-- A loop in a critical section: `I` is true before and after each round. -/
theorem Serves.forM {l : List β} {f : β → Prog σ μ χ PUnit} {I : σ → Prop}
    (h : ∀ b ∈ l, ∀ s, I s → (f b).Serves O m c (fun _ g' z => g' = g ∧ ∃ s', z = some (a, s') ∧ I s')
      g (some (a, s))) (hs : I s) : (l.forM f).Serves O m c
        (fun _ g' z => g' = g ∧ ∃ s', z = some (a, s') ∧ I s') g (some (a, s)) := by
  induction l generalizing s with
  | nil => exact ⟨rfl, s, rfl, hs⟩
  | cons b l ih =>
    rw [List.forall_mem_cons] at h
    refine Serves.bind ((h.1 s hs).mono ?_)
    rintro _ _ _ ⟨rfl, s', rfl, hs'⟩
    exact ih h.2 hs'

/-- What others do in a critical section changes nothing for it, as long as there is
something left of it. -/
theorem Serves.rely (h : p.Serves O m c Q g (some (a, s))) (hret : ∀ r, p ≠ ret r)
    (hs : O.env s s') : p.Serves O m c Q g (some (a, s')) := by
  cases p with
  | ret r => exact absurd rfl (hret r)
  | act f k => exact fun s'' hs' => h s'' (O.env_trans hs hs')
  | lock m' k => exact ⟨h.1, fun s'' hs' => h.2 s'' (O.env_trans hs hs')⟩
  | unlock m' k => exact fun s'' hs' => h s'' (O.env_trans hs hs')
  | wait cv m' timed ready k => exact ⟨h.1, O.rel_env h.2.1 hs, h.2.2⟩
  | notifyOne cv k => exact fun s'' hs' => h s'' (O.env_trans hs hs')

/-- A critical section has the resource as it was found, or is at work on it. -/
theorem Serves.during (h : p.Serves O m c Q g (some (a, s))) (hret : ∀ r, p ≠ ret r) :
    O.rel s a ∨ O.during c a g s := by
  cases p with
  | ret r => exact absurd rfl (hret r)
  | act f k => exact .inr (h s (O.env_refl s)).1
  | lock m' k => exact .inr (h.2 s (O.env_refl s)).1
  | unlock m' k => exact .inr (h s (O.env_refl s)).1
  | wait cv m' timed ready k => exact .inl h.2.1
  | notifyOne cv k => exact .inr (h s (O.env_refl s)).1

/-! ### Code that has nothing to do with the resource -/

variable (O m c) in
/-- Code outside of critical sections, of a thread that has something of which `F` is true.
It may have critical sections of its own, and `L` tells what the thread has afterwards. -/
def Apart (F : G → Prop) (L : G → G → Prop) (p : Prog σ μ χ α) : Prop :=
  ∀ g, F g → p.Serves O m c (fun _ g' z => z = none ∧ F g' ∧ L g g') g none

namespace Apart

variable {F : G → Prop} {L : G → G → Prop} {m' : μ}

theorem ret (hL : ∀ g, L g g) (r : α) : (ret r : Prog σ μ χ α).Apart O m c F L :=
  fun g hg => ⟨rfl, hg, hL g⟩

theorem bind {k : α → Prog σ μ χ β} (hL : ∀ g₁ g₂ g₃, L g₁ g₂ → L g₂ g₃ → L g₁ g₃)
    (h : p.Apart O m c F L) (hk : ∀ r, (k r).Apart O m c F L) : (p >>= k).Apart O m c F L := by
  refine fun g hF => Serves.bind ((h g hF).mono ?_)
  rintro r g' _ ⟨rfl, hF', hg⟩
  exact (hk r g' hF').mono fun _ g'' z ⟨hz, hF'', hg'⟩ => ⟨hz, hF'', hL g g' g'' hg hg'⟩

theorem act {f : σ → σ} {k : σ → Prog σ μ χ α}
    (hf : ∀ g s, F g → O.known c g s → O.env s (f s) ∧ O.does c s (f s))
    (hk : ∀ s, (k s).Apart O m c F L) : (act f k).Apart O m c F L :=
  fun g hF s hs => ⟨(hf g s hF hs).1, (hf g s hF hs).2, hk s g hF⟩

theorem withLock (hne : m' ≠ m) (h : p.Apart O m c F L) : (withLock m' p).Apart O m c F L := by
  refine fun g hF => ⟨fun _ => Serves.bind ((h g hF).mono ?_), fun he => absurd he hne⟩
  rintro r g' _ ⟨rfl, hg⟩
  exact ⟨hne, rfl, hg⟩

theorem wait {cv : χ} {timed : Bool} {ready : σ → Bool} (hne : m' ≠ m) (h : p.Apart O m c F L) :
    (wait cv m' timed ready p).Apart O m c F L := fun g hF => ⟨hne, h g hF⟩

theorem notifyOne {cv : χ} (h : p.Apart O m c F L) : (notifyOne cv p).Apart O m c F L :=
  fun g hF => h g hF

theorem forM {l : List β} {f : β → Prog σ μ χ PUnit} (hrefl : ∀ g, L g g)
    (hL : ∀ g₁ g₂ g₃, L g₁ g₂ → L g₂ g₃ → L g₁ g₃) (h : ∀ b ∈ l, (f b).Apart O m c F L) :
    (l.forM f).Apart O m c F L := by
  induction l with
  | nil => exact ret hrefl _
  | cons b l ih =>
    rw [List.forall_mem_cons] at h
    exact bind hL h.1 fun _ => ih h.2

end Apart

variable (O m c) in
/-- Code inside of a critical section that does no more than others may. `J` is true of the
state whatever they do, and `F` of its answer. -/
def Idles (J : σ → Prop) (p : Prog σ μ χ α) (F : α → Prop) : Prop :=
  ∀ a g s, (∀ s', O.env s s' → O.during c a g s' ∧ J s') → p.Serves O m c (fun r g' z => g' = g ∧ F r ∧
    ∃ s', z = some (a, s') ∧ O.env s s') g (some (a, s))

namespace Idles

variable {J : σ → Prop} {F : α → Prop}

theorem ret {r : α} (hF : F r) : (ret r : Prog σ μ χ α).Idles O m c J F :=
  fun _ _ s _ => ⟨rfl, hF, s, rfl, O.env_refl s⟩

theorem mono {F' : α → Prop} (h : p.Idles O m c J F) (hF : ∀ r, F r → F' r) : p.Idles O m c J F' :=
  fun a g s hJ => (h a g s hJ).mono fun r _ _ ⟨hg, hr, hz⟩ => ⟨hg, hF r hr, hz⟩

theorem weaken {J' : σ → Prop} (h : p.Idles O m c J F) (hJ : ∀ s, J' s → J s) : p.Idles O m c J' F :=
  fun a g s hJ' => h a g s fun s' hs => (hJ' s' hs).imp_right (hJ s')

theorem bind {k : α → Prog σ μ χ β} {F' : β → Prop} (h : p.Idles O m c J F)
    (hk : ∀ r, F r → (k r).Idles O m c J F') : (p >>= k).Idles O m c J F' := by
  refine fun a g s hJ => Serves.bind ((h a g s hJ).mono ?_)
  rintro r _ _ ⟨rfl, hF, s', rfl, hs⟩
  refine (hk r hF a _ s' fun s'' hs' => hJ s'' (O.env_trans hs hs')).mono ?_
  rintro r' _ _ ⟨rfl, hF', s'', rfl, hs'⟩
  exact ⟨rfl, hF', s'', rfl, O.env_trans hs hs'⟩

theorem act {f : σ → σ} {k : σ → Prog σ μ χ α} (hf : ∀ s, J s → O.env s (f s) ∧ O.does c s (f s))
    (hk : ∀ s, (k s).Idles O m c J F) : (act f k).Idles O m c J F := by
  intro a g s hJ s' hs
  obtain ⟨henv, hdoes⟩ := hf s' (hJ s' hs).2
  have hs' := O.env_trans hs henv
  refine ⟨(hJ s' hs).1, hdoes, (hk s' a g (f s') fun s'' h => hJ s'' (O.env_trans hs' h)).mono ?_⟩
  rintro r _ _ ⟨rfl, hF, s'', rfl, h⟩
  exact ⟨rfl, hF, s'', rfl, O.env_trans hs' h⟩

theorem withLock {m' : μ} (hne : m' ≠ m) (h : p.Idles O m c J F) : (withLock m' p).Idles O m c J F := by
  intro a g s hJ
  refine ⟨hne, fun s₁ hs₁ => ⟨(hJ s₁ hs₁).1, Serves.bind ?_⟩⟩
  refine (h a g s₁ fun s' hs' => hJ s' (O.env_trans hs₁ hs')).mono ?_
  rintro r _ _ ⟨rfl, hF, s₂, rfl, hs₂⟩ s₃ hs₃
  have hs := O.env_trans (O.env_trans hs₁ hs₂) hs₃
  exact ⟨(hJ s₃ hs).1, fun _ => ⟨rfl, hF, s₃, rfl, hs⟩, fun he => absurd he hne⟩

end Idles

end Serves

end Prog

/-! ### The simulation -/

namespace Resource

variable (O : Resource σ κ ρ A G) (m : μ)

/-- What a call is to come to. -/
def Returns (c : κ) (r : ρ) (g : G) (z : Option (A × σ)) : Prop := z = none ∧ O.finish c r g

/-- Where a thread is that has `g`: `own` owns the mutex, and the resource is `a`. -/
inductive Phase (own : Option ι) (shared : σ) (a : A) (t : ι) (th : Thread σ μ χ κ ρ) (g : G) : Prop
  | outside (hown : own ≠ some t) (h : th.code.Serves O m th.call (O.Returns th.call) g none)
  | inside (hown : own = some t) (hb : th.blocked = false)
      (h : th.code.Serves O m th.call (O.Returns th.call) g (some (a, shared)))
  | blocked {cv : χ} {timed : Bool} {ready : σ → Bool} {k : Prog σ μ χ ρ} (hown : own ≠ some t)
      (hb : th.blocked = true) (hcode : th.code = .wait cv m timed ready k)
      (h : ∀ a s, O.pre th.call a g → O.rel s a → ready s = true ∨ timed = true →
        k.Serves O m th.call (O.Returns th.call) g (some (a, s)))

/-- The machine of the threads is where the abstract one is. -/
structure Simulates (cfg : Config σ μ χ ι κ ρ) (x : Sharing ι κ ρ A G) : Prop where
  free : cfg.owner m = none → O.rel cfg.shared x.resource
  owned : ∀ t, cfg.owner m = some t → ∃ th, cfg.thread t = some th
  absent : ∀ t, cfg.thread t = none → x.thread t = none
  threads : ∀ t th, cfg.thread t = some th → ∃ g, x.thread t = some (th.call, g) ∧
    O.Phase m (cfg.owner m) cfg.shared x.resource t th g
  history : x.history = cfg.history

variable {O m} {own own' : Option ι} {shared shared' : σ} {a a' : A} {g g' : G} {t u : ι}
  {th tu : Thread σ μ χ κ ρ} {cfg cfg' : Config σ μ χ ι κ ρ} {x y : Sharing ι κ ρ A G}
  {entry : κ → Prog σ μ χ ρ} {c : κ}

theorem Simulates.idle {s : σ} (h : O.rel s a) :
    O.Simulates m (.idle s [] : Config σ μ χ ι κ ρ) (.idle a) where
  free _ := h
  owned t h := by simp [Config.idle] at h
  absent _ _ := rfl
  threads t th h := by simp [Config.idle] at h
  history := rfl

theorem not_ret_of_serves {z : A × σ} (h : th.code.Serves O m c (O.Returns c) g (some z)) (r : ρ) :
    th.code ≠ .ret r := by
  intro hr
  rw [hr] at h
  cases h.1

/-- Threads that are not in the critical section do not care who is. -/
theorem Phase.of_ne (h : O.Phase m own shared a t th g) (hne : own ≠ some t) (hne' : own' ≠ some t) :
    O.Phase m own' shared' a' t th g := by
  cases h with
  | outside _ h => exact .outside hne' h
  | inside hown => exact absurd hown hne
  | blocked _ hb hcode h => exact .blocked hne' hb hcode h

/-- The others may do what is nothing to the resource. -/
theorem Phase.rely (h : O.Phase m own shared a t th g) (hs : O.env shared shared') :
    O.Phase m own shared' a t th g := by
  cases h with
  | outside hown h => exact .outside hown h
  | inside hown hb h => exact .inside hown hb (h.rely (not_ret_of_serves h) hs)
  | blocked hown hb hcode h => exact .blocked hown hb hcode h

/-- What is known of the state at any time. -/
theorem Simulates.state (h : O.Simulates m cfg x) : O.rel cfg.shared x.resource ∨
    ∃ t c g, cfg.owner m = some t ∧ x.thread t = some (c, g) ∧
      O.during c x.resource g cfg.shared := by
  cases hown : cfg.owner m with
  | none => exact .inl (h.free hown)
  | some t =>
    obtain ⟨th, ht⟩ := h.owned t hown
    obtain ⟨g, hg, hp⟩ := h.threads t th ht
    cases hp with
    | outside hne | blocked hne => exact absurd hown hne
    | inside _ _ hserves =>
      exact (hserves.during (not_ret_of_serves hserves)).imp_right fun hd => ⟨t, _, g, rfl, hg, hd⟩

variable [DecidableEq ι]

/-- Thread `t` goes on as `v`, with `z` in the abstract. -/
theorem Simulates.update (h : O.Simulates m cfg x) (v : Option (Thread σ μ χ κ ρ)) (z : Option (κ × G))
    (hx : cfg'.thread = Function.update cfg.thread t v)
    (hy : y.thread = Function.update x.thread t z) (hnone : v = none → z = none)
    (hsome : ∀ th, v = some th → ∃ g, z = some (th.call, g) ∧
      O.Phase m (cfg'.owner m) cfg'.shared y.resource t th g)
    (hothers : ∀ u (tu : Thread σ μ χ κ ρ) g, u ≠ t →
      O.Phase m (cfg.owner m) cfg.shared x.resource u tu g →
      O.Phase m (cfg'.owner m) cfg'.shared y.resource u tu g)
    (hfree : cfg'.owner m = none → O.rel cfg'.shared y.resource)
    (howned : ∀ u, cfg'.owner m = some u → u = t ∧ v.isSome = true ∨ u ≠ t ∧ cfg.owner m = some u)
    (hhist : y.history = cfg'.history) : O.Simulates m cfg' y where
  free := hfree
  owned u hu := by
    rw [hx]
    rcases howned u hu with ⟨rfl, hv⟩ | ⟨hut, hu⟩
    · rw [Function.update_self]
      exact Option.isSome_iff_exists.mp hv
    · rw [Function.update_of_ne hut]
      exact h.owned u hu
  absent u hu := by
    rw [hx] at hu
    rw [hy]
    by_cases hut : u = t
    · subst hut
      rw [Function.update_self] at hu ⊢
      exact hnone hu
    · rw [Function.update_of_ne hut] at hu ⊢
      exact h.absent u hu
  threads u tu hu := by
    rw [hx] at hu
    rw [hy]
    rcases Config.update_eq_some hu with ⟨rfl, hv⟩ | ⟨hut, hu⟩
    · rw [Function.update_self]
      exact hsome tu hv
    · rw [Function.update_of_ne hut]
      obtain ⟨g, hg, hp⟩ := h.threads u tu hu
      exact ⟨g, hg, hothers u tu g hut hp⟩
  history := hhist

/-- Thread `t` goes on with what it has, and the resource stays as it is. -/
theorem Simulates.stays (h : O.Simulates m cfg x)
    (hg : x.thread t = some (th.call, g)) (th' : Thread σ μ χ κ ρ) (hcall : th'.call = th.call)
    (hx : cfg'.thread = Function.update cfg.thread t (some th')) (hhist : cfg'.history = cfg.history)
    (hnew : O.Phase m (cfg'.owner m) cfg'.shared x.resource t th' g)
    (hothers : ∀ u (tu : Thread σ μ χ κ ρ) g, u ≠ t →
      O.Phase m (cfg.owner m) cfg.shared x.resource u tu g →
      O.Phase m (cfg'.owner m) cfg'.shared x.resource u tu g)
    (hfree : cfg'.owner m = none → O.rel cfg'.shared x.resource)
    (howned : ∀ u, u ≠ t → cfg'.owner m = some u → cfg.owner m = some u) :
    O.Simulates m cfg' x := by
  refine h.update (some th') (some (th.call, g)) hx ?_ (by nofun) ?_ hothers hfree (fun u hu => ?_)
    (hhist ▸ h.history)
  · rw [← hg, Function.update_eq_self]
  · rintro _ ⟨⟩
    exact ⟨g, by rw [hcall], hnew⟩
  · by_cases hut : u = t
    · exact .inl ⟨hut, rfl⟩
    · exact .inr ⟨hut, howned u hut hu⟩

/-- A thread outside of the critical section takes a step that is nothing to the resource. -/
theorem Simulates.outside (h : O.Simulates m cfg x)
    (hg : x.thread t = some (th.call, g)) (hown : cfg.owner m ≠ some t) (th' : Thread σ μ χ κ ρ)
    (hcall : th'.call = th.call) (hx : cfg'.thread = Function.update cfg.thread t (some th'))
    (hhist : cfg'.history = cfg.history) (hown' : cfg'.owner m = cfg.owner m)
    (hs : O.env cfg.shared cfg'.shared)
    (hserves : th'.code.Serves O m th.call (O.Returns th.call) g none) : O.Simulates m cfg' x := by
  refine h.stays hg th' hcall hx hhist (.outside (hown' ▸ hown) (hcall.symm ▸ hserves))
    (fun u tu g _ hp => hown' ▸ hp.rely hs) (fun hfree => O.rel_env (h.free (hown' ▸ hfree)) hs)
    fun u _ hu => hown' ▸ hu

/-- A thread gets on in the critical section. -/
theorem Simulates.inside (h : O.Simulates m cfg x)
    (hg : x.thread t = some (th.call, g)) (hown : cfg.owner m = some t) (th' : Thread σ μ χ κ ρ)
    (hcall : th'.call = th.call) (hx : cfg'.thread = Function.update cfg.thread t (some th'))
    (hhist : cfg'.history = cfg.history) (hown' : cfg'.owner m = some t) (hb : th'.blocked = false)
    (hserves : th'.code.Serves O m th.call (O.Returns th.call) g (some (x.resource, cfg'.shared))) :
    O.Simulates m cfg' x := by
  have hne : ∀ u, u ≠ t → some t ≠ some u := fun u hut he => hut (Option.some.inj he).symm
  refine h.stays hg th' hcall hx hhist (.inside hown' hb (hcall.symm ▸ hserves))
    (fun u tu g hut hp => hp.of_ne (hown ▸ hne u hut) (hown' ▸ hne u hut)) (fun hfree => ?_)
    fun u hut hu => ?_
  · rw [hown'] at hfree
    cases hfree
  · rw [hown'] at hu
    exact absurd hu (hne u hut)

/-! ### One step of a thread -/

theorem Simulates.calls (hentry : (entry c).Serves O m c (O.Returns c) (O.start c) none)
    (h : O.Simulates m cfg x) (ht : cfg.thread t = none) :
    O.Simulates m (cfg.put t ⟨c, entry c, [], false⟩) (x.call t c (O.start c)) := by
  have howned : ∀ u, cfg.owner m = some u → u ≠ t := by
    rintro u hu rfl
    obtain ⟨th, hth⟩ := h.owned u hu
    rw [ht] at hth
    cases hth
  refine h.update _ _ rfl rfl (by nofun) ?_ (fun _ _ _ _ => id) h.free
    (fun u hu => .inr ⟨howned u hu, hu⟩) h.history
  rintro _ ⟨⟩
  exact ⟨_, rfl, .outside (fun hown => howned t hown rfl) hentry⟩

theorem Simulates.returns (h : O.Simulates m cfg x) (ht : cfg.thread t = some th)
    (hb : th.blocked = false) {r : ρ} (hcode : th.code = .ret r) :
    ∃ y, Sharing.Goes O x y ∧ O.Simulates m { cfg with
      thread := Function.update cfg.thread t none, history := (th.call, r) :: cfg.history } y := by
  obtain ⟨g, hg, hp⟩ := h.threads t th ht
  cases hp with
  | inside _ _ hs => exact absurd hcode (not_ret_of_serves hs r)
  | blocked _ hb' => rw [hb] at hb'; cases hb'
  | outside hown hs =>
    rw [hcode] at hs
    refine ⟨_, .ret hg hs.2, h.update none none rfl rfl (fun _ => rfl) (by nofun) (fun _ _ _ _ => id)
      h.free (fun u hu => .inr ⟨?_, hu⟩) (by simp [h.history])⟩
    rintro rfl
    exact hown hu

theorem Simulates.acts (hknown : ∀ c g, x.thread t = some (c, g) → cfg.owner m ≠ some t →
    O.known c g cfg.shared) (h : O.Simulates m cfg x) (ht : cfg.thread t = some th)
    (hb : th.blocked = false) {f : σ → σ} {k : σ → Prog σ μ χ ρ} (hcode : th.code = .act f k) :
    O.Simulates m { cfg.put t { th with code := k cfg.shared } with shared := f cfg.shared } x ∧
      O.does th.call cfg.shared (f cfg.shared) := by
  obtain ⟨g, hg, hp⟩ := h.threads t th ht
  cases hp with
  | blocked _ hb' => rw [hb] at hb'; cases hb'
  | outside hown hs =>
    rw [hcode] at hs
    obtain ⟨henv, hdoes, hk⟩ := hs _ (hknown _ _ hg hown)
    exact ⟨h.outside hg hown { th with code := k cfg.shared } rfl rfl rfl rfl henv hk, hdoes⟩
  | inside hown _ hs =>
    rw [hcode] at hs
    obtain ⟨-, hdoes, hk⟩ := hs _ (O.env_refl _)
    exact ⟨h.inside hg hown { th with code := k cfg.shared } rfl rfl rfl hown hb hk, hdoes⟩

theorem Simulates.signals (h : O.Simulates m cfg x) (ht : cfg.thread t = some th)
    (hb : th.blocked = false) {cv : χ} {k : Prog σ μ χ ρ} (hcode : th.code = .notifyOne cv k) :
    O.Simulates m (cfg.put t { th with code := k }) x := by
  obtain ⟨g, hg, hp⟩ := h.threads t th ht
  cases hp with
  | blocked _ hb' => rw [hb] at hb'; cases hb'
  | outside hown hs =>
    rw [hcode] at hs
    exact h.outside hg hown { th with code := k } rfl rfl rfl rfl (O.env_refl _) hs
  | inside hown _ hs =>
    rw [hcode] at hs
    exact h.inside hg hown { th with code := k } rfl rfl rfl hown hb (hs _ (O.env_refl _)).2

/-- A thread goes on at its wait. -/
theorem Simulates.goesOn (hpre : O.rel cfg.shared x.resource → ∀ c g, x.thread t = some (c, g) →
    O.pre c x.resource g) (h : O.Simulates m cfg x) (ht : cfg.thread t = some th) (hb : th.blocked = false)
    {cv : χ} {m' : μ} {timed : Bool} {ready : σ → Bool} {k : Prog σ μ χ ρ}
    (hcode : th.code = .wait cv m' timed ready k)
    (hr : ready cfg.shared = true) : O.Simulates m (cfg.put t { th with code := k }) x := by
  obtain ⟨g, hg, hp⟩ := h.threads t th ht
  cases hp with
  | blocked _ hb' => rw [hb] at hb'; cases hb'
  | outside hown hs =>
    rw [hcode] at hs
    exact h.outside hg hown { th with code := k } rfl rfl rfl rfl (O.env_refl _) hs.2
  | inside hown _ hs =>
    rw [hcode] at hs
    exact h.inside hg hown { th with code := k } rfl rfl rfl hown hb
      (hs.2.2 _ _ (hpre hs.2.1 _ _ hg) hs.2.1 (.inl hr))

/-- A blocked thread is woken, or its time is over, and it asks for its mutex. -/
theorem Simulates.asks (h : O.Simulates m cfg x) (ht : cfg.thread t = some th)
    (hb : th.blocked = true) {cv : χ} {m' : μ} {timed : Bool} {ready : σ → Bool} {k : Prog σ μ χ ρ}
    (hcode : th.code = .wait cv m' timed ready k) (k' : Prog σ μ χ ρ)
    (hk' : k' = .wait cv m' timed ready k ∨ k' = k ∧ timed = true) :
    O.Simulates m (cfg.put t { th with code := .lock m' k', blocked := false }) x := by
  obtain ⟨g, hg, hp⟩ := h.threads t th ht
  cases hp with
  | inside _ hb' => rw [hb] at hb'; cases hb'
  | outside hown hs =>
    rw [hcode] at hs
    refine h.outside hg hown { th with code := .lock m' k', blocked := false } rfl rfl rfl rfl
      (O.env_refl _) ⟨fun _ => ?_, fun he => absurd he hs.1⟩
    rcases hk' with rfl | ⟨rfl, -⟩
    · exact hs
    · exact hs.2
  | blocked hown _ hcode' hs =>
    rw [hcode, Prog.wait.injEq] at hcode'
    obtain ⟨-, rfl, rfl, rfl, rfl⟩ := hcode'
    refine h.outside hg hown { th with code := .lock m' k', blocked := false } rfl rfl rfl rfl
      (O.env_refl _) ⟨fun hne => absurd rfl hne, fun _ a s hp hr => ?_⟩
    rcases hk' with rfl | ⟨rfl, htimed⟩
    · exact ⟨rfl, hr, hs⟩
    · exact hs a s hp hr (.inr htimed)

theorem Simulates.wakes (h : O.Simulates m cfg x) (ht : cfg.thread t = some th)
    (hb : th.blocked = true) : O.Simulates m (cfg.put t th.wake) x := by
  unfold Thread.wake
  split
  · next cv m' timed ready k hcode => exact h.asks ht hb hcode _ (.inl hcode)
  · next hcode =>
    obtain ⟨g, hg, hp⟩ := h.threads t th ht
    cases hp with
    | inside _ hb' => rw [hb] at hb'; cases hb'
    | outside hown hs => exact h.outside hg hown th rfl rfl rfl rfl (O.env_refl _) hs
    | blocked _ _ hcode' => exact absurd hcode' (hcode _ _ _ _ _)

variable [DecidableEq μ]

theorem Simulates.locks (hpre : O.rel cfg.shared x.resource → ∀ c g, x.thread t = some (c, g) →
    O.pre c x.resource g) (h : O.Simulates m cfg x) (ht : cfg.thread t = some th) (hb : th.blocked = false)
    {m' : μ} {k : Prog σ μ χ ρ} (hcode : th.code = .lock m' k) (hm : cfg.owner m' = none) :
    O.Simulates m { cfg.put t { th with code := k, held := m' :: th.held } with
      owner := Function.update cfg.owner m' (some t) } x := by
  obtain ⟨g, hg, hp⟩ := h.threads t th ht
  cases hp with
  | blocked _ hb' => rw [hb] at hb'; cases hb'
  | outside hown hs =>
    rw [hcode] at hs
    by_cases hmm : m' = m
    · subst hmm
      have hrel := h.free hm
      refine h.stays hg { th with code := k, held := m' :: th.held } rfl rfl rfl
        (.inside (by simp) hb (hs.2 rfl _ _ (hpre hrel _ _ hg) hrel))
        (fun u tu g hut hp => hp.of_ne (by simp [hm]) ?_) (by simp) fun u hut hu => ?_
      · simpa using Ne.symm hut
      · simp only [Function.update_self, Option.some.injEq] at hu
        exact absurd hu.symm hut
    · exact h.outside hg hown { th with code := k, held := m' :: th.held } rfl rfl rfl
        (by simp [Ne.symm hmm]) (O.env_refl _) (hs.1 hmm)
  | inside hown _ hs =>
    rw [hcode] at hs
    exact h.inside hg hown { th with code := k, held := m' :: th.held } rfl rfl rfl
      (by simp [hs.1.symm, hown]) hb (hs.2 _ (O.env_refl _)).2

/-- A thread gives up a mutex. If it is that of the resource, its critical section has taken
effect, if it has one. -/
theorem Simulates.unlocks (h : O.Simulates m cfg x) (ht : cfg.thread t = some th)
    (hb : th.blocked = false) {m' : μ} {k : Prog σ μ χ ρ} (hcode : th.code = .unlock m' k) :
    ∃ y, Relation.ReflGen (Sharing.Goes O) x y ∧ O.Simulates m
      { cfg.put t { th with code := k, held := th.held.erase m' } with
        owner := Function.update cfg.owner m' none } y := by
  obtain ⟨g, hg, hp⟩ := h.threads t th ht
  cases hp with
  | blocked _ hb' => rw [hb] at hb'; cases hb'
  | outside hown hs =>
    rw [hcode] at hs
    exact ⟨x, .refl, h.outside hg hown { th with code := k, held := th.held.erase m' } rfl rfl rfl
      (by simp [hs.1.symm]) (O.env_refl _) hs.2⟩
  | inside hown _ hs =>
    rw [hcode] at hs
    obtain ⟨-, hne, heq⟩ := hs _ (O.env_refl _)
    by_cases hmm : m' = m
    · subst hmm
      obtain ⟨a', g', he, hrel, hk⟩ := heq rfl
      have hothers : ∀ u, u ≠ t → cfg.owner m' ≠ some u := by
        intro u hut
        rw [hown, Ne, Option.some.injEq]
        exact Ne.symm hut
      have hsim : O.Simulates m' { cfg.put t { th with code := k, held := th.held.erase m' } with
          owner := Function.update cfg.owner m' none } (x.effect t th.call a' g') := by
        refine h.update _ _ rfl rfl (by nofun) ?_ (fun u tu g hut hp =>
          hp.of_ne (hothers u hut) (by simp)) (fun _ => hrel) (by simp) h.history
        rintro _ ⟨⟩
        exact ⟨g', rfl, .outside (by simp) hk⟩
      rcases he with ⟨rfl, rfl⟩ | he
      · have hsame : x.effect t th.call x.resource g' = x := by
          rw [Sharing.effect, ← hg, Function.update_eq_self]
        exact ⟨x, .refl, hsame ▸ hsim⟩
      · exact ⟨_, .single (.effect hg he), hsim⟩
    · exact ⟨x, .refl, h.inside hg hown { th with code := k, held := th.held.erase m' } rfl rfl rfl
        (by simp [Ne.symm hmm, hown]) hb (hne hmm)⟩

/-- A thread comes to its wait, and is blocked. -/
theorem Simulates.blocks (h : O.Simulates m cfg x) (ht : cfg.thread t = some th)
    (hb : th.blocked = false) {cv : χ} {m' : μ} {timed : Bool} {ready : σ → Bool} {k : Prog σ μ χ ρ}
    (hcode : th.code = .wait cv m' timed ready k) :
    O.Simulates m { cfg.put t { th with held := th.held.erase m', blocked := true } with
      owner := Function.update cfg.owner m' none } x := by
  obtain ⟨g, hg, hp⟩ := h.threads t th ht
  cases hp with
  | blocked _ hb' => rw [hb] at hb'; cases hb'
  | outside hown hs =>
    have hne := hs
    rw [hcode] at hne
    exact h.outside hg hown { th with held := th.held.erase m', blocked := true } rfl rfl rfl
      (by simp [hne.1.symm]) (O.env_refl _) hs
  | inside hown _ hs =>
    rw [hcode] at hs
    obtain ⟨rfl, hrel, hk⟩ := hs
    refine h.stays hg { th with held := th.held.erase m', blocked := true } rfl rfl rfl
      (.blocked (by simp) rfl hcode hk) (fun u tu g hut hp => hp.of_ne ?_ (by simp)) (fun _ => hrel)
      (by simp)
    rw [hown, Ne, Option.some.injEq]
    exact Ne.symm hut

/-! ### All interleavings -/

section Runs

variable [DecidableEq χ]

/-- The step lemma: what a thread does that is in a call, the abstract machine does too. -/
theorem Simulates.moves (hpre : O.rel cfg.shared x.resource → ∀ t c g, x.thread t = some (c, g) →
    O.pre c x.resource g) (hknown : ∀ t c g, x.thread t = some (c, g) → cfg.owner m ≠ some t →
    O.known c g cfg.shared) (h : O.Simulates m cfg x) {b : Action ι κ} (hm : Moves entry cfg b cfg')
    (hcall : ∀ t c, b ≠ .call t c) :
    ∃ y, Relation.ReflGen (Sharing.Goes O) x y ∧ O.Simulates m cfg' y := by
  cases hm with
  | call t c => exact absurd rfl (hcall t c)
  | ret ht hb hcode =>
    obtain ⟨y, hy, hs⟩ := h.returns ht hb hcode
    exact ⟨y, .single hy, hs⟩
  | act ht hb hcode => exact ⟨x, .refl, (h.acts (hknown _) ht hb hcode).1⟩
  | lock ht hb hcode hm => exact ⟨x, .refl, h.locks (fun hr => hpre hr _) ht hb hcode hm⟩
  | unlock ht hb hcode => exact h.unlocks ht hb hcode
  | goOn ht hb hcode hr => exact ⟨x, .refl, h.goesOn (fun hs => hpre hs _) ht hb hcode hr⟩
  | block ht hb hcode => exact ⟨x, .refl, h.blocks ht hb hcode⟩
  | notifyNobody ht hb hcode => exact ⟨x, .refl, h.signals ht hb hcode⟩
  | @notify t u th tu c k ht hb hcode hu hw =>
    have hu' : (cfg.put t { th with code := k }).thread u = some tu := by
      rwa [Config.put_of_ne _ _ (Thread.ne_of_waitsOn ht hb hu hw)]
    exact ⟨x, .refl, (h.signals ht hb hcode).wakes hu' (Thread.blocked_of_waitsOn hw).1⟩
  | wake ht hb => exact ⟨x, .refl, h.wakes ht hb⟩
  | timeout ht hb hcode => exact ⟨x, .refl, h.asks ht hb hcode _ (.inr ⟨rfl, rfl⟩)⟩

/-- `I` is true of the abstract machine as long as what happens meets `K`, and critical
sections rely on no more. -/
structure Keeps (O : Resource σ κ ρ A G) (m : μ) (K : Config σ μ χ ι κ ρ → Action ι κ → Prop)
    (I : Sharing ι κ ρ A G → Prop) : Prop where
  call : ∀ cfg x t c, O.Simulates m cfg x → I x → K cfg (.call t c) → x.thread t = none →
    I (x.call t c (O.start c))
  goes : ∀ x y, I x → Sharing.Goes O x y → I y
  pre : ∀ cfg x b t c g, I x → K cfg b → O.rel cfg.shared x.resource → x.thread t = some (c, g) →
    O.pre c x.resource g
  known : ∀ cfg x b t c g, O.Simulates m cfg x → I x → K cfg b → x.thread t = some (c, g) →
    cfg.owner m ≠ some t → O.known c g cfg.shared

variable [Fintype ι] {K : Config σ μ χ ι κ ρ → Action ι κ → Prop} {I : Sharing ι κ ρ A G → Prop}

theorem Simulates.step (hentry : ∀ c, (entry c).Serves O m c (O.Returns c) (O.start c) none)
    (hK : O.Keeps m K I) (h : O.Simulates m cfg x) (hx : I x) {b : Action ι κ} (hb : K cfg b)
    (hp : perform entry cfg b = some cfg') :
    ∃ y, Sharing.Reaches O x y ∧ I y ∧ O.Simulates m cfg' y := by
  by_cases hcall : ∃ t c, b = .call t c
  · obtain ⟨t, c, rfl⟩ := hcall
    obtain ⟨ht, rfl⟩ : cfg.thread t = none ∧ cfg' = cfg.put t ⟨c, entry c, [], false⟩ := by
      cases moves_of_perform hp with
      | call _ _ ht => exact ⟨ht, rfl⟩
    have hnone := h.absent t ht
    exact ⟨_, .single (.call c hnone), hK.call cfg x t c h hx hb hnone, h.calls (hentry c) ht⟩
  · obtain ⟨y, hy, hs⟩ := h.moves (fun hr t c g => hK.pre cfg x b t c g hx hb hr)
      (fun t c g => hK.known cfg x b t c g h hx hb) (moves_of_perform hp) fun t c he => hcall ⟨t, c, he⟩
    cases hy with
    | refl => exact ⟨x, .refl, hx, hs⟩
    | single hy => exact ⟨y, .single (.goes hy), hK.goes x y hx hy, hs⟩

/-- What a step does that changes the state. -/
theorem Simulates.does (hK : O.Keeps m K I) (h : O.Simulates m cfg x) (hx : I x) {b : Action ι κ}
    (hb : K cfg b) (hp : perform entry cfg b = some cfg') : cfg'.shared = cfg.shared ∨
      ∃ t th, b = .run t ∧ cfg.thread t = some th ∧ O.does th.call cfg.shared cfg'.shared := by
  cases moves_of_perform hp with
  | act ht hb' hcode =>
    exact .inr ⟨_, _, rfl, ht, (h.acts (fun c g => hK.known cfg x _ _ c g h hx hb) ht hb' hcode).2⟩
  | _ => exact .inl rfl

/-- The run lemma. -/
theorem Simulates.reaches (hentry : ∀ c, (entry c).Serves O m c (O.Returns c) (O.start c) none)
    (hK : O.Keeps m K I) (h : O.Simulates m cfg x) (hx : I x) (hr : ReachesUnder K entry cfg cfg') :
    ∃ y, Sharing.Reaches O x y ∧ I y ∧ O.Simulates m cfg' y := by
  induction hr with
  | refl => exact ⟨x, .refl, hx, h⟩
  | tail _ hstep ih =>
    obtain ⟨y, hy, hiy, hs⟩ := ih
    obtain ⟨b, hb, hp⟩ := hstep
    obtain ⟨y', hy', hiy', hs'⟩ := hs.step hentry hK hiy hb hp
    exact ⟨y', hy.trans hy', hiy', hs'⟩

end Runs

end Resource

end Concurrency
