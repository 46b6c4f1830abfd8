import RialtoOcdm.Concurrency.Protocol

/-! Monitors. When a protocol lets a thread touch the state only while it holds the
mutex `m`, a thread that holds `m` is alone with the state: a critical section is
verified step by step as if nobody else were there, from any state in which `m` is
free to another one. Only a wait in it gives the state to the others. -/

namespace Concurrency

variable {σ μ χ κ α β : Type}

namespace Protocol

/-- The state is touched by owners of `m` only. -/
def Guards (P : Protocol σ μ κ) (m : μ) : Prop := ∀ c held s s', P.may c held s s' → m ∈ held

variable {P : Protocol σ μ κ} {m : μ} {c : κ} {s s' : σ}

theorem Guards.rely_eq (hP : P.Guards m) {held : List μ} (hm : m ∈ held) (hr : P.Rely held s s') :
    s' = s := by
  induction hr with
  | refl => rfl
  | tail _ hstep ih =>
    obtain ⟨_, c, held', hd, hmay⟩ := hstep
    exact absurd (hP _ _ _ _ hmay) (hd hm)

/-- `p` goes on from `s` inside of the critical section and comes to its end with `Q`. -/
def Critical (P : Protocol σ μ κ) (m : μ) (c : κ) (p : Prog σ μ χ α) (Q : α → σ → Prop) (s : σ) :
    Prop :=
  P.Safe c p (fun a held s => held = [m] ∧ P.free m s ∧ Q a s) [m] s

namespace Critical

variable {Q : α → σ → Prop}

theorem ret (hP : P.Guards m) {a : α} (hf : P.free m s) (hQ : Q a s) :
    P.Critical m c (.ret a : Prog σ μ χ α) Q s := by
  intro s' hr _
  rw [hP.rely_eq (by simp) hr]
  exact ⟨rfl, hf, hQ⟩

theorem act (hP : P.Guards m) {f : σ → σ} {k : σ → Prog σ μ χ α} (hm : P.may c [m] s (f s))
    (hi : P.inv (f s)) (hk : P.Critical m c (k s) Q (f s)) : P.Critical m c (.act f k) Q s := by
  intro s' hr _
  rw [hP.rely_eq (by simp) hr]
  exact ⟨hm, hi, hk⟩

theorem notifyOne {cv : χ} {k : Prog σ μ χ α} (hk : P.Critical m c k Q s) :
    P.Critical m c (.notifyOne cv k) Q s := hk

/-- A timed wait: it leaves the state as for a free mutex, and finds it so. -/
theorem awaitFor (hP : P.Guards m) {cv : χ} {ready : σ → Bool} {k : Prog σ μ χ α}
    (hf : P.free m s) (hreq : ∀ s, P.request c [] m s)
    (hk : ∀ s, P.free m s → P.inv s → P.Critical m c k Q s) :
    P.Critical m c (.wait cv m true ready k) Q s := by
  refine ⟨[], rfl, P.free m, hf, fun s s' hs _ hr => ?_, fun s hs hi _ => hk s hs hi, ?_⟩
  · rw [hP.rely_eq (by simp) hr]
    exact hs
  · exact fun s hs _ _ => ⟨hs, fun s' _ _ => ⟨hreq s', id⟩⟩

/-- A whole critical section. -/
theorem withLock (hP : P.Guards m) {p : Prog σ μ χ α} (hreq : ∀ s, P.request c [] m s)
    (hQ : ∀ a s s', P.inv s → P.Rely [] s s' → Q a s → Q a s')
    (hp : ∀ s, P.free m s → P.inv s → P.Critical m c p Q s) :
    P.Safe c (Prog.withLock m p) (fun a held s => held = [] ∧ Q a s) [] s := by
  intro s₁ _ hi₁
  refine ⟨hreq s₁, fun hf => Safe.bind hi₁ ((hp s₁ hf hi₁).mono ?_ hi₁)⟩
  rintro a _ s₂ hi₂ ⟨rfl, hf₂, hq₂⟩
  refine ⟨[], rfl, fun s₃ hr _ => ?_⟩
  rw [hP.rely_eq (by simp) hr]
  exact ⟨hf₂, fun s₄ hr₄ _ => ⟨rfl, hQ a s₂ s₄ hi₂ hr₄ hq₂⟩⟩

end Critical

end Protocol

end Concurrency
