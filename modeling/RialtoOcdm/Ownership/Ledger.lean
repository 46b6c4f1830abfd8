import Mathlib.Data.Multiset.Count
import Mathlib.Data.Multiset.AddSub
import Mathlib.Data.Set.Insert
import Mathlib.Logic.Relation

/-! Shared ownership by counting references. A ledger says who holds what, and how
often. A thing is made with one reference, shared by those who can find it while it
lives, and ends when its last reference is given back. Then the things that live are
those somebody holds, and none ends twice. -/

namespace Ownership

variable {κ ρ : Type} [DecidableEq ρ]

/-- The references: holders of type `κ`, things of type `ρ`. -/
abbrev Ledger (κ ρ : Type) := Multiset (κ × ρ)

namespace Ledger

variable {l : Ledger κ ρ} {c : κ} {r r' : ρ}

/-- How many references to `r` there are. -/
def refs (l : Ledger κ ρ) (r : ρ) : ℕ := l.countP fun e => e.2 = r

@[simp] theorem refs_zero : refs (0 : Ledger κ ρ) r = 0 := Multiset.countP_zero _

theorem refs_cons : refs ((c, r') ::ₘ l) r = refs l r + if r' = r then 1 else 0 :=
  Multiset.countP_cons _ _ _

theorem refs_pos_of_mem (h : (c, r) ∈ l) : 0 < refs l r := Multiset.countP_pos.mpr ⟨_, h, rfl⟩

theorem refs_pos : 0 < refs l r ↔ ∃ c, (c, r) ∈ l := by
  refine ⟨fun h => ?_, fun ⟨c, h⟩ => refs_pos_of_mem h⟩
  obtain ⟨⟨c, r'⟩, hmem, rfl⟩ := Multiset.countP_pos.mp h
  exact ⟨c, hmem⟩

theorem refs_erase [DecidableEq κ] (h : (c, r') ∈ l) :
    refs (l.erase (c, r')) r + (if r' = r then 1 else 0) = refs l r := by
  rw [← refs_cons (c := c), Multiset.cons_erase h]

end Ledger

/-- What lives, what has ended, and who holds what. -/
structure State (κ ρ : Type) where
  live : Set ρ
  ended : Multiset ρ
  ledger : Ledger κ ρ

variable [DecidableEq κ]

inductive Step : State κ ρ → State κ ρ → Prop
  | create {s} (c : κ) (r : ρ) (hl : r ∉ s.live) (he : r ∉ s.ended) :
      Step s ⟨insert r s.live, s.ended, (c, r) ::ₘ s.ledger⟩
  | share {s} (c : κ) (r : ρ) (hl : r ∈ s.live) : Step s { s with ledger := (c, r) ::ₘ s.ledger }
  | give {s} (c : κ) (r : ρ) (h : (c, r) ∈ s.ledger) (hmore : 1 < s.ledger.refs r) :
      Step s { s with ledger := s.ledger.erase (c, r) }
  | last {s} (c : κ) (r : ρ) (h : (c, r) ∈ s.ledger) (hlast : s.ledger.refs r = 1) :
      Step s ⟨s.live \ {r}, r ::ₘ s.ended, s.ledger.erase (c, r)⟩

/-- What is alive is what is held, and what has ended has ended once, for good. -/
structure Sound (s : State κ ρ) : Prop where
  held : ∀ r, r ∈ s.live ↔ 0 < s.ledger.refs r
  once : s.ended.Nodup
  notEnded : ∀ r ∈ s.live, r ∉ s.ended

omit [DecidableEq κ] in
theorem Sound.empty : Sound (⟨∅, 0, 0⟩ : State κ ρ) := ⟨by simp, by simp, by simp⟩

theorem Sound.step {s s' : State κ ρ} (h : Sound s) (hs : Step s s') : Sound s' := by
  cases hs with
  | create c r hl he =>
    refine ⟨fun r' => ?_, h.once, fun r' hr' => ?_⟩
    · rw [Ledger.refs_cons, Set.mem_insert_iff, h.held]
      by_cases hr : r = r'
      · simp [hr]
      · simp [hr, Ne.symm hr]
    · rcases Set.mem_insert_iff.mp hr' with rfl | hr'
      · exact he
      · exact h.notEnded r' hr'
  | share c r hl =>
    refine ⟨fun r' => ?_, h.once, h.notEnded⟩
    rw [Ledger.refs_cons, h.held]
    by_cases hr : r = r'
    · subst hr
      simpa using (h.held r).mp hl
    · simp [hr]
  | give c r hmem hmore =>
    refine ⟨fun r' => ?_, h.once, h.notEnded⟩
    have he := Ledger.refs_erase (r := r') hmem
    dsimp only
    rw [h.held]
    by_cases hr : r = r'
    · subst hr
      rw [if_pos rfl] at he
      omega
    · rw [if_neg hr] at he
      omega
  | last c r hmem hlast =>
    have hlive : r ∈ s.live := (h.held r).mpr (by omega)
    refine ⟨fun r' => ?_, Multiset.nodup_cons.mpr ⟨h.notEnded r hlive, h.once⟩, fun r' hr' => ?_⟩
    · have he := Ledger.refs_erase (r := r') hmem
      rw [Set.mem_sdiff, Set.mem_singleton_iff, h.held]
      by_cases hr : r = r'
      · subst hr
        rw [if_pos rfl] at he
        simp
        omega
      · rw [if_neg hr] at he
        simp only [Ne.symm hr, not_false_eq_true, and_true]
        omega
    · rw [Multiset.mem_cons, not_or]
      exact ⟨hr'.2, h.notEnded r' hr'.1⟩

/-- Any run from nothing. -/
theorem Sound.reaches {s : State κ ρ} (h : Relation.ReflTransGen Step ⟨∅, 0, 0⟩ s) : Sound s := by
  induction h with
  | refl => exact .empty
  | tail _ hs ih => exact ih.step hs

end Ownership
