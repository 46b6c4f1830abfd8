import Mathlib.Algebra.BigOperators.Group.Finset.Basic
import Mathlib.Algebra.Order.BigOperators.Group.Finset
import Mathlib.Data.Set.Finite.Basic
import Mathlib.Logic.Relation
import Mathlib.Order.WellFounded

/-! Things in memory with a count of references each. A thing has a value, and the value
holds references to other things. Whoever gives the last reference back ends the thing,
which gives back what its value holds, and so on. If the counts are exact, they stay so,
and what lives is held from outside, unless things hold one another in a circle. -/

namespace Ownership

/-- The things that live, with their counts and values. `misused` tells whether something was
used after its end. -/
structure Heap (ρ V : Type) where
  live : Finset ρ
  count : ρ → ℕ
  value : ρ → V
  misused : Bool

namespace Heap

variable {ρ V : Type} [DecidableEq ρ]

def empty (v : V) : Heap ρ V := ⟨∅, fun _ => 0, fun _ => v, false⟩

/-- A new thing, with one reference to it. -/
def new (h : Heap ρ V) (r : ρ) (v : V) : Heap ρ V :=
  { h with
    live := insert r h.live, count := Function.update h.count r 1, value := Function.update h.value r v }

/-- Look at a thing. -/
def touch (h : Heap ρ V) (r : ρ) : Heap ρ V := if r ∈ h.live then h else { h with misused := true }

/-- One reference more. -/
def retain (h : Heap ρ V) (r : ρ) : Heap ρ V :=
  { h.touch r with count := Function.update h.count r (h.count r + 1) }

def write (h : Heap ρ V) (r : ρ) (v : V) : Heap ρ V :=
  { h.touch r with value := Function.update h.value r v }

/-- The end of a thing. -/
def remove (h : Heap ρ V) (r : ρ) : Heap ρ V :=
  { h with live := h.live.erase r, count := Function.update h.count r 0 }

variable (holds : V → List ρ)

/-- One reference less. With the last one the thing ends, and then what its value holds has
one less in turn, to the depth `n`. -/
def unref : ℕ → Heap ρ V → ρ → Heap ρ V
  | 0, h, _ => { h with misused := true }
  | n + 1, h, r =>
    if r ∈ h.live then
      if 1 < h.count r then { h with count := Function.update h.count r (h.count r - 1) }
      else (holds (h.value r)).foldl (unref n) (h.remove r)
    else { h with misused := true }

/-- No chain of ends is longer than there are things. -/
def release (h : Heap ρ V) (r : ρ) : Heap ρ V := h.unref holds h.live.card r

/-- All the references: `out` from outside, the others in values. -/
def refs (h : Heap ρ V) (out : Multiset ρ) : Multiset ρ :=
  out + ∑ r ∈ h.live, (holds (h.value r) : Multiset ρ)

/-- Every count is the number of references, and nothing lives without. -/
structure Exact (h : Heap ρ V) (out : Multiset ρ) : Prop where
  sound : h.misused = false
  counted : ∀ r, (h.refs holds out).count r = if r ∈ h.live then h.count r else 0
  positive : ∀ r ∈ h.live, 0 < h.count r

variable {holds} {h : Heap ρ V} {r x : ρ} {v : V} {out : Multiset ρ}

omit [DecidableEq ρ] in
theorem refs_cons : h.refs holds (r ::ₘ out) = r ::ₘ h.refs holds out := Multiset.cons_add r out _

omit [DecidableEq ρ] in
theorem mem_refs : x ∈ h.refs holds out ↔ x ∈ out ∨ ∃ r ∈ h.live, x ∈ holds (h.value r) := by
  simp [refs, Multiset.mem_sum]

/-- A reference is to something that lives. -/
theorem Exact.live_of_mem_refs (he : h.Exact holds out) (hx : x ∈ h.refs holds out) : x ∈ h.live := by
  have hpos := Multiset.count_pos.mpr hx
  rw [he.counted] at hpos
  by_contra hlive
  rw [if_neg hlive] at hpos
  exact absurd hpos (lt_irrefl 0)

theorem Exact.mem_refs (he : h.Exact holds out) (hr : r ∈ h.live) : r ∈ h.refs holds out := by
  have hpos := he.positive r hr
  have hcount := he.counted r
  rw [if_pos hr] at hcount
  rwa [← hcount, Multiset.count_pos] at hpos

theorem Exact.live (he : h.Exact holds out) (hx : x ∈ out) : x ∈ h.live :=
  he.live_of_mem_refs (Heap.mem_refs.mpr (.inl hx))

theorem Exact.live_holds (he : h.Exact holds out) (hr : r ∈ h.live) (hx : x ∈ holds (h.value r)) :
    x ∈ h.live :=
  he.live_of_mem_refs (Heap.mem_refs.mpr (.inr ⟨r, hr, hx⟩))

theorem Exact.empty (v : V) : (Heap.empty v : Heap ρ V).Exact holds 0 :=
  ⟨rfl, fun r => by simp [refs, Heap.empty], fun r hr => absurd hr (Finset.notMem_empty r)⟩

/-! ### One operation -/

@[simp] theorem touch_live : (h.touch r).live = h.live := by
  unfold touch
  split_ifs <;> rfl

@[simp] theorem touch_value : (h.touch r).value = h.value := by
  unfold touch
  split_ifs <;> rfl

@[simp] theorem retain_live : (h.retain r).live = h.live := touch_live

@[simp] theorem retain_value : (h.retain r).value = h.value := touch_value

theorem foldl_retain {l : List ρ} : (l.foldl Heap.retain h).live = h.live ∧
    (l.foldl Heap.retain h).value = h.value := by
  induction l generalizing h with
  | nil => exact ⟨rfl, rfl⟩
  | cons r l ih =>
    obtain ⟨hlive, hvalue⟩ := ih (h := h.retain r)
    exact ⟨hlive.trans retain_live, hvalue.trans retain_value⟩

theorem touch_eq (hr : r ∈ h.live) : h.touch r = h := if_pos hr

theorem Exact.touch (he : h.Exact holds out) (hr : r ∈ h.live) : (h.touch r).Exact holds out := by
  rwa [touch_eq hr]

theorem Exact.new (he : h.Exact holds (holds v + out)) (hr : r ∉ h.live) :
    (h.new r v).Exact holds (r ::ₘ out) := by
  have hrefs : (h.new r v).refs holds (r ::ₘ out) = r ::ₘ h.refs holds (holds v + out) := by
    rw [refs_cons]
    congr 1
    have hrest : ∑ x ∈ h.live, (holds (Function.update h.value r v x) : Multiset ρ) =
        ∑ x ∈ h.live, (holds (h.value x) : Multiset ρ) := by
      apply Finset.sum_congr rfl
      intro x hx
      rw [Function.update_of_ne (ne_of_mem_of_not_mem hx hr)]
    simp only [refs, Heap.new, Finset.sum_insert hr, Function.update_self, hrest]
    ac_rfl
  refine ⟨he.sound, fun x => ?_, fun x hx => ?_⟩
  · rw [hrefs, Multiset.count_cons, he.counted]
    by_cases hx : x = r
    · subst hx
      simp [Heap.new, hr]
    · simp [Heap.new, hx]
  · by_cases hxr : x = r
    · subst hxr
      simp [Heap.new]
    · have hpos := he.positive x ((Finset.mem_insert.mp hx).resolve_left hxr)
      simpa [Heap.new, hxr] using hpos

/-- Only the references to `r` have changed, and its count with them. -/
theorem Exact.recount {out' : Multiset ρ} {n : ℕ} (he : h.Exact holds out) (hr : r ∈ h.live)
    (hn : 0 < n) (hself : (h.refs holds out').count r = n)
    (hother : ∀ x, x ≠ r → out'.count x = out.count x) :
    Exact holds { h with count := Function.update h.count r n } out' := by
  refine ⟨he.sound, fun x => ?_, fun x hx => ?_⟩
  · by_cases hxr : x = r
    · subst hxr
      simpa [refs, hr] using hself
    · have hc := he.counted x
      simp only [refs, Multiset.count_add, hother x hxr, Function.update_of_ne hxr] at hc ⊢
      exact hc
  · by_cases hxr : x = r
    · subst hxr
      simpa using hn
    · simpa [hxr] using he.positive x hx

theorem Exact.retain (he : h.Exact holds out) (hr : r ∈ h.live) :
    (h.retain r).Exact holds (r ::ₘ out) := by
  have hretain : h.retain r = { h with count := Function.update h.count r (h.count r + 1) } := by
    rw [Heap.retain, touch_eq hr]
  rw [hretain]
  refine he.recount hr (Nat.succ_pos _) ?_ fun x hx => Multiset.count_cons_of_ne hx _
  rw [refs_cons, Multiset.count_cons_self, he.counted, if_pos hr]

theorem Exact.retains {l : List ρ} (he : h.Exact holds out) (hl : ∀ r ∈ l, r ∈ h.live) :
    (l.foldl Heap.retain h).Exact holds (l + out) := by
  induction l generalizing h out with
  | nil => simpa using he
  | cons r l ih =>
    rw [List.forall_mem_cons] at hl
    have hrest := ih (he.retain hl.1) (by simpa using hl.2)
    rwa [Multiset.add_cons, ← Multiset.cons_add, Multiset.cons_coe] at hrest

/-- A reference is given back, and it was not the last one. -/
theorem Exact.drop (he : h.Exact holds (r ::ₘ out)) (hr : r ∈ h.live) (hmore : 1 < h.count r) :
    Exact holds { h with count := Function.update h.count r (h.count r - 1) } out := by
  refine he.recount hr (Nat.sub_pos_of_lt hmore) ?_ fun x hx => (Multiset.count_cons_of_ne hx _).symm
  have hc := he.counted r
  rw [refs_cons, Multiset.count_cons_self, if_pos hr] at hc
  exact Nat.eq_sub_of_add_eq hc

/-- A value is replaced; what is held by the one and not by the other is held from outside. -/
theorem Exact.write {out' : Multiset ρ} (he : h.Exact holds out) (hr : r ∈ h.live)
    (hout : out' + holds v = out + holds (h.value r)) : (h.write r v).Exact holds out' := by
  have hwrite : h.write r v = { h with value := Function.update h.value r v } := by
    rw [Heap.write, touch_eq hr]
  have hrefs : (h.write r v).refs holds out' = h.refs holds out := by
    have hrest : ∑ x ∈ h.live.erase r, (holds (Function.update h.value r v x) : Multiset ρ) =
        ∑ x ∈ h.live.erase r, (holds (h.value x) : Multiset ρ) := by
      apply Finset.sum_congr rfl
      intro x hx
      rw [Function.update_of_ne (Finset.ne_of_mem_erase hx)]
    rw [hwrite]
    simp only [refs, ← Finset.add_sum_erase h.live _ hr, Function.update_self, hrest]
    rw [← add_assoc, hout, add_assoc]
  rw [hwrite] at hrefs ⊢
  refine ⟨he.sound, fun x => ?_, he.positive⟩
  rw [hrefs, he.counted]

/-- The last reference is given back: what the thing has held is left. -/
theorem Exact.remove (he : h.Exact holds (r ::ₘ out)) (hr : r ∈ h.live) (hlast : ¬ 1 < h.count r) :
    (h.remove r).Exact holds (holds (h.value r) + out) := by
  have hrefs : (h.remove r).refs holds (holds (h.value r) + out) = h.refs holds out := by
    simp only [refs, Heap.remove, ← Finset.add_sum_erase h.live _ hr]
    ac_rfl
  refine ⟨he.sound, fun x => ?_, fun x hx => ?_⟩
  · have hc := he.counted x
    rw [refs_cons, Multiset.count_cons] at hc
    rw [hrefs]
    by_cases hx : x = r
    · subst hx
      rw [if_pos rfl, if_pos hr] at hc
      simp only [Heap.remove, Finset.notMem_erase, if_false]
      omega
    · rw [if_neg hx, Nat.add_zero] at hc
      simpa [Heap.remove, hx] using hc
  · have hpos := he.positive x (Finset.mem_of_mem_erase hx)
    simpa [Heap.remove, Finset.ne_of_mem_erase hx] using hpos

/-! ### The ends of things -/

@[simp] theorem unref_value {n : ℕ} : (h.unref holds n r).value = h.value := by
  induction n generalizing h r with
  | zero => rfl
  | succ n ih =>
    have hfold : ∀ (l : List ρ) (h : Heap ρ V), (l.foldl (unref holds n) h).value = h.value := by
      intro l
      induction l with
      | nil => exact fun h => rfl
      | cons x l ihl => exact fun h => (ihl _).trans ih
    unfold unref
    split_ifs
    · rfl
    · exact hfold _ _
    · rfl

omit [DecidableEq ρ] in
theorem foldl_subset {f : Heap ρ V → ρ → Heap ρ V} (hf : ∀ h x, (f h x).live ⊆ h.live) (l : List ρ)
    (h : Heap ρ V) : (l.foldl f h).live ⊆ h.live := by
  induction l generalizing h with
  | nil => exact Finset.Subset.refl _
  | cons x l ih => exact (ih _).trans (hf h x)

theorem unref_subset {n : ℕ} : (h.unref holds n r).live ⊆ h.live := by
  induction n generalizing h r with
  | zero => exact Finset.Subset.refl _
  | succ n ih =>
    unfold unref
    split_ifs
    · exact Finset.Subset.refl _
    · exact (foldl_subset (fun h x => ih) _ _).trans (Finset.erase_subset r h.live)
    · exact Finset.Subset.refl _

/-- A list of references is given back. -/
theorem Exact.foldl {n : ℕ} (hunref : ∀ (h : Heap ρ V) r out, h.live.card ≤ n →
      h.Exact holds (r ::ₘ out) → (h.unref holds n r).Exact holds out) {l : List ρ}
    (hn : h.live.card ≤ n) (he : h.Exact holds (l + out)) :
    (l.foldl (unref holds n) h).Exact holds out := by
  induction l generalizing h with
  | nil => simpa using he
  | cons x l ih =>
    have hx : h.Exact holds (x ::ₘ (l + out)) := by
      rw [← Multiset.cons_add, Multiset.cons_coe]
      exact he
    exact ih ((Finset.card_le_card unref_subset).trans hn) (hunref h x _ hn hx)

theorem Exact.unref {n : ℕ} (hn : h.live.card ≤ n) (he : h.Exact holds (r ::ₘ out)) :
    (h.unref holds n r).Exact holds out := by
  have hr : r ∈ h.live := he.live (Multiset.mem_cons_self r out)
  induction n generalizing h r out with
  | zero => exact absurd (Finset.card_pos.mpr ⟨r, hr⟩) (Nat.not_lt_of_le hn)
  | succ n ih =>
    unfold Heap.unref
    rw [if_pos hr]
    split_ifs with hmore
    · exact he.drop hr hmore
    · have hcard : (h.remove r).live.card ≤ n := by
        rw [Heap.remove, Finset.card_erase_of_mem hr]
        exact Nat.sub_le_of_le_add hn
      exact (he.remove hr hmore).foldl
        (fun h r out hn he => ih hn he (he.live (Multiset.mem_cons_self r out))) hcard

/-- The counts stay exact when a reference is given back, whatever ends with it. -/
theorem Exact.release (he : h.Exact holds (r ::ₘ out)) : (h.release holds r).Exact holds out :=
  he.unref le_rfl

/-- The references of a list are given back, one after the other. -/
theorem Exact.releases {l : List ρ} (he : h.Exact holds (l + out)) :
    (l.foldl (Heap.release holds) h).Exact holds out := by
  induction l generalizing h with
  | nil => simpa using he
  | cons r l ih =>
    rw [← Multiset.cons_coe, Multiset.cons_add] at he
    exact ih he.release

/-- Nothing comes to be in the end of others, and what is left has the value that it had. -/
theorem foldl_release {l : List ρ} : (l.foldl (Heap.release holds) h).live ⊆ h.live ∧
    (l.foldl (Heap.release holds) h).value = h.value := by
  refine ⟨foldl_subset (fun _ _ => unref_subset) l h, ?_⟩
  induction l generalizing h with
  | nil => rfl
  | cons r l ih => exact ih.trans unref_value

/-! ### What is reached -/

variable (holds h) in
/-- What is reached from outside, by way of values. -/
inductive Reached (out : Multiset ρ) : ρ → Prop
  | here {y : ρ} (hy : y ∈ out) : Reached out y
  | there {y z : ρ} (hy : Reached out y) (hz : z ∈ holds (h.value y)) : Reached out z

/-- What was reached is alive as long as what is reached holds what it held. -/
theorem Exact.live_of_reached {k : Heap ρ V} {part : Multiset ρ} (he : h.Exact holds out)
    (hpart : part ≤ out)
    (hvalue : ∀ y ∈ h.live, k.Reached holds part y → holds (k.value y) ⊆ holds (h.value y))
    (hr : k.Reached holds part r) : r ∈ h.live := by
  induction hr with
  | here hy => exact he.live (Multiset.mem_of_le hpart hy)
  | there hy hz ih => exact he.live_holds ih (hvalue _ ih hy hz)

/-! ### Circles -/

variable (holds h) in
/-- One thing holds another. -/
def Holds (r x : ρ) : Prop := r ∈ h.live ∧ x ∈ holds (h.value r)

variable (holds h) in
/-- Things that hold one another in a circle. -/
def OnCircle (r : ρ) : Prop := Relation.TransGen (h.Holds holds) r r

/-- What lives is held by somebody outside, or by things that hold one another in a circle. -/
theorem Exact.reached (he : h.Exact holds out) (hr : r ∈ h.live) :
    ∃ x, (x ∈ out ∨ h.OnCircle holds x) ∧ Relation.ReflTransGen (h.Holds holds) x r := by
  by_contra hnone
  push Not at hnone
  -- what holds `r` has a first, for it is finite and has no circles
  let before := {x // x ∈ h.live ∧ Relation.ReflTransGen (h.Holds holds) x r}
  have : Finite before := Set.Finite.subset h.live.finite_toSet fun x hx => hx.1
  let earlier : before → before → Prop := fun x y => Relation.TransGen (h.Holds holds) x.1 y.1
  have : IsTrans before earlier := ⟨fun _ _ _ => .trans⟩
  have : Std.Irrefl earlier := ⟨fun x hx => (hnone x.1 (.inr hx)) x.2.2⟩
  obtain ⟨x, -, hmin⟩ := (Finite.wellFounded_of_trans_of_irrefl earlier).has_min Set.univ
    ⟨⟨r, hr, .refl⟩, trivial⟩
  rcases Heap.mem_refs.mp (he.mem_refs x.2.1) with hout | ⟨y, hy, hholds⟩
  · exact hnone x.1 (.inl hout) x.2.2
  · exact hmin ⟨y, hy, .head ⟨hy, hholds⟩ x.2.2⟩ trivial (.single ⟨hy, hholds⟩)

end Heap

end Ownership
