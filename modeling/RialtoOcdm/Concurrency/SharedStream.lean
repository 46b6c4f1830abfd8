import Mathlib.Data.List.Basic

/-! A stream that several writers share: they write to it and clear it in any order. It
holds all that one writer has written and nothing else if and only if that one began when
the stream was clear and has been undisturbed since. Histories have the last event in
front. -/

namespace Concurrency.SharedStream

variable {ω α : Type}

/-- A writer begins or goes on, or somebody clears the stream. -/
inductive Event (ω α : Type)
  | begins (w : ω) (a : α)
  | writes (w : ω) (a : α)
  | clears

/-- What is in the stream, with the writer of every piece. -/
def content : List (Event ω α) → List (ω × α)
  | [] => []
  | .begins w a :: es => content es ++ [(w, a)]
  | .writes w a :: es => content es ++ [(w, a)]
  | .clears :: _ => []

/-- Nobody has written to the stream since it was cleared. -/
def Clear : List (Event ω α) → Prop
  | [] => True
  | .begins .. :: _ => False
  | .writes .. :: _ => False
  | .clears :: _ => True

variable [DecidableEq ω] (w : ω)

/-- What one writer has written. -/
def own : List (Event ω α) → List (ω × α)
  | [] => []
  | .begins v a :: es => if v = w then own es ++ [(v, a)] else own es
  | .writes v a :: es => if v = w then own es ++ [(v, a)] else own es
  | .clears :: es => own es

/-- The writer has begun, and has begun with its first piece. -/
def Begun : List (Event ω α) → Prop
  | [] => False
  | .begins v _ :: es => if v = w then own w es = [] else Begun es
  | .writes _ _ :: es => Begun es
  | .clears :: es => Begun es

/-- The writer began when the stream was clear, and since then nobody else has written to
it and nobody has cleared it. -/
def Undisturbed : List (Event ω α) → Prop
  | [] => False
  | .begins v _ :: es => v = w ∧ Clear es
  | .writes v _ :: es => v = w ∧ Undisturbed es
  | .clears :: _ => False

instance : (es : List (Event ω α)) → Decidable (Clear es)
  | [] => inferInstanceAs (Decidable True)
  | .begins .. :: _ => inferInstanceAs (Decidable False)
  | .writes .. :: _ => inferInstanceAs (Decidable False)
  | .clears :: _ => inferInstanceAs (Decidable True)

instance decidableUndisturbed : (es : List (Event ω α)) → Decidable (Undisturbed w es)
  | [] => inferInstanceAs (Decidable False)
  | .begins v _ :: es => inferInstanceAs (Decidable (v = w ∧ Clear es))
  | .writes v _ :: es =>
    have := decidableUndisturbed es
    inferInstanceAs (Decidable (v = w ∧ Undisturbed w es))
  | .clears :: _ => inferInstanceAs (Decidable False)

variable {w} {es : List (Event ω α)}

omit [DecidableEq ω] in
theorem content_eq_nil_iff : content es = [] ↔ Clear es := by
  cases es with
  | nil => simp [content, Clear]
  | cons e es => cases e <;> simp [content, Clear]

theorem eq_of_mem_own {p : ω × α} (h : p ∈ own w es) : p.1 = w := by
  induction es with
  | nil => cases h
  | cons e es ih =>
    cases e with
    | begins v a | writes v a =>
      unfold own at h
      split_ifs at h with hv
      · rcases List.mem_append.mp h with h | h
        · exact ih h
        · rw [List.mem_singleton.mp h]
          exact hv
      · exact ih h
    | clears => exact ih h

theorem Begun.own_ne_nil (h : Begun w es) : own w es ≠ [] := by
  induction es with
  | nil => exact h.elim
  | cons e es ih =>
    cases e with
    | begins v a =>
      unfold own
      unfold Begun at h
      split_ifs at h ⊢
      · simp
      · exact ih h
    | writes v a =>
      unfold own
      split_ifs
      · simp
      · exact ih h
    | clears => exact ih h

/-- With a piece of another writer at its end, the stream is not one writer's. -/
theorem append_ne_own {v : ω} {a : α} {l : List (ω × α)} (hv : v ≠ w) : l ++ [(v, a)] ≠ own w es :=
  fun h => hv (eq_of_mem_own (h ▸ List.mem_append_right l List.mem_cons_self : (v, a) ∈ own w es))

theorem content_eq_own_iff (h : Begun w es) : content es = own w es ↔ Undisturbed w es := by
  induction es with
  | nil => exact h.elim
  | cons e es ih =>
    cases e with
    | begins v a =>
      unfold content own Undisturbed
      by_cases hv : v = w
      · unfold Begun at h
        rw [if_pos hv] at h
        rw [if_pos hv, h, List.nil_append, List.append_left_eq_self, content_eq_nil_iff]
        exact (and_iff_right hv).symm
      · rw [if_neg hv]
        exact iff_of_false (append_ne_own hv) fun hu => hv hu.1
    | writes v a =>
      unfold content own Undisturbed
      by_cases hv : v = w
      · rw [if_pos hv, List.append_left_inj, ih h]
        exact (and_iff_right hv).symm
      · rw [if_neg hv]
        exact iff_of_false (append_ne_own hv) fun hu => hv hu.1
    | clears => exact iff_of_false (Ne.symm h.own_ne_nil) id

end Concurrency.SharedStream
