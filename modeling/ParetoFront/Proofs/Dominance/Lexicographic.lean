import ParetoFront.Proofs.Dominance.StrictOrder

/-!
# The lexicographic order of objective vectors

One objective vector is smaller than another when some value of it is less and all values before
that are numerically equal. Without undefined values, vectors are ordered as the lists of their
places are.

## Main definitions

- `LexicographicallyLess` — the order, by a place that decides it

## Main statements

- `lexicographicallyLess_iff`, `beq_iff_map_units` — the order and numerical equality by places
-/

namespace ParetoFront

open Number

/-- At some place the value of `xs` is less, and all values before that are numerically equal. The
vectors are of one length. -/
def LexicographicallyLess (xs ys : List Float) : Prop :=
  ∃ j < xs.length, (xs.take j == ys.take j) = true ∧ xs.getD j 0 < ys.getD j 0

instance : DecidableRel LexicographicallyLess := fun xs ys =>
  inferInstanceAs (Decidable (∃ j < xs.length,
    (xs.take j == ys.take j) = true ∧ xs.getD j 0 < ys.getD j 0))

variable {x y : Float} {xs ys : List Float}

theorem lexicographicallyLess_cons_iff :
    LexicographicallyLess (x :: xs) (y :: ys) ↔
      x < y ∨ (x == y) = true ∧ LexicographicallyLess xs ys := by
  rw [LexicographicallyLess, List.length_cons, Nat.exists_lt_succ_left]
  refine or_congr (and_iff_right rfl) ?_
  simp only [List.take_succ_cons, List.getD_cons_succ, List.cons_beq_cons, Bool.and_eq_true,
    LexicographicallyLess]
  grind

section Numbers

variable (hx : AllNumbers xs) (hy : AllNumbers ys)
include hx hy

/-- Vectors are numerically equal when they have the same places. -/
theorem beq_iff_map_units : (xs == ys) = true ↔ xs.map units = ys.map units := by
  induction xs generalizing ys with
  | nil => cases ys <;> simp
  | cons x xs ih =>
    cases ys with
    | nil => simp
    | cons y ys =>
      obtain ⟨headX, tailX⟩ := List.forall_mem_cons.1 hx
      obtain ⟨headY, tailY⟩ := List.forall_mem_cons.1 hy
      rw [List.cons_beq_cons, Bool.and_eq_true, ih tailX tailY, beq_iff_units headX headY,
        List.map_cons, List.map_cons, List.cons.injEq]

theorem lexicographicallyLess_iff (h : xs.length = ys.length) :
    LexicographicallyLess xs ys ↔ xs.map units < ys.map units := by
  induction xs generalizing ys with
  | nil =>
    obtain rfl := List.length_eq_zero_iff.1 h.symm
    simp [LexicographicallyLess]
  | cons x xs ih =>
    cases ys with
    | nil => simp at h
    | cons y ys =>
      obtain ⟨headX, tailX⟩ := List.forall_mem_cons.1 hx
      obtain ⟨headY, tailY⟩ := List.forall_mem_cons.1 hy
      rw [lexicographicallyLess_cons_iff, ih tailX tailY (Nat.succ.inj h),
        lt_iff_units headX headY, beq_iff_units headX headY, List.map_cons, List.map_cons,
        List.cons_lt_cons_iff]

end Numbers

end ParetoFront
