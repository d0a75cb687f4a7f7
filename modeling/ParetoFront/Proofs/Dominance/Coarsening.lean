import ParetoFront.Proofs.Dominance.StrictOrder
import ParetoFront.Proofs.Number.Fraction
import ParetoFront.Proofs.Number.Monotone

/-!
# Boxes coarsen the objectives

Dividing by a box width, taking the floor and clamping it are monotone, so that a vector at most
another one lies in a box at most the other one's. When the box is the same, the distance to its
corner is at most the other one's as well: fractional parts over one floor are monotone, and so are
sums of them. Constrained dominance is therefore never turned round by boxes and residuals.

## Main statements

- `Epsilons.boxIndex_mono`, `Epsilons.residual_mono` — boxes, and residuals in one box
- `Epsilons.relateBoxes_of_dominates` — a dominated solution lies in a dominated box or the same one
- `Epsilons.compareBoxes_coarsens` — constrained dominance and box dominance never disagree
-/

namespace ParetoFront

open Number

/-- Pareto dominance on numbers says that no place is greater. -/
theorem forall₂_le_of_paretoDominance {xs ys : List Float} (hx : AllNumbers xs)
    (hy : AllNumbers ys) (lengths : xs.length = ys.length)
    (dominates : paretoDominance xs ys = .left) : List.Forall₂ (· ≤ ·) xs ys := by
  obtain ⟨places, -⟩ := (paretoDominance_eq_left_iff hx hy lengths).1 dominates
  rw [List.forall₂_iff_get] at places ⊢
  refine ⟨lengths, fun i hi hi' => (le_iff_units (hx _ ?_) (hy _ ?_)).2 ?_⟩
  · exact List.get_mem ..
  · exact List.get_mem ..
  · simpa using places.2 i (by simpa using hi) (by simpa using hi')

namespace Epsilons

variable (ε : Epsilons) {xs ys : List Float} {a b : Solution}

theorem isBoxWidth_get (i : Nat) : (ε.get i).isFinite = true ∧ 0 < ε.get i := by
  have valid := ε.valid (ε.get i) (List.get_mem ..)
  rwa [isBoxWidth, Bool.and_eq_true, decide_eq_true_iff] at valid

theorem coordinate_mono (i : Nat) {v w : Float} (le : v ≤ w) :
    ε.coordinate i v ≤ ε.coordinate i w :=
  clampedFloor_mono (div_mono (ε.isBoxWidth_get i).1 (ε.isBoxWidth_get i).2 le)

theorem get_boxIndex {i : Nat} (h : i < xs.length) :
    (ε.boxIndex xs).get ⟨i, by simpa using h⟩ = ε.coordinate i xs[i] := by
  simp [boxIndex]

theorem boxIndex_mono (le : List.Forall₂ (· ≤ ·) xs ys) :
    List.Forall₂ (· ≤ ·) (ε.boxIndex xs) (ε.boxIndex ys) := by
  rw [List.forall₂_iff_get] at le ⊢
  refine ⟨by simpa using le.1, fun i hi hi' => ?_⟩
  rw [length_boxIndex] at hi hi'
  rw [ε.get_boxIndex hi, ε.get_boxIndex hi']
  exact ε.coordinate_mono i (le.2 i hi hi')

/-- In one box the order of the objectives is that of the residuals. -/
theorem residual_mono (le : List.Forall₂ (· ≤ ·) xs ys)
    (first : ∀ p ∈ xs.zipIdx, (p.1 / ε.get p.2).isFinite = true)
    (second : ∀ p ∈ ys.zipIdx, (p.1 / ε.get p.2).isFinite = true)
    (same : ε.boxIndex xs = ε.boxIndex ys) : ε.residual xs ≤ ε.residual ys := by
  rw [List.forall₂_iff_get] at le
  refine sum_mono (List.forall₂_iff_get.2 ⟨by simpa using le.1, fun i hi hi' => ?_⟩)
  rw [List.length_map, List.length_zipIdx] at hi hi'
  have coordinates : ε.coordinate i xs[i] = ε.coordinate i ys[i] := by
    rw [← ε.get_boxIndex hi, ← ε.get_boxIndex hi']
    exact List.get_of_eq same _
  have inside := first _ (List.mk_mem_zipIdx_iff_getElem?.2 (List.getElem?_eq_getElem hi))
  have inside' := second _ (List.mk_mem_zipIdx_iff_getElem?.2 (List.getElem?_eq_getElem hi'))
  have width := ε.isBoxWidth_get i
  simp only [List.get_eq_getElem, List.getElem_map, List.getElem_zipIdx, Nat.zero_add]
  exact ⟨fractional_nonneg inside, fractional_mono ⟨inside, inside'⟩
    (div_mono width.1 width.2 (le.2 i hi hi')) coordinates⟩

/-- A solution that is dominated lies in a dominated box, or in the same box and nowhere below. -/
theorem relateBoxes_of_dominates (ha : AllNumbers a.objectives) (hb : AllNumbers b.objectives)
    (lengths : a.objectives.length = b.objectives.length)
    (dominates : Criterion.constrained.relate a b = .left) :
    (ε.relateBoxes a b).dominance = .left ∨
      (ε.relateBoxes a b).sameBox = true ∧ List.Forall₂ (· ≤ ·) a.objectives b.objectives := by
  rw [Criterion.relate] at dominates
  cases tier : feasibilityTier a b with
  | some d =>
    rw [tier, Option.getD_some] at dominates
    exact Or.inl (by rw [ε.relateBoxes_of_some tier, dominates])
  | none =>
    rw [tier, Option.getD_none] at dominates
    have le := forall₂_le_of_paretoDominance ha hb lengths dominates
    by_cases same : ε.boxIndex a.objectives = ε.boxIndex b.objectives
    · exact Or.inr ⟨(ε.relateBoxes_sameBox_iff lengths).2 ⟨tier, same⟩, le⟩
    · refine Or.inl ?_
      rw [relateBoxes_dominance, tier, Option.getD_none,
        advantage_dominance_eq_left_iff (by simpa using lengths)]
      exact ⟨ε.boxIndex_mono le, same⟩

/-- A solution that box-dominates another one is not dominated by it. -/
theorem relate_ne_right_of_relateBoxes (ha : AllNumbers a.objectives)
    (hb : AllNumbers b.objectives) (lengths : a.objectives.length = b.objectives.length)
    (wins : (ε.relateBoxes a b).dominance = .left) : Criterion.constrained.relate a b ≠ .right := by
  intro loses
  have dominates : Criterion.constrained.relate b a = .left := by
    rw [Criterion.relate_swap, loses]
    rfl
  have back : (ε.relateBoxes b a).dominance = .right := by
    rw [ε.relateBoxes_swap a b, wins]
    rfl
  obtain boxes | ⟨shared, -⟩ := ε.relateBoxes_of_dominates hb ha lengths.symm dominates
  · cases back.symm.trans boxes
  · cases back.symm.trans (ε.relateBoxes_dominance_of_sameBox shared)

/-- On solutions of equal widths without undefined objectives, a solution that dominates another one
under the constraints lies in a box that dominates, or in the same box; and one that lies in a box
that dominates is not dominated. Objectives may be infinite, and constraint values undefined. -/
theorem compareBoxes_coarsens (widths : a.widths = b.widths) (ha : AllNumbers a.objectives)
    (hb : AllNumbers b.objectives) :
    (Criterion.constrained.compare a b = .ok .left →
      ∃ found, ε.compareBoxes a b = .ok found ∧
        (found.dominance = .left ∨ found.dominance = .neither ∧ found.sameBox = true)) ∧
    ((Criterion.epsilonBox ε).compare a b = .ok .left →
      Criterion.constrained.compare a b = .ok .left ∨
        Criterion.constrained.compare a b = .ok .neither) := by
  have lengths : a.objectives.length = b.objectives.length := congrArg Widths.objectives widths
  rw [Criterion.compare_eq_ok _ lengths, Criterion.compare_eq_ok _ lengths,
    ε.compareBoxes_eq_ok lengths]
  simp only [Except.ok.injEq]
  constructor
  · intro dominates
    refine ⟨_, rfl, (ε.relateBoxes_of_dominates ha hb lengths dominates).imp_right ?_⟩
    rintro ⟨shared, -⟩
    exact ⟨ε.relateBoxes_dominance_of_sameBox shared, shared⟩
  · intro wins
    have notRight := ε.relate_ne_right_of_relateBoxes ha hb lengths wins
    cases outcome : Criterion.constrained.relate a b with
    | left => exact .inl rfl
    | neither => exact .inr rfl
    | right => exact absurd outcome notRight

end Epsilons

/-- Infinite objectives, a last epsilon that serves two of them, and undefined violations: the first
solution dominates the second in one box, and the boxes of the third dominate those of the fourth,
which it does not dominate. -/
theorem compareBoxes_coarsens_infinite :
    let ε : Epsilons := ⟨[2, 1], by decide, by decide⟩
    let a : Solution := ⟨[], [1 / 0, 3.5, -1 / 0], [0 / 0]⟩
    let b : Solution := ⟨[], [1 / 0, 3.75, -1 / 0], [0 / 0]⟩
    let c : Solution := ⟨[], [-1 / 0, 3.75, 0], [0 / 0]⟩
    let d : Solution := ⟨[], [2, 3.5, 1], [0 / 0]⟩
    Criterion.constrained.compare a b = .ok .left ∧
      (∃ found, ε.compareBoxes a b = .ok found ∧
        (found.dominance = .left ∨ found.dominance = .neither ∧ found.sameBox = true)) ∧
      (Criterion.epsilonBox ε).compare c d = .ok .left ∧
      (Criterion.constrained.compare c d = .ok .left ∨
        Criterion.constrained.compare c d = .ok .neither) := by
  intro ε a b c d
  have dominates : Criterion.constrained.compare a b = .ok .left := by decide +kernel
  have wins : (Criterion.epsilonBox ε).compare c d = .ok .left := by decide +kernel
  have first := ε.compareBoxes_coarsens (a := a) (b := b) (by decide +kernel) (by decide +kernel)
    (by decide +kernel)
  have second := ε.compareBoxes_coarsens (a := c) (b := d) (by decide +kernel) (by decide +kernel)
    (by decide +kernel)
  exact ⟨dominates, first.1 dominates, wins, second.2 wins⟩

end ParetoFront
