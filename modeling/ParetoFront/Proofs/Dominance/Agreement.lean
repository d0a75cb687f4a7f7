import ParetoFront.Archive.Basic
import ParetoFront.Proofs.Dominance.Boxes

/-!
# Epsilons that agree along the first objectives

The boxes of vectors with `m` objectives are found with the first `m` epsilons only. Epsilons that
agree there say the same about such vectors, however many of them there are.

## Main definitions

- `Epsilons.AgreeOn` — the first objectives are divided in the same way
- `Epsilons.cut` — the first epsilons only

## Main statements

- `Epsilons.cut_agreeOn` — epsilons that are left over can be cut off
- `Epsilons.AgreeOn.boxIndex_eq`, `Epsilons.AgreeOn.relateBoxes_eq` — boxes
- `Epsilons.AgreeOn.compare_eq` — the comparator
- `Epsilons.AgreeOn.judge_eq`, `Epsilons.AgreeOn.judgeBoxes_eq` — the policies
-/

namespace ParetoFront.Epsilons

/-- The first `m` objectives are divided in the same way. -/
def AgreeOn (m : Nat) (ε ε' : Epsilons) : Prop :=
  ∀ i < m, ε.get i = ε'.get i

/-- The first `m` epsilons, but never none. -/
def cut (ε : Epsilons) (m : Nat) : Epsilons where
  values := ε.values.take (max m 1)
  nonempty := by
    rw [Ne, List.take_eq_nil_iff, not_or]
    exact ⟨by omega, ε.nonempty⟩
  valid v member := ε.valid v (List.mem_of_mem_take member)

theorem cut_agreeOn (ε : Epsilons) (m : Nat) : (ε.cut m).AgreeOn m ε := by
  intro i within
  have some := List.length_pos_iff.2 ε.nonempty
  have place : min i ((ε.values.take (max m 1)).length - 1) = min i (ε.values.length - 1) := by
    rw [List.length_take]
    omega
  simp only [get, cut, List.get_eq_getElem, List.getElem_take, place]

namespace AgreeOn

variable {m : Nat} {ε ε' : Epsilons} (agree : ε.AgreeOn m ε')
include agree

theorem get_eq {xs : List Float} (within : xs.length ≤ m) {v : Float} {i : Nat}
    (placed : (v, i) ∈ xs.zipIdx) : ε.get i = ε'.get i := by
  have inside : i < xs.length :=
    (List.getElem?_eq_some_iff.1 (List.mem_zipIdx_iff_getElem?.1 placed)).1
  exact agree i (Nat.lt_of_lt_of_le inside within)

/-- Each coordinate is found with the epsilon at its place. -/
theorem boxIndex_eq {xs : List Float} (within : xs.length ≤ m) :
    ε.boxIndex xs = ε'.boxIndex xs := by
  refine List.map_congr_left fun (v, i) placed => ?_
  simp only [coordinate, agree.get_eq within placed]

theorem residual_eq {xs : List Float} (within : xs.length ≤ m) :
    ε.residual xs = ε'.residual xs := by
  refine congrArg Number.sum (List.map_congr_left fun (v, i) placed => ?_)
  simp only [agree.get_eq within placed]

variable {a b : Solution} (left : a.objectives.length ≤ m) (right : b.objectives.length ≤ m)
include left right

theorem relateBoxes_eq : ε.relateBoxes a b = ε'.relateBoxes a b := by
  cases tier : feasibilityTier a b with
  | some d => rw [ε.relateBoxes_of_some tier, ε'.relateBoxes_of_some tier]
  | none =>
    rw [ε.relateBoxes_of_none tier, ε'.relateBoxes_of_none tier, agree.boxIndex_eq left,
      agree.boxIndex_eq right]

theorem relate_eq : (Criterion.epsilonBox ε).relate a b = (Criterion.epsilonBox ε').relate a b :=
  congrArg BoxComparison.dominance (agree.relateBoxes_eq left right)

theorem compare_eq :
    (Criterion.epsilonBox ε).compare a b = (Criterion.epsilonBox ε').compare a b := by
  rw [Criterion.compare, Criterion.compare, agree.relate_eq left right]
  rfl

theorem judge_eq (tolerance : Float) :
    (Policy.nondominated (.epsilonBox ε) tolerance).judge a b =
      (Policy.nondominated (.epsilonBox ε') tolerance).judge a b := by
  rw [Policy.judge, Policy.judge, agree.relate_eq left right]

theorem judgeBoxes_eq : (Policy.epsilonBox ε).judge a b = (Policy.epsilonBox ε').judge a b := by
  rw [Policy.judge, Policy.judge, agree.relateBoxes_eq left right, agree.residual_eq left,
    agree.residual_eq right]

end AgreeOn

end ParetoFront.Epsilons
