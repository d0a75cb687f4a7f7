import ParetoFront.Proofs.Dominance.Tier

/-!
# Comparison of boxes

Box dominance puts the feasibility tier before the componentwise order of box vectors. Two
solutions share a box when the tier is tied and their box vectors are equal. The scan of the boxes
computes them on its way and goes on to the end; the scan of the two box vectors that stops early
finds the same.

## Main definitions

- `Epsilons.boxIndexFrom` — the boxes of the values that a scan has still to look at

## Main statements

- `Epsilons.boxAdvantage_eq_advantage` — the scan of the boxes is that of the box vectors
- `Epsilons.relateBoxes_swap` — the comparison seen from the other side, for all floats
- `Epsilons.relateBoxes_sameBox_iff` — what it means to share a box
- `Epsilons.relateBoxes_dominance_eq_left_iff` — dominance by places and box vectors
-/

namespace ParetoFront.Epsilons

variable (ε : Epsilons) {a b : Solution}

@[simp] theorem length_boxIndex (xs : List Float) : (ε.boxIndex xs).length = xs.length := by
  simp [boxIndex]

theorem compareBoxes_eq_ok (h : a.objectives.length = b.objectives.length) :
    ε.compareBoxes a b = .ok (ε.relateBoxes a b) := by
  rw [compareBoxes, requireEqualLengths, if_pos h]
  cases (feasibilityTier a b).isNone <;> rfl

theorem relateBoxes_of_some {d : Dominance} (h : feasibilityTier a b = some d) :
    ε.relateBoxes a b = ⟨d, false⟩ := by
  rw [relateBoxes, h]

/-- The boxes of values that begin with that of objective `i`. -/
def boxIndexFrom (i : Nat) (xs : List Float) : List Int :=
  (xs.zipIdx i).map fun (v, i) => ε.coordinate i v

@[simp] theorem boxIndexFrom_cons (i : Nat) (v : Float) (xs : List Float) :
    ε.boxIndexFrom i (v :: xs) = ε.coordinate i v :: ε.boxIndexFrom (i + 1) xs :=
  rfl

/-- A scan that never stops early collects what it passes. -/
theorem boxAdvantage_eq (i : Nat) (soFar : Advantage) (xs ys : List Float) :
    ε.boxAdvantage i soFar xs ys =
      ⟨soFar.left ||
          betterSomewhere strictlyLess (ε.boxIndexFrom i xs) (ε.boxIndexFrom i ys),
        soFar.right ||
          betterSomewhere strictlyLess (ε.boxIndexFrom i ys) (ε.boxIndexFrom i xs)⟩ := by
  induction xs generalizing i soFar ys with
  | nil => simp [boxAdvantage, boxIndexFrom]
  | cons v xs ih =>
    cases ys with
    | nil => simp [boxAdvantage, boxIndexFrom]
    | cons w ys =>
      rw [boxAdvantage, ih, boxIndexFrom_cons, boxIndexFrom_cons, betterSomewhere_cons,
        betterSomewhere_cons, strictlyLess, strictlyLess]
      obtain less | same | greater := lt_trichotomy (ε.coordinate i v) (ε.coordinate i w)
      · simp [less, less.asymm]
      · simp [same]
      · simp [greater, greater.asymm]

/-- The scan of the boxes finds what the scan of the box vectors does. -/
theorem boxAdvantage_eq_advantage (soFar : Advantage) (xs ys : List Float) :
    ε.boxAdvantage 0 soFar xs ys =
      advantage strictlyLess soFar (ε.boxIndex xs) (ε.boxIndex ys) := by
  rw [boxAdvantage_eq, advantage_eq strictlyLess_asymm]
  rfl

theorem relateBoxes_of_none (h : feasibilityTier a b = none) :
    ε.relateBoxes a b =
      ⟨(advantage strictlyLess ⟨false, false⟩ (ε.boxIndex a.objectives)
          (ε.boxIndex b.objectives)).dominance,
        (advantage strictlyLess ⟨false, false⟩ (ε.boxIndex a.objectives)
          (ε.boxIndex b.objectives)).isTie⟩ := by
  rw [relateBoxes, h, boxAdvantage_eq_advantage]

theorem relateBoxes_dominance (a b : Solution) :
    (ε.relateBoxes a b).dominance =
      (feasibilityTier a b).getD (advantage strictlyLess ⟨false, false⟩ (ε.boxIndex a.objectives)
        (ε.boxIndex b.objectives)).dominance := by
  cases h : feasibilityTier a b with
  | some d => rw [ε.relateBoxes_of_some h, Option.getD_some]
  | none => rw [ε.relateBoxes_of_none h, Option.getD_none]

theorem relateBoxes_swap (a b : Solution) :
    ε.relateBoxes b a = ⟨(ε.relateBoxes a b).dominance.swap, (ε.relateBoxes a b).sameBox⟩ := by
  have swap := feasibilityTier_swap a b
  cases h : feasibilityTier a b with
  | some d =>
    rw [h] at swap
    rw [ε.relateBoxes_of_some h, ε.relateBoxes_of_some swap]
  | none =>
    rw [h] at swap
    rw [ε.relateBoxes_of_none h, ε.relateBoxes_of_none swap, advantage_swap strictlyLess_asymm,
      Advantage.dominance_swap, Advantage.isTie_swap]

/-- Two solutions share a box when the tier is tied and their box vectors are equal. -/
theorem relateBoxes_sameBox_iff (h : a.objectives.length = b.objectives.length) :
    (ε.relateBoxes a b).sameBox = true ↔
      feasibilityTier a b = none ∧ ε.boxIndex a.objectives = ε.boxIndex b.objectives := by
  cases tier : feasibilityTier a b with
  | some d => simp [ε.relateBoxes_of_some tier]
  | none =>
    rw [ε.relateBoxes_of_none tier, advantage_isTie_iff (by simpa using h)]
    simp

/-- In a shared box neither solution dominates. -/
theorem relateBoxes_dominance_of_sameBox (h : (ε.relateBoxes a b).sameBox = true) :
    (ε.relateBoxes a b).dominance = .neither := by
  cases tier : feasibilityTier a b with
  | some d => simp [ε.relateBoxes_of_some tier] at h
  | none =>
    rw [ε.relateBoxes_of_none tier] at h ⊢
    revert h
    generalize advantage strictlyLess ⟨false, false⟩ (ε.boxIndex a.objectives)
      (ε.boxIndex b.objectives) = found
    revert found
    rintro ⟨_ | _, _ | _⟩ <;> simp [Advantage.isTie, Advantage.dominance]

theorem relateBoxes_dominance_eq_left_iff (ha : AllNumbers a.constraints)
    (hb : AllNumbers b.constraints) (h : a.objectives.length = b.objectives.length) :
    (ε.relateBoxes a b).dominance = .left ↔
      a.violationPlace < b.violationPlace ∨
        a.violationPlace = b.violationPlace ∧
          List.Forall₂ (· ≤ ·) (ε.boxIndex a.objectives) (ε.boxIndex b.objectives) ∧
          ε.boxIndex a.objectives ≠ ε.boxIndex b.objectives := by
  rw [relateBoxes_dominance, feasibilityTier_getD_eq_left_iff ha hb,
    advantage_dominance_eq_left_iff (by simpa using h)]

end ParetoFront.Epsilons
