import ParetoFront.Proofs.Dominance.Boxes
import ParetoFront.Widths

/-!
# Criteria are strict partial orders

On solutions of equal widths every criterion answers, and says the same from both sides whatever
the floats are. Among solutions whose floats are numbers, as far as the criterion looks at them
numerically, dominance is transitive. Boxes are integers, so box dominance needs numbers among the
constraint values only.

## Main definitions

- `Criterion.Numeric` — the floats that a criterion compares numerically are numbers

## Main statements

- `Criterion.compare_swap` — the outcome seen from the other side
- `Criterion.relate_trans` — transitivity
- `Criterion.compare_strictOrder` — both, with irreflexivity
-/

namespace ParetoFront

open Number

/-- The floats that the criterion compares numerically are numbers. -/
def Criterion.Numeric (s : Solution) : Criterion → Prop
  | pareto | lexicographic => AllNumbers s.objectives
  | constrained => AllNumbers s.objectives ∧ AllNumbers s.constraints
  | epsilonBox _ => AllNumbers s.constraints

instance (s : Solution) (r : Criterion) : Decidable (r.Numeric s) :=
  match r with
  | .pareto | .lexicographic => inferInstanceAs (Decidable (AllNumbers s.objectives))
  | .constrained =>
    inferInstanceAs (Decidable (AllNumbers s.objectives ∧ AllNumbers s.constraints))
  | .epsilonBox _ => inferInstanceAs (Decidable (AllNumbers s.constraints))

variable {a b c : Solution}

theorem lt_asymm_decide (x y : Float) (h : decide (x < y) = true) : decide (y < x) = false :=
  decide_eq_false (Number.lt_asymm (of_decide_eq_true h))

theorem paretoDominance_swap (xs ys : List Float) :
    paretoDominance ys xs = (paretoDominance xs ys).swap := by
  rw [paretoDominance, paretoDominance, advantage_swap lt_asymm_decide xs ys]
  exact Advantage.dominance_swap _

theorem lexicographicDominance_swap (xs ys : List Float) :
    lexicographicDominance ys xs = (lexicographicDominance xs ys).swap := by
  induction xs generalizing ys with
  | nil => cases ys <;> rfl
  | cons x xs ih =>
    cases ys with
    | nil => rfl
    | cons y ys =>
      rw [lexicographicDominance, lexicographicDominance, ih]
      by_cases hxy : x < y
      · simp [hxy, Number.lt_asymm hxy, Dominance.swap]
      · by_cases hyx : y < x <;> simp [hxy, hyx, Dominance.swap]

theorem Criterion.relate_swap (r : Criterion) (a b : Solution) :
    r.relate b a = (r.relate a b).swap := by
  cases r with
  | pareto => exact paretoDominance_swap ..
  | constrained =>
    simp only [relate]
    rw [feasibilityTier_swap a b, paretoDominance_swap a.objectives]
    cases feasibilityTier a b <;> rfl
  | epsilonBox ε => rw [relate, ε.relateBoxes_swap, relate]
  | lexicographic => exact lexicographicDominance_swap ..

/-- On numbers, Pareto dominance is the strict componentwise order of places. -/
theorem paretoDominance_eq_left_iff {xs ys : List Float} (hx : AllNumbers xs) (hy : AllNumbers ys)
    (h : xs.length = ys.length) :
    paretoDominance xs ys = .left ↔
      List.Forall₂ (· ≤ ·) (xs.map units) (ys.map units) ∧ xs.map units ≠ ys.map units := by
  have places (x y : Float) (hx : x.isNaN = false) (hy : y.isNaN = false) :
      decide (x < y) = strictlyLess (units x) (units y) := by
    simp only [strictlyLess, lt_iff_units hx hy]
  rw [paretoDominance, advantage_map units ⟨false, false⟩
    (fun x hx' y hy' => places x y (hx x hx') (hy y hy'))
    (fun x hx' y hy' => places y x (hy y hy') (hx x hx')), advantage_dominance_eq_left_iff]
  simpa using h

/-- On numbers, lexicographic dominance is the lexicographic order of places. -/
theorem lexicographicDominance_eq_left_iff {xs ys : List Float} (hx : AllNumbers xs)
    (hy : AllNumbers ys) (h : xs.length = ys.length) :
    lexicographicDominance xs ys = .left ↔ xs.map units < ys.map units := by
  induction xs generalizing ys with
  | nil =>
    obtain rfl := List.length_eq_zero_iff.1 h.symm
    simp [lexicographicDominance]
  | cons x xs ih =>
    cases ys with
    | nil => simp at h
    | cons y ys =>
      have hxy := lt_iff_units (hx x List.mem_cons_self) (hy y List.mem_cons_self)
      have hyx := lt_iff_units (hy y List.mem_cons_self) (hx x List.mem_cons_self)
      have tail := ih (fun z hz => hx z (List.mem_cons_of_mem _ hz))
        (fun z hz => hy z (List.mem_cons_of_mem _ hz)) (Nat.succ.inj h)
      rw [lexicographicDominance, List.map_cons, List.map_cons, List.cons_lt_cons_iff, ← tail]
      obtain less | same | greater := lt_trichotomy (units x) (units y)
      · simp [hxy, less]
      · simp [hxy, hyx, same]
      · simp [hxy, hyx, greater, greater.ne', greater.le]

theorem Criterion.relate_trans (r : Criterion) (ha : r.Numeric a) (hb : r.Numeric b)
    (hc : r.Numeric c) (hab : a.objectives.length = b.objectives.length)
    (hbc : b.objectives.length = c.objectives.length) (h₁ : r.relate a b = .left)
    (h₂ : r.relate b c = .left) : r.relate a c = .left := by
  have hac := hab.trans hbc
  cases r with
  | pareto =>
    simp only [relate] at *
    rw [paretoDominance_eq_left_iff ha hb hab] at h₁
    rw [paretoDominance_eq_left_iff hb hc hbc] at h₂
    rw [paretoDominance_eq_left_iff ha hc hac]
    exact strictlyBelow_trans h₁ h₂
  | constrained =>
    simp only [relate] at *
    rw [feasibilityTier_getD_eq_left_iff ha.2 hb.2, paretoDominance_eq_left_iff ha.1 hb.1 hab] at h₁
    rw [feasibilityTier_getD_eq_left_iff hb.2 hc.2, paretoDominance_eq_left_iff hb.1 hc.1 hbc] at h₂
    rw [feasibilityTier_getD_eq_left_iff ha.2 hc.2, paretoDominance_eq_left_iff ha.1 hc.1 hac]
    exact tiered_trans strictlyBelow_trans h₁ h₂
  | epsilonBox ε =>
    simp only [relate] at *
    rw [ε.relateBoxes_dominance_eq_left_iff ha hb hab] at h₁
    rw [ε.relateBoxes_dominance_eq_left_iff hb hc hbc] at h₂
    rw [ε.relateBoxes_dominance_eq_left_iff ha hc hac]
    exact tiered_trans strictlyBelow_trans h₁ h₂
  | lexicographic =>
    simp only [relate] at *
    rw [lexicographicDominance_eq_left_iff ha hb hab] at h₁
    rw [lexicographicDominance_eq_left_iff hb hc hbc] at h₂
    rw [lexicographicDominance_eq_left_iff ha hc hac]
    exact h₁.trans h₂

theorem Criterion.compare_eq_ok (r : Criterion) (h : a.objectives.length = b.objectives.length) :
    r.compare a b = .ok (r.relate a b) := by
  rw [compare, requireEqualLengths, if_pos h]
  cases r.readsObjectives a b <;> rfl

theorem Criterion.compare_swap (r : Criterion) (h : a.objectives.length = b.objectives.length) :
    r.compare b a = (r.compare a b).map Dominance.swap := by
  rw [r.compare_eq_ok h, r.compare_eq_ok h.symm, r.relate_swap a b]
  rfl

/-- Every criterion answers on solutions of equal widths, with the same outcome from both sides
whatever their floats are. No solution dominates itself, and dominance is transitive on solutions
on which the criterion is numeric. -/
theorem Criterion.compare_strictOrder (r : Criterion) :
    (∀ a b : Solution, a.widths = b.widths →
      ∃ d, r.compare a b = .ok d ∧ r.compare b a = .ok d.swap) ∧
    (∀ a : Solution, r.compare a a ≠ .ok .left) ∧
    ∀ a b c : Solution, a.widths = b.widths → b.widths = c.widths →
      r.Numeric a → r.Numeric b → r.Numeric c →
      r.compare a b = .ok .left → r.compare b c = .ok .left → r.compare a c = .ok .left := by
  have lengths {a b : Solution} (h : a.widths = b.widths) :
      a.objectives.length = b.objectives.length := congrArg Widths.objectives h
  refine ⟨?_, ?_, ?_⟩
  · intro a b h
    refine ⟨r.relate a b, r.compare_eq_ok (lengths h), ?_⟩
    rw [r.compare_eq_ok (lengths h.symm), r.relate_swap a b]
  · intro a dominates
    have swap := r.compare_swap (rfl : a.objectives.length = a.objectives.length)
    rw [dominates] at swap
    cases swap
  · intro a b c hab hbc ha hb hc h₁ h₂
    rw [r.compare_eq_ok (lengths hab)] at h₁
    rw [r.compare_eq_ok (lengths hbc)] at h₂
    rw [r.compare_eq_ok (lengths (hab.trans hbc)),
      r.relate_trans ha hb hc (lengths hab) (lengths hbc) (Except.ok.inj h₁) (Except.ok.inj h₂)]

/-- Box dominance across an undefined objective, an infinite one and the feasibility tier. -/
theorem compare_strictOrder_undefinedObjective :
    let r := Criterion.epsilonBox ⟨[1], by decide, by decide⟩
    let a : Solution := ⟨[], [0 / 0, -1 / 0], [0]⟩
    let b : Solution := ⟨[], [1, -1 / 0], [0]⟩
    let c : Solution := ⟨[], [-5, -5], [0.5]⟩
    r.compare a b = .ok .left ∧ r.compare b c = .ok .left ∧ r.compare a c = .ok .left :=
  ⟨by decide, by decide,
    (Criterion.compare_strictOrder _).2.2 ⟨[], [0 / 0, -1 / 0], [0]⟩ ⟨[], [1, -1 / 0], [0]⟩
      ⟨[], [-5, -5], [0.5]⟩ rfl rfl (by decide) (by decide) (by decide) (by decide) (by decide)⟩

end ParetoFront
