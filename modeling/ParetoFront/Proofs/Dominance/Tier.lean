import ParetoFront.Proofs.Number.NonNegative
import ParetoFront.Proofs.Dominance.Scan

/-!
# The feasibility tier as an order

When no constraint value is undefined, total violations are numbers, and the tier compares places
in a linear order: feasible solutions come first, and the others follow by total violation. Without
that assumption the tier is still the same from both sides.

## Main definitions

- `AllNumbers` — no float of a list is undefined
- `Solution.violationPlace` — the place of a solution in the tier

## Main statements

- `feasibilityTier_swap` — the tier seen from the other side, for all floats
- `feasibilityTier_eq_left_iff`, `feasibilityTier_eq_none_iff` — the tier by places
-/

namespace ParetoFront

open Number

/-- No float of the list is the undefined value. -/
def AllNumbers (xs : List Float) : Prop :=
  ∀ x ∈ xs, x.isNaN = false

instance (xs : List Float) : Decidable (AllNumbers xs) :=
  inferInstanceAs (Decidable (∀ x ∈ xs, x.isNaN = false))

/-- The place of a solution in the feasibility tier. -/
def Solution.violationPlace (s : Solution) : WithBot Int :=
  if s.isFeasible then ⊥ else (units s.totalViolation : Int)

variable {a b : Solution}

theorem feasibilityTier_swap (a b : Solution) :
    feasibilityTier b a = (feasibilityTier a b).map Dominance.swap := by
  unfold feasibilityTier
  cases a.isFeasible <;> cases b.isFeasible
  · by_cases hab : a.totalViolation < b.totalViolation
    · simp [hab, lt_asymm hab, Dominance.swap]
    · by_cases hba : b.totalViolation < a.totalViolation <;> simp [hab, hba, Dominance.swap]
  all_goals rfl

theorem feasibilityTier_of_feasible (ha : a.isFeasible = true) (hb : b.isFeasible = true) :
    feasibilityTier a b = none := by
  rw [feasibilityTier, ha, hb]

/-- A sum of absolute values of numbers is a number. -/
theorem Solution.totalViolation_nonneg {s : Solution} (h : AllNumbers s.constraints) :
    0 ≤ s.totalViolation := by
  refine sum_nonneg ?_
  intro x hx
  obtain ⟨y, hy, rfl⟩ := List.mem_map.1 hx
  exact abs_nonneg (h y hy)

theorem Solution.totalViolation_lt_iff (ha : AllNumbers a.constraints)
    (hb : AllNumbers b.constraints) :
    a.totalViolation < b.totalViolation ↔ units a.totalViolation < units b.totalViolation :=
  lt_iff_units (isNaN_of_nonneg (totalViolation_nonneg ha))
    (isNaN_of_nonneg (totalViolation_nonneg hb))

theorem feasibilityTier_eq_left_iff (ha : AllNumbers a.constraints)
    (hb : AllNumbers b.constraints) :
    feasibilityTier a b = some .left ↔ a.violationPlace < b.violationPlace := by
  unfold feasibilityTier Solution.violationPlace
  cases a.isFeasible <;> cases b.isFeasible
  · have hab := Solution.totalViolation_lt_iff ha hb
    by_cases less : a.totalViolation < b.totalViolation
    · simp [less, hab.1 less]
    · by_cases b.totalViolation < a.totalViolation <;> simp_all
  all_goals simp

theorem feasibilityTier_eq_right_iff (ha : AllNumbers a.constraints)
    (hb : AllNumbers b.constraints) :
    feasibilityTier a b = some .right ↔ b.violationPlace < a.violationPlace := by
  rw [← feasibilityTier_eq_left_iff hb ha, feasibilityTier_swap a b]
  obtain _ | (_ | _ | _) := feasibilityTier a b <;> simp [Dominance.swap]

theorem feasibilityTier_ne_neither (a b : Solution) : feasibilityTier a b ≠ some .neither := by
  unfold feasibilityTier
  repeat' split
  all_goals simp

theorem feasibilityTier_eq_none_iff (ha : AllNumbers a.constraints)
    (hb : AllNumbers b.constraints) :
    feasibilityTier a b = none ↔ a.violationPlace = b.violationPlace := by
  have hl := feasibilityTier_eq_left_iff ha hb
  have hr := feasibilityTier_eq_right_iff ha hb
  have hn := feasibilityTier_ne_neither a b
  constructor
  · intro tied
    refine le_antisymm (not_lt.1 ?_) (not_lt.1 ?_)
    · rw [← hr, tied]
      simp
    · rw [← hl, tied]
      simp
  · intro same
    rw [same] at hl hr
    rcases h : feasibilityTier a b with _ | (_ | _ | _) <;> simp_all

theorem feasibilityTier_getD_eq_left_iff (ha : AllNumbers a.constraints)
    (hb : AllNumbers b.constraints) (rest : Dominance) :
    (feasibilityTier a b).getD rest = .left ↔
      a.violationPlace < b.violationPlace ∨
        a.violationPlace = b.violationPlace ∧ rest = .left := by
  rw [← feasibilityTier_eq_left_iff ha hb, ← feasibilityTier_eq_none_iff ha hb]
  cases feasibilityTier a b <;> simp

/-- An order in tiers is transitive when the order inside the tiers is. -/
theorem tiered_trans {κ : Type} [Preorder κ] {p q r : κ} {inner₁ inner₂ inner : Prop}
    (trans : inner₁ → inner₂ → inner) (h₁ : p < q ∨ p = q ∧ inner₁)
    (h₂ : q < r ∨ q = r ∧ inner₂) : p < r ∨ p = r ∧ inner := by
  obtain h₁ | ⟨rfl, h₁⟩ := h₁
  · obtain h₂ | ⟨rfl, -⟩ := h₂
    · exact Or.inl (h₁.trans h₂)
    · exact Or.inl h₁
  · exact h₂.imp_right fun h => ⟨h.1, trans h₁ h.2⟩

end ParetoFront
