import ParetoFront.Dominance.Basic
import ParetoFront.Solution

/-!
# The feasibility tier

Constraints come before objectives: a feasible solution beats an infeasible one, and of two
infeasible solutions the one with the smaller total violation wins.
-/

namespace ParetoFront

/-- The outcome that the constraints decide, or `none` when they leave it to the objectives. -/
def feasibilityTier (a b : Solution) : Option Dominance :=
  match a.isFeasible, b.isFeasible with
  | true, true => none
  | true, false => some .left
  | false, true => some .right
  | false, false =>
    if a.totalViolation < b.totalViolation then some .left
    else if b.totalViolation < a.totalViolation then some .right
    else none

end ParetoFront
