import ParetoFront.Dominance.Feasibility
import ParetoFront.Epsilons

/-!
# Box dominance

Box dominance compares the boxes that two solutions lie in, after the feasibility tier. Solutions
in one box do not dominate each other.

## Main definitions

- `BoxComparison` — an outcome, and whether the two solutions share a box
- `Epsilons.boxAdvantage` — the scan of the boxes
- `Epsilons.relateBoxes` — the comparison
- `Epsilons.compareBoxes` — the comparison for callers who may bring unequal vectors
-/

namespace ParetoFront

/-- The result of a comparison of boxes. -/
structure BoxComparison where
  dominance : Dominance
  /-- The tier is tied and both solutions lie in the same box. -/
  sameBox : Bool
deriving DecidableEq

/-- A comparison of objectives needs vectors of one length. -/
def requireEqualLengths (a b : Solution) : Except Fault Unit :=
  if a.objectives.length = b.objectives.length then .ok () else .error .unequalVectors

namespace Epsilons

/-- Scans the boxes of two vectors coordinate by coordinate, from objective `i` to the end of the
shorter vector. It does not stop early. -/
def boxAdvantage (ε : Epsilons) (i : Nat) (soFar : Advantage) : List Float → List Float → Advantage
  | v :: vs, w :: ws =>
    let m := ε.coordinate i v
    let n := ε.coordinate i w
    let now : Advantage :=
      if m < n then ⟨true, soFar.right⟩
      else if n < m then ⟨soFar.left, true⟩
      else soFar
    boxAdvantage ε (i + 1) now vs ws
  | _, _ => soFar

/-- The feasibility tier decides, or else the boxes do. -/
def relateBoxes (ε : Epsilons) (a b : Solution) : BoxComparison :=
  match feasibilityTier a b with
  | some d => ⟨d, false⟩
  | none =>
    let found := ε.boxAdvantage 0 ⟨false, false⟩ a.objectives b.objectives
    ⟨found.dominance, found.isTie⟩

/-- The comparison of boxes, which faults when boxes have to be compared and the objective vectors
differ in length. -/
def compareBoxes (ε : Epsilons) (a b : Solution) : Except Fault BoxComparison := do
  if (feasibilityTier a b).isNone then requireEqualLengths a b
  return ε.relateBoxes a b

end Epsilons

end ParetoFront
