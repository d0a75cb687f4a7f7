import ParetoFront.Dominance.Boxes

/-!
# Dominance relations

The relations by which solutions are ranked. Each comes in two forms: `Criterion.relate` relates
any two solutions, `Criterion.compare` insists that the objective vectors it looks at have one
length.

## Main definitions

- `paretoDominance`, `lexicographicDominance` — relations between objective vectors
- `Criterion` — the relations on offer, `CriterionKind` their names
- `Comparator` — any way to compare two solutions, also one of the caller's own
-/

namespace ParetoFront

/-- Pareto dominance: one side is better somewhere, and the other side nowhere. -/
def paretoDominance (a b : List Float) : Dominance :=
  (advantage (fun x y : Float => decide (x < y)) ⟨false, false⟩ a b).dominance

/-- The first strict difference decides. -/
def lexicographicDominance : List Float → List Float → Dominance
  | x :: xs, y :: ys =>
    if x < y then .left
    else if y < x then .right
    else lexicographicDominance xs ys
  | _, _ => .neither

/-- A way to compare two solutions, which may fault. -/
abbrev Comparator :=
  Solution → Solution → Except Fault Dominance

inductive CriterionKind where
  | pareto
  | constrained
  | epsilonBox
  | lexicographic
deriving DecidableEq

/-- The relation to use when none is chosen: constraints count as soon as there are any. -/
def CriterionKind.defaultFor (constraintCount : Nat) : CriterionKind :=
  if constraintCount = 0 then .pareto else .constrained

/-- The relations by which solutions are ranked. -/
inductive Criterion where
  /-- Pareto dominance of the objectives; constraints are ignored. -/
  | pareto
  /-- The feasibility tier, then Pareto dominance of the objectives. -/
  | constrained
  /-- The feasibility tier, then Pareto dominance of the boxes. -/
  | epsilonBox (epsilons : Epsilons)
  /-- The first objective with a strict difference; constraints are ignored. -/
  | lexicographic
deriving DecidableEq

namespace Criterion

instance : Inhabited Criterion :=
  ⟨pareto⟩

def kind : Criterion → CriterionKind
  | pareto => .pareto
  | constrained => .constrained
  | epsilonBox _ => .epsilonBox
  | lexicographic => .lexicographic

/-- The outcome of comparing `a` with `b`, on the places that both objective vectors have. -/
def relate : Criterion → Solution → Solution → Dominance
  | pareto, a, b => paretoDominance a.objectives b.objectives
  | constrained, a, b =>
    (feasibilityTier a b).getD (paretoDominance a.objectives b.objectives)
  | epsilonBox ε, a, b => (ε.relateBoxes a b).dominance
  | lexicographic, a, b => lexicographicDominance a.objectives b.objectives

/-- The comparison looks at all objectives of both solutions. -/
def readsObjectives : Criterion → Solution → Solution → Bool
  | pareto, _, _ => true
  | constrained, a, b => (feasibilityTier a b).isNone
  | epsilonBox _, a, b => (feasibilityTier a b).isNone
  | lexicographic, _, _ => false

/-- The outcome of comparing `a` with `b`, which faults when all objectives have to be looked at
and the objective vectors differ in length. -/
def compare (c : Criterion) : Comparator := fun a b => do
  if c.readsObjectives a b then requireEqualLengths a b
  return c.relate a b

end Criterion

end ParetoFront
