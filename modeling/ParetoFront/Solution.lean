import ParetoFront.Number.Sum

/-!
# Evaluated solutions

All objectives are minimised. A constraint value is the size of a violation, so that a solution is
feasible when each of its constraint values is zero.

## Main definitions

- `Variable` — one decision variable; carried along, never read by any ranking
- `Solution` — decision variables, objective values and constraint values
- `Solution.isFeasible`, `Solution.totalViolation`
-/

namespace ParetoFront

inductive Variable where
  /-- A real value within `[lower, upper]`. -/
  | real (value lower upper : Float)
  /-- An integer value within `[lower, upper]`. -/
  | integer (value lower upper : Int64)
  /-- An ordering of `0, …, n - 1`. -/
  | permutation (order : List UInt64)
  /-- Members chosen from `0, …, universeSize - 1`, at least `minSize` and at most `maxSize`. -/
  | subset (members : List UInt64) (universeSize minSize maxSize : UInt64)
  | binary (bits : List Bool)
deriving BEq

def Variable.kind : Variable → String
  | .real .. => "real"
  | .integer .. => "integer"
  | .permutation _ => "permutation"
  | .subset .. => "subset"
  | .binary _ => "binary"

/-- An evaluated candidate. Equality `==` compares the floats numerically. -/
structure Solution where
  decisions : List Variable
  objectives : List Float
  constraints : List Float
deriving BEq

namespace Solution

/-- The unconstrained solution with the given objective values and no variables. -/
def ofObjectives (objectives : List Float) : Solution :=
  ⟨[], objectives, []⟩

/-- Every constraint value is zero, of either sign. -/
def isFeasible (s : Solution) : Bool :=
  s.constraints.all (· == 0)

/-- The sum of the absolute constraint values. -/
def totalViolation (s : Solution) : Float :=
  Number.sum (s.constraints.map Float.abs)

end Solution

end ParetoFront
