import ParetoFront.Archive.Basic

/-!
# Configuration

A configuration names the relation that ranks solutions, the epsilons that form boxes and the
distance below which two solutions are duplicates. It builds the comparator and the archives.

## Main definitions

- `Config` — the choices, with defaults
- `Config.validate` — the first flaw, if there is one
- `Config.criterion`, `Config.epsilonArchive`, `Config.nondominatedArchive`
-/

namespace ParetoFront

structure Config where
  /-- The relation; `none` leaves the choice to the number of constraints. -/
  dominance : Option CriterionKind := none
  epsilons : Option Epsilons := none
  duplicateTolerance : Float := defaultTolerance
deriving DecidableEq

namespace Config

variable (c : Config)

/-- Refuses a flawed configuration and names the first flaw. -/
def validate : Except Error Unit :=
  if c.dominance = some .epsilonBox ∧ c.epsilons = none then
    .error (.invalidConfig .boxesWithoutEpsilons)
  else if !c.duplicateTolerance.isFinite || c.duplicateTolerance < 0 then
    .error (.invalidConfig (.badTolerance c.duplicateTolerance))
  else .ok ()

/-- The relation for problems with so many constraints. -/
def criterionKind (constraintCount : Nat) : CriterionKind :=
  c.dominance.getD (.defaultFor constraintCount)

def requireEpsilons : Except Error Epsilons :=
  match c.epsilons with
  | some ε => .ok ε
  | none => .error (.invalidConfig .epsilonsNotSet)

/-- The relation with its epsilons, for problems with so many constraints. -/
def criterion (constraintCount : Nat) : Except Error Criterion := do
  c.validate
  match c.criterionKind constraintCount with
  | .pareto => return .pareto
  | .constrained => return .constrained
  | .lexicographic => return .lexicographic
  | .epsilonBox => return .epsilonBox (← c.requireEpsilons)

def epsilonArchive : Except Error Archive := do
  c.validate
  return .epsilonBox (← c.requireEpsilons)

/-- The empty archive of nondominated solutions, for problems with so many constraints. -/
def nondominatedArchive (constraintCount : Nat) : Except Error Archive := do
  return .nondominated (← c.criterion constraintCount) c.duplicateTolerance

end Config

end ParetoFront
