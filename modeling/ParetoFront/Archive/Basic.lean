import ParetoFront.Dominance.Criterion
import ParetoFront.Widths

/-!
# Archives

An archive is offered solutions one at a time and retains mutually nondominated ones in the order
in which they came. Its policy judges an offer against each retained solution.

## Main definitions

- `Policy` — by boxes, or by a criterion with a duplicate tolerance
- `Verdict`, `Policy.judge` — an offer against one retained solution
- `Archive` — policy, retained solutions, widths and counters
- `Outcome`, `Stats` — the result of an offer, the counters over all offers
-/

namespace ParetoFront

/-- The rule by which an archive retains solutions. -/
inductive Policy where
  /-- One solution a box, and no box that dominates another. -/
  | epsilonBox (epsilons : Epsilons)
  /-- No solution that dominates another, and none nearer to another than the tolerance. -/
  | nondominated (criterion : Criterion) (tolerance : Float)

/-- What an offer means to one retained solution. -/
inductive Verdict where
  | keepsOut
  | coexists
  | dominated
  | displaced
deriving DecidableEq

def euclideanDistance (a b : List Float) : Float :=
  (Number.sum (List.zipWith (fun x y => (x - y) * (x - y)) a b)).sqrt

/-- The duplicate tolerance of an archive that is given none. -/
def defaultTolerance : Float :=
  1e-10

/-- Judges an offer against a retained solution. In a shared box the smaller residual wins, and the
retained solution on equal residuals. -/
def Policy.judge (offer retained : Solution) : Policy → Verdict
  | epsilonBox ε =>
    let found := ε.relateBoxes offer retained
    match found.dominance with
    | .right => .keepsOut
    | .left => .dominated
    | .neither =>
      if found.sameBox then
        if ε.residual retained.objectives ≤ ε.residual offer.objectives then .keepsOut
        else .displaced
      else .coexists
  | nondominated criterion tolerance =>
    match criterion.relate offer retained with
    | .right => .keepsOut
    | .left => .dominated
    | .neither =>
      if euclideanDistance offer.objectives retained.objectives < tolerance then .keepsOut
      else .coexists

inductive Outcome where
  | rejected
  /-- The offer was retained, and `replaced` solutions left for it. -/
  | added (replaced : Nat)
deriving DecidableEq

namespace Outcome

def isAdded : Outcome → Bool
  | rejected => false
  | added _ => true

def replaced : Outcome → Nat
  | rejected => 0
  | added n => n

end Outcome

structure Stats where
  offered : Nat
  /-- Solutions retained when they were offered. -/
  improvements : Nat
  /-- Those of them that did more than take the box of a single retained solution. -/
  dominatingImprovements : Nat
deriving DecidableEq

structure Record where
  objectives : List Float
  constraints : List Float
  decisions : List Variable
deriving BEq

def Record.ofSolution (s : Solution) : Record :=
  ⟨s.objectives, s.constraints, s.decisions⟩

/-- An archive. The widths are those of the first offer, unless they were fixed before. -/
structure Archive where
  policy : Policy
  retained : List Solution
  widths : Option Widths
  stats : Stats

namespace Archive

/-- The archive with a policy to which nothing was offered. -/
def empty (policy : Policy) : Archive :=
  ⟨policy, [], none, ⟨0, 0, 0⟩⟩

def epsilonBox (ε : Epsilons) : Archive :=
  empty (.epsilonBox ε)

/-- The empty archive with boxes for solutions of known widths, which the epsilons must fit. -/
def epsilonBoxOfWidths (ε : Epsilons) (widths : Widths) : Except Error Archive :=
  if ε.fits widths.objectives then .ok { epsilonBox ε with widths := some widths }
  else .error (.epsilonWidthMismatch ε.size widths.objectives)

def nondominated (criterion : Criterion) (tolerance : Float) : Archive :=
  empty (.nondominated criterion tolerance)

variable (a : Archive)

def size : Nat :=
  a.retained.length

def isEmpty : Bool :=
  a.retained.isEmpty

/-- The number of objectives, once it is known. -/
def objectiveCount : Option Nat :=
  a.widths.map Widths.objectives

def objectives : List (List Float) :=
  a.retained.map Solution.objectives

def records : List Record :=
  a.retained.map Record.ofSolution

/-- Forgets the retained solutions; the widths and the counters stay. -/
def clear : Archive :=
  { a with retained := [] }

end Archive

end ParetoFront
