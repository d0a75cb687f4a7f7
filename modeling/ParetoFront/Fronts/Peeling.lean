import ParetoFront.Fronts.DominationGraph
import ParetoFront.StableSort

/-!
# Peeling a domination graph

Nodes without dominators form the first front. When a front is taken, one dominator is taken off
the count of every node that a member dominates, and the nodes whose count reaches zero form the
next front. When nothing is left to take although nodes remain, which needs a cycle, all remaining
nodes form one last front.

## Main definitions

- `Peeling` — ranks given, dominators left, fronts taken and their size
- `Peeling.release` — takes a dominator off a node
- `Peeling.takeFront` — one round
- `DominationGraph.peel` — all rounds
-/

namespace ParetoFront

/-- The state between two rounds. -/
structure Peeling where
  ranks : List (Option Nat)
  /-- The number of dominators of each node that are not taken yet. -/
  counts : List Nat
  /-- The fronts taken, each in ascending order. -/
  fronts : List (List Nat)
  /-- The number of nodes in the fronts taken. -/
  assigned : Nat

namespace Peeling

def start (g : DominationGraph) : Peeling where
  ranks := List.replicate g.size none
  counts := (List.range g.size).map g.dominatorCount
  fronts := []
  assigned := 0

def isDone (p : Peeling) : Bool :=
  decide (p.ranks.length ≤ p.assigned)

def remaining (p : Peeling) : List Nat :=
  (List.range p.ranks.length).filter fun i => p.ranks[i]? == some none

/-- Takes one dominator off the count of `j`. The node joins `freed` when that was its last
dominator and it has no rank. -/
def release (ranks : List (Option Nat)) (state : List Nat × List Nat) (j : Nat) :
    Except Fault (List Nat × List Nat) :=
  let (counts, freed) := state
  match counts[j]? with
  | none => .error .indexOutOfRange
  | some count => do
    let left ← takeFrom count 1
    return (counts.set j left,
      if left == 0 && ranks[j]? == some none then freed ++ [j] else freed)

/-- Takes a front and returns the nodes that it frees. -/
def takeFront (g : DominationGraph) (p : Peeling) (front : List Nat) :
    Except Fault (Peeling × List Nat) := do
  let front := stableSort (fun i j => decide (i ≤ j)) front
  let ranks := front.foldl (fun ranks i => ranks.set i (some p.fronts.length)) p.ranks
  let (counts, freed) ← (front.flatMap g.losers).foldlM (release ranks) (p.counts, [])
  return (⟨ranks, counts, p.fronts ++ [front], p.assigned + front.length⟩, freed)

/-- Takes fronts until every node has a rank. Each round takes at least one node, so as many rounds
as there are nodes suffice. -/
def run (g : DominationGraph) : Nat → Peeling → List Nat → Except Fault Peeling
  | 0, p, _ => .ok p
  | rounds + 1, p, freed => do
    if p.isDone then return p
    let (p, freed) ← p.takeFront g (if freed.isEmpty then p.remaining else freed)
    run g rounds p freed

end Peeling

def DominationGraph.peel (g : DominationGraph) : Except Fault Peeling :=
  Peeling.run g g.size (.start g) ((List.range g.size).filter fun i => g.dominatorCount i == 0)

end ParetoFront
