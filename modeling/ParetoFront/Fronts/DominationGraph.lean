import ParetoFront.Dominance.Criterion

/-!
# Domination graphs

The domination graph of a pool has the positions of the pool as nodes, and an edge from each
solution to each solution that it dominates. Every pair is compared once.

## Main definitions

- `DominationGraph` — nodes `0, …, size - 1` and edges
- `DominationGraph.ofPool` — the graph of a pool under a comparator
- `DominationGraph.losers`, `DominationGraph.dominatorCount` — the two ends of the edges
-/

namespace ParetoFront

/-- A directed graph on `0, …, size - 1`; an edge leads from the dominating to the dominated
node. -/
structure DominationGraph where
  size : Nat
  edges : List (Nat × Nat)

namespace DominationGraph

/-- The edge between `i` and `j` for the outcome of comparing them, if there is one. -/
def edge (i : Nat) (outcome : Dominance) (j : Nat) : Option (Nat × Nat) :=
  match outcome with
  | .left => some (i, j)
  | .right => some (j, i)
  | .neither => none

/-- The edges among solutions at the positions from `i` on, each pair compared once, the earlier
solution on the left. -/
def edgesFrom (compare : Comparator) : Nat → List Solution → Except Fault (List (Nat × Nat))
  | _, [] => .ok []
  | i, s :: rest => do
    let outcomes ← rest.mapM (compare s)
    let later ← edgesFrom compare (i + 1) rest
    return (outcomes.zipIdx (i + 1)).filterMap (fun (d, j) => edge i d j) ++ later

def ofPool (compare : Comparator) (pool : List Solution) : Except Fault DominationGraph := do
  return ⟨pool.length, ← edgesFrom compare 0 pool⟩

variable (g : DominationGraph)

def losers (i : Nat) : List Nat :=
  g.edges.filterMap fun e => if e.1 = i then some e.2 else none

/-- The number of nodes that dominate `j`. -/
def dominatorCount (j : Nat) : Nat :=
  g.edges.countP fun e => e.2 = j

end DominationGraph

end ParetoFront
