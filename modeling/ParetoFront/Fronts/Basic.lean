import ParetoFront.Fronts.Peeling
import ParetoFront.Widths

/-!
# Fronts of a pool

Sorting a pool into fronts gives every solution a rank: rank `0` to those that nothing dominates,
rank `1` to those that only rank `0` dominates, and so on.

## Main definitions

- `Fronts` — ranks and fronts of a pool
- `sortIntoFronts` — the fronts of a pool under a comparator
-/

namespace ParetoFront

/-- The ranks of a pool by position, and the positions grouped by rank in ascending order. -/
structure Fronts where
  ranks : List Nat
  fronts : List (List Nat)
deriving DecidableEq

namespace Fronts

def count (f : Fronts) : Nat :=
  f.fronts.length

/-- The members of the front of rank `r`; there are none beyond the last front. -/
def front (f : Fronts) (r : Nat) : List Nat :=
  f.fronts.getD r []

def isEmpty (f : Fronts) : Bool :=
  f.ranks.isEmpty

theorem front_eq_getElem {f : Fronts} {r : Nat} (within : r < f.fronts.length) :
    f.front r = f.fronts[r] := by
  rw [front, List.getD_eq_getElem?_getD, List.getElem?_eq_getElem within, Option.getD_some]

theorem front_eq_nil {f : Fronts} {r : Nat} (beyond : f.count ≤ r) : f.front r = [] := by
  rw [front, List.getD_eq_getElem?_getD, List.getElem?_eq_none beyond, Option.getD_none]

end Fronts

/-- Sorts a pool into fronts. The solutions must share their widths. -/
def sortIntoFronts (compare : Comparator) (pool : List Solution) : Except Fault Fronts := do
  let _ ← orFault (commonWidths pool)
  let graph ← DominationGraph.ofPool compare pool
  let peeled ← graph.peel
  return ⟨peeled.ranks.map (·.getD 0), peeled.fronts⟩

end ParetoFront
