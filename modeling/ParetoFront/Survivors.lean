import ParetoFront.RankTable

/-!
# Survivors of a pool

The best `k` solutions of a pool: whole fronts by rank while they fit, then from the first front
that does not fit the members with the largest crowding distance.

## Main definitions

- `takeFronts` — fills the places front by front
- `survivors` — the rows of the best `k` solutions
-/

namespace ParetoFront

/-- The rows with the largest distances, at most `places` of them. Of equal distances the earlier
row goes first. -/
def mostSpread (places : Nat) (rows : List Ranked) : List Ranked :=
  (stableSort (fun a b => decide (distanceKey b.distance ≤ distanceKey a.distance)) rows).take places

/-- Takes fronts, the first of which has the given rank, until `k` rows are kept. -/
def takeFronts (pool : List Solution) (k : Nat) :
    Nat → List (List Nat) → List Ranked → Except Fault (List Ranked)
  | _, [], kept => .ok kept
  | rank, front :: later, kept => do
    let places ← takeFrom k kept.length
    let rows ← frontRows pool rank front
    let kept := kept ++ (if rows.length > places then mostSpread places rows else rows)
    if kept.length = k then return kept
    takeFronts pool k (rank + 1) later kept

/-- The rows of the best `k` solutions, or of all when there are fewer: by rank, and within the
front that is cut by falling distance. The solutions must share their widths, also when none is
asked for. -/
def survivors (compare : Comparator) (pool : List Solution) (k : Nat) :
    Except Fault (List Ranked) := do
  let _ ← orFault (commonWidths pool)
  let k := min pool.length k
  if k = 0 then return []
  let sorted ← sortIntoFronts compare pool
  let rows ← takeFronts pool k 0 sorted.fronts []
  if rows.length = k then return rows else .error .survivorMiscount

end ParetoFront
