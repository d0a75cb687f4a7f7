import ParetoFront.Crowding
import ParetoFront.Fronts.Basic

/-!
# Rank tables

A row of a rank table gives the rank and the crowding distance of the solution at one position of
a pool. Rows are preferred by smaller rank, and within a rank by larger distance.

A distance is undefined when an infinite gap is divided by an infinite range. The arithmetic leaves
the sign of such a quotient open, and the total order puts negative undefined values below all
numbers and positive ones above. The sign is assumed to be the negative one, which is what x86-64
gives, so that a computed undefined distance is preferred least of all. It is kept apart from the
undefined value that a caller may put into a row, which is positive and comes above infinity. The
payloads of undefined values are not told apart.

## Main definitions

- `Ranked` — a row
- `crowdedCompare` — the preference between rows
- `rankTable` — the rows of a whole pool, by position
-/

namespace ParetoFront

structure Ranked where
  index : Nat
  rank : Nat
  /-- The crowding distance; `none` when it was computed and is undefined, which stands for all
  negative undefined values. -/
  distance : Option Float
deriving DecidableEq

/-- The result of the distance formula, `none` when the formula gives no number. The sign of the
undefined result is assumed to be negative, as it is on x86-64, and its payload is dropped. -/
def definedDistance (d : Float) : Option Float :=
  if d.isNaN then none else some d

/-- The place of a distance among all distances. A computed undefined distance comes first, since
its sign is assumed to be negative. -/
def distanceKey : Option Float → Int
  | none => -0x8000000000000001
  | some d => Number.totalKey d

/-- The preference between rows: `lt` when `a` is preferred. -/
def crowdedCompare (a b : Ranked) : Ordering :=
  (compare a.rank b.rank).then (compare (distanceKey b.distance) (distanceKey a.distance))

/-- The rows of a front of the given rank, in the order of the front. -/
def frontRows (pool : List Solution) (rank : Nat) (front : List Nat) :
    Except Fault (List Ranked) := do
  let distances ← frontCrowding pool front
  return front.zipWith (fun index d => ⟨index, rank, definedDistance d⟩) distances

/-- Puts the distances of some rows into the table. -/
def fillDistances (table : List Ranked) (rows : List Ranked) : List Ranked :=
  rows.foldl
    (fun table row => table.modify row.index fun old => { old with distance := row.distance }) table

def rankTable (compare : Comparator) (pool : List Solution) : Except Fault (List Ranked) := do
  let sorted ← sortIntoFronts compare pool
  let blank := sorted.ranks.zipIdx.map fun (rank, index) => ⟨index, rank, some 0⟩
  let rows ← sorted.fronts.zipIdx.mapM fun (front, rank) => frontRows pool rank front
  return fillDistances blank rows.flatten

end ParetoFront
