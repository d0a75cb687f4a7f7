import ParetoFront.Number.TotalOrder
import ParetoFront.StableSort
import ParetoFront.Widths

/-!
# Crowding distances

The crowding distance of a member of a front says how far its neighbours are. Objective by
objective, the members are put in order of their value; those at the smallest and at the largest
value are boundary members at infinite distance, and every other member adds the gap between the
next smaller and the next larger value, as a share of the whole range. An objective whose range is
zero or undefined adds nothing.

## Main definitions

- `runsByValue` — the members of a front grouped by value, in ascending order
- `gapShares`, `columnShares` — what one objective adds
- `columnCrowding` — the distances from the values of all objectives
- `frontCrowding`, `crowding` — the distances of a front, of a whole pool
-/

namespace ParetoFront

def infinite : Float :=
  1 / 0

/-- A value together with the position of the member it belongs to. -/
abbrev Placed := Float × Nat

/-- The values of one objective in ascending total order, cut where the value changes. Equal values
keep the order of the members. -/
def runsByValue (column : List Float) : List (List Placed) :=
  (stableSort (fun x y => Number.totalLE x.1 y.1) column.zipIdx).splitBy
    fun x y => Number.totalCompare x.1 y.1 == .eq

/-- The share of `range` that lies between the neighbouring runs of each run, for every position in
the run. `smaller` is the value of the run before, if there is one. -/
def gapShares (range : Float) (smaller : Option Float) : List (List Placed) → List Placed
  | [] => []
  | run :: later =>
    let larger := (later.head?.bind List.head?).map Prod.fst
    let share :=
      match smaller, larger with
      | some p, some n => (n - p) / range
      | _, _ => infinite
    run.map (fun placed => (share, placed.2)) ++
      gapShares range (run.getLast?.map Prod.fst) later

/-- The distance between the first and the last value of the runs. -/
def rangeOf (runs : List (List Placed)) : Float :=
  let smallest := (runs.head?.bind List.head?).map Prod.fst
  let largest := (runs.getLast?.bind List.getLast?).map Prod.fst
  match smallest, largest with
  | some least, some greatest => greatest - least
  | _, _ => 0

/-- What one objective adds to the distance at each position. -/
def columnShares (column : List Float) : List Placed :=
  let runs := runsByValue column
  let range := rangeOf runs
  if range.isNaN || range ≤ 0 then [] else gapShares range none runs

def addShares (distances : List Float) (shares : List Placed) : List Float :=
  shares.foldl (fun ds share => ds.modify share.2 (· + share.1)) distances

/-- The crowding distances of `n` members from the columns of their objective values. Up to two
members are all boundary members. -/
def columnCrowding (n : Nat) (columns : List (List Float)) : List Float :=
  if n ≤ 2 then List.replicate n infinite
  else
    columns.foldl (fun distances column => addShares distances (columnShares column))
      (List.replicate n 0)

/-- The element at a position that has to be there. -/
def elementAt {α : Type} (xs : List α) (i : Nat) : Except Fault α :=
  match xs[i]? with
  | some x => .ok x
  | none => .error .indexOutOfRange

/-- The values of the first `m` objectives, objective by objective. -/
def objectiveColumns (m : Nat) (members : List Solution) : Except Fault (List (List Float)) :=
  (List.range m).mapM fun j => members.mapM fun s => elementAt s.objectives j

/-- The crowding distances of the members of a pool at the given positions, in their order. -/
def frontCrowding (pool : List Solution) (front : List Nat) : Except Fault (List Float) := do
  let members ← front.mapM (elementAt pool)
  let widths ← orFault (commonWidths members)
  let columns ← objectiveColumns widths.objectives members
  return columnCrowding members.length columns

def crowding (pool : List Solution) : Except Fault (List Float) :=
  frontCrowding pool (List.range pool.length)

end ParetoFront
