import ParetoFront.Survivors

/-!
# Populations

A population is an ordered collection of evaluated solutions. Truncation keeps the best members and
puts them into the order of their survival.

## Main definitions

- `Population` and its growth, `Population.get`
- `Population.sort`, `Population.rankTable` — the rankings of the members
- `moveOut` — moves elements out of slots
- `Population.truncate` — keeps the best `k` members
-/

namespace ParetoFront

structure Population where
  members : List Solution
deriving BEq

/-- Moves what is in some slots out of them, in the order of the positions. A slot that is empty, or
was emptied before, gives nothing. -/
def moveOut {α : Type} (slots : List (Option α)) : List Nat → Except Fault (List α)
  | [] => .ok []
  | i :: later => do
    let slot ← elementAt slots i
    let moved ← moveOut (slots.set i none) later
    return slot.toList ++ moved

namespace Population

variable (p : Population)

def push (s : Solution) : Population :=
  ⟨p.members ++ [s]⟩

def extend (ss : List Solution) : Population :=
  ⟨p.members ++ ss⟩

def size : Nat :=
  p.members.length

def isEmpty : Bool :=
  p.members.isEmpty

def get (i : Nat) : Except Fault Solution :=
  elementAt p.members i

def sort (compare : Comparator) : Except Fault Fronts :=
  sortIntoFronts compare p.members

def rankTable (compare : Comparator) : Except Fault (List Ranked) :=
  ParetoFront.rankTable compare p.members

/-- Keeps the best `k` members in the order of their survival. The rows that are returned name the
new positions. The members are taken out for good before they are moved, so that only a fault in
finding the survivors leaves them as they were. -/
def truncate (k : Nat) (compare : Comparator) : Population × Except Fault (List Ranked) :=
  match survivors compare p.members k with
  | .error fault => (p, .error fault)
  | .ok rows =>
    match moveOut (p.members.map some) (rows.map Ranked.index) with
    | .error fault => (⟨[]⟩, .error fault)
    | .ok moved => (⟨moved⟩, .ok (rows.zipIdx.map fun (row, i) => { row with index := i }))

end Population

end ParetoFront
