import ParetoFront.RankTable

/-!
# Selection of parents

A parent is chosen from a rank table by drawing rows at random. The generator is a parameter:
`draw s n` gives a number below `n` and the next state of the generator.

## Main definitions

- `Selection` — tournament or uniform choice
- `tournamentWinner` — the winner among drawn rows
- `Selection.select` — the position of the parent
-/

namespace ParetoFront

inductive Selection where
  /-- Draws the given number of rows, at least one, and keeps the preferred one. -/
  | tournament (size : Nat)
  | random
deriving DecidableEq

namespace Selection

instance : Inhabited Selection :=
  ⟨tournament 2⟩

def drawCount : Selection → Nat
  | tournament size => max size 1
  | random => 1

end Selection

/-- The row that stays when each challenger in turn takes the place of a row that it is preferred
to. -/
def tournamentWinner (best : Ranked) (challengers : List Ranked) : Ranked :=
  challengers.foldl
    (fun best challenger => if crowdedCompare challenger best = .lt then challenger else best) best

def drawRow {σ : Type} (draw : σ → Nat → Nat × σ) (table : List Ranked) (s : σ) :
    Except Fault (Ranked × σ) := do
  let (i, s) := draw s table.length
  return (← elementAt table i, s)

def drawRows {σ : Type} (draw : σ → Nat → Nat × σ) (table : List Ranked) :
    Nat → σ → Except Fault (List Ranked × σ)
  | 0, s => .ok ([], s)
  | n + 1, s => do
    let (row, s) ← drawRow draw table s
    let (rows, s) ← drawRows draw table n s
    return (row :: rows, s)

/-- Chooses a parent and returns the position that its row names. The table must not be empty. -/
def Selection.select {σ : Type} (selection : Selection) (draw : σ → Nat → Nat × σ)
    (table : List Ranked) (s : σ) : Except Fault (Nat × σ) := do
  if table.isEmpty then .error .emptyTable
  let (first, s) ← drawRow draw table s
  let (challengers, s) ← drawRows draw table (selection.drawCount - 1) s
  return ((tournamentWinner first challengers).index, s)

end ParetoFront
