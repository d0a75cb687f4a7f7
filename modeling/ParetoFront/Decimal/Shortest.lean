/-!
# Shortest decimals of binary floats

A positive float stands for the interval of reals that round to it. Among the decimals in that
interval, those on the coarsest decimal grid have the fewest digits, and of these the nearest to
the float is its shortest decimal.

## Main definitions

- `Neighbourhood` — the reals that round to a float, in quarter units of its last place
- `Neighbourhood.onGrid` — the nearest multiple of `10 ^ k` that rounds to the float
- `shortest` — digits and exponent of the shortest decimal
-/

namespace ParetoFront.Decimal

/-- The reals that round to the float `middle · 2 ^ scale`: those between `lower · 2 ^ scale` and
`upper · 2 ^ scale`, the ends included when `closed`. -/
structure Neighbourhood where
  lower : Nat
  middle : Nat
  upper : Nat
  scale : Int
  closed : Bool

/-- The neighbourhood of `m · 2 ^ e`. The gap to the next smaller float is half as wide below a
power of two that is not among the smallest floats. -/
def Neighbourhood.ofFloat (m : Nat) (e : Int) : Neighbourhood where
  lower := if m = 0x10000000000000 ∧ e ≠ -1074 then 4 * m - 1 else 4 * m - 2
  middle := 4 * m
  upper := 4 * m + 2
  scale := e - 2
  closed := m % 2 == 0

/-- The number `d · 10 ^ k` rounds to the float, where `num / den = 2 ^ scale / 10 ^ k`. -/
def Neighbourhood.rounds (n : Neighbourhood) (num den d : Nat) : Bool :=
  if n.closed then n.lower * num ≤ d * den && d * den ≤ n.upper * num
  else n.lower * num < d * den && d * den < n.upper * num

/-- The `d` for which `d · 10 ^ k` rounds to the float and is nearest to it, if there is one. Only
the two multiples of `10 ^ k` around the float have to be looked at; of two equally near ones the
larger is taken. -/
def Neighbourhood.onGrid (n : Neighbourhood) (k : Int) : Option Nat :=
  let num := Nat.pow 10 (-k).toNat <<< n.scale.toNat
  let den := Nat.pow 10 k.toNat <<< (-n.scale).toNat
  let below := n.middle * num / den
  let above := below + 1
  match n.rounds num den below, n.rounds num den above with
  | true, true =>
    if n.middle * num - below * den < above * den - n.middle * num then some below else some above
  | true, false => some below
  | false, true => some above
  | false, false => none

/-- Searches the grids `10 ^ k, 10 ^ (k - 1), …` for the first that meets the neighbourhood. -/
def Neighbourhood.search (n : Neighbourhood) : Nat → Int → Option (Nat × Int)
  | 0, _ => none
  | fuel + 1, k =>
    match n.onGrid k with
    | some d => some (d, k)
    | none => n.search fuel (k - 1)

/-- Digits `d` and exponent `k` of the shortest decimal `d · 10 ^ k` that rounds to `m · 2 ^ e`.
Every float lies below `10 ^ 309`, and the grid of `10 ^ (-324)` meets every neighbourhood. -/
def shortest (m : Nat) (e : Int) : Nat × Int :=
  ((Neighbourhood.ofFloat m e).search 634 309).getD (0, 0)

end ParetoFront.Decimal
