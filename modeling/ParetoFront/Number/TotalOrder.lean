/-!
# The total order on binary floats

The numerical order `<` leaves the undefined value incomparable and the two zeros equal. The total
order places every float: `-∞ < … < -0 < +0 < … < +∞ < NaN`. It is read off the bit pattern.

## Main definitions

- `totalKey` — the place of a float in the total order, as an integer
- `totalCompare`, `totalLE` — comparison by that place
-/

namespace ParetoFront.Number

/-- The place of a float in the total order: the bit pattern of a float without sign bit, and
`-1 - magnitude` for one with the sign bit set. -/
def totalKey (x : Float) : Int :=
  let bits := x.toBits.toNat
  if bits < 0x8000000000000000 then bits else 0x7fffffffffffffff - (bits : Int)

/-- Three-way comparison in the total order. -/
def totalCompare (x y : Float) : Ordering :=
  compare (totalKey x) (totalKey y)

/-- `x` comes no later than `y` in the total order. -/
def totalLE (x y : Float) : Bool :=
  decide (totalKey x ≤ totalKey y)

end ParetoFront.Number
