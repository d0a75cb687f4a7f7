/-!
# Sums of floats

Addition of floats is not associative, so the order of a sum is part of its value.
-/

namespace ParetoFront.Number

/-- The sum from left to right. It starts at negative zero, the neutral element of addition, so
that a sum of negative zeros keeps its sign; the empty sum is negative zero. -/
def sum (xs : List Float) : Float :=
  xs.foldl (· + ·) (-0.0)

end ParetoFront.Number
