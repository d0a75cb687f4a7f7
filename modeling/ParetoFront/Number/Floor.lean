/-!
# Floors of binary floats

A finite nonzero float is `± m · 2 ^ e` with natural `m` and integer `e`, so its floor is exact
integer arithmetic. The floor is given as an integer, as an integer clamped to the signed 64-bit
range, and as a float again.

## Main definitions

- `floorInt` — the floor of a finite float
- `clampedFloor` — the floor, saturating at the signed 64-bit range
- `floor` — the floor as a float
-/

namespace ParetoFront.Number

/-- The greatest integer not above a finite float, and `0` for a float that is not finite. -/
def floorInt (x : Float) : Int :=
  match x.toModel.unpack with
  | .finite sign m e _ =>
    if 0 ≤ e then sign.apply (m <<< e.toNat : Nat) else sign.apply m >>> (-e).toNat
  | _ => 0

def minInt64 : Int :=
  -0x8000000000000000

def maxInt64 : Int :=
  0x7fffffffffffffff

/-- The nearest integer to `n` in the signed 64-bit range. -/
def clampInt64 (n : Int) : Int :=
  max minInt64 (min maxInt64 n)

/-- The floor clamped to the signed 64-bit range: the infinities go to its ends and the undefined
value goes to `0`. -/
def clampedFloor (x : Float) : Int :=
  match x.toModel.unpack with
  | .infinity .positive => maxInt64
  | .infinity .negative => minInt64
  | _ => clampInt64 (floorInt x)

/-- The floor as a float. Zeros keep their sign, and infinities, the undefined value and floats
without fractional bits are their own floor. -/
def floor (x : Float) : Float :=
  match x.toModel.unpack with
  | .finite _ _ e _ => if 0 ≤ e then x else .ofModel (.ofInt (floorInt x))
  | _ => x

end ParetoFront.Number
