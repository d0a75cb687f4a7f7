import ParetoFront.Decimal.Shortest

/-!
# Positional text of floats

Floats are written with the digits of their shortest decimal, never with an exponent, and without
a point when they are whole.

## Main definitions

- `positional` — digits and exponent as text without exponent
- `ofFloat` — the text of a float
-/

namespace ParetoFront.Decimal

/-- The number `d · 10 ^ k` in positional notation. -/
def positional (d : Nat) (k : Int) : String :=
  let digits := Nat.toDigits 10 d
  if 0 ≤ k then String.ofList (digits ++ List.replicate k.toNat '0')
  else
    let places := (-k).toNat
    let padded := List.replicate (places + 1 - digits.length) '0' ++ digits
    let whole := padded.length - places
    String.ofList (padded.take whole ++ '.' :: padded.drop whole)

/-- The text of a float: its shortest decimal in positional notation, after `-` when the sign bit
is set; `inf` and `NaN` for the values that are no numbers. -/
def ofFloat (x : Float) : String :=
  match x.toModel.unpack with
  | .notANumber => "NaN"
  | .infinity .positive => "inf"
  | .infinity .negative => "-inf"
  | .zero .positive => "0"
  | .zero .negative => "-0"
  | .finite .positive m e _ => positional (shortest m e).1 (shortest m e).2
  | .finite .negative m e _ => "-" ++ positional (shortest m e).1 (shortest m e).2

end ParetoFront.Decimal
