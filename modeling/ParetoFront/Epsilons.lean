import ParetoFront.Failure
import ParetoFront.Number.Floor
import ParetoFront.Number.Sum

/-!
# Epsilons

Epsilons divide objective space into boxes: along objective `i` a value `v` lies in the box
`⌊v / εᵢ⌋`. When there are more objectives than epsilons, the last epsilon serves all that remain.

## Main definitions

- `Epsilons` — a nonempty list of positive finite box widths
- `Epsilons.ofList` — refuses every other list
- `Epsilons.coordinate`, `Epsilons.boxIndex` — the box of a value, of an objective vector
- `Epsilons.residual` — how far a vector lies from the lower corner of its box
-/

namespace ParetoFront

/-- Box widths have to be positive and finite. -/
def isBoxWidth (v : Float) : Bool :=
  v.isFinite && 0 < v

/-- Box widths, one for each objective, the last for all further objectives. Equality is equality
of the values, so `[0.1]` and `[0.1, 0.1]` differ. -/
structure Epsilons where
  values : List Float
  nonempty : values ≠ []
  valid : ∀ v ∈ values, isBoxWidth v = true
deriving DecidableEq

namespace Epsilons

/-- Epsilons from a list; the first value that is no box width is named. -/
def ofList (values : List Float) : Except Error Epsilons :=
  if h : values = [] then .error .emptyEpsilons
  else
    match hv : values.zipIdx.find? (fun p => !isBoxWidth p.1) with
    | some (v, i) => .error (.invalidEpsilon i v)
    | none => .ok ⟨values, h, fun v hmem => by
        obtain ⟨i, hi⟩ := List.mem_iff_getElem?.1 hmem
        have := List.find?_eq_none.1 hv (v, i) (List.mk_mem_zipIdx_iff_getElem?.2 hi)
        simpa using this⟩

def uniform (width : Float) : Except Error Epsilons :=
  ofList [width]

instance : Hashable Epsilons where
  hash ε := hash (ε.values.map Float.toBits)

variable (ε : Epsilons)

def size : Nat :=
  ε.values.length

/-- There are no values. This is never so. -/
def isEmpty : Bool :=
  ε.values.isEmpty

def get (i : Nat) : Float :=
  ε.values.get ⟨min i (ε.values.length - 1), by
    have := List.length_pos_iff.2 ε.nonempty
    omega⟩

/-- The epsilons can serve `m` objectives: none of them is left over. -/
def fits (m : Nat) : Bool :=
  ε.size ≤ m

/-- The box of the value `v` along objective `i`, clamped to the signed 64-bit range. -/
def coordinate (i : Nat) (v : Float) : Int :=
  Number.clampedFloor (v / ε.get i)

def boxIndex (objectives : List Float) : List Int :=
  objectives.zipIdx.map fun (v, i) => ε.coordinate i v

/-- The distance to the lower corner of the box, in box widths, summed over the objectives. -/
def residual (objectives : List Float) : Float :=
  Number.sum <| objectives.zipIdx.map fun (v, i) =>
    let scaled := v / ε.get i
    scaled - Number.floor scaled

end Epsilons

end ParetoFront
