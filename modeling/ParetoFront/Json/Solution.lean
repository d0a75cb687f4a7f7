import ParetoFront.Json.DataFormat
import ParetoFront.Solution

/-!
# Forms of solutions

A variable is a tagged case with its data, and a solution is a record of three lists.
-/

namespace ParetoFront

variable {Form : Type} (F : DataFormat Form)

def Variable.write : Variable → Form
  | .real value lower upper =>
    F.ofCase "Real" <| F.ofRecord
      [("value", F.ofFloat value), ("lower", F.ofFloat lower), ("upper", F.ofFloat upper)]
  | .integer value lower upper =>
    F.ofCase "Integer" <| F.ofRecord
      [("value", F.ofInt value.toInt), ("lower", F.ofInt lower.toInt),
        ("upper", F.ofInt upper.toInt)]
  | .permutation order => F.ofCase "Permutation" (F.ofList (fun i => F.ofNat i.toNat) order)
  | .subset members universeSize minSize maxSize =>
    F.ofCase "Subset" <| F.ofRecord
      [("members", F.ofList (fun i => F.ofNat i.toNat) members),
        ("universe", F.ofNat universeSize.toNat),
        ("min_size", F.ofNat minSize.toNat), ("max_size", F.ofNat maxSize.toNat)]
  | .binary bits => F.ofCase "Binary" (F.ofList F.ofBool bits)

/-- The names of the data of a variable that is a number between two bounds. -/
def Variable.boundedNames : List String :=
  ["value", "lower", "upper"]

/-- The names of the data of a subset. -/
def Variable.subsetNames : List String :=
  ["members", "universe", "min_size", "max_size"]

def Variable.read (j : Form) : Read Variable := do
  match ← F.asCase j with
  | ("Real", some data) =>
    let r := F.asCaseRecord boundedNames data
    return .real (← r.field "value" F.asFloat) (← r.field "lower" F.asFloat)
      (← r.field "upper" F.asFloat)
  | ("Integer", some data) =>
    let r := F.asCaseRecord boundedNames data
    return .integer (← r.field "value" F.asInt64) (← r.field "lower" F.asInt64)
      (← r.field "upper" F.asInt64)
  | ("Permutation", some data) => return .permutation (← F.asList F.asUInt64 data)
  | ("Subset", some data) =>
    let r := F.asCaseRecord subsetNames data
    return .subset (← r.field "members" (F.asList F.asUInt64)) (← r.field "universe" F.asUInt64)
      (← r.field "min_size" F.asUInt64) (← r.field "max_size" F.asUInt64)
  | ("Binary", some data) => return .binary (← F.asList F.asBool data)
  | _ => .error .malformed

/-- The names of the three lists, in their order. -/
def Solution.fieldNames : List String :=
  ["variables", "objectives", "constraints"]

/-- The three lists by name. -/
def Solution.fields (s : Solution) : List (String × Form) :=
  [("variables", F.ofList (Variable.write F) s.decisions),
    ("objectives", F.ofList F.ofFloat s.objectives),
    ("constraints", F.ofList F.ofFloat s.constraints)]

def Solution.write (s : Solution) : Form :=
  F.ofRecord (s.fields F)

/-- Reads a solution; all three lists have to be there. -/
def Solution.read (j : Form) : Read Solution := do
  let r := F.asRecord fieldNames j
  return {
    decisions := ← r.field "variables" (F.asList (Variable.read F))
    objectives := ← r.field "objectives" (F.asList F.asFloat)
    constraints := ← r.field "constraints" (F.asList F.asFloat) }

end ParetoFront
