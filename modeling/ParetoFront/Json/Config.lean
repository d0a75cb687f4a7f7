import ParetoFront.Config
import ParetoFront.Json.DataFormat

/-!
# Forms of epsilons and configurations

Epsilons are a list of numbers and are checked when they are read. A configuration is a record in
which every field may be missing.
-/

namespace ParetoFront

variable {Form : Type} (F : DataFormat Form)

def Epsilons.write (ε : Epsilons) : Form :=
  F.ofList F.ofFloat ε.values

/-- Reads epsilons. A list of numbers that are no epsilons is refused with the reason. -/
def Epsilons.read (j : Form) : Read Epsilons := do
  let values ← F.asList F.asFloat j
  match Epsilons.ofList values with
  | .ok ε => return ε
  | .error e => .error (.refused e)

def CriterionKind.write : CriterionKind → Form
  | .pareto => F.ofCase "Pareto" none
  | .constrained => F.ofCase "Constrained" none
  | .epsilonBox => F.ofCase "EpsilonBox" none
  | .lexicographic => F.ofCase "Lexicographic" none

def CriterionKind.read (j : Form) : Read CriterionKind := do
  let (name, data) ← F.asCase j
  F.asNoData data
  match name with
  | "Pareto" => return .pareto
  | "Constrained" => return .constrained
  | "EpsilonBox" => return .epsilonBox
  | "Lexicographic" => return .lexicographic
  | _ => .error .malformed

/-- The names of the choices of a configuration, in their order. -/
def Config.fieldNames : List String :=
  ["dominance", "epsilons", "duplicate_tolerance"]

/-- The choices of a configuration by name. -/
def Config.fields (c : Config) : List (String × Form) :=
  [("dominance", F.ofOption (CriterionKind.write F) c.dominance),
    ("epsilons", F.ofOption (Epsilons.write F) c.epsilons),
    ("duplicate_tolerance", F.ofFloat c.duplicateTolerance)]

def Config.write (c : Config) : Form :=
  F.ofRecord (c.fields F)

/-- Takes one field over into a configuration. -/
def Config.readField (c : Config) (field : String × Form) : Read Config := do
  return {
    dominance := ← takeField "dominance" (F.asOption (CriterionKind.read F)) c.dominance field
    epsilons := ← takeField "epsilons" (F.asOption (Epsilons.read F)) c.epsilons field
    duplicateTolerance :=
      ← takeField "duplicate_tolerance" F.asFloat c.duplicateTolerance field }

/-- Reads a configuration. Missing fields keep their defaults. The fields are taken over as they
come, so that the first of several errors is reported, and whether the record ends well is seen
last. -/
def Config.read (j : Form) : Read Config := do
  let r := F.asRecord fieldNames j
  let c ← r.fields.foldlM (Config.readField F) {}
  if r.complete then return c else .error .malformed

end ParetoFront
