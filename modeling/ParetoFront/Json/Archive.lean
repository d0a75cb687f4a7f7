import ParetoFront.Archive.Basic
import ParetoFront.Json.Solution

/-!
# Forms of records, outcomes and counters of archives

A record is written with the field names of a solution, so that a written solution reads back as
its record. The order of the names is another one, and so the two differ where they stand as lists.
-/

namespace ParetoFront

variable {Form : Type} (F : DataFormat Form)

/-- The names of the three lists of a record, in their order. -/
def Record.fieldNames : List String :=
  ["objectives", "constraints", "variables"]

/-- The three lists of a record by name. -/
def Record.fields (r : Record) : List (String × Form) :=
  [("objectives", F.ofList F.ofFloat r.objectives),
    ("constraints", F.ofList F.ofFloat r.constraints),
    ("variables", F.ofList (Variable.write F) r.decisions)]

def Record.write (r : Record) : Form :=
  F.ofRecord (r.fields F)

/-- Reads a record; all three lists have to be there. -/
def Record.read (j : Form) : Read Record := do
  let r := F.asRecord fieldNames j
  return {
    objectives := ← r.field "objectives" (F.asList F.asFloat)
    constraints := ← r.field "constraints" (F.asList F.asFloat)
    decisions := ← r.field "variables" (F.asList (Variable.read F)) }

/-- Writes an outcome. -/
def Outcome.write : Outcome → Form
  | .rejected => F.ofCase "Rejected" none
  | .added replaced => F.ofCase "Added" (F.ofRecord [("replaced", F.ofNat replaced)])

/-- The name of the data of an outcome. -/
def Outcome.addedNames : List String :=
  ["replaced"]

/-- Reads an outcome. -/
def Outcome.read (j : Form) : Read Outcome := do
  match ← F.asCase j with
  | ("Rejected", data) =>
    F.asNoData data
    return .rejected
  | ("Added", some data) =>
    return .added (← (F.asCaseRecord addedNames data).field "replaced" F.asCount)
  | _ => .error .malformed

/-- The names of the counters, in their order. -/
def Stats.fieldNames : List String :=
  ["offered", "improvements", "dominating_improvements"]

/-- The counters by name. -/
def Stats.fields (s : Stats) : List (String × Form) :=
  [("offered", F.ofNat s.offered), ("improvements", F.ofNat s.improvements),
    ("dominating_improvements", F.ofNat s.dominatingImprovements)]

/-- Writes the counters. -/
def Stats.write (s : Stats) : Form :=
  F.ofRecord (s.fields F)

/-- Reads the counters, all of which have to be there. -/
def Stats.read (j : Form) : Read Stats := do
  let r := F.asRecord fieldNames j
  return {
    offered := ← r.field "offered" F.asCount
    improvements := ← r.field "improvements" F.asCount
    dominatingImprovements := ← r.field "dominating_improvements" F.asCount }

end ParetoFront
