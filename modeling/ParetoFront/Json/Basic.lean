import ParetoFront.Json.DataFormat
import ParetoFront.Number.Floor

/-!
# JSON values

Two formats whose forms are JSON values, for programs that have to run in some format. What is said
of the library's values in formats does not depend on them. Integers and reals are told apart: a
real field accepts both, an integer field only integers within its range.

## Main definitions

- `Json` — a JSON value
- `Json.textFormat` — what a JSON text accepts
- `Json.valueFormat` — what a JSON value in memory accepts
-/

namespace ParetoFront

inductive Json where
  | null
  | bool (b : Bool)
  | int (n : Int)
  | real (x : Float)
  | text (s : String)
  | list (items : List Json)
  | record (fields : List (String × Json))

namespace Json

def isNull : Json → Bool
  | null => true
  | _ => false

def asBool : Json → Read Bool
  | bool b => .ok b
  | _ => .error .malformed

def asUInt64 : Json → Read UInt64
  | int n =>
    if 0 ≤ n ∧ n < 0x10000000000000000 then .ok (.ofNat n.toNat) else .error .malformed
  | _ => .error .malformed

def asInt64 : Json → Read Int64
  | int n =>
    if Number.minInt64 ≤ n ∧ n ≤ Number.maxInt64 then .ok (.ofInt n) else .error .malformed
  | _ => .error .malformed

/-- An integer that fits 64 bits, with a sign or without. -/
def isWord (n : Int) : Bool :=
  Number.minInt64 ≤ n && n < 0x10000000000000000

/-- A finite number; an integer becomes the nearest float. -/
def asFloat : Json → Read Float
  | int n => if isWord n then .ok (.ofInt n) else .error .malformed
  | real x => if x.isFinite then .ok x else .error .malformed
  | _ => .error .malformed

/-- A float; the values that are no numbers are written as `null`. -/
def ofFloat (x : Float) : Json :=
  if x.isFinite then real x else null

def asItems : Json → Read (List Json)
  | list items => .ok items
  | _ => .error .malformed

/-- The fields with the given names, in the order of the record. -/
def namedFields (names : List String) (fields : List (String × Json)) : List (String × Json) :=
  fields.filter fun f => names.contains f.1

/-- Reads a record by name, or a list by place. -/
def asRecord (names : List String) : Json → Entries Json
  | record fields =>
    ⟨namedFields names fields, decide ((namedFields names fields).map Prod.fst).Nodup⟩
  | list items => ⟨names.zip items, decide (items.length ≤ names.length)⟩
  | _ => ⟨[], false⟩

/-- Reads a record by name only. -/
def asNamedRecord (names : List String) : Json → Entries Json
  | record fields => asRecord names (record fields)
  | _ => ⟨[], false⟩

/-- A record with one field names a case with its data, and a text names a case without data. -/
def ofCase (name : String) : Option Json → Json
  | some data => record [(name, data)]
  | none => text name

def asCase : Json → Read (String × Option Json)
  | text name => .ok (name, none)
  | record [(name, data)] => .ok (name, some data)
  | _ => .error .malformed

/-- A case without data may come with `null`. -/
def asNoData : Option Json → Read Unit
  | none | some null => .ok ()
  | some _ => .error .malformed

/-- The format of texts. The data of a case may be listed by place. -/
def textFormat : DataFormat Json where
  null := null
  isNull := isNull
  ofBool := bool
  asBool := asBool
  ofInt := int
  asUInt64 := asUInt64
  asInt64 := asInt64
  ofFloat := ofFloat
  asFloat := asFloat
  ofItems := list
  asItems := asItems
  ofRecord := record
  asRecord := asRecord
  ofCase := ofCase
  asCase := asCase
  asNoData := asNoData
  asCaseRecord := asRecord

/-- The format of values. The data of a case stand by name only. -/
def valueFormat : DataFormat Json :=
  { textFormat with asCaseRecord := asNamedRecord }

end Json

end ParetoFront
