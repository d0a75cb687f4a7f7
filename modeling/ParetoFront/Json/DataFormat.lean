import ParetoFront.Failure

/-!
# Formats

Values are written in a format and read back from it. The library names the fields of its records
and the cases of its variants, and says which values they hold. How numbers, lists, records and
cases look is left to the format, which is a parameter throughout: of a format nothing is used but
the conventions that are named here.

## Main definitions

- `ReadError` — why a form cannot be read
- `Entries` — the fields of a record as they are read
- `DataFormat` — writers and readers for the parts that values are made of
- `DataFormat.Conventions` — what is relied on
-/

namespace ParetoFront

/-- The reasons for which a form does not stand for a value of the library. -/
inductive ReadError where
  /-- The format has no such value. -/
  | malformed
  /-- The value is well formed and is refused. -/
  | refused (error : Error)

abbrev Read := Except ReadError

/-- The fields of a record in the order in which they are read. -/
structure Entries (Form : Type) where
  fields : List (String × Form)
  /-- Whether the record ends well after these fields. -/
  complete : Bool

/-- The value of a field that has to be there, in a record that ends well. -/
def Entries.field {Form α : Type} (r : Entries Form) (name : String) (value : Form → Read α) :
    Read α :=
  match r.complete, r.fields.lookup name with
  | true, some v => value v
  | _, _ => .error .malformed

/-- The value of a field of this name. A field of another name leaves the value as it is. -/
def takeField {Form α : Type} (name : String) (value : Form → Read α) (current : α)
    (field : String × Form) : Read α :=
  if field.1 = name then value field.2 else .ok current

/-- The entries end well and show the values that the given fields have under the names. The order
of the fields does not matter, nor do fields with other names. -/
structure Entries.Shows {Form : Type} (r : Entries Form) (names : List String)
    (fields : List (String × Form)) : Prop where
  complete : r.complete = true
  lookup : ∀ name ∈ names, r.fields.lookup name = fields.lookup name

/-- A format with the forms of type `Form`. Writers are total, and readers refuse other forms. -/
structure DataFormat (Form : Type) where
  null : Form
  isNull : Form → Bool
  ofBool : Bool → Form
  asBool : Form → Read Bool
  ofInt : Int → Form
  asUInt64 : Form → Read UInt64
  asInt64 : Form → Read Int64
  ofFloat : Float → Form
  asFloat : Form → Read Float
  ofItems : List Form → Form
  asItems : Form → Read (List Form)
  ofRecord : List (String × Form) → Form
  /-- Reads a record that has fields of the given names. -/
  asRecord : List String → Form → Entries Form
  /-- Writes a case by its name and its data, if it has data. -/
  ofCase : String → Option Form → Form
  asCase : Form → Read (String × Option Form)
  /-- Accepts the data of a case that has none. -/
  asNoData : Option Form → Read Unit
  /-- Reads the data of a case as a record that has fields of the given names. -/
  asCaseRecord : List String → Form → Entries Form

namespace DataFormat

variable {Form α : Type} (F : DataFormat Form)

def ofNat (n : Nat) : Form :=
  F.ofInt n

/-- A number of things, which is held in 64 bits. -/
def asCount (j : Form) : Read Nat :=
  (F.asUInt64 j).map UInt64.toNat

def ofList (item : α → Form) (items : List α) : Form :=
  F.ofItems (items.map item)

def asList (item : Form → Read α) (j : Form) : Read (List α) := do
  (← F.asItems j).mapM item

/-- A value that may be missing is written as `null` then. -/
def ofOption (value : α → Form) : Option α → Form
  | none => F.null
  | some a => value a

def asOption (value : Form → Read α) (j : Form) : Read (Option α) :=
  if F.isNull j then .ok none else (value j).map some

/-- What is relied on in a format. -/
structure Conventions : Prop where
  isNull_null : F.isNull F.null = true
  asBool_ofBool : ∀ b, F.asBool (F.ofBool b) = .ok b
  /-- An integer is read where it is in range, and nowhere else. -/
  asUInt64_ofInt_iff : ∀ n i, F.asUInt64 (F.ofInt n) = .ok i ↔ n = i.toNat
  asInt64_ofInt_iff : ∀ n i, F.asInt64 (F.ofInt n) = .ok i ↔ n = i.toInt
  /-- A finite float is written with as many digits as it takes to read it back. -/
  asFloat_ofFloat : ∀ x, x.isFinite = true → F.asFloat (F.ofFloat x) = .ok x
  /-- Other floats have no digits and are written as `null`. -/
  ofFloat_eq_null : ∀ x, x.isFinite = false → F.ofFloat x = F.null
  /-- No digits stand for other floats. -/
  isFinite_of_asFloat : ∀ j x, F.asFloat j = .ok x → x.isFinite = true
  /-- A null is no number, no list and no case. -/
  asFloat_of_isNull : ∀ j, F.isNull j = true → F.asFloat j = .error .malformed
  asItems_of_isNull : ∀ j, F.isNull j = true → F.asItems j = .error .malformed
  asCase_of_isNull : ∀ j, F.isNull j = true → F.asCase j = .error .malformed
  asItems_ofItems : ∀ items, F.asItems (F.ofItems items) = .ok items
  /-- A record is written and read by the names of its fields. -/
  asRecord_ofRecord : ∀ names fields, (fields.map Prod.fst).Nodup →
    (F.asRecord names (F.ofRecord fields)).Shows names fields
  /-- A list stands for a record by place. It may be shorter than the record. -/
  asRecord_ofItems : ∀ names items,
    F.asRecord names (F.ofItems items) = ⟨names.zip items, decide (items.length ≤ names.length)⟩
  /-- A record does not end well when a field stands twice in it. -/
  nodup_asRecord : ∀ names j, names.Nodup → (F.asRecord names j).complete = true →
    ((F.asRecord names j).fields.map Prod.fst).Nodup
  /-- A case is tagged with its name. -/
  asCase_ofCase : ∀ name data, F.asCase (F.ofCase name data) = .ok (name, data)
  asNoData_none : F.asNoData none = .ok ()
  /-- The data of a case are written and read by name. Whether a list stands for them is open. -/
  asCaseRecord_ofRecord : ∀ names fields, (fields.map Prod.fst).Nodup →
    (F.asCaseRecord names (F.ofRecord fields)).Shows names fields

end DataFormat

end ParetoFront
