import ParetoFront.Json.DataFormat

/-!
# Writers and readers that belong together

A reader belongs to a writer when it reads back what was written and reads nothing that would be
written differently. This follows from the conventions for single values, and is then carried over
to lists, to values that may be missing and to the fields of records.

## Main definitions

- `RoundTrips` — a reader belongs to a writer
- `IsCount` — numbers of 64 bits
- `fieldD` — the value of a field, or a default

## Main statements

- `DataFormat.Conventions.float`, `DataFormat.Conventions.count`, … — single values
- `RoundTrips.list`, `RoundTrips.option` — compound values
- `RoundTrips.field_write_iff`, `RoundTrips.holds_of_field` — fields of records
-/

namespace ParetoFront

variable {Form α β : Type}

/-- A value is read back after it was written exactly when it is of the kind `holds`, and whatever
is read can be written and read again. -/
structure RoundTrips (write : α → Form) (read : Form → Read α) (holds : α → Prop) : Prop where
  read_write_iff : ∀ x y, read (write x) = .ok y ↔ holds x ∧ x = y
  read_write_of_read : ∀ j x, read j = .ok x → read (write x) = .ok x

namespace RoundTrips

variable {write : α → Form} {read : Form → Read α} {holds : α → Prop}

/-- Only values of the kind are read. -/
theorem holds_of_read (h : RoundTrips write read holds) {j : Form} {x : α}
    (isRead : read j = .ok x) : holds x :=
  ((h.read_write_iff x x).1 (h.read_write_of_read j x isRead)).1

/-- It is enough that values of the kind are read back, that others are not, and that nothing else
is read. -/
theorem of_holds (written : ∀ x, holds x → read (write x) = .ok x)
    (refused : ∀ x y, read (write x) = .ok y → holds x)
    (only : ∀ j x, read j = .ok x → holds x) : RoundTrips write read holds where
  read_write_iff x y := by
    constructor
    · intro isRead
      have kind := refused x y isRead
      exact ⟨kind, Except.ok.inj ((written x kind).symm.trans isRead)⟩
    · rintro ⟨kind, rfl⟩
      exact written x kind
  read_write_of_read j x isRead := written x (only j x isRead)

theorem of_forall (written : ∀ x, read (write x) = .ok x) :
    RoundTrips write read fun _ => True :=
  .of_holds (fun x _ => written x) (fun _ _ _ => trivial) fun _ _ _ => trivial

end RoundTrips

/-! ### Single values -/

/-- Numbers that count something are held in 64 bits. -/
def IsCount (n : Nat) : Prop :=
  n < 0x10000000000000000

namespace DataFormat.Conventions

variable {F : DataFormat Form} (conv : F.Conventions)
include conv

/-- What is read as a list is not null. -/
theorem isNull_of_asItems {j : Form} {items : List Form} (isList : F.asItems j = .ok items) :
    F.isNull j = false := by
  cases missing : F.isNull j with
  | false => rfl
  | true => cases (conv.asItems_of_isNull j missing).symm.trans isList

/-- What is read as a case is not null. -/
theorem isNull_of_asCase {j : Form} {c : String × Option Form} (isCase : F.asCase j = .ok c) :
    F.isNull j = false := by
  cases missing : F.isNull j with
  | false => rfl
  | true => cases (conv.asCase_of_isNull j missing).symm.trans isCase

theorem float : RoundTrips F.ofFloat F.asFloat fun x => x.isFinite = true := by
  refine .of_holds conv.asFloat_ofFloat ?_ conv.isFinite_of_asFloat
  intro x y isRead
  cases finite : x.isFinite with
  | true => rfl
  | false =>
    rw [conv.ofFloat_eq_null x finite, conv.asFloat_of_isNull F.null conv.isNull_null] at isRead
    cases isRead

theorem uint64 : RoundTrips (fun i : UInt64 => F.ofNat i.toNat) F.asUInt64 fun _ => True :=
  .of_forall fun i => (conv.asUInt64_ofInt_iff i.toNat i).2 rfl

theorem int64 : RoundTrips (fun i : Int64 => F.ofInt i.toInt) F.asInt64 fun _ => True :=
  .of_forall fun i => (conv.asInt64_ofInt_iff i.toInt i).2 rfl

theorem bool : RoundTrips F.ofBool F.asBool fun _ => True :=
  .of_forall conv.asBool_ofBool

theorem count : RoundTrips F.ofNat F.asCount IsCount := by
  refine .of_holds ?_ ?_ ?_
  · intro n word
    refine map_eq_ok_iff.2 ⟨.ofNat n, (conv.asUInt64_ofInt_iff n _).2 ?_, ?_⟩
    · rw [UInt64.toNat_ofNat_of_lt' word]
    · exact UInt64.toNat_ofNat_of_lt' word
  · intro n m isRead
    obtain ⟨i, isRead, -⟩ := map_eq_ok_iff.1 isRead
    rw [IsCount, Int.ofNat_inj.1 ((conv.asUInt64_ofInt_iff n i).1 isRead)]
    exact i.toNat_lt
  · intro j n isRead
    obtain ⟨i, -, rfl⟩ := map_eq_ok_iff.1 isRead
    exact i.toNat_lt

end DataFormat.Conventions

/-! ### Compound values -/

namespace RoundTrips

variable {F : DataFormat Form} {write : α → Form} {read : Form → Read α} {holds : α → Prop}
  (h : RoundTrips write read holds)
include h

theorem mapM_write_iff (xs ys : List α) :
    (xs.map write).mapM read = .ok ys ↔ (∀ x ∈ xs, holds x) ∧ xs = ys := by
  induction xs generalizing ys with
  | nil =>
    rw [List.map_nil, List.mapM_nil, pure_eq_ok_iff]
    exact (and_iff_right (List.forall_mem_nil _)).symm
  | cons x xs ih =>
    rw [List.map_cons, List.mapM_cons, List.forall_mem_cons]
    simp only [bind_eq_ok_iff, pure_eq_ok_iff, h.read_write_iff, ih]
    constructor
    · rintro ⟨_, ⟨first, rfl⟩, _, ⟨others, rfl⟩, rfl⟩
      exact ⟨⟨first, others⟩, rfl⟩
    · rintro ⟨⟨first, others⟩, rfl⟩
      exact ⟨x, ⟨first, rfl⟩, xs, ⟨others, rfl⟩, rfl⟩

theorem holds_of_mapM {items : List Form} {xs : List α} (isRead : items.mapM read = .ok xs) :
    ∀ x ∈ xs, holds x := by
  induction items generalizing xs with
  | nil =>
    obtain rfl := pure_eq_ok_iff.1 isRead
    exact List.forall_mem_nil _
  | cons item items ih =>
    rw [List.mapM_cons] at isRead
    simp only [bind_eq_ok_iff, pure_eq_ok_iff] at isRead
    obtain ⟨x, first, rest, others, rfl⟩ := isRead
    exact List.forall_mem_cons.2 ⟨h.holds_of_read first, ih others⟩

theorem list (conv : F.Conventions) :
    RoundTrips (F.ofList write) (F.asList read) fun xs => ∀ x ∈ xs, holds x := by
  have asList_ofList (xs : List α) :
      F.asList read (F.ofList write xs) = (xs.map write).mapM read := by
    rw [DataFormat.asList, DataFormat.ofList, conv.asItems_ofItems]
    rfl
  refine .of_holds ?_ ?_ ?_
  · intro xs all
    exact (asList_ofList xs).trans ((h.mapM_write_iff xs xs).2 ⟨all, rfl⟩)
  · intro xs ys isRead
    exact ((h.mapM_write_iff xs ys).1 ((asList_ofList xs).symm.trans isRead)).1
  · intro j xs isRead
    obtain ⟨items, -, isRead⟩ := bind_eq_ok_iff.1 isRead
    exact h.holds_of_mapM isRead

/-- A value that may be missing is written as `null` then, which no other value may be. -/
theorem option (conv : F.Conventions) (notNull : ∀ x, F.isNull (write x) = false) :
    RoundTrips (F.ofOption write) (F.asOption read) fun o => ∀ x ∈ o, holds x := by
  have asOption_of_given {j : Form} (given : F.isNull j = false) :
      F.asOption read j = (read j).map some :=
    if_neg (Bool.eq_false_iff.1 given)
  refine .of_holds ?_ ?_ ?_
  · intro o all
    cases o with
    | none => exact if_pos conv.isNull_null
    | some x =>
      have isRead := (h.read_write_iff x x).2 ⟨all x rfl, rfl⟩
      exact (asOption_of_given (notNull x)).trans (map_eq_ok_iff.2 ⟨x, isRead, rfl⟩)
  · rintro (_ | x) o isRead y present
    · cases present
    · obtain rfl := Option.some.inj present
      obtain ⟨z, isRead, -⟩ := map_eq_ok_iff.1 ((asOption_of_given (notNull x)).symm.trans isRead)
      exact ((h.read_write_iff x z).1 isRead).1
  · intro j o isRead x present
    cases missing : F.isNull j with
    | true =>
      rw [DataFormat.asOption, if_pos missing] at isRead
      obtain rfl := Except.ok.inj isRead
      cases present
    | false =>
      obtain ⟨y, inner, rfl⟩ := map_eq_ok_iff.1 ((asOption_of_given missing).symm.trans isRead)
      obtain rfl := Option.some.inj present
      exact h.holds_of_read inner

end RoundTrips

/-! ### Fields of records -/

theorem Entries.field_eq_ok_iff {r : Entries Form} {name : String} {value : Form → Read α} {x : α} :
    r.field name value = .ok x ↔
      r.complete = true ∧ ∃ v, r.fields.lookup name = some v ∧ value v = .ok x := by
  rw [field]
  cases r.complete <;> cases r.fields.lookup name <;> simp

/-- The value of a field, or a default if it is not there. -/
def fieldD (name : String) (value : Form → Read α) (default : α)
    (fields : List (String × Form)) : Read α :=
  match fields.lookup name with
  | some v => value v
  | none => .ok default

theorem fieldD_of_lookup {name : String} {value : Form → Read α} {default : α}
    {fields : List (String × Form)} {v : Form} (found : fields.lookup name = some v) :
    fieldD name value default fields = value v := by
  rw [fieldD, found]

/-- Where names are distinct, what is taken from a field is not found again behind it. -/
theorem fieldD_cons_eq_ok_iff {name : String} {value : Form → Read α} {default x : α}
    {field : String × Form} {fields : List (String × Form)}
    (absent : field.1 ∉ fields.map Prod.fst) :
    fieldD name value default (field :: fields) = .ok x ↔
      ∃ y, takeField name value default field = .ok y ∧ fieldD name value y fields = .ok x := by
  by_cases same : field.1 = name
  · have missing : fields.lookup name = none := by
      refine List.lookup_eq_none_iff.2 fun other member => bne_iff_ne.2 fun again => absent ?_
      exact same.trans again ▸ List.mem_map_of_mem member
    have kept (y : α) : fieldD name value y fields = .ok y := by
      rw [fieldD, missing]
    have found : (field :: fields).lookup name = some field.2 := by
      rw [← same]
      exact List.lookup_cons_self
    simp only [takeField, if_pos same, kept, fieldD_of_lookup found, Except.ok.injEq,
      exists_eq_right]
  · have passed : (field :: fields).lookup name = fields.lookup name := by
      rw [List.lookup_cons, beq_eq_false_iff_ne.2 (Ne.symm same)]
    simp only [takeField, if_neg same, fieldD, passed, Except.ok.injEq, exists_eq_left']

namespace Entries.Shows

variable {r : Entries Form} {names : List String} {fields : List (String × Form)} {name : String}

/-- What is read from entries is read from the fields that they show. -/
theorem field_eq_ok_iff (shown : r.Shows names fields) (member : name ∈ names)
    {value : Form → Read α} {x : α} :
    r.field name value = .ok x ↔ ∃ v, fields.lookup name = some v ∧ value v = .ok x := by
  rw [Entries.field_eq_ok_iff, shown.lookup name member, and_iff_right shown.complete]

end Entries.Shows

namespace RoundTrips

variable {write : α → Form} {read : Form → Read α} {holds : α → Prop}
  (h : RoundTrips write read holds) {r : Entries Form} {names : List String}
  {fields : List (String × Form)} {name : String} {x y : α}
include h

/-- A field in which a value was written reads back as this value. -/
theorem field_write_iff (shown : r.Shows names fields) (member : name ∈ names)
    (found : fields.lookup name = some (write x)) :
    r.field name read = .ok y ↔ holds x ∧ x = y := by
  rw [shown.field_eq_ok_iff member, found, ← h.read_write_iff]
  exact ⟨fun ⟨_, same, isRead⟩ => Option.some.inj same ▸ isRead, fun isRead => ⟨_, rfl, isRead⟩⟩

/-- A value of the kind is read back from its field. -/
theorem read_field (shown : r.Shows names fields) (member : name ∈ names)
    (found : fields.lookup name = some (write x)) (kind : holds x) : r.field name read = .ok x :=
  (h.field_write_iff shown member found).2 ⟨kind, rfl⟩

theorem fieldD_write_iff {default : α} (shown : r.Shows names fields) (member : name ∈ names)
    (found : fields.lookup name = some (write x)) :
    fieldD name read default r.fields = .ok y ↔ holds x ∧ x = y := by
  rw [fieldD_of_lookup ((shown.lookup name member).trans found), h.read_write_iff]

theorem holds_of_field (isRead : r.field name read = .ok x) : holds x := by
  obtain ⟨-, v, -, isRead⟩ := Entries.field_eq_ok_iff.1 isRead
  exact h.holds_of_read isRead

/-- What is read from a field that may be absent is of the kind, if the default is. -/
theorem holds_of_fieldD {default : α} (kind : holds default)
    (isRead : fieldD name read default fields = .ok x) : holds x := by
  rw [fieldD] at isRead
  split at isRead
  · exact h.holds_of_read isRead
  · exact Except.ok.inj isRead ▸ kind

end RoundTrips

end ParetoFront
