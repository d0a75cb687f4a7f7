import ParetoFront.Json.Archive
import ParetoFront.Json.Config
import ParetoFront.Proofs.Json.Readers
import ParetoFront.Proofs.Json.Values

/-!
# Values of the library written and read back

In every format that keeps the conventions, a value that is written reads back as itself, unless one
of its floats is infinite or undefined, and every form that is read can be written and read again.
Epsilons are checked on the way in. Solutions and records are read from the same fields.

## Main definitions

- `Variable.IsFinite`, `Solution.IsFinite`, `Record.IsFinite` — values whose floats are finite

## Main statements

- `Epsilons.read_eq_ok_iff` — epsilons are read from lists of numbers that are epsilons
- `Config.read_eq_ok_iff` — a configuration is read from its fields, wherever they stand
- `Solution.roundTrips`, `Config.roundTrips`, … — the types one by one
- `Record.read_record_eq_ok_iff` — records are read from the fields of solutions
- `roundTrips_json` — all of it
-/

namespace ParetoFront

variable {Form : Type} {F : DataFormat Form}

/-! ### Epsilons -/

theorem Epsilons.ofList_eq_ok_iff {values : List Float} {ε : Epsilons} :
    Epsilons.ofList values = .ok ε ↔ ε.values = values := by
  obtain ⟨given, nonempty, valid⟩ := ε
  rw [Epsilons.ofList]
  constructor
  · intro isOk
    split at isOk
    · cases isOk
    · split at isOk
      · cases isOk
      · exact (congrArg Epsilons.values (Except.ok.inj isOk)).symm
  · rintro rfl
    rw [dif_neg nonempty]
    split
    · next v i found =>
      have bad := List.find?_some found
      have member := List.fst_mem_of_mem_zipIdx (List.mem_of_find?_eq_some found)
      rw [valid v member] at bad
      cases bad
    · rfl

theorem Epsilons.read_eq_ok_iff {j : Form} {ε : Epsilons} :
    Epsilons.read F j = .ok ε ↔ F.asList F.asFloat j = .ok ε.values := by
  rw [Epsilons.read, bind_eq_ok_iff]
  constructor
  · rintro ⟨values, isRead, isOk⟩
    cases made : Epsilons.ofList values with
    | error e =>
      rw [made] at isOk
      cases isOk
    | ok ε' =>
      rw [made] at isOk
      obtain rfl := pure_eq_ok_iff.1 isOk
      rw [Epsilons.ofList_eq_ok_iff.1 made, isRead]
  · intro isRead
    refine ⟨ε.values, isRead, ?_⟩
    rw [Epsilons.ofList_eq_ok_iff.2 rfl]
    rfl

/-- A list of numbers is read as epsilons exactly when it is made of epsilons. -/
theorem Epsilons.read_iff_of_numbers {j : Form} {items : List Form} {values : List Float}
    {ε : Epsilons} (isList : F.asItems j = .ok items)
    (numbers : items.mapM F.asFloat = .ok values) :
    Epsilons.read F j = .ok ε ↔ Epsilons.ofList values = .ok ε := by
  rw [Epsilons.read_eq_ok_iff, Epsilons.ofList_eq_ok_iff, DataFormat.asList, isList]
  show items.mapM F.asFloat = .ok ε.values ↔ ε.values = values
  rw [numbers, Except.ok.injEq, eq_comm]

theorem Epsilons.isFinite (ε : Epsilons) : ∀ v ∈ ε.values, v.isFinite = true := fun v member =>
  (Bool.and_eq_true_iff.1 (ε.valid v member)).1

theorem Epsilons.roundTrips (conv : F.Conventions) :
    RoundTrips (Epsilons.write F) (Epsilons.read F) fun _ => True :=
  .of_forall fun ε => Epsilons.read_eq_ok_iff.2 <|
    ((conv.float.list conv).read_write_iff ε.values ε.values).2 ⟨ε.isFinite, rfl⟩

/-! ### Configurations -/

theorem CriterionKind.roundTrips (conv : F.Conventions) :
    RoundTrips (CriterionKind.write F) (CriterionKind.read F) fun _ => True := by
  refine .of_forall fun kind => ?_
  cases kind
  all_goals
    refine bind_eq_ok_iff.2 ⟨_, conv.asCase_ofCase _ none, ?_⟩
    exact bind_eq_ok_iff.2 ⟨_, conv.asNoData_none, rfl⟩

theorem CriterionKind.isNull_write (conv : F.Conventions) (kind : CriterionKind) :
    F.isNull (CriterionKind.write F kind) = false := by
  cases kind <;> exact conv.isNull_of_asCase (conv.asCase_ofCase _ none)

/-- Taking fields over one after the other finds each choice in the field of its name. -/
theorem Config.foldlM_readField_eq_ok_iff {fields : List (String × Form)}
    (distinct : (fields.map Prod.fst).Nodup) (start c : Config) :
    fields.foldlM (Config.readField F) start = .ok c ↔
      fieldD "dominance" (F.asOption (CriterionKind.read F)) start.dominance fields =
        .ok c.dominance ∧
      fieldD "epsilons" (F.asOption (Epsilons.read F)) start.epsilons fields = .ok c.epsilons ∧
      fieldD "duplicate_tolerance" F.asFloat start.duplicateTolerance fields =
        .ok c.duplicateTolerance := by
  induction fields generalizing start with
  | nil =>
    rw [List.foldlM_nil, pure_eq_ok_iff]
    cases start
    cases c
    constructor
    · rintro ⟨⟩
      exact ⟨rfl, rfl, rfl⟩
    · rintro ⟨⟨⟩, ⟨⟩, ⟨⟩⟩
      rfl
  | cons field fields ih =>
    obtain ⟨absent, distinct⟩ := List.nodup_cons.1 distinct
    simp only [List.foldlM_cons, Config.readField, bind_eq_ok_iff, pure_eq_ok_iff, ih distinct,
      fieldD_cons_eq_ok_iff absent]
    constructor
    · rintro ⟨_, ⟨dominance, taken₁, epsilons, taken₂, tolerance, taken₃, rfl⟩, rest₁, rest₂, rest₃⟩
      exact ⟨⟨_, taken₁, rest₁⟩, ⟨_, taken₂, rest₂⟩, _, taken₃, rest₃⟩
    · rintro ⟨⟨dominance, taken₁, rest₁⟩, ⟨epsilons, taken₂, rest₂⟩, tolerance, taken₃, rest₃⟩
      exact ⟨_, ⟨_, taken₁, _, taken₂, _, taken₃, rfl⟩, rest₁, rest₂, rest₃⟩

/-- A configuration is read from its fields, in whatever order they come. -/
theorem Config.read_eq_ok_iff (conv : F.Conventions) {j : Form} {c : Config} :
    Config.read F j = .ok c ↔
      (F.asRecord Config.fieldNames j).complete = true ∧
      fieldD "dominance" (F.asOption (CriterionKind.read F)) none
        (F.asRecord Config.fieldNames j).fields = .ok c.dominance ∧
      fieldD "epsilons" (F.asOption (Epsilons.read F)) none
        (F.asRecord Config.fieldNames j).fields = .ok c.epsilons ∧
      fieldD "duplicate_tolerance" F.asFloat defaultTolerance
        (F.asRecord Config.fieldNames j).fields = .ok c.duplicateTolerance := by
  rw [Config.read, bind_eq_ok_iff]
  cases complete : (F.asRecord Config.fieldNames j).complete with
  | false => exact iff_of_false (fun ⟨_, _, isOk⟩ => by cases isOk) fun h => by cases h.1
  | true =>
    have distinct := conv.nodup_asRecord Config.fieldNames j (by decide) complete
    rw [and_iff_right rfl, ← Config.foldlM_readField_eq_ok_iff distinct {} c]
    constructor
    · rintro ⟨_, isRead, ⟨⟩⟩
      exact isRead
    · exact fun isRead => ⟨c, isRead, rfl⟩

/-- The epsilons of a configuration are given as `ε`, and its other choices can be read. -/
structure Config.Gives (F : DataFormat Form) (j ε : Form) (dominance : Option CriterionKind)
    (tolerance : Float) : Prop where
  complete : (F.asRecord fieldNames j).complete = true
  epsilons : (F.asRecord fieldNames j).fields.lookup "epsilons" = some ε
  dominance : fieldD "dominance" (F.asOption (CriterionKind.read F)) none
    (F.asRecord fieldNames j).fields = .ok dominance
  tolerance : fieldD "duplicate_tolerance" F.asFloat defaultTolerance
    (F.asRecord fieldNames j).fields = .ok tolerance

/-- In a configuration whose other choices can be read the epsilons decide. -/
theorem Config.Gives.read_iff (conv : F.Conventions) {j l : Form} {items : List Form}
    {values : List Float} {dominance : Option CriterionKind} {tolerance : Float} {c : Config}
    (given : Config.Gives F j l dominance tolerance) (isList : F.asItems l = .ok items)
    (numbers : items.mapM F.asFloat = .ok values) :
    Config.read F j = .ok c ↔
      ∃ ε, Epsilons.ofList values = .ok ε ∧ ⟨dominance, some ε, tolerance⟩ = c := by
  have notNull : ¬F.isNull l = true := Bool.eq_false_iff.1 (conv.isNull_of_asItems isList)
  rw [Config.read_eq_ok_iff conv, given.dominance, given.tolerance,
    fieldD_of_lookup given.epsilons, DataFormat.asOption, if_neg notNull, map_eq_ok_iff]
  simp only [Epsilons.read_iff_of_numbers isList numbers, Except.ok.injEq]
  constructor
  · rintro ⟨-, same₁, ⟨ε, made, same₂⟩, same₃⟩
    refine ⟨ε, made, ?_⟩
    rw [same₁, same₂, same₃]
  · rintro ⟨ε, made, rfl⟩
    exact ⟨given.complete, rfl, ⟨ε, made, rfl⟩, rfl⟩

theorem Config.shows_fields (conv : F.Conventions) (c : Config) :
    (F.asRecord fieldNames (Config.write F c)).Shows fieldNames (c.fields F) :=
  conv.asRecord_ofRecord _ _ (show fieldNames.Nodup by decide)

theorem Config.roundTrips (conv : F.Conventions) :
    RoundTrips (Config.write F) (Config.read F) fun c =>
      c.duplicateTolerance.isFinite = true := by
  have kinds := (CriterionKind.roundTrips conv).option conv (CriterionKind.isNull_write conv)
  have epsilons := (Epsilons.roundTrips conv).option conv fun ε =>
    conv.isNull_of_asItems (conv.asItems_ofItems _)
  have shown := Config.shows_fields conv
  refine .of_holds ?_ ?_ ?_
  · intro c finite
    refine (Config.read_eq_ok_iff conv).2 ⟨(shown c).complete, ?_, ?_, ?_⟩
    · exact (kinds.fieldD_write_iff (shown c) (by decide) rfl).2 ⟨fun _ _ => trivial, rfl⟩
    · exact (epsilons.fieldD_write_iff (shown c) (by decide) rfl).2 ⟨fun _ _ => trivial, rfl⟩
    · exact (conv.float.fieldD_write_iff (shown c) (by decide) rfl).2 ⟨finite, rfl⟩
  · intro c c' isRead
    obtain ⟨-, -, -, tolerance⟩ := (Config.read_eq_ok_iff conv).1 isRead
    exact ((conv.float.fieldD_write_iff (shown c) (by decide) rfl).1 tolerance).1
  · intro j c isRead
    have default : defaultTolerance.isFinite = true := by decide +kernel
    obtain ⟨-, -, -, tolerance⟩ := (Config.read_eq_ok_iff conv).1 isRead
    exact conv.float.holds_of_fieldD default tolerance

/-! ### Variables -/

/-- The floats of a variable are finite; only real variables have any. -/
def Variable.IsFinite : Variable → Prop
  | .real value lower upper =>
    value.isFinite = true ∧ lower.isFinite = true ∧ upper.isFinite = true
  | _ => True

theorem Variable.shows_bounded (conv : F.Conventions) (value lower upper : Form) :
    (F.asCaseRecord boundedNames
      (F.ofRecord [("value", value), ("lower", lower), ("upper", upper)])).Shows boundedNames
      [("value", value), ("lower", lower), ("upper", upper)] :=
  conv.asCaseRecord_ofRecord _ _ (show boundedNames.Nodup by decide)

theorem Variable.shows_subset (conv : F.Conventions)
    (members universeSize minSize maxSize : Form) :
    (F.asCaseRecord subsetNames
      (F.ofRecord [("members", members), ("universe", universeSize), ("min_size", minSize),
        ("max_size", maxSize)])).Shows subsetNames
      [("members", members), ("universe", universeSize), ("min_size", minSize),
        ("max_size", maxSize)] :=
  conv.asCaseRecord_ofRecord _ _ (show subsetNames.Nodup by decide)

/-- The data of a real variable. -/
theorem Variable.read_real_eq_ok_iff (conv : F.Conventions) {data : Form} {v : Variable} :
    Variable.read F (F.ofCase "Real" (some data)) = .ok v ↔
      ∃ value, (F.asCaseRecord boundedNames data).field "value" F.asFloat = .ok value ∧
        ∃ lower, (F.asCaseRecord boundedNames data).field "lower" F.asFloat = .ok lower ∧
          ∃ upper, (F.asCaseRecord boundedNames data).field "upper" F.asFloat = .ok upper ∧
            .real value lower upper = v := by
  rw [Variable.read, conv.asCase_ofCase]
  show (do
    let value ← (F.asCaseRecord boundedNames data).field "value" F.asFloat
    let lower ← (F.asCaseRecord boundedNames data).field "lower" F.asFloat
    let upper ← (F.asCaseRecord boundedNames data).field "upper" F.asFloat
    return Variable.real value lower upper) = Except.ok v ↔ _
  simp only [bind_eq_ok_iff, pure_eq_ok_iff]

/-- A real variable that is read was read from finite floats. -/
theorem Variable.isFinite_of_read (conv : F.Conventions) {j : Form} {v : Variable}
    (isRead : Variable.read F j = .ok v) : v.IsFinite := by
  obtain ⟨⟨name, data⟩, -, isRead⟩ := bind_eq_ok_iff.1 isRead
  -- one goal for each name of a case, of which only the first leads to floats
  split at isRead
  · simp only [bind_eq_ok_iff, pure_eq_ok_iff] at isRead
    obtain ⟨value, first, lower, second, upper, third, rfl⟩ := isRead
    exact ⟨conv.float.holds_of_field first, conv.float.holds_of_field second,
      conv.float.holds_of_field third⟩
  · simp only [bind_eq_ok_iff, pure_eq_ok_iff] at isRead
    obtain ⟨_, -, _, -, _, -, rfl⟩ := isRead
    trivial
  · simp only [bind_eq_ok_iff, pure_eq_ok_iff] at isRead
    obtain ⟨_, -, rfl⟩ := isRead
    trivial
  · simp only [bind_eq_ok_iff, pure_eq_ok_iff] at isRead
    obtain ⟨_, -, _, -, _, -, _, -, rfl⟩ := isRead
    trivial
  · simp only [bind_eq_ok_iff, pure_eq_ok_iff] at isRead
    obtain ⟨_, -, rfl⟩ := isRead
    trivial
  · cases isRead

/-- The name of the case leads to the reader of its data. -/
theorem Variable.read_write (conv : F.Conventions) {v : Variable} (finite : v.IsFinite) :
    Variable.read F (Variable.write F v) = .ok v := by
  cases v with
  | real value lower upper =>
    have shown := shows_bounded conv (F.ofFloat value) (F.ofFloat lower) (F.ofFloat upper)
    refine (Variable.read_real_eq_ok_iff conv).2 ⟨value, ?_, lower, ?_, upper, ?_, rfl⟩
    · exact conv.float.read_field shown (by decide) rfl finite.1
    · exact conv.float.read_field shown (by decide) rfl finite.2.1
    · exact conv.float.read_field shown (by decide) rfl finite.2.2
  | integer value lower upper =>
    have shown := shows_bounded conv (F.ofInt value.toInt) (F.ofInt lower.toInt)
      (F.ofInt upper.toInt)
    refine bind_eq_ok_iff.2 ⟨_, conv.asCase_ofCase _ _, ?_⟩
    refine bind_eq_ok_iff.2 ⟨value, ?_, bind_eq_ok_iff.2 ⟨lower, ?_, bind_eq_ok_iff.2
      ⟨upper, ?_, rfl⟩⟩⟩
    · exact conv.int64.read_field shown (by decide) rfl trivial
    · exact conv.int64.read_field shown (by decide) rfl trivial
    · exact conv.int64.read_field shown (by decide) rfl trivial
  | permutation order =>
    refine bind_eq_ok_iff.2 ⟨_, conv.asCase_ofCase _ _, bind_eq_ok_iff.2 ⟨order, ?_, rfl⟩⟩
    exact ((conv.uint64.list conv).read_write_iff _ _).2 ⟨fun _ _ => trivial, rfl⟩
  | subset members universeSize minSize maxSize =>
    have shown := shows_subset conv (F.ofList (fun i => F.ofNat i.toNat) members)
      (F.ofNat universeSize.toNat) (F.ofNat minSize.toNat) (F.ofNat maxSize.toNat)
    refine bind_eq_ok_iff.2 ⟨_, conv.asCase_ofCase _ _, ?_⟩
    refine bind_eq_ok_iff.2 ⟨members, ?_, bind_eq_ok_iff.2 ⟨universeSize, ?_, bind_eq_ok_iff.2
      ⟨minSize, ?_, bind_eq_ok_iff.2 ⟨maxSize, ?_, rfl⟩⟩⟩⟩
    · have lists := conv.uint64.list conv
      exact lists.read_field shown (by decide) rfl fun _ _ => trivial
    · exact conv.uint64.read_field shown (by decide) rfl trivial
    · exact conv.uint64.read_field shown (by decide) rfl trivial
    · exact conv.uint64.read_field shown (by decide) rfl trivial
  | binary bits =>
    refine bind_eq_ok_iff.2 ⟨_, conv.asCase_ofCase _ _, bind_eq_ok_iff.2 ⟨bits, ?_, rfl⟩⟩
    exact ((conv.bool.list conv).read_write_iff _ _).2 ⟨fun _ _ => trivial, rfl⟩

theorem Variable.roundTrips (conv : F.Conventions) :
    RoundTrips (Variable.write F) (Variable.read F) Variable.IsFinite := by
  refine .of_holds (fun _ => Variable.read_write conv) ?_ fun _ _ => Variable.isFinite_of_read conv
  intro v w isRead
  cases v with
  | real value lower upper =>
    have shown := shows_bounded conv (F.ofFloat value) (F.ofFloat lower) (F.ofFloat upper)
    obtain ⟨_, first, _, second, _, third, -⟩ := (Variable.read_real_eq_ok_iff conv).1 isRead
    exact ⟨((conv.float.field_write_iff shown (by decide) rfl).1 first).1,
      ((conv.float.field_write_iff shown (by decide) rfl).1 second).1,
      ((conv.float.field_write_iff shown (by decide) rfl).1 third).1⟩
  | integer | permutation | subset | binary => trivial

/-! ### Solutions and records -/

/-- The lists of a solution or of a record hold no float that is infinite or undefined. -/
structure AreFinite (decisions : List Variable) (objectives constraints : List Float) : Prop where
  decisions : ∀ v ∈ decisions, v.IsFinite
  objectives : ∀ x ∈ objectives, x.isFinite = true
  constraints : ∀ x ∈ constraints, x.isFinite = true

def Solution.IsFinite (s : Solution) : Prop :=
  AreFinite s.decisions s.objectives s.constraints

theorem Solution.read_eq_ok_iff {j : Form} {s : Solution} :
    Solution.read F j = .ok s ↔
      (F.asRecord fieldNames j).field "variables" (F.asList (Variable.read F)) =
        .ok s.decisions ∧
      (F.asRecord fieldNames j).field "objectives" (F.asList F.asFloat) = .ok s.objectives ∧
      (F.asRecord fieldNames j).field "constraints" (F.asList F.asFloat) = .ok s.constraints := by
  simp only [Solution.read, bind_eq_ok_iff, pure_eq_ok_iff]
  constructor
  · rintro ⟨decisions, first, objectives, second, constraints, third, rfl⟩
    exact ⟨first, second, third⟩
  · rintro ⟨first, second, third⟩
    exact ⟨_, first, _, second, _, third, rfl⟩

theorem Record.read_eq_ok_iff {j : Form} {r : Record} :
    Record.read F j = .ok r ↔
      (F.asRecord fieldNames j).field "objectives" (F.asList F.asFloat) = .ok r.objectives ∧
      (F.asRecord fieldNames j).field "constraints" (F.asList F.asFloat) = .ok r.constraints ∧
      (F.asRecord fieldNames j).field "variables" (F.asList (Variable.read F)) =
        .ok r.decisions := by
  simp only [Record.read, bind_eq_ok_iff, pure_eq_ok_iff]
  constructor
  · rintro ⟨objectives, first, constraints, second, decisions, third, rfl⟩
    exact ⟨first, second, third⟩
  · rintro ⟨first, second, third⟩
    exact ⟨_, first, _, second, _, third, rfl⟩

/-- Solutions are read from the three written lists, wherever in a record they stand. -/
theorem Solution.read_record_eq_ok_iff (conv : F.Conventions) {fields : List (String × Form)}
    (distinct : (fields.map Prod.fst).Nodup) {decisions : List Variable}
    {objectives constraints : List Float} {s : Solution}
    (first : fields.lookup "variables" = some (F.ofList (Variable.write F) decisions))
    (second : fields.lookup "objectives" = some (F.ofList F.ofFloat objectives))
    (third : fields.lookup "constraints" = some (F.ofList F.ofFloat constraints)) :
    Solution.read F (F.ofRecord fields) = .ok s ↔
      AreFinite decisions objectives constraints ∧ ⟨decisions, objectives, constraints⟩ = s := by
  have shown := conv.asRecord_ofRecord fieldNames fields distinct
  have lists := (Variable.roundTrips conv).list conv
  have floats := conv.float.list conv
  rw [Solution.read_eq_ok_iff, lists.field_write_iff shown (by decide) first,
    floats.field_write_iff shown (by decide) second, floats.field_write_iff shown (by decide) third]
  constructor
  · rintro ⟨⟨finite₁, rfl⟩, ⟨finite₂, rfl⟩, finite₃, rfl⟩
    exact ⟨⟨finite₁, finite₂, finite₃⟩, rfl⟩
  · rintro ⟨⟨finite₁, finite₂, finite₃⟩, rfl⟩
    exact ⟨⟨finite₁, rfl⟩, ⟨finite₂, rfl⟩, finite₃, rfl⟩

theorem Solution.nodup_fields (s : Solution) : ((s.fields F).map Prod.fst).Nodup :=
  show fieldNames.Nodup by decide

theorem Solution.read_write_iff (conv : F.Conventions) (s s' : Solution) :
    Solution.read F (Solution.write F s) = .ok s' ↔ s.IsFinite ∧ s = s' :=
  Solution.read_record_eq_ok_iff conv s.nodup_fields rfl rfl rfl

theorem Solution.isFinite_of_read (conv : F.Conventions) {j : Form} {s : Solution}
    (isRead : Solution.read F j = .ok s) : s.IsFinite := by
  obtain ⟨first, second, third⟩ := Solution.read_eq_ok_iff.1 isRead
  have floats := conv.float.list conv
  exact ⟨((Variable.roundTrips conv).list conv).holds_of_field first, floats.holds_of_field second,
    floats.holds_of_field third⟩

theorem Solution.roundTrips (conv : F.Conventions) :
    RoundTrips (Solution.write F) (Solution.read F) Solution.IsFinite where
  read_write_iff := Solution.read_write_iff conv
  read_write_of_read _ s isRead :=
    (Solution.read_write_iff conv s s).2 ⟨Solution.isFinite_of_read conv isRead, rfl⟩

/-- Solutions and records are read from the same fields. -/
theorem Record.read_record_eq_ok_iff (conv : F.Conventions) {fields : List (String × Form)}
    (distinct : (fields.map Prod.fst).Nodup) {r : Record} :
    Record.read F (F.ofRecord fields) = .ok r ↔
      ∃ s, Solution.read F (F.ofRecord fields) = .ok s ∧ r = .ofSolution s := by
  have solution := conv.asRecord_ofRecord Solution.fieldNames fields distinct
  have record := conv.asRecord_ofRecord Record.fieldNames fields distinct
  have same {α : Type} {name : String} (member₁ : name ∈ Record.fieldNames)
      (member₂ : name ∈ Solution.fieldNames) {value : Form → Read α} {x : α} :
      (F.asRecord Record.fieldNames (F.ofRecord fields)).field name value = .ok x ↔
        (F.asRecord Solution.fieldNames (F.ofRecord fields)).field name value = .ok x := by
    rw [record.field_eq_ok_iff member₁, solution.field_eq_ok_iff member₂]
  rw [Record.read_eq_ok_iff, same (by decide) (by decide), same (by decide) (by decide),
    same (by decide) (by decide)]
  constructor
  · rintro ⟨first, second, third⟩
    exact ⟨⟨r.decisions, r.objectives, r.constraints⟩,
      Solution.read_eq_ok_iff.2 ⟨third, first, second⟩, rfl⟩
  · rintro ⟨s, isRead, rfl⟩
    obtain ⟨first, second, third⟩ := Solution.read_eq_ok_iff.1 isRead
    exact ⟨second, third, first⟩

/-- A list is read as a record in the order of a record, and as a solution in that of a solution. -/
theorem Record.read_items_eq_ok_iff (conv : F.Conventions)
    {decisions objectives constraints : Form} {r : Record} :
    Record.read F (F.ofItems [objectives, constraints, decisions]) = .ok r ↔
      ∃ s, Solution.read F (F.ofItems [decisions, objectives, constraints]) = .ok s ∧
        r = .ofSolution s := by
  simp only [Record.read_eq_ok_iff, Solution.read_eq_ok_iff, conv.asRecord_ofItems]
  constructor
  · rintro ⟨first, second, third⟩
    exact ⟨⟨r.decisions, r.objectives, r.constraints⟩, ⟨third, first, second⟩, rfl⟩
  · rintro ⟨s, ⟨first, second, third⟩, rfl⟩
    exact ⟨second, third, first⟩

def Record.IsFinite (r : Record) : Prop :=
  AreFinite r.decisions r.objectives r.constraints

theorem Record.isFinite_of_read (conv : F.Conventions) {j : Form} {r : Record}
    (isRead : Record.read F j = .ok r) : r.IsFinite := by
  obtain ⟨first, second, third⟩ := Record.read_eq_ok_iff.1 isRead
  have floats := conv.float.list conv
  exact ⟨((Variable.roundTrips conv).list conv).holds_of_field third, floats.holds_of_field first,
    floats.holds_of_field second⟩

theorem Record.read_write_iff (conv : F.Conventions) (r r' : Record) :
    Record.read F (Record.write F r) = .ok r' ↔ r.IsFinite ∧ r = r' := by
  have distinct : ((r.fields F).map Prod.fst).Nodup := show Record.fieldNames.Nodup by decide
  rw [Record.write, Record.read_record_eq_ok_iff conv distinct]
  constructor
  · rintro ⟨s, isRead, rfl⟩
    obtain ⟨finite, rfl⟩ := (Solution.read_record_eq_ok_iff conv distinct rfl rfl rfl).1 isRead
    exact ⟨finite, rfl⟩
  · rintro ⟨finite, rfl⟩
    exact ⟨_, (Solution.read_record_eq_ok_iff conv distinct rfl rfl rfl).2 ⟨finite, rfl⟩, rfl⟩

theorem Record.roundTrips (conv : F.Conventions) :
    RoundTrips (Record.write F) (Record.read F) Record.IsFinite where
  read_write_iff := Record.read_write_iff conv
  read_write_of_read _ r isRead :=
    (Record.read_write_iff conv r r).2 ⟨Record.isFinite_of_read conv isRead, rfl⟩

/-- A written solution is read as its record if its floats are finite, and not at all otherwise. -/
theorem Record.read_writeSolution_iff (conv : F.Conventions) (s : Solution) (r : Record) :
    Record.read F (Solution.write F s) = .ok r ↔ s.IsFinite ∧ r = .ofSolution s := by
  rw [Solution.write, Record.read_record_eq_ok_iff conv s.nodup_fields]
  constructor
  · rintro ⟨t, isRead, rfl⟩
    obtain ⟨finite, rfl⟩ := (Solution.read_write_iff conv s t).1 isRead
    exact ⟨finite, rfl⟩
  · rintro ⟨finite, rfl⟩
    exact ⟨s, (Solution.read_write_iff conv s s).2 ⟨finite, rfl⟩, rfl⟩

/-! ### Outcomes and counters -/

theorem Outcome.shows_added (conv : F.Conventions) (replaced : Form) :
    (F.asCaseRecord addedNames (F.ofRecord [("replaced", replaced)])).Shows addedNames
      [("replaced", replaced)] :=
  conv.asCaseRecord_ofRecord _ _ (show addedNames.Nodup by decide)

theorem Outcome.read_added_eq_ok_iff (conv : F.Conventions) {data : Form} {o : Outcome} :
    Outcome.read F (F.ofCase "Added" (some data)) = .ok o ↔
      ∃ n, (F.asCaseRecord addedNames data).field "replaced" F.asCount = .ok n ∧ .added n = o := by
  rw [Outcome.read, conv.asCase_ofCase]
  show (do
    let n ← (F.asCaseRecord addedNames data).field "replaced" F.asCount
    return Outcome.added n) = Except.ok o ↔ _
  simp only [bind_eq_ok_iff, pure_eq_ok_iff]

theorem Outcome.roundTrips (conv : F.Conventions) :
    RoundTrips (Outcome.write F) (Outcome.read F) fun o => IsCount o.replaced := by
  refine .of_holds ?_ ?_ ?_
  · intro o counts
    cases o with
    | rejected =>
      refine bind_eq_ok_iff.2 ⟨_, conv.asCase_ofCase _ none, ?_⟩
      exact bind_eq_ok_iff.2 ⟨_, conv.asNoData_none, rfl⟩
    | added n =>
      refine (Outcome.read_added_eq_ok_iff conv).2 ⟨n, ?_, rfl⟩
      exact conv.count.read_field (shows_added conv _) (by decide) rfl counts
  · intro o o' isRead
    cases o with
    | rejected => exact Nat.two_pow_pos 64
    | added n =>
      obtain ⟨_, isRead, -⟩ := (Outcome.read_added_eq_ok_iff conv).1 isRead
      exact ((conv.count.field_write_iff (shows_added conv _) (by decide) rfl).1 isRead).1
  · intro j o isRead
    obtain ⟨_, -, isRead⟩ := bind_eq_ok_iff.1 isRead
    split at isRead
    · obtain ⟨_, -, isRead⟩ := bind_eq_ok_iff.1 isRead
      obtain rfl := pure_eq_ok_iff.1 isRead
      exact Nat.two_pow_pos 64
    · simp only [bind_eq_ok_iff, pure_eq_ok_iff] at isRead
      obtain ⟨n, counted, rfl⟩ := isRead
      exact conv.count.holds_of_field counted
    · cases isRead

/-- The three counters are held in 64 bits. -/
structure Stats.AreCounts (s : Stats) : Prop where
  offered : IsCount s.offered
  improvements : IsCount s.improvements
  dominatingImprovements : IsCount s.dominatingImprovements

theorem Stats.read_eq_ok_iff {j : Form} {s : Stats} :
    Stats.read F j = .ok s ↔
      (F.asRecord fieldNames j).field "offered" F.asCount = .ok s.offered ∧
      (F.asRecord fieldNames j).field "improvements" F.asCount = .ok s.improvements ∧
      (F.asRecord fieldNames j).field "dominating_improvements" F.asCount =
        .ok s.dominatingImprovements := by
  simp only [Stats.read, bind_eq_ok_iff, pure_eq_ok_iff]
  constructor
  · rintro ⟨offered, first, improvements, second, dominating, third, rfl⟩
    exact ⟨first, second, third⟩
  · rintro ⟨first, second, third⟩
    exact ⟨_, first, _, second, _, third, rfl⟩

theorem Stats.roundTrips (conv : F.Conventions) :
    RoundTrips (Stats.write F) (Stats.read F) Stats.AreCounts := by
  have shown (s : Stats) := conv.asRecord_ofRecord fieldNames (s.fields F)
    (show fieldNames.Nodup by decide)
  refine .of_holds ?_ ?_ ?_
  · intro s counts
    refine Stats.read_eq_ok_iff.2 ⟨?_, ?_, ?_⟩
    · exact conv.count.read_field (shown s) (by decide) rfl counts.offered
    · exact conv.count.read_field (shown s) (by decide) rfl counts.improvements
    · exact conv.count.read_field (shown s) (by decide) rfl counts.dominatingImprovements
  · intro s s' isRead
    obtain ⟨first, second, third⟩ := Stats.read_eq_ok_iff.1 isRead
    exact ⟨((conv.count.field_write_iff (shown s) (by decide) rfl).1 first).1,
      ((conv.count.field_write_iff (shown s) (by decide) rfl).1 second).1,
      ((conv.count.field_write_iff (shown s) (by decide) rfl).1 third).1⟩
  · intro j s isRead
    obtain ⟨first, second, third⟩ := Stats.read_eq_ok_iff.1 isRead
    exact ⟨conv.count.holds_of_field first, conv.count.holds_of_field second,
      conv.count.holds_of_field third⟩

/-! ### All of it -/

/-- Whatever is written is read back, a list of numbers stands for epsilons only if it is made of
epsilons, and a written solution is read as its record where its floats are finite. -/
theorem roundTrips_json (conv : F.Conventions) :
    RoundTrips (Epsilons.write F) (Epsilons.read F) (fun _ => True) ∧
    RoundTrips (CriterionKind.write F) (CriterionKind.read F) (fun _ => True) ∧
    RoundTrips (Config.write F) (Config.read F) (fun c => c.duplicateTolerance.isFinite = true) ∧
    RoundTrips (Variable.write F) (Variable.read F) Variable.IsFinite ∧
    RoundTrips (Solution.write F) (Solution.read F) Solution.IsFinite ∧
    RoundTrips (Record.write F) (Record.read F) Record.IsFinite ∧
    RoundTrips (Outcome.write F) (Outcome.read F) (fun o => IsCount o.replaced) ∧
    RoundTrips (Stats.write F) (Stats.read F) Stats.AreCounts ∧
    (∀ l items values, F.asItems l = .ok items → items.mapM F.asFloat = .ok values →
      (∀ ε, Epsilons.read F l = .ok ε ↔ Epsilons.ofList values = .ok ε) ∧
      ∀ j dominance tolerance, Config.Gives F j l dominance tolerance →
        ∀ c, Config.read F j = .ok c ↔
          ∃ ε, Epsilons.ofList values = .ok ε ∧ ⟨dominance, some ε, tolerance⟩ = c) ∧
    (∀ s r, Record.read F (Solution.write F s) = .ok r ↔ s.IsFinite ∧ r = .ofSolution s) ∧
    (∀ fields r, (fields.map Prod.fst).Nodup →
      (Record.read F (F.ofRecord fields) = .ok r ↔
        ∃ s, Solution.read F (F.ofRecord fields) = .ok s ∧ r = .ofSolution s)) ∧
    ∀ decisions objectives constraints r,
      Record.read F (F.ofItems [objectives, constraints, decisions]) = .ok r ↔
        ∃ s, Solution.read F (F.ofItems [decisions, objectives, constraints]) = .ok s ∧
          r = .ofSolution s := by
  refine ⟨Epsilons.roundTrips conv, CriterionKind.roundTrips conv, Config.roundTrips conv,
    Variable.roundTrips conv, Solution.roundTrips conv, Record.roundTrips conv,
    Outcome.roundTrips conv, Stats.roundTrips conv, ?_, Record.read_writeSolution_iff conv, ?_, ?_⟩
  · intro l items values isList numbers
    refine ⟨fun ε => Epsilons.read_iff_of_numbers isList numbers, ?_⟩
    exact fun j dominance tolerance given c => given.read_iff conv isList numbers
  · exact fun fields r distinct => Record.read_record_eq_ok_iff conv distinct
  · exact fun decisions objectives constraints r => Record.read_items_eq_ok_iff conv

/-- A solution with variables of each kind, numbers at the ends of their ranges and a negative
zero. -/
def variedSolution : Solution :=
  ⟨[.real 0.5 (-1) 1, .integer (-9223372036854775808) (-9223372036854775808) 9223372036854775807,
      .permutation [1, 0], .subset [18446744073709551615] 18446744073709551615 0 1,
      .binary [true, false]],
    [1.5, -0.0], [0]⟩

theorem roundTrips_json_variedSolution :
    Json.textFormat.Conventions ∧
    Solution.read Json.textFormat (Solution.write Json.textFormat variedSolution) =
      .ok variedSolution ∧
    Record.read Json.textFormat (Solution.write Json.textFormat variedSolution) =
      .ok (.ofSolution variedSolution) ∧
    (∃ v, Variable.read Json.textFormat
        (.record [("Real", .list [.real 0.5, .int 0, .int 1])]) = .ok v ∧
      Variable.read Json.textFormat (Variable.write Json.textFormat v) = .ok v) ∧
    (∃ c, Config.read Json.textFormat (.list [.null, .list [.int 1, .real 0.5]]) = .ok c) ∧
    ∀ c, Config.read Json.textFormat
      (.record [("seed", .int 7), ("epsilons", .list [.int 1, .int 0])]) ≠ .ok c := by
  obtain ⟨-, -, -, single, solutions, -, -, -, numbers, records, -⟩ :=
    roundTrips_json Json.textFormat_conventions
  have decisions : ∀ v ∈ variedSolution.decisions, v.IsFinite := by
    simp only [variedSolution, List.forall_mem_cons]
    exact ⟨⟨rfl, rfl, rfl⟩, trivial, trivial, trivial, trivial, List.forall_mem_nil _⟩
  have finite : variedSolution.IsFinite := ⟨decisions, by decide +kernel, by decide +kernel⟩
  refine ⟨Json.textFormat_conventions, (solutions.read_write_iff _ _).2 ⟨finite, rfl⟩,
    (records _ _).2 ⟨finite, rfl⟩, ⟨.real 0.5 0 1, rfl, ?_⟩, ?_, ?_⟩
  · exact single.read_write_of_read (.record [("Real", .list [.real 0.5, .int 0, .int 1])]) _ rfl
  · have accepted := (numbers (.list [.int 1, .real 0.5]) _ [1, 0.5] rfl rfl).2
      (.list [.null, .list [.int 1, .real 0.5]]) none defaultTolerance ⟨rfl, rfl, rfl, rfl⟩
    exact ⟨_, (accepted _).2 ⟨⟨[1, 0.5], by decide, by decide +kernel⟩, rfl, rfl⟩⟩
  · intro c isRead
    obtain ⟨ε, made, -⟩ := ((numbers (.list [.int 1, .int 0]) _ [1, 0] rfl rfl).2
      (.record [("seed", .int 7), ("epsilons", .list [.int 1, .int 0])]) none defaultTolerance
      ⟨rfl, rfl, rfl, rfl⟩ c).1 isRead
    have refused : Epsilons.ofList [1, 0] = .error (.invalidEpsilon 1 0) := rfl
    cases made.symm.trans refused

/-- An infinite objective is written as `null`, which is not read as a number again. -/
theorem Record.read_infiniteObjective :
    Json.textFormat.Conventions ∧
      Record.read Json.textFormat (Solution.write Json.textFormat (.ofObjectives [1 / 0])) =
        .error .malformed ∧
      Json.valueFormat.Conventions ∧
      Record.read Json.valueFormat (Solution.write Json.valueFormat (.ofObjectives [1 / 0])) =
        .error .malformed :=
  ⟨Json.textFormat_conventions, rfl, Json.valueFormat_conventions, rfl⟩

end ParetoFront
