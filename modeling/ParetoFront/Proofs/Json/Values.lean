import ParetoFront.Json.Basic
import ParetoFront.Proofs.Number.Rounding

/-!
# JSON values keep the conventions

## Main statements

- `Json.textFormat_conventions`, `Json.valueFormat_conventions` — both formats of JSON values are
  formats in which the library can be written and read
-/

namespace ParetoFront

namespace Json

theorem asUInt64_int_iff {n : Int} {i : UInt64} : asUInt64 (int n) = .ok i ↔ n = i.toNat := by
  rw [asUInt64]
  by_cases word : 0 ≤ n ∧ n < 0x10000000000000000
  · rw [if_pos word, Except.ok.injEq]
    constructor
    · rintro rfl
      rw [UInt64.toNat_ofNat_of_lt' (by omega : n.toNat < 2 ^ 64), Int.toNat_of_nonneg word.1]
    · rintro rfl
      exact UInt64.ofNat_toNat
  · rw [if_neg word]
    refine iff_of_false (fun h => by cases h) fun same => word ?_
    have := i.toNat_lt
    omega

theorem asInt64_int_iff {n : Int} {i : Int64} : asInt64 (int n) = .ok i ↔ n = i.toInt := by
  have least := i.le_toInt
  have greatest := i.toInt_lt
  rw [asInt64, Number.minInt64, Number.maxInt64]
  by_cases word : -9223372036854775808 ≤ n ∧ n ≤ 9223372036854775807
  · rw [if_pos word, Except.ok.injEq]
    constructor
    · rintro rfl
      exact (Int64.toInt_ofInt_of_le (by omega) (by omega)).symm
    · rintro rfl
      exact Int64.ofInt_toInt i
  · rw [if_neg word]
    refine iff_of_false (fun h => by cases h) fun same => word ?_
    omega

theorem isFinite_of_asFloat {j : Json} {x : Float} (isRead : j.asFloat = .ok x) :
    x.isFinite = true := by
  cases j with
  | int n =>
    rw [asFloat] at isRead
    by_cases word : isWord n = true
    · rw [if_pos word] at isRead
      rw [isWord, Bool.and_eq_true, decide_eq_true_eq, decide_eq_true_eq, Number.minInt64] at word
      exact Except.ok.inj isRead ▸ Number.isFinite_ofInt (by omega)
    · rw [if_neg word] at isRead
      cases isRead
  | real y =>
    rw [asFloat] at isRead
    by_cases finite : y.isFinite = true
    · rw [if_pos finite] at isRead
      exact Except.ok.inj isRead ▸ finite
    · rw [if_neg finite] at isRead
      cases isRead
  | _ => cases isRead

theorem lookup_namedFields {names : List String} {name : String} (member : name ∈ names)
    (fields : List (String × Json)) :
    (namedFields names fields).lookup name = fields.lookup name := by
  rw [namedFields]
  induction fields with
  | nil => rfl
  | cons field fields ih =>
    obtain ⟨own, v⟩ := field
    by_cases same : name = own
    · subst same
      rw [List.filter_cons, if_pos (List.contains_iff_mem.2 member), List.lookup_cons_self,
        List.lookup_cons_self]
    · have other : (name == own) = false := beq_eq_false_iff_ne.2 same
      rw [List.filter_cons]
      split
      · rw [List.lookup_cons, List.lookup_cons, other, ih]
      · rw [List.lookup_cons, other, ih]

theorem asRecord_record_shows {names : List String} {fields : List (String × Json)}
    (distinct : (fields.map Prod.fst).Nodup) :
    (asRecord names (record fields)).Shows names fields where
  complete := decide_eq_true ((List.filter_sublist.map Prod.fst).nodup distinct)
  lookup _ member := lookup_namedFields member fields

theorem map_fst_zip_sublist (names : List String) (items : List Json) :
    ((names.zip items).map Prod.fst).Sublist names := by
  induction names generalizing items with
  | nil => exact .slnil
  | cons name names ih =>
    cases items with
    | nil => exact List.nil_sublist _
    | cons item items => exact (ih items).cons_cons name

theorem nodup_asRecord {names : List String} (distinct : names.Nodup) {j : Json}
    (complete : (asRecord names j).complete = true) :
    ((asRecord names j).fields.map Prod.fst).Nodup := by
  cases j with
  | record fields => exact of_decide_eq_true complete
  | list items => exact (map_fst_zip_sublist names items).nodup distinct
  | _ => cases complete

theorem textFormat_conventions : textFormat.Conventions where
  isNull_null := rfl
  asBool_ofBool _ := rfl
  asUInt64_ofInt_iff _ _ := asUInt64_int_iff
  asInt64_ofInt_iff _ _ := asInt64_int_iff
  asFloat_ofFloat x finite := by
    show (ofFloat x).asFloat = .ok x
    rw [ofFloat, if_pos finite, asFloat, if_pos finite]
  ofFloat_eq_null x infinite := if_neg (Bool.eq_false_iff.1 infinite)
  isFinite_of_asFloat _ _ := isFinite_of_asFloat
  asFloat_of_isNull j missing := by
    cases j with
    | null => rfl
    | _ => cases missing
  asItems_of_isNull j missing := by
    cases j with
    | null => rfl
    | _ => cases missing
  asCase_of_isNull j missing := by
    cases j with
    | null => rfl
    | _ => cases missing
  asItems_ofItems _ := rfl
  asRecord_ofRecord _ _ := asRecord_record_shows
  asRecord_ofItems _ _ := rfl
  nodup_asRecord _ _ distinct := nodup_asRecord distinct
  asCase_ofCase _ data := by
    cases data <;> rfl
  asNoData_none := rfl
  asCaseRecord_ofRecord _ _ := asRecord_record_shows

theorem valueFormat_conventions : valueFormat.Conventions where
  __ := textFormat_conventions
  asCaseRecord_ofRecord _ _ := asRecord_record_shows

end Json

end ParetoFront
