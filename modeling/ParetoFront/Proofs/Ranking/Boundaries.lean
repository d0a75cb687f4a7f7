import ParetoFront.Proofs.Number.Arithmetic
import ParetoFront.Proofs.Number.Positive
import ParetoFront.Proofs.Ranking.ClosedForm

/-!
# Distances of boundary members

In a front of finite objective values every objective adds something that is at least zero to a
distance, and infinity to the boundary members, with one exception: where the gap around a member
and the whole range both overflow, their quotient is undefined, and so is the distance from then on,
also that of a member which is a boundary member in another objective.

## Main definitions

- `Overflows` — a gap and a range that are both infinite
- `IsBoundary` — an extreme value among values that differ
- `IsSound` — what is known of a distance after some objectives

## Main statements

- `IsSound.withGap` — one more objective
- `frontCrowding_sound` — the distances of a front
- `crowding_overflow` — a boundary member with an undefined distance
-/

namespace ParetoFront

open Number

/-! ### One objective -/

/-- The neighbours of a value are infinitely far apart, and the extreme values are as well. -/
structure Overflows (column : List Float) (v : Float) : Prop where
  gap : ∃ p n, nextBelow column v = some p ∧ nextAbove column v = some n ∧ n - p = infinite
  range : rangeOfValues column = infinite

/-- The first or the last value of a column, in the total order, when not all values are numerically
equal. -/
structure IsBoundary (column : List Float) (v : Float) : Prop where
  extreme : least column = some v ∨ greatest column = some v
  varied : ∃ x ∈ column, ∃ y ∈ column, (x == y) = false

variable {column : List Float} {v d : Float}

/-- A range that is not above zero is zero, below zero or undefined. -/
theorem skips_iff (range : Float) : (range.isNaN || range ≤ 0) = true ↔ ¬0 < range := by
  rw [Bool.or_eq_true, decide_eq_true_eq]
  cases undefined : range.isNaN with
  | false => rw [not_lt_iff rfl undefined, or_iff_right Bool.false_ne_true]
  | true => exact iff_of_true (.inl rfl) fun less =>
    ne_true_of_eq_false (lt_iff.1 less).1.2 undefined

/-- An objective counts when its range is above zero. -/
theorem withGap_eq (column : List Float) (v d : Float) :
    withGap column v d = if 0 < rangeOfValues column then d + gapAround column v else d := by
  rw [withGap]
  by_cases counts : 0 < rangeOfValues column
  · rw [if_pos counts, if_neg fun skipped => (skips_iff _).1 skipped counts]
  · rw [if_neg counts, if_pos ((skips_iff _).2 counts)]

section Finite

variable (finite : ∀ x ∈ column, x.isFinite = true)
include finite

/-- Values that are not all numerically equal have a range above zero. -/
theorem range_pos_of_isBoundary (boundary : IsBoundary column v) : 0 < rangeOfValues column := by
  obtain ⟨x, inX, y, inY, differ⟩ := boundary.varied
  obtain ⟨smallest, isLeast⟩ := exists_least inX
  obtain ⟨largest, isGreatest⟩ := exists_greatest inX
  obtain ⟨inSmallest, first⟩ := least_eq_some_iff.1 isLeast
  obtain ⟨inLargest, last⟩ := greatest_eq_some_iff.1 isGreatest
  have different : units x ≠ units y := by
    rw [← Bool.not_eq_true, beq_iff_units (not_isNaN_of_isFinite (finite x inX))
      (not_isNaN_of_isFinite (finite y inY))] at differ
    exact differ
  have bounds {z : Float} (inZ : z ∈ column) : units smallest ≤ units z ∧ units z ≤ units largest :=
    ⟨units_le_of_totalKey_le ⟨finite _ inSmallest, finite z inZ⟩ (first z inZ),
      units_le_of_totalKey_le ⟨finite z inZ, finite _ inLargest⟩ (last z inZ)⟩
  have range : rangeOfValues column = largest - smallest := by
    rw [rangeOfValues, isLeast, isGreatest]
  rw [range]
  refine sub_pos ⟨finite _ inLargest, finite _ inSmallest⟩ ?_
  have := bounds inX
  have := bounds inY
  omega

/-- The neighbours of a value are in ascending order. -/
theorem gap_nonneg {p n : Float} (below : nextBelow column v = some p)
    (above : nextAbove column v = some n) : 0 ≤ n - p := by
  obtain ⟨inP, lessP⟩ := nextBelow_eq_some below
  obtain ⟨inN, lessN⟩ := nextAbove_eq_some above
  have ascending := units_le_of_totalKey_le ⟨finite p inP, finite n inN⟩
    (Int.le_of_lt (Int.lt_trans lessP lessN))
  exact sub_nonneg ⟨finite n inN, finite p inP⟩ ascending

/-- A share of a range above zero is at least zero, unless it is undefined. -/
theorem gapAround_nonneg (counts : 0 < rangeOfValues column) (bounded : ¬Overflows column v) :
    0 ≤ gapAround column v := by
  rw [gapAround]
  cases below : nextBelow column v with
  | none => exact nonneg_infinite
  | some p =>
    cases above : nextAbove column v with
    | none => exact nonneg_infinite
    | some n =>
      have gap := gap_nonneg finite below above
      exact div_nonneg gap counts fun both => bounded ⟨⟨p, n, below, above, both.1⟩, both.2⟩

end Finite

theorem isNaN_gapAround (overflows : Overflows column v) : (gapAround column v).isNaN = true := by
  obtain ⟨⟨p, n, below, above, gap⟩, range⟩ := overflows
  rw [gapAround, below, above]
  simp only [gap, range]
  exact isNaN_infinite_div_infinite

/-! ### All objectives -/

/-- A distance after some objectives: it is undefined where one of them overflowed, and otherwise it
is at least zero, and infinite at the boundary of one of them. -/
structure IsSound (overflowed boundary : Prop) (d : Float) : Prop where
  isNaN_iff : d.isNaN = true ↔ overflowed
  nonneg : d.isNaN = false → 0 ≤ d
  eq_infinite : d.isNaN = false → boundary → d = infinite

theorem IsSound.withGap {overflowed boundary : Prop} (h : IsSound overflowed boundary d)
    (finite : ∀ x ∈ column, x.isFinite = true) (v : Float) :
    IsSound (overflowed ∨ Overflows column v) (boundary ∨ IsBoundary column v)
      (withGap column v d) := by
  rw [withGap_eq]
  by_cases counts : 0 < rangeOfValues column
  · rw [if_pos counts]
    by_cases undefined : d.isNaN = true
    · have sum := isNaN_add_of_left undefined (gapAround column v)
      refine ⟨iff_of_true sum (.inl (h.isNaN_iff.1 undefined)), fun number => ?_, fun number => ?_⟩
      · cases sum.symm.trans number
      · cases sum.symm.trans number
    · by_cases overflows : Overflows column v
      · have sum := isNaN_add_of_right (isNaN_gapAround overflows) d
        refine ⟨iff_of_true sum (.inr overflows), fun number => ?_, fun number => ?_⟩
        · cases sum.symm.trans number
        · cases sum.symm.trans number
      · have before := h.nonneg (eq_false_of_ne_true undefined)
        have share := gapAround_nonneg finite counts overflows
        have sum := add_nonneg before share
        refine ⟨iff_of_false ?_ ?_, fun _ => sum, ?_⟩
        · exact ne_true_of_eq_false (isNaN_of_nonneg sum)
        · exact not_or.2 ⟨fun o => undefined (h.isNaN_iff.2 o), overflows⟩
        · rintro - (atBoundary | atBoundary)
          · rw [h.eq_infinite (eq_false_of_ne_true undefined) atBoundary, infinite_add share]
          · rw [gapAround_of_extreme atBoundary.extreme, add_infinite before]
  · rw [if_neg counts]
    -- an objective that is skipped neither overflows nor has boundary members
    have fits : ¬Overflows column v := fun overflows => counts (overflows.range ▸ by decide)
    have inner : ¬IsBoundary column v := fun atBoundary =>
      counts (range_pos_of_isBoundary finite atBoundary)
    rw [or_iff_left fits, or_iff_left inner]
    exact h

variable {pool members : List Solution} {front : List Nat} {w : Widths}

theorem finite_columnAt (finite : ∀ s ∈ members, ∀ x ∈ s.objectives, x.isFinite = true) (j : Nat) :
    ∀ x ∈ columnAt members j, x.isFinite = true := by
  intro x inColumn
  obtain ⟨t, member, atJ⟩ := List.mem_filterMap.1 inColumn
  exact finite t member x (List.mem_of_getElem? atJ)

/-- The distance of a solution after the objectives at some places. -/
theorem isSound_foldl (finite : ∀ s ∈ members, ∀ x ∈ s.objectives, x.isFinite = true)
    (s : Solution) (places : List Nat) :
    IsSound
      (∃ j ∈ places, ∃ v, s.objectives[j]? = some v ∧ Overflows (columnAt members j) v)
      (∃ j ∈ places, ∃ v, s.objectives[j]? = some v ∧ IsBoundary (columnAt members j) v)
      (places.foldl (withObjective members s) 0) := by
  induction places using List.reverseRecOn with
  | nil =>
    show IsSound _ _ (0 : Float)
    exact ⟨iff_of_false (by decide) (by simp), fun _ => by decide, fun _ h => by simp at h⟩
  | append_singleton places j ih =>
    rw [List.foldl_concat, withObjective]
    have exists_concat {property : Nat → Prop} :
        (∃ i ∈ places ++ [j], property i) ↔ (∃ i ∈ places, property i) ∨ property j := by
      simp only [List.mem_append, List.mem_singleton, or_and_right, exists_or, exists_eq_left]
    rw [exists_concat, exists_concat]
    cases value : s.objectives[j]? with
    | none => simpa using ih
    | some v =>
      simp only [Option.some.injEq, exists_eq_left']
      exact ih.withGap (finite_columnAt finite j) v

/-- The distances of a front of three or more members with finite objective values. A distance is
undefined exactly where the gap around the member and the range of the objective overflow. Any other
distance is at least zero, and infinite for a member with an extreme value of an objective in which
the members differ. -/
theorem frontCrowding_sound (inside : ∀ i ∈ front, i < pool.length)
    (accepted : commonWidths (membersAt pool front) = .ok w) (several : 3 ≤ front.length)
    (finite : ∀ s ∈ membersAt pool front, ∀ x ∈ s.objectives, x.isFinite = true) :
    ∃ distances, frontCrowding pool front = .ok distances ∧ distances.length = front.length ∧
      (front = List.range pool.length → crowding pool = .ok distances) ∧
      ∀ (k i : Nat) (s : Solution) (d : Float),
        front[k]? = some i → pool[i]? = some s → distances[k]? = some d →
        let column := columnAt (membersAt pool front)
        (d.isNaN = true ↔ ∃ j v, s.objectives[j]? = some v ∧ Overflows (column j) v) ∧
          (d.isNaN = false → 0 ≤ d ∧
            ((∃ j v, s.objectives[j]? = some v ∧ IsBoundary (column j) v) → d = infinite)) := by
  have length : (membersAt pool front).length = front.length := length_filterMap_getElem? inside
  refine ⟨_, frontCrowding_eq_map inside accepted, by rw [List.length_map, length], ?_, ?_⟩
  · rintro rfl
    exact frontCrowding_eq_map inside accepted
  · intro k i s d atK atI distance column
    have memberAt : (membersAt pool front)[k]? = some s := by
      rw [getElem?_membersAt inside, atK]
      exact atI
    have wide : s.objectives.length = w.objectives := congrArg Widths.objectives
      (widths_eq_of_commonWidths accepted (List.mem_of_getElem? memberAt))
    have isDistance : (List.range w.objectives).foldl (withObjective (membersAt pool front) s) 0 =
        d := by
      rw [List.getElem?_map, memberAt] at distance
      have some := Option.some.inj distance
      rwa [distanceAmong, if_neg (by omega)] at some
    have sound := isSound_foldl finite s (List.range w.objectives)
    rw [isDistance] at sound
    -- the objectives of the member are those that were counted
    have exists_objective {property : Nat → Float → Prop} :
        (∃ j ∈ List.range w.objectives, ∃ v, s.objectives[j]? = some v ∧ property j v) ↔
          ∃ j v, s.objectives[j]? = some v ∧ property j v := by
      constructor
      · rintro ⟨j, -, found⟩
        exact ⟨j, found⟩
      · rintro ⟨j, v, value, holds⟩
        have within := (List.getElem?_eq_some_iff.1 value).1
        exact ⟨j, List.mem_range.2 (wide ▸ within), v, value, holds⟩
    rw [exists_objective, exists_objective] at sound
    exact ⟨sound.isNaN_iff, fun number => ⟨sound.nonneg number, sound.eq_infinite number⟩⟩

/-- Two members far apart, and one between them that is greatest in the second objective. -/
def farApart : List Solution :=
  [.ofObjectives [-1.7e308, 0], .ofObjectives [0, 1], .ofObjectives [1.7e308, 0]]

/-- The member in the middle is a boundary member, and its distance is undefined. -/
theorem crowding_overflow :
    crowding farApart = .ok [infinite, 0 / 0, infinite] ∧ (0 / 0 : Float).isNaN = true ∧
      (∀ s ∈ farApart, ∀ x ∈ s.objectives, x.isFinite = true) ∧
      greatest (columnAt farApart 1) = some 1 ∧ least (columnAt farApart 1) = some 0 := by
  decide +kernel

theorem frontCrowding_sound_farApart :
    frontCrowding farApart [2, 1, 0] = .ok [infinite, 0 / 0, infinite] ∧
      (∃ j v, [(0 : Float), 1][j]? = some v ∧
        Overflows (columnAt (membersAt farApart [2, 1, 0]) j) v) ∧
      ∃ d, [infinite, 0 / 0, infinite][2]? = some d ∧ 0 ≤ d := by
  have finite : ∀ s ∈ membersAt farApart [2, 1, 0], ∀ x ∈ s.objectives, x.isFinite = true := by
    decide +kernel
  obtain ⟨distances, isOk, -, -, sound⟩ := @frontCrowding_sound farApart [2, 1, 0] ⟨2, 0⟩
    (by decide) rfl (by decide) finite
  have value : frontCrowding farApart [2, 1, 0] = .ok [infinite, 0 / 0, infinite] := by
    decide +kernel
  obtain rfl := Except.ok.inj (isOk.symm.trans value)
  obtain ⟨middle, -⟩ := sound 1 1 (.ofObjectives [0, 1]) (0 / 0) rfl rfl rfl
  obtain ⟨-, last⟩ := sound 2 0 (.ofObjectives [-1.7e308, 0]) infinite rfl rfl rfl
  exact ⟨value, middle.1 (by decide), infinite, rfl, (last (by decide)).1⟩

end ParetoFront
