import ParetoFront.Proofs.Dominance.Lexicographic
import ParetoFront.Proofs.Number.Monotone
import ParetoFront.Proofs.Ranking.Boundaries
import ParetoFront.Proofs.Ranking.Shares

/-!
# Members with equal values

The distances of a front are found with runs of equal values in the total order, which tells the two
zeros apart, while numerical equality does not. Members that share a value have the same share of
the objective, and those at the least or greatest value have an infinite one. This holds of
numerically equal values as well, unless both zeros occur: of two members with a zero at the end of
the range, one with the positive and one with the negative zero, only one has an infinite share.

## Main definitions

- `sharesAt` — what one objective adds to the distance of a member
- `EqualValues` — members that are alike in all objectives that count

## Main statements

- `gapAround_eq_infinite_iff` — only the extreme values in the total order have an infinite share
- `least_eq_iff`, `greatest_eq_iff` — numerically extreme values that are extreme in the total order
- `frontCrowding_ties` — the distances of a front
- `crowding_zeros` — members at the two zeros
-/

namespace ParetoFront

open Number

variable {column : List Float} {v x y : Float} {k : Nat}

/-! ### Shares -/

/-- What one objective adds to the distance of the member at a position. -/
def sharesAt (column : List Float) (k : Nat) : List Float :=
  ((columnShares column).filter fun placed => placed.2 = k).map Prod.fst

theorem filter_zipIdx (here : column[k]? = some v) (i : Nat) :
    (column.zipIdx i).filter (fun placed => placed.2 = i + k) = [(v, i + k)] := by
  induction column generalizing i k with
  | nil => cases here
  | cons x xs ih =>
    rw [List.zipIdx_cons, List.filter_cons]
    cases k with
    | zero =>
      obtain rfl : x = v := Option.some.inj here
      have later : (xs.zipIdx (i + 1)).filter (fun placed => placed.2 = i + 0) = [] := by
        refine List.filter_eq_nil_iff.2 fun placed member => ?_
        have := List.le_snd_of_mem_zipIdx member
        simp only [decide_eq_true_iff]
        omega
      rw [if_pos (by simp), later]
      rfl
    | succ k =>
      have next := ih (List.getElem?_cons_succ ▸ here) (i + 1)
      rw [if_neg (by simp), show i + (k + 1) = i + 1 + k by omega, next]

/-- A member has one share in an objective that counts. -/
theorem sharesAt_eq (here : column[k]? = some v) :
    sharesAt column k = if 0 < rangeOfValues column then [gapAround column v] else [] := by
  rw [sharesAt, columnShares_eq]
  by_cases counts : 0 < rangeOfValues column
  · have only : (sortedValues column).filter (fun placed => placed.2 = k) = [(v, k)] := by
      have alone := filter_zipIdx here 0
      rw [Nat.zero_add] at alone
      refine List.perm_singleton.1 (alone ▸ (sortedValues_perm column).filter _)
    rw [if_pos counts, if_neg fun skipped => (skips_iff _).1 skipped counts, List.filter_map]
    change (((sortedValues column).filter fun placed => placed.2 = k).map _).map Prod.fst = _
    rw [only]
    rfl
  · rw [if_neg counts, if_pos ((skips_iff _).2 counts)]
    rfl

/-- The neighbours of a value lie within the range. -/
theorem gap_le_range (finite : ∀ x ∈ column, x.isFinite = true)
    (below : nextBelow column v = some x) (above : nextAbove column v = some y) :
    y - x ≤ rangeOfValues column := by
  obtain ⟨inX, -⟩ := nextBelow_eq_some below
  obtain ⟨inY, -⟩ := nextAbove_eq_some above
  obtain ⟨smallest, isLeast⟩ := exists_least inX
  obtain ⟨largest, isGreatest⟩ := exists_greatest inY
  obtain ⟨inSmallest, first⟩ := least_eq_some_iff.1 isLeast
  obtain ⟨inLargest, last⟩ := greatest_eq_some_iff.1 isGreatest
  have lower := units_le_of_totalKey_le ⟨finite _ inSmallest, finite x inX⟩ (first x inX)
  have upper := units_le_of_totalKey_le ⟨finite y inY, finite _ inLargest⟩ (last y inY)
  rw [rangeOfValues, isLeast, isGreatest]
  exact sub_mono ⟨finite y inY, finite x inX⟩ ⟨finite _ inLargest, finite _ inSmallest⟩ (by omega)

/-- The share is infinite at the extreme values only. -/
theorem gapAround_eq_infinite_iff (finite : ∀ x ∈ column, x.isFinite = true)
    (counts : 0 < rangeOfValues column) (member : v ∈ column) :
    gapAround column v = infinite ↔ least column = some v ∨ greatest column = some v := by
  refine ⟨fun isInfinite => ?_, gapAround_of_extreme⟩
  obtain ⟨smallest, first⟩ := exists_least member
  obtain ⟨largest, last⟩ := exists_greatest member
  by_contra inner
  obtain ⟨notLeast, notGreatest⟩ := not_or.1 inner
  obtain ⟨pred, below⟩ := exists_nextBelow first member fun same => notLeast (same ▸ first)
  obtain ⟨succ, above⟩ := exists_nextAbove last member fun same => notGreatest (same ▸ last)
  rw [gapAround, below, above] at isInfinite
  exact div_ne_infinite (gap_nonneg finite below above) (gap_le_range finite below above) counts
    isInfinite

/-! ### Extreme values -/

section Extremes

variable (finite : ∀ x ∈ column, x.isFinite = true) (member : v ∈ column)
include finite member

/-- A numerically least value is the first one in the total order, unless it is the positive zero
and there is a negative one. -/
theorem least_eq_iff (smallest : ∀ x ∈ column, v ≤ x) :
    least column = some v ↔ ¬(v = 0 ∧ -0.0 ∈ column) := by
  obtain ⟨first, isFirst⟩ := exists_least member
  obtain ⟨inFirst, before⟩ := least_eq_some_iff.1 isFirst
  have same : units v = units first := by
    refine Int.le_antisymm (le_iff.1 (smallest first inFirst)).2 ?_
    exact units_le_of_totalKey_le ⟨finite first inFirst, finite v member⟩ (before v member)
  constructor
  · rintro isLeast ⟨rfl, inNegative⟩
    have := (least_eq_some_iff.1 isLeast).2 _ inNegative
    have := totalKey_negZero_lt
    omega
  · intro apart
    obtain rfl | ⟨rfl, rfl⟩ | ⟨rfl, rfl⟩ :=
      eq_or_oppositeZeros ⟨finite v member, finite first inFirst⟩ same
    · exact isFirst
    · exact absurd ⟨rfl, inFirst⟩ apart
    · have := before _ member
      have := totalKey_negZero_lt
      omega

/-- A numerically greatest value is the last one in the total order, unless it is the negative zero
and there is a positive one. -/
theorem greatest_eq_iff (largest : ∀ x ∈ column, x ≤ v) :
    greatest column = some v ↔ ¬(v = -0.0 ∧ 0 ∈ column) := by
  obtain ⟨last, isLast⟩ := exists_greatest member
  obtain ⟨inLast, after⟩ := greatest_eq_some_iff.1 isLast
  have same : units v = units last := by
    refine Int.le_antisymm ?_ (le_iff.1 (largest last inLast)).2
    exact units_le_of_totalKey_le ⟨finite v member, finite last inLast⟩ (after v member)
  constructor
  · rintro isGreatest ⟨rfl, inPositive⟩
    have := (greatest_eq_some_iff.1 isGreatest).2 _ inPositive
    have := totalKey_negZero_lt
    omega
  · intro apart
    obtain rfl | ⟨rfl, rfl⟩ | ⟨rfl, rfl⟩ :=
      eq_or_oppositeZeros ⟨finite v member, finite last inLast⟩ same
    · exact isLast
    · have := after _ member
      have := totalKey_negZero_lt
      omega
    · exact absurd ⟨rfl, inLast⟩ apart

omit member in
/-- In an objective that counts there are values that are numerically different. -/
theorem exists_units_lt (counts : 0 < rangeOfValues column) :
    ∃ smallest largest, least column = some smallest ∧ greatest column = some largest ∧
      units smallest < units largest := by
  have skipped : ¬(0 : Float) < 0 := by decide
  rw [rangeOfValues] at counts
  cases first : least column with
  | none =>
    rw [first] at counts
    exact absurd counts skipped
  | some smallest =>
    cases last : greatest column with
    | none =>
      rw [first, last] at counts
      exact absurd counts skipped
    | some largest =>
      rw [first, last] at counts
      have inside := And.intro (finite _ (greatest_eq_some_iff.1 last).1)
        (finite _ (least_eq_some_iff.1 first).1)
      exact ⟨smallest, largest, rfl, rfl, (sub_pos_iff inside).1 counts⟩

variable (here : column[k]? = some v) (counts : 0 < rangeOfValues column)
include here counts

theorem sharesAt_eq_infinite_iff :
    sharesAt column k = [infinite] ↔ least column = some v ∨ greatest column = some v := by
  rw [sharesAt_eq here, if_pos counts, List.singleton_inj,
    gapAround_eq_infinite_iff finite counts member]

/-- The share of a member with a numerically least value. -/
theorem sharesAt_of_smallest (smallest : ∀ x ∈ column, v ≤ x) :
    sharesAt column k = [infinite] ↔ ¬(v = 0 ∧ -0.0 ∈ column) := by
  rw [sharesAt_eq_infinite_iff finite member here counts, ← least_eq_iff finite member smallest]
  refine or_iff_left fun isGreatest => ?_
  obtain ⟨first, last, isFirst, isLast, less⟩ := exists_units_lt finite counts
  obtain rfl := Option.some.inj (isLast.symm.trans isGreatest)
  have := (le_iff.1 (smallest first (least_eq_some_iff.1 isFirst).1)).2
  omega

/-- The share of a member with a numerically greatest value. -/
theorem sharesAt_of_largest (largest : ∀ x ∈ column, x ≤ v) :
    sharesAt column k = [infinite] ↔ ¬(v = -0.0 ∧ 0 ∈ column) := by
  rw [sharesAt_eq_infinite_iff finite member here counts, ← greatest_eq_iff finite member largest]
  refine or_iff_right fun isLeast => ?_
  obtain ⟨first, last, isFirst, isLast, less⟩ := exists_units_lt finite counts
  obtain rfl := Option.some.inj (isFirst.symm.trans isLeast)
  have := (le_iff.1 (largest last (greatest_eq_some_iff.1 isLast).1)).2
  omega

end Extremes

/-! ### Distances -/

variable {pool members : List Solution} {front : List Nat} {w : Widths} {s t : Solution} {l m : Nat}

theorem getElem?_columnAt_of_value (wide : ∀ s ∈ members, s.objectives.length = m)
    (atK : members[k]? = some s) {j : Nat} (value : s.objectives[j]? = some v) :
    (columnAt members j)[k]? = some v := by
  have within : j < m := by
    rw [← wide s (List.mem_of_getElem? atK)]
    exact (List.getElem?_eq_some_iff.1 value).1
  obtain ⟨v', value', here⟩ := getElem?_columnAt wide within atK
  rwa [Option.some.inj (value.symm.trans value')]

/-- The distance of a member is the sum of what the objectives add to it. -/
theorem distanceAmong_eq_foldl_sharesAt (wide : ∀ s ∈ members, s.objectives.length = m)
    (atK : members[k]? = some s) :
    distanceAmong m members s = if members.length ≤ 2 then infinite else
      ((List.range m).flatMap fun j => sharesAt (columnAt members j) k).foldl (· + ·) 0 := by
  rw [distanceAmong, List.foldl_flatMap]
  refine congrArg _ (List.foldl_ext _ _ _ fun d j member => ?_)
  obtain ⟨v, value, here⟩ := getElem?_columnAt wide (List.mem_range.1 member) atK
  rw [withObjective, value, sharesAt_eq here]
  show withGap (columnAt members j) v d = _
  rw [withGap_eq]
  by_cases counts : 0 < rangeOfValues (columnAt members j)
  · simp only [if_pos counts, List.foldl_cons, List.foldl_nil]
  · simp only [if_neg counts, List.foldl_nil]

/-- Numerically equal objective vectors, which have the same zero in each objective that counts. -/
structure EqualValues (members : List Solution) (s t : Solution) : Prop where
  equal : (s.objectives == t.objectives) = true
  sameZeros : ∀ j v v', s.objectives[j]? = some v → t.objectives[j]? = some v' →
    OppositeZeros v v' → ¬0 < rangeOfValues (columnAt members j)

/-- Members with equal values have the same shares in each objective. -/
theorem EqualValues.shares_eq (h : EqualValues members s t)
    (finite : ∀ s ∈ members, ∀ x ∈ s.objectives, x.isFinite = true)
    (wide : ∀ s ∈ members, s.objectives.length = m) {j : Nat} (within : j < m)
    (atK : members[k]? = some s) (atL : members[l]? = some t) :
    sharesAt (columnAt members j) k = sharesAt (columnAt members j) l := by
  have numbers {s : Solution} {k : Nat} (atK : members[k]? = some s) : AllNumbers s.objectives :=
    fun x member => not_isNaN_of_isFinite (finite s (List.mem_of_getElem? atK) x member)
  obtain ⟨v, value, here⟩ := getElem?_columnAt wide within atK
  obtain ⟨v', value', here'⟩ := getElem?_columnAt wide within atL
  rw [sharesAt_eq here, sharesAt_eq here']
  by_cases counts : 0 < rangeOfValues (columnAt members j)
  · have places : units v = units v' := by
      have same := congrArg (·[j]?) ((beq_iff_map_units (numbers atK) (numbers atL)).1 h.equal)
      simpa [value, value'] using same
    have inside := And.intro (finite s (List.mem_of_getElem? atK) v (List.mem_of_getElem? value))
      (finite t (List.mem_of_getElem? atL) v' (List.mem_of_getElem? value'))
    obtain rfl | opposite := eq_or_oppositeZeros inside places
    · rfl
    · exact absurd counts (h.sameZeros j v v' value value' opposite)
  · rw [if_neg counts, if_neg counts]

/-- The distances of a front of finite objective values. Each is the sum of what the objectives add.
Members with numerically equal values are at the same distance, unless they have different zeros in
an objective that counts. What an objective adds for a member with a numerically least or greatest
value is infinite, unless the value is a zero and the other zero, which comes before or after it in
the total order, occurs as well. -/
theorem frontCrowding_ties (inside : ∀ i ∈ front, i < pool.length)
    (accepted : commonWidths (membersAt pool front) = .ok w)
    (finite : ∀ s ∈ membersAt pool front, ∀ x ∈ s.objectives, x.isFinite = true) :
    let members := membersAt pool front
    let column := columnAt members
    ∃ distances, frontCrowding pool front = .ok distances ∧
      (∀ (k : Nat) (s : Solution), members[k]? = some s → distances[k]? = some
        (if front.length ≤ 2 then infinite else
          ((List.range w.objectives).flatMap fun j => sharesAt (column j) k).foldl (· + ·) 0)) ∧
      (∀ (k l : Nat) (s t : Solution), members[k]? = some s → members[l]? = some t →
        EqualValues members s t → distances[k]? = distances[l]?) ∧
      ∀ (k : Nat) (s : Solution) (j : Nat) (v : Float),
        members[k]? = some s → s.objectives[j]? = some v → 0 < rangeOfValues (column j) →
        ((∀ x ∈ column j, v ≤ x) →
          (sharesAt (column j) k = [infinite] ↔ ¬(v = 0 ∧ -0.0 ∈ column j))) ∧
        ((∀ x ∈ column j, x ≤ v) →
          (sharesAt (column j) k = [infinite] ↔ ¬(v = -0.0 ∧ 0 ∈ column j))) := by
  intro members column
  have wide : ∀ s ∈ members, s.objectives.length = w.objectives := fun s member =>
    congrArg Widths.objectives (widths_eq_of_commonWidths accepted member)
  have length : members.length = front.length := length_filterMap_getElem? inside
  have distances (k : Nat) (s : Solution) (atK : members[k]? = some s) :
      (members.map (distanceAmong w.objectives members))[k]? = some
        (if front.length ≤ 2 then infinite else
          ((List.range w.objectives).flatMap fun j => sharesAt (column j) k).foldl (· + ·) 0) := by
    rw [List.getElem?_map, atK, ← length]
    exact congrArg some (distanceAmong_eq_foldl_sharesAt wide atK)
  refine ⟨_, frontCrowding_eq_map inside accepted, distances, ?_, ?_⟩
  · intro k l s t atK atL alike
    rw [distances k s atK, distances l t atL]
    have shares : ((List.range w.objectives).flatMap fun j => sharesAt (column j) k) =
        (List.range w.objectives).flatMap fun j => sharesAt (column j) l :=
      List.flatMap_congr fun j member =>
        alike.shares_eq finite wide (List.mem_range.1 member) atK atL
    rw [shares]
  · intro k s j v atK value counts
    have here := getElem?_columnAt_of_value wide atK value
    have finiteAt := finite_columnAt finite j
    have member := List.mem_of_getElem? here
    exact ⟨sharesAt_of_smallest finiteAt member here counts,
      sharesAt_of_largest finiteAt member here counts⟩

/-- Two members with numerically equal values, which have different zeros in an objective that does
not count. -/
def alikeMembers : List Solution :=
  [.ofObjectives [1, 0], .ofObjectives [0, 0], .ofObjectives [3, 0], .ofObjectives [1, -0.0]]

theorem frontCrowding_ties_alikeMembers :
    let members := membersAt alikeMembers [3, 1, 2, 0]
    ∃ distances, frontCrowding alikeMembers [3, 1, 2, 0] = .ok distances ∧
      distances[0]? = distances[3]? ∧
      sharesAt (columnAt members 0) 1 = [infinite] ∧
      sharesAt (columnAt members 0) 2 = [infinite] := by
  intro members
  have alike : EqualValues members (.ofObjectives [1, -0.0]) (.ofObjectives [1, 0]) := by
    refine ⟨by decide +kernel, fun j v v' value value' opposite => ?_⟩
    match j with
    | 0 =>
      obtain rfl := Option.some.inj value
      obtain rfl := Option.some.inj value'
      exact absurd opposite (by unfold OppositeZeros; decide)
    | 1 => exact show ¬0 < rangeOfValues [-0.0, 0, 0, 0] by decide +kernel
  have counts : 0 < rangeOfValues (columnAt members 0) := by decide +kernel
  obtain ⟨distances, isOk, -, equal, shares⟩ := @frontCrowding_ties alikeMembers [3, 1, 2, 0] ⟨2, 0⟩
    (by decide) rfl (by decide +kernel)
  have first := (shares 1 (.ofObjectives [0, 0]) 0 0 rfl rfl counts).1 (by decide +kernel)
  have last := (shares 2 (.ofObjectives [3, 0]) 0 3 rfl rfl counts).2 (by decide +kernel)
  have noNegative : ∀ x ∈ columnAt members 0, x ≠ -0.0 := by decide +kernel
  exact ⟨distances, isOk, equal 0 3 _ _ rfl rfl alike,
    first.2 fun both => noNegative _ both.2 rfl, last.2 fun both => absurd both.1 (by decide)⟩

/-- Numerically equal members at the least value. Only the one with the negative zero is at infinite
distance. -/
theorem crowding_zeros :
    let pool : List Solution := [.ofObjectives [-0.0], .ofObjectives [0], .ofObjectives [1]]
    let column := columnAt pool 0
    crowding pool = .ok [infinite, 1, infinite] ∧
      (Solution.ofObjectives [-0.0] == .ofObjectives [0]) = true ∧
      (∀ s ∈ pool, ∀ x ∈ s.objectives, x.isFinite = true) ∧
      0 < rangeOfValues column ∧ (∀ x ∈ column, 0 ≤ x) ∧
      sharesAt column 0 = [infinite] ∧ sharesAt column 1 = [1] := by
  decide +kernel

end ParetoFront
