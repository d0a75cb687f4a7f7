import Mathlib.Data.List.SplitBy
import ParetoFront.Proofs.Number.Extremes
import ParetoFront.Proofs.Ranking.Crowding

/-!
# Crowding distances in closed form

The distances of a front are found by walking over the sorted values of each objective. What a
member gets is nevertheless a matter of its own values and of the values that occur in the front:
the gap between the neighbours of its value, as a share of the range. In which order the front lists
its members does not matter.

## Main definitions

- `rangeOfValues`, `gapAround`, `withGap` — what one objective adds
- `distanceAmong` — the distance of a member

## Main statements

- `columnShares_eq` — the walk over one objective
- `getElem?_columnCrowding` — the walks over all objectives
- `frontCrowding_eq_map` — the distances of a front
- `distanceAmong_perm` — the order of the members does not matter
-/

namespace ParetoFront

open Number

/-! ### Runs of equal values -/

/-- Runs of placed values: each of one value, which is greater than those of the runs before. -/
structure AreRuns (runs : List (List Placed)) : Prop where
  nonempty : ∀ run ∈ runs, run ≠ []
  constant : ∀ run ∈ runs, ∀ p ∈ run, ∀ q ∈ run, p.1 = q.1
  ascending : runs.Pairwise fun run later =>
    ∀ p ∈ run, ∀ q ∈ later, totalKey p.1 < totalKey q.1

/-- The values of a column, each with its position, in ascending order. -/
def sortedValues (column : List Float) : List Placed :=
  stableSort (fun x y => totalLE x.1 y.1) column.zipIdx

theorem sortedValues_perm (column : List Float) : (sortedValues column).Perm column.zipIdx :=
  stableSort_perm _ _

theorem pairwise_sortedValues (column : List Float) :
    (sortedValues column).Pairwise fun p q => totalKey p.1 ≤ totalKey q.1 := by
  have sorted := @pairwise_stableSort Placed (fun x y => totalLE x.1 y.1)
    (fun _ _ _ => totalLE_trans _ _ _) (fun _ _ => totalLE_total _ _) column.zipIdx
  exact sorted.imp fun le => of_decide_eq_true le

theorem flatten_runsByValue (column : List Float) :
    (runsByValue column).flatten = sortedValues column :=
  List.flatten_splitBy _ _

/-- Runs that follow each other in ascending order, with a change of value in between. -/
theorem pairwise_of_isChain {runs : List (List Placed)}
    (constant : ∀ run ∈ runs, ∀ p ∈ run, ∀ q ∈ run, p.1 = q.1)
    (sorted : runs.flatten.Pairwise fun p q => totalKey p.1 ≤ totalKey q.1)
    (changes : runs.IsChain fun run later => ∃ p ∈ run, ∃ q ∈ later, p.1 ≠ q.1) :
    runs.Pairwise fun run later => ∀ p ∈ run, ∀ q ∈ later, totalKey p.1 < totalKey q.1 := by
  induction runs with
  | nil => exact .nil
  | cons run later ih =>
    obtain ⟨constantRun, constantLater⟩ := List.forall_mem_cons.1 constant
    rw [List.flatten_cons, List.pairwise_append] at sorted
    obtain ⟨-, sortedLater, before⟩ := sorted
    have ascending := ih constantLater sortedLater changes.tail
    refine List.pairwise_cons.2 ⟨?_, ascending⟩
    cases later with
    | nil => exact List.forall_mem_nil _
    | cons next rest =>
      -- the change to the next run tells the run apart from the later ones as well
      obtain ⟨p', inRun, q', inNext, apart⟩ := (List.isChain_cons_cons.1 changes).1
      have follows := before p' inRun q' (List.mem_flatten_of_mem List.mem_cons_self inNext)
      have step : totalKey p'.1 < totalKey q'.1 :=
        Int.lt_iff_le_and_ne.2 ⟨follows, fun same => apart (totalKey_injective same)⟩
      intro other member p inRun' q inOther
      rw [constantRun p inRun' p' inRun]
      obtain rfl | beyond := List.mem_cons.1 member
      · rwa [constantLater other List.mem_cons_self q inOther q' inNext]
      · have below := (List.pairwise_cons.1 ascending).1 other beyond
        exact Int.lt_trans step (below q' inNext q inOther)

theorem areRuns_runsByValue (column : List Float) : AreRuns (runsByValue column) := by
  have constant : ∀ run ∈ runsByValue column, ∀ p ∈ run, ∀ q ∈ run, p.1 = q.1 := by
    intro run member
    have chain := List.isChain_of_mem_splitBy member
    simp only [totalCompare_beq_eq, decide_eq_true_eq] at chain
    have : IsTrans Placed fun p q => p.1 = q.1 := ⟨fun _ _ _ => Eq.trans⟩
    intro p inRun q inRun'
    exact (List.isChain_iff_pairwise.1 chain).forall_of_forall (R := fun p q => p.1 = q.1)
      (fun _ _ => rfl) inRun inRun'
  have sorted := pairwise_sortedValues column
  rw [← flatten_runsByValue] at sorted
  refine ⟨fun run => List.ne_nil_of_mem_splitBy, constant, pairwise_of_isChain constant sorted ?_⟩
  refine (List.isChain_getLast_head_splitBy _ _).imp ?_
  rintro run later ⟨hrun, hlater, change⟩
  rw [totalCompare_beq_eq, decide_eq_false_iff_not] at change
  exact ⟨_, List.getLast_mem hrun, _, List.head_mem hlater, change⟩

theorem AreRuns.tail {run : List Placed} {later : List (List Placed)}
    (h : AreRuns (run :: later)) : AreRuns later where
  nonempty := (List.forall_mem_cons.1 h.nonempty).2
  constant := (List.forall_mem_cons.1 h.constant).2
  ascending := (List.pairwise_cons.1 h.ascending).2

/-- The first run has one value, which is less than all later ones. -/
theorem AreRuns.exists_value {run : List Placed} {later : List (List Placed)}
    (h : AreRuns (run :: later)) :
    ∃ v, (∀ x, x ∈ run.map Prod.fst ↔ x = v) ∧
      ∀ x ∈ later.flatten.map Prod.fst, totalKey v < totalKey x := by
  obtain ⟨p, inRun⟩ := List.exists_mem_of_ne_nil run (h.nonempty run List.mem_cons_self)
  refine ⟨p.1, fun x => ⟨fun member => ?_, ?_⟩, fun x member => ?_⟩
  · obtain ⟨q, inRun', rfl⟩ := List.mem_map.1 member
    exact h.constant run List.mem_cons_self q inRun' p inRun
  · rintro rfl
    exact List.mem_map_of_mem inRun
  · obtain ⟨q, inLater, rfl⟩ := List.mem_map.1 member
    obtain ⟨next, isLater, inNext⟩ := List.mem_flatten.1 inLater
    exact (List.pairwise_cons.1 h.ascending).1 next isLater p inRun q inNext

namespace AreRuns

variable {runs : List (List Placed)} (h : AreRuns runs)
include h

theorem pairwise_flatten : (runs.flatten.map Prod.fst).Pairwise
    fun x y => totalKey x ≤ totalKey y := by
  refine List.pairwise_map.2 (List.pairwise_flatten.2 ⟨fun run member => ?_, ?_⟩)
  · refine List.pairwise_of_forall_mem_list fun p inRun q inRun' => ?_
    exact Int.le_of_eq (congrArg totalKey (h.constant run member p inRun q inRun'))
  · exact h.ascending.imp fun below p inRun q inLater => Int.le_of_lt (below p inRun q inLater)

theorem least_eq :
    (runs.head?.bind List.head?).map Prod.fst = least (runs.flatten.map Prod.fst) := by
  rw [least_of_pairwise h.pairwise_flatten, List.head?_map]
  cases runs with
  | nil => rfl
  | cons run later =>
    obtain ⟨p, rest, rfl⟩ := List.exists_cons_of_ne_nil (h.nonempty run List.mem_cons_self)
    rfl

theorem greatest_eq :
    (runs.getLast?.bind List.getLast?).map Prod.fst = greatest (runs.flatten.map Prod.fst) := by
  rw [greatest_of_pairwise h.pairwise_flatten, List.getLast?_map]
  cases runs using List.reverseRecOn with
  | nil => rfl
  | append_singleton runs run =>
    have nonempty := h.nonempty run List.mem_concat_self
    rw [List.getLast?_concat, List.flatten_concat, List.getLast?_append_of_ne_nil _ nonempty]
    rfl

end AreRuns

/-! ### One objective -/

/-- The distance between the least and the greatest of some values. -/
def rangeOfValues (column : List Float) : Float :=
  match least column, greatest column with
  | some smallest, some largest => largest - smallest
  | _, _ => 0

/-- The share of the range that lies between the neighbours of `v` among some values. -/
def gapAround (column : List Float) (v : Float) : Float :=
  match nextBelow column v, nextAbove column v with
  | some p, some n => (n - p) / rangeOfValues column
  | _, _ => infinite

theorem gapAround_of_extreme {column : List Float} {v : Float}
    (extreme : least column = some v ∨ greatest column = some v) :
    gapAround column v = infinite := by
  obtain first | last := extreme
  · rw [gapAround, nextBelow_least first]
  · rw [gapAround, nextAbove_greatest last]
    cases nextBelow column v <;> rfl

/-- A distance after one more objective, with the value `v` among those of a column. -/
def withGap (column : List Float) (v d : Float) : Float :=
  if (rangeOfValues column).isNaN || rangeOfValues column ≤ 0 then d else d + gapAround column v

variable {column : List Float}

theorem mem_map_fst_flatten_runsByValue {x : Float} :
    x ∈ (runsByValue column).flatten.map Prod.fst ↔ x ∈ column := by
  rw [flatten_runsByValue, ((sortedValues_perm column).map Prod.fst).mem_iff, List.zipIdx_map_fst]

theorem rangeOf_runsByValue (column : List Float) :
    rangeOf (runsByValue column) = rangeOfValues column := by
  have runs := areRuns_runsByValue column
  simp only [rangeOf, runs.least_eq, runs.greatest_eq,
    least_congr fun _ => mem_map_fst_flatten_runsByValue,
    greatest_congr fun _ => mem_map_fst_flatten_runsByValue]
  rfl

/-- The walk over the runs that are left, after those of some earlier values. -/
theorem gapShares_eq {earlier : List Float} {runs : List (List Placed)} (h : AreRuns runs)
    (parts : ∀ x, x ∈ column ↔ x ∈ earlier ∨ x ∈ runs.flatten.map Prod.fst)
    (before : ∀ x ∈ earlier, ∀ y ∈ runs.flatten.map Prod.fst, totalKey x < totalKey y) :
    gapShares (rangeOfValues column) (greatest earlier) runs =
      runs.flatten.map fun p => (gapAround column p.1, p.2) := by
  induction runs generalizing earlier with
  | nil => rfl
  | cons run later ih =>
    obtain ⟨v, value, above⟩ := h.exists_value
    -- the column has the values that came before, the value of this run, and the later ones
    simp only [List.flatten_cons, List.map_append, List.mem_append, value] at parts before
    have below : ∀ x ∈ earlier, totalKey x < totalKey v := fun x inEarlier =>
      before x inEarlier v (.inl rfl)
    have smaller := nextBelow_eq_greatest parts below above
    have larger := nextAbove_eq_least parts below above
    have last : (run.getLast?).map Prod.fst = greatest (v :: earlier) := by
      have isV : greatest (v :: earlier) = some v := greatest_eq_some_iff.2 ⟨List.mem_cons_self,
        List.forall_mem_cons.2 ⟨Int.le_refl _, fun x inEarlier => Int.le_of_lt (below x inEarlier)⟩⟩
      have nonempty := List.ne_nil_of_mem ((value v).2 rfl)
      rw [isV, ← List.getLast?_map, List.getLast?_eq_some_getLast nonempty,
        (value _).1 (List.getLast_mem nonempty)]
    unfold gapShares
    rw [h.tail.least_eq, last, ih h.tail, List.flatten_cons, List.map_append]
    · refine congrArg (· ++ _) (List.map_congr_left fun q inRun => ?_)
      rewrite [(value q.1).1 (List.mem_map_of_mem inRun), gapAround, smaller, larger]
      rfl
    · intro x
      rw [parts, List.mem_cons, or_left_comm, or_assoc]
    · intro x inEarlier y inLater
      obtain rfl | inEarlier := List.mem_cons.1 inEarlier
      · exact above y inLater
      · exact before x inEarlier y (.inr inLater)

/-- What an objective adds at each position. -/
theorem columnShares_eq (column : List Float) :
    columnShares column =
      if (rangeOfValues column).isNaN || rangeOfValues column ≤ 0 then []
      else (sortedValues column).map fun p => (gapAround column p.1, p.2) := by
  have walked := @gapShares_eq column [] _ (areRuns_runsByValue column)
    (fun x => by rw [mem_map_fst_flatten_runsByValue]; simp) (List.forall_mem_nil _)
  rw [flatten_runsByValue] at walked
  rw [columnShares, rangeOf_runsByValue]
  exact congrArg _ walked

theorem getElem?_addShares {k : Nat} {v d : Float} {distances : List Float}
    (value : column[k]? = some v) (now : distances[k]? = some d) :
    (addShares distances (columnShares column))[k]? = some (withGap column v d) := by
  rw [columnShares_eq, withGap]
  by_cases skipped : ((rangeOfValues column).isNaN || rangeOfValues column ≤ 0) = true
  · rw [if_pos skipped, if_pos skipped]
    exact now
  · rw [if_neg skipped, if_neg skipped]
    -- each position has one share
    generalize shared : (sortedValues column).map (fun p => (gapAround column p.1, p.2)) = shares
    have distinct : (shares.map Prod.snd).Nodup := by
      rw [← shared, List.map_map]
      refine ((sortedValues_perm column).map Prod.snd).nodup_iff.2 ?_
      rw [List.zipIdx_map_snd]
      exact List.nodup_range'
    have member : (gapAround column v, k) ∈ shares := by
      rw [← shared]
      refine List.mem_map_of_mem (f := fun p => (gapAround column p.1, p.2)) (a := (v, k)) ?_
      exact (sortedValues_perm column).mem_iff.2 (List.mem_zipIdx_iff_getElem?.2 value)
    have changed := @getElem?_foldl_modify_of_mem Float Placed Prod.snd (fun share d => d + share.1)
      distances shares distinct _ member
    rw [now] at changed
    exact changed

/-! ### All objectives -/

/-- The values of one objective, without those that are not there. -/
def columnAt (members : List Solution) (j : Nat) : List Float :=
  members.filterMap fun s => s.objectives[j]?

/-- A distance of a solution after the objective at `j`. -/
def withObjective (members : List Solution) (s : Solution) (d : Float) (j : Nat) : Float :=
  match s.objectives[j]? with
  | some v => withGap (columnAt members j) v d
  | none => d

/-- The distance of a solution among the members of a front, from `m` objectives. -/
def distanceAmong (m : Nat) (members : List Solution) (s : Solution) : Float :=
  if members.length ≤ 2 then infinite else (List.range m).foldl (withObjective members s) 0

variable {pool members members' : List Solution} {front : List Nat} {w : Widths} {s : Solution}
  {k m : Nat}

theorem rangeOfValues_congr {column' : List Float} (same : ∀ x, x ∈ column ↔ x ∈ column') :
    rangeOfValues column = rangeOfValues column' := by
  rw [rangeOfValues, rangeOfValues, least_congr same, greatest_congr same]

theorem withGap_congr {column' : List Float} (same : ∀ x, x ∈ column ↔ x ∈ column') (v d : Float) :
    withGap column v d = withGap column' v d := by
  rw [withGap, withGap, gapAround, gapAround, rangeOfValues_congr same, nextBelow_congr same,
    nextAbove_congr same]

/-- The order in which a front lists its members does not matter. -/
theorem distanceAmong_perm (perm : members'.Perm members) (m : Nat) (s : Solution) :
    distanceAmong m members' s = distanceAmong m members s := by
  rw [distanceAmong, distanceAmong, perm.length_eq]
  refine congrArg _ (List.foldl_ext _ _ _ fun d j _ => ?_)
  rw [withObjective, withObjective]
  cases s.objectives[j]? with
  | none => rfl
  | some v => exact withGap_congr (fun x => (perm.filterMap _).mem_iff) v d

theorem getElem?_columnAt (wide : ∀ s ∈ members, s.objectives.length = m) {j : Nat} (within : j < m)
    (atK : members[k]? = some s) :
    ∃ v, s.objectives[j]? = some v ∧ (columnAt members j)[k]? = some v := by
  have inside : ∀ s ∈ members, j < s.objectives.length := fun s member => by
    rwa [wide s member]
  have value := List.getElem?_eq_getElem (inside s (List.mem_of_getElem? atK))
  refine ⟨_, value, ?_⟩
  rw [columnAt, getElem?_filterMap_getElem? inside, atK]
  exact value

/-- The walks over some objectives. -/
theorem getElem?_foldl_addShares (wide : ∀ s ∈ members, s.objectives.length = m)
    (atK : members[k]? = some s) {places : List Nat} (within : ∀ j ∈ places, j < m)
    {distances : List Float} {d : Float} (now : distances[k]? = some d) :
    (places.foldl (fun distances j => addShares distances (columnShares (columnAt members j)))
      distances)[k]? = some (places.foldl (withObjective members s) d) := by
  induction places generalizing distances d with
  | nil => exact now
  | cons j places ih =>
    obtain ⟨first, others⟩ := List.forall_mem_cons.1 within
    obtain ⟨v, value, atColumn⟩ := getElem?_columnAt wide first atK
    rw [List.foldl_cons, List.foldl_cons, withObjective, value]
    exact ih others (getElem?_addShares atColumn now)

/-- The walks over all objectives. -/
theorem getElem?_columnCrowding (wide : ∀ s ∈ members, s.objectives.length = m)
    (atK : members[k]? = some s) :
    (columnCrowding members.length (columnsOf m members))[k]? =
      some (distanceAmong m members s) := by
  have member : k < members.length := (List.getElem?_eq_some_iff.1 atK).1
  rw [columnCrowding, distanceAmong]
  by_cases few : members.length ≤ 2
  · rw [if_pos few, if_pos few, List.getElem?_replicate_of_lt member]
  · rw [if_neg few, if_neg few, columnsOf, List.foldl_map]
    exact getElem?_foldl_addShares wide atK (fun _ => List.mem_range.1)
      (List.getElem?_replicate_of_lt member)

/-- The distances of a front, each from the values of the member and those that occur in the
front. -/
theorem frontCrowding_eq_map (inside : ∀ i ∈ front, i < pool.length)
    (accepted : commonWidths (membersAt pool front) = .ok w) :
    frontCrowding pool front = .ok ((membersAt pool front).map
      (distanceAmong w.objectives (membersAt pool front))) := by
  have wide : ∀ s ∈ membersAt pool front, s.objectives.length = w.objectives := fun s member =>
    congrArg Widths.objectives (widths_eq_of_commonWidths accepted member)
  have length : (membersAt pool front).length = front.length := length_filterMap_getElem? inside
  rw [frontCrowding_eq_ok inside accepted, ← length]
  refine congrArg Except.ok (List.ext_getElem? fun k => ?_)
  rw [List.getElem?_map]
  cases atK : (membersAt pool front)[k]? with
  | none => exact List.getElem?_eq_none (by simpa using List.getElem?_eq_none_iff.1 atK)
  | some s => exact getElem?_columnCrowding wide atK

/-- The row of a member of a front. -/
theorem mem_rowsOf (accepted : commonWidths pool = .ok w) (inside : ∀ i ∈ front, i < pool.length)
    {i : Nat} (member : i ∈ front) (atI : pool[i]? = some s) (rank : Nat) :
    ⟨i, rank, definedDistance (distanceAmong w.objectives (membersAt pool front) s)⟩ ∈
      rowsOf pool rank front := by
  obtain ⟨k, atK⟩ := List.mem_iff_getElem?.1 member
  have memberAt : (membersAt pool front)[k]? = some s := by
    rw [getElem?_membersAt inside, atK]
    exact atI
  have shared : commonWidths (membersAt pool front) = .ok w :=
    (commonWidths_eq_ok_iff (List.ne_nil_of_mem (List.mem_of_getElem? memberAt))).2
      fun s member => widths_eq_of_commonWidths accepted (membersAt_subset member)
  rw [rowsOf, frontDistances, frontCrowding_eq_map inside shared]
  refine List.mem_of_getElem? (i := k) ?_
  rw [List.getElem?_zipWith, atK, List.getElem?_map, memberAt]
  rfl

end ParetoFront
