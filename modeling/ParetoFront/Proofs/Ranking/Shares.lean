import ParetoFront.Proofs.Ranking.Equivariance

/-!
# Distances as sums of shares

An objective that counts gives each member of a front a share. The distance of a member is the sum
of its shares, objective after objective, and when a front lists its members in another order, the
same distances come in that order.

## Main definitions

- `shareOf` — the share of a member in one objective
- `sumOfShares` — the shares of a member in all objectives

## Main statements

- `withGap_eq_shareOf` — what an objective adds is the share
- `frontCrowding_eq_sumOfShares` — the distances of a front, in every order of it
-/

namespace ParetoFront

open Number

/-- The share of a member with the value `v` among the values of one objective: infinite at the
extreme values, and otherwise the gap between the neighbouring values over the whole range. There is
no share when the range is undefined or not above zero. -/
def shareOf (column : List Float) (v : Float) : Option Float :=
  match least column, greatest column with
  | some smallest, some largest =>
    let range := largest - smallest
    if range.isNaN || range ≤ 0 then none
    else if v = smallest ∨ v = largest then some infinite
    else
      match nextBelow column v, nextAbove column v with
      | some pred, some succ => some ((succ - pred) / range)
      | _, _ => none
  | _, _ => none

/-- The shares of a solution in the first `m` objectives, added up from zero in their order. -/
def sumOfShares (m : Nat) (members : List Solution) (s : Solution) : Float :=
  ((List.range m).filterMap fun j =>
    s.objectives[j]?.bind (shareOf (columnAt members j))).foldl (· + ·) 0

variable {column : List Float} {v : Float} {pool members : List Solution} {front : List Nat}
  {w : Widths} {s : Solution} {m : Nat}

/-- A value of a list that is not its least value has a neighbour below. -/
theorem exists_nextBelow {smallest : Float} (first : least column = some smallest)
    (member : v ∈ column) (apart : v ≠ smallest) : ∃ pred, nextBelow column v = some pred := by
  obtain ⟨isThere, first⟩ := least_eq_some_iff.1 first
  refine exists_greatest (List.mem_filter.2 ⟨isThere, decide_eq_true ?_⟩)
  exact Int.lt_iff_le_and_ne.2 ⟨first v member, fun same => apart (totalKey_injective same).symm⟩

theorem exists_nextAbove {largest : Float} (last : greatest column = some largest)
    (member : v ∈ column) (apart : v ≠ largest) : ∃ succ, nextAbove column v = some succ := by
  obtain ⟨isThere, last⟩ := greatest_eq_some_iff.1 last
  refine exists_least (List.mem_filter.2 ⟨isThere, decide_eq_true ?_⟩)
  exact Int.lt_iff_le_and_ne.2 ⟨last v member, fun same => apart (totalKey_injective same)⟩

theorem withGap_eq_shareOf (member : v ∈ column) (d : Float) :
    withGap column v d =
      match shareOf column v with
      | some share => d + share
      | none => d := by
  obtain ⟨smallest, first⟩ := exists_least member
  obtain ⟨largest, last⟩ := exists_greatest member
  have range : rangeOfValues column = largest - smallest := by rw [rangeOfValues, first, last]
  simp only [withGap, shareOf, first, last, range]
  by_cases skipped : ((largest - smallest).isNaN || largest - smallest ≤ 0) = true
  · rw [if_pos skipped, if_pos skipped]
  · rw [if_neg skipped, if_neg skipped]
    by_cases extreme : v = smallest ∨ v = largest
    · have boundary : least column = some v ∨ greatest column = some v :=
        extreme.imp (fun same => by rwa [same]) fun same => by rwa [same]
      rw [if_pos extreme, gapAround_of_extreme boundary]
    · obtain ⟨notLeast, notGreatest⟩ := not_or.1 extreme
      obtain ⟨pred, below⟩ := exists_nextBelow first member notLeast
      obtain ⟨succ, above⟩ := exists_nextAbove last member notGreatest
      rw [if_neg extreme, gapAround, below, above]
      simp only [range]

theorem distanceAmong_eq_sumOfShares (many : 2 < members.length) (member : s ∈ members) :
    distanceAmong m members s = sumOfShares m members s := by
  rw [distanceAmong, if_neg (Nat.not_le.2 many), sumOfShares, List.foldl_filterMap]
  refine List.foldl_ext _ _ _ fun d j _ => ?_
  rw [withObjective]
  cases value : s.objectives[j]? with
  | none => rfl
  | some v =>
    have inColumn : v ∈ columnAt members j := List.mem_filterMap.2 ⟨s, member, value⟩
    simp only [Option.bind_some, withGap_eq_shareOf inColumn]
    cases shareOf (columnAt members j) v <;> rfl

theorem filterMap_getElem?_map {α β : Type} (f : α → β) (xs : List α) (order : List Nat) :
    order.filterMap (fun k => (xs.map f)[k]?) = (order.filterMap fun k => xs[k]?).map f := by
  rw [List.map_filterMap]
  exact List.filterMap_congr fun k _ => List.getElem?_map

theorem membersAt_filterMap (inside : ∀ i ∈ front, i < pool.length) (order : List Nat) :
    membersAt pool (order.filterMap fun k => front[k]?) =
      membersAt (membersAt pool front) order := by
  rw [membersAt, membersAt, List.filterMap_filterMap]
  exact List.filterMap_congr fun k _ => (getElem?_membersAt inside k).symm

/-- The distances of a front whose members agree on widths, where positions may be listed more than
once and values may be infinite or undefined. Up to two members are at infinite distance; the
distance of any other member is the sum of its shares. In another order of the front, the very same
floats are in that order. -/
theorem frontCrowding_eq_sumOfShares (inside : ∀ i ∈ front, i < pool.length)
    (accepted : commonWidths (membersAt pool front) = .ok w) :
    ∃ distances, frontCrowding pool front = .ok distances ∧ distances.length = front.length ∧
      (front.length ≤ 2 → ∀ d ∈ distances, d = infinite) ∧
      (2 < front.length → ∀ (k i : Nat) (s : Solution), front[k]? = some i → pool[i]? = some s →
        distances[k]? = some (sumOfShares w.objectives (membersAt pool front) s)) ∧
      ∀ order : List Nat, order.Perm (List.range front.length) →
        frontCrowding pool (order.filterMap fun k => front[k]?) =
          .ok (order.filterMap fun k => distances[k]?) := by
  have length : (membersAt pool front).length = front.length := length_filterMap_getElem? inside
  refine ⟨_, frontCrowding_eq_map inside accepted, ?_, fun few => ?_, fun many => ?_, ?_⟩
  · rw [List.length_map, length]
  · refine List.forall_mem_map.2 fun s _ => ?_
    rw [distanceAmong, if_pos (length ▸ few)]
  · intro k i s here atI
    have atK : (membersAt pool front)[k]? = some s := by
      rw [getElem?_membersAt inside, here]
      exact atI
    rw [List.getElem?_map, atK]
    exact congrArg some
      (distanceAmong_eq_sumOfShares (length ▸ many) (List.mem_of_getElem? atK))
  · intro order reordered
    have perm : (membersAt (membersAt pool front) order).Perm (membersAt pool front) :=
      membersAt_perm (length ▸ reordered)
    have inside' : ∀ i ∈ order.filterMap (fun k => front[k]?), i < pool.length := fun i member => by
      obtain ⟨k, -, here⟩ := List.mem_filterMap.1 member
      exact inside i (List.mem_of_getElem? here)
    have accepted' :
        commonWidths (membersAt pool (order.filterMap fun k => front[k]?)) = .ok w := by
      rw [membersAt_filterMap inside]
      exact commonWidths_eq_ok_of_perm perm accepted
    rw [frontCrowding_eq_map inside' accepted', membersAt_filterMap inside, filterMap_getElem?_map]
    exact congrArg Except.ok (List.map_congr_left fun s _ => distanceAmong_perm perm _ s)

/-- Equal values, a position listed twice, and an objective whose range is undefined. -/
theorem frontCrowding_eq_sumOfShares_ties :
    let pool : List Solution := [.ofObjectives [0, 0 / 0], .ofObjectives [1, 5],
      .ofObjectives [1, 2], .ofObjectives [4, 1]]
    frontCrowding pool [3, 1, 2, 0, 1] = .ok [infinite, 1, 1, infinite, 1] ∧
      frontCrowding pool [1, 3, 2, 1, 0] = .ok [1, infinite, 1, 1, infinite] ∧
      sumOfShares 2 (membersAt pool [3, 1, 2, 0, 1]) (.ofObjectives [1, 2]) = 1 := by
  intro pool
  obtain ⟨distances, isOk, -, -, shares, reordered⟩ :=
    @frontCrowding_eq_sumOfShares pool [3, 1, 2, 0, 1] ⟨2, 0⟩ (by decide) rfl
  have isList : frontCrowding pool [3, 1, 2, 0, 1] = .ok [infinite, 1, 1, infinite, 1] := by
    decide +kernel
  obtain rfl : distances = [infinite, 1, 1, infinite, 1] := Except.ok.inj (isOk.symm.trans isList)
  have atTwo := shares (by decide) 2 2 (.ofObjectives [1, 2]) rfl rfl
  exact ⟨isList, reordered [4, 0, 2, 1, 3] (by decide), (Option.some.inj atTwo).symm⟩

end ParetoFront
