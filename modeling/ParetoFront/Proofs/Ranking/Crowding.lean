import ParetoFront.Proofs.Fronts.Parts
import ParetoFront.RankTable

/-!
# Crowding distances exist

The distances of a front are computed from the columns of its members' objective values. Within the
pool, and for members of equal widths, no value is missing, and there is a distance for each member.

## Main definitions

- `columnsOf` — the columns of the members of a front
- `frontDistances`, `rowsOf` — the distances and the rows of a front

## Main statements

- `frontCrowding_eq_ok` — the distances are those of the columns
- `frontRows_eq_ok` — the rows of a front of a pool of equal widths
- `getElem?_foldl_modify_of_mem` — changes made one by one at distinct positions
-/

namespace ParetoFront

/-! ### Elements that are there -/

theorem mapM_elementAt_eq_ok {α β : Type} {xs : List α} {lists : α → List β} {places : α → Nat}
    (inside : ∀ x ∈ xs, places x < (lists x).length) :
    xs.mapM (fun x => elementAt (lists x) (places x)) =
      .ok (xs.filterMap fun x => (lists x)[places x]?) := by
  induction xs with
  | nil => rfl
  | cons x xs ih =>
    obtain ⟨first, others⟩ := List.forall_mem_cons.1 inside
    have atX := List.getElem?_eq_getElem first
    rw [List.mapM_cons, ih others, List.filterMap_cons, atX, elementAt, atX]
    rfl

/-! ### Changes at distinct positions -/

section Modify

variable {α β : Type} {place : β → Nat} {change : β → α → α} {xs : List α} {ys : List β}

theorem getElem?_foldl_modify_of_not_mem {i : Nat} (untouched : i ∉ ys.map place) :
    (ys.foldl (fun xs y => xs.modify (place y) (change y)) xs)[i]? = xs[i]? := by
  induction ys generalizing xs with
  | nil => rfl
  | cons y ys ih =>
    rw [List.map_cons, List.mem_cons, not_or] at untouched
    rw [List.foldl_cons, ih untouched.2, List.getElem?_modify_ne _ _ (Ne.symm untouched.1)]

/-- Each element is changed once. -/
theorem getElem?_foldl_modify_of_mem (distinct : (ys.map place).Nodup) {y : β} (member : y ∈ ys) :
    (ys.foldl (fun xs y => xs.modify (place y) (change y)) xs)[place y]? =
      xs[place y]?.map (change y) := by
  induction ys generalizing xs with
  | nil => exact absurd member List.not_mem_nil
  | cons first ys ih =>
    rw [List.map_cons, List.nodup_cons] at distinct
    rw [List.foldl_cons]
    obtain rfl | later := List.mem_cons.1 member
    · rw [getElem?_foldl_modify_of_not_mem distinct.1, List.getElem?_modify_eq]
      rfl
    · have apart : place first ≠ place y := fun same =>
        distinct.1 (same ▸ List.mem_map_of_mem later)
      rw [ih distinct.2 later, List.getElem?_modify_ne _ _ apart]

end Modify

/-! ### Columns -/

/-- The values of the first `m` objectives, objective by objective, without those that are not
there. -/
def columnsOf (m : Nat) (members : List Solution) : List (List Float) :=
  (List.range m).map fun j => members.filterMap fun s => s.objectives[j]?

variable {pool members : List Solution} {front : List Nat} {w : Widths}

theorem objectiveColumns_eq_ok {m : Nat} (wide : ∀ s ∈ members, s.objectives.length = m) :
    objectiveColumns m members = .ok (columnsOf m members) := by
  refine mapM_eq_ok ?_
  intro j column
  refine mapM_elementAt_eq_ok fun s member => ?_
  rw [wide s member]
  exact List.mem_range.1 column

/-! ### Distances -/

theorem length_addShares (distances : List Float) (shares : List Placed) :
    (addShares distances shares).length = distances.length := by
  rw [addShares]
  induction shares generalizing distances with
  | nil => rfl
  | cons share shares ih => rw [List.foldl_cons, ih, List.length_modify]

@[simp] theorem length_columnCrowding (n : Nat) (columns : List (List Float)) :
    (columnCrowding n columns).length = n := by
  rw [columnCrowding]
  by_cases few : n ≤ 2
  · rw [if_pos few, List.length_replicate]
  · rw [if_neg few]
    generalize start : List.replicate n (0 : Float) = distances
    have length : distances.length = n := by rw [← start, List.length_replicate]
    clear start
    induction columns generalizing distances with
    | nil => exact length
    | cons column columns ih => exact ih _ ((length_addShares _ _).trans length)

/-- The distances of members of equal widths are those of their columns. -/
theorem frontCrowding_eq_ok (inside : ∀ i ∈ front, i < pool.length)
    (accepted : commonWidths (membersAt pool front) = .ok w) :
    frontCrowding pool front =
      .ok (columnCrowding front.length (columnsOf w.objectives (membersAt pool front))) := by
  have found : front.mapM (elementAt pool) = .ok (membersAt pool front) :=
    mapM_elementAt_eq_ok inside
  have columns : objectiveColumns w.objectives (membersAt pool front) =
      .ok (columnsOf w.objectives (membersAt pool front)) :=
    objectiveColumns_eq_ok fun s member =>
      congrArg Widths.objectives (widths_eq_of_commonWidths accepted member)
  have length : (membersAt pool front).length = front.length := length_filterMap_getElem? inside
  rw [← length]
  simp only [frontCrowding, found, accepted, orFault, bind, Except.bind, columns]
  rfl

/-- The distances of a front, where a fault leaves none. -/
def frontDistances (pool : List Solution) (front : List Nat) : List Float :=
  match frontCrowding pool front with
  | .ok distances => distances
  | .error _ => []

theorem frontDistances_spec (accepted : commonWidths pool = .ok w)
    (inside : ∀ i ∈ front, i < pool.length) :
    frontCrowding pool front = .ok (frontDistances pool front) ∧
      (frontDistances pool front).length = front.length := by
  obtain ⟨v, shared⟩ := exists_commonWidths_of_subset (@membersAt_subset pool front) accepted
  rw [frontDistances, frontCrowding_eq_ok inside shared]
  exact ⟨rfl, length_columnCrowding _ _⟩

/-! ### Rows -/

/-- The rows of a front of the given rank. -/
def rowsOf (pool : List Solution) (rank : Nat) (front : List Nat) : List Ranked :=
  front.zipWith (fun index d => ⟨index, rank, definedDistance d⟩) (frontDistances pool front)

theorem frontRows_eq_ok (accepted : commonWidths pool = .ok w)
    (inside : ∀ i ∈ front, i < pool.length) (rank : Nat) :
    frontRows pool rank front = .ok (rowsOf pool rank front) := by
  rw [frontRows, (frontDistances_spec accepted inside).1]
  rfl

theorem map_index_rowsOf (accepted : commonWidths pool = .ok w)
    (inside : ∀ i ∈ front, i < pool.length) (rank : Nat) :
    (rowsOf pool rank front).map Ranked.index = front := by
  have length := (frontDistances_spec accepted inside).2
  rw [rowsOf, List.map_zipWith]
  refine List.ext_getElem (by simp [length]) ?_
  intro i _ _
  rw [List.getElem_zipWith]

theorem rank_of_mem_rowsOf {rank : Nat} {row : Ranked} (member : row ∈ rowsOf pool rank front) :
    row.rank = rank := by
  rw [rowsOf] at member
  obtain ⟨i, within, rfl⟩ := List.mem_iff_getElem.1 member
  rw [List.getElem_zipWith]

end ParetoFront
