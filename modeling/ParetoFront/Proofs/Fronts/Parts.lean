import Mathlib.Data.List.GetD
import ParetoFront.Proofs.Fronts.Relabelling

/-!
# Parts of a pool

Some positions of a pool hold a pool of their own. Who dominates whom there is what it is in the
pool, and so are the fronts that the part has when it is sorted alone.

## Main definitions

- `membersAt` — the solutions at some positions of a pool
- `frontsAlone` — the fronts of a part that is sorted alone, by positions of the pool

## Main statements

- `getElem?_membersAt` — positions in a part
- `dominatesAt_membersAt` — domination in a part
- `sortIntoFronts_membersAt`, `frontsAlone_eq_ok` — the fronts of a part
-/

namespace ParetoFront

/-! ### Elements that are there -/

theorem length_filterMap_getElem? {α β : Type} {xs : List α} {lists : α → List β}
    {places : α → Nat} (inside : ∀ x ∈ xs, places x < (lists x).length) :
    (xs.filterMap fun x => (lists x)[places x]?).length = xs.length := by
  rw [List.length_filterMap_eq_countP, List.countP_eq_length]
  intro x member
  rw [List.getElem?_eq_getElem (inside x member)]
  rfl

/-- Where no element is missing, positions are kept. -/
theorem getElem?_filterMap_getElem? {α β : Type} {xs : List α} {lists : α → List β}
    {places : α → Nat} (inside : ∀ x ∈ xs, places x < (lists x).length) (k : Nat) :
    (xs.filterMap fun x => (lists x)[places x]?)[k]? =
      xs[k]?.bind fun x => (lists x)[places x]? := by
  induction xs generalizing k with
  | nil => rfl
  | cons x xs ih =>
    obtain ⟨first, others⟩ := List.forall_mem_cons.1 inside
    have atX := List.getElem?_eq_getElem first
    rw [List.filterMap_cons, atX]
    cases k with
    | zero => exact atX.symm
    | succ k => exact ih others k

/-! ### Members -/

/-- The solutions at some positions of a pool, without those that are not there. -/
def membersAt (pool : List Solution) (front : List Nat) : List Solution :=
  front.filterMap fun i => pool[i]?

variable {compare : Comparator} {pool : List Solution} {w : Widths} {part : List Nat} {i j : Nat}

theorem membersAt_subset : membersAt pool part ⊆ pool := by
  intro s member
  obtain ⟨i, -, atI⟩ := List.mem_filterMap.1 member
  exact List.mem_of_getElem? atI

theorem getElem?_eq_getD (within : i < part.length) : part[i]? = some (part.getD i 0) := by
  rw [List.getD_eq_getElem _ _ within, List.getElem?_eq_getElem within]

theorem map_getD_range (part : List Nat) :
    (List.range part.length).map (fun i => part.getD i 0) = part := by
  refine List.ext_getElem (by simp) fun i _ within => ?_
  rw [List.getElem_map, List.getElem_range, List.getD_eq_getElem _ _ within]

theorem getD_injective (distinct : part.Nodup) (left : i < part.length) (right : j < part.length)
    (same : part.getD i 0 = part.getD j 0) : i = j := by
  rw [← map_getD_range part] at distinct
  exact List.inj_on_of_nodup_map distinct (List.mem_range.2 left) (List.mem_range.2 right) same

section Inside

variable (inside : ∀ i ∈ part, i < pool.length)
include inside

theorem length_membersAt : (membersAt pool part).length = part.length :=
  length_filterMap_getElem? inside

theorem getElem?_membersAt (k : Nat) :
    (membersAt pool part)[k]? = part[k]?.bind fun i => pool[i]? :=
  getElem?_filterMap_getElem? inside k

theorem getElem?_membersAt_getD (within : i < part.length) :
    (membersAt pool part)[i]? = pool[part.getD i 0]? := by
  rw [getElem?_membersAt inside, getElem?_eq_getD within]
  rfl

theorem membersAt_membersAt {front : List Nat} (inside' : ∀ i ∈ front, i < part.length) :
    membersAt (membersAt pool part) front = membersAt pool (front.map fun i => part.getD i 0) := by
  refine Eq.trans (List.filterMap_congr fun i member => ?_) List.filterMap_map.symm
  exact getElem?_membersAt_getD inside (inside' i member)

theorem dominatesAt_membersAt (distinct : part.Nodup) (left : i < part.length)
    (right : j < part.length) :
    dominatesAt compare (membersAt pool part) i j =
      dominatesAt compare pool (part.getD i 0) (part.getD j 0) := by
  have apart : i = j ↔ part.getD i 0 = part.getD j 0 :=
    ⟨fun same => same ▸ rfl, getD_injective distinct left right⟩
  rw [dominatesAt, dominatesAt, getElem?_membersAt_getD inside left,
    getElem?_membersAt_getD inside right]
  simp only [Ne, apart]

end Inside

theorem membersAt_range (pool : List Solution) :
    membersAt pool (List.range pool.length) = pool := by
  refine List.ext_getElem? fun k => ?_
  rw [getElem?_membersAt fun i => List.mem_range.1]
  by_cases within : k < pool.length
  · rw [List.getElem?_range within]
    rfl
  · rw [List.getElem?_eq_none (by simpa using within),
      List.getElem?_eq_none (Nat.le_of_not_lt within)]
    rfl

/-! ### Sorting a part alone -/

/-- Sorts the solutions at some positions of a pool, and gives their fronts by positions of the
pool. -/
def frontsAlone (compare : Comparator) (pool : List Solution) (part : List Nat) :
    Except Fault (List (List Nat)) := do
  let sorted ← sortIntoFronts compare (membersAt pool part)
  return sorted.fronts.map (List.map fun i => part.getD i 0)

/-- The fronts of a part, each position given its name in the pool. -/
theorem sortIntoFronts_membersAt (accepted : commonWidths pool = .ok w)
    (antisymmetric : compare.AntisymmetricOn pool) (distinct : part.Nodup)
    (inside : ∀ i ∈ part, i < pool.length) :
    ∃ f, sortIntoFronts compare (membersAt pool part) = .ok f ∧
      f.IsPeelingOf (dominatesAt compare (membersAt pool part)) (membersAt pool part).length ∧
      f.fronts.map (List.map fun i => part.getD i 0) =
        naiveFronts (dominatesAt compare pool) part := by
  obtain ⟨v, accepted'⟩ := exists_commonWidths_of_subset (@membersAt_subset pool part) accepted
  obtain ⟨f, sorted, peeling⟩ := sortIntoFronts_eq_ok accepted' fun a left b right =>
    antisymmetric a (membersAt_subset left) b (membersAt_subset right)
  have length := length_membersAt inside
  have renamed := @naiveFronts_map (dominatesAt compare pool)
    (dominatesAt compare (membersAt pool part)) (fun i => part.getD i 0) (List.range part.length)
    (fun i left j right => dominatesAt_membersAt inside distinct (List.mem_range.1 left)
      (List.mem_range.1 right))
    (fun i left j right => getD_injective distinct (List.mem_range.1 left) (List.mem_range.1 right))
  rw [map_getD_range, ← length, ← peeling.fronts_eq] at renamed
  exact ⟨f, sorted, peeling, renamed.symm⟩

theorem frontsAlone_eq_ok (accepted : commonWidths pool = .ok w)
    (antisymmetric : compare.AntisymmetricOn pool) (distinct : part.Nodup)
    (inside : ∀ i ∈ part, i < pool.length) :
    frontsAlone compare pool part = .ok (naiveFronts (dominatesAt compare pool) part) := by
  obtain ⟨f, sorted, -, renamed⟩ := sortIntoFronts_membersAt accepted antisymmetric distinct inside
  rw [frontsAlone, sorted, ← renamed]
  rfl

end ParetoFront
