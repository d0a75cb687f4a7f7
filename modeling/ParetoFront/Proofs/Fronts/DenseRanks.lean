import ParetoFront.Proofs.Dominance.Lexicographic
import ParetoFront.Proofs.Fronts.Tiers

/-!
# Lexicographic fronts are classes of equal vectors

Any two objective vectors without undefined values are numerically equal, or one of them is
lexicographically smaller. Sorting by lexicographic dominance is thus dense ranking: each front is a
class of numerically equal vectors, however many solutions share them, and the rank of a solution is
the number of different vectors that are smaller than its own.

## Main definitions

- `vectorAt`, `vectorLevels` — the objective vectors of a pool by places, and in order
- `smallerVectors` — the different objective vectors of a pool that are smaller than a given one

## Main statements

- `length_eraseDups`, `length_filter_lt` — the number of different elements, and of smaller ones
- `Fronts.IsPeelingOf.fronts_eq_classes` — the fronts, from the smallest vector to the largest
- `sortIntoFronts_lexicographic` — ranks and fronts
-/

namespace ParetoFront

open Number

/-! ### Different elements -/

section Counting

variable {α κ : Type}

/-- Elements that a test takes for equal are counted once. -/
theorem length_eraseDups [BEq α] [DecidableEq κ] {place : α → κ} {xs : List α}
    (same : ∀ x ∈ xs, ∀ y ∈ xs, (x == y) = true ↔ place x = place y) :
    xs.eraseDups.length = (xs.map place).toFinset.card := by
  induction size : xs.length using Nat.strong_induction_on generalizing xs with
  | _ n ih =>
    cases xs with
    | nil => rfl
    | cons x xs =>
      have others : ((xs.filter fun y => !y == x).map place).toFinset =
          (xs.map place).toFinset.erase (place x) := by
        ext k
        simp only [List.mem_toFinset, List.mem_map, List.mem_filter, Finset.mem_erase,
          Bool.not_eq_true']
        constructor
        · rintro ⟨y, ⟨member, apart⟩, rfl⟩
          refine ⟨fun equal => ?_, y, member, rfl⟩
          have := (same y (List.mem_cons_of_mem x member) x List.mem_cons_self).2 equal
          exact Bool.false_ne_true (apart.symm.trans this)
        · rintro ⟨apart, y, member, rfl⟩
          refine ⟨y, ⟨member, eq_false_of_ne_true fun equal => apart ?_⟩, rfl⟩
          exact (same y (List.mem_cons_of_mem x member) x List.mem_cons_self).1 equal
      have part := List.filter_subset_self (p := fun y => !y == x) xs
      have fewer : (xs.filter fun y => !y == x).length < n := by
        have := List.length_filter_le (fun y => !y == x) xs
        rw [List.length_cons] at size
        omega
      rw [List.eraseDups_cons, List.length_cons, ih _ fewer (fun y hy z hz =>
        same y (List.mem_cons_of_mem x (part hy)) z (List.mem_cons_of_mem x (part hz))) rfl, others,
        List.map_cons, List.toFinset_cons, ← Finset.erase_insert_eq_erase,
        Finset.card_erase_add_one (Finset.mem_insert_self ..)]

/-- In an ascending list the elements before a place are the smaller ones. -/
theorem length_filter_lt [LinearOrder κ] {levels : List κ} (ascending : levels.Pairwise (· < ·))
    {r : Nat} {level : κ} (atR : levels[r]? = some level) {smaller : κ → Bool}
    (isLess : ∀ k, smaller k = true ↔ k < level) : (levels.filter smaller).length = r := by
  induction levels generalizing r with
  | nil => cases atR
  | cons first later ih =>
    obtain ⟨before, ascending⟩ := List.pairwise_cons.1 ascending
    cases r with
    | zero =>
      obtain rfl : first = level := Option.some.inj atR
      rw [List.length_eq_zero_iff, List.filter_eq_nil_iff]
      intro k member
      rw [isLess, not_lt]
      obtain rfl | after := List.mem_cons.1 member
      · exact le_rfl
      · exact (before k after).le
    | succ r =>
      rw [List.getElem?_cons_succ] at atR
      have less := (isLess first).2 (before level (List.mem_of_getElem? atR))
      rw [List.filter_cons, if_pos less, List.length_cons, ih ascending atR]

end Counting

/-! ### Objective vectors of a pool -/

/-- The places of the objective vector of a solution. -/
def Solution.vectorPlace (s : Solution) : List Int :=
  s.objectives.map units

/-- The places of the objective vector at a position. -/
def vectorAt (pool : List Solution) (i : Nat) : List Int :=
  pool[i]?.elim [] Solution.vectorPlace

/-- The places of the objective vectors of a pool, each once, in lexicographic order. -/
def vectorLevels (pool : List Solution) : List (List Int) :=
  (pool.map Solution.vectorPlace).toFinset.sort (· ≤ ·)

/-- The objective vectors of a pool that are lexicographically smaller than a given one. Of
numerically equal vectors the first is listed. -/
def smallerVectors (pool : List Solution) (v : List Float) : List (List Float) :=
  ((pool.map Solution.objectives).filter fun u => decide (LexicographicallyLess u v)).eraseDups

variable {pool : List Solution} {w : Widths} {a : Solution} {i : Nat}

theorem vectorAt_of_getElem? (atI : pool[i]? = some a) : vectorAt pool i = a.vectorPlace := by
  rw [vectorAt, atI]
  rfl

theorem pairwise_vectorLevels (pool : List Solution) : (vectorLevels pool).Pairwise (· < ·) :=
  (Finset.sortedLT_sort _).pairwise

theorem mem_vectorLevels_iff {level : List Int} :
    level ∈ vectorLevels pool ↔ ∃ a ∈ pool, a.vectorPlace = level := by
  rw [vectorLevels, Finset.mem_sort, List.mem_toFinset, List.mem_map]

section Numbers

variable (accepted : commonWidths pool = .ok w) (numbers : ∀ s ∈ pool, AllNumbers s.objectives)
include accepted numbers

/-- Of two positions the one with the smaller vector dominates. -/
theorem dominatesAt_lexicographic_iff {i j : Nat} (left : i < pool.length)
    (right : j < pool.length) :
    dominatesAt Criterion.lexicographic.compare pool i j = true ↔
      vectorAt pool i < vectorAt pool j := by
  have atI := List.getElem?_eq_getElem left
  have atJ := List.getElem?_eq_getElem right
  have lengths := objectives_length_eq accepted (List.getElem_mem left) (List.getElem_mem right)
  have order := lexicographicDominance_eq_left_iff (numbers _ (List.getElem_mem left))
    (numbers _ (List.getElem_mem right)) lengths
  rw [Criterion.dominatesAt_iff accepted, vectorAt_of_getElem? atI, vectorAt_of_getElem? atJ, atI,
    atJ, Solution.vectorPlace, Solution.vectorPlace, ← order]
  simp [Criterion.relate]

/-- The fronts are the classes of equal vectors in the order of the vectors. -/
theorem Fronts.IsPeelingOf.fronts_eq_classes {f : Fronts}
    (h : f.IsPeelingOf (dominatesAt Criterion.lexicographic.compare pool) pool.length) :
    f.fronts = (vectorLevels pool).map fun level =>
      (List.range pool.length).filter fun i => vectorAt pool i = level := by
  have covers : ∀ i ∈ List.range pool.length, vectorAt pool i ∈ vectorLevels pool := by
    intro i node
    have atI := List.getElem?_eq_getElem (List.mem_range.1 node)
    rw [vectorAt_of_getElem? atI]
    exact mem_vectorLevels_iff.2 ⟨_, List.mem_of_getElem? atI, rfl⟩
  have occupied : ∀ level ∈ vectorLevels pool, ∃ i ∈ List.range pool.length,
      vectorAt pool i = level := by
    intro level member
    obtain ⟨a, inPool, rfl⟩ := mem_vectorLevels_iff.1 member
    obtain ⟨i, atI⟩ := List.mem_iff_getElem?.1 inPool
    exact ⟨i, List.mem_range.2 (List.getElem?_eq_some_iff.1 atI).1, vectorAt_of_getElem? atI⟩
  rw [h.fronts_eq, naiveFronts_eq_map (pairwise_vectorLevels pool) covers occupied
    fun i left j right => dominatesAt_lexicographic_iff accepted numbers (List.mem_range.1 left)
      (List.mem_range.1 right)]
  exact List.map_congr_left fun level _ => List.filter_congr fun i _ => decide_eq_decide.2 Iff.rfl

/-- The rank of a position is the place of its vector among all vectors. -/
theorem Fronts.IsPeelingOf.getElem?_vectorLevels {f : Fronts}
    (h : f.IsPeelingOf (dominatesAt Criterion.lexicographic.compare pool) pool.length) {r : Nat}
    (rank : f.ranks[i]? = some r) : (vectorLevels pool)[r]? = some (vectorAt pool i) := by
  have inFront := (h.rank_iff i r).1 rank
  rw [Fronts.front, h.fronts_eq_classes accepted numbers, List.getD_eq_getElem?_getD,
    List.getElem?_map] at inFront
  cases atR : (vectorLevels pool)[r]? with
  | none =>
    rw [atR] at inFront
    cases inFront
  | some level =>
    rw [atR] at inFront
    rw [of_decide_eq_true (List.mem_filter.1 inFront).2]

theorem lexicographicallyLess_iff_vectorAt {j : Nat} {b : Solution} (atI : pool[i]? = some a)
    (atJ : pool[j]? = some b) :
    LexicographicallyLess a.objectives b.objectives ↔ vectorAt pool i < vectorAt pool j := by
  have left := List.mem_of_getElem? atI
  have right := List.mem_of_getElem? atJ
  rw [vectorAt_of_getElem? atI, vectorAt_of_getElem? atJ]
  exact lexicographicallyLess_iff (numbers a left) (numbers b right)
    (objectives_length_eq accepted left right)

theorem length_smallerVectors (member : a ∈ pool) :
    (smallerVectors pool a.objectives).length =
      ((vectorLevels pool).filter fun level => decide (level < a.vectorPlace)).length := by
  have smaller : (pool.map Solution.objectives).filter
      (fun u => decide (LexicographicallyLess u a.objectives)) =
        (pool.filter fun s => decide (s.vectorPlace < a.vectorPlace)).map Solution.objectives := by
    rw [List.filter_map]
    refine congrArg _ (List.filter_congr fun s inPool => decide_eq_decide.2 ?_)
    exact lexicographicallyLess_iff (numbers s inPool) (numbers a member)
      (objectives_length_eq accepted inPool member)
  have numeric {u : List Float} (inside : u ∈ (pool.filter fun s =>
      decide (s.vectorPlace < a.vectorPlace)).map Solution.objectives) : AllNumbers u := by
    obtain ⟨s, inPool, rfl⟩ := List.mem_map.1 inside
    exact numbers s (List.mem_of_mem_filter inPool)
  have distinct := (pairwise_vectorLevels pool).imp (S := (· ≠ ·)) fun less => ne_of_lt less
  have count := @length_eraseDups _ _ _ _ (List.map units) _ fun u hu v hv =>
    beq_iff_map_units (numeric hu) (numeric hv)
  rw [smallerVectors, smaller, count, List.map_map]
  rw [← List.toFinset_card_of_nodup (distinct.filter _), List.toFinset_filter, vectorLevels,
    Finset.sort_toFinset, ← List.toFinset_filter, List.filter_map]
  rfl

omit accepted in
/-- A class holds the positions of all solutions with one objective vector. -/
theorem positionsWhere_beq_eq (member : a ∈ pool) :
    positionsWhere pool (fun s => s.objectives == a.objectives) =
      (List.range pool.length).filter fun i => vectorAt pool i = a.vectorPlace := by
  refine List.filter_congr fun i node => ?_
  have atI := List.getElem?_eq_getElem (List.mem_range.1 node)
  rw [vectorAt_of_getElem? atI, atI, Option.any_some, Bool.eq_iff_iff, decide_eq_true_iff]
  exact beq_iff_map_units (numbers _ (List.mem_of_getElem? atI)) (numbers a member)

end Numbers

/-- On a pool of equal widths without undefined objective values, the rank of each solution under
lexicographic dominance is the number of different objective vectors in the pool that are smaller
than its own. The fronts are the classes of numerically equal vectors, from the smallest vector to
the largest. -/
theorem sortIntoFronts_lexicographic (accepted : commonWidths pool = .ok w)
    (numbers : ∀ s ∈ pool, AllNumbers s.objectives) :
    ∃ f, sortIntoFronts Criterion.lexicographic.compare pool = .ok f ∧
      (∀ (i : Nat) (a : Solution), pool[i]? = some a →
        f.ranks[i]? = some (smallerVectors pool a.objectives).length) ∧
      (∀ front, front ∈ f.fronts ↔
        ∃ a ∈ pool, front = positionsWhere pool fun s => s.objectives == a.objectives) ∧
      f.fronts.Pairwise fun front later => ∀ i ∈ front, ∀ j ∈ later,
        ∃ a b, pool[i]? = some a ∧ pool[j]? = some b ∧
          LexicographicallyLess a.objectives b.objectives := by
  obtain ⟨f, sorted, h⟩ :=
    sortIntoFronts_eq_ok accepted (Criterion.lexicographic.antisymmetricOn accepted)
  have classes := h.fronts_eq_classes accepted numbers
  refine ⟨f, sorted, fun i a atI => ?_, fun front => ?_, ?_⟩
  · obtain ⟨r, rank⟩ := h.exists_rank (List.getElem?_eq_some_iff.1 atI).1
    have atR := h.getElem?_vectorLevels accepted numbers rank
    rw [rank, length_smallerVectors accepted numbers (List.mem_of_getElem? atI)]
    rw [vectorAt_of_getElem? atI] at atR
    rw [length_filter_lt (pairwise_vectorLevels pool) atR fun _ => decide_eq_true_iff]
  · rw [classes, List.mem_map]
    constructor
    · rintro ⟨level, member, rfl⟩
      obtain ⟨a, inPool, rfl⟩ := mem_vectorLevels_iff.1 member
      exact ⟨a, inPool, (positionsWhere_beq_eq numbers inPool).symm⟩
    · rintro ⟨a, inPool, rfl⟩
      exact ⟨a.vectorPlace, mem_vectorLevels_iff.2 ⟨a, inPool, rfl⟩,
        (positionsWhere_beq_eq numbers inPool).symm⟩
  · rw [classes, List.pairwise_map]
    refine (pairwise_vectorLevels pool).imp fun {level level'} less i inFront j inLater => ?_
    obtain ⟨left, atI⟩ := List.mem_filter.1 inFront
    obtain ⟨right, atJ⟩ := List.mem_filter.1 inLater
    have foundI := List.getElem?_eq_getElem (List.mem_range.1 left)
    have foundJ := List.getElem?_eq_getElem (List.mem_range.1 right)
    refine ⟨_, _, foundI, foundJ, ?_⟩
    rw [lexicographicallyLess_iff_vectorAt accepted numbers foundI foundJ,
      of_decide_eq_true atI, of_decide_eq_true atJ]
    exact less

/-- Equal vectors with zeros of both signs and with different constraints, and an infinite value.
No rank is skipped after a front of several solutions. -/
def vectors : List Solution :=
  [⟨[], [1, 5], [2]⟩, ⟨[], [-0.0, 7], [0]⟩, ⟨[], [1 / 0, 0], [1]⟩, ⟨[], [0, 7], [0 / 0]⟩,
    ⟨[], [0, 2], [0]⟩, ⟨[], [1, 5], [0]⟩]

theorem sortIntoFronts_lexicographic_vectors :
    ∃ f, sortIntoFronts Criterion.lexicographic.compare vectors = .ok f ∧
      f.fronts = [[4], [1, 3], [0, 5], [2]] ∧
      f.ranks[5]? = some (smallerVectors vectors [1, 5]).length ∧
      (smallerVectors vectors [1, 5]).length = 2 := by
  obtain ⟨f, sorted, ranks, -⟩ :=
    @sortIntoFronts_lexicographic vectors ⟨2, 1⟩ rfl (by decide +kernel)
  have value : f = ⟨[2, 1, 3, 1, 0, 2], [[4], [1, 3], [0, 5], [2]]⟩ :=
    Except.ok.inj (sorted.symm.trans (by decide +kernel))
  exact ⟨f, sorted, by rw [value], ranks 5 ⟨[], [1, 5], [0]⟩ rfl, by decide +kernel⟩

end ParetoFront
