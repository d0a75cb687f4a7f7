import ParetoFront.Proofs.Fronts.StrictOrder
import ParetoFront.Proofs.Ranking.Survivors

/-!
# Survivors are not dominated by those who leave

The front that is cut is cut by crowding distance, which knows nothing about dominance. Still, under
a strict order a dominator stands in a front before that of the solution it dominates, and all
fronts before one of which anything survives are kept whole.

## Main statements

- `Fronts.mem_fillPlaces` — fronts before that of a survivor are kept whole
- `survivors_elitist` — whatever dominates a survivor survives, and stands before it
-/

namespace ParetoFront

variable {compare : Comparator} {pool : List Solution} {w : Widths} {f : Fronts} {places : Nat}
  {row : Ranked}

/-- A row that is chosen is a row of the front of its rank, and the fronts before that are kept
whole. -/
theorem Fronts.mem_fillPlaces (member : row ∈ fillPlaces places (f.groups pool)) :
    row ∈ f.rows pool row.rank ∧
      ∀ s < row.rank, f.rows pool s ⊆ fillPlaces places (f.groups pool) := by
  obtain ⟨cut, m, -, rows⟩ := f.exists_fillPlaces_eq pool places
  have whole {s : Nat} (before : s < cut) : f.rows pool s ⊆ fillPlaces places (f.groups pool) := by
    intro other inside
    rw [rows]
    exact List.mem_append_left _ (List.mem_flatMap.2 ⟨s, List.mem_range.2 before, inside⟩)
  rw [rows, List.mem_append] at member
  obtain kept | chosen := member
  · obtain ⟨r, within, inside⟩ := List.mem_flatMap.1 kept
    obtain rfl := rank_of_mem_rowsOf inside
    exact ⟨inside, fun s before => whole (Nat.lt_trans before (List.mem_range.1 within))⟩
  · have inside := (bySpread_perm _).subset (List.mem_of_mem_take chosen)
    obtain rfl := rank_of_mem_rowsOf inside
    exact ⟨inside, fun s before => whole before⟩

/-- In the order of rank, a row of smaller rank stands earlier. -/
theorem exists_getElem?_of_rank_lt {rows : List Ranked}
    (ordered : rows.Pairwise fun a b => a.rank ≤ b.rank) {p : Nat} (atP : rows[p]? = some row)
    {other : Ranked} (member : other ∈ rows) (before : other.rank < row.rank) :
    ∃ q < p, rows[q]? = some other := by
  obtain ⟨q, atQ⟩ := List.mem_iff_getElem?.1 member
  refine ⟨q, Nat.lt_of_not_le fun late => ?_, atQ⟩
  obtain ⟨withinP, rfl⟩ := List.getElem?_eq_some_iff.1 atP
  obtain ⟨withinQ, rfl⟩ := List.getElem?_eq_some_iff.1 atQ
  obtain later | rfl := Nat.lt_or_eq_of_le late
  · have := List.pairwise_iff_getElem.1 ordered p q withinP withinQ later
    omega
  · exact Nat.lt_irrefl _ before

/-- Under a comparator that is antisymmetric and transitive on the pool, whatever dominates a
survivor is a survivor as well, of smaller rank, and stands before it; as many survive as asked for,
or all. All criteria are of this kind on pools without undefined floats. -/
theorem survivors_elitist (pool : List Solution) (w : Widths)
    (accepted : commonWidths pool = .ok w) :
    (∀ (compare : Comparator) (k : Nat), compare.AntisymmetricOn pool → compare.TransitiveOn pool →
      ∃ rows, survivors compare pool k = .ok rows ∧ rows.length = min k pool.length ∧
        ∀ (p : Nat) (row : Ranked), rows[p]? = some row → ∃ a, pool[row.index]? = some a ∧
          ∀ (j : Nat) (b : Solution), pool[j]? = some b → compare b a = .ok .left →
            ∃ q < p, ∃ other : Ranked, rows[q]? = some other ∧ other.index = j ∧
              other.rank < row.rank) ∧
      ∀ r : Criterion, r.compare.AntisymmetricOn pool ∧
        ((∀ s ∈ pool, r.Numeric s) → r.compare.TransitiveOn pool) := by
  refine ⟨?_, fun r => ⟨r.antisymmetricOn accepted, r.transitiveOn accepted⟩⟩
  intro compare k antisymmetric transitive
  obtain ⟨f, sorted, h⟩ := sortIntoFronts_eq_ok accepted antisymmetric
  refine ⟨_, h.survivors_eq_ok accepted sorted k, ?_, ?_⟩
  · rw [length_fillPlaces, h.length_flatten_groups accepted]
    omega
  intro p row atP
  obtain ⟨inside, whole⟩ := Fronts.mem_fillPlaces (List.mem_of_getElem? atP)
  have ranked := (h.ranks_of_mem_rows accepted inside).2
  have node : row.index < pool.length :=
    h.lt_of_mem_front ((h.rank_iff row.index row.rank).1 ranked)
  refine ⟨pool[row.index], List.getElem?_eq_getElem node, ?_⟩
  intro j b atJ wins
  obtain ⟨s, rankedJ, before⟩ := h.exists_rank_lt antisymmetric transitive ranked atJ
    (List.getElem?_eq_getElem node) wins
  -- the dominator has a row in its front, which is kept whole
  have member : j ∈ (f.rows pool s).map Ranked.index := by
    rw [h.map_index_rows accepted]
    exact (h.rank_iff j s).1 rankedJ
  obtain ⟨other, inFront, rfl⟩ := List.mem_map.1 member
  have smaller : other.rank < row.rank := rank_of_mem_rowsOf inFront ▸ before
  obtain ⟨q, earlier, atQ⟩ := exists_getElem?_of_rank_lt (f.pairwise_rank_fillPlaces pool _) atP
    (whole s before inFront) smaller
  exact ⟨q, earlier, other, atQ, rfl, smaller⟩

/-- Two solutions that nothing dominates, two that only these dominate, and one below all. -/
def rivals : List Solution :=
  [.ofObjectives [5, 5], .ofObjectives [3, 3], .ofObjectives [0, 4], .ofObjectives [2, 2],
    .ofObjectives [2, 4]]

/-- Of the second front one solution survives, and with it the solution that dominates it. -/
theorem survivors_elitist_rivals :
    ∃ rows, survivors Criterion.pareto.compare rivals 3 = .ok rows ∧
      rows.map Ranked.index = [2, 3, 1] ∧
      ∃ q < 2, ∃ other : Ranked, rows[q]? = some other ∧ other.index = 3 ∧ other.rank < 1 := by
  obtain ⟨elitist, criteria⟩ := survivors_elitist rivals ⟨2, 0⟩ rfl
  obtain ⟨antisymmetric, transitive⟩ := criteria .pareto
  obtain ⟨rows, isOk, -, before⟩ :=
    elitist Criterion.pareto.compare 3 antisymmetric (transitive (by decide +kernel))
  have value : rows = [⟨2, 0, some infinite⟩, ⟨3, 0, some infinite⟩, ⟨1, 1, some infinite⟩] :=
    Except.ok.inj (isOk.symm.trans rfl)
  subst value
  obtain ⟨a, atA, dominators⟩ := before 2 ⟨1, 1, some infinite⟩ rfl
  obtain rfl : Solution.ofObjectives [3, 3] = a := Option.some.inj atA
  exact ⟨_, isOk, rfl, dominators 3 (.ofObjectives [2, 2]) rfl (by decide)⟩

end ParetoFront
