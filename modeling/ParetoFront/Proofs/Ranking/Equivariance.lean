import ParetoFront.Proofs.Fronts.Relabelling
import ParetoFront.Proofs.Ranking.ClosedForm
import ParetoFront.Proofs.Ranking.RankTable

/-!
# Rank tables of reordered pools

Which pairs are compared from which side, in which order a round meets the members of a front, and
how equal values stand next to each other all depend on the order of a pool. The rank table does
not: it says the same of each solution, at the position that the solution now has.

## Main statements

- `standsFor_membersAt` — the positions of a reordered pool stand for those of the pool
- `rankTable_membersAt` — the rank table of a reordered pool
-/

namespace ParetoFront

variable {compare : Comparator} {pool : List Solution} {w : Widths} {order : List Nat}

section Reordered

variable (reordered : order.Perm (List.range pool.length))
include reordered

theorem lt_of_mem_order : ∀ i ∈ order, i < pool.length := fun _ member =>
  List.mem_range.1 (reordered.subset member)

theorem length_order : order.length = pool.length := by
  rw [reordered.length_eq, List.length_range]

theorem membersAt_perm : (membersAt pool order).Perm pool := by
  have perm : (membersAt pool order).Perm (membersAt pool (List.range pool.length)) :=
    reordered.filterMap _
  rwa [membersAt_range] at perm

theorem getElem?_order {i : Nat} (node : i < pool.length) : order[i]? = some (order.getD i 0) :=
  getElem?_eq_getD (by rwa [length_order reordered])

theorem getElem?_membersAt_order {i : Nat} (node : i < pool.length) :
    (membersAt pool order)[i]? = pool[order.getD i 0]? :=
  getElem?_membersAt_getD (lt_of_mem_order reordered) (by rwa [length_order reordered])

/-- The positions of the reordered pool stand for the positions that their solutions had. -/
theorem standsFor_membersAt :
    StandsFor (fun i => order.getD i 0) (dominatesAt compare (membersAt pool order))
      (dominatesAt compare pool) (List.range pool.length) (List.range pool.length) where
  perm := by rwa [← length_order reordered, map_getD_range, length_order reordered]
  nodup := List.nodup_range
  same i left j right := by
    rw [← length_order reordered, List.mem_range] at left right
    exact dominatesAt_membersAt (lt_of_mem_order reordered)
      (reordered.nodup_iff.2 List.nodup_range) left right

/-- The members of a front are, in some order, those that they were. -/
theorem membersAt_membersAt_perm {front front' : List Nat}
    (inside : ∀ i ∈ front', i < pool.length)
    (renamed : (front'.map fun i => order.getD i 0).Perm front) :
    (membersAt (membersAt pool order) front').Perm (membersAt pool front) := by
  rw [membersAt_membersAt (lt_of_mem_order reordered) fun i member => by
    rw [length_order reordered]
    exact inside i member]
  exact renamed.filterMap _

end Reordered

/-- For every comparator that says the same from both sides, cyclic ones included, the row of a
solution in the table of a reordered pool is the row that it had, at its new position. Distances are
the same floats, or are both undefined. -/
theorem rankTable_membersAt (accepted : commonWidths pool = .ok w)
    (antisymmetric : compare.AntisymmetricOn pool)
    (reordered : order.Perm (List.range pool.length)) :
    ∃ table table', rankTable compare pool = .ok table ∧
      rankTable compare (membersAt pool order) = .ok table' ∧
      table.map Ranked.index = List.range pool.length ∧
      table'.map Ranked.index = List.range pool.length ∧
      ∀ i j : Nat, order[i]? = some j → (membersAt pool order)[i]? = pool[j]? ∧
        ∃ row : Ranked, table[j]? = some row ∧ table'[i]? = some { row with index := i } := by
  have perm := membersAt_perm reordered
  have accepted' := commonWidths_eq_ok_of_perm perm accepted
  have antisymmetric' : compare.AntisymmetricOn (membersAt pool order) :=
    fun a left b right => antisymmetric a (perm.subset left) b (perm.subset right)
  obtain ⟨f, sorted, h⟩ := sortIntoFronts_eq_ok accepted antisymmetric
  obtain ⟨f', sorted', h'⟩ := sortIntoFronts_eq_ok accepted' antisymmetric'
  refine ⟨f.table pool, f'.table (membersAt pool order), h.rankTable_eq_ok accepted sorted,
    h'.rankTable_eq_ok accepted' sorted', h.map_index_table, ?_, ?_⟩
  · rw [h'.map_index_table, perm.length_eq]
  · intro i j here
    have peeled' := h'
    rw [perm.length_eq] at peeled'
    have node : i < pool.length := by
      rw [← length_order reordered]
      exact (List.getElem?_eq_some_iff.1 here).1
    obtain rfl : order.getD i 0 = j :=
      Option.some.inj ((getElem?_order reordered node).symm.trans here)
    have renamed := @standsFor_membersAt compare pool order reordered
    obtain ⟨r, rank'⟩ := peeled'.exists_rank node
    have rank := rank'
    rw [h.ranks_eq peeled' renamed node] at rank
    have inFront := (h.rank_iff _ r).1 rank
    have inFront' := (h'.rank_iff i r).1 rank'
    have inside' : ∀ i ∈ f'.front r, i < (membersAt pool order).length :=
      fun _ member => h'.lt_of_mem_front member
    -- the distance is that among the same members
    have members := membersAt_membersAt_perm reordered
      (fun i member => peeled'.lt_of_mem_front member) (h.front_perm peeled' renamed r)
    have solution := List.getElem?_eq_getElem (h.lt_of_mem_front inFront)
    have solution' := (getElem?_membersAt_order reordered node).trans solution
    have row := mem_rowsOf accepted (fun _ member => h.lt_of_mem_front member) inFront solution r
    have row' := mem_rowsOf accepted' inside' inFront' solution' r
    rw [distanceAmong_perm members] at row'
    refine ⟨getElem?_membersAt_order reordered node, _, h.getElem?_table accepted row, ?_⟩
    exact h'.getElem?_table accepted' row'

/-- A cycle in which two solutions have the same value, and a solution that beats none of them. -/
theorem rankTable_membersAt_cycle :
    let compare : Comparator := fun a b => .ok (playGame a b)
    let pool : List Solution := [.ofObjectives [2], .ofObjectives [1], .ofObjectives [0],
      .ofObjectives [1], .ofObjectives [10]]
    let table : List Ranked := [⟨0, 1, some infinite⟩, ⟨1, 1, some 1⟩, ⟨2, 1, some infinite⟩,
      ⟨3, 1, some 1⟩, ⟨4, 0, some infinite⟩]
    rankTable compare pool = .ok table ∧
      ∃ table', rankTable compare (membersAt pool [3, 4, 2, 0, 1]) = .ok table' ∧
        table'[0]? = some ⟨0, 1, some 1⟩ ∧ table'[3]? = some ⟨3, 1, some infinite⟩ := by
  intro compare pool table
  have isTable : rankTable compare pool = .ok table := by decide +kernel
  obtain ⟨found, table', isFound, isTable', -, -, same⟩ :=
    @rankTable_membersAt compare pool ⟨1, 0⟩ [3, 4, 2, 0, 1] rfl (.of_relation (by decide))
      (by decide)
  obtain rfl : found = table := Except.ok.inj (isFound.symm.trans isTable)
  obtain ⟨-, row, atThree, moved⟩ := same 0 3 rfl
  obtain ⟨-, row', atZero, moved'⟩ := same 3 0 rfl
  obtain rfl : ⟨3, 1, some 1⟩ = row := Option.some.inj atThree
  obtain rfl : ⟨0, 1, some infinite⟩ = row' := Option.some.inj atZero
  exact ⟨isTable, table', isTable', moved, moved'⟩

end ParetoFront
