import ParetoFront.Proofs.Fronts.StrictOrder

/-!
# Ranks in a growing pool

Under a strict order ranks are lengths of longest chains. One more solution leaves all chains as
they are, and a longer chain has to pass through it. Such a chain ends at something that the new
solution dominates, and the dominators of the new solution dominate that as well, so that the chain
without the new solution is shorter by one at most.

## Main statements

- `Fronts.IsPeelingOf.isGreatest_chain` — ranks under a strict order
- `chain_of_chain_concat`, `exists_chain_of_chain_concat` — chains without the new solution
- `sortIntoFronts_concat` — the ranks of a pool before and after one more solution
-/

namespace ParetoFront

variable {compare : Comparator} {pool : List Solution} {s : Solution} {w : Widths}

theorem Comparator.AntisymmetricOn.subset {part : List Solution} (inside : part ⊆ pool)
    (h : compare.AntisymmetricOn pool) : compare.AntisymmetricOn part :=
  fun a ha b hb => h a (inside ha) b (inside hb)

theorem Comparator.TransitiveOn.subset {part : List Solution} (inside : part ⊆ pool)
    (h : compare.TransitiveOn pool) : compare.TransitiveOn part :=
  fun a ha b hb c hc => h a (inside ha) b (inside hb) c (inside hc)

/-- The domination graph of a pool is that of the larger pool without the new position. -/
theorem dominatesAt_concat_iff {i j : Nat} :
    dominatesAt compare pool i j = true ↔
      Away (fun i j => dominatesAt compare (pool ++ [s]) i j = true) pool.length i j := by
  have same (left : i < pool.length) (right : j < pool.length) :
      dominatesAt compare (pool ++ [s]) i j = dominatesAt compare pool i j := by
    rw [dominatesAt, dominatesAt, List.getElem?_append_left left, List.getElem?_append_left right]
  constructor
  · intro edge
    obtain ⟨left, right⟩ := lt_of_dominatesAt edge
    exact ⟨(same left right).trans edge, Nat.ne_of_lt left, Nat.ne_of_lt right⟩
  · rintro ⟨edge, otherLeft, otherRight⟩
    obtain ⟨left, right⟩ := lt_of_dominatesAt edge
    rw [List.length_append, List.length_singleton] at left right
    exact (same (by omega) (by omega)).symm.trans edge

/-- Under a strict order each rank is the length of the longest chain. -/
theorem Fronts.IsPeelingOf.isGreatest_chain {f : Fronts} {i r : Nat}
    (h : f.IsPeelingOf (dominatesAt compare pool) pool.length)
    (antisymmetric : compare.AntisymmetricOn pool) (transitive : compare.TransitiveOn pool)
    (atI : f.ranks[i]? = some r) :
    IsGreatest {k | Chain (fun i j => dominatesAt compare pool i j = true) k i} r :=
  (h.layered fun _ _ => lt_of_dominatesAt).isGreatest_chain
    (h.not_isForced antisymmetric transitive r) atI

/-! ### Chains with the new solution -/

theorem chain_concat {i k : Nat}
    (chain : Chain (fun i j => dominatesAt compare pool i j = true) k i) :
    Chain (fun i j => dominatesAt compare (pool ++ [s]) i j = true) k i :=
  chain.imp fun _ _ edge => (dominatesAt_concat_iff.1 edge).1

section Strict

variable (antisymmetric : compare.AntisymmetricOn (pool ++ [s]))
  (transitive : compare.TransitiveOn (pool ++ [s])) {i k : Nat} (node : i < pool.length)
  (chain : Chain (fun i j => dominatesAt compare (pool ++ [s]) i j = true) k i)
include antisymmetric transitive node chain

/-- The new solution is on no chain to something that it does not dominate. -/
theorem chain_of_chain_concat
    (spared : dominatesAt compare (pool ++ [s]) pool.length i = false) :
    Chain (fun i j => dominatesAt compare pool i j = true) k i := by
  have trans (i j k : Nat) := @dominatesAt_trans compare _ antisymmetric transitive i j k
  have free : ¬ dominatesAt compare (pool ++ [s]) pool.length i = true := by
    rw [spared]
    exact Bool.false_ne_true
  exact (chain.away trans (Nat.ne_of_lt node) free).imp fun _ _ => dominatesAt_concat_iff.2

/-- Without the new solution a chain is shorter by one at most. -/
theorem exists_chain_of_chain_concat :
    ∃ m, k ≤ m + 1 ∧ Chain (fun i j => dominatesAt compare pool i j = true) m i := by
  have trans (i j k : Nat) := @dominatesAt_trans compare _ antisymmetric transitive i j k
  obtain ⟨m, shorter, spliced⟩ := chain.splice trans (fun j => by simp) (Nat.ne_of_lt node)
  exact ⟨m, shorter, spliced.imp fun _ _ => dominatesAt_concat_iff.2⟩

end Strict

/-- The edges from the new position are what the comparator says of the new solution. -/
theorem dominatesAt_concat_length_iff (antisymmetric : compare.AntisymmetricOn (pool ++ [s]))
    {i : Nat} {a : Solution} (atI : pool[i]? = some a) :
    dominatesAt compare (pool ++ [s]) pool.length i = true ↔ compare s a = .ok .left := by
  have node : i < pool.length := (List.getElem?_eq_some_iff.1 atI).1
  rw [antisymmetric.dominatesAt_iff, List.getElem?_concat_length, List.getElem?_append_left node,
    atI]
  simp

/-! ### Ranks -/

/-- Under a comparator that is antisymmetric and transitive on a pool and one more solution, the new
solution leaves the rank of whatever it does not dominate as it was, and raises the rank of what it
dominates by one or not at all. -/
theorem sortIntoFronts_concat (accepted : commonWidths (pool ++ [s]) = .ok w)
    (antisymmetric : compare.AntisymmetricOn (pool ++ [s]))
    (transitive : compare.TransitiveOn (pool ++ [s])) :
    ∃ f f', sortIntoFronts compare pool = .ok f ∧
      sortIntoFronts compare (pool ++ [s]) = .ok f' ∧
      ∀ (i : Nat) (a : Solution), pool[i]? = some a →
        ∃ r r' : Nat, f.ranks[i]? = some r ∧ f'.ranks[i]? = some r' ∧
          (compare s a ≠ .ok .left → r' = r) ∧
          (compare s a = .ok .left → r' = r ∨ r' = r + 1) := by
  have inside : pool ⊆ pool ++ [s] := List.subset_append_left pool [s]
  obtain ⟨v, accepted'⟩ := exists_commonWidths_of_subset inside accepted
  obtain ⟨f, sorted, h⟩ := sortIntoFronts_eq_ok accepted' (antisymmetric.subset inside)
  obtain ⟨f', sorted', h'⟩ := sortIntoFronts_eq_ok accepted antisymmetric
  refine ⟨f, f', sorted, sorted', fun i a atI => ?_⟩
  have node : i < pool.length := (List.getElem?_eq_some_iff.1 atI).1
  obtain ⟨r, rank⟩ := h.exists_rank node
  obtain ⟨r', rank'⟩ := h'.exists_rank (List.length_append ▸ Nat.lt_add_right _ node)
  have longest := h.isGreatest_chain (antisymmetric.subset inside) (transitive.subset inside) rank
  have longest' := h'.isGreatest_chain antisymmetric transitive rank'
  have kept : r ≤ r' := longest'.2 (chain_concat longest.1)
  refine ⟨r, r', rank, rank', fun spared => Nat.le_antisymm (longest.2 ?_) kept, fun _ => ?_⟩
  · refine chain_of_chain_concat antisymmetric transitive node longest'.1
      (eq_false_of_ne_true fun edge => spared ?_)
    exact (dominatesAt_concat_length_iff antisymmetric atI).1 edge
  · obtain ⟨m, shorter, chain⟩ :=
      exists_chain_of_chain_concat antisymmetric transitive node longest'.1
    have : m ≤ r := longest.2 chain
    omega

/-- One solution has two others to dominate: one that is dominated already, and one that is not. -/
def crowd : List Solution :=
  [.ofObjectives [5, 5], .ofObjectives [6, 9], .ofObjectives [0, 10]]

theorem sortIntoFronts_concat_crowd :
    ∃ f f', sortIntoFronts Criterion.pareto.compare crowd = .ok f ∧
      sortIntoFronts Criterion.pareto.compare (crowd ++ [.ofObjectives [0, 9]]) = .ok f' ∧
      f.ranks = [0, 1, 0] ∧ f'.ranks = [0, 1, 1, 0] ∧
      ∃ r r' : Nat, f.ranks[1]? = some r ∧ f'.ranks[1]? = some r' ∧ (r' = r ∨ r' = r + 1) := by
  have accepted : commonWidths (crowd ++ [.ofObjectives [0, 9]]) = .ok ⟨2, 0⟩ := rfl
  obtain ⟨f, f', sorted, sorted', ranks⟩ := sortIntoFronts_concat accepted
    (Criterion.pareto.antisymmetricOn rfl) (Criterion.pareto.transitiveOn rfl (by decide +kernel))
  have value : f = ⟨[0, 1, 0], [[0, 2], [1]]⟩ := Except.ok.inj (sorted.symm.trans rfl)
  have value' : f' = ⟨[0, 1, 1, 0], [[0, 3], [1, 2]]⟩ := Except.ok.inj (sorted'.symm.trans rfl)
  obtain ⟨r, r', rank, rank', -, raised⟩ := ranks 1 (.ofObjectives [6, 9]) rfl
  exact ⟨f, f', sorted, sorted', by rw [value], by rw [value'], r, r', rank, rank',
    raised (by decide)⟩

end ParetoFront
