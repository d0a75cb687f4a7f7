import Mathlib.Data.List.Basic
import ParetoFront.Survivors

/-!
# Rankings depend on the comparisons only

Two comparators that answer alike on a pool, each pair with the earlier solution on the left, rank
it alike. They fail alike as well.

## Main definitions

- `Comparator.AgreesOn` — two comparators answer alike on a pool

## Main statements

- `Comparator.AgreesOn.sortIntoFronts_eq`, `Comparator.AgreesOn.rankTable_eq`,
  `Comparator.AgreesOn.survivors_eq`
-/

namespace ParetoFront

theorem mapM_congr {α β : Type} {f g : α → Except Fault β} {xs : List α}
    (same : ∀ x ∈ xs, f x = g x) : xs.mapM f = xs.mapM g := by
  induction xs with
  | nil => rfl
  | cons x xs ih =>
    obtain ⟨first, others⟩ := List.forall_mem_cons.1 same
    rw [List.mapM_cons, List.mapM_cons, first, ih others]

namespace Comparator

/-- Two comparators give the same answer, or the same fault, for each pair of the pool, the earlier
solution on the left. -/
def AgreesOn (compare compare' : Comparator) (pool : List Solution) : Prop :=
  pool.Pairwise fun a b => compare a b = compare' a b

namespace AgreesOn

variable {compare compare' : Comparator} {pool : List Solution}

theorem of_forall (same : ∀ a ∈ pool, ∀ b ∈ pool, compare a b = compare' a b) :
    compare.AgreesOn compare' pool :=
  List.pairwise_of_forall_mem_list same

theorem edgesFrom_eq (agree : compare.AgreesOn compare' pool) (i : Nat) :
    DominationGraph.edgesFrom compare i pool = DominationGraph.edgesFrom compare' i pool := by
  induction pool generalizing i with
  | nil => rfl
  | cons s rest ih =>
    obtain ⟨first, others⟩ := List.pairwise_cons.1 agree
    rw [DominationGraph.edgesFrom, DominationGraph.edgesFrom, mapM_congr first, ih others]

variable (agree : compare.AgreesOn compare' pool)
include agree

theorem sortIntoFronts_eq : sortIntoFronts compare pool = sortIntoFronts compare' pool := by
  rw [sortIntoFronts, sortIntoFronts, DominationGraph.ofPool, DominationGraph.ofPool,
    agree.edgesFrom_eq]

theorem rankTable_eq : rankTable compare pool = rankTable compare' pool := by
  rw [rankTable, rankTable, agree.sortIntoFronts_eq]

theorem survivors_eq (k : Nat) : survivors compare pool k = survivors compare' pool k := by
  rw [survivors, survivors, agree.sortIntoFronts_eq]

end AgreesOn

end Comparator

end ParetoFront
