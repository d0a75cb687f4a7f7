import Mathlib.Data.List.Sort
import ParetoFront.StableSort

/-!
# Stable sorting of grouped lists

For a transitive and total order there is but one stable sort, so insertion sort is the merge sort
of the library. It sorts every part of a list as it sorts the list. A list that is sorted by a
numeric key first is thus the concatenation of its groups of equal key, each of them sorted for
itself.

## Main statements

- `stableSort_eq_mergeSort` — it is the merge sort
- `filter_stableSort` — a part of the sorted list is the sorted part
- `eq_flatMap_filter` — a list in ascending order of keys is the concatenation of its groups
-/

namespace ParetoFront

variable {α : Type} {le le' : α → α → Bool} {x : α} {xs ys : List α}

theorem insertSorted_append (after : ∀ y ∈ xs, le x y = false) (before : ∀ y ∈ ys, le x y = true) :
    insertSorted le x (xs ++ ys) = xs ++ x :: ys := by
  induction xs with
  | nil =>
    cases ys with
    | nil => rfl
    | cons y ys =>
      show insertSorted le x (y :: ys) = x :: y :: ys
      rw [insertSorted, if_pos (before y List.mem_cons_self)]
  | cons z xs ih =>
    obtain ⟨first, others⟩ := List.forall_mem_cons.1 after
    rw [List.cons_append, insertSorted, if_neg (by rw [first]; decide), ih others]
    rfl

section Order

variable (trans : ∀ a b c, le a b = true → le b c = true → le a c = true)
  (total : ∀ a b, le a b = true ∨ le b a = true)
include trans total

theorem stableSort_eq_mergeSort (xs : List α) : stableSort le xs = xs.mergeSort le := by
  have total' (a b : α) : (le a b || le b a) = true := by simpa using total a b
  induction xs with
  | nil => exact (List.mergeSort_nil).symm
  | cons x xs ih =>
    obtain ⟨before, after, sorted, rest, greater⟩ := List.mergeSort_cons trans total' x xs
    have ascending := List.pairwise_mergeSort trans total' (x :: xs)
    rw [sorted, List.pairwise_append, List.pairwise_cons] at ascending
    rw [stableSort, ih, rest, sorted]
    refine insertSorted_append ?_ ascending.2.1.1
    intro y member
    exact (Bool.not_eq_true' _).mp (greater y member)

omit total in
theorem filter_insertSorted (p : α → Bool) (sorted : ys.Pairwise fun a b => le a b = true) :
    (insertSorted le x ys).filter p =
      if p x then insertSorted le x (ys.filter p) else ys.filter p := by
  induction ys with
  | nil => cases chosen : p x <;> simp [insertSorted, chosen]
  | cons y ys ih =>
    obtain ⟨first, rest⟩ := List.pairwise_cons.1 sorted
    rw [insertSorted]
    by_cases h : le x y = true
    · rw [if_pos h, List.filter_cons]
      by_cases chosen : p x = true
      · rw [if_pos chosen, if_pos chosen]
        -- what follows `y` follows `x`, so that `x` comes first in every part as well
        refine (@insertSorted_append _ le x [] _ (List.forall_mem_nil _) ?_).symm
        intro z member
        obtain rfl | later := List.mem_cons.1 (List.mem_of_mem_filter member)
        · exact h
        · exact trans x y z h (first z later)
      · rw [if_neg chosen, if_neg chosen]
    · rw [if_neg h, List.filter_cons, ih rest]
      by_cases here : p y = true
      · rw [if_pos here, List.filter_cons, if_pos here, insertSorted, if_neg h]
        by_cases chosen : p x = true
        · rw [if_pos chosen, if_pos chosen]
        · rw [if_neg chosen, if_neg chosen]
      · rw [if_neg here, List.filter_cons, if_neg here]

theorem filter_stableSort (p : α → Bool) (xs : List α) :
    (stableSort le xs).filter p = stableSort le (xs.filter p) := by
  induction xs with
  | nil => rfl
  | cons x xs ih =>
    rw [stableSort, filter_insertSorted trans p (pairwise_stableSort trans total xs), ih,
      List.filter_cons]
    by_cases chosen : p x = true
    · rw [if_pos chosen, if_pos chosen]
      rfl
    · rw [if_neg chosen, if_neg chosen]

end Order

theorem insertSorted_congr (same : ∀ y ∈ ys, le x y = le' x y) :
    insertSorted le x ys = insertSorted le' x ys := by
  induction ys with
  | nil => rfl
  | cons y ys ih =>
    obtain ⟨first, others⟩ := List.forall_mem_cons.1 same
    rw [insertSorted, insertSorted, first, ih others]

/-- Only the order among the elements matters. -/
theorem stableSort_congr (same : ∀ a ∈ xs, ∀ b ∈ xs, le a b = le' a b) :
    stableSort le xs = stableSort le' xs := by
  induction xs with
  | nil => rfl
  | cons x xs ih =>
    have later : ∀ a ∈ xs, ∀ b ∈ xs, le a b = le' a b := fun a left b right =>
      same a (List.mem_cons_of_mem x left) b (List.mem_cons_of_mem x right)
    rw [stableSort, stableSort, ih later]
    refine insertSorted_congr fun y member => ?_
    exact same x List.mem_cons_self y (List.mem_cons_of_mem x (mem_stableSort.1 member))

section Groups

variable {key : α → Nat}

theorem filter_lt_append_filter_le (sorted : xs.Pairwise fun a b => key a ≤ key b) (n : Nat) :
    (xs.filter fun a => key a < n) ++ (xs.filter fun a => n ≤ key a) = xs := by
  induction xs with
  | nil => rfl
  | cons x xs ih =>
    obtain ⟨first, rest⟩ := List.pairwise_cons.1 sorted
    by_cases below : key x < n
    · simp [below, Nat.not_le.2 below, ih rest]
    · have above : ∀ a ∈ x :: xs, n ≤ key a := by
        intro a member
        obtain rfl | later := List.mem_cons.1 member
        · exact Nat.le_of_not_lt below
        · exact Nat.le_trans (Nat.le_of_not_lt below) (first a later)
      rw [List.filter_eq_nil_iff.2, List.filter_eq_self.2, List.nil_append]
      · exact fun a member => decide_eq_true (above a member)
      · exact fun a member => by simpa using above a member

/-- A list in ascending order of keys is the concatenation of its groups of equal key. -/
theorem eq_flatMap_filter (sorted : xs.Pairwise fun a b => key a ≤ key b) {n : Nat}
    (bounded : ∀ a ∈ xs, key a < n) :
    xs = (List.range n).flatMap fun r => xs.filter fun a => key a = r := by
  induction n generalizing xs with
  | zero =>
    exact List.eq_nil_iff_forall_not_mem.2 fun a member => Nat.not_lt_zero _ (bounded a member)
  | succ n ih =>
    have below := @ih (xs.filter fun a => key a < n) (sorted.sublist List.filter_sublist)
      fun a member => of_decide_eq_true (List.mem_filter.1 member).2
    have last : (xs.filter fun a => n ≤ key a) = xs.filter fun a => key a = n := by
      refine List.filter_congr fun a member => decide_eq_decide.2 ?_
      have := bounded a member
      omega
    conv_lhs => rw [← filter_lt_append_filter_le sorted n, below, last]
    rw [List.range_succ, List.flatMap_append, List.flatMap_singleton]
    refine congrArg (· ++ _) (List.flatMap_congr fun r member => ?_)
    rw [List.filter_filter]
    refine List.filter_congr fun a _ => ?_
    rw [← Bool.decide_and]
    refine decide_eq_decide.2 (and_iff_left_of_imp ?_)
    rintro rfl
    exact List.mem_range.1 member

end Groups

end ParetoFront
