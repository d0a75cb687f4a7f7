/-!
# Stable sorting

Insertion sort by structural recursion, so that proofs and the kernel can evaluate it. Fronts are
short, and a stable sort is what the order of equal elements asks for.

## Main definitions

- `insertSorted` — puts an element into a sorted list
- `stableSort` — the sorted list, in which elements that may precede each other keep their order

## Main statements

- `stableSort_perm` — no element is lost or added
- `pairwise_stableSort` — the result is sorted, for a transitive and total order
-/

namespace ParetoFront

variable {α : Type}

/-- Puts `x` before the first element that it may precede. -/
def insertSorted (le : α → α → Bool) (x : α) : List α → List α
  | [] => [x]
  | y :: ys => if le x y then x :: y :: ys else y :: insertSorted le x ys

def stableSort (le : α → α → Bool) : List α → List α
  | [] => []
  | x :: xs => insertSorted le x (stableSort le xs)

theorem insertSorted_perm (le : α → α → Bool) (x : α) (ys : List α) :
    (insertSorted le x ys).Perm (x :: ys) := by
  induction ys with
  | nil => exact .refl _
  | cons y ys ih =>
    rw [insertSorted]
    by_cases h : le x y = true
    · rw [if_pos h]
    · rw [if_neg h]
      exact (ih.cons y).trans (.swap x y ys)

theorem stableSort_perm (le : α → α → Bool) (xs : List α) : (stableSort le xs).Perm xs := by
  induction xs with
  | nil => exact .refl _
  | cons x xs ih => exact (insertSorted_perm le x _).trans (ih.cons x)

@[simp] theorem length_stableSort (le : α → α → Bool) (xs : List α) :
    (stableSort le xs).length = xs.length :=
  (stableSort_perm le xs).length_eq

@[simp] theorem mem_stableSort {le : α → α → Bool} {xs : List α} {x : α} :
    x ∈ stableSort le xs ↔ x ∈ xs :=
  (stableSort_perm le xs).mem_iff

theorem pairwise_insertSorted {le : α → α → Bool}
    (trans : ∀ a b c, le a b = true → le b c = true → le a c = true)
    (total : ∀ a b, le a b = true ∨ le b a = true) {x : α} {ys : List α}
    (sorted : ys.Pairwise (fun a b => le a b = true)) :
    (insertSorted le x ys).Pairwise (fun a b => le a b = true) := by
  induction ys with
  | nil => exact List.pairwise_singleton _ x
  | cons y ys ih =>
    obtain ⟨first, rest⟩ := List.pairwise_cons.1 sorted
    rw [insertSorted]
    by_cases h : le x y = true
    · rw [if_pos h]
      refine List.pairwise_cons.2 ⟨fun z hz => ?_, sorted⟩
      rcases List.mem_cons.1 hz with rfl | hz
      · exact h
      · exact trans x y z h (first z hz)
    · rw [if_neg h]
      refine List.pairwise_cons.2 ⟨fun z hz => ?_, ih rest⟩
      rcases List.mem_cons.1 ((insertSorted_perm le x ys).mem_iff.1 hz) with rfl | hz
      · exact (total z y).resolve_left h
      · exact first z hz

theorem pairwise_stableSort {le : α → α → Bool}
    (trans : ∀ a b c, le a b = true → le b c = true → le a c = true)
    (total : ∀ a b, le a b = true ∨ le b a = true) (xs : List α) :
    (stableSort le xs).Pairwise (fun a b => le a b = true) := by
  induction xs with
  | nil => exact .nil
  | cons x xs ih => exact pairwise_insertSorted trans total ih

end ParetoFront
