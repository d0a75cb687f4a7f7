import Mathlib.Data.List.Nodup
import Mathlib.Logic.Function.Iterate
import ParetoFront.Fronts.Basic

/-!
# Peeling by definition

The fronts of a relation `beats` among finitely many nodes, without any counting: the next front
holds the nodes left over that no node left over beats. When every node left over is beaten, all of
them form the next front, which is the last.

## Main definitions

- `undominated`, `nextFront`, `leftOver` — one round
- `naiveFronts` — all fronts

## Main statements

- `ne_nil_of_mem_naiveFronts`, `sublist_of_mem_naiveFronts` — each front is a nonempty part of the
  nodes
- `flatten_naiveFronts_perm` — the fronts hold each node once
- `getD_naiveFronts`, `mem_iterate_leftOver` — a front by its number, and what is left before it
-/

namespace ParetoFront

variable (beats : Nat → Nat → Bool)

/-- The members of `rest` that no member of `rest` beats. -/
def undominated (rest : List Nat) : List Nat :=
  rest.filter fun j => !rest.any fun i => beats i j

/-- The members that no member beats, or all members when there are no such. -/
def nextFront (rest : List Nat) : List Nat :=
  if undominated beats rest = [] then rest else undominated beats rest

variable {beats}

theorem mem_undominated {rest : List Nat} {j : Nat} :
    j ∈ undominated beats rest ↔ j ∈ rest ∧ ∀ i ∈ rest, beats i j = false := by
  rw [undominated, List.mem_filter, Bool.not_eq_true', List.any_eq_false]
  simp only [Bool.not_eq_true]

theorem undominated_sublist (rest : List Nat) : (undominated beats rest).Sublist rest :=
  List.filter_sublist

theorem nextFront_eq_undominated {rest : List Nat} (h : undominated beats rest ≠ []) :
    nextFront beats rest = undominated beats rest :=
  if_neg h

theorem nextFront_eq_self {rest : List Nat} (h : undominated beats rest = []) :
    nextFront beats rest = rest :=
  if_pos h

theorem nextFront_sublist (rest : List Nat) : (nextFront beats rest).Sublist rest := by
  rw [nextFront]
  by_cases h : undominated beats rest = []
  · rw [if_pos h]
  · rw [if_neg h]
    exact undominated_sublist rest

theorem nextFront_ne_nil {rest : List Nat} (h : rest ≠ []) : nextFront beats rest ≠ [] := by
  by_cases stalled : undominated beats rest = []
  · rwa [nextFront_eq_self stalled]
  · rwa [nextFront_eq_undominated stalled]

variable (beats) in
/-- The members left over once the next front is taken. -/
def leftOver (rest : List Nat) : List Nat :=
  rest.filter fun i => decide (i ∉ nextFront beats rest)

theorem mem_leftOver {rest : List Nat} {i : Nat} :
    i ∈ leftOver beats rest ↔ i ∈ rest ∧ i ∉ nextFront beats rest := by
  simp [leftOver]

theorem leftOver_sublist (rest : List Nat) : (leftOver beats rest).Sublist rest :=
  List.filter_sublist

theorem length_leftOver_lt {rest : List Nat} (h : rest ≠ []) :
    (leftOver beats rest).length < rest.length := by
  obtain ⟨i, member⟩ := List.exists_mem_of_ne_nil _ (@nextFront_ne_nil beats _ h)
  refine List.length_filter_lt_length_iff_exists.2
    ⟨i, (nextFront_sublist rest).subset member, ?_⟩
  simpa using member

variable (beats) in
/-- All fronts of the nodes `rest`. -/
def naiveFronts (rest : List Nat) : List (List Nat) :=
  if rest = [] then [] else nextFront beats rest :: naiveFronts (leftOver beats rest)
termination_by rest.length
decreasing_by exact length_leftOver_lt ‹_›

@[simp] theorem naiveFronts_nil : naiveFronts beats [] = [] := by
  rw [naiveFronts, if_pos rfl]

theorem naiveFronts_of_ne_nil {rest : List Nat} (h : rest ≠ []) :
    naiveFronts beats rest = nextFront beats rest :: naiveFronts beats (leftOver beats rest) := by
  rw [naiveFronts, if_neg h]

theorem ne_nil_of_mem_naiveFronts (rest : List Nat) :
    ∀ front ∈ naiveFronts beats rest, front ≠ [] := by
  induction rest using naiveFronts.induct beats with
  | case1 => simp
  | case2 rest nonempty ih =>
    rw [naiveFronts_of_ne_nil nonempty]
    exact List.forall_mem_cons.2 ⟨nextFront_ne_nil nonempty, ih⟩

/-- Fronts keep the order of the nodes. -/
theorem sublist_of_mem_naiveFronts (rest : List Nat) :
    ∀ front ∈ naiveFronts beats rest, front.Sublist rest := by
  induction rest using naiveFronts.induct beats with
  | case1 => simp
  | case2 rest nonempty ih =>
    rw [naiveFronts_of_ne_nil nonempty]
    refine List.forall_mem_cons.2 ⟨nextFront_sublist rest, ?_⟩
    intro front member
    exact (ih front member).trans (leftOver_sublist rest)

/-- The next front and what is left over are all nodes. -/
theorem nextFront_append_leftOver_perm (rest : List Nat) :
    (nextFront beats rest ++ leftOver beats rest).Perm rest := by
  have part : nextFront beats rest = rest.filter fun i => decide (i ∈ nextFront beats rest) := by
    by_cases stalled : undominated beats rest = []
    · rw [nextFront_eq_self stalled]
      exact (List.filter_eq_self.2 fun i member => decide_eq_true member).symm
    · rw [nextFront_eq_undominated stalled]
      refine List.filter_congr fun i member => ?_
      rw [undominated, Bool.eq_iff_iff, decide_eq_true_iff, List.mem_filter, and_iff_right member]
  have split := List.filter_append_perm (fun i => decide (i ∈ nextFront beats rest)) rest
  rw [← part] at split
  simpa only [leftOver, decide_not] using split

/-- Each node is in one front. -/
theorem flatten_naiveFronts_perm (rest : List Nat) :
    (naiveFronts beats rest).flatten.Perm rest := by
  induction rest using naiveFronts.induct beats with
  | case1 => rw [naiveFronts_nil]; exact .refl _
  | case2 rest nonempty ih =>
    rw [naiveFronts_of_ne_nil nonempty, List.flatten_cons]
    exact (ih.append_left _).trans (nextFront_append_leftOver_perm rest)

/-! ### Single rounds -/

theorem getD_naiveFronts (rest : List Nat) (r : Nat) :
    (naiveFronts beats rest).getD r [] = nextFront beats ((leftOver beats)^[r] rest) := by
  induction rest using naiveFronts.induct beats generalizing r with
  | case1 =>
    have nothing : (leftOver beats)^[r] [] = [] := Function.iterate_fixed rfl r
    rw [nothing, naiveFronts_nil]
    rfl
  | case2 rest nonempty ih =>
    rw [naiveFronts_of_ne_nil nonempty]
    cases r with
    | zero => rfl
    | succ r => exact ih r

/-- What is left over after some rounds is in none of the fronts taken. -/
theorem mem_iterate_leftOver {rest : List Nat} {r i : Nat} :
    i ∈ (leftOver beats)^[r] rest ↔
      i ∈ rest ∧ ∀ s < r, i ∉ (naiveFronts beats rest).getD s [] := by
  induction r with
  | zero => simp
  | succ r ih =>
    rw [Function.iterate_succ_apply', mem_leftOver, ih, and_assoc, ← getD_naiveFronts]
    refine and_congr_right fun _ => ⟨?_, ?_⟩
    · rintro ⟨before, now⟩ s within
      obtain earlier | rfl := Nat.lt_or_eq_of_le (Nat.le_of_lt_succ within)
      · exact before s earlier
      · exact now
    · intro none
      exact ⟨fun s within => none s (Nat.lt_succ_of_lt within), none r (Nat.lt_succ_self r)⟩

end ParetoFront
