import Mathlib.Data.List.Induction
import Mathlib.Tactic.SplitIfs
import ParetoFront.Number.TotalOrder

/-!
# Least and greatest floats

The total order is total, and it tells any two floats apart. So the least and the greatest value of
a list, and the neighbours of a value among the values of a list, are known as soon as it is known
which values the list holds.

## Main definitions

- `least`, `greatest` — the extreme values of a list
- `nextAbove`, `nextBelow` — the neighbours of a value

## Main statements

- `totalKey_injective` — no two floats share a place in the total order
- `least_congr`, `greatest_congr` — only the values matter
- `least_of_pairwise`, `greatest_of_pairwise` — the extreme values of a sorted list
-/

namespace ParetoFront.Number

theorem totalKey_injective : Function.Injective totalKey := by
  intro x y same
  have boundX := x.toBits.toNat_lt
  have boundY := y.toBits.toNat_lt
  have patterns : x.toBits.toNat = y.toBits.toNat := by
    simp only [totalKey] at same
    split_ifs at same <;> omega
  replace patterns := UInt64.toNat_inj.1 patterns
  -- a float is its bit pattern
  obtain ⟨⟨bits, valid⟩⟩ := x
  obtain ⟨⟨bits', valid'⟩⟩ := y
  cases patterns
  rfl

theorem totalLE_trans (x y z : Float) (h₁ : totalLE x y = true) (h₂ : totalLE y z = true) :
    totalLE x z = true :=
  decide_eq_true (Int.le_trans (of_decide_eq_true h₁) (of_decide_eq_true h₂))

theorem totalLE_total (x y : Float) : totalLE x y = true ∨ totalLE y x = true := by
  rw [totalLE, totalLE, decide_eq_true_eq, decide_eq_true_eq]
  exact Int.le_total _ _

theorem totalCompare_beq_eq {x y : Float} : (totalCompare x y == .eq) = decide (x = y) := by
  rw [Bool.eq_iff_iff, beq_iff_eq, decide_eq_true_eq, totalCompare, Int.compare_eq_eq,
    totalKey_injective.eq_iff]

/-! ### Extreme values -/

variable {xs ys : List Float} {x : Float}

/-- By a key that tells floats apart, one value of a list is the first. -/
theorem minOn?_eq_some_iff {key : Float → Int} (injective : Function.Injective key) :
    xs.minOn? key = some x ↔ x ∈ xs ∧ ∀ y ∈ xs, key x ≤ key y := by
  have first {z : Float} (isFirst : xs.minOn? key = some z) : z ∈ xs ∧ ∀ y ∈ xs, key z ≤ key y := by
    refine ⟨List.minOn?_mem isFirst, fun y member => ?_⟩
    have le := List.apply_get_minOn?_le_of_mem (f := key) member
    rwa [Option.get_of_eq_some _ isFirst] at le
  refine ⟨first, fun ⟨member, le⟩ => ?_⟩
  obtain ⟨z, isFirst⟩ := Option.isSome_iff_exists.1 (List.isSome_minOn?_of_mem (f := key) member)
  obtain ⟨member', le'⟩ := first isFirst
  rw [isFirst, injective (Int.le_antisymm (le' x member) (le z member'))]

/-- The value of a list that comes first in the total order. -/
def least (xs : List Float) : Option Float :=
  xs.minOn? totalKey

/-- The value of a list that comes last in the total order. -/
def greatest (xs : List Float) : Option Float :=
  xs.minOn? fun x => -totalKey x

theorem least_eq_some_iff :
    least xs = some x ↔ x ∈ xs ∧ ∀ y ∈ xs, totalKey x ≤ totalKey y :=
  minOn?_eq_some_iff totalKey_injective

theorem greatest_eq_some_iff :
    greatest xs = some x ↔ x ∈ xs ∧ ∀ y ∈ xs, totalKey y ≤ totalKey x := by
  rw [greatest, minOn?_eq_some_iff fun x y same => totalKey_injective (Int.neg_inj.1 same)]
  simp only [Int.neg_le_neg_iff]

theorem exists_least (member : x ∈ xs) : ∃ smallest, least xs = some smallest :=
  Option.isSome_iff_exists.1 (List.isSome_minOn?_of_mem (f := totalKey) member)

theorem exists_greatest (member : x ∈ xs) : ∃ largest, greatest xs = some largest :=
  Option.isSome_iff_exists.1 (List.isSome_minOn?_of_mem (f := fun x => -totalKey x) member)

theorem least_congr (same : ∀ x, x ∈ xs ↔ x ∈ ys) : least xs = least ys := by
  refine Option.ext fun x => ?_
  simp only [least_eq_some_iff, same]

theorem greatest_congr (same : ∀ x, x ∈ xs ↔ x ∈ ys) : greatest xs = greatest ys := by
  refine Option.ext fun x => ?_
  simp only [greatest_eq_some_iff, same]

theorem least_of_pairwise (ascending : xs.Pairwise fun x y => totalKey x ≤ totalKey y) :
    least xs = xs.head? := by
  cases xs with
  | nil => rfl
  | cons x xs =>
    obtain ⟨first, -⟩ := List.pairwise_cons.1 ascending
    exact least_eq_some_iff.2 ⟨List.mem_cons_self, List.forall_mem_cons.2 ⟨Int.le_refl _, first⟩⟩

theorem greatest_of_pairwise (ascending : xs.Pairwise fun x y => totalKey x ≤ totalKey y) :
    greatest xs = xs.getLast? := by
  induction xs using List.reverseRecOn with
  | nil => rfl
  | append_singleton xs x _ =>
    obtain ⟨-, -, last⟩ := List.pairwise_append.1 ascending
    rw [List.getLast?_concat, greatest_eq_some_iff]
    refine ⟨List.mem_concat_self, List.forall_mem_append.2 ⟨fun y member => ?_, ?_⟩⟩
    · exact last y member x (List.mem_singleton_self x)
    · exact List.forall_mem_singleton.2 (Int.le_refl _)

/-! ### Neighbours -/

/-- The least value of a list that comes after `v`. -/
def nextAbove (xs : List Float) (v : Float) : Option Float :=
  least (xs.filter fun x => totalKey v < totalKey x)

/-- The greatest value of a list that comes before `v`. -/
def nextBelow (xs : List Float) (v : Float) : Option Float :=
  greatest (xs.filter fun x => totalKey x < totalKey v)

theorem nextAbove_eq_some {v : Float} (above : nextAbove xs v = some x) :
    x ∈ xs ∧ totalKey v < totalKey x := by
  obtain ⟨member, less⟩ := List.mem_filter.1 (least_eq_some_iff.1 above).1
  exact ⟨member, of_decide_eq_true less⟩

theorem nextBelow_eq_some {v : Float} (below : nextBelow xs v = some x) :
    x ∈ xs ∧ totalKey x < totalKey v := by
  obtain ⟨member, less⟩ := List.mem_filter.1 (greatest_eq_some_iff.1 below).1
  exact ⟨member, of_decide_eq_true less⟩

section

variable {v : Float} {earlier later : List Float}
  (parts : ∀ x, x ∈ xs ↔ x ∈ earlier ∨ x = v ∨ x ∈ later)
  (below : ∀ x ∈ earlier, totalKey x < totalKey v) (above : ∀ x ∈ later, totalKey v < totalKey x)
include parts below above

theorem nextBelow_eq_greatest : nextBelow xs v = greatest earlier := by
  refine greatest_congr fun x => ?_
  rw [List.mem_filter, decide_eq_true_eq, parts]
  constructor
  · rintro ⟨inEarlier | rfl | inLater, less⟩
    · exact inEarlier
    · exact absurd less (Int.lt_irrefl _)
    · exact absurd less (Int.lt_asymm (above x inLater))
  · exact fun inEarlier => ⟨.inl inEarlier, below x inEarlier⟩

theorem nextAbove_eq_least : nextAbove xs v = least later := by
  refine least_congr fun x => ?_
  rw [List.mem_filter, decide_eq_true_eq, parts]
  constructor
  · rintro ⟨inEarlier | rfl | inLater, greater⟩
    · exact absurd greater (Int.lt_asymm (below x inEarlier))
    · exact absurd greater (Int.lt_irrefl _)
    · exact inLater
  · exact fun inLater => ⟨.inr (.inr inLater), above x inLater⟩

end

theorem nextBelow_least (first : least xs = some x) : nextBelow xs x = none := by
  have empty : (xs.filter fun y => totalKey y < totalKey x) = [] :=
    List.filter_eq_nil_iff.2 fun y member => by simpa using (least_eq_some_iff.1 first).2 y member
  rw [nextBelow, empty]
  rfl

theorem nextAbove_greatest (last : greatest xs = some x) : nextAbove xs x = none := by
  have empty : (xs.filter fun y => totalKey x < totalKey y) = [] :=
    List.filter_eq_nil_iff.2 fun y member => by simpa using (greatest_eq_some_iff.1 last).2 y member
  rw [nextAbove, empty]
  rfl

theorem nextAbove_congr (same : ∀ x, x ∈ xs ↔ x ∈ ys) (v : Float) :
    nextAbove xs v = nextAbove ys v :=
  least_congr fun x => by rw [List.mem_filter, List.mem_filter, same]

theorem nextBelow_congr (same : ∀ x, x ∈ xs ↔ x ∈ ys) (v : Float) :
    nextBelow xs v = nextBelow ys v :=
  greatest_congr fun x => by rw [List.mem_filter, List.mem_filter, same]

end ParetoFront.Number
