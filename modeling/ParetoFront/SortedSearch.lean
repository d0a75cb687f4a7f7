/-!
# Searching ascending lists

Binary search by structural recursion on the number of halvings, so that proofs and the kernel can
evaluate it. It finds what is there as long as the list is ascending.

## Main definitions

- `searchHalves` — the search with a bounded number of halvings
- `isListed` — whether a number is in an ascending list

## Main statements

- `isListed_eq_true_iff` — what is listed is found, and nothing else
-/

namespace ParetoFront

/-- Looks for `x` in the middle of the list, and then in the half where it has to be. -/
def searchHalves (x : Nat) : Nat → List Nat → Bool
  | 0, _ => false
  | halvings + 1, xs =>
    let half := xs.length / 2
    match xs[half]? with
    | none => false
    | some y =>
      if x < y then searchHalves x halvings (xs.take half)
      else if y < x then searchHalves x halvings (xs.drop (half + 1))
      else true

def isListed (xs : List Nat) (x : Nat) : Bool :=
  searchHalves x xs.length xs

section Middle

variable {x y : Nat} {smaller larger : List Nat}
  (ascending : (smaller ++ y :: larger).Pairwise (· < ·))
include ascending

theorem mem_iff_of_lt_middle (less : x < y) : x ∈ smaller ++ y :: larger ↔ x ∈ smaller := by
  obtain ⟨-, rest, -⟩ := List.pairwise_append.1 ascending
  rw [List.mem_append]
  refine ⟨fun member => member.resolve_right fun late => ?_, .inl⟩
  obtain rfl | late := List.mem_cons.1 late
  · exact Nat.lt_irrefl x less
  · exact Nat.lt_asymm less ((List.pairwise_cons.1 rest).1 x late)

theorem mem_iff_of_middle_lt (greater : y < x) : x ∈ smaller ++ y :: larger ↔ x ∈ larger := by
  obtain ⟨-, -, below⟩ := List.pairwise_append.1 ascending
  rw [List.mem_append, List.mem_cons]
  refine ⟨fun member => ?_, fun member => .inr (.inr member)⟩
  obtain early | rfl | late := member
  · exact absurd (below x early y List.mem_cons_self) (Nat.lt_asymm greater)
  · exact absurd greater (Nat.lt_irrefl x)
  · exact late

end Middle

theorem searchHalves_eq_true_iff {x halvings : Nat} {xs : List Nat}
    (ascending : xs.Pairwise (· < ·)) (enough : xs.length ≤ halvings) :
    searchHalves x halvings xs = true ↔ x ∈ xs := by
  induction halvings generalizing xs with
  | zero =>
    obtain rfl := List.eq_nil_of_length_eq_zero (Nat.le_zero.1 enough)
    simp [searchHalves]
  | succ halvings ih =>
    rw [searchHalves]
    cases middle : xs[xs.length / 2]? with
    | none =>
      have beyond := List.getElem?_eq_none_iff.1 middle
      obtain rfl : xs = [] := List.eq_nil_of_length_eq_zero (by omega)
      simp
    | some y =>
      obtain ⟨within, here⟩ := List.getElem?_eq_some_iff.1 middle
      have split : xs = xs.take (xs.length / 2) ++ y :: xs.drop (xs.length / 2 + 1) := by
        rw [← here, ← List.drop_eq_getElem_cons within, List.take_append_drop]
      -- both halves are shorter, and in the order of the list
      have parts := List.pairwise_append.1 (split ▸ ascending)
      have first := @ih (xs.take (xs.length / 2)) parts.1 (by rw [List.length_take]; omega)
      have second := @ih (xs.drop (xs.length / 2 + 1)) (List.pairwise_cons.1 parts.2.1).2
        (by rw [List.length_drop]; omega)
      show (if x < y then _ else if y < x then _ else true) = true ↔ x ∈ xs
      by_cases less : x < y
      · rw [if_pos less, first, ← mem_iff_of_lt_middle (split ▸ ascending) less, ← split]
      · rw [if_neg less]
        by_cases greater : y < x
        · rw [if_pos greater, second, ← mem_iff_of_middle_lt (split ▸ ascending) greater, ← split]
        · obtain rfl : x = y := by omega
          rw [if_neg greater]
          exact iff_of_true rfl (List.mem_of_getElem? middle)

/-- In an ascending list the search finds what is listed. -/
theorem isListed_eq_true_iff {xs : List Nat} {x : Nat} (ascending : xs.Pairwise (· < ·)) :
    isListed xs x = true ↔ x ∈ xs :=
  searchHalves_eq_true_iff ascending (Nat.le_refl _)

end ParetoFront
