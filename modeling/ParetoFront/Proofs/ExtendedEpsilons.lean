import ParetoFront.Proofs.Archive.PolicyChange
import ParetoFront.Proofs.Dominance.Agreement
import ParetoFront.Survivors

/-!
# Epsilons with copies of the last one

Copies of the last epsilon, added at the end, change the epsilons but no box: an objective without
an epsilon of its own is divided by the last one in any case. Boxes, comparisons and rankings stay
the same for all solutions. Archives with boxes hold the number of stored epsilons against the
offers, so that they serve the same offers alike as long as these have enough objectives for the
copies as well.

## Main definitions

- `Epsilons.extend` — the epsilons with copies of the last one

## Main statements

- `Epsilons.get_extend` — every objective is divided as before
- `Epsilons.extend_alikeFor` — the policies of archives with boxes
- `Epsilons.extend_unnoticed` — comparisons, rankings and archives
-/

namespace ParetoFront

namespace Epsilons

/-- The epsilons with `n` copies of the last one. -/
def extend (ε : Epsilons) (n : Nat) : Epsilons where
  values := ε.values ++ List.replicate n (ε.values.getLast ε.nonempty)
  nonempty := List.append_ne_nil_of_left_ne_nil ε.nonempty _
  valid v member := by
    obtain own | copy := List.mem_append.1 member
    · exact ε.valid v own
    · rw [List.eq_of_mem_replicate copy]
      exact ε.valid _ (List.getLast_mem ε.nonempty)

variable (ε : Epsilons) (n : Nat)

theorem size_extend : (ε.extend n).size = ε.size + n := by
  rw [size, extend, List.length_append, List.length_replicate, size]

theorem extend_ne {n : Nat} (copies : 0 < n) : ε.extend n ≠ ε := by
  intro same
  have sizes := congrArg size same
  rw [size_extend] at sizes
  omega

/-- The last epsilon serves the objectives that have none of their own. -/
theorem get_eq_getD (i : Nat) : ε.get i = ε.values.getD i (ε.values.getLast ε.nonempty) := by
  have positive := List.length_pos_iff.2 ε.nonempty
  simp only [get, List.get_eq_getElem, List.getLast_eq_getElem, List.getD_eq_getElem?_getD]
  by_cases own : i < ε.values.length
  · have place : min i (ε.values.length - 1) = i := by omega
    simp only [place, List.getElem?_eq_getElem own, Option.getD_some]
  · have place : min i (ε.values.length - 1) = ε.values.length - 1 := by omega
    simp only [place, List.getElem?_eq_none (Nat.le_of_not_lt own), Option.getD_none]

theorem getLast_extend :
    (ε.extend n).values.getLast (ε.extend n).nonempty = ε.values.getLast ε.nonempty := by
  simp only [extend, List.getLast_append, List.getLast_replicate]
  split <;> rfl

theorem get_extend (i : Nat) : (ε.extend n).get i = ε.get i := by
  rw [get_eq_getD, get_eq_getD, getLast_extend, extend]
  by_cases own : i < ε.values.length
  · rw [List.getD_append _ _ _ _ own]
  · have past := Nat.le_of_not_lt own
    rw [List.getD_append_right _ _ _ _ past, List.getD_eq_default _ _ past,
      List.getD_eq_getElem?_getD, List.getElem?_replicate]
    split <;> rfl

theorem extend_agreeOn (m : Nat) : (ε.extend n).AgreeOn m ε :=
  fun i _ => ε.get_extend n i

theorem boxIndex_extend (xs : List Float) : (ε.extend n).boxIndex xs = ε.boxIndex xs :=
  (ε.extend_agreeOn n xs.length).boxIndex_eq (Nat.le_refl _)

theorem residual_extend (xs : List Float) : (ε.extend n).residual xs = ε.residual xs :=
  (ε.extend_agreeOn n xs.length).residual_eq (Nat.le_refl _)

theorem compareBoxes_extend (a b : Solution) :
    (ε.extend n).compareBoxes a b = ε.compareBoxes a b := by
  rw [compareBoxes, compareBoxes,
    (ε.extend_agreeOn n _).relateBoxes_eq (Nat.le_max_left _ _) (Nat.le_max_right _ _)]

theorem compare_extend :
    (Criterion.epsilonBox (ε.extend n)).compare = (Criterion.epsilonBox ε).compare := by
  funext a b
  exact (ε.extend_agreeOn n _).compare_eq (Nat.le_max_left _ _) (Nat.le_max_right _ _)

/-- An offer with objectives for all copies is not refused for its width, and it is judged alike. -/
theorem extend_alikeFor {s : Solution} (wide : (ε.extend n).size ≤ s.objectives.length) :
    (Policy.epsilonBox (ε.extend n)).AlikeFor (.epsilonBox ε) s where
  accept := by
    have fits : (ε.extend n).fits s.objectives.length = true := decide_eq_true wide
    rw [size_extend] at wide
    have fits' : ε.fits s.objectives.length = true := decide_eq_true (Nat.le_of_add_right_le wide)
    rw [Policy.accept, Policy.accept, if_pos fits, if_pos fits']
  judge r := (ε.extend_agreeOn n _).judgeBoxes_eq (Nat.le_max_left _ _) (Nat.le_max_right _ _)

end Epsilons

/-- A new archive is known by its policy and its widths. -/
theorem Archive.IsNew.eq_withPolicy {a b : Archive} (newA : a.IsNew) (newB : b.IsNew)
    (widths : b.widths = a.widths) : b = a.withPolicy b.policy := by
  obtain ⟨v, isA, -⟩ := newA.eq_empty
  obtain ⟨w, isB, -⟩ := newB.eq_empty
  rw [isA, isB] at widths ⊢
  obtain rfl : w = v := widths
  rfl

/-- Copies of the last epsilon make different epsilons. Boxes, residuals and comparisons, and with
them all rankings of pools, are the same. So are two new archives with boxes, without widths or with
the same ones: after any calls with offers that have an objective for each epsilon and each copy,
they have given the same answers, and they retain the same solutions and have the same widths and
counters. -/
theorem Epsilons.extend_unnoticed (ε : Epsilons) (n : Nat) :
    (0 < n → ε.extend n ≠ ε) ∧
    (∀ xs, (ε.extend n).boxIndex xs = ε.boxIndex xs ∧ (ε.extend n).residual xs = ε.residual xs) ∧
    (∀ s t, (ε.extend n).compareBoxes s t = ε.compareBoxes s t) ∧
    (let extended := (Criterion.epsilonBox (ε.extend n)).compare
      let given := (Criterion.epsilonBox ε).compare
      ∀ pool, sortIntoFronts extended pool = sortIntoFronts given pool ∧
        rankTable extended pool = rankTable given pool ∧
        ∀ k, survivors extended pool k = survivors given pool k) ∧
    ∀ a b : Archive, a.IsNew → b.IsNew → a.policy = .epsilonBox ε →
      b.policy = .epsilonBox (ε.extend n) → b.widths = a.widths →
      ∀ calls : List Call,
        (∀ call ∈ calls, ∀ s ∈ call.offers, (ε.extend n).size ≤ s.objectives.length) →
          b.responses calls = a.responses calls ∧
            calls.foldl Archive.after b =
              (calls.foldl Archive.after a).withPolicy (.epsilonBox (ε.extend n)) := by
  refine ⟨ε.extend_ne, fun xs => ⟨ε.boxIndex_extend n xs, ε.residual_extend n xs⟩,
    ε.compareBoxes_extend n, ?_, ?_⟩
  · intro extended given pool
    have same : extended = given := ε.compare_extend n
    rw [same]
    exact ⟨rfl, rfl, fun k => rfl⟩
  · intro a b newA newB boxesA boxesB widths calls wide
    rw [newA.eq_withPolicy newB widths, boxesB]
    refine Archive.responses_withPolicy fun call member s offered => ?_
    rw [boxesA]
    exact ε.extend_alikeFor n (wide call member s offered)

/-- Offers with an objective for each of four epsilons: one that takes the box of another, one that
dominates it, one that is dominated, and, after one with an objective too many, an undefined one. -/
def fourfoldCalls : List Call :=
  [.offer (.ofObjectives [1, 0.7, 0.7, 0.7]), .offer (.ofObjectives [1, 0.6, 0.7, 0.7]),
    .offer (.ofObjectives [0, 0.6, 0.7, 0.7]), .add (.ofObjectives [0, 0.6, 0.7, 0.8]),
    .offer (.ofObjectives [0, 0, 0, 0, 0]), .clear, .offer (.ofObjectives [0 / 0, 1, 1, 1])]

/-- Two copies of the second epsilon. Only an offer of two objectives tells the archives apart. -/
theorem Epsilons.extend_unnoticed_fourfoldCalls :
    let ε : Epsilons := ⟨[1, 1 / 2], by decide, by decide +kernel⟩
    let given := Archive.epsilonBox ε
    let extended := Archive.epsilonBox (ε.extend 2)
    (ε.extend 2).values = [1, 1 / 2, 1 / 2, 1 / 2] ∧ ε.extend 2 ≠ ε ∧
      (∀ call ∈ fourfoldCalls, ∀ s ∈ call.offers, (ε.extend 2).size ≤ s.objectives.length) ∧
      extended.responses fourfoldCalls =
        [.outcome (.added 0), .outcome (.added 1), .outcome (.added 1), .outcome .rejected,
          .refused (.objectiveCountMismatch 4 5), .cleared, .outcome (.added 0)] ∧
      (fourfoldCalls.foldl Archive.after extended).stats = ⟨5, 4, 3⟩ ∧
      (given.offer (.ofObjectives [3, 3])).2 = .ok (.added 0) ∧
      (extended.offer (.ofObjectives [3, 3])).2 = .error (.epsilonWidthMismatch 4 2) := by
  intro ε given extended
  obtain ⟨differ, -, -, -, alike⟩ := ε.extend_unnoticed 2
  have wide : ∀ call ∈ fourfoldCalls, ∀ s ∈ call.offers,
      (ε.extend 2).size ≤ s.objectives.length := by
    decide
  obtain ⟨responses, reached⟩ :=
    alike given extended (.epsilonBox ε) (.epsilonBox _) rfl rfl rfl fourfoldCalls wide
  refine ⟨rfl, differ (by decide), wide, ?_, ?_, rfl, rfl⟩
  · rw [responses]
    decide +kernel
  · rw [reached]
    decide +kernel

end ParetoFront
