import ParetoFront.Proofs.Archive.Reachable
import ParetoFront.Proofs.Dominance.StrictOrder
import ParetoFront.Proofs.Number.Difference

/-!
# Retained solutions are apart

An archive with a criterion compares an offer with each retained solution once, from the side of the
offer. What it finds there holds from the other side as well, since every criterion says the same
from both sides and a distance does not depend on its direction. So retained solutions are apart,
whatever the floats and the tolerance are, and also where the criterion is not transitive.

## Main definitions

- `Criterion.Apart` — neither solution dominates, and they are not nearer than the tolerance

## Main statements

- `euclideanDistance_comm` — distances are the same float in both directions
- `Policy.judge_eq_coexists_iff_apart` — coexistence of two solutions
- `Archive.retained_apart` — every reachable archive with a criterion
-/

namespace ParetoFront

theorem euclideanDistance_comm (xs ys : List Float) :
    euclideanDistance xs ys = euclideanDistance ys xs := by
  rw [euclideanDistance, euclideanDistance, List.zipWith_comm]
  simp only [Number.sub_mul_self_comm]

/-- Neither of two solutions dominates the other, and they are not nearer than the tolerance. -/
structure Criterion.Apart (r : Criterion) (tolerance : Float) (s t : Solution) : Prop where
  neither : r.relate s t = .neither
  notNearer : ¬ euclideanDistance s.objectives t.objectives < tolerance

variable {r : Criterion} {tolerance : Float} {s t : Solution}

theorem Criterion.Apart.symm (h : r.Apart tolerance s t) : r.Apart tolerance t s where
  neither := by
    rw [r.relate_swap s t, h.neither]
    rfl
  notNearer := by
    rw [euclideanDistance_comm]
    exact h.notNearer

theorem Policy.judge_eq_coexists_iff_apart :
    (Policy.nondominated r tolerance).judge s t = .coexists ↔ r.Apart tolerance s t := by
  rw [Policy.judge]
  cases outcome : r.relate s t with
  | left | right =>
    refine iff_of_false (fun verdict => by cases verdict) fun h => ?_
    cases outcome.symm.trans h.neither
  | neither =>
    by_cases near : euclideanDistance s.objectives t.objectives < tolerance
    · simp only [if_pos near]
      exact iff_of_false (fun verdict => by cases verdict) fun h => h.notNearer near
    · simp only [if_neg near]
      exact iff_of_true trivial ⟨outcome, near⟩

namespace Archive

variable {a : Archive}

/-- The later of two retained solutions was apart from the earlier one when it came, and so the
earlier one is apart from the later one. -/
theorem Coexistent.apart {recent : List Solution} (h : a.Coexistent recent)
    (policy : a.policy = .nondominated r tolerance) {i j : Nat} (distinct : i ≠ j)
    (atI : a.retained[i]? = some s) (atJ : a.retained[j]? = some t) :
    s.widths = t.widths ∧ r.Apart tolerance s t := by
  have widths : s.widths = t.widths := Option.some.inj <|
    (h.widths s (List.mem_of_getElem? atI)).symm.trans (h.widths t (List.mem_of_getElem? atJ))
  refine ⟨widths, ?_⟩
  obtain ⟨withinI, rfl⟩ := List.getElem?_eq_some_iff.1 atI
  obtain ⟨withinJ, rfl⟩ := List.getElem?_eq_some_iff.1 atJ
  have judged := List.pairwise_iff_getElem.1 h.coexists
  simp only [policy, Policy.judge_eq_coexists_iff_apart] at judged
  obtain before | after := Nat.lt_or_gt_of_ne distinct
  · exact (judged i j withinI withinJ before).symm
  · exact judged j i withinJ withinI after

/-- Whatever is asked of an archive with a criterion, it retains solutions offered since the last
clear, in the order of the offers. Of any two of them, at different positions, neither dominates the
other, compared from either side, and in neither direction are they nearer than the tolerance. -/
theorem retained_apart (new : a.IsNew) (policy : a.policy = .nondominated r tolerance)
    (calls : List Call) :
    let retained := (calls.foldl Archive.after a).retained
    retained.Sublist (a.offeredSince [] calls) ∧
      ∀ (i j : Nat) (s t : Solution), i ≠ j → retained[i]? = some s → retained[j]? = some t →
        r.compare s t = .ok .neither ∧ r.compare t s = .ok .neither ∧
          ¬ euclideanDistance s.objectives t.objectives < tolerance ∧
          ¬ euclideanDistance t.objectives s.objectives < tolerance := by
  intro retained
  have h := new.coexistent calls
  have policyNow := (a.policy_foldl_after calls).trans policy
  refine ⟨h.sublist, ?_⟩
  intro i j s t distinct atI atJ
  obtain ⟨widths, apart⟩ := h.apart policyNow distinct atI atJ
  have lengths : s.objectives.length = t.objectives.length := congrArg Widths.objectives widths
  rw [r.compare_eq_ok lengths, r.compare_eq_ok lengths.symm, apart.neither, apart.symm.neither]
  exact ⟨rfl, rfl, apart.notNearer, apart.symm.notNearer⟩

end Archive

/-- The third offer dominates the first and is too near to the second, which keeps it out. The next
one has an undefined objective and makes the first leave, and the last has other widths. -/
def nearbyCalls : List Call :=
  [.offer (.ofObjectives [8, 12]), .add (.ofObjectives [11, 7]),
    .addAll [.ofObjectives [8, 10], .ofObjectives [0 / 0, 7], .ofObjectives [1]]]

theorem retained_apart_nearbyCalls :
    let a := Archive.nondominated .pareto 5
    let reached := nearbyCalls.foldl Archive.after a
    (a.offeredSince [] nearbyCalls).map Solution.objectives =
        [[8, 12], [11, 7], [8, 10], [0 / 0, 7], [1]] ∧
      reached.objectives = [[11, 7], [0 / 0, 7]] ∧
      ∃ s t, reached.retained = [s, t] ∧ Criterion.pareto.compare t s = .ok .neither ∧
        ¬ euclideanDistance t.objectives s.objectives < 5 := by
  intro a reached
  have objectives : reached.objectives = [[11, 7], [0 / 0, 7]] := by decide +kernel
  obtain ⟨s, rest, two, -, one⟩ := List.map_eq_cons_iff.1 objectives
  obtain ⟨t, none, rfl, -, empty⟩ := List.map_eq_cons_iff.1 one
  obtain rfl := List.map_eq_nil_iff.1 empty
  obtain ⟨-, apart⟩ := Archive.retained_apart (.nondominated .pareto 5) rfl nearbyCalls
  obtain ⟨outcome, -, notNearer, -⟩ :=
    apart 1 0 t s (by decide) (congrArg (·[1]?) two) (congrArg (·[0]?) two)
  exact ⟨by decide +kernel, objectives, s, t, two, outcome, notNearer⟩

end ParetoFront
