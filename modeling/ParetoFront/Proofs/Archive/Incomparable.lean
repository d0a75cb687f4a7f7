import ParetoFront.Proofs.Archive.Reachable
import ParetoFront.Proofs.Dominance.Boxes

/-!
# Retained boxes are incomparable

An archive with boxes lets two solutions coexist exactly when the feasibility tier is tied and
neither box vector is componentwise at most the other. No order is needed for that, so it holds of
retained solutions whatever their floats are, undefined violations and objectives included.

## Main statements

- `Epsilons.judge_eq_coexists_iff_incomparable` — coexistence of two solutions
- `Archive.Coexistent.pairwise_incomparable` — the retained solutions of a state
- `Archive.retained_incomparable` — every reachable archive with boxes
-/

namespace ParetoFront

namespace Epsilons

variable {ε : Epsilons} {s t : Solution}

/-- Neither box vector is componentwise at most the other. -/
def Incomparable (ε : Epsilons) (s t : Solution) : Prop :=
  ¬ List.Forall₂ (· ≤ ·) (ε.boxIndex s.objectives) (ε.boxIndex t.objectives) ∧
    ¬ List.Forall₂ (· ≤ ·) (ε.boxIndex t.objectives) (ε.boxIndex s.objectives)

theorem Incomparable.symm (h : ε.Incomparable s t) : ε.Incomparable t s :=
  And.symm h

/-- Two solutions coexist when no comparison decides between them and they share no box. -/
theorem judge_eq_coexists_iff_undecided :
    (Policy.epsilonBox ε).judge s t = .coexists ↔
      (ε.relateBoxes s t).dominance = .neither ∧ (ε.relateBoxes s t).sameBox = false := by
  rw [Policy.judge]
  generalize ε.relateBoxes s t = found
  obtain ⟨_ | _ | _, _ | _⟩ := found
  all_goals simp
  by_cases nearer : ε.residual t.objectives ≤ ε.residual s.objectives <;> simp [nearer]

theorem judge_eq_coexists_iff_incomparable (h : s.objectives.length = t.objectives.length) :
    (Policy.epsilonBox ε).judge s t = .coexists ↔
      feasibilityTier s t = none ∧ ε.Incomparable s t := by
  rw [judge_eq_coexists_iff_undecided]
  cases tier : feasibilityTier s t with
  | some d =>
    have decided : d ≠ .neither := fun h => feasibilityTier_ne_neither s t (h ▸ tier)
    simp [ε.relateBoxes_of_some tier, decided]
  | none =>
    rw [ε.relateBoxes_of_none tier, advantage_incomparable_iff (by simpa using h)]
    exact (and_iff_right rfl).symm

end Epsilons

/-- A tied tier does not mix feasible with infeasible solutions. -/
theorem isFeasible_eq_of_tied {s t : Solution} (tied : feasibilityTier s t = none) :
    s.isFeasible = t.isFeasible := by
  unfold feasibilityTier at tied
  cases hs : s.isFeasible <;> cases ht : t.isFeasible <;> simp_all

theorem feasibilityTier_eq_none_symm {s t : Solution} (tied : feasibilityTier s t = none) :
    feasibilityTier t s = none := by
  rw [feasibilityTier_swap s t, tied]
  rfl

/-- Of two retained solutions the later one coexisted with the earlier one when it came. -/
theorem Archive.Coexistent.incomparable {ε : Epsilons} {a : Archive} {recent : List Solution}
    (h : a.Coexistent recent) (boxes : a.policy = .epsilonBox ε) {i j : Nat} (before : i < j)
    {s t : Solution} (atI : a.retained[i]? = some s) (atJ : a.retained[j]? = some t) :
    s.widths = t.widths ∧ feasibilityTier s t = none ∧ ε.Incomparable s t := by
  have widths : s.widths = t.widths := Option.some.inj <|
    (h.widths s (List.mem_of_getElem? atI)).symm.trans (h.widths t (List.mem_of_getElem? atJ))
  have verdict : a.policy.judge t s = .coexists := by
    obtain ⟨withinI, rfl⟩ := List.getElem?_eq_some_iff.1 atI
    obtain ⟨withinJ, rfl⟩ := List.getElem?_eq_some_iff.1 atJ
    exact List.pairwise_iff_getElem.1 h.coexists i j withinI withinJ before
  have lengths : t.objectives.length = s.objectives.length :=
    congrArg Widths.objectives widths.symm
  rw [boxes, Epsilons.judge_eq_coexists_iff_incomparable lengths] at verdict
  exact ⟨widths, feasibilityTier_eq_none_symm verdict.1, verdict.2.symm⟩

theorem Archive.Coexistent.pairwise_incomparable {ε : Epsilons} {a : Archive}
    {recent : List Solution} (h : a.Coexistent recent) (boxes : a.policy = .epsilonBox ε) :
    a.retained.Pairwise ε.Incomparable := by
  refine List.pairwise_iff_getElem.2 fun i j withinI withinJ before => ?_
  exact (h.incomparable boxes before (List.getElem?_eq_getElem withinI)
    (List.getElem?_eq_getElem withinJ)).2.2

/-- Whatever is asked of an archive with boxes, it retains solutions offered since the last clear,
in the order of the offers. Any two of them, at different positions, are tied in the feasibility
tier, and neither lies in a box componentwise at most the other's. -/
theorem Archive.retained_incomparable {ε : Epsilons} {a : Archive} (new : a.IsNew)
    (boxes : a.policy = .epsilonBox ε) (calls : List Call) :
    let retained := (calls.foldl Archive.after a).retained
    retained.Sublist (a.offeredSince [] calls) ∧
      ∀ (i j : Nat) (s t : Solution), i ≠ j → retained[i]? = some s → retained[j]? = some t →
        s.widths = t.widths ∧ s.isFeasible = t.isFeasible ∧ feasibilityTier s t = none ∧
          ¬ List.Forall₂ (· ≤ ·) (ε.boxIndex s.objectives) (ε.boxIndex t.objectives) ∧
          ¬ List.Forall₂ (· ≤ ·) (ε.boxIndex t.objectives) (ε.boxIndex s.objectives) := by
  intro retained
  have h := new.coexistent calls
  have boxesNow := (a.policy_foldl_after calls).trans boxes
  refine ⟨h.sublist, ?_⟩
  intro i j s t distinct atI atJ
  obtain before | after := Nat.lt_or_gt_of_ne distinct
  · obtain ⟨widths, tied, incomparable⟩ := h.incomparable boxesNow before atI atJ
    exact ⟨widths, isFeasible_eq_of_tied tied, tied, incomparable⟩
  · obtain ⟨widths, tied, incomparable⟩ := h.incomparable boxesNow after atJ atI
    exact ⟨widths.symm, (isFeasible_eq_of_tied tied).symm, feasibilityTier_eq_none_symm tied,
      incomparable.symm⟩

/-- Calls with undefined violations and objectives. Offers of other widths are refused, the last of
them in a series that it ends. -/
def undefinedCalls : List Call :=
  [.add ⟨[], [0, 0], [0]⟩, .clear, .offer (.ofObjectives [1]),
    .addAll [⟨[], [3, 3], [0 / 0]⟩, ⟨[], [0 / 0, 1], [0 / 0]⟩, ⟨[], [-1 / 0, 7], [-2]⟩,
      .ofObjectives [], ⟨[], [-5, -5], [0]⟩]]

theorem retained_incomparable_undefinedCalls :
    ∃ a, Archive.epsilonBoxOfWidths ⟨[1], by decide, by decide⟩ ⟨2, 1⟩ = .ok a ∧
      a.offeredSince [] undefinedCalls =
        [.ofObjectives [1], ⟨[], [3, 3], [0 / 0]⟩, ⟨[], [0 / 0, 1], [0 / 0]⟩,
          ⟨[], [-1 / 0, 7], [-2]⟩, .ofObjectives []] ∧
      (undefinedCalls.foldl Archive.after a).retained =
        [⟨[], [0 / 0, 1], [0 / 0]⟩, ⟨[], [-1 / 0, 7], [-2]⟩] ∧
      feasibilityTier ⟨[], [0 / 0, 1], [0 / 0]⟩ ⟨[], [-1 / 0, 7], [-2]⟩ = none := by
  have made : Archive.epsilonBoxOfWidths ⟨[1], by decide, by decide⟩ ⟨2, 1⟩ =
    .ok ⟨.epsilonBox ⟨[1], by decide, by decide⟩, [], some ⟨2, 1⟩, ⟨0, 0, 0⟩⟩ := rfl
  obtain ⟨-, apart⟩ := Archive.retained_incomparable (.ofWidths made) rfl undefinedCalls
  obtain ⟨-, -, tied, -⟩ := apart 0 1 _ _ (by decide) rfl rfl
  exact ⟨_, made, rfl, rfl, tied⟩

end ParetoFront
