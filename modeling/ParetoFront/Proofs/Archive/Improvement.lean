import ParetoFront.Proofs.Archive.Classification
import ParetoFront.Proofs.Dominance.Coarsening

/-!
# Archives with boxes never trade down

An archive with boxes lets a solution in by comparing boxes, and residuals in a shared box. Both are
coarser than constrained dominance but never turn it round, so a solution that a retained one
dominates is kept out by that one. This holds with clamped boxes and rounded residuals as well.

## Main statements

- `Epsilons.coversBy_of_dominates` — what dominates a solution keeps it out
- `Archive.added_undominated` — no retained solution dominates what is let in
-/

namespace ParetoFront

open Number

variable {ε : Epsilons} {a : Archive} {s t : Solution}

theorem Epsilons.Regular.objectives (h : ε.Regular s) : AllNumbers s.objectives := by
  intro x member
  obtain ⟨i, inside, rfl⟩ := List.mem_iff_getElem.1 member
  have position := List.mk_mem_zipIdx_iff_getElem?.2 (List.getElem?_eq_getElem inside)
  have number := not_isNaN_of_isFinite (h.2 (s.objectives[i], i) position)
  refine Bool.eq_false_of_not_eq_true fun undefined => ?_
  rw [isNaN_div_of_left undefined] at number
  cases number

/-- What dominates a solution box-dominates it, or lies in its box and is no farther from the
corner. -/
theorem Epsilons.coversBy_of_dominates (hs : ε.Regular s) (ht : ε.Regular t)
    (lengths : s.objectives.length = t.objectives.length)
    (dominates : Criterion.constrained.relate s t = .left) :
    ε.CoversBy (fun p q => ε.residual p.objectives ≤ ε.residual q.objectives) s t := by
  refine (ε.relateBoxes_of_dominates hs.objectives ht.objectives lengths dominates).imp_right ?_
  rintro ⟨shared, le⟩
  exact ⟨shared, ε.residual_mono le hs.2 ht.2 ((ε.relateBoxes_sameBox_iff lengths).1 shared).2⟩

/-- Whatever was asked of an archive with boxes, a solution that it lets in is dominated by none of
those it retained before, by those that leave as little as by those that stay. The solutions taken
since the last clear and the one let in must have no undefined constraint value and objective values
that are finite in box widths, so that these are numbers as well. -/
theorem Archive.added_undominated (new : a.IsNew) (boxes : a.policy = .epsilonBox ε)
    (calls : List Call) (regular : ∀ t ∈ a.takenSince [] calls, ε.Regular t)
    (candidate : ε.Regular s) {n : Nat} :
    let reached := calls.foldl Archive.after a
    (reached.offer s).2 = .ok (.added n) →
      ∀ r ∈ reached.retained, ∃ d, Criterion.constrained.compare r s = .ok d ∧ d ≠ .left := by
  intro reached added r member
  have policy : reached.policy = .epsilonBox ε := (a.policy_foldl_after calls).trans boxes
  have covered := new.covered (boxes ▸ ε.covering_residuals) calls
  have coexistent := new.coexistent calls
  obtain ⟨e, refused⟩ | serves := reached.refused_or_serves s
  · rw [refused] at added
    cases added
  have widths : r.widths = s.widths := serves.widths_of_retained coexistent member
  have lengths : r.objectives.length = s.objectives.length := congrArg Widths.objectives widths
  refine ⟨_, Criterion.constrained.compare_eq_ok lengths, fun dominates => ?_⟩
  have covers := Epsilons.coversBy_of_dominates (regular r (covered.subset member)) candidate
    lengths dominates
  have keptOut : ∃ r ∈ reached.retained, reached.policy.judge s r = .keepsOut :=
    ⟨r, member, by rw [policy]; exact Epsilons.judge_eq_keepsOut_iff_coversBy.2 covers⟩
  have known : reached.widths = some s.widths := widths ▸ coexistent.widths r member
  rw [offer_of_keptOut serves known keptOut] at added
  cases added

/-- The occupant of a box leaves for an offer that is nearer to the corner. -/
theorem added_undominated_takeover :
    let reached := earlierCalls.foldl Archive.after (.epsilonBox unitBoxes)
    reached.retained = [.ofObjectives [0, 9], .ofObjectives [2.25, 2.5]] ∧
      (reached.offer (.ofObjectives [2.5, 2])).2 = .ok (.added 1) ∧
      ∀ r ∈ reached.retained, ∃ d,
        Criterion.constrained.compare r (.ofObjectives [2.5, 2]) = .ok d ∧ d ≠ .left := by
  intro reached
  have taken : (Archive.epsilonBox unitBoxes).takenSince [] earlierCalls = [.ofObjectives [3, 3],
    .ofObjectives [2.5, 2.5], .ofObjectives [0, 9], .ofObjectives [2.25, 2.5]] := rfl
  have added : (reached.offer (.ofObjectives [2.5, 2])).2 = .ok (.added 1) := by decide +kernel
  exact ⟨rfl, added, Archive.added_undominated (.epsilonBox _) rfl earlierCalls
    (taken ▸ by decide) (by decide) added⟩

end ParetoFront
