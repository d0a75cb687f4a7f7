import ParetoFront.Proofs.Archive.PolicyChange
import ParetoFront.Proofs.Dominance.Agreement
import ParetoFront.Proofs.Fronts.StrictOrder
import ParetoFront.Proofs.Ranking.Congruence
import ParetoFront.Proofs.Ranking.Survivors

/-!
# Epsilons that are left over

Epsilons are left over when there are more of them than objectives. Archives with boxes refuse
offers then. Archives with a criterion and the rankings of pools do not look for such epsilons: they
do what they would do if the epsilons were cut to the number of objectives.

## Main statements

- `Archive.offer_of_leftOver` — the refusal of an archive with boxes
- `Archive.offer_cut` — offers to an archive with a criterion
- `leftOver_refused_or_cut` — all archives and rankings
- `leftOver_unnoticed` — one objective, two epsilons, and no refusal
-/

namespace ParetoFront

variable {ε : Epsilons} {m : Nat}

namespace Archive

variable {a : Archive} {s : Solution} {tolerance : Float}

theorem offer_of_leftOver (boxes : a.policy = .epsilonBox ε)
    (leftOver : ε.fits s.objectives.length = false) :
    a.offer s = (a, .error (.epsilonWidthMismatch ε.size s.objectives.length)) := by
  rw [offer, boxes, Policy.accept, if_neg (ne_true_of_eq_false leftOver)]

/-- An offer to a reachable archive with a criterion is served with the epsilons for its objectives
alone. -/
theorem Coexistent.offer_cut {recent : List Solution} (h : a.Coexistent recent)
    (policy : a.policy = .nondominated (.epsilonBox ε) tolerance) (wide : s.objectives.length = m) :
    let cut := Policy.nondominated (.epsilonBox (ε.cut m)) tolerance
    (a.withPolicy cut).offer s = ((a.offer s).1.withPolicy cut, (a.offer s).2) := by
  refine offer_withPolicy (by rw [policy]; rfl) fun serves r member => ?_
  have widths : r.widths = s.widths := serves.widths_of_retained h member
  have wideToo : r.objectives.length = m := (congrArg Widths.objectives widths).trans wide
  rw [policy]
  exact (ε.cut_agreeOn m).judge_eq (Nat.le_of_eq wide) (Nat.le_of_eq wideToo) tolerance

end Archive

theorem Epsilons.cut_agreesOn {pool : List Solution} {w : Widths}
    (accepted : commonWidths pool = .ok w) (wide : w.objectives = m) :
    (Criterion.epsilonBox ε).compare.AgreesOn (Criterion.epsilonBox (ε.cut m)).compare pool := by
  have within {s : Solution} (member : s ∈ pool) : s.objectives.length ≤ m :=
    Nat.le_of_eq ((congrArg Widths.objectives (widths_eq_of_commonWidths accepted member)).trans
      wide)
  exact .of_forall fun a left b right =>
    ((ε.cut_agreeOn m).compare_eq (within left) (within right)).symm

/-- Where epsilons are left over, archives with boxes refuse and stay as they are. Archives with a
criterion take and judge offers of their widths, and pools of equal widths are sorted, tabled and
truncated, all of it as if the epsilons were cut. -/
theorem leftOver_refused_or_cut (leftOver : ε.fits m = false) :
    (∀ (a : Archive), a.IsNew → a.policy = .epsilonBox ε →
      ∀ (calls : List Call) (s : Solution), s.objectives.length = m →
        let reached := calls.foldl Archive.after a
        reached.offer s = (reached, .error (.epsilonWidthMismatch ε.size m))) ∧
    (∀ (a : Archive) (tolerance : Float), a.IsNew →
      a.policy = .nondominated (.epsilonBox ε) tolerance →
      ∀ (calls : List Call) (s : Solution), s.objectives.length = m →
        let reached := calls.foldl Archive.after a
        let cut := Policy.nondominated (.epsilonBox (ε.cut m)) tolerance
        (reached.withPolicy cut).offer s =
            ((reached.offer s).1.withPolicy cut, (reached.offer s).2) ∧
          (reached.widths = none ∨ reached.widths = some s.widths →
            ∃ outcome, (reached.offer s).2 = .ok outcome)) ∧
    (∀ (pool : List Solution) (w : Widths), commonWidths pool = .ok w → w.objectives = m →
      let given := (Criterion.epsilonBox ε).compare
      let cut := (Criterion.epsilonBox (ε.cut m)).compare
      ∃ f table, sortIntoFronts given pool = .ok f ∧ sortIntoFronts cut pool = .ok f ∧
        rankTable given pool = .ok table ∧ rankTable cut pool = .ok table ∧
        ∀ k, ∃ rows, survivors given pool k = .ok rows ∧ survivors cut pool k = .ok rows) := by
  refine ⟨?_, ?_, ?_⟩
  · intro a _ boxes calls s wide reached
    subst wide
    exact Archive.offer_of_leftOver ((a.policy_foldl_after calls).trans boxes) leftOver
  · intro a tolerance new policy calls s wide reached cut
    have policyNow := (a.policy_foldl_after calls).trans policy
    refine ⟨(new.coexistent calls).offer_cut policyNow wide, fun known => ?_⟩
    have serves : reached.Serves s.widths := ⟨by rw [policyNow]; rfl, known⟩
    exact serves.offer_eq_ok rfl
  · intro pool w accepted wide given cut
    have agree : given.AgreesOn cut pool := Epsilons.cut_agreesOn accepted wide
    obtain ⟨f, sorted, h⟩ :=
      sortIntoFronts_eq_ok accepted ((Criterion.epsilonBox ε).antisymmetricOn accepted)
    have tabled := h.rankTable_eq_ok accepted sorted
    refine ⟨f, f.table pool, sorted, agree.sortIntoFronts_eq ▸ sorted, tabled,
      agree.rankTable_eq ▸ tabled, fun k => ?_⟩
    have kept := h.survivors_eq_ok accepted sorted k
    exact ⟨_, kept, agree.survivors_eq k ▸ kept⟩

/-- Two epsilons for one objective. The archive with boxes refuses, the others take the second box
width no notice of. -/
def pairOfEpsilons : Epsilons :=
  ⟨[1, 1 / 4], by decide, by decide +kernel⟩

theorem leftOver_refused_or_cut_pair :
    pairOfEpsilons.fits 1 = false ∧ (pairOfEpsilons.cut 1).values = [1] ∧
      (Archive.epsilonBox pairOfEpsilons).offer (.ofObjectives [3]) =
        (.epsilonBox pairOfEpsilons, .error (.epsilonWidthMismatch 2 1)) ∧
      (∃ outcome, ((Archive.nondominated (.epsilonBox pairOfEpsilons) 0).offer
        (.ofObjectives [3])).2 = .ok outcome) ∧
      ∃ f, sortIntoFronts (Criterion.epsilonBox pairOfEpsilons).compare
          [.ofObjectives [3], .ofObjectives [2]] = .ok f ∧
        sortIntoFronts (Criterion.epsilonBox (pairOfEpsilons.cut 1)).compare
          [.ofObjectives [3], .ofObjectives [2]] = .ok f := by
  have leftOver : pairOfEpsilons.fits 1 = false := by decide
  obtain ⟨refuses, takes, ranks⟩ := leftOver_refused_or_cut leftOver
  have refused := refuses (.epsilonBox pairOfEpsilons) (.epsilonBox _) rfl []
    (.ofObjectives [3]) rfl
  obtain ⟨-, taken⟩ := takes (.nondominated (.epsilonBox pairOfEpsilons) 0) 0 (.nondominated _ _)
    rfl [] (.ofObjectives [3]) rfl
  obtain ⟨f, -, sorted, sortedCut, -⟩ :=
    ranks [.ofObjectives [3], .ofObjectives [2]] ⟨1, 0⟩ rfl rfl
  exact ⟨leftOver, rfl, refused, taken (.inl rfl), f, sorted, sortedCut⟩

/-- One objective, two epsilons, and no refusal. -/
theorem leftOver_unnoticed :
    let pool : List Solution := [.ofObjectives [1], .ofObjectives [2]]
    let ε : Epsilons := ⟨[1, 1], by decide, by decide +kernel⟩
    let a := Archive.nondominated (.epsilonBox ε) defaultTolerance
    let compare := (Criterion.epsilonBox ε).compare
    commonWidths pool = .ok ⟨1, 0⟩ ∧ ε.fits 1 = false ∧
      (a.offer (.ofObjectives [1])).2 = .ok (.added 0) ∧
      (a.offer (.ofObjectives [1])).1.objectives = [[1]] ∧
      sortIntoFronts compare pool = .ok ⟨[0, 1], [[0], [1]]⟩ ∧
      rankTable compare pool = .ok [⟨0, 0, some infinite⟩, ⟨1, 1, some infinite⟩] ∧
      survivors compare pool 1 = .ok [⟨0, 0, some infinite⟩] := by
  decide +kernel

end ParetoFront
