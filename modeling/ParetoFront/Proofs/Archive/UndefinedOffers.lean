import ParetoFront.Proofs.Archive.Incomparable
import ParetoFront.Proofs.Archive.OccupiedBoxes
import ParetoFront.Proofs.Dominance.Outcomes
import ParetoFront.Proofs.Number.Positive

/-!
# Offers with undefined objectives

An undefined value lies in box `0`, as if it were a small positive one, and the residual of a vector
with an undefined value is undefined, so that it is never at least another one. An offer with an
undefined objective therefore evicts every retained solution that is nowhere in a lower box, the
occupant of its own box among them, and it may well evict them all. No other retained solution
leaves.

## Main definitions

- `Epsilons.LowerSomewhere` — what an offer with undefined values leaves in place

## Main statements

- `Epsilons.coordinate_of_isNaN`, `Epsilons.isNaN_residual` — undefined values
- `Archive.offer_undefined` — what is left of every reachable archive with boxes
-/

namespace ParetoFront

open Number

namespace Epsilons

variable {ε : Epsilons} {r s : Solution} {v : Float}

/-! ### Undefined values -/

/-- An undefined value lies in box `0`. -/
theorem coordinate_of_isNaN (h : v.isNaN = true) (i : Nat) : ε.coordinate i v = 0 := by
  have scaled := unpack_of_isNaN (isNaN_div_of_left h (ε.get i))
  rw [coordinate, clampedFloor, floorInt, scaled]
  rfl

/-- One undefined value makes the residual undefined. -/
theorem isNaN_residual {xs : List Float} (undefined : ∃ v ∈ xs, v.isNaN = true) :
    (ε.residual xs).isNaN = true := by
  obtain ⟨v, member, h⟩ := undefined
  obtain ⟨i, here⟩ := List.mem_iff_getElem?.1 member
  have placed : (v, i) ∈ xs.zipIdx := List.mk_mem_zipIdx_iff_getElem?.2 here
  refine isNaN_sum_of_mem (List.mem_map_of_mem placed) ?_
  exact isNaN_sub_of_left (isNaN_div_of_left h _) _

/-! ### Lower boxes -/

/-- Some value of `r` lies in a lower box than the value of `s` in its place, where an undefined
value of `s` counts as one in box `0`. -/
def LowerSomewhere (ε : Epsilons) (r s : Solution) : Prop :=
  ∃ (i : Nat) (v w : Float), r.objectives[i]? = some v ∧ s.objectives[i]? = some w ∧
    ε.coordinate i v < if w.isNaN then 0 else ε.coordinate i w

theorem lowerSomewhere_iff :
    ε.LowerSomewhere r s ↔ LessSomewhere (ε.boxIndex r.objectives) (ε.boxIndex s.objectives) := by
  have counts (i : Nat) (w : Float) : (if w.isNaN then 0 else ε.coordinate i w) =
      ε.coordinate i w := by
    cases undefined : w.isNaN with
    | true => exact (coordinate_of_isNaN undefined i).symm
    | false => rfl
  have boxes (t : Solution) (i : Nat) : (ε.boxIndex t.objectives)[i]? =
      t.objectives[i]?.map (ε.coordinate i) := by
    simp [boxIndex, Function.comp_def]
  simp only [LowerSomewhere, LessSomewhere, counts, boxes, Option.map_eq_some_iff]
  constructor
  · rintro ⟨i, v, w, left, right, lower⟩
    exact ⟨i, _, _, ⟨v, left, rfl⟩, ⟨w, right, rfl⟩, lower⟩
  · rintro ⟨i, _, _, ⟨v, left, rfl⟩, ⟨w, right, rfl⟩, lower⟩
    exact ⟨i, v, w, left, right, lower⟩

instance (ε : Epsilons) (s : Solution) : DecidablePred fun r => ε.LowerSomewhere r s := fun r =>
  decidable_of_iff (betterSomewhere strictlyLess (ε.boxIndex r.objectives)
    (ε.boxIndex s.objectives) = true) <|
    (betterSomewhere_iff_lessSomewhere fun _ _ => decide_eq_true_iff).trans lowerSomewhere_iff.symm

/-- Nowhere in a lower box means in a box componentwise at least the other one. -/
theorem not_lowerSomewhere_iff (lengths : s.objectives.length = r.objectives.length) :
    ¬ ε.LowerSomewhere r s ↔
      List.Forall₂ (· ≤ ·) (ε.boxIndex s.objectives) (ε.boxIndex r.objectives) := by
  have agrees (m n : Int) : strictlyLess m n = true ↔ m < n := decide_eq_true_iff
  have sizes : (ε.boxIndex s.objectives).length = (ε.boxIndex r.objectives).length := by
    simpa using lengths
  rw [lowerSomewhere_iff, ← betterSomewhere_iff_lessSomewhere agrees, Bool.not_eq_true,
    betterSomewhere_eq_false_iff sizes]

/-! ### Verdicts -/

section

variable (tied : feasibilityTier s r = none)
  (lengths : s.objectives.length = r.objectives.length)
include tied lengths

/-- Only a strictly lower box keeps out what has an undefined objective, and not the own box. -/
theorem keepsOut_undefined_iff (undefined : ∃ w ∈ s.objectives, w.isNaN = true) :
    (Policy.epsilonBox ε).judge s r = .keepsOut ↔
      List.Forall₂ (· ≤ ·) (ε.boxIndex r.objectives) (ε.boxIndex s.objectives) ∧
        ε.boxIndex r.objectives ≠ ε.boxIndex s.objectives := by
  have loses : ¬ ε.residual r.objectives ≤ ε.residual s.objectives := fun le =>
    ne_true_of_eq_false (le_iff.1 le).1.2 (isNaN_residual undefined)
  have sizes : (ε.boxIndex r.objectives).length = (ε.boxIndex s.objectives).length := by
    simpa using lengths.symm
  rw [judge_eq_keepsOut_iff_coversBy, CoversBy, ← advantage_dominance_eq_left_iff sizes,
    ε.relateBoxes_of_none (feasibilityTier_eq_none_symm tied)]
  exact or_iff_left fun shared => loses shared.2

/-- What does not keep an offer out stays if it is somewhere in a lower box. -/
theorem coexists_iff_lowerSomewhere (undefined : ∃ w ∈ s.objectives, w.isNaN = true)
    (admits : (Policy.epsilonBox ε).judge s r ≠ .keepsOut) :
    (Policy.epsilonBox ε).judge s r = .coexists ↔ ε.LowerSomewhere r s := by
  have notBelow := mt (keepsOut_undefined_iff tied lengths undefined).2 admits
  rw [judge_eq_coexists_iff_incomparable lengths, and_iff_right tied, Incomparable,
    ← not_lowerSomewhere_iff lengths, not_not]
  refine and_iff_left_of_imp fun lower below => ?_
  refine absurd lower ((not_lowerSomewhere_iff lengths).2 ?_)
  have same := not_not.1 fun differ => notBelow ⟨below, differ⟩
  rw [same]
  exact List.forall₂_refl _

end

end Epsilons

/-! ### One offer -/

namespace Archive

variable {ε : Epsilons} {a : Archive} {s : Solution}

/-- Who stays for an offer, how many leave for it, and whether it joins them. When the offer is kept
out everybody stays. -/
theorem settle_of_stays {stays : Solution → Prop} [DecidablePred stays]
    (keptOut : ∀ r ∈ a.retained, a.policy.judge s r = .keepsOut → ∀ t ∈ a.retained, stays t)
    (admitted : ∀ r ∈ a.retained, a.policy.judge s r ≠ .keepsOut →
      (a.policy.judge s r = .coexists ↔ stays r)) :
    (a.settle s).2.replaced = (a.retained.countP fun r => ¬ stays r) ∧
      (a.settle s).1.retained =
        a.retained.filter stays ++ if (a.settle s).2.isAdded then [s] else [] := by
  rw [settle_eq_sweep, sweep_eq]
  by_cases kept : ∃ r ∈ a.retained, a.policy.judge s r = .keepsOut
  · rw [if_pos kept]
    obtain ⟨r, member, verdict⟩ := kept
    have all := keptOut r member verdict
    refine ⟨?_, ?_⟩
    · exact (List.countP_eq_zero.2 fun t inside => by simpa using all t inside).symm
    · show a.retained = a.retained.filter stays ++ []
      rw [List.append_nil, List.filter_eq_self.2 fun t inside => decide_eq_true (all t inside)]
  · rw [if_neg kept]
    have admits (r : Solution) (member : r ∈ a.retained) : a.policy.judge s r ≠ .keepsOut :=
      fun verdict => kept ⟨r, member, verdict⟩
    refine ⟨List.countP_congr fun r member => ?_, ?_⟩
    · rw [decide_eq_true_iff, decide_eq_true_iff, ← admitted r member (admits r member)]
      cases verdict : a.policy.judge s r with
      | keepsOut => exact absurd verdict (admits r member)
      | coexists | dominated | displaced => simp
    · show (a.retained.filter fun r => a.policy.judge s r = .coexists) ++ [s] = _ ++ [s]
      refine congrArg (· ++ [s]) (List.filter_congr fun r member => ?_)
      exact decide_eq_decide.2 (admitted r member (admits r member))

section

variable {recent : List Solution} (coexistent : a.Coexistent recent)
  (boxes : a.policy = .epsilonBox ε) (feasible : s.isFeasible = true)
  (others : ∀ r ∈ a.retained, r.isFeasible = true)
  (lengths : ∀ r ∈ a.retained, s.objectives.length = r.objectives.length)
  (undefined : ∃ w ∈ s.objectives, w.isNaN = true)
include coexistent boxes feasible others lengths undefined

/-- What keeps the offer out lies in a strictly lower box, so that nothing else that is retained
lies in a box at least that of the offer. -/
theorem Coexistent.lowerSomewhere_of_keptOut {r : Solution} (member : r ∈ a.retained)
    (verdict : a.policy.judge s r = .keepsOut) {t : Solution} (inside : t ∈ a.retained) :
    ε.LowerSomewhere t s := by
  by_contra notLower
  have above := (Epsilons.not_lowerSomewhere_iff (lengths t inside)).1 notLower
  have tied := feasibilityTier_of_feasible feasible (others r member)
  rw [boxes, Epsilons.keepsOut_undefined_iff tied (lengths r member) undefined] at verdict
  obtain ⟨below, differ⟩ := verdict
  refine coexistent.not_dominates boxes member inside ?_
  have sizes : (ε.boxIndex r.objectives).length = (ε.boxIndex t.objectives).length := by
    simpa using (lengths r member).symm.trans (lengths t inside)
  rw [ε.relateBoxes_of_none (feasibilityTier_of_feasible (others r member) (others t inside)),
    advantage_dominance_eq_left_iff sizes]
  refine ⟨forall₂_le_trans below above, fun same => differ ?_⟩
  exact forall₂_le_antisymm below (same ▸ above)

/-- The offer leaves in place what is somewhere in a lower box. -/
theorem Coexistent.settle_undefined :
    (a.settle s).2.replaced = (a.retained.countP fun r => ¬ ε.LowerSomewhere r s) ∧
      (a.settle s).1.retained = (a.retained.filter fun r => ε.LowerSomewhere r s) ++
        if (a.settle s).2.isAdded then [s] else [] := by
  refine settle_of_stays ?_ fun r member admits => ?_
  · intro r member verdict t inside
    exact coexistent.lowerSomewhere_of_keptOut boxes feasible others lengths undefined member
      verdict inside
  · have tied := feasibilityTier_of_feasible feasible (others r member)
    rw [boxes] at admits ⊢
    exact Epsilons.coexists_iff_lowerSomewhere tied (lengths r member) undefined admits

end

/-- Whatever was asked of an archive with boxes, an offer with an undefined objective evicts those
retained solutions that are nowhere in a lower box, if undefined values are taken to lie in box `0`,
and no others. The offer and the retained solutions must be feasible. -/
theorem offer_undefined (new : a.IsNew) (boxes : a.policy = .epsilonBox ε) (calls : List Call)
    (serves : (calls.foldl Archive.after a).Serves s.widths) (feasible : s.isFeasible = true)
    (others : ∀ r ∈ (calls.foldl Archive.after a).retained, r.isFeasible = true)
    (undefined : ∃ w ∈ s.objectives, w.isNaN = true) :
    let reached := calls.foldl Archive.after a
    ∃ outcome, (reached.offer s).2 = .ok outcome ∧
      outcome.replaced = (reached.retained.countP fun r => ¬ ε.LowerSomewhere r s) ∧
      (reached.offer s).1.retained =
        (reached.retained.filter fun r => ε.LowerSomewhere r s) ++
          if outcome.isAdded then [s] else [] := by
  intro reached
  have policy : reached.policy = .epsilonBox ε := (a.policy_foldl_after calls).trans boxes
  have coexistent : reached.Coexistent (a.offeredSince [] calls) := new.coexistent calls
  have lengths (r : Solution) (member : r ∈ reached.retained) :
      s.objectives.length = r.objectives.length :=
    congrArg Widths.objectives (serves.widths_of_retained coexistent member).symm
  -- counting the offer and learning the widths leaves what is retained as it is
  have counted : ({ reached with widths := some s.widths }).countOffer.Coexistent
      (a.offeredSince [] calls) :=
    ⟨coexistent.sublist, fun r member => congrArg some
      (serves.widths_of_retained coexistent member).symm, coexistent.coexists⟩
  rw [serves.offer rfl]
  exact ⟨_, rfl, counted.settle_undefined policy feasible others lengths undefined⟩

end Archive

/-- An occupant of the box of the offer, which leaves although no residual is smaller than its own,
and two solutions that are somewhere in a lower box. -/
theorem offer_undefined_lowerSomewhere :
    let ε : Epsilons := ⟨[1], by decide, by decide⟩
    let a := Archive.epsilonBox ε
    let calls : List Call := [.addAll [.ofObjectives [0.5, 4.5], .ofObjectives [5, 3]],
      .offer (.ofObjectives [-1, 9])]
    let reached := calls.foldl Archive.after a
    let s : Solution := .ofObjectives [0 / 0, 4]
    (reached.offer s).2 = .ok (.added 1) ∧
      (reached.offer s).1.objectives = [[5, 3], [-1, 9], [0 / 0, 4]] := by
  intro ε a calls reached s
  have new : a.IsNew := .epsilonBox ε
  have known : reached.widths = some s.widths := by decide +kernel
  obtain ⟨outcome, accepted, replaced, retained⟩ := Archive.offer_undefined new rfl calls
    (new.serves_of_widths calls known) rfl (by decide +kernel) (by decide +kernel)
  have leaves : outcome.replaced = 1 := replaced.trans (by decide +kernel)
  obtain _ | n := outcome
  · cases leaves
  · obtain rfl : n = 1 := leaves
    exact ⟨accepted, (congrArg (List.map Solution.objectives) retained).trans (by decide +kernel)⟩

/-- One offer of undefined values in place of everything that was retained. -/
theorem undefined_takesAll :
    let a := [.ofObjectives [3, 5], .ofObjectives [5, 3]].foldl (fun a s => (a.offer s).1)
      (Archive.epsilonBox ⟨[1], by decide, by decide⟩)
    let s : Solution := .ofObjectives [0 / 0, 0 / 0]
    a.retained = [.ofObjectives [3, 5], .ofObjectives [5, 3]] ∧
      (∀ r ∈ a.retained, r.isFeasible = true ∧ r.widths = s.widths ∧
        ∀ v ∈ r.objectives, v.isFinite = true) ∧
      s.isFeasible = true ∧ (∃ w ∈ s.objectives, w.isNaN = true) ∧
      (a.offer s).2 = .ok (.added 2) ∧ (a.offer s).1.retained = [s] := by
  intro a s
  exact ⟨rfl, by decide +kernel, rfl, by decide +kernel, by decide +kernel, rfl⟩

end ParetoFront
