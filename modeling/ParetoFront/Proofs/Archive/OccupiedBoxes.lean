import ParetoFront.Proofs.Archive.Coverage
import ParetoFront.Proofs.Archive.FirstFront
import ParetoFront.Proofs.Archive.Incomparable

/-!
# Occupied boxes

An archive with boxes covers every offer by box dominance or by a solution in its box, whatever the
residuals are, even undefined ones. The boxes that it occupies are therefore those of the offers
that no offer box-dominates. An archive without boxes that judges by box dominance retains all of
these offers, the one with boxes just one in each box.

## Main definitions

- `Epsilons.CoversBy` — box dominance, with ties in a shared box decided somehow

## Main statements

- `Epsilons.judge_eq_keepsOut_iff_coversBy` — what keeps an offer out
- `Epsilons.covering` — an archive with boxes decides by coverage
- `Archive.boxes_agree` — the boxes of the two archives
-/

namespace ParetoFront

/-! ### Coverage by boxes -/

namespace Epsilons

/-- A solution box-dominates another, or shares its box and wins the tie. -/
def CoversBy (ε : Epsilons) (tie : Solution → Solution → Prop) (s t : Solution) : Prop :=
  (ε.relateBoxes s t).dominance = .left ∨ (ε.relateBoxes s t).sameBox = true ∧ tie s t

variable {ε : Epsilons} {tie : Solution → Solution → Prop} {s t : Solution}

theorem coversBy_iff (hs : AllNumbers s.constraints) (ht : AllNumbers t.constraints)
    (lengths : s.objectives.length = t.objectives.length) :
    ε.CoversBy tie s t ↔ s.violationPlace < t.violationPlace ∨
      s.violationPlace = t.violationPlace ∧
        (List.Forall₂ (· ≤ ·) (ε.boxIndex s.objectives) (ε.boxIndex t.objectives) ∧
            ε.boxIndex s.objectives ≠ ε.boxIndex t.objectives ∨
          ε.boxIndex s.objectives = ε.boxIndex t.objectives ∧ tie s t) := by
  rw [CoversBy, ε.relateBoxes_dominance_eq_left_iff hs ht lengths,
    ε.relateBoxes_sameBox_iff lengths, feasibilityTier_eq_none_iff hs ht, or_assoc, and_assoc,
    ← and_or_left]

/-- A retained solution keeps out what it box-dominates, and in its box what is no nearer to the
corner. -/
theorem judge_eq_keepsOut_iff_coversBy :
    (Policy.epsilonBox ε).judge s t = .keepsOut ↔
      ε.CoversBy (fun p q => ε.residual p.objectives ≤ ε.residual q.objectives) t s := by
  have tied := @relateBoxes_dominance_of_sameBox ε s t
  rw [Policy.judge, CoversBy, ε.relateBoxes_swap s t]
  revert tied
  generalize ε.relateBoxes s t = found
  obtain ⟨_ | _ | _, _ | _⟩ := found
  all_goals simp [Dominance.swap]

/-- What leaves for an offer is box-dominated by it, or shares its box and loses the tie. -/
theorem coversBy_of_leaves (admitted : (Policy.epsilonBox ε).judge s t ≠ .keepsOut)
    (leaves : (Policy.epsilonBox ε).judge s t ≠ .coexists) :
    ε.CoversBy (fun p q => ¬ ε.residual q.objectives ≤ ε.residual p.objectives) s t := by
  rw [Policy.judge] at admitted leaves
  rw [CoversBy]
  revert admitted leaves
  generalize ε.relateBoxes s t = found
  obtain ⟨_ | _ | _, _ | _⟩ := found
  all_goals simp
  exact fun loses _ => loses

theorem CoversBy.mono {tie' : Solution → Solution → Prop} (h : ε.CoversBy tie s t)
    (le : tie s t → tie' s t) : ε.CoversBy tie' s t :=
  h.imp_right fun shared => ⟨shared.1, le shared.2⟩

/-- An archive with boxes decides by coverage with any tie-break that its own one respects. -/
theorem covering {good : Solution → Prop} (numbers : ∀ s, good s → AllNumbers s.constraints)
    (refl : ∀ s, good s → tie s s)
    (trans : ∀ s t u, good s → good t → good u → tie s t → tie t u → tie s u)
    (of_le : ∀ s t, good s → good t →
      ε.residual s.objectives ≤ ε.residual t.objectives → tie s t)
    (of_not_le : ∀ s t, good s → good t →
      ¬ ε.residual s.objectives ≤ ε.residual t.objectives → tie t s) :
    (Policy.epsilonBox ε).Covering good (ε.CoversBy tie) where
  refl s hs := by
    have numbers := numbers s hs
    exact (coversBy_iff numbers numbers rfl).2 (.inr ⟨rfl, .inr ⟨rfl, refl s hs⟩⟩)
  trans s t u hs ht hu same₁ same₂ first second := by
    have lengths {p q : Solution} (same : p.widths = q.widths) :
        p.objectives.length = q.objectives.length := congrArg Widths.objectives same
    rw [coversBy_iff (numbers s hs) (numbers t ht) (lengths same₁)] at first
    rw [coversBy_iff (numbers t ht) (numbers u hu) (lengths same₂)] at second
    rw [coversBy_iff (numbers s hs) (numbers u hu) (lengths (same₁.trans same₂))]
    exact tiered_trans (belowOrTied_trans (trans s t u hs ht hu)) first second
  of_keepsOut s r hs hr _ verdict :=
    (judge_eq_keepsOut_iff_coversBy.1 verdict).mono (of_le r s hr hs)
  of_leaves s r hs hr _ admitted leaves :=
    (coversBy_of_leaves admitted leaves).mono (of_not_le r s hr hs)

end Epsilons

/-! ### Retained solutions -/

namespace Archive

variable {ε : Epsilons} {a : Archive} {recent : List Solution}

/-- Of two retained solutions neither box-dominates the other, and they share no box. -/
theorem Coexistent.undecided (h : a.Coexistent recent) (boxes : a.policy = .epsilonBox ε) :
    a.retained.Pairwise fun r s =>
      (ε.relateBoxes s r).dominance = .neither ∧ (ε.relateBoxes s r).sameBox = false := by
  have coexists := h.coexists
  rw [boxes] at coexists
  exact coexists.imp fun verdict => Epsilons.judge_eq_coexists_iff_undecided.1 verdict

/-- No retained solution box-dominates a retained solution. -/
theorem Coexistent.not_dominates (h : a.Coexistent recent) (boxes : a.policy = .epsilonBox ε)
    {r s : Solution} (left : r ∈ a.retained) (right : s ∈ a.retained) :
    (ε.relateBoxes r s).dominance ≠ .left := by
  have apart := h.undecided boxes
  refine List.Pairwise.forall_of_forall_of_flip
    (R := fun r s => (ε.relateBoxes r s).dominance ≠ .left) ?_ (apart.imp ?_) (apart.imp ?_)
    left right
  · intro r _ wins
    have swap := congrArg BoxComparison.dominance (ε.relateBoxes_swap r r)
    rw [wins] at swap
    cases swap
  · intro r s apart
    rw [ε.relateBoxes_swap s r, apart.1]
    exact fun h => nomatch h
  · intro r s apart
    rw [flip, apart.1]
    exact fun h => nomatch h

/-- No two retained solutions share a box. -/
theorem Coexistent.nodup_boxes (h : a.Coexistent recent) (boxes : a.policy = .epsilonBox ε) :
    (a.retained.map fun s => ε.boxIndex s.objectives).Nodup := by
  refine List.pairwise_map.2 ((h.pairwise_incomparable boxes).imp fun incomparable same => ?_)
  exact incomparable.1 (same ▸ List.forall₂_refl _)

/-- Any number of offers leaves the retained solutions coexistent. -/
theorem Coexistent.foldl_offer (h : a.Coexistent recent) (offers : List Solution) :
    (offers.foldl (fun a s => (a.offer s).1) a).Coexistent (recent ++ offers) := by
  induction offers generalizing a recent with
  | nil => rwa [List.append_nil]
  | cons s rest ih =>
    rw [List.append_cons]
    exact ih (h.offer s)

theorem Coexistent.of_empty (empty : a.retained = []) : a.Coexistent [] :=
  ⟨empty ▸ .slnil, by simp [empty], empty ▸ .nil⟩

end Archive

/-! ### Occupied boxes -/

variable {ε : Epsilons} {offers : List Solution} {w : Widths} {a : Archive}

/-- The offer is box-dominated by none of the offers. -/
def Epsilons.Undominated (ε : Epsilons) (offers : List Solution) (s : Solution) : Prop :=
  ∀ t ∈ offers, (ε.relateBoxes t s).dominance ≠ .left

instance (offers : List Solution) : DecidablePred (ε.Undominated offers) := fun s =>
  inferInstanceAs (Decidable (∀ t ∈ offers, (ε.relateBoxes t s).dominance ≠ .left))

/-- Boxes cover offers, however ties in a shared box are decided. -/
theorem Epsilons.covering_boxes (ε : Epsilons) :
    (Policy.epsilonBox ε).Covering (fun s => AllNumbers s.constraints)
      (ε.CoversBy fun _ _ => True) :=
  covering (fun _ h => h) (fun _ _ => trivial) (fun _ _ _ _ _ _ _ _ => trivial)
    (fun _ _ _ _ _ => trivial) (fun _ _ _ _ _ => trivial)

namespace Archive

/-- Retained solutions are undominated among all offers, and they lie in the boxes of all
undominated offers. -/
theorem Covered.boxes (covered : a.Covered (fun s => AllNumbers s.constraints)
      (ε.CoversBy fun _ _ => True) offers)
    (coexistent : a.Coexistent offers) (boxes : a.policy = .epsilonBox ε)
    (matching : ∀ s ∈ offers, s.widths = w) (numbers : ∀ s ∈ offers, AllNumbers s.constraints) :
    (∀ s ∈ a.retained, ε.Undominated offers s) ∧
      ∀ s ∈ offers, ε.Undominated offers s →
        ∃ r ∈ a.retained, ε.boxIndex r.objectives = ε.boxIndex s.objectives := by
  have lengths {p q : Solution} (hp : p ∈ offers) (hq : q ∈ offers) :
      p.objectives.length = q.objectives.length :=
    congrArg Widths.objectives ((matching p hp).trans (matching q hq).symm)
  refine ⟨?_, ?_⟩
  · intro s kept t offered wins
    -- what covers the better offer would dominate a solution that is retained beside it
    obtain ⟨r, kept', above⟩ := covered.covered numbers t offered
    have insideS := covered.subset kept
    have insideR := covered.subset kept'
    refine coexistent.not_dominates boxes kept' kept ?_
    rw [ε.relateBoxes_dominance_eq_left_iff (numbers t offered) (numbers s insideS)
      (lengths offered insideS)] at wins
    rw [Epsilons.coversBy_iff (numbers r insideR) (numbers t offered)
      (lengths insideR offered)] at above
    rw [ε.relateBoxes_dominance_eq_left_iff (numbers r insideR) (numbers s insideS)
      (lengths insideR insideS)]
    refine tiered_trans (fun inTier below => ?_) above wins
    obtain above | ⟨same, -⟩ := inTier
    · exact strictlyBelow_trans above below
    · rwa [same]
  · intro s offered free
    obtain ⟨r, kept, above⟩ := covered.covered numbers s offered
    refine ⟨r, kept, ?_⟩
    have insideR := covered.subset kept
    obtain wins | ⟨shared, -⟩ := above
    · exact absurd wins (free r insideR)
    · exact ((ε.relateBoxes_sameBox_iff (lengths insideR offered)).1 shared).2

/-- The offers that no offer box-dominates are all that is retained by box dominance alone. -/
theorem retained_eq_filter_undominated
    (policy : a.policy = .nondominated (.epsilonBox ε) 0) (empty : a.retained = [])
    (widths : a.widths = none ∨ a.widths = some w) (matching : ∀ s ∈ offers, s.widths = w)
    (numbers : ∀ s ∈ offers, AllNumbers s.constraints) :
    (offers.foldl (fun a s => (a.offer s).1) a).retained =
      offers.filter fun s => ε.Undominated offers s := by
  by_cases nothing : offers = []
  · subst nothing
    exact empty
  · have accepted := (commonWidths_eq_ok_iff nothing).2 matching
    have transitive := (Criterion.epsilonBox ε).transitiveOn accepted numbers
    exact retained_eq_filter policy empty widths accepted transitive
      ((Criterion.epsilonBox ε).freeOfDuplicates_of_not_pos offers (by decide))

/-- The same offers of equal widths, without undefined constraint values, are made to an empty
archive with boxes and to an empty archive without that judges by box dominance with tolerance
zero. The first then retains a part of what the second retains, and exactly one solution in each
box. Both occupy the boxes of the offers that no offer box-dominates. -/
theorem boxes_agree (ε : Epsilons) (boxed plain : Archive) (w : Widths) (offers : List Solution)
    (policies : boxed.policy = .epsilonBox ε ∧ plain.policy = .nondominated (.epsilonBox ε) 0)
    (empty : boxed.retained = [] ∧ plain.retained = [])
    (widths : (boxed.widths = none ∨ boxed.widths = some w) ∧
      (plain.widths = none ∨ plain.widths = some w))
    (fits : ε.fits w.objectives = true) (matching : ∀ s ∈ offers, s.widths = w)
    (numbers : ∀ s ∈ offers, AllNumbers s.constraints) :
    let box := fun s : Solution => ε.boxIndex s.objectives
    let one := (offers.foldl (fun a s => (a.offer s).1) boxed).retained
    let all := (offers.foldl (fun a s => (a.offer s).1) plain).retained
    one.Sublist all ∧
      (∀ s ∈ all, (one.map box).count (box s) = 1) ∧
      (∀ b, b ∈ one.map box ↔ b ∈ all.map box) ∧
      ∀ b, b ∈ one.map box ↔ ∃ s ∈ offers, box s = b ∧
        ∀ t ∈ offers, (ε.relateBoxes t s).dominance ≠ .left := by
  intro box one all
  have serves : boxed.Serves w := by
    refine ⟨?_, widths.1⟩
    rw [policies.1, Policy.accept, if_pos fits]
  have policy := (serves.foldl_offer matching).2.1.trans policies.1
  have coexistent := (Coexistent.of_empty empty.1).foldl_offer offers
  have covered := (Covered.of_empty empty.1).foldl_offer (policies.1 ▸ ε.covering_boxes) serves
    matching
  obtain ⟨undominated, occupied⟩ := covered.boxes coexistent policy matching numbers
  have content : all = offers.filter fun s => ε.Undominated offers s :=
    retained_eq_filter_undominated policies.2 empty.2 widths.2 matching numbers
  have part : one.Sublist all := by
    have kept : one.filter (fun s => ε.Undominated offers s) = one :=
      List.filter_eq_self.2 fun s member => decide_eq_true (undominated s member)
    rw [content, ← kept]
    exact coexistent.sublist.filter _
  have meets {b : List Int} : b ∈ one.map box ↔ ∃ s ∈ offers, box s = b ∧
      ε.Undominated offers s := by
    rw [List.mem_map]
    constructor
    · rintro ⟨s, member, rfl⟩
      exact ⟨s, covered.subset member, rfl, undominated s member⟩
    · rintro ⟨s, offered, rfl, free⟩
      exact occupied s offered free
  have same (b : List Int) : b ∈ one.map box ↔ b ∈ all.map box := by
    rw [meets, content, List.mem_map]
    simp only [List.mem_filter, decide_eq_true_iff, and_assoc, and_comm]
  refine ⟨part, ?_, same, fun b => meets⟩
  intro s member
  exact List.count_eq_one_of_mem (coexistent.nodup_boxes policy)
    ((same (box s)).2 (List.mem_map_of_mem member))

end Archive

/-- Two offers in a box at the end of the range with undefined residuals, of which the later one
wins, a box that is shared, an undefined objective and an offer that is box-dominated. -/
def sharers : List Solution :=
  [.ofObjectives [1 / 0, 0], .ofObjectives [3, 4], .ofObjectives [1 / 0, 0.5],
    .ofObjectives [3.5, 4.5], .ofObjectives [0 / 0, 9], .ofObjectives [5, 5]]

theorem boxes_agree_sharers :
    let ε : Epsilons := ⟨[1], by decide, by decide⟩
    let one := (sharers.foldl (fun a s => (a.offer s).1) (Archive.epsilonBox ε)).retained
    let all := (sharers.foldl (fun a s => (a.offer s).1)
      (Archive.nondominated (.epsilonBox ε) 0)).retained
    one = [.ofObjectives [3, 4], .ofObjectives [1 / 0, 0.5], .ofObjectives [0 / 0, 9]] ∧
      all = [.ofObjectives [1 / 0, 0], .ofObjectives [3, 4], .ofObjectives [1 / 0, 0.5],
        .ofObjectives [3.5, 4.5], .ofObjectives [0 / 0, 9]] ∧
      ∀ b, b ∈ one.map (fun s => ε.boxIndex s.objectives) ↔
        b ∈ all.map (fun s => ε.boxIndex s.objectives) := by
  have content := @Archive.retained_eq_filter_undominated ⟨[1], by decide, by decide⟩ sharers
    ⟨2, 0⟩ (.nondominated _ 0) rfl rfl (.inl rfl) (by decide) (by decide)
  obtain ⟨-, -, same, -⟩ := Archive.boxes_agree ⟨[1], by decide, by decide⟩ (.epsilonBox _)
    (.nondominated _ 0) ⟨2, 0⟩ sharers ⟨rfl, rfl⟩ ⟨rfl, rfl⟩ ⟨.inl rfl, .inl rfl⟩ rfl (by decide)
    (by decide)
  exact ⟨rfl, content.trans rfl, same⟩

end ParetoFront
