import ParetoFront.Proofs.Fronts.Layers
import ParetoFront.Proofs.Fronts.Parts
import ParetoFront.Proofs.Fronts.StrictOrder

/-!
# Fronts tier by tier

A criterion that puts the feasibility tier first is asked about pairs only; nothing in sorting looks
at the tiers of a pool. All the same, the fronts of a pool are those of its tiers, each sorted
alone: first the feasible solutions, then the infeasible ones by total violation. In a tier the
comparison of objectives or of boxes is all that is left.

## Main definitions

- `Criterion.isTiered`, `Criterion.relateInTier` — which criteria have tiers, and what they do there
- `violationLevels`, `tierGroups` — the tiers of a pool

## Main statements

- `Criterion.relate_eq_getD` — the tier, or else the comparison inside a tier
- `pairwise_violationLevels`, `exists_violationLevel` — the total violations in a pool, ascending
- `tierGroups_eq` — tiers by places
- `sortIntoFronts_eq_tiers` — the fronts of a pool tier by tier
-/

namespace ParetoFront

open Number

/-! ### Comparison in a tier -/

namespace Criterion

/-- The criterion puts the feasibility tier first. -/
def isTiered : Criterion → Bool
  | constrained | epsilonBox _ => true
  | pareto | lexicographic => false

/-- The outcome between solutions of one tier: that of Pareto dominance of the objectives or of
the boxes, without a look at constraints. -/
def relateInTier : Criterion → Solution → Solution → Dominance
  | pareto, a, b | constrained, a, b => paretoDominance a.objectives b.objectives
  | epsilonBox ε, a, b =>
    (advantage strictlyLess ⟨false, false⟩ (ε.boxIndex a.objectives)
      (ε.boxIndex b.objectives)).dominance
  | lexicographic, a, b => lexicographicDominance a.objectives b.objectives

variable {r : Criterion} {a b s : Solution}

theorem relate_eq_getD (tiered : r.isTiered = true) (a b : Solution) :
    r.relate a b = (feasibilityTier a b).getD (r.relateInTier a b) := by
  cases r with
  | pareto | lexicographic => cases tiered
  | constrained => rfl
  | epsilonBox ε => exact ε.relateBoxes_dominance a b

theorem relateInTier_swap (r : Criterion) (a b : Solution) :
    r.relateInTier b a = (r.relateInTier a b).swap := by
  cases r with
  | pareto | constrained => exact paretoDominance_swap ..
  | epsilonBox ε =>
    rw [relateInTier, advantage_swap strictlyLess_asymm, Advantage.dominance_swap, relateInTier]
  | lexicographic => exact lexicographicDominance_swap ..

theorem antisymmetricOn_relateInTier (r : Criterion) (pool : List Solution) :
    Comparator.AntisymmetricOn (fun a b => .ok (r.relateInTier a b)) pool :=
  .of_relation fun a _ b _ => r.relateInTier_swap a b

theorem Numeric.constraints (tiered : r.isTiered = true) (numeric : r.Numeric s) :
    AllNumbers s.constraints := by
  cases r with
  | pareto | lexicographic => cases tiered
  | constrained => exact numeric.2
  | epsilonBox ε => exact numeric

end Criterion

/-! ### Total violations -/

/-- Inserts a total violation into an ascending list, unless it is there. -/
def insertLevel (v : Float) : List Float → List Float
  | [] => [v]
  | u :: levels =>
    if v < u then v :: u :: levels
    else if u < v then u :: insertLevel v levels
    else u :: levels

/-- The total violations of the infeasible solutions, ascending, each once. -/
def violationLevels (pool : List Solution) : List Float :=
  (pool.filter fun s => !s.isFeasible).foldr (fun s => insertLevel s.totalViolation) []

variable {pool : List Solution} {levels : List Float} {u v : Float}

theorem mem_of_mem_insertLevel (member : u ∈ insertLevel v levels) : u = v ∨ u ∈ levels := by
  induction levels with
  | nil => exact Or.inl (List.mem_singleton.1 member)
  | cons x levels ih =>
    rw [insertLevel] at member
    split at member
    · exact List.mem_cons.1 member
    · split at member
      · obtain rfl | later := List.mem_cons.1 member
        · exact Or.inr List.mem_cons_self
        · exact (ih later).imp_right (List.mem_cons_of_mem x)
      · exact Or.inr member

theorem subset_insertLevel : levels ⊆ insertLevel v levels := by
  induction levels with
  | nil => exact List.nil_subset _
  | cons x levels ih =>
    rw [insertLevel]
    split
    · exact List.subset_cons_self v _
    · split
      · exact List.cons_subset_cons x ih
      · exact List.Subset.refl _

theorem pairwise_insertLevel (ascending : levels.Pairwise (· < ·)) :
    (insertLevel v levels).Pairwise (· < ·) := by
  induction levels with
  | nil => exact List.pairwise_singleton _ _
  | cons x levels ih =>
    obtain ⟨first, rest⟩ := List.pairwise_cons.1 ascending
    rw [insertLevel]
    by_cases before : v < x
    · rw [if_pos before]
      exact List.pairwise_cons.2 ⟨List.forall_mem_cons.2
        ⟨before, fun y member => lt_trans before (first y member)⟩, ascending⟩
    · rw [if_neg before]
      by_cases after : x < v
      · rw [if_pos after]
        refine List.pairwise_cons.2 ⟨fun y member => ?_, ih rest⟩
        obtain rfl | later := mem_of_mem_insertLevel member
        · exact after
        · exact first y later
      · rw [if_neg after]
        exact ascending

/-- Among numbers, what is neither before nor after a level is at its place. -/
theorem exists_mem_insertLevel (number : v.isNaN = false)
    (numbers : ∀ u ∈ levels, u.isNaN = false) : ∃ u ∈ insertLevel v levels, units u = units v := by
  induction levels with
  | nil => exact ⟨v, List.mem_cons_self, rfl⟩
  | cons x levels ih =>
    obtain ⟨first, rest⟩ := List.forall_mem_cons.1 numbers
    rw [insertLevel]
    by_cases before : v < x
    · rw [if_pos before]
      exact ⟨v, List.mem_cons_self, rfl⟩
    · rw [if_neg before]
      by_cases after : x < v
      · rw [if_pos after]
        obtain ⟨u, member, same⟩ := ih rest
        exact ⟨u, List.mem_cons_of_mem x member, same⟩
      · rw [if_neg after]
        rw [lt_iff_units number first, not_lt] at before
        rw [lt_iff_units first number, not_lt] at after
        exact ⟨x, List.mem_cons_self, le_antisymm before after⟩

theorem violationLevels_cons (s : Solution) (pool : List Solution) :
    violationLevels (s :: pool) =
      if s.isFeasible then violationLevels pool
      else insertLevel s.totalViolation (violationLevels pool) := by
  rw [violationLevels, List.filter_cons]
  cases s.isFeasible <;> rfl

theorem pairwise_violationLevels (pool : List Solution) :
    (violationLevels pool).Pairwise (· < ·) := by
  induction pool with
  | nil => exact List.Pairwise.nil
  | cons s pool ih =>
    rw [violationLevels_cons]
    split
    · exact ih
    · exact pairwise_insertLevel ih

theorem exists_of_mem_violationLevels (member : v ∈ violationLevels pool) :
    ∃ s ∈ pool, s.isFeasible = false ∧ s.totalViolation = v := by
  induction pool with
  | nil => cases member
  | cons s pool ih =>
    have later (member : v ∈ violationLevels pool) :
        ∃ t ∈ s :: pool, t.isFeasible = false ∧ t.totalViolation = v := by
      obtain ⟨t, inPool, found⟩ := ih member
      exact ⟨t, List.mem_cons_of_mem s inPool, found⟩
    rw [violationLevels_cons] at member
    cases feasible : s.isFeasible with
    | true =>
      rw [feasible, if_pos rfl] at member
      exact later member
    | false =>
      rw [feasible, if_neg Bool.false_ne_true] at member
      obtain rfl | inRest := mem_of_mem_insertLevel member
      · exact ⟨s, List.mem_cons_self, feasible, rfl⟩
      · exact later inRest

section Numbers

variable (numbers : ∀ s ∈ pool, AllNumbers s.constraints)
include numbers

theorem isNaN_of_mem_violationLevels (member : v ∈ violationLevels pool) : v.isNaN = false := by
  obtain ⟨s, inPool, -, rfl⟩ := exists_of_mem_violationLevels member
  exact isNaN_of_nonneg (Solution.totalViolation_nonneg (numbers s inPool))

theorem exists_violationLevel {s : Solution} (member : s ∈ pool)
    (infeasible : s.isFeasible = false) :
    ∃ v ∈ violationLevels pool, units v = units s.totalViolation := by
  induction pool with
  | nil => cases member
  | cons t pool ih =>
    obtain ⟨first, rest⟩ := List.forall_mem_cons.1 numbers
    rw [violationLevels_cons]
    obtain rfl | later := List.mem_cons.1 member
    · rw [infeasible, if_neg Bool.false_ne_true]
      exact exists_mem_insertLevel (isNaN_of_nonneg (Solution.totalViolation_nonneg first))
        fun u inLevels => isNaN_of_mem_violationLevels rest inLevels
    · obtain ⟨v, inLevels, same⟩ := ih rest later
      split
      · exact ⟨v, inLevels, same⟩
      · exact ⟨v, subset_insertLevel inLevels, same⟩

end Numbers

/-! ### Tiers -/

/-- The positions of a pool whose solutions meet a condition, ascending. -/
def positionsWhere (pool : List Solution) (p : Solution → Bool) : List Nat :=
  (List.range pool.length).filter fun i => pool[i]?.any p

/-- The tiers of a pool that are not empty, in ascending order: the feasible solutions, then the
infeasible solutions of each total violation. -/
def tierGroups (pool : List Solution) : List (List Nat) :=
  (positionsWhere pool Solution.isFeasible :: (violationLevels pool).map fun v =>
    positionsWhere pool fun s => !s.isFeasible && s.totalViolation == v).filter (!·.isEmpty)

/-- The place in the feasibility tier of the solution at a position. -/
def placeAt (pool : List Solution) (i : Nat) : WithBot Int :=
  pool[i]?.elim ⊥ Solution.violationPlace

/-- The places of the tiers, ascending. -/
def tierPlaces (pool : List Solution) : List (WithBot Int) :=
  ⊥ :: (violationLevels pool).map fun v => ((units v : Int) : WithBot Int)

/-- Empty parts add nothing. -/
theorem flatMap_filter_isEmpty {α β : Type} {f : List α → List β} (nothing : f [] = [])
    (parts : List (List α)) : (parts.filter (!·.isEmpty)).flatMap f = parts.flatMap f := by
  induction parts with
  | nil => rfl
  | cons part parts ih =>
    rw [List.filter_cons, List.flatMap_cons, ← ih]
    cases part with
    | nil => rw [nothing]; rfl
    | cons x xs => rfl

variable {s : Solution}

theorem placeAt_of_getElem? {i : Nat} (atI : pool[i]? = some s) :
    placeAt pool i = s.violationPlace := by
  rw [placeAt, atI]
  rfl

theorem Solution.violationPlace_eq_bot_iff : s.violationPlace = ⊥ ↔ s.isFeasible = true := by
  rw [violationPlace]
  cases s.isFeasible <;> simp

theorem Solution.violationPlace_eq_coe_iff (numbers : AllNumbers s.constraints)
    (number : v.isNaN = false) :
    s.violationPlace = ((units v : Int) : WithBot Int) ↔
      (!s.isFeasible && s.totalViolation == v) = true := by
  rw [violationPlace, Bool.and_eq_true, Bool.not_eq_true',
    beq_iff_units (isNaN_of_nonneg (totalViolation_nonneg numbers)) number]
  cases s.isFeasible <;> simp

theorem positionsWhere_eq {p : Solution → Bool} {place : WithBot Int}
    (same : ∀ s ∈ pool, s.violationPlace = place ↔ p s = true) :
    positionsWhere pool p =
      (List.range pool.length).filter fun i => decide (placeAt pool i = place) := by
  refine List.filter_congr fun i member => ?_
  have atI := List.getElem?_eq_getElem (List.mem_range.1 member)
  rw [placeAt_of_getElem? atI, atI, Bool.eq_iff_iff, decide_eq_true_iff,
    same _ (List.mem_of_getElem? atI), Option.any_some]

theorem pairwise_tierPlaces (pool : List Solution) : (tierPlaces pool).Pairwise (· < ·) := by
  refine List.pairwise_cons.2 ⟨fun place member => ?_, ?_⟩
  · obtain ⟨v, -, rfl⟩ := List.mem_map.1 member
    exact WithBot.bot_lt_coe _
  · refine List.pairwise_map.2 ((pairwise_violationLevels pool).imp fun less => ?_)
    exact WithBot.coe_lt_coe.2 (lt_iff.1 less).2

section Numbers

variable (numbers : ∀ s ∈ pool, AllNumbers s.constraints)
include numbers

/-- A tier holds the positions of one place. -/
theorem tierGroups_eq :
    tierGroups pool = ((tierPlaces pool).map fun place => (List.range pool.length).filter
      fun i => decide (placeAt pool i = place)).filter (!·.isEmpty) := by
  rw [tierGroups, tierPlaces, List.map_cons, List.map_map]
  refine congrArg _ (congrArg₂ _ (positionsWhere_eq fun s _ => s.violationPlace_eq_bot_iff)
    (List.map_congr_left fun v member => positionsWhere_eq fun s inPool => ?_))
  exact Solution.violationPlace_eq_coe_iff (numbers s inPool)
    (isNaN_of_mem_violationLevels numbers member)

theorem of_mem_tierGroups {group : List Nat} (member : group ∈ tierGroups pool) :
    group.Sublist (List.range pool.length) ∧ ∃ place, ∀ i ∈ group, placeAt pool i = place := by
  rw [tierGroups_eq numbers] at member
  obtain ⟨place, -, rfl⟩ := List.mem_map.1 (List.mem_filter.1 member).1
  refine ⟨List.filter_sublist, place, fun i inGroup => ?_⟩
  exact of_decide_eq_true (List.mem_filter.1 inGroup).2

theorem placeAt_mem_tierPlaces (i : Nat) : placeAt pool i ∈ tierPlaces pool := by
  rw [placeAt]
  cases atI : pool[i]? with
  | none => exact List.mem_cons_self
  | some s =>
    have member := List.mem_of_getElem? atI
    rw [Option.elim_some, Solution.violationPlace]
    cases infeasible : s.isFeasible with
    | true => exact List.mem_cons_self
    | false =>
      obtain ⟨v, inLevels, same⟩ := exists_violationLevel numbers member infeasible
      exact List.mem_cons_of_mem _ (List.mem_map.2 ⟨v, inLevels, congrArg _ same⟩)

end Numbers

/-! ### Fronts -/

section Fronts

variable {r : Criterion} {w : Widths} {i j : Nat} (tiered : r.isTiered = true)
  (accepted : commonWidths pool = .ok w) (numeric : ∀ s ∈ pool, r.Numeric s)
include tiered accepted numeric

/-- Whoever is of an earlier tier dominates, and is not dominated. -/
theorem dominatesAt_of_placeAt_lt (left : i < pool.length) (right : j < pool.length)
    (earlier : placeAt pool i < placeAt pool j) :
    dominatesAt r.compare pool i j = true ∧ dominatesAt r.compare pool j i = false := by
  have atI := List.getElem?_eq_getElem left
  have atJ := List.getElem?_eq_getElem right
  have antisymmetric := r.antisymmetricOn accepted
  rw [placeAt_of_getElem? atI, placeAt_of_getElem? atJ, ← feasibilityTier_eq_left_iff
    ((numeric _ (List.getElem_mem left)).constraints tiered)
    ((numeric _ (List.getElem_mem right)).constraints tiered)] at earlier
  have wins : dominatesAt r.compare pool i j = true := by
    refine (Criterion.dominatesAt_iff accepted).2 ⟨_, _, atI, atJ, ?_⟩
    rw [Criterion.relate_eq_getD tiered, earlier, Option.getD_some]
  refine ⟨wins, eq_false_of_ne_true fun loses => ?_⟩
  simpa using dominatesAt_trans antisymmetric (r.transitiveOn accepted numeric) wins loses

/-- In a tier the comparison inside tiers is all that is left. -/
theorem dominatesAt_relateInTier (same : placeAt pool i = placeAt pool j) :
    dominatesAt (fun a b => .ok (r.relateInTier a b)) pool i j =
      dominatesAt r.compare pool i j := by
  rw [Bool.eq_iff_iff, (r.antisymmetricOn_relateInTier pool).dominatesAt_iff,
    Criterion.dominatesAt_iff accepted]
  refine exists₂_congr fun a b => and_congr_right fun atI => and_congr_right fun atJ => ?_
  rw [placeAt_of_getElem? atI, placeAt_of_getElem? atJ, ← feasibilityTier_eq_none_iff
    ((numeric a (List.mem_of_getElem? atI)).constraints tiered)
    ((numeric b (List.mem_of_getElem? atJ)).constraints tiered)] at same
  rw [Criterion.relate_eq_getD tiered, same, Option.getD_none, Except.ok.injEq]

theorem naiveFronts_eq_tiers :
    naiveFronts (dominatesAt r.compare pool) (List.range pool.length) =
      (tierGroups pool).flatMap (naiveFronts (dominatesAt r.compare pool)) := by
  have numbers : ∀ s ∈ pool, AllNumbers s.constraints := fun s member =>
    (numeric s member).constraints tiered
  have free : NeverStalls (dominatesAt r.compare pool) (List.range pool.length) :=
    neverStalls_of_strictOrder (fun i _ => dominatesAt_self _ _ i) fun i _ j _ k _ =>
      dominatesAt_trans (r.antisymmetricOn accepted) (r.transitiveOn accepted numeric)
  rw [naiveFronts_eq_flatMap (pairwise_tierPlaces pool)
    (fun i _ => placeAt_mem_tierPlaces numbers i) (fun i left j right => dominatesAt_of_placeAt_lt
      tiered accepted numeric (List.mem_range.1 left) (List.mem_range.1 right)) free,
    tierGroups_eq numbers, flatMap_filter_isEmpty naiveFronts_nil, List.flatMap_map]

/-- The tiers hold each position once. -/
theorem flatten_tierGroups_perm : (tierGroups pool).flatten.Perm (List.range pool.length) := by
  have fronts := @flatten_naiveFronts_perm (dominatesAt r.compare pool) (List.range pool.length)
  rw [naiveFronts_eq_tiers tiered accepted numeric, ← List.flatMap_id, List.flatMap_assoc]
    at fronts
  refine List.Perm.trans ?_ fronts
  rw [← List.flatMap_id]
  refine List.Perm.flatMap_left _ fun group _ => ?_
  rw [List.flatMap_id]
  exact (flatten_naiveFronts_perm group).symm

end Fronts

/-- The fronts of a pool of equal widths, on which the criterion is numeric, are those of its tiers,
each sorted alone, one tier after the other. It makes no difference whether the criterion or only
its comparison inside tiers is used there. -/
theorem sortIntoFronts_eq_tiers (r : Criterion) (tiered : r.isTiered = true) {w : Widths}
    (accepted : commonWidths pool = .ok w) (numeric : ∀ s ∈ pool, r.Numeric s) :
    ∃ f parts, sortIntoFronts r.compare pool = .ok f ∧ f.fronts = parts.flatten ∧
      (tierGroups pool).mapM (frontsAlone r.compare pool) = .ok parts ∧
      (tierGroups pool).mapM (frontsAlone (fun a b => .ok (r.relateInTier a b)) pool) =
        .ok parts ∧
      (violationLevels pool).Pairwise (· < ·) ∧
      (tierGroups pool).flatten.Perm (List.range pool.length) := by
  have antisymmetric := r.antisymmetricOn accepted
  have tiers {group : List Nat} (member : group ∈ tierGroups pool) :=
    of_mem_tierGroups (fun s inPool => (numeric s inPool).constraints tiered) member
  have inside {group : List Nat} (member : group ∈ tierGroups pool) :
      ∀ i ∈ group, i < pool.length :=
    fun i inGroup => List.mem_range.1 ((tiers member).1.subset inGroup)
  have distinct {group : List Nat} (member : group ∈ tierGroups pool) : group.Nodup :=
    List.nodup_range.sublist (tiers member).1
  obtain ⟨f, sorted, peeling⟩ := sortIntoFronts_eq_ok accepted antisymmetric
  refine ⟨f, (tierGroups pool).map (naiveFronts (dominatesAt r.compare pool)), sorted, ?_, ?_, ?_,
    pairwise_violationLevels pool, flatten_tierGroups_perm tiered accepted numeric⟩
  · -- sorting is peeling by definition, which takes one tier after the other
    rw [peeling.fronts_eq, naiveFronts_eq_tiers tiered accepted numeric, List.flatMap_def]
  · exact mapM_eq_ok fun group member =>
      frontsAlone_eq_ok accepted antisymmetric (distinct member) (inside member)
  · refine mapM_eq_ok fun group member => ?_
    rw [frontsAlone_eq_ok accepted (r.antisymmetricOn_relateInTier pool) (distinct member)
      (inside member)]
    obtain ⟨-, place, samePlace⟩ := tiers member
    refine congrArg _ (naiveFronts_congr fun i left j right => ?_)
    exact (dominatesAt_relateInTier tiered accepted numeric
      ((samePlace i left).trans (samePlace j right).symm)).symm

/-- Feasible solutions with zeros of both signs, and three tiers of infeasible ones: two violations
that add up to the same as one, an undefined objective, and an infinite violation. -/
def mixedPool : List Solution :=
  [⟨[], [3, 3], [1, -1]⟩, ⟨[], [2, 2], [0, 0]⟩, ⟨[], [0, 0], [1 / 0, 1]⟩, ⟨[], [0 / 0, 9], [0, 2]⟩,
    ⟨[], [1, 1], [-0.0, 0]⟩, ⟨[], [4, 4], [2, -0.0]⟩, ⟨[], [0, 0], [0.5, 0]⟩]

theorem sortIntoFronts_eq_tiers_mixedPool :
    let r := Criterion.epsilonBox ⟨[1], by decide, by decide⟩
    tierGroups mixedPool = [[1, 4], [6], [0, 3, 5], [2]] ∧
      ∃ f, sortIntoFronts r.compare mixedPool = .ok f ∧
        f.fronts = [[4], [1]] ++ [[6]] ++ [[0, 3], [5]] ++ [[2]] := by
  intro r
  obtain ⟨f, parts, sorted, concatenated, alone, -⟩ := @sortIntoFronts_eq_tiers mixedPool
    (.epsilonBox ⟨[1], by decide, by decide⟩) rfl ⟨2, 2⟩ rfl (by decide)
  have tiers : (tierGroups mixedPool).mapM (frontsAlone r.compare mixedPool) =
      .ok [[[4], [1]], [[6]], [[0, 3], [5]], [[2]]] := by decide +kernel
  obtain rfl := Except.ok.inj (tiers.symm.trans alone)
  exact ⟨by decide +kernel, f, sorted, concatenated⟩

end ParetoFront
