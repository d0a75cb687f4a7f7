import Mathlib.Order.Basic
import ParetoFront.Proofs.FiniteRelation
import ParetoFront.Proofs.Fronts.NaivePeeling

/-!
# Peeling in layers

When the nodes lie in layers such that every node beats every node of a later layer and none of an
earlier one, peeling by definition never takes nodes of two layers together, unless a round stalls:
the fronts are those of the layers, one layer after the other.

## Main definitions

- `NeverStalls` — some member of every part of the nodes is unbeaten there

## Main statements

- `naiveFronts_eq_append` — two layers
- `naiveFronts_eq_flatMap` — any number of layers
- `naiveFronts_eq_map` — layers without edges inside, each of which is a front
-/

namespace ParetoFront

variable {beats : Nat → Nat → Bool} {rest : List Nat}

/-- Some member of every part of the nodes is unbeaten there. -/
def NeverStalls (beats : Nat → Nat → Bool) (rest : List Nat) : Prop :=
  ∀ part ⊆ rest, part ≠ [] → undominated beats part ≠ []

theorem NeverStalls.subset {part : List Nat} (h : NeverStalls beats rest) (inside : part ⊆ rest) :
    NeverStalls beats part :=
  fun smaller inPart => h smaller (List.Subset.trans inPart inside)

/-- A strict order never stalls. -/
theorem neverStalls_of_strictOrder (irrefl : ∀ i ∈ rest, beats i i = false)
    (trans : ∀ i ∈ rest, ∀ j ∈ rest, ∀ k ∈ rest,
      beats i j = true → beats j k = true → beats i k = true) : NeverStalls beats rest := by
  intro part inside nonempty
  obtain ⟨i, member⟩ := List.exists_mem_of_ne_nil _ nonempty
  obtain ⟨first, inPart, -, free⟩ := @exists_first Nat (fun i j => beats i j = true)
    {i | i ∈ part} (List.finite_toSet part)
    (fun i hi wins => Bool.false_ne_true ((irrefl i (inside hi)).symm.trans wins))
    (fun i hi j hj k hk => trans i (inside hi) j (inside hj) k (inside hk)) i member
  exact List.ne_nil_of_mem (mem_undominated.2
    ⟨inPart, fun j hj => eq_false_of_ne_true (free j hj)⟩)

section TwoLayers

variable {early : Nat → Bool}
  (wins : ∀ i ∈ rest, ∀ j ∈ rest, early i = true → early j = false →
    beats i j = true ∧ beats j i = false)
include wins

/-- As long as the early layer lasts, only its nodes are unbeaten. -/
theorem undominated_eq_of_early (lasts : rest.filter early ≠ []) :
    undominated beats rest = undominated beats (rest.filter early) := by
  rw [undominated, undominated, List.filter_filter]
  refine List.filter_congr fun j member => ?_
  cases isEarly : early j with
  | true =>
    rw [Bool.and_true]
    refine congrArg Bool.not ?_
    rw [Bool.eq_iff_iff, List.any_eq_true, List.any_eq_true]
    refine exists_congr fun i => ?_
    rw [List.mem_filter, and_assoc]
    refine and_congr_right fun member' => (and_iff_right_of_imp fun beaten => ?_).symm
    by_contra late
    have := (wins j member i member' isEarly (eq_false_of_ne_true late)).2
    exact Bool.false_ne_true (this.symm.trans beaten)
  | false =>
    obtain ⟨i, inEarly⟩ := List.exists_mem_of_ne_nil _ lasts
    obtain ⟨member', isEarly'⟩ := List.mem_filter.1 inEarly
    rw [Bool.and_false, Bool.not_eq_false', List.any_eq_true]
    exact ⟨i, member', (wins i member' j member isEarly' isEarly).1⟩

/-- The fronts of two layers are those of the early layer, then those of the late one. -/
theorem naiveFronts_eq_append (free : NeverStalls beats rest) :
    naiveFronts beats rest =
      naiveFronts beats (rest.filter early) ++
        naiveFronts beats (rest.filter fun i => !early i) := by
  induction rest using naiveFronts.induct beats with
  | case1 => simp
  | case2 rest nonempty ih =>
    by_cases lasts : rest.filter early = []
    · have late : (rest.filter fun i => !early i) = rest := by
        refine List.filter_eq_self.2 fun i member => ?_
        simpa using List.filter_eq_nil_iff.1 lasts i member
      rw [lasts, late, naiveFronts_nil, List.nil_append]
    · -- the round takes from the early layer what it would take from that layer alone
      have front : nextFront beats rest = nextFront beats (rest.filter early) := by
        rw [nextFront_eq_undominated (free rest (List.Subset.refl rest) nonempty),
          nextFront_eq_undominated (free _ (List.filter_subset_self rest) lasts),
          undominated_eq_of_early wins lasts]
      have earlyLeft : (leftOver beats rest).filter early =
          leftOver beats (rest.filter early) := by
        rw [leftOver, leftOver, front, List.filter_filter, List.filter_filter]
        exact List.filter_congr fun i _ => Bool.and_comm ..
      have lateLeft : (leftOver beats rest).filter (fun i => !early i) =
          rest.filter fun i => !early i := by
        rw [leftOver, List.filter_filter]
        refine List.filter_congr fun i _ => Bool.and_eq_left_iff_imp.2 fun late => ?_
        refine decide_eq_true fun inFront => ?_
        rw [front] at inFront
        have isEarly := (List.mem_filter.1 ((nextFront_sublist _).subset inFront)).2
        rw [isEarly] at late
        cases late
      have left := (@leftOver_sublist beats rest).subset
      rw [naiveFronts_of_ne_nil nonempty, naiveFronts_of_ne_nil lasts, front,
        ih (fun i hi j hj => wins i (left hi) j (left hj)) (free.subset left), earlyLeft, lateLeft,
        List.cons_append]

end TwoLayers

/-- The fronts of nodes in layers are those of the layers, one layer after the other. -/
theorem naiveFronts_eq_flatMap {κ : Type} [LinearOrder κ] {layer : Nat → κ} {levels : List κ}
    (ascending : levels.Pairwise (· < ·)) (covers : ∀ i ∈ rest, layer i ∈ levels)
    (wins : ∀ i ∈ rest, ∀ j ∈ rest, layer i < layer j → beats i j = true ∧ beats j i = false)
    (free : NeverStalls beats rest) :
    naiveFronts beats rest =
      levels.flatMap fun level => naiveFronts beats (rest.filter fun i => layer i = level) := by
  induction levels generalizing rest with
  | nil =>
    obtain rfl : rest = [] :=
      List.eq_nil_iff_forall_not_mem.2 fun i member => List.not_mem_nil (covers i member)
    simp
  | cons level levels ih =>
    obtain ⟨first, ascending⟩ := List.pairwise_cons.1 ascending
    have later : ∀ i ∈ rest, layer i ≠ level → layer i ∈ levels := fun i member other =>
      (List.mem_cons.1 (covers i member)).resolve_left other
    have inside := List.filter_subset_self (p := fun i => !decide (layer i = level)) rest
    rw [@naiveFronts_eq_append beats rest (fun i => decide (layer i = level)) _ free,
      @ih (rest.filter fun i => !decide (layer i = level)), List.flatMap_cons]
    · refine congrArg _ (List.flatMap_congr fun level' member => congrArg _ ?_)
      rw [List.filter_filter]
      refine List.filter_congr fun i _ => ?_
      rw [Bool.and_eq_left_iff_imp, decide_eq_true_iff, Bool.not_eq_true', decide_eq_false_iff_not]
      rintro rfl here
      exact lt_irrefl _ (here ▸ first _ member)
    · exact ascending
    · intro i member
      obtain ⟨member, other⟩ := List.mem_filter.1 member
      exact later i member (by simpa using other)
    · exact fun i hi j hj => wins i (inside hi) j (inside hj)
    · exact free.subset inside
    · intro i hi j hj here elsewhere
      rw [decide_eq_true_iff] at here
      rw [decide_eq_false_iff_not] at elsewhere
      exact wins i hi j hj (here ▸ first _ (later j hj elsewhere))

/-- Nodes of which none beats another form one front. -/
theorem naiveFronts_eq_singleton (nonempty : rest ≠ [])
    (apart : ∀ i ∈ rest, ∀ j ∈ rest, beats i j = false) : naiveFronts beats rest = [rest] := by
  have all : undominated beats rest = rest := List.filter_eq_self.2 fun j member => by
    simpa using fun i member' => apart i member' j member
  have front : nextFront beats rest = rest := by rw [nextFront, all, ite_self]
  have left : leftOver beats rest = [] := by
    rw [leftOver, front, List.filter_eq_nil_iff]
    simp
  rw [naiveFronts_of_ne_nil nonempty, front, left, naiveFronts_nil]

/-- When the layers alone decide which node beats which, each layer is a front. -/
theorem naiveFronts_eq_map {κ : Type} [LinearOrder κ] {layer : Nat → κ} {levels : List κ}
    (ascending : levels.Pairwise (· < ·)) (covers : ∀ i ∈ rest, layer i ∈ levels)
    (occupied : ∀ level ∈ levels, ∃ i ∈ rest, layer i = level)
    (decides : ∀ i ∈ rest, ∀ j ∈ rest, beats i j = true ↔ layer i < layer j) :
    naiveFronts beats rest =
      levels.map fun level => rest.filter fun i => layer i = level := by
  have unbeaten : ∀ i ∈ rest, ∀ j ∈ rest, layer j ≤ layer i → beats i j = false :=
    fun i hi j hj atMost => eq_false_of_ne_true fun wins =>
      not_lt_of_ge atMost ((decides i hi j hj).1 wins)
  have free : NeverStalls beats rest := by
    refine neverStalls_of_strictOrder (fun i hi => unbeaten i hi i hi le_rfl) ?_
    intro i hi j hj k hk first second
    exact (decides i hi k hk).2
      (((decides i hi j hj).1 first).trans ((decides j hj k hk).1 second))
  rw [naiveFronts_eq_flatMap ascending covers (fun i hi j hj before =>
    ⟨(decides i hi j hj).2 before, unbeaten j hj i hi before.le⟩) free, List.map_eq_flatMap]
  refine List.flatMap_congr fun level member => ?_
  obtain ⟨i, inRest, here⟩ := occupied level member
  refine naiveFronts_eq_singleton
    (List.ne_nil_of_mem (List.mem_filter.2 ⟨inRest, decide_eq_true here⟩)) ?_
  intro i inLevel j inLevel'
  obtain ⟨hi, atI⟩ := List.mem_filter.1 inLevel
  obtain ⟨hj, atJ⟩ := List.mem_filter.1 inLevel'
  refine unbeaten i hi j hj (le_of_eq ?_)
  rw [of_decide_eq_true atI, of_decide_eq_true atJ]

end ParetoFront
