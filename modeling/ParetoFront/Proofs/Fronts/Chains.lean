import Mathlib.Order.Bounds.Basic
import ParetoFront.Proofs.FiniteRelation
import ParetoFront.Proofs.Fronts.Sorting

/-!
# Ranks are lengths of domination chains

On the part of the domination graph that no cycle leads to, the rank of a position is the length of
the longest chain that ends there. The rest of the graph, if there is any, is the front that is
taken when every position that waits is dominated by one that waits.

## Main definitions

- `Fronts.Waits`, `Fronts.IsForced` — the rounds, read off the ranks
- `Fronts.Layered` — the facts about single rounds from which the rest follows

## Main statements

- `Fronts.Layered.isGreatest_chain` — ranks are longest chains
- `Fronts.Layered.mem_forced_iff` — the forced front holds what lies on or below a cycle
- `sortIntoFronts_longestChains` — both, for every pool
-/

namespace ParetoFront

open Relation

/-! ### Rounds -/

namespace Fronts

/-- The position has no rank yet when the front of rank `r` is taken. -/
def Waits (f : Fronts) (r i : Nat) : Prop :=
  ∃ s, f.ranks[i]? = some s ∧ r ≤ s

/-- Every position that waits for the front of rank `r` is dominated by one that waits. -/
def IsForced (beats : Nat → Nat → Bool) (f : Fronts) (r : Nat) : Prop :=
  r < f.count ∧ ∀ i, f.Waits r i → ∃ j, f.Waits r j ∧ beats j i = true

/-- What single rounds say about the ranks. -/
structure Layered (beats : Nat → Nat → Bool) (f : Fronts) : Prop where
  /-- Edges are between ranked positions. -/
  ranked : ∀ i j, beats i j = true →
    (∃ r : Nat, f.ranks[i]? = some r) ∧ ∃ r : Nat, f.ranks[j]? = some r
  nonempty : ∀ r < f.count, ∃ i : Nat, f.ranks[i]? = some r
  /-- Only positions that nothing waiting dominates are taken, unless the front is forced. -/
  unbeaten : ∀ i r : Nat, f.ranks[i]? = some r → ¬ f.IsForced beats r → ∀ j, f.Waits r j →
    beats j i = false
  /-- All of them are taken. -/
  taken : ∀ i r, f.Waits r i → (∀ j, f.Waits r j → beats j i = false) → f.ranks[i]? = some r
  /-- A forced front takes whatever waits. -/
  forced : ∀ i r, f.IsForced beats r → f.Waits r i → f.ranks[i]? = some r

namespace Layered

variable {beats : Nat → Nat → Bool} {f : Fronts} (h : f.Layered beats) {i j r s : Nat}
include h

/-- No position has a rank beyond that of a forced front. -/
theorem le_of_isForced (forced : f.IsForced beats r) (atI : f.ranks[i]? = some s) : s ≤ r := by
  by_contra beyond
  have atR := h.forced i r forced ⟨s, atI, by omega⟩
  have := Option.some.inj (atI.symm.trans atR)
  omega

theorem not_isForced_of_lt (atI : f.ranks[i]? = some s) (before : r < s) : ¬ f.IsForced beats r :=
  fun forced => Nat.not_le.2 before (h.le_of_isForced forced atI)

theorem succ_eq_count (forced : f.IsForced beats r) : r + 1 = f.count := by
  have := forced.1
  obtain ⟨i, atI⟩ := h.nonempty (f.count - 1) (by omega)
  have := h.le_of_isForced forced atI
  omega

/-- The dominators of a position outside the forced front have smaller ranks. -/
theorem exists_rank_lt (atI : f.ranks[i]? = some r) (free : ¬ f.IsForced beats r)
    (edge : beats j i = true) : ∃ s, f.ranks[j]? = some s ∧ s < r := by
  obtain ⟨⟨s, atJ⟩, -⟩ := h.ranked j i edge
  refine ⟨s, atJ, Nat.lt_of_not_le ?_⟩
  intro waits
  exact Bool.false_ne_true ((h.unbeaten i r atI free j ⟨s, atJ, waits⟩).symm.trans edge)

theorem rank_lt_of_transGen (atI : f.ranks[i]? = some r) (free : ¬ f.IsForced beats r)
    (path : TransGen (fun i j => beats i j = true) j i) :
    ∃ s, f.ranks[j]? = some s ∧ s < r := by
  induction path using TransGen.head_induction_on with
  | single edge => exact h.exists_rank_lt atI free edge
  | head edge _ ih =>
    obtain ⟨s, atS, before⟩ := ih
    obtain ⟨t, atT, earlier⟩ := h.exists_rank_lt atS (h.not_isForced_of_lt atI before) edge
    exact ⟨t, atT, Nat.lt_trans earlier before⟩

/-- A position of positive rank has a dominator of the rank before. -/
theorem exists_dominator (atI : f.ranks[i]? = some (r + 1))
    (free : ¬ f.IsForced beats (r + 1)) : ∃ j, beats j i = true ∧ f.ranks[j]? = some r := by
  -- it waited for the front before, so it was not free then
  have beaten : ¬ ∀ j, f.Waits r j → beats j i = false := fun unbeaten => by
    have := h.taken i r ⟨r + 1, atI, Nat.le_succ r⟩ unbeaten
    simp [atI] at this
  simp only [not_forall, Bool.not_eq_false] at beaten
  obtain ⟨j, ⟨s, atJ, waits⟩, edge⟩ := beaten
  obtain ⟨t, atT, before⟩ := h.exists_rank_lt atI free edge
  obtain rfl : s = t := Option.some.inj (atJ.symm.trans atT)
  obtain rfl : s = r := by omega
  exact ⟨j, edge, atJ⟩

/-! ### Longest chains -/

theorem chain_le (free : ¬ f.IsForced beats r) (atI : f.ranks[i]? = some r) {k : Nat}
    (chain : Chain (fun i j => beats i j = true) k i) : k ≤ r := by
  induction chain generalizing r with
  | single => exact Nat.zero_le r
  | step _ edge ih =>
    obtain ⟨s, atS, before⟩ := h.exists_rank_lt atI free edge
    have := ih (h.not_isForced_of_lt atI before) atS
    omega

theorem chain_rank (free : ¬ f.IsForced beats r) (atI : f.ranks[i]? = some r) :
    Chain (fun i j => beats i j = true) r i := by
  induction r generalizing i with
  | zero => exact .single i
  | succ r ih =>
    obtain ⟨j, edge, atJ⟩ := h.exists_dominator atI free
    exact .step (ih (h.not_isForced_of_lt atI (Nat.lt_succ_self r)) atJ) edge

/-- Outside the forced front the rank is the length of the longest chain. -/
theorem isGreatest_chain (free : ¬ f.IsForced beats r) (atI : f.ranks[i]? = some r) :
    IsGreatest {k | Chain (fun i j => beats i j = true) k i} r :=
  ⟨h.chain_rank free atI, fun _ chain => h.chain_le free atI chain⟩

/-! ### Cycles -/

omit h in
theorem cycleUpstream_of_isForced (forced : f.IsForced beats r) (waits : f.Waits r i) :
    CycleUpstream (fun i j => beats i j = true) i := by
  refine cycleUpstream_of_forall_exists (s := {i | f.Waits r i}) ?_ forced.2 waits
  refine (Set.finite_lt_nat f.ranks.length).subset ?_
  intro k
  rintro ⟨s, atK, -⟩
  exact (List.getElem?_eq_some_iff.1 atK).1

/-- Positions on or below a cycle have the rank of a forced front. -/
theorem isForced_of_cycleUpstream (upstream : CycleUpstream (fun i j => beats i j = true) i)
    (atI : f.ranks[i]? = some r) : f.IsForced beats r := by
  by_contra free
  obtain ⟨c, cycle, path⟩ := upstream
  -- ranks fall along dominators, so `c` would have a smaller rank than itself
  obtain rfl | path := reflTransGen_iff_eq_or_transGen.1 path
  · obtain ⟨s, atC, before⟩ := h.rank_lt_of_transGen atI free cycle
    exact Nat.lt_irrefl s (Option.some.inj (atI.symm.trans atC) ▸ before)
  · obtain ⟨s, atC, before⟩ := h.rank_lt_of_transGen atI free path
    obtain ⟨t, atT, earlier⟩ :=
      h.rank_lt_of_transGen atC (h.not_isForced_of_lt atI before) cycle
    exact Nat.lt_irrefl s (Option.some.inj (atC.symm.trans atT) ▸ earlier)

theorem mem_forced_iff (forced : f.IsForced beats r) :
    f.ranks[i]? = some r ↔ CycleUpstream (fun i j => beats i j = true) i := by
  constructor
  · exact fun atI => cycleUpstream_of_isForced forced ⟨r, atI, Nat.le_refl r⟩
  · intro upstream
    -- a position on or below a cycle has a dominator, and so it is in the graph
    obtain ⟨s, atI⟩ : ∃ s, f.ranks[i]? = some s := by
      obtain ⟨c, cycle, path⟩ := upstream
      obtain ⟨j, -, edge⟩ := TransGen.tail'_iff.1 (TransGen.trans_left cycle path)
      exact (h.ranked j i edge).2
    have last := h.succ_eq_count (h.isForced_of_cycleUpstream upstream atI)
    have := h.succ_eq_count forced
    obtain rfl : s = r := by omega
    exact atI

theorem exists_isForced_iff :
    (∃ r, f.IsForced beats r) ↔ ∃ c, TransGen (fun i j => beats i j = true) c c := by
  constructor
  · rintro ⟨r, forced⟩
    obtain ⟨i, atI⟩ := h.nonempty r forced.1
    obtain ⟨c, cycle, -⟩ := cycleUpstream_of_isForced forced ⟨r, atI, Nat.le_refl r⟩
    exact ⟨c, cycle⟩
  · rintro ⟨c, cycle⟩
    obtain ⟨j, -, edge⟩ := TransGen.tail'_iff.1 cycle
    obtain ⟨-, r, atC⟩ := h.ranked j c edge
    exact ⟨r, h.isForced_of_cycleUpstream ⟨c, cycle, .refl⟩ atC⟩

end Layered

/-! ### Rounds of peeling by definition -/

namespace IsPeelingOf

variable {beats : Nat → Nat → Bool} {n : Nat} {f : Fronts} (h : f.IsPeelingOf beats n)
  {i r : Nat}
include h

theorem waits_iff : f.Waits r i ↔ i ∈ (leftOver beats)^[r] (List.range n) := by
  rw [mem_iterate_leftOver, ← h.fronts_eq, List.mem_range]
  constructor
  · rintro ⟨s, atI, later⟩
    refine ⟨h.length_ranks ▸ (List.getElem?_eq_some_iff.1 atI).1, fun t before member => ?_⟩
    have := Option.some.inj (((h.rank_iff i t).2 member).symm.trans atI)
    omega
  · rintro ⟨node, notTaken⟩
    obtain ⟨s, atI⟩ := h.exists_rank node
    exact ⟨s, atI, Nat.le_of_not_lt fun before => notTaken s before ((h.rank_iff i s).1 atI)⟩

theorem mem_undominated_iff :
    i ∈ undominated beats ((leftOver beats)^[r] (List.range n)) ↔
      f.Waits r i ∧ ∀ j, f.Waits r j → beats j i = false := by
  simp only [mem_undominated, h.waits_iff]

theorem isForced_iff (within : r < f.count) :
    f.IsForced beats r ↔ undominated beats ((leftOver beats)^[r] (List.range n)) = [] := by
  simp only [List.eq_nil_iff_forall_not_mem, h.mem_undominated_iff, IsForced, within, true_and,
    not_and, not_forall, Bool.not_eq_false, exists_prop]

theorem rank_iff_mem_nextFront :
    f.ranks[i]? = some r ↔ i ∈ nextFront beats ((leftOver beats)^[r] (List.range n)) := by
  rw [h.rank_iff, front, h.fronts_eq, getD_naiveFronts]

theorem exists_mem_front (within : r < f.count) : ∃ i : Nat, f.ranks[i]? = some r := by
  have member : f.fronts[r] ∈ naiveFronts beats (List.range n) :=
    h.fronts_eq ▸ List.getElem_mem within
  obtain ⟨i, inFront⟩ := List.exists_mem_of_ne_nil _ (ne_nil_of_mem_naiveFronts _ _ member)
  refine ⟨i, (h.rank_iff i r).2 ?_⟩
  rwa [front_eq_getElem within]

theorem layered (inRange : ∀ i j, beats i j = true → i < n ∧ j < n) : f.Layered beats where
  ranked i j edge := ⟨h.exists_rank (inRange i j edge).1, h.exists_rank (inRange i j edge).2⟩
  nonempty r := h.exists_mem_front
  unbeaten i r atI free := by
    rw [h.isForced_iff (h.lt_count atI)] at free
    rw [h.rank_iff_mem_nextFront, nextFront_eq_undominated free, h.mem_undominated_iff] at atI
    exact atI.2
  taken i r waiting unbeaten := by
    have free := h.mem_undominated_iff.2 ⟨waiting, unbeaten⟩
    rw [h.rank_iff_mem_nextFront, nextFront_eq_undominated (List.ne_nil_of_mem free)]
    exact free
  forced i r forced waiting := by
    have none := (h.isForced_iff forced.1).1 forced
    rwa [h.rank_iff_mem_nextFront, nextFront_eq_self none, ← h.waits_iff]

end IsPeelingOf

end Fronts

/-! ### Pools -/

variable {compare : Comparator} {pool : List Solution} {w : Widths}

/-- An index with no cycle among its dominators has as rank the length of the longest chain that
ends there: its dominators have smaller ranks, and if there are any, one has the rank before. A
front is forced exactly when there is a cycle; it is the last one, and holds what lies on or below
a cycle. -/
theorem sortIntoFronts_longestChains (accepted : commonWidths pool = .ok w)
    (antisymmetric : compare.AntisymmetricOn pool) :
    let beats := dominatesAt compare pool
    let dominates := fun i j => beats i j = true
    ∃ f, sortIntoFronts compare pool = .ok f ∧
      (∀ i < pool.length, ¬ CycleUpstream dominates i →
        ∃ r, f.ranks[i]? = some r ∧ IsGreatest {k | Chain dominates k i} r ∧
          (r = 0 ↔ ∀ j, ¬ dominates j i) ∧
          (0 < r → ∃ j, dominates j i ∧ f.ranks[j]? = some (r - 1)) ∧
          ∀ j, dominates j i → ∃ s, f.ranks[j]? = some s ∧ s < r) ∧
      ((∃ r, f.IsForced beats r) ↔ ∃ c, TransGen dominates c c) ∧
      ∀ r, f.IsForced beats r →
        r + 1 = f.count ∧ ∀ i, i ∈ f.front r ↔ CycleUpstream dominates i := by
  intro beats dominates
  obtain ⟨f, isOk, peeling⟩ := sortIntoFronts_eq_ok accepted antisymmetric
  have h : f.Layered beats := peeling.layered fun _ _ => lt_of_dominatesAt
  refine ⟨f, isOk, ?_, h.exists_isForced_iff, ?_⟩
  · intro i node acyclic
    obtain ⟨r, atI⟩ := peeling.exists_rank node
    have free : ¬ f.IsForced beats r := fun forced =>
      acyclic (Fronts.Layered.cycleUpstream_of_isForced forced ⟨r, atI, Nat.le_refl r⟩)
    have smaller (j : Nat) (edge : dominates j i) := h.exists_rank_lt atI free edge
    have dominator (positive : 0 < r) : ∃ j, dominates j i ∧ f.ranks[j]? = some (r - 1) := by
      obtain ⟨s, rfl⟩ := Nat.exists_eq_succ_of_ne_zero (Nat.ne_of_gt positive)
      exact h.exists_dominator atI free
    refine ⟨r, atI, h.isGreatest_chain free atI, ⟨?_, ?_⟩, dominator, smaller⟩
    · rintro rfl j edge
      obtain ⟨s, -, below⟩ := smaller j edge
      exact Nat.not_lt_zero s below
    · intro undominated
      by_contra positive
      obtain ⟨j, edge, -⟩ := dominator (Nat.pos_of_ne_zero positive)
      exact undominated j edge
  · intro r forced
    refine ⟨h.succ_eq_count forced, ?_⟩
    intro i
    rw [← peeling.rank_iff, h.mem_forced_iff forced]

/-- The pair is a chain of one step, and the cycle is forced into the front after it. -/
theorem sortIntoFronts_longestChains_players :
    ∃ f, sortIntoFronts (fun a b => .ok (playGame a b)) players = .ok f ∧
      f.fronts = [[3, 4], [5], [0, 1, 2]] ∧
      f.IsForced (dominatesAt (fun a b => .ok (playGame a b)) players) 2 := by
  obtain ⟨f, isOk, -, exists_isForced_iff, isLast⟩ := @sortIntoFronts_longestChains
    (fun a b => .ok (playGame a b)) players ⟨1, 0⟩ rfl (.of_relation (by decide))
  have value : f = ⟨[2, 2, 2, 0, 0, 1], [[3, 4], [5], [0, 1, 2]]⟩ :=
    Except.ok.inj (isOk.symm.trans rfl)
  obtain ⟨r, forced⟩ := exists_isForced_iff.2
    ⟨0, .tail (.tail (.single (b := 1) (by decide)) (c := 2) (by decide)) (by decide)⟩
  have last := (isLast r forced).1
  subst value
  obtain rfl : r = 2 := Nat.succ.inj last
  exact ⟨_, isOk, rfl, forced⟩

end ParetoFront
