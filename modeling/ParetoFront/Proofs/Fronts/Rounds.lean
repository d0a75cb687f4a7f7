import Mathlib.Data.List.Sort
import ParetoFront.Proofs.Fronts.Graph
import ParetoFront.Proofs.Fronts.NaivePeeling

/-!
# What a round of peeling preserves

Between two rounds the count of a node is the number of edges into it from nodes without a rank,
the freed nodes are, in some order, the unranked nodes that no unranked node beats, and the fronts
taken hold as many nodes as have a rank. A round that starts there takes the front that peeling by
definition takes, takes no count below zero, and ends there again.

## Main definitions

- `Peeling.Invariant` — the state between two rounds

## Main statements

- `Peeling.invariant_start` — it holds before the first round
- `Peeling.takeFront_eq_ok` — one round
- `Peeling.run_eq_ok` — all rounds
-/

namespace ParetoFront

theorem stableSort_eq_of_perm {xs ys : List Nat} (perm : xs.Perm ys)
    (sorted : ys.Pairwise (· < ·)) : stableSort (fun i j => decide (i ≤ j)) xs = ys := by
  have ascending := @pairwise_stableSort Nat (fun i j => decide (i ≤ j))
    (by simpa using fun _ _ _ => Nat.le_trans) (by simpa using Nat.le_total) xs
  simp only [decide_eq_true_eq] at ascending
  exact ((stableSort_perm _ xs).trans perm).eq_of_pairwise
    (fun _ _ _ _ => Nat.le_antisymm) ascending (sorted.imp Nat.le_of_lt)

namespace Peeling

/-! ### Ranks given in a round -/

theorem length_foldl_set (front : List Nat) (rank : Option Nat) (ranks : List (Option Nat)) :
    (front.foldl (fun ranks i => ranks.set i rank) ranks).length = ranks.length := by
  induction front generalizing ranks with
  | nil => rfl
  | cons i front ih => rw [List.foldl_cons, ih, List.length_set]

theorem getElem?_foldl_set (front : List Nat) (rank : Option Nat) (ranks : List (Option Nat))
    (j : Nat) :
    (front.foldl (fun ranks i => ranks.set i rank) ranks)[j]? =
      if j ∈ front then ranks[j]?.map fun _ => rank else ranks[j]? := by
  induction front generalizing ranks with
  | nil => simp
  | cons i front ih =>
    rw [List.foldl_cons, ih, List.getElem?_set']
    by_cases same : j = i
    · subst same
      cases ranks[j]? <;> simp
    · simp [same, Ne.symm same]

theorem mem_remaining {p : Peeling} {i : Nat} : i ∈ p.remaining ↔ p.ranks[i]? = some none := by
  rw [remaining, List.mem_filter, List.mem_range, beq_iff_eq, and_iff_right_iff_imp]
  exact fun h => (List.getElem?_eq_some_iff.1 h).1

theorem pairwise_remaining (p : Peeling) : p.remaining.Pairwise (· < ·) :=
  List.pairwise_lt_range.sublist List.filter_sublist

/-! ### Counts taken in a round -/

theorem release_eq_ok (ranks : List (Option Nat)) {counts : List Nat} (freed : List Nat) {j : Nat}
    (positive : 0 < counts.getD j 0) :
    release ranks (counts, freed) j = .ok (counts.set j (counts.getD j 0 - 1),
      if counts.getD j 0 = 1 ∧ ranks[j]? = some none then freed ++ [j] else freed) := by
  rw [List.getD_eq_getElem?_getD] at positive ⊢
  simp only [release]
  cases atJ : counts[j]? with
  | none => simp [atJ] at positive
  | some count =>
    simp only [atJ, Option.getD_some] at positive ⊢
    rw [takeFrom, if_pos (Nat.succ_le_of_lt positive)]
    have last : count - 1 = 0 ↔ count = 1 := by omega
    simp [bind, Except.bind, pure, Except.pure, last]

theorem getD_set_pred {counts : List Nat} {i : Nat} (positive : 0 < counts.getD i 0) (j : Nat) :
    (counts.set i (counts.getD i 0 - 1)).getD j 0 = counts.getD j 0 - if i = j then 1 else 0 := by
  have inRange : i < counts.length := by
    by_contra outside
    rw [List.getD_eq_getElem?_getD, List.getElem?_eq_none (Nat.le_of_not_lt outside)] at positive
    exact Nat.lt_irrefl 0 positive
  simp only [List.getD_eq_getElem?_getD, List.getElem?_set]
  by_cases same : i = j
  · subst same
    simp [inRange]
  · simp [same]

theorem count_append_ite (freed : List Nat) (i j : Nat) (p : Prop) [Decidable p] :
    (if p then freed ++ [i] else freed).count j =
      freed.count j + if i = j ∧ p then 1 else 0 := by
  by_cases h : p
  · simp [h, List.count_append, List.count_singleton]
  · simp [h]

/-- Taking dominators off counts that hold enough of them. A node is freed exactly when its count
reaches zero and it has no rank. -/
theorem foldlM_release (ranks : List (Option Nat)) (targets counts freed : List Nat)
    (covered : ∀ j, targets.count j ≤ counts.getD j 0) :
    ∃ counts' freed', targets.foldlM (release ranks) (counts, freed) = .ok (counts', freed') ∧
      (∀ j, counts'.getD j 0 = counts.getD j 0 - targets.count j) ∧
      ∀ j, freed'.count j = freed.count j +
        if ranks[j]? = some none ∧ 0 < targets.count j ∧ targets.count j = counts.getD j 0
        then 1 else 0 := by
  induction targets generalizing counts freed with
  | nil => exact ⟨counts, freed, rfl, by simp, by simp⟩
  | cons i targets ih =>
    have positive : 0 < counts.getD i 0 := by
      have := covered i
      rw [List.count_cons_self] at this
      omega
    have stillCovered (j : Nat) :
        targets.count j ≤ (counts.set i (counts.getD i 0 - 1)).getD j 0 := by
      have := covered j
      rw [getD_set_pred positive]
      rw [List.count_cons] at this
      simp only [beq_iff_eq] at this
      omega
    obtain ⟨counts', freed', isOk, countsEq, freedEq⟩ := ih _
      (if counts.getD i 0 = 1 ∧ ranks[i]? = some none then freed ++ [i] else freed) stillCovered
    refine ⟨counts', freed', ?_, ?_, ?_⟩
    · rw [List.foldlM_cons, release_eq_ok ranks freed positive]
      exact isOk
    · intro j
      rw [countsEq, getD_set_pred positive, List.count_cons]
      simp only [beq_iff_eq]
      omega
    · intro j
      have := covered j
      -- only the first target can change between the two counts
      rw [freedEq, count_append_ite, getD_set_pred positive]
      rw [List.count_cons] at this ⊢
      by_cases same : i = j
      · subst same
        by_cases unranked : ranks[i]? = some none
        · simp only [unranked, beq_self_eq_true, if_true, true_and, and_true] at this ⊢
          split_ifs <;> omega
        · simp [unranked]
      · simp [same]

theorem nodup_and_mem_iff_of_count {xs : List Nat} {p : Nat → Prop} [DecidablePred p]
    (counted : ∀ j, xs.count j = if p j then 1 else 0) : xs.Nodup ∧ ∀ j, j ∈ xs ↔ p j := by
  constructor
  · rw [List.nodup_iff_count_le_one]
    intro j
    rw [counted]
    split <;> decide
  · intro j
    rw [← List.count_pos_iff, counted]
    by_cases h : p j <;> simp [h]

/-! ### One round -/

/-- The state between two rounds. -/
structure Invariant (g : DominationGraph) (p : Peeling) (freed : List Nat) : Prop where
  ranks_length : p.ranks.length = g.size
  counts_eq : ∀ j, p.counts.getD j 0 = g.dominatorsAmong p.remaining j
  rank_iff : ∀ i r, p.ranks[i]? = some (some r) ↔ i ∈ p.fronts.getD r []
  freed_perm : freed.Perm (undominated g.beats p.remaining)
  /-- The fronts taken hold the nodes that have a rank. -/
  assigned_add : p.assigned + p.remaining.length = p.ranks.length

variable {g : DominationGraph} {p : Peeling} {freed : List Nat}

theorem remaining_start (g : DominationGraph) : (start g).remaining = List.range g.size := by
  rw [remaining, start, List.length_replicate, List.filter_eq_self]
  intro i member
  simp [List.mem_range.1 member]

theorem invariant_start (inRange : g.InRange) :
    (start g).Invariant g ((List.range g.size).filter fun i => g.dominatorCount i == 0) where
  ranks_length := List.length_replicate
  counts_eq j := by
    rw [remaining_start, List.getD_eq_getElem?_getD, start, List.getElem?_map]
    by_cases node : j < g.size
    · rw [List.getElem?_range node, Option.map_some, Option.getD_some, g.dominatorCount_eq inRange]
    · rw [List.getElem?_eq_none (by simpa using node),
        DominationGraph.dominatorsAmong_eq_zero_of_le inRange _ (Nat.le_of_not_lt node)]
      rfl
  rank_iff i r := by
    simp [start, List.getElem?_replicate]
  freed_perm := by
    rw [remaining_start]
    refine .of_eq (List.filter_congr ?_)
    intro j _
    rw [Bool.eq_iff_iff, beq_iff_eq, g.dominatorCount_eq inRange,
      DominationGraph.dominatorsAmong_eq_zero_iff]
    simp
  assigned_add := by
    rw [remaining_start, List.length_range, start, Nat.zero_add, List.length_replicate]

theorem mem_getD_concat {fronts : List (List Nat)} {front : List Nat} {i r : Nat} :
    i ∈ (fronts ++ [front]).getD r [] ↔
      i ∈ fronts.getD r [] ∨ r = fronts.length ∧ i ∈ front := by
  simp only [List.getD_eq_getElem?_getD]
  obtain before | rfl | after := Nat.lt_trichotomy r fronts.length
  · rw [List.getElem?_append_left before]
    simp [Nat.ne_of_lt before]
  · simp
  · rw [List.getElem?_eq_none (by simp; omega), List.getElem?_eq_none (Nat.le_of_lt after)]
    simp [Nat.ne_of_gt after]

/-- The count of assigned nodes says whether a node is left. -/
theorem Invariant.isDone_iff (inv : p.Invariant g freed) :
    p.isDone = true ↔ p.remaining = [] := by
  rw [isDone, decide_eq_true_iff, ← inv.assigned_add, ← List.length_eq_zero_iff]
  omega

/-- The rounds run out of freed nodes exactly when every unranked node is beaten by another one. -/
theorem Invariant.isEmpty_iff (inv : p.Invariant g freed) :
    freed.isEmpty = true ↔ undominated g.beats p.remaining = [] := by
  rw [List.isEmpty_iff]
  constructor
  · rintro rfl
    exact List.nil_perm.1 inv.freed_perm
  · intro stalled
    exact List.perm_nil.1 (stalled ▸ inv.freed_perm)

/-- The nodes given to a round, once sorted, are the front that peeling by definition takes. -/
theorem Invariant.sorted_front (inv : p.Invariant g freed) :
    stableSort (fun i j => decide (i ≤ j)) (if freed.isEmpty then p.remaining else freed) =
      nextFront g.beats p.remaining := by
  refine stableSort_eq_of_perm ?_ (p.pairwise_remaining.sublist (nextFront_sublist _))
  by_cases stalled : freed.isEmpty = true
  · rw [if_pos stalled, nextFront_eq_self (inv.isEmpty_iff.1 stalled)]
  · rw [if_neg stalled, nextFront_eq_undominated fun h => stalled (inv.isEmpty_iff.2 h)]
    exact inv.freed_perm

theorem nodup_nextFront (g : DominationGraph) (p : Peeling) :
    (nextFront g.beats p.remaining).Nodup :=
  (p.pairwise_remaining.imp Nat.ne_of_lt).sublist (nextFront_sublist _)

/-- Each dominator of a node is in the front or left over. -/
theorem dominatorsAmong_nextFront_add (g : DominationGraph) (p : Peeling) (j : Nat) :
    g.dominatorsAmong (nextFront g.beats p.remaining) j +
      g.dominatorsAmong (leftOver g.beats p.remaining) j = g.dominatorsAmong p.remaining j := by
  have disjoint : ∀ i ∈ nextFront g.beats p.remaining, i ∉ leftOver g.beats p.remaining :=
    fun i taken left => (mem_leftOver.1 left).2 taken
  refine DominationGraph.dominatorsAmong_add_dominatorsAmong ?_ disjoint j
  intro i
  have : i ∈ nextFront g.beats p.remaining → i ∈ p.remaining :=
    fun member => (nextFront_sublist _).subset member
  rw [mem_leftOver]
  tauto

/-- Once the members of the front have a rank, the others are the unranked nodes. -/
theorem remaining_ranked {front : List Nat} {r : Nat} {q : Peeling}
    (ranks : q.ranks = front.foldl (fun ranks i => ranks.set i (some r)) p.ranks) :
    q.remaining = p.remaining.filter fun i => decide (i ∉ front) := by
  rw [remaining, remaining, List.filter_filter, ranks, length_foldl_set]
  refine List.filter_congr ?_
  intro i _
  rw [getElem?_foldl_set]
  by_cases member : i ∈ front
  · cases p.ranks[i]? <;> simp [member]
  · simp [member]

theorem Invariant.rank_iff_concat (inv : p.Invariant g freed) {front : List Nat}
    (part : ∀ i ∈ front, i ∈ p.remaining) (i r : Nat) :
    (front.foldl (fun ranks i => ranks.set i (some p.fronts.length)) p.ranks)[i]? =
        some (some r) ↔ i ∈ (p.fronts ++ [front]).getD r [] := by
  rw [getElem?_foldl_set, mem_getD_concat, ← inv.rank_iff]
  by_cases member : i ∈ front
  · simp [member, mem_remaining.1 (part i member), eq_comm]
  · simp [member]

/-- A node joins the freed nodes when its last unranked dominator gets a rank. -/
theorem mem_undominated_leftOver_iff {j : Nat} :
    j ∈ undominated g.beats (leftOver g.beats p.remaining) ↔
      j ∈ leftOver g.beats p.remaining ∧
        0 < g.dominatorsAmong (nextFront g.beats p.remaining) j ∧
        g.dominatorsAmong (nextFront g.beats p.remaining) j =
          g.dominatorsAmong p.remaining j := by
  have total := dominatorsAmong_nextFront_add g p j
  rw [mem_undominated, ← DominationGraph.dominatorsAmong_eq_zero_iff]
  constructor
  · rintro ⟨left, unbeaten⟩
    refine ⟨left, Nat.pos_of_ne_zero ?_, by omega⟩
    intro untouched
    -- a node that nothing unranked beats would be in the front
    obtain ⟨unranked, notTaken⟩ := mem_leftOver.1 left
    have free : j ∈ undominated g.beats p.remaining := by
      rw [mem_undominated, ← DominationGraph.dominatorsAmong_eq_zero_iff]
      exact ⟨unranked, by omega⟩
    rw [nextFront_eq_undominated (List.ne_nil_of_mem free)] at notTaken
    exact notTaken free
  · rintro ⟨left, -, last⟩
    exact ⟨left, by omega⟩

/-- A round takes the next front, and no count falls below zero. -/
theorem takeFront_eq_ok (inv : p.Invariant g freed) :
    ∃ q freed', p.takeFront g (if freed.isEmpty then p.remaining else freed) = .ok (q, freed') ∧
      q.Invariant g freed' ∧ q.fronts = p.fronts ++ [nextFront g.beats p.remaining] ∧
      q.remaining = leftOver g.beats p.remaining := by
  have total := dominatorsAmong_nextFront_add g p
  rw [takeFront, inv.sorted_front]
  -- the ranks are given before any count is taken down
  generalize ranksEq : (nextFront g.beats p.remaining).foldl
    (fun ranks i => ranks.set i (some p.fronts.length)) p.ranks = ranks
  obtain ⟨counts, freed', isOk, countsEq, freedEq⟩ := foldlM_release ranks
    ((nextFront g.beats p.remaining).flatMap g.losers) p.counts [] fun j => by
      rw [DominationGraph.count_flatMap_losers (nodup_nextFront g p), inv.counts_eq, ← total]
      exact Nat.le_add_right _ _
  simp only [DominationGraph.count_flatMap_losers (nodup_nextFront g p), inv.counts_eq]
    at countsEq freedEq
  let q : Peeling := ⟨ranks, counts, p.fronts ++ [nextFront g.beats p.remaining],
    p.assigned + (nextFront g.beats p.remaining).length⟩
  have left : q.remaining = leftOver g.beats p.remaining := remaining_ranked ranksEq.symm
  have length : ranks.length = p.ranks.length := by
    rw [← ranksEq, length_foldl_set]
  refine ⟨q, freed', by rw [isOk]; rfl, ⟨?_, ?_, ?_, ?_, ?_⟩, rfl, left⟩
  · rw [← inv.ranks_length, ← length]
  · intro j
    rw [left, countsEq, ← total]
    exact Nat.add_sub_cancel_left _ _
  · intro i r
    rw [← inv.rank_iff_concat fun i member => (nextFront_sublist _).subset member, ranksEq]
  · simp only [List.count_nil, Nat.zero_add] at freedEq
    obtain ⟨nodup, isFreed⟩ := nodup_and_mem_iff_of_count freedEq
    refine (List.perm_ext_iff_of_nodup nodup
      ((q.pairwise_remaining.imp Nat.ne_of_lt).sublist (undominated_sublist _))).2 fun j => ?_
    rw [isFreed, left, mem_undominated_leftOver_iff, ← left, mem_remaining]
  · have parts : (nextFront g.beats p.remaining).length + (leftOver g.beats p.remaining).length =
        p.remaining.length := by
      rw [← List.length_append, (nextFront_append_leftOver_perm p.remaining).length_eq]
    rw [left, length, ← inv.assigned_add, ← parts]
    exact Nat.add_assoc _ _ _

/-! ### All rounds -/

theorem Invariant.run_of_remaining_eq_nil (inv : p.Invariant g freed) (done : p.remaining = [])
    (rounds : Nat) : run g rounds p freed = .ok p := by
  cases rounds with
  | zero => rfl
  | succ rounds =>
    rw [run, if_pos (inv.isDone_iff.2 done)]
    rfl

/-- With a round for each unranked node every node gets a rank, and the fronts taken are those of
peeling by definition. -/
theorem run_eq_ok (rounds : Nat) (inv : p.Invariant g freed)
    (enough : p.remaining.length ≤ rounds) :
    ∃ q freed', run g rounds p freed = .ok q ∧ q.Invariant g freed' ∧ q.remaining = [] ∧
      q.fronts = p.fronts ++ naiveFronts g.beats p.remaining := by
  induction rounds generalizing p freed with
  | zero =>
    have done := List.eq_nil_of_length_eq_zero (Nat.le_zero.1 enough)
    exact ⟨p, freed, rfl, inv, done, by simp [done]⟩
  | succ rounds ih =>
    by_cases done : p.remaining = []
    · exact ⟨p, freed, inv.run_of_remaining_eq_nil done _, inv, done, by simp [done]⟩
    · obtain ⟨q, freed', isOk, inv', frontsEq, left⟩ := takeFront_eq_ok inv
      -- the round takes a node, so the rounds left suffice for the nodes left
      have fewer := @length_leftOver_lt g.beats _ done
      obtain ⟨q', freed'', isOk', inv'', done', frontsEq'⟩ := ih inv' (by rw [left]; omega)
      refine ⟨q', freed'', ?_, inv'', done', ?_⟩
      · rw [run, if_neg (by rwa [inv.isDone_iff]), isOk]
        exact isOk'
      · rw [frontsEq', frontsEq, left, naiveFronts_of_ne_nil done, List.append_assoc]
        rfl

end Peeling
end ParetoFront
