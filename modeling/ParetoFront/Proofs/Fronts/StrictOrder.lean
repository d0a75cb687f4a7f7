import ParetoFront.Proofs.Dominance.StrictOrder
import ParetoFront.Proofs.Fronts.Chains

/-!
# Sorting by a strict order

When domination is transitive on a pool, no front is forced. The first front then holds exactly what
nothing in the pool dominates, and whatever dominates a position has a smaller rank.

## Main definitions

- `Comparator.TransitiveOn` — domination is transitive on a pool

## Main statements

- `Criterion.antisymmetricOn`, `Criterion.transitiveOn` — the criteria on pools of equal widths
- `Fronts.IsPeelingOf.front_zero` — the first front
- `Fronts.IsPeelingOf.exists_rank_lt` — dominators have smaller ranks
-/

namespace ParetoFront

open Relation

/-- On the solutions of the pool domination is transitive. -/
def Comparator.TransitiveOn (compare : Comparator) (pool : List Solution) : Prop :=
  ∀ a ∈ pool, ∀ b ∈ pool, ∀ c ∈ pool,
    compare a b = .ok .left → compare b c = .ok .left → compare a c = .ok .left

variable {compare : Comparator} {pool : List Solution} {w : Widths}

theorem Comparator.TransitiveOn.perm {pool' : List Solution} (perm : pool'.Perm pool)
    (h : compare.TransitiveOn pool) : compare.TransitiveOn pool' :=
  fun a ha b hb c hc => h a (perm.subset ha) b (perm.subset hb) c (perm.subset hc)

/-! ### Criteria -/

theorem Criterion.antisymmetricOn (r : Criterion) (accepted : commonWidths pool = .ok w) :
    r.compare.AntisymmetricOn pool := by
  intro a left b right
  have lengths := objectives_length_eq accepted left right
  exact ⟨r.relate a b, r.compare_eq_ok lengths,
    by rw [r.compare_eq_ok lengths.symm, r.relate_swap a b]⟩

theorem Criterion.transitiveOn (r : Criterion) (accepted : commonWidths pool = .ok w)
    (numeric : ∀ s ∈ pool, r.Numeric s) : r.compare.TransitiveOn pool := by
  intro a ha b hb c hc
  have hab := objectives_length_eq accepted ha hb
  have hbc := objectives_length_eq accepted hb hc
  rw [r.compare_eq_ok hab, r.compare_eq_ok hbc, r.compare_eq_ok (hab.trans hbc)]
  simp only [Except.ok.injEq]
  exact r.relate_trans (numeric a ha) (numeric b hb) (numeric c hc) hab hbc

/-! ### Domination between positions -/

theorem Comparator.answer_eq_left_iff {a b : Solution} :
    compare.answer a b = .left ↔ compare a b = .ok .left := by
  rw [answer]
  cases compare a b <;> simp

theorem Comparator.AntisymmetricOn.not_left_of_left (antisymmetric : compare.AntisymmetricOn pool)
    {a b : Solution} (ha : a ∈ pool) (hb : b ∈ pool) (wins : compare a b = .ok .left) :
    compare b a ≠ .ok .left := by
  obtain ⟨d, forward, backward⟩ := antisymmetric a ha b hb
  obtain rfl : d = .left := Except.ok.inj (forward.symm.trans wins)
  rw [backward]
  exact fun h => nomatch h

/-- No solution dominates itself, so the positions need not be told apart. -/
theorem Comparator.AntisymmetricOn.dominatesAt_iff (antisymmetric : compare.AntisymmetricOn pool)
    {i j : Nat} : dominatesAt compare pool i j = true ↔
      ∃ a b, pool[i]? = some a ∧ pool[j]? = some b ∧ compare a b = .ok .left := by
  simp only [ParetoFront.dominatesAt_iff, answer_eq_left_iff, and_iff_right_iff_imp]
  rintro ⟨a, b, atI, atJ, wins⟩ rfl
  obtain rfl : a = b := Option.some.inj (atI.symm.trans atJ)
  have member := List.mem_of_getElem? atI
  exact antisymmetric.not_left_of_left member member wins wins

theorem Criterion.dominatesAt_iff {r : Criterion} (accepted : commonWidths pool = .ok w)
    {i j : Nat} :
    dominatesAt r.compare pool i j = true ↔
      ∃ s t, pool[i]? = some s ∧ pool[j]? = some t ∧ r.relate s t = .left := by
  rw [(r.antisymmetricOn accepted).dominatesAt_iff]
  refine exists₂_congr fun s t => and_congr_right fun atI => and_congr_right fun atJ => ?_
  rw [r.compare_eq_ok (objectives_length_eq accepted (List.mem_of_getElem? atI)
    (List.mem_of_getElem? atJ)), Except.ok.injEq]

theorem dominatesAt_trans (antisymmetric : compare.AntisymmetricOn pool)
    (transitive : compare.TransitiveOn pool) {i j k : Nat}
    (h₁ : dominatesAt compare pool i j = true) (h₂ : dominatesAt compare pool j k = true) :
    dominatesAt compare pool i k = true := by
  obtain ⟨a, b, atI, atJ, first⟩ := antisymmetric.dominatesAt_iff.1 h₁
  obtain ⟨b', c, atJ', atK, second⟩ := antisymmetric.dominatesAt_iff.1 h₂
  obtain rfl : b = b' := Option.some.inj (atJ.symm.trans atJ')
  exact antisymmetric.dominatesAt_iff.2 ⟨a, c, atI, atK,
    transitive a (List.mem_of_getElem? atI) b (List.mem_of_getElem? atJ) c
      (List.mem_of_getElem? atK) first second⟩

theorem not_cycle_dominatesAt (antisymmetric : compare.AntisymmetricOn pool)
    (transitive : compare.TransitiveOn pool) (i : Nat) :
    ¬ TransGen (fun i j => dominatesAt compare pool i j = true) i i := by
  have step {i j : Nat} (path : TransGen (fun i j => dominatesAt compare pool i j = true) i j) :
      dominatesAt compare pool i j = true := by
    induction path with
    | single edge => exact edge
    | tail _ edge ih => exact dominatesAt_trans antisymmetric transitive ih edge
  intro cycle
  simpa using step cycle

/-! ### Fronts -/

namespace Fronts.IsPeelingOf

variable {f : Fronts} (h : f.IsPeelingOf (dominatesAt compare pool) pool.length)
  (antisymmetric : compare.AntisymmetricOn pool) (transitive : compare.TransitiveOn pool)
include h antisymmetric transitive

theorem not_isForced (r : Nat) : ¬ f.IsForced (dominatesAt compare pool) r := by
  intro forced
  obtain ⟨i, cycle⟩ := (h.layered fun _ _ => lt_of_dominatesAt).exists_isForced_iff.1 ⟨r, forced⟩
  exact not_cycle_dominatesAt antisymmetric transitive i cycle

/-- Whatever dominates a position has a smaller rank. -/
theorem exists_rank_lt {a b : Solution} {i j r : Nat} (atI : f.ranks[i]? = some r)
    (left : pool[j]? = some b) (right : pool[i]? = some a) (wins : compare b a = .ok .left) :
    ∃ s, f.ranks[j]? = some s ∧ s < r := by
  have edge : dominatesAt compare pool j i = true :=
    antisymmetric.dominatesAt_iff.2 ⟨b, a, left, right, wins⟩
  exact (h.layered fun _ _ => lt_of_dominatesAt).exists_rank_lt atI
    (h.not_isForced antisymmetric transitive r) edge

theorem front_zero :
    f.front 0 = undominated (dominatesAt compare pool) (List.range pool.length) := by
  rw [front, h.fronts_eq, getD_naiveFronts]
  by_cases free : undominated (dominatesAt compare pool) (List.range pool.length) = []
  · -- only the empty pool has nothing undominated, since no front is forced
    have empty : f.count = 0 := by
      by_contra some
      exact h.not_isForced antisymmetric transitive 0
        ((h.isForced_iff (Nat.pos_of_ne_zero some)).2 free)
    rw [count, List.length_eq_zero_iff, h.fronts_eq] at empty
    have nothing := @getD_naiveFronts (dominatesAt compare pool) (List.range pool.length) 0
    rw [empty] at nothing
    rw [free, ← nothing]
    rfl
  · exact nextFront_eq_undominated free

end Fronts.IsPeelingOf

end ParetoFront
