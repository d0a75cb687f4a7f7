import ParetoFront.Proofs.Fronts.Sorting

/-!
# Renamed nodes

Peeling by definition asks only which nodes beat which. When nodes are renamed, one for one, and the
renamed nodes beat each other as the nodes did, then the fronts are the renamed ones. When the nodes
are also reordered, each front holds the renamed members of the front that it was, in some order,
and every node has the rank of the node that it stands for.

## Main definitions

- `StandsFor` — nodes that stand for others, one for one

## Main statements

- `naiveFronts_map`, `naiveFronts_congr` — the fronts of renamed nodes
- `undominated_perm`, `nextFront_perm`, `leftOver_perm` — one round on reordered nodes
- `StandsFor.leftOver`, `StandsFor.nextFront_perm` — one round on nodes that stand for others
- `Fronts.IsPeelingOf.front_perm` — all fronts
- `Fronts.IsPeelingOf.ranks_eq` — all ranks
-/

namespace ParetoFront

/-! ### New names -/

section Names

variable {beats beats' : Nat → Nat → Bool} {σ : Nat → Nat} {rest : List Nat}
  (same : ∀ i ∈ rest, ∀ j ∈ rest, beats' i j = beats (σ i) (σ j))
include same

theorem undominated_map :
    undominated beats (rest.map σ) = (undominated beats' rest).map σ := by
  rw [undominated, List.filter_map, undominated]
  refine congrArg _ (List.filter_congr fun j member => ?_)
  rw [Function.comp_apply, List.any_map]
  refine congrArg Bool.not ?_
  rw [Bool.eq_iff_iff, List.any_eq_true, List.any_eq_true]
  refine exists_congr fun i => and_congr_right fun member' => ?_
  rw [Function.comp_apply, same i member' j member]

theorem nextFront_map : nextFront beats (rest.map σ) = (nextFront beats' rest).map σ := by
  by_cases stalled : undominated beats' rest = []
  · rw [nextFront_eq_self stalled, nextFront_eq_self]
    rw [undominated_map same, stalled, List.map_nil]
  · rw [nextFront_eq_undominated stalled, nextFront_eq_undominated, undominated_map same]
    rw [undominated_map same]
    exact fun nothing => stalled (List.map_eq_nil_iff.1 nothing)

variable (injective : ∀ i ∈ rest, ∀ j ∈ rest, σ i = σ j → i = j)
include injective

theorem leftOver_map : leftOver beats (rest.map σ) = (leftOver beats' rest).map σ := by
  rw [leftOver, List.filter_map, leftOver]
  refine congrArg _ (List.filter_congr fun i member => decide_eq_decide.2 (not_congr ?_))
  rw [nextFront_map same, List.mem_map]
  constructor
  · rintro ⟨j, inFront, named⟩
    exact injective j ((nextFront_sublist rest).subset inFront) i member named ▸ inFront
  · exact fun inFront => ⟨i, inFront, rfl⟩

/-- Renamed one for one, the nodes have the renamed fronts. -/
theorem naiveFronts_map :
    naiveFronts beats (rest.map σ) = (naiveFronts beats' rest).map (List.map σ) := by
  induction rest using naiveFronts.induct beats' with
  | case1 => simp
  | case2 rest nonempty ih =>
    have named : rest.map σ ≠ [] := fun nothing => nonempty (List.map_eq_nil_iff.1 nothing)
    have left := (@leftOver_sublist beats' rest).subset
    rw [naiveFronts_of_ne_nil nonempty, naiveFronts_of_ne_nil named, List.map_cons,
      nextFront_map same, leftOver_map same injective,
      ih (fun i hi j hj => same i (left hi) j (left hj))
        (fun i hi j hj => injective i (left hi) j (left hj))]

end Names

/-- Only who beats whom among the nodes matters. -/
theorem naiveFronts_congr {beats beats' : Nat → Nat → Bool} {rest : List Nat}
    (same : ∀ i ∈ rest, ∀ j ∈ rest, beats' i j = beats i j) :
    naiveFronts beats rest = naiveFronts beats' rest := by
  simpa using @naiveFronts_map beats beats' id rest same fun _ _ _ _ h => h

/-! ### Another order -/

section Order

variable {beats : Nat → Nat → Bool} {rest rest' : List Nat} (perm : rest'.Perm rest)
include perm

theorem undominated_perm : (undominated beats rest').Perm (undominated beats rest) := by
  have part : undominated beats rest' = rest'.filter fun j => !rest.any fun i => beats i j :=
    List.filter_congr fun j _ => by rw [perm.any_eq]
  rw [part]
  exact perm.filter _

theorem nextFront_perm : (nextFront beats rest').Perm (nextFront beats rest) := by
  have unbeaten := @undominated_perm beats _ _ perm
  by_cases stalled : undominated beats rest = []
  · rw [stalled, List.perm_nil] at unbeaten
    rwa [nextFront_eq_self stalled, nextFront_eq_self unbeaten]
  · rw [nextFront_eq_undominated stalled, nextFront_eq_undominated]
    · exact unbeaten
    · rintro nothing
      rw [nothing, List.nil_perm] at unbeaten
      exact stalled unbeaten

theorem leftOver_perm : (leftOver beats rest').Perm (leftOver beats rest) := by
  have part : leftOver beats rest' =
      rest'.filter fun i => decide (i ∉ nextFront beats rest) :=
    List.filter_congr fun i _ =>
      decide_eq_decide.2 (not_congr (nextFront_perm perm).mem_iff)
  rw [part]
  exact perm.filter _

end Order

/-! ### Both -/

/-- Each node of `rest'` stands for the node of `rest` with its new name, one for one, and beats
what that one beats. -/
structure StandsFor (σ : Nat → Nat) (beats' beats : Nat → Nat → Bool) (rest' rest : List Nat) :
    Prop where
  perm : (rest'.map σ).Perm rest
  nodup : rest.Nodup
  same : ∀ i ∈ rest', ∀ j ∈ rest', beats' i j = beats (σ i) (σ j)

namespace StandsFor

variable {σ : Nat → Nat} {beats' beats : Nat → Nat → Bool} {rest' rest : List Nat}
  (h : StandsFor σ beats' beats rest' rest)
include h

theorem injOn {i j : Nat} (left : i ∈ rest') (right : j ∈ rest') (same : σ i = σ j) : i = j :=
  List.inj_on_of_nodup_map (h.perm.nodup_iff.2 h.nodup) left right same

/-- Membership of some nodes is that of the nodes they stand for. -/
theorem mem_iff {part' part : List Nat} (inside : part' ⊆ rest') (perm : (part'.map σ).Perm part)
    {i : Nat} (member : i ∈ rest') : i ∈ part' ↔ σ i ∈ part := by
  rw [← perm.mem_iff, List.mem_map]
  constructor
  · exact fun inPart => ⟨i, inPart, rfl⟩
  · rintro ⟨j, inPart, same⟩
    exact h.injOn (inside inPart) member same ▸ inPart

theorem nextFront_perm : ((nextFront beats' rest').map σ).Perm (nextFront beats rest) := by
  rw [← nextFront_map h.same]
  exact ParetoFront.nextFront_perm h.perm

theorem leftOver : StandsFor σ beats' beats (leftOver beats' rest') (leftOver beats rest) where
  perm := by
    rw [← leftOver_map h.same fun i left j right => h.injOn left right]
    exact leftOver_perm h.perm
  nodup := h.nodup.sublist (leftOver_sublist _)
  same i inRest j inRest' :=
    h.same i ((leftOver_sublist _).subset inRest) j ((leftOver_sublist _).subset inRest')

theorem iterate_leftOver (r : Nat) :
    StandsFor σ beats' beats ((ParetoFront.leftOver beats')^[r] rest')
      ((ParetoFront.leftOver beats)^[r] rest) := by
  induction r with
  | zero => exact h
  | succ r ih =>
    rw [Function.iterate_succ_apply', Function.iterate_succ_apply']
    exact ih.leftOver

end StandsFor

namespace Fronts.IsPeelingOf

variable {f f' : Fronts} {beats beats' : Nat → Nat → Bool} {n : Nat} {σ : Nat → Nat}
  (h : f.IsPeelingOf beats n) (h' : f'.IsPeelingOf beats' n)
  (renamed : StandsFor σ beats' beats (List.range n) (List.range n))
include h h' renamed

theorem front_perm (r : Nat) : ((f'.front r).map σ).Perm (f.front r) := by
  rw [front, front, h.fronts_eq, h'.fronts_eq, getD_naiveFronts, getD_naiveFronts]
  exact (renamed.iterate_leftOver r).nextFront_perm

theorem ranks_eq {i : Nat} (node : i < n) : f'.ranks[i]? = f.ranks[σ i]? := by
  refine Option.ext fun r => ?_
  rw [h'.rank_iff, h.rank_iff]
  exact renamed.mem_iff (h'.front_sublist r).subset (front_perm h h' renamed r)
    (List.mem_range.2 node)

end Fronts.IsPeelingOf

end ParetoFront
