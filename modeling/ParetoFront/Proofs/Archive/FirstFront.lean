import ParetoFront.Proofs.Archive.Unbeaten
import ParetoFront.Proofs.Fronts.StrictOrder

/-!
# Archives retain the first front

An archive with a criterion is offered the solutions of a pool one by one and compares each with
what it retained of those before. When the criterion is transitive on the pool and the duplicate
tolerance sets in nowhere, it ends with the first front of the whole pool, in the order of the pool,
and the order of the offers does not matter.

## Main definitions

- `Criterion.TooNear`, `Criterion.FreeOfDuplicates` — where the duplicate tolerance sets in

## Main statements

- `Criterion.decidedBy` — the archive decides by dominance
- `Archive.retained_eq_filter` — the content after a series of offers
- `Archive.retained_eq_firstFront` — it is the first front
-/

namespace ParetoFront

variable {r : Criterion} {tolerance : Float} {pool : List Solution} {w : Widths}

/-! ### Duplicates -/

/-- Neither of two solutions dominates the other, and they are nearer than the tolerance. -/
def Criterion.TooNear (r : Criterion) (tolerance : Float) (s t : Solution) : Prop :=
  r.relate s t = .neither ∧ euclideanDistance s.objectives t.objectives < tolerance

instance (r : Criterion) (tolerance : Float) (s t : Solution) :
    Decidable (r.TooNear tolerance s t) :=
  inferInstanceAs (Decidable (_ ∧ _))

/-- No two solutions at different positions of the pool are too near. -/
def Criterion.FreeOfDuplicates (r : Criterion) (tolerance : Float) (pool : List Solution) : Prop :=
  pool.Pairwise fun s t => ¬ r.TooNear tolerance s t ∧ ¬ r.TooNear tolerance t s

instance (r : Criterion) (tolerance : Float) (pool : List Solution) :
    Decidable (r.FreeOfDuplicates tolerance pool) :=
  inferInstanceAs (Decidable (pool.Pairwise _))

theorem Criterion.FreeOfDuplicates.perm {pool' : List Solution} (perm : pool'.Perm pool)
    (h : r.FreeOfDuplicates tolerance pool) : r.FreeOfDuplicates tolerance pool' :=
  (perm.pairwise_iff fun near => near.symm).2 h

/-- A tolerance that is not positive sets in nowhere. -/
theorem Criterion.freeOfDuplicates_of_not_pos (r : Criterion) (pool : List Solution)
    (h : ¬ 0 < tolerance) : r.FreeOfDuplicates tolerance pool := by
  have apart (s t : Solution) : ¬ r.TooNear tolerance s t := fun near =>
    Number.not_sqrt_lt h near.2
  exact List.pairwise_of_forall fun s t => ⟨apart s t, apart t s⟩

/-! ### Decisions of the archive -/

/-- Two offers, the first of them earlier, are not too near. -/
theorem Criterion.FreeOfDuplicates.apart (h : r.FreeOfDuplicates tolerance pool)
    {p q : Solution × Nat} (hp : p ∈ pool.zipIdx) (hq : q ∈ pool.zipIdx) (before : p.2 < q.2) :
    ¬ r.TooNear tolerance q.1 p.1 := by
  rw [List.mem_zipIdx_iff_getElem?, List.getElem?_eq_some_iff] at hp hq
  obtain ⟨insideP, atP⟩ := hp
  obtain ⟨insideQ, atQ⟩ := hq
  have := List.pairwise_iff_getElem.1 h p.2 q.2 insideP insideQ before
  rw [atP, atQ] at this
  exact this.2

/-- Where the tolerance does not set in, the archive decides by dominance. -/
theorem Criterion.decidedBy (accepted : commonWidths pool = .ok w)
    (transitive : r.compare.TransitiveOn pool) (free : r.FreeOfDuplicates tolerance pool) :
    (Policy.nondominated r tolerance).DecidedBy (fun p q => r.relate p.1 q.1 = .left) pool where
  irrefl p _ wins := by
    have swap := r.relate_swap p.1 p.1
    rw [wins] at swap
    cases swap
  trans p hp q hq s hs first second := by
    have inside {p : Solution × Nat} (hp : p ∈ pool.zipIdx) : p.1 ∈ pool := (mem_of_mem_zipIdx hp).1
    have step := transitive p.1 (inside hp) q.1 (inside hq) s.1 (inside hs)
    rw [r.compare_eq_ok (objectives_length_eq accepted (inside hp) (inside hq)),
      r.compare_eq_ok (objectives_length_eq accepted (inside hq) (inside hs)),
      r.compare_eq_ok (objectives_length_eq accepted (inside hp) (inside hs))] at step
    rw [first, second] at step
    exact Except.ok.inj (step rfl rfl)
  keepsOut_iff p hp q hq before := by
    have apart := free.apart hp hq before
    rw [TooNear, not_and] at apart
    rw [Policy.judge, r.relate_swap q.1 p.1]
    cases outcome : r.relate q.1 p.1 <;> simp [Dominance.swap, apart, outcome]
  coexists_iff p hp q hq before admitted := by
    have apart := free.apart hp hq before
    rw [TooNear, not_and] at apart
    rw [r.relate_swap q.1 p.1] at admitted
    rw [Policy.judge]
    cases outcome : r.relate q.1 p.1 with
    | left => simp
    | right => exact absurd (congrArg Dominance.swap outcome) admitted
    | neither => simp [apart outcome]

theorem unbeatenOffers_eq_filter (beats : Solution → Solution → Prop) [DecidableRel beats]
    (offers : List Solution) :
    unbeatenOffers (fun p q => beats p.1 q.1) offers =
      offers.filter fun t => ∀ s ∈ offers, ¬ beats s t := by
  conv_rhs => rw [← List.zipIdx_map_fst 0 offers]
  rw [unbeatenOffers, List.filter_map]
  refine congrArg _ (List.filter_congr ?_)
  intro p _
  refine decide_eq_decide.2 ⟨fun free s member => ?_, fun free q inside => ?_⟩
  · obtain ⟨q, inside, rfl⟩ := List.mem_map.1 member
    exact free q inside
  · exact free q.1 (List.mem_map_of_mem inside)

/-! ### The first front -/

/-- Whatever the order of the offers, those are retained that nothing in the pool dominates. -/
theorem Archive.retained_eq_filter {a : Archive} (policy : a.policy = .nondominated r tolerance)
    (empty : a.retained = []) (widths : a.widths = none ∨ a.widths = some w)
    (accepted : commonWidths pool = .ok w) (transitive : r.compare.TransitiveOn pool)
    (free : r.FreeOfDuplicates tolerance pool) :
    (pool.foldl (fun a s => (a.offer s).1) a).retained =
      pool.filter fun t => ∀ s ∈ pool, r.relate s t ≠ .left := by
  have serves : a.Serves w := ⟨by rw [policy]; rfl, widths⟩
  have decided := r.decidedBy accepted transitive free
  rw [(serves.foldl_offer fun s member => widths_eq_of_commonWidths accepted member).2.2, policy,
    empty, decided.foldl_retainedAfter, unbeatenOffers_eq_filter fun s t => r.relate s t = .left]

/-- The order of the offers changes nothing but the order of what is retained. -/
theorem Archive.retained_perm {a : Archive} (policy : a.policy = .nondominated r tolerance)
    (empty : a.retained = []) (widths : a.widths = none ∨ a.widths = some w)
    (accepted : commonWidths pool = .ok w) (transitive : r.compare.TransitiveOn pool)
    (free : r.FreeOfDuplicates tolerance pool) {offers : List Solution} (perm : offers.Perm pool) :
    (offers.foldl (fun a s => (a.offer s).1) a).retained.Perm
      (pool.foldl (fun a s => (a.offer s).1) a).retained := by
  rw [retained_eq_filter policy empty widths accepted transitive free,
    retained_eq_filter policy empty widths (commonWidths_eq_ok_of_perm perm accepted)
      (transitive.perm perm) (free.perm perm)]
  have same : (fun t => decide (∀ s ∈ offers, r.relate s t ≠ .left)) =
      fun t => decide (∀ s ∈ pool, r.relate s t ≠ .left) := by
    funext t
    exact decide_eq_decide.2 (forall_congr' fun s => by rw [perm.mem_iff])
  rw [same]
  exact perm.filter _

/-- The part of a list that a condition selects, found by position. -/
theorem map_filter_range {α : Type} (p : α → Bool) (xs : List α) :
    ((List.range xs.length).filter fun i => xs[i]?.any p).map (xs[·]?) =
      (xs.filter p).map some := by
  have all : xs.map some = (List.range xs.length).map (xs[·]?) := by
    refine List.ext_getElem (by simp) ?_
    intro i _ _
    simp
  have lift : (xs.filter p).map some = (xs.map some).filter (·.any p) := by
    rw [List.filter_map]
    rfl
  rw [lift, all, List.filter_map]
  rfl

/-- The first front of a pool holds what nothing in the pool dominates. -/
theorem Criterion.map_front_zero {f : Fronts} (accepted : commonWidths pool = .ok w)
    (transitive : r.compare.TransitiveOn pool)
    (h : f.IsPeelingOf (dominatesAt r.compare pool) pool.length) :
    (f.front 0).map (pool[·]?) =
      (pool.filter fun t => ∀ s ∈ pool, r.relate s t ≠ .left).map some := by
  rw [h.front_zero (r.antisymmetricOn accepted) transitive, ← map_filter_range, undominated]
  refine congrArg _ (List.filter_congr ?_)
  intro i node
  obtain ⟨t, atI⟩ : ∃ t, pool[i]? = some t := ⟨_, List.getElem?_eq_getElem (List.mem_range.1 node)⟩
  rw [Bool.eq_iff_iff, Bool.not_eq_true', List.any_eq_false, atI,
    Option.any_some, decide_eq_true_iff]
  constructor
  · intro free s member wins
    obtain ⟨j, atJ⟩ := List.mem_iff_getElem?.1 member
    exact free j (List.mem_range.2 (List.getElem?_eq_some_iff.1 atJ).1)
      ((Criterion.dominatesAt_iff accepted).2 ⟨s, t, atJ, atI, wins⟩)
  · intro free j _ edge
    obtain ⟨s, t', atJ, atI', wins⟩ := (Criterion.dominatesAt_iff accepted).1 edge
    obtain rfl : t = t' := Option.some.inj (atI.symm.trans atI')
    exact free s (List.mem_of_getElem? atJ) wins

/-- An empty archive that is offered a pool, in its order, retains the first front of the pool in
ascending order of the positions, provided that the criterion is transitive on the pool and that the
tolerance sets in nowhere. The order of the offers changes nothing but the order of what is
retained. On a pool without undefined floats every criterion is antisymmetric and transitive, and a
tolerance of zero sets in nowhere. -/
theorem Archive.retained_eq_firstFront (r : Criterion) (tolerance : Float) (a : Archive)
    (w : Widths) (pool : List Solution) (policy : a.policy = .nondominated r tolerance)
    (empty : a.retained = []) (widths : a.widths = none ∨ a.widths = some w)
    (accepted : commonWidths pool = .ok w) :
    let retained := fun offers : List Solution =>
      (offers.foldl (fun a s => (a.offer s).1) a).retained
    (r.compare.TransitiveOn pool → r.FreeOfDuplicates tolerance pool →
      ∃ f, sortIntoFronts r.compare pool = .ok f ∧
        (f.front 0).Pairwise (· < ·) ∧
        (retained pool).map some = (f.front 0).map (pool[·]?) ∧
        ∀ offers, offers.Perm pool → (retained offers).Perm (retained pool)) ∧
      r.compare.AntisymmetricOn pool ∧
      ((∀ s ∈ pool, r.Numeric s) → r.compare.TransitiveOn pool) ∧
      (¬ 0 < tolerance → r.FreeOfDuplicates tolerance pool) := by
  intro retained
  have antisymmetric := r.antisymmetricOn accepted
  refine ⟨?_, antisymmetric, r.transitiveOn accepted, r.freeOfDuplicates_of_not_pos pool⟩
  intro transitive free
  obtain ⟨f, isOk, peeling⟩ := sortIntoFronts_eq_ok accepted antisymmetric
  have content := retained_eq_filter policy empty widths accepted transitive free
  refine ⟨f, isOk, ?_, ?_, ?_⟩
  · rw [peeling.front_zero antisymmetric transitive]
    exact List.pairwise_lt_range.sublist (undominated_sublist _)
  · rw [Criterion.map_front_zero accepted transitive peeling]
    exact congrArg _ content
  · intro offers perm
    exact retained_perm policy empty widths accepted transitive free perm

/-- An infeasible solution, a copy of a solution, and one that makes another leave. -/
def copies : List Solution :=
  [⟨[], [0, 0], [0.5]⟩, ⟨[], [3, 0], [0]⟩, ⟨[], [2, 2], [0]⟩, ⟨[], [0, 3], [0]⟩, ⟨[], [0, 3], [0]⟩,
    ⟨[], [1, 1], [0]⟩]

theorem retained_eq_firstFront_copies :
    ∃ f, sortIntoFronts Criterion.constrained.compare copies = .ok f ∧ f.front 0 = [1, 3, 4, 5] ∧
      (copies.foldl (fun a s => (a.offer s).1)
          (Archive.nondominated .constrained 0)).retained.map some =
        [1, 3, 4, 5].map (copies[·]?) := by
  obtain ⟨same, -, transitive, free⟩ := Archive.retained_eq_firstFront .constrained 0
    (.nondominated .constrained 0) ⟨2, 1⟩ copies rfl rfl (.inl rfl) rfl
  obtain ⟨f, isOk, -, content, -⟩ := same (transitive (by decide +kernel)) (free (by decide))
  have value : f = ⟨[2, 0, 1, 0, 0, 0], [[1, 3, 4, 5], [2], [0]]⟩ :=
    Except.ok.inj (isOk.symm.trans rfl)
  subst value
  exact ⟨_, isOk, rfl, content⟩

end ParetoFront
