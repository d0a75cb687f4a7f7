import ParetoFront.Proofs.Fronts.Rounds

/-!
# Sorting is peeling by definition

For every comparator that answers, sorting a pool of equal widths succeeds with the fronts of
peeling by definition. For one that says the same from both sides, transitive or not, what is peeled
is domination between the positions of the pool.

## Main definitions

- `Fronts.IsPeelingOf` — the fronts of peeling by definition, and the ranks that go with them

## Main statements

- `sortIntoFronts_eq_ok_of_answersOn`, `sortIntoFronts_eq_ok` — sorting succeeds with them
- `sortIntoFronts_eq_naiveFronts` — the fronts partition the pool
-/

namespace ParetoFront

/-- The fronts of peeling by definition, and the ranks that go with them. -/
structure Fronts.IsPeelingOf (f : Fronts) (beats : Nat → Nat → Bool) (n : Nat) : Prop where
  fronts_eq : f.fronts = naiveFronts beats (List.range n)
  length_ranks : f.ranks.length = n
  rank_iff : ∀ i r, f.ranks[i]? = some r ↔ i ∈ f.front r

namespace Fronts.IsPeelingOf

variable {f : Fronts} {beats : Nat → Nat → Bool} {n i r : Nat} (h : f.IsPeelingOf beats n)
include h

theorem exists_rank (node : i < n) : ∃ r : Nat, f.ranks[i]? = some r :=
  ⟨_, List.getElem?_eq_getElem (by rwa [h.length_ranks])⟩

theorem flatten_perm : f.fronts.flatten.Perm (List.range n) :=
  h.fronts_eq ▸ flatten_naiveFronts_perm _

theorem lt_of_mem_fronts {front : List Nat} (part : front ∈ f.fronts) (member : i ∈ front) :
    i < n :=
  List.mem_range.1 (h.flatten_perm.subset (List.mem_flatten_of_mem part member))

theorem lt_of_mem_front (member : i ∈ f.front r) : i < n :=
  h.length_ranks ▸ (List.getElem?_eq_some_iff.1 ((h.rank_iff i r).2 member)).1

theorem lt_count (atI : f.ranks[i]? = some r) : r < f.count := by
  by_contra beyond
  have member := (h.rank_iff i r).1 atI
  rw [front_eq_nil (Nat.le_of_not_lt beyond)] at member
  exact List.not_mem_nil member

theorem front_sublist (r : Nat) : (f.front r).Sublist (List.range n) := by
  by_cases within : r < f.count
  · have member : f.fronts[r] ∈ naiveFronts beats (List.range n) :=
      h.fronts_eq ▸ List.getElem_mem within
    rw [front_eq_getElem within]
    exact sublist_of_mem_naiveFronts _ _ member
  · rw [front_eq_nil (Nat.le_of_not_lt within)]
    exact List.nil_sublist _

theorem pairwise_front (r : Nat) : (f.front r).Pairwise (· < ·) :=
  List.pairwise_lt_range.sublist (h.front_sublist r)

end Fronts.IsPeelingOf

variable {compare : Comparator} {pool : List Solution} {w : Widths}

/-- Sorting succeeds for every comparator that answers. -/
theorem sortIntoFronts_eq_ok_of_answersOn (accepted : commonWidths pool = .ok w)
    (answers : compare.AnswersOn pool) :
    ∃ f, sortIntoFronts compare pool = .ok f ∧
      f.IsPeelingOf (winsAt compare pool) pool.length := by
  obtain ⟨g, graphOk, size, inRange, beats⟩ := DominationGraph.ofPool_eq_ok answers
  have enough : (Peeling.start g).remaining.length ≤ g.size := by
    rw [Peeling.remaining_start, List.length_range]
  obtain ⟨q, freed, peelOk, inv, done, fronts⟩ :=
    Peeling.run_eq_ok g.size (Peeling.invariant_start inRange) enough
  refine ⟨⟨q.ranks.map (·.getD 0), q.fronts⟩, ?_, ?_, ?_, ?_⟩
  · have peeled : g.peel = .ok q := peelOk
    simp only [sortIntoFronts, accepted, graphOk, orFault, bind, Except.bind, peeled]
    rfl
  · rw [fronts, Peeling.remaining_start, beats, size]
    rfl
  · rw [List.length_map, inv.ranks_length, size]
  · intro i r
    rw [Fronts.front, ← inv.rank_iff, List.getElem?_map, Option.map_eq_some_iff]
    constructor
    · rintro ⟨rank, atI, rfl⟩
      cases rank with
      -- nothing is left unranked at the end
      | none => exact absurd (Peeling.mem_remaining.2 atI) (by simp [done])
      | some r => exact atI
    · exact fun atI => ⟨some r, atI, rfl⟩

/-- Sorting succeeds for no other comparator, and for no pool whose widths differ. -/
theorem answersOn_of_sortIntoFronts {f : Fronts} (sorted : sortIntoFronts compare pool = .ok f) :
    (∃ w, commonWidths pool = .ok w) ∧ compare.AnswersOn pool := by
  obtain ⟨w, accepted, sorted⟩ := bind_eq_ok_iff.1 sorted
  obtain ⟨g, graphOk, -⟩ := bind_eq_ok_iff.1 sorted
  obtain ⟨edges, edgesOk, -⟩ := bind_eq_ok_iff.1 graphOk
  refine ⟨⟨w, ?_⟩, DominationGraph.answersOn_of_edgesFrom edgesOk⟩
  cases widths : commonWidths pool with
  | error e =>
    rw [widths] at accepted
    cases accepted
  | ok =>
    rw [widths] at accepted
    exact congrArg Except.ok (Except.ok.inj accepted)

theorem sortIntoFronts_eq_ok (accepted : commonWidths pool = .ok w)
    (antisymmetric : compare.AntisymmetricOn pool) :
    ∃ f, sortIntoFronts compare pool = .ok f ∧
      f.IsPeelingOf (dominatesAt compare pool) pool.length := by
  rw [← antisymmetric.winsAt_eq]
  exact sortIntoFronts_eq_ok_of_answersOn accepted antisymmetric.answersOn

/-- Each front is nonempty and ascending, and the fronts are disjoint and hold every position. No
count falls below zero on the way, since that would be a fault. -/
theorem sortIntoFronts_eq_naiveFronts (accepted : commonWidths pool = .ok w)
    (antisymmetric : compare.AntisymmetricOn pool) :
    ∃ f, sortIntoFronts compare pool = .ok f ∧
      f.fronts = naiveFronts (dominatesAt compare pool) (List.range pool.length) ∧
      (∀ front ∈ f.fronts, front ≠ [] ∧ front.Pairwise (· < ·) ∧ ∀ i ∈ front, i < pool.length) ∧
      (∀ i < pool.length, ∃! r, i ∈ f.front r) ∧
      f.ranks.length = pool.length ∧ ∀ i r, f.ranks[i]? = some r ↔ i ∈ f.front r := by
  obtain ⟨f, isOk, h⟩ := sortIntoFronts_eq_ok accepted antisymmetric
  refine ⟨f, isOk, h.fronts_eq, ?_, ?_, h.length_ranks, h.rank_iff⟩
  · intro front member
    rw [h.fronts_eq] at member
    have part := sublist_of_mem_naiveFronts _ front member
    exact ⟨ne_nil_of_mem_naiveFronts _ front member, List.pairwise_lt_range.sublist part,
      fun i inFront => List.mem_range.1 (part.subset inFront)⟩
  · intro i node
    obtain ⟨r, atI⟩ := h.exists_rank node
    refine ⟨r, (h.rank_iff i r).1 atI, ?_⟩
    intro s member
    exact Option.some.inj (((h.rank_iff i s).2 member).symm.trans atI)

/-- The first objectives play a game in which `0` beats `1`, `1` beats `2` and `2` beats `0`. -/
def playGame (a b : Solution) : Dominance :=
  match a.objectives, b.objectives with
  | x :: _, y :: _ =>
    if y == x + 1 || x == y + 2 then .left
    else if x == y + 1 || y == x + 2 then .right
    else .neither
  | _, _ => .neither

theorem Comparator.AntisymmetricOn.of_relation {relation : Solution → Solution → Dominance}
    (swap : ∀ a ∈ pool, ∀ b ∈ pool, relation b a = (relation a b).swap) :
    Comparator.AntisymmetricOn (fun a b => .ok (relation a b)) pool :=
  fun a left b right => ⟨relation a b, rfl, congrArg Except.ok (swap a left b right)⟩

/-- A cycle of three, an undefined objective that takes no part in it, and a pair. -/
def players : List Solution :=
  [Solution.ofObjectives [0], .ofObjectives [1], .ofObjectives [2], .ofObjectives [0 / 0],
    .ofObjectives [10], .ofObjectives [11]]

theorem sortIntoFronts_eq_naiveFronts_players :
    commonWidths players = .ok ⟨1, 0⟩ ∧
      naiveFronts (dominatesAt (fun a b => .ok (playGame a b)) players) (List.range 6) =
        [[3, 4], [5], [0, 1, 2]] := by
  obtain ⟨f, isOk, fronts, -⟩ := @sortIntoFronts_eq_naiveFronts
    (fun a b => .ok (playGame a b)) players ⟨1, 0⟩ rfl (.of_relation (by decide))
  have value : f = ⟨[2, 2, 2, 0, 0, 1], [[3, 4], [5], [0, 1, 2]]⟩ :=
    Except.ok.inj (isOk.symm.trans rfl)
  exact ⟨rfl, fronts.symm.trans (congrArg Fronts.fronts value)⟩

end ParetoFront
