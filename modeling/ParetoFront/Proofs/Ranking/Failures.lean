import ParetoFront.Proofs.Ranking.ClosedForm
import ParetoFront.Proofs.Ranking.Moves

/-!
# When rankings fail

The operations that rank a pool check its widths first. Behind this check there are more places that
could fault: objective vectors of unequal lengths, positions outside a list, counts below zero, and
survivors that are too few or too many. For the criteria none of these places is reached: a ranking
fails exactly where the check does, and with its refusal.

## Main definitions

- `Widths.Mismatch` — how the difference of a solution from given widths is named
- `FailsAs` — an operation that faults where a check refuses, and only there

## Main statements

- `commonWidths_eq_error_iff` — the refusal names the first solution that differs from the first one
- `FailsAs.error_iff` — the faults of such an operation
- `failsAs_sortIntoFronts`, `failsAs_rankTable`, `failsAs_survivors`, `failsAs_crowding`
- `snd_lt_of_mem_columnShares` — what is added to distances is added at positions that are there
- `rankings_fail_iff` — all rankings
-/

namespace ParetoFront

/-! ### The check of the widths -/

/-- The error names a difference of a solution from given widths, and the number of objectives
before the number of constraints. -/
inductive Widths.Mismatch (w : Widths) (s : Solution) : Error → Prop
  | objectives (differ : s.objectives.length ≠ w.objectives) :
    Mismatch w s (.objectiveCountMismatch w.objectives s.objectives.length)
  | constraints (same : s.objectives.length = w.objectives)
    (differ : s.constraints.length ≠ w.constraints) :
    Mismatch w s (.constraintCountMismatch w.constraints s.constraints.length)

variable {pool : List Solution} {w : Widths} {s : Solution} {e : Error}

theorem Widths.accept_eq_error_iff : w.accept s = .error e ↔ w.Mismatch s e := by
  rw [accept]
  by_cases same : s.objectives.length = w.objectives
  · rw [if_neg (not_not.2 same)]
    by_cases same' : s.constraints.length = w.constraints
    · rw [if_neg (not_not.2 same')]
      refine iff_of_false (by rintro ⟨⟩) fun mismatch => ?_
      cases mismatch with
      | objectives differ => exact differ same
      | constraints _ differ => exact differ same'
    · rw [if_pos same']
      constructor
      · rintro ⟨⟩
        exact .constraints same same'
      · intro mismatch
        cases mismatch with
        | objectives differ => exact absurd same differ
        | constraints => rfl
  · rw [if_pos same]
    constructor
    · rintro ⟨⟩
      exact .objectives same
    · intro mismatch
      cases mismatch with
      | objectives => rfl
      | constraints same' => exact absurd same' same

/-- A check of solutions one by one fails at the first that it refuses. -/
theorem Widths.forM_accept_eq_error_iff :
    pool.forM w.accept = .error e ↔ ∃ alike s later, pool = alike ++ s :: later ∧
      (∀ t ∈ alike, t.widths = w) ∧ w.Mismatch s e := by
  induction pool with
  | nil =>
    refine iff_of_false (by rintro ⟨⟩) ?_
    rintro ⟨alike, s, later, split, -⟩
    simp at split
  | cons t rest ih =>
    show (w.accept t >>= fun _ => rest.forM w.accept) = .error e ↔ _
    cases accepted : w.accept t with
    | error e' =>
      constructor
      · rintro ⟨⟩
        exact ⟨[], t, rest, rfl, List.forall_mem_nil _, accept_eq_error_iff.1 accepted⟩
      · rintro ⟨alike, s, later, split, same, mismatch⟩
        cases alike with
        | nil =>
          obtain ⟨rfl, rfl⟩ := List.cons.inj split
          exact accepted.symm.trans (accept_eq_error_iff.2 mismatch)
        | cons _ alike =>
          obtain ⟨rfl, rfl⟩ := List.cons.inj split
          cases accepted.symm.trans (accept_eq_ok_iff.2 (same t List.mem_cons_self))
    | ok =>
      show rest.forM w.accept = .error e ↔ _
      have first := accept_eq_ok_iff.1 accepted
      rw [ih]
      constructor
      · rintro ⟨alike, s, later, rfl, same, mismatch⟩
        exact ⟨t :: alike, s, later, rfl, List.forall_mem_cons.2 ⟨first, same⟩, mismatch⟩
      · rintro ⟨alike, s, later, split, same, mismatch⟩
        cases alike with
        | nil =>
          obtain ⟨rfl, rfl⟩ := List.cons.inj split
          cases accepted.symm.trans (accept_eq_error_iff.2 mismatch)
        | cons _ alike =>
          obtain ⟨rfl, rfl⟩ := List.cons.inj split
          exact ⟨alike, s, later, rfl, (List.forall_mem_cons.1 same).2, mismatch⟩

/-- A pool is refused for the first solution that differs from the first one. -/
theorem commonWidths_eq_error_iff :
    commonWidths pool = .error e ↔ ∃ first alike s later, pool = first :: (alike ++ s :: later) ∧
      (∀ t ∈ alike, t.widths = first.widths) ∧ first.widths.Mismatch s e := by
  cases pool with
  | nil =>
    refine iff_of_false (by rintro ⟨⟩) ?_
    rintro ⟨first, alike, s, later, split, -⟩
    cases split
  | cons first rest =>
    have checked : commonWidths (first :: rest) = .error e ↔
        rest.forM first.widths.accept = .error e := by
      rw [commonWidths]
      cases rest.forM first.widths.accept with
      | error e' =>
        constructor
        · rintro ⟨⟩
          rfl
        · rintro ⟨⟩
          rfl
      | ok => exact iff_of_false (by rintro ⟨⟩) (by rintro ⟨⟩)
    rw [checked, Widths.forM_accept_eq_error_iff]
    constructor
    · rintro ⟨alike, s, later, rfl, same, mismatch⟩
      exact ⟨first, alike, s, later, rfl, same, mismatch⟩
    · rintro ⟨_, alike, s, later, split, same, mismatch⟩
      obtain ⟨rfl, rfl⟩ := List.cons.inj split
      exact ⟨alike, s, later, rfl, same, mismatch⟩

/-! ### Operations behind the check -/

/-- The operation faults with the refusal of the check where there is one, and gives an answer of
the right kind where there is none. -/
structure FailsAs {α β : Type} (check : Except Error β) (right : α → Prop)
    (result : Except Fault α) : Prop where
  refused : ∀ e, check = .error e → result = .error (.refused e)
  answered : ∀ b, check = .ok b → ∃ a, result = .ok a ∧ right a

namespace FailsAs

variable {α β : Type} {check : Except Error β} {right : α → Prop} {result : Except Fault α}

theorem error_iff (h : FailsAs check right result) (fault : Fault) :
    result = .error fault ↔ ∃ e, check = .error e ∧ fault = .refused e := by
  cases checked : check with
  | error e =>
    rw [h.refused e checked]
    constructor
    · rintro ⟨⟩
      exact ⟨e, rfl, rfl⟩
    · rintro ⟨_, ⟨⟩, rfl⟩
      rfl
  | ok b =>
    obtain ⟨a, isOk, -⟩ := h.answered b checked
    rw [isOk]
    exact iff_of_false (by rintro ⟨⟩) (by rintro ⟨_, ⟨⟩, -⟩)

end FailsAs

section Criteria

variable (r : Criterion) (pool : List Solution)

theorem failsAs_sortIntoFronts :
    FailsAs (commonWidths pool)
      (fun f => f.ranks.length = pool.length ∧ ∀ front ∈ f.fronts, ∀ i ∈ front, i < pool.length)
      (sortIntoFronts r.compare pool) where
  refused e refused := by
    rw [sortIntoFronts, refused]
    rfl
  answered w accepted := by
    obtain ⟨f, sorted, h⟩ := sortIntoFronts_eq_ok accepted (r.antisymmetricOn accepted)
    exact ⟨f, sorted, h.length_ranks, fun front part i => h.lt_of_mem_fronts part⟩

theorem failsAs_rankTable :
    FailsAs (commonWidths pool)
      (fun table => table.map Ranked.index = List.range pool.length)
      (rankTable r.compare pool) where
  refused e refused := by
    rw [rankTable, (failsAs_sortIntoFronts r pool).refused e refused]
    rfl
  answered w accepted := by
    obtain ⟨f, sorted, h⟩ := sortIntoFronts_eq_ok accepted (r.antisymmetricOn accepted)
    exact ⟨f.table pool, h.rankTable_eq_ok accepted sorted, h.map_index_table⟩

theorem failsAs_survivors (k : Nat) :
    FailsAs (commonWidths pool) (fun rows => rows.length = min k pool.length)
      (survivors r.compare pool k) where
  refused _ := survivors_eq_error
  answered w accepted := by
    obtain ⟨f, sorted, h⟩ := sortIntoFronts_eq_ok accepted (r.antisymmetricOn accepted)
    refine ⟨_, h.survivors_eq_ok accepted sorted k, ?_⟩
    rw [length_fillPlaces, h.length_flatten_groups accepted]
    omega

theorem failsAs_crowding :
    FailsAs (commonWidths pool) (fun distances => distances.length = pool.length)
      (crowding pool) where
  refused e refused := by
    have inside : ∀ i ∈ List.range pool.length, i < pool.length := fun i => List.mem_range.1
    have found : (List.range pool.length).mapM (elementAt pool) = .ok pool :=
      (mapM_elementAt_eq_ok inside).trans (congrArg Except.ok (membersAt_range pool))
    rw [crowding, frontCrowding, found]
    show (orFault (commonWidths pool) >>= _) = _
    rw [refused]
    rfl
  answered w accepted := by
    obtain ⟨isOk, length⟩ := frontDistances_spec accepted fun i => List.mem_range.1
    exact ⟨_, isOk, length.trans List.length_range⟩

end Criteria

/-- What an objective adds to the distances is added at positions of its column. -/
theorem snd_lt_of_mem_columnShares {column : List Float} {share : Placed}
    (member : share ∈ columnShares column) : share.2 < column.length := by
  rw [columnShares_eq] at member
  split at member
  · cases member
  · obtain ⟨p, sorted, rfl⟩ := List.mem_map.1 member
    have placed := (sortedValues_perm column).subset sorted
    exact (List.getElem?_eq_some_iff.1 (List.mem_zipIdx_iff_getElem?.1 placed)).1

/-- Under every criterion the rankings fail exactly where the widths of the pool are refused, and
with this refusal and its text. It is for the first solution that differs from the first one, and
names the number of objectives before that of constraints. Otherwise all rankings answer, as many
solutions survive as are asked for or as there are, and all positions at which ranks, rows and
distances are written are there. -/
theorem rankings_fail_iff (r : Criterion) (pool : List Solution) (k : Nat) :
    (∀ fault : Fault,
      let refused := ∃ e, commonWidths pool = .error e ∧ fault = .refused e ∧
        fault.message = some e.message
      (sortIntoFronts r.compare pool = .error fault ↔ refused) ∧
        (rankTable r.compare pool = .error fault ↔ refused) ∧
        (survivors r.compare pool k = .error fault ↔ refused) ∧
        (crowding pool = .error fault ↔ refused)) ∧
    (∀ e, commonWidths pool = .error e ↔
      ∃ first alike s later, pool = first :: (alike ++ s :: later) ∧
        (∀ t ∈ alike, t.widths = first.widths) ∧ first.widths.Mismatch s e) ∧
    ((∃ w, commonWidths pool = .ok w) ↔
      ∃ f table rows distances, sortIntoFronts r.compare pool = .ok f ∧
        rankTable r.compare pool = .ok table ∧ survivors r.compare pool k = .ok rows ∧
        crowding pool = .ok distances ∧
        (f.ranks.length = pool.length ∧ ∀ front ∈ f.fronts, ∀ i ∈ front, i < pool.length) ∧
        table.map Ranked.index = List.range pool.length ∧
        rows.length = min k pool.length ∧ distances.length = pool.length) ∧
    ∀ column, ∀ share ∈ columnShares column, share.2 < column.length := by
  have texts (fault : Fault) : (∃ e, commonWidths pool = .error e ∧ fault = .refused e) ↔
      ∃ e, commonWidths pool = .error e ∧ fault = .refused e ∧ fault.message = some e.message :=
    exists_congr fun e => and_congr_right fun _ =>
      ⟨fun same => ⟨same, same ▸ rfl⟩, fun h => h.1⟩
  refine ⟨fun fault => ⟨?_, ?_, ?_, ?_⟩, fun e => commonWidths_eq_error_iff, ⟨?_, ?_⟩,
    fun column share => snd_lt_of_mem_columnShares⟩
  · exact ((failsAs_sortIntoFronts r pool).error_iff fault).trans (texts fault)
  · exact ((failsAs_rankTable r pool).error_iff fault).trans (texts fault)
  · exact ((failsAs_survivors r pool k).error_iff fault).trans (texts fault)
  · exact ((failsAs_crowding pool).error_iff fault).trans (texts fault)
  · rintro ⟨w, accepted⟩
    obtain ⟨f, sorted, positions⟩ := (failsAs_sortIntoFronts r pool).answered w accepted
    obtain ⟨table, tabled, aligned⟩ := (failsAs_rankTable r pool).answered w accepted
    obtain ⟨rows, survived, length⟩ := (failsAs_survivors r pool k).answered w accepted
    obtain ⟨distances, crowded, length'⟩ := (failsAs_crowding pool).answered w accepted
    exact ⟨f, table, rows, distances, sorted, tabled, survived, crowded, positions, aligned, length,
      length'⟩
  · rintro ⟨f, -, -, -, sorted, -⟩
    exact (answersOn_of_sortIntoFronts sorted).1

/-- The third solution has a constraint too many, the fourth an objective. -/
def mismatched : List Solution :=
  [.ofObjectives [0 / 0], .ofObjectives [1], ⟨[], [2], [0]⟩, .ofObjectives [3, 3]]

/-- More epsilons than objectives, an undefined objective, and no places to fill. -/
theorem rankings_fail_iff_mismatched :
    let r := Criterion.epsilonBox ⟨[1, 2, 3], by decide, by decide +kernel⟩
    let fault := Fault.refused (.constraintCountMismatch 0 1)
    fault.message = some "constraint count mismatch: expected 0, got 1" ∧
      survivors r.compare mismatched 0 = .error fault ∧ crowding mismatched = .error fault ∧
      ∃ rows, survivors r.compare (mismatched.take 2) 0 = .ok rows ∧ rows.length = 0 := by
  intro r fault
  obtain ⟨fails, refusal, -⟩ := rankings_fail_iff r mismatched 0
  obtain ⟨-, -, answers, -⟩ := rankings_fail_iff r (mismatched.take 2) 0
  have refused : commonWidths mismatched = .error (.constraintCountMismatch 0 1) :=
    (refusal _).2 ⟨_, [.ofObjectives [1]], ⟨[], [2], [0]⟩, _, rfl, by decide,
      .constraints rfl (by decide)⟩
  obtain ⟨-, -, survived, crowded⟩ := fails fault
  obtain ⟨f, table, rows, distances, -, -, isOk, -, -, -, length, -⟩ := answers.1 ⟨⟨1, 0⟩, rfl⟩
  exact ⟨by decide +kernel, survived.2 ⟨_, refused, rfl, rfl⟩, crowded.2 ⟨_, refused, rfl, rfl⟩,
    rows, isOk, length⟩

end ParetoFront
