import Mathlib.Data.List.Forall2
import ParetoFront.Proofs.Fronts.Cuts
import ParetoFront.Proofs.Fronts.StrictOrder
import ParetoFront.Proofs.Ranking.ClosedForm
import ParetoFront.Proofs.Ranking.Moves

/-!
# Truncating twice

The survivors of a truncation are whole fronts and a part of one. Under a strict order they have the
same fronts when they are sorted alone, and they stand in the order of these fronts already, so that
another truncation that has a place for each of them keeps them as they are. Only the front that was
cut has lost members, and its distances may be others.

## Main statements

- `exists_isCut_fillPlaces` — filling places cuts the groups
- `Fronts.IsPeelingOf.fronts_of_isCut` — the fronts of what is kept
- `forall₂_rows_of_isCut` — the rows of what is kept
- `Population.truncate_again` — another truncation
-/

namespace ParetoFront

/-! ### Places -/

theorem exists_isCut_fillPlaces (places : Nat) (groups : List (List Ranked)) :
    ∃ kept, fillPlaces places groups = kept.flatten ∧ IsCut kept groups := by
  induction groups generalizing places with
  | nil => exact ⟨[], rfl, .nothing _⟩
  | cons rows later ih =>
    rw [fillPlaces]
    by_cases cut : rows.length > places
    · rw [if_pos cut]
      have length : (mostSpread places rows).length = places := by
        rw [mostSpread_eq, List.length_take, (bySpread_perm rows).length_eq]
        omega
      by_cases none : places = 0
      · subst none
        exact ⟨[], List.eq_nil_of_length_eq_zero length, .nothing _⟩
      · refine ⟨[mostSpread places rows], (List.append_nil _).symm, .part later ?_ ?_ ?_⟩
        · rintro nothing
          rw [nothing] at length
          exact none length.symm
        · exact (List.take_sublist _ _).subperm.trans (bySpread_perm rows).subperm
        · rwa [length]
    · obtain ⟨kept, filled, rest⟩ := ih (places - rows.length)
      rw [if_neg cut, filled]
      exact ⟨rows :: kept, rfl, .whole rows rest⟩

/-- With a place for each row nothing is cut. -/
theorem fillPlaces_of_le {places : Nat} {groups : List (List Ranked)}
    (room : groups.flatten.length ≤ places) : fillPlaces places groups = groups.flatten := by
  induction groups generalizing places with
  | nil => rfl
  | cons rows later ih =>
    rw [List.flatten_cons, List.length_append] at room
    rw [fillPlaces, if_neg (by omega), ih (by omega), List.flatten_cons]

/-! ### Rows by their places -/

theorem countP_rank_renumbered (rows : List Ranked) (r : Nat) :
    (renumbered rows).countP (fun row => row.rank = r) = rows.countP fun row => row.rank = r := by
  conv_rhs => rw [← List.zipIdx_map_fst 0 rows, List.countP_map]
  rw [renumbered, List.countP_map]
  rfl

theorem forall₂_renumbered {R : Ranked → Ranked → Prop} {rows rows' : List Ranked}
    (related : List.Forall₂ R rows rows') :
    List.Forall₂ (fun row row' => ∃ a b, R a b ∧ row.index = row'.index ∧
      row = { a with index := row.index } ∧ row' = { b with index := row'.index })
      (renumbered rows) (renumbered rows') := by
  rw [renumbered, renumbered]
  generalize 0 = n
  induction related generalizing n with
  | nil => exact .nil
  | @cons a b _ _ first _ ih => exact .cons ⟨a, b, first, rfl, rfl, rfl⟩ (ih _)

/-- Where the rows of a group have its number as their rank, the rows of a rank are one group. -/
theorem filter_rank_flatten {groups : List (List Ranked)} {n : Nat}
    (ranked : ∀ r rows, groups[r]? = some rows → ∀ row ∈ rows, row.rank = n + r) (r : Nat) :
    groups.flatten.filter (fun row => row.rank = n + r) = groups.getD r [] := by
  induction groups generalizing n r with
  | nil => rfl
  | cons rows later ih =>
    have first : ∀ row ∈ rows, row.rank = n := ranked 0 rows rfl
    have others (r : Nat) (group : List Ranked) (here : later[r]? = some group) :
        ∀ row ∈ group, row.rank = n + 1 + r := fun row member => by
      have := ranked (r + 1) group here row member
      omega
    rw [List.flatten_cons, List.filter_append]
    cases r with
    | zero =>
      have all : rows.filter (fun row => row.rank = n + 0) = rows :=
        List.filter_eq_self.2 fun row member => decide_eq_true (first row member)
      have none : later.flatten.filter (fun row => row.rank = n + 0) = [] :=
        List.filter_eq_nil_iff.2 fun row member same => by
          obtain ⟨group, isLater, inGroup⟩ := List.mem_flatten.1 member
          obtain ⟨r, here⟩ := List.mem_iff_getElem?.1 isLater
          have := others r group here row inGroup
          have := of_decide_eq_true same
          omega
      rw [all, none, List.append_nil]
      rfl
    | succ r =>
      have none : rows.filter (fun row => row.rank = n + (r + 1)) = [] :=
        List.filter_eq_nil_iff.2 fun row member same => by
          have := first row member
          have := of_decide_eq_true same
          omega
      have shifted : n + (r + 1) = n + 1 + r := by omega
      rw [none, List.nil_append, shifted, ih others]
      rfl

/-! ### Distances of the same members -/

variable {compare : Comparator} {pool pool' : List Solution} {w w' : Widths}
  {front front' : List Nat}

theorem map_distance_rowsOf (rank : Nat)
    (lengths : (frontDistances pool front).length = front.length) :
    (rowsOf pool rank front).map Ranked.distance =
      (frontDistances pool front).map definedDistance := by
  rw [rowsOf, List.map_zipWith]
  refine List.ext_getElem (by simp [lengths]) fun i _ _ => ?_
  rw [List.getElem_zipWith, List.getElem_map]

theorem frontDistances_congr (accepted : commonWidths pool = .ok w)
    (inside : ∀ i ∈ front, i < pool.length) (inside' : ∀ i ∈ front', i < pool'.length)
    (members : membersAt pool' front' = membersAt pool front) :
    frontDistances pool' front' = frontDistances pool front := by
  obtain ⟨v, shared⟩ := exists_commonWidths_of_subset (@membersAt_subset pool front) accepted
  rw [frontDistances, frontDistances, frontCrowding_eq_map inside shared,
    frontCrowding_eq_map inside' (by rwa [members]), members]

/-! ### What is kept -/

/-- The positions of the rows that are kept, in their order. -/
def keptPositions (kept : List (List Ranked)) : List Nat :=
  kept.flatten.map Ranked.index

variable {f f' : Fronts} {kept : List (List Ranked)}

theorem map_getD_front
    (renamed : f'.fronts.map (List.map fun i => (keptPositions kept).getD i 0) =
      kept.map (List.map Ranked.index)) {r : Nat} {rows : List Ranked}
    (here : kept[r]? = some rows) :
    (f'.front r).map (fun i => (keptPositions kept).getD i 0) = rows.map Ranked.index := by
  have there := congrArg (fun fronts => fronts[r]?) renamed
  simp only [List.getElem?_map, here, Option.map_some] at there
  obtain ⟨front, atR, named⟩ := Option.map_eq_some_iff.1 there
  rw [Fronts.front, List.getD_eq_getElem?_getD, atR, Option.getD_some, named]

/-- A row of what is kept, against the row that was kept: the rank is the same, and so is the
distance when the whole front is kept. -/
def KeepsRow (kept : List (List Ranked)) (f : Fronts) (row row' : Ranked) : Prop :=
  row'.rank = row.rank ∧
    (kept.flatten.countP (fun other => other.rank = row.rank) = (f.front row.rank).length →
      row'.distance = row.distance)

section Kept

variable (cut : IsCut kept (f.groups pool))
include cut

theorem exists_rows_of_isCut {r : Nat} {rows : List Ranked} (here : kept[r]? = some rows) :
    rows = f.rows pool r ∨
      rows.Subperm (f.rows pool r) ∧ rows.length < (f.rows pool r).length := by
  obtain ⟨group, there, part⟩ := cut.of_getElem? here
  have isGroup := f.getD_groups pool r
  rw [List.getD_eq_getElem?_getD, there, Option.getD_some] at isGroup
  rwa [isGroup] at part

theorem rank_of_mem_kept {r : Nat} {rows : List Ranked} (here : kept[r]? = some rows)
    {row : Ranked} (member : row ∈ rows) : row.rank = r := by
  obtain rfl | ⟨part, -⟩ := exists_rows_of_isCut cut here
  · exact rank_of_mem_rowsOf member
  · exact rank_of_mem_rowsOf (part.subset member)

/-- The rows of a rank are one of the groups that are kept. -/
theorem filter_rank_kept (r : Nat) :
    kept.flatten.filter (fun row => row.rank = r) = kept.getD r [] := by
  have ranked (r : Nat) (rows : List Ranked) (here : kept[r]? = some rows) :
      ∀ row ∈ rows, row.rank = 0 + r := fun row member => by
    rw [Nat.zero_add]
    exact rank_of_mem_kept cut here member
  simpa only [Nat.zero_add] using filter_rank_flatten ranked r

end Kept

section Fronts

variable (h : f.IsPeelingOf (dominatesAt compare pool) pool.length)
  (accepted : commonWidths pool = .ok w) (cut : IsCut kept (f.groups pool))
include h accepted cut

theorem Fronts.IsPeelingOf.isCut_fronts : IsCut (kept.map (List.map Ranked.index)) f.fronts := by
  have fronts : (f.groups pool).map (List.map Ranked.index) = f.fronts := by
    rw [groups, List.map_map, ← f.map_front_range]
    exact List.map_congr_left fun r _ => h.map_index_rows accepted r
  exact fronts ▸ cut.map Ranked.index

theorem Fronts.IsPeelingOf.keptPositions_subperm :
    (keptPositions kept).Subperm (List.range pool.length) := by
  rw [keptPositions, List.map_flatten]
  exact (h.isCut_fronts accepted cut).flatten_subperm.trans h.flatten_perm.subperm

theorem Fronts.IsPeelingOf.lt_of_mem_keptPositions : ∀ i ∈ keptPositions kept, i < pool.length :=
  fun _ member => List.mem_range.1 ((h.keptPositions_subperm accepted cut).subset member)

theorem Fronts.IsPeelingOf.nodup_keptPositions : (keptPositions kept).Nodup := by
  obtain ⟨part, perm, sublist⟩ := h.keptPositions_subperm accepted cut
  exact perm.nodup_iff.1 (List.nodup_range.sublist sublist)

/-- What is kept has the fronts that are kept. -/
theorem Fronts.IsPeelingOf.fronts_of_isCut (antisymmetric : compare.AntisymmetricOn pool)
    (transitive : compare.TransitiveOn pool) :
    ∃ f', sortIntoFronts compare (membersAt pool (keptPositions kept)) = .ok f' ∧
      f'.IsPeelingOf (dominatesAt compare (membersAt pool (keptPositions kept)))
        (membersAt pool (keptPositions kept)).length ∧
      f'.fronts.map (List.map fun i => (keptPositions kept).getD i 0) =
        kept.map (List.map Ranked.index) := by
  obtain ⟨f', sorted, h', renamed⟩ := sortIntoFronts_membersAt accepted antisymmetric
    (h.nodup_keptPositions accepted cut) (h.lt_of_mem_keptPositions accepted cut)
  refine ⟨f', sorted, h', renamed.trans ?_⟩
  have isCut := h.isCut_fronts accepted cut
  rw [h.fronts_eq] at isCut
  rw [keptPositions, List.map_flatten]
  refine naiveFronts_flatten_of_isCut (fun i _ => dominatesAt_self _ _ i) ?_ isCut
  exact fun i _ j _ k _ => dominatesAt_trans antisymmetric transitive

variable (h' : f'.IsPeelingOf (dominatesAt compare (membersAt pool (keptPositions kept)))
    (membersAt pool (keptPositions kept)).length)
  (renamed : f'.fronts.map (List.map fun i => (keptPositions kept).getD i 0) =
    kept.map (List.map Ranked.index))
include h' renamed

/-- The positions that are kept are in the order of their fronts. -/
theorem flatten_fronts_of_isCut : f'.fronts.flatten = List.range (keptPositions kept).length := by
  have length := length_membersAt (h.lt_of_mem_keptPositions accepted cut)
  have names : f'.fronts.flatten.map (fun i => (keptPositions kept).getD i 0) =
      (List.range (keptPositions kept).length).map fun i => (keptPositions kept).getD i 0 := by
    rw [map_getD_range, List.map_flatten, renamed, ← List.map_flatten]
    rfl
  have lengths := h'.flatten_perm.length_eq
  rw [length, List.length_range] at lengths
  refine List.ext_getElem (by rw [lengths, List.length_range]) fun i within within' => ?_
  have same := congrArg (fun names => names[i]?) names
  simp only [List.getElem?_map, List.getElem?_eq_getElem within, List.getElem?_eq_getElem within',
    Option.map_some, Option.some.injEq] at same
  have member := h'.flatten_perm.subset (List.getElem_mem within)
  rw [length] at member
  exact getD_injective (h.nodup_keptPositions accepted cut) (List.mem_range.1 member)
    (List.mem_range.1 (List.getElem_mem within')) same

/-- The members of a front that is kept whole are those that they were. -/
theorem membersAt_front_of_isCut {r : Nat} (here : kept[r]? = some (f.rows pool r)) :
    membersAt (membersAt pool (keptPositions kept)) (f'.front r) = membersAt pool (f.front r) := by
  have length := length_membersAt (h.lt_of_mem_keptPositions accepted cut)
  rw [membersAt_membersAt (h.lt_of_mem_keptPositions accepted cut) fun i member => by
    rw [← length]
    exact h'.lt_of_mem_front member, map_getD_front renamed here, h.map_index_rows accepted]

theorem map_distance_rows_of_isCut {r : Nat} (here : kept[r]? = some (f.rows pool r)) :
    (f'.rows (membersAt pool (keptPositions kept)) r).map Ranked.distance =
      (f.rows pool r).map Ranked.distance := by
  obtain ⟨v, accepted'⟩ :=
    exists_commonWidths_of_subset (@membersAt_subset pool (keptPositions kept)) accepted
  have inside : ∀ i ∈ f.front r, i < pool.length := fun _ => h.lt_of_mem_front
  have inside' : ∀ i ∈ f'.front r, i < (membersAt pool (keptPositions kept)).length :=
    fun _ => h'.lt_of_mem_front
  rw [Fronts.rows, Fronts.rows, map_distance_rowsOf r (frontDistances_spec accepted inside).2,
    map_distance_rowsOf r (frontDistances_spec accepted' inside').2,
    frontDistances_congr accepted inside inside'
      (membersAt_front_of_isCut h accepted cut h' renamed here)]

/-- The rows of one front, against those that were kept of it. -/
theorem forall₂_rows_of_getElem? {r : Nat} {rows : List Ranked} (here : kept[r]? = some rows) :
    List.Forall₂ (KeepsRow kept f) rows (f'.rows (membersAt pool (keptPositions kept)) r) := by
  obtain ⟨v, accepted'⟩ :=
    exists_commonWidths_of_subset (@membersAt_subset pool (keptPositions kept)) accepted
  have lengths : rows.length = (f'.rows (membersAt pool (keptPositions kept)) r).length := by
    have named := congrArg List.length (map_getD_front renamed here)
    rw [List.length_map, List.length_map] at named
    rw [← named, ← h'.map_index_rows accepted', List.length_map]
  refine List.forall₂_iff_get.2 ⟨lengths, fun t within within' => ⟨?_, fun whole => ?_⟩⟩
  · exact (rank_of_mem_rowsOf (List.get_mem _ _)).trans
      (rank_of_mem_kept cut here (List.get_mem _ _)).symm
  · rw [rank_of_mem_kept cut here (List.get_mem rows ⟨t, within⟩), List.countP_eq_length_filter,
      filter_rank_kept cut, List.getD_eq_getElem?_getD, here, Option.getD_some,
      ← h.map_index_rows accepted, List.length_map] at whole
    obtain rfl | ⟨-, fewer⟩ := exists_rows_of_isCut cut here
    · have same := map_distance_rows_of_isCut h accepted cut h' renamed here
      have atT := congrArg (fun distances => distances[t]?) same
      simpa only [List.getElem?_map, List.getElem?_eq_getElem within,
        List.getElem?_eq_getElem within', Option.map_some, Option.some.injEq,
        List.get_eq_getElem] using atT
    · exact absurd whole (Nat.ne_of_lt fewer)

/-- The rows of what is kept, against those that were kept. -/
theorem forall₂_rows_of_isCut :
    List.Forall₂ (KeepsRow kept f) kept.flatten
      (f'.groups (membersAt pool (keptPositions kept))).flatten := by
  have count : f'.count = kept.length := by
    have lengths := congrArg List.length renamed
    rwa [List.length_map, List.length_map] at lengths
  refine List.rel_flatten (List.forall₂_iff_get.2 ⟨?_, fun r within within' => ?_⟩)
  · rw [Fronts.groups, List.length_map, List.length_range, count]
  · have rows := forall₂_rows_of_getElem? h accepted cut h' renamed
      (List.getElem?_eq_getElem within)
    have group : (f'.groups (membersAt pool (keptPositions kept))).get ⟨r, within'⟩ =
        f'.rows (membersAt pool (keptPositions kept)) r := by
      rw [List.get_eq_getElem, ← Fronts.getD_groups, List.getD_eq_getElem _ _ within']
    rwa [group]

end Fronts

/-! ### Populations -/

theorem Population.truncate_eq_error {p : Population} {e : Error}
    (refused : commonWidths p.members = .error e) (k : Nat) :
    ∃ fault, p.truncate k compare = (p, .error fault) :=
  ⟨_, truncate_eq_of_error (survivors_eq_error refused)⟩

/-- Members that stand in the order of their fronts stay, when there is a place for each. -/
theorem Population.truncate_eq_self {p : Population} (accepted : commonWidths p.members = .ok w)
    (sorted : sortIntoFronts compare p.members = .ok f)
    (h : f.IsPeelingOf (dominatesAt compare p.members) p.members.length)
    (inOrder : f.fronts.flatten = List.range p.size) {k : Nat} (room : p.size ≤ k) :
    p.truncate k compare = (p, .ok (renumbered (f.groups p.members).flatten)) := by
  have all := h.survivors_eq_ok accepted sorted k
  have enough : (f.groups p.members).flatten.length ≤ min p.members.length k := by
    rw [h.length_flatten_groups accepted]
    exact Nat.le_min.2 ⟨Nat.le_refl _, room⟩
  rw [fillPlaces_of_le enough] at all
  rw [truncate_eq_ok all, h.map_index_flatten_groups accepted, inOrder, size, membersAt_range]

/-- Under a comparator that is antisymmetric and transitive on the members, truncating succeeds when
the members agree on widths, and only then. Truncating a second time with a place for every survivor
leaves the members as they are. The rows have the same positions and ranks, and those of a front
that was kept whole are the same rows. -/
theorem Population.truncate_again (p : Population) (compare : Comparator) (k : Nat)
    (antisymmetric : compare.AntisymmetricOn p.members)
    (transitive : compare.TransitiveOn p.members) :
    ((∃ w, commonWidths p.members = .ok w) ↔ ∃ rows, (p.truncate k compare).2 = .ok rows) ∧
      ∀ q rows, p.truncate k compare = (q, .ok rows) →
        ∃ f, sortIntoFronts compare p.members = .ok f ∧
          ∀ again, q.size ≤ again → ∃ rows', q.truncate again compare = (q, .ok rows') ∧
            List.Forall₂ (fun row row' : Ranked => row'.index = row.index ∧ row'.rank = row.rank ∧
              (rows.countP (fun other => other.rank = row.rank) = (f.front row.rank).length →
                row' = row)) rows rows' := by
  cases accepted : commonWidths p.members with
  | error e =>
    obtain ⟨fault, failed⟩ := @truncate_eq_error compare p e accepted k
    refine ⟨⟨fun ⟨w, isOk⟩ => ?_, fun ⟨rows, isOk⟩ => ?_⟩, fun q rows isOk => ?_⟩
    · cases isOk
    · rw [failed] at isOk
      cases isOk
    · cases failed.symm.trans isOk
  | ok w =>
    obtain ⟨f, sorted, h⟩ := sortIntoFronts_eq_ok accepted antisymmetric
    obtain ⟨kept, filled, cut⟩ :=
      exists_isCut_fillPlaces (min p.members.length k) (f.groups p.members)
    have first := truncate_eq_ok (filled ▸ h.survivors_eq_ok accepted sorted k)
    refine ⟨⟨fun _ => ⟨_, congrArg Prod.snd first⟩, fun _ => ⟨w, rfl⟩⟩, fun q rows isOk => ?_⟩
    obtain ⟨rfl, isRows⟩ := Prod.mk.inj (first.symm.trans isOk)
    obtain rfl := Except.ok.inj isRows
    obtain ⟨f', sorted', h', renamed⟩ := h.fronts_of_isCut accepted cut antisymmetric transitive
    obtain ⟨v, accepted'⟩ :=
      exists_commonWidths_of_subset (@membersAt_subset p.members (keptPositions kept)) accepted
    have inOrder : f'.fronts.flatten =
        List.range (membersAt p.members (keptPositions kept)).length := by
      rw [flatten_fronts_of_isCut h accepted cut h' renamed,
        length_membersAt (h.lt_of_mem_keptPositions accepted cut)]
    refine ⟨f, sorted, fun again room =>
      ⟨_, truncate_eq_self (p := ⟨_⟩) accepted' sorted' h' inOrder room, ?_⟩⟩
    refine (forall₂_renumbered (forall₂_rows_of_isCut h accepted cut h' renamed)).imp ?_
    rintro row row' ⟨a, b, ⟨rank, distance⟩, index, isRow, isRow'⟩
    rw [isRow', isRow]
    refine ⟨index.symm, rank, fun counted => ?_⟩
    rw [countP_rank_renumbered] at counted
    rw [rank, distance counted, index]

/-- One solution before four others, of which three are kept. -/
def ahead : Population :=
  ⟨[.ofObjectives [1, 2], .ofObjectives [2, 1], .ofObjectives [0, 3], .ofObjectives [0, 0],
    .ofObjectives [3, 0]]⟩

/-- In the front that was cut the last solution is farther from its neighbours than before. -/
theorem Population.truncate_again_ahead :
    let rows (d : Float) : List Ranked := [⟨0, 0, some infinite⟩, ⟨1, 1, some infinite⟩,
      ⟨2, 1, some infinite⟩, ⟨3, 1, some d⟩]
    ∃ q, ahead.truncate 4 Criterion.pareto.compare = (q, .ok (rows (4 / 3))) ∧
      q.truncate 9 Criterion.pareto.compare = (q, .ok (rows 2)) := by
  intro rows
  obtain ⟨-, twice⟩ := truncate_again ahead Criterion.pareto.compare 4
    (Criterion.pareto.antisymmetricOn rfl) (Criterion.pareto.transitiveOn rfl (by decide +kernel))
  let kept : Population := ⟨[.ofObjectives [0, 0], .ofObjectives [0, 3], .ofObjectives [3, 0],
    .ofObjectives [1, 2]]⟩
  have survive : survivors Criterion.pareto.compare ahead.members 4 = .ok [⟨3, 0, some infinite⟩,
    ⟨2, 1, some infinite⟩, ⟨4, 1, some infinite⟩, ⟨0, 1, some (4 / 3)⟩] := by decide +kernel
  have isFirst : ahead.truncate 4 Criterion.pareto.compare = (kept, .ok (rows (4 / 3))) :=
    truncate_eq_ok survive
  obtain ⟨f, -, again⟩ := twice kept _ isFirst
  obtain ⟨rows₂, second, -⟩ := again 9 (by decide)
  have survive' : survivors Criterion.pareto.compare kept.members 9 = .ok (rows 2) := by
    decide +kernel
  obtain ⟨-, isOk⟩ := Prod.mk.inj (second.symm.trans (truncate_eq_ok survive'))
  refine ⟨kept, isFirst, second.trans ?_⟩
  rw [isOk]
  rfl

end ParetoFront
