import ParetoFront.Proofs.Ranking.RankTable
import ParetoFront.Proofs.Ranking.StableSort
import ParetoFront.Survivors

/-!
# Survivors are the first rows of the sorted table

The survivors of a pool are found front by front, and no front is looked at once all places are
filled. They are nonetheless the first rows of the whole rank table, sorted by the preference
between rows: the sorted table is the concatenation of its fronts, each of them sorted by distance.

## Main definitions

- `bySpread` — rows in the order in which they are chosen
- `fillPlaces` — the rows that a number of places leaves

## Main statements

- `takeFronts_eq_ok` — the walk over the fronts fills the places
- `fillPlaces_perm`, `exists_cut` — the rows chosen, and where the fronts are cut
- `Fronts.IsPeelingOf.mergeSort_table` — the sorted table
- `survivors_eq_top` — the survivors are its first rows
-/

namespace ParetoFront

/-! ### Rows as they are chosen -/

/-- The row with the larger distance is chosen first. -/
def spreadLE (a b : Ranked) : Bool :=
  decide (distanceKey b.distance ≤ distanceKey a.distance)

/-- Rows in the order in which they are chosen. -/
def bySpread (rows : List Ranked) : List Ranked :=
  stableSort spreadLE rows

theorem bySpread_perm (rows : List Ranked) : (bySpread rows).Perm rows :=
  stableSort_perm _ rows

theorem mostSpread_eq (places : Nat) (rows : List Ranked) :
    mostSpread places rows = (bySpread rows).take places :=
  rfl

/-! ### Places -/

/-- Fills places with groups of rows: whole groups while they fit, then from the first that does not
fit the rows of the largest distances. -/
def fillPlaces : Nat → List (List Ranked) → List Ranked
  | _, [] => []
  | places, rows :: later =>
    if rows.length > places then mostSpread places rows
    else rows ++ fillPlaces (places - rows.length) later

@[simp] theorem fillPlaces_zero (groups : List (List Ranked)) : fillPlaces 0 groups = [] := by
  induction groups with
  | nil => rfl
  | cons rows later ih =>
    rw [fillPlaces]
    by_cases some : rows.length > 0
    · rw [if_pos some]
      rfl
    · rw [if_neg some, List.eq_nil_of_length_eq_zero (Nat.eq_zero_of_not_pos some)]
      exact ih

/-- The rows chosen are the first ones of the groups in the order in which rows are chosen. -/
theorem fillPlaces_perm (places : Nat) (groups : List (List Ranked)) :
    (fillPlaces places groups).Perm ((groups.map bySpread).flatten.take places) := by
  induction groups generalizing places with
  | nil => rw [fillPlaces, List.map_nil, List.flatten_nil, List.take_nil]
  | cons rows later ih =>
    have length : (bySpread rows).length = rows.length := (bySpread_perm rows).length_eq
    rw [fillPlaces, List.map_cons, List.flatten_cons, List.take_append, length]
    by_cases cut : rows.length > places
    · rw [if_pos cut, Nat.sub_eq_zero_of_le (Nat.le_of_lt cut), List.take_zero, List.append_nil,
        mostSpread_eq]
    · rw [if_neg cut, List.take_of_length_le (by omega)]
      exact (bySpread_perm rows).symm.append (ih _)

theorem flatten_map_bySpread_perm (groups : List (List Ranked)) :
    (groups.map bySpread).flatten.Perm groups.flatten := by
  induction groups with
  | nil => exact .refl _
  | cons rows later ih => exact (bySpread_perm rows).append ih

theorem length_fillPlaces (places : Nat) (groups : List (List Ranked)) :
    (fillPlaces places groups).length = min places groups.flatten.length := by
  rw [(fillPlaces_perm places groups).length_eq, List.length_take,
    (flatten_map_bySpread_perm groups).length_eq]

theorem fillPlaces_subperm (places : Nat) (groups : List (List Ranked)) :
    (fillPlaces places groups).Subperm groups.flatten := by
  have first : ((groups.map bySpread).flatten.take places).Subperm
      (groups.map bySpread).flatten := (List.take_sublist _ _).subperm
  exact (fillPlaces_perm places groups).subperm.trans
    (first.trans (flatten_map_bySpread_perm groups).subperm)

/-- The groups are kept whole up to one, of which only a part is kept. -/
theorem exists_cut (places : Nat) (groups : List (List Ranked)) :
    ∃ cut m, cut ≤ groups.length ∧ (m = 0 ∨ m < (groups.getD cut []).length) ∧
      fillPlaces places groups =
        (groups.take cut).flatten ++ mostSpread m (groups.getD cut []) := by
  induction groups generalizing places with
  | nil => exact ⟨0, 0, Nat.le_refl 0, .inl rfl, rfl⟩
  | cons rows later ih =>
    rw [fillPlaces]
    by_cases cut : rows.length > places
    · rw [if_pos cut]
      exact ⟨0, places, Nat.zero_le _, .inr cut, rfl⟩
    · obtain ⟨cut', m, within, part, rest⟩ := ih (places - rows.length)
      refine ⟨cut' + 1, m, Nat.succ_le_succ within, part, ?_⟩
      rw [if_neg cut, rest, List.take_succ_cons, List.flatten_cons, List.append_assoc]
      rfl

variable {compare : Comparator} {pool : List Solution} {w : Widths} {f : Fronts}
  {beats : Nat → Nat → Bool}

/-! ### The walk over the fronts -/

theorem takeFronts_eq_ok (accepted : commonWidths pool = .ok w) {k rank : Nat}
    {fronts : List (List Nat)} (inside : ∀ front ∈ fronts, ∀ i ∈ front, i < pool.length)
    {kept : List Ranked} (room : kept.length ≤ k) :
    takeFronts pool k rank fronts kept =
      .ok (kept ++ fillPlaces (k - kept.length)
        ((fronts.zipIdx rank).map fun (front, rank) => rowsOf pool rank front)) := by
  induction fronts generalizing rank kept with
  | nil => rw [takeFronts, List.zipIdx_nil, List.map_nil, fillPlaces, List.append_nil]
  | cons front later ih =>
    obtain ⟨first, others⟩ := List.forall_mem_cons.1 inside
    simp only [takeFronts, takeFrom, if_pos room, frontRows_eq_ok accepted first, bind, Except.bind]
    rw [List.zipIdx_cons, List.map_cons, fillPlaces]
    generalize rowsOf pool rank front = rows
    by_cases cut : rows.length > k - kept.length
    · have full : (mostSpread (k - kept.length) rows).length = k - kept.length := by
        rw [mostSpread_eq, List.length_take, (bySpread_perm rows).length_eq]
        omega
      rw [if_pos cut, if_pos cut, if_pos (by rw [List.length_append, full]; omega)]
      rfl
    · rw [if_neg cut, if_neg cut]
      by_cases full : (kept ++ rows).length = k
      · -- no places are left, so that the later fronts add nothing
        have none : k - kept.length - rows.length = 0 := by
          rw [List.length_append] at full
          omega
        rw [if_pos full, none, fillPlaces_zero, List.append_nil]
        rfl
      · rw [List.length_append] at full
        rw [if_neg (by rwa [List.length_append]),
          ih others (by rw [List.length_append]; omega), List.length_append, List.append_assoc,
          Nat.sub_add_eq]

/-! ### The whole pool -/

namespace Fronts.IsPeelingOf

variable (h : f.IsPeelingOf beats pool.length)
include h

theorem length_flatten_groups (accepted : commonWidths pool = .ok w) :
    (f.groups pool).flatten.length = pool.length := by
  rw [← List.length_map Ranked.index, h.map_index_flatten_groups accepted, h.flatten_perm.length_eq,
    List.length_range]

/-- The survivors fill as many places as there are. -/
theorem survivors_eq_ok (accepted : commonWidths pool = .ok w)
    (sorted : sortIntoFronts compare pool = .ok f) (k : Nat) :
    survivors compare pool k = .ok (fillPlaces (min pool.length k) (f.groups pool)) := by
  have walk : takeFronts pool (min pool.length k) 0 f.fronts [] =
      .ok (fillPlaces (min pool.length k) (f.groups pool)) := by
    rw [takeFronts_eq_ok accepted (fun _ part _ => h.lt_of_mem_fronts part) (Nat.zero_le _),
      f.map_zipIdx_rowsOf]
    rfl
  have full : (fillPlaces (min pool.length k) (f.groups pool)).length = min pool.length k := by
    rw [length_fillPlaces, h.length_flatten_groups accepted]
    omega
  by_cases none : min pool.length k = 0
  · simp only [survivors, accepted, orFault, bind, Except.bind, none, fillPlaces_zero]
    rfl
  · simp only [survivors, accepted, orFault, bind, Except.bind, if_neg none, sorted, walk, full]
    rfl

theorem rank_lt_count {row : Ranked} (member : row ∈ f.table pool) : row.rank < f.count := by
  have pair : (row.rank, row.index) ∈ f.ranks.zipIdx := by
    rw [← f.map_table pool]
    exact List.mem_map_of_mem member
  exact h.lt_count (List.mem_zipIdx_iff_getElem?.1 pair)

/-- In the sorted table the rows of a rank are those of the front as they are chosen. -/
theorem filter_mergeSort_table (accepted : commonWidths pool = .ok w) (r : Nat) :
    (((f.table pool).mergeSort fun a b => (crowdedCompare a b).isLE).filter
        fun row => row.rank = r) =
      bySpread (f.rows pool r) := by
  rw [← stableSort_eq_mergeSort isLE_crowdedCompare_trans isLE_crowdedCompare_total,
    filter_stableSort isLE_crowdedCompare_trans isLE_crowdedCompare_total,
    h.filter_table accepted, bySpread]
  refine stableSort_congr fun a left b right => ?_
  have same : a.rank = b.rank := (rank_of_mem_rowsOf left).trans (rank_of_mem_rowsOf right).symm
  rw [Bool.eq_iff_iff, isLE_crowdedCompare_iff, spreadLE, decide_eq_true_iff, same]
  simp

/-- The sorted table is the concatenation of the fronts, each in the order in which its rows are
chosen. -/
theorem mergeSort_table (accepted : commonWidths pool = .ok w) :
    ((f.table pool).mergeSort fun a b => (crowdedCompare a b).isLE) =
      ((f.groups pool).map bySpread).flatten := by
  have total (a b : Ranked) : ((crowdedCompare a b).isLE || (crowdedCompare b a).isLE) = true := by
    simpa using isLE_crowdedCompare_total a b
  have ascending := (List.pairwise_mergeSort isLE_crowdedCompare_trans total (f.table pool)).imp
    (S := fun a b => a.rank ≤ b.rank) fun {a b} preferred => by
      rw [isLE_crowdedCompare_iff] at preferred
      omega
  have bounded : ∀ row ∈ (f.table pool).mergeSort fun a b => (crowdedCompare a b).isLE,
      row.rank < f.count := fun row member =>
    h.rank_lt_count ((List.mergeSort_perm _ _).subset member)
  rw [eq_flatMap_filter ascending bounded, groups, List.map_map, List.flatMap_def]
  refine congrArg List.flatten (List.map_congr_left fun r _ => ?_)
  exact h.filter_mergeSort_table accepted r

end Fronts.IsPeelingOf

/-- The survivors are the fronts before one, and of this one the rows chosen first. -/
theorem Fronts.exists_fillPlaces_eq (f : Fronts) (pool : List Solution) (places : Nat) :
    ∃ cut m, (m = 0 ∨ m < (f.rows pool cut).length) ∧
      fillPlaces places (f.groups pool) =
        (List.range cut).flatMap (f.rows pool) ++ (bySpread (f.rows pool cut)).take m := by
  obtain ⟨cut, m, within, part, rows⟩ := exists_cut places (f.groups pool)
  rw [f.getD_groups] at part rows
  refine ⟨cut, m, part, ?_⟩
  rw [groups, List.length_map, List.length_range] at within
  rw [rows, mostSpread_eq, groups, ← List.map_take, List.take_range, Nat.min_eq_left within,
    List.flatMap_def]

/-- Survivors are ordered by rank. -/
theorem Fronts.pairwise_rank_fillPlaces (f : Fronts) (pool : List Solution) (places : Nat) :
    (fillPlaces places (f.groups pool)).Pairwise fun a b => a.rank ≤ b.rank := by
  obtain ⟨cut, m, -, rows⟩ := f.exists_fillPlaces_eq pool places
  have rank_eq {r : Nat} {a : Ranked} (member : a ∈ f.rows pool r) : a.rank = r :=
    rank_of_mem_rowsOf member
  have rank_cut {a : Ranked} (member : a ∈ (bySpread (f.rows pool cut)).take m) : a.rank = cut :=
    rank_eq ((bySpread_perm _).subset (List.mem_of_mem_take member))
  rw [rows, List.pairwise_append, List.pairwise_flatMap]
  refine ⟨⟨fun r _ => ?_, ?_⟩, ?_, fun a kept b chosen => ?_⟩
  · exact List.pairwise_of_forall_mem_list fun a left b right =>
      Nat.le_of_eq ((rank_eq left).trans (rank_eq right).symm)
  · refine List.pairwise_lt_range.imp fun before a left b right => ?_
    rw [rank_eq left, rank_eq right]
    exact Nat.le_of_lt before
  · exact List.pairwise_of_forall_mem_list fun a left b right =>
      Nat.le_of_eq ((rank_cut left).trans (rank_cut right).symm)
  · obtain ⟨r, within, member⟩ := List.mem_flatMap.1 kept
    rw [rank_eq member, rank_cut chosen]
    exact Nat.le_of_lt (List.mem_range.1 within)

/-- The survivors of a pool are the first rows of the rank table, stably sorted by the preference
between rows. They are different rows in the order of rank; the fronts that are kept whole are in
the order of the pool, and the one that is cut is in the order of the sorted table. -/
theorem survivors_eq_top (compare : Comparator) (pool : List Solution) (w : Widths) (k : Nat)
    (accepted : commonWidths pool = .ok w) (answers : compare.AnswersOn pool) :
    ∃ f table rows, sortIntoFronts compare pool = .ok f ∧ rankTable compare pool = .ok table ∧
      survivors compare pool k = .ok rows ∧
      let best := table.mergeSort fun a b => (crowdedCompare a b).isLE
      rows.Perm (best.take (min k pool.length)) ∧
      (rows.map Ranked.index).Nodup ∧
      rows.Pairwise (fun a b => a.rank ≤ b.rank) ∧
      table.map Ranked.index = List.range pool.length ∧
      (∀ r, (table.filter fun row => row.rank = r).map Ranked.index = f.front r ∧
        (f.front r).Pairwise (· < ·)) ∧
      ∃ cut m, (m = 0 ∨ m < (f.front cut).length) ∧
        rows = ((List.range cut).flatMap fun r => table.filter fun row => row.rank = r) ++
          (best.filter fun row => row.rank = cut).take m := by
  obtain ⟨f, sorted, h⟩ := sortIntoFronts_eq_ok_of_answersOn accepted answers
  refine ⟨f, f.table pool, _, sorted, h.rankTable_eq_ok accepted sorted,
    h.survivors_eq_ok accepted sorted k, ?_⟩
  intro best
  have top : (fillPlaces (min pool.length k) (f.groups pool)).Perm
      (best.take (min k pool.length)) := by
    show List.Perm _ (((f.table pool).mergeSort fun a b => (crowdedCompare a b).isLE).take _)
    rw [h.mergeSort_table accepted, Nat.min_comm k]
    exact fillPlaces_perm _ _
  refine ⟨top, ?_, f.pairwise_rank_fillPlaces pool _, h.map_index_table, fun r => ⟨?_, ?_⟩, ?_⟩
  · have part : ((best.take (min k pool.length)).map Ranked.index).Sublist
        (best.map Ranked.index) := (List.take_sublist _ _).map _
    have all : (best.map Ranked.index).Perm (List.range pool.length) := by
      rw [← h.map_index_table]
      exact (List.mergeSort_perm _ _).map _
    exact (top.map _).nodup_iff.2 ((all.nodup_iff.2 List.nodup_range).sublist part)
  · rw [h.filter_table accepted, h.map_index_rows accepted]
  · exact h.pairwise_front r
  · obtain ⟨cut, m, part, rows⟩ := f.exists_fillPlaces_eq pool (min pool.length k)
    refine ⟨cut, m, ?_, ?_⟩
    · rwa [← h.map_index_rows accepted, List.length_map]
    · show _ = _ ++ ((((f.table pool).mergeSort _).filter _).take m)
      rw [rows, h.filter_mergeSort_table accepted]
      refine congrArg (· ++ _) (List.flatMap_congr fun r _ => (h.filter_table accepted r).symm)

/-- The cycle is cut: of its three members at equal rank one of the two at the ends is kept. -/
theorem survivors_eq_top_players :
    ∃ table rows, rankTable (fun a b => .ok (playGame a b)) players = .ok table ∧
      survivors (fun a b => .ok (playGame a b)) players 4 = .ok rows ∧
      rows.map Ranked.index = [3, 4, 5, 0] ∧
      rows.Perm ((table.mergeSort fun a b => (crowdedCompare a b).isLE).take 4) := by
  obtain ⟨f, table, rows, -, tabled, isOk, top, -⟩ := survivors_eq_top
    (fun a b => .ok (playGame a b)) players ⟨1, 0⟩ 4 rfl
    (Comparator.AntisymmetricOn.of_relation (by decide)).answersOn
  have value : rows = [⟨3, 0, some infinite⟩, ⟨4, 0, some infinite⟩, ⟨5, 1, some infinite⟩,
      ⟨0, 2, some infinite⟩] := Except.ok.inj (isOk.symm.trans rfl)
  refine ⟨table, rows, tabled, isOk, ?_, top⟩
  rw [value]
  rfl

end ParetoFront
