import ParetoFront.Proofs.Fronts.Sorting
import ParetoFront.Proofs.Ranking.Crowding

/-!
# Rank tables hold the rows of the fronts

A rank table is filled front by front. Every position is in one front, so each row is filled once,
and the rows of a rank, read off the finished table from top to bottom, are the rows of the front of
this rank.

## Main definitions

- `Fronts.rows` — the rows of the front of a rank
- `Fronts.table` — the table filled with the rows of all fronts

## Main statements

- `isLE_crowdedCompare_iff` — smaller ranks come first, then larger distances
- `getElem?_fillDistances_of_mem` — what filling does to a row
- `Fronts.IsPeelingOf.rankTable_eq_ok` — the table is computed without a fault
- `Fronts.IsPeelingOf.filter_table` — its rows of a rank are those of the front
-/

namespace ParetoFront

/-! ### Preference between rows -/

theorem isLE_crowdedCompare_iff {a b : Ranked} :
    (crowdedCompare a b).isLE = true ↔
      a.rank < b.rank ∨ a.rank = b.rank ∧ distanceKey b.distance ≤ distanceKey a.distance := by
  rw [crowdedCompare]
  obtain before | same | after := Nat.lt_trichotomy a.rank b.rank
  · rw [Nat.compare_eq_lt.2 before]
    exact iff_of_true rfl (.inl before)
  · rw [Nat.compare_eq_eq.2 same, Ordering.eq_then, Int.isLE_compare]
    omega
  · rw [Nat.compare_eq_gt.2 after]
    exact iff_of_false Bool.false_ne_true (by omega)

theorem isLE_crowdedCompare_trans (a b c : Ranked) (h₁ : (crowdedCompare a b).isLE = true)
    (h₂ : (crowdedCompare b c).isLE = true) : (crowdedCompare a c).isLE = true := by
  rw [isLE_crowdedCompare_iff] at *
  omega

theorem isLE_crowdedCompare_total (a b : Ranked) :
    (crowdedCompare a b).isLE = true ∨ (crowdedCompare b a).isLE = true := by
  rw [isLE_crowdedCompare_iff, isLE_crowdedCompare_iff]
  omega

/-! ### Filling a table -/

section Filling

variable {table rows : List Ranked} {row : Ranked}

/-- A row is filled with the distance of the row of its position. -/
theorem getElem?_fillDistances_of_mem (distinct : (rows.map Ranked.index).Nodup)
    (member : row ∈ rows) :
    (fillDistances table rows)[row.index]? =
      table[row.index]?.map fun old => { old with distance := row.distance } :=
  getElem?_foldl_modify_of_mem distinct member

/-- Ranks and positions stay as they are. -/
theorem map_fillDistances (table rows : List Ranked) :
    (fillDistances table rows).map (fun row => (row.rank, row.index)) =
      table.map fun row => (row.rank, row.index) := by
  rw [fillDistances]
  induction rows generalizing table with
  | nil => rfl
  | cons row rows ih =>
    rw [List.foldl_cons, ih]
    refine List.ext_getElem? fun j => ?_
    rw [List.getElem?_map, List.getElem?_map, List.getElem?_modify]
    cases table[j]? with
    | none => rfl
    | some old => by_cases here : row.index = j <;> simp [here]

end Filling

/-! ### The table of a pool -/

/-- The rows of the front of rank `r`; there are none beyond the last front. -/
def Fronts.rows (f : Fronts) (pool : List Solution) (r : Nat) : List Ranked :=
  rowsOf pool r (f.front r)

variable {compare : Comparator} {pool : List Solution} {w : Widths} {f : Fronts}
  {beats : Nat → Nat → Bool}

theorem Fronts.IsPeelingOf.map_index_rows (h : f.IsPeelingOf beats pool.length)
    (accepted : commonWidths pool = .ok w) (r : Nat) :
    (f.rows pool r).map Ranked.index = f.front r :=
  map_index_rowsOf accepted (fun _ member => h.lt_of_mem_front member) r

/-- The rows of all fronts. -/
def Fronts.groups (f : Fronts) (pool : List Solution) : List (List Ranked) :=
  (List.range f.count).map (f.rows pool)

theorem Fronts.getD_groups (f : Fronts) (pool : List Solution) (r : Nat) :
    (f.groups pool).getD r [] = f.rows pool r := by
  rw [groups, List.getD_eq_getElem?_getD, List.getElem?_map]
  by_cases within : r < f.count
  · rw [List.getElem?_range within]
    rfl
  · rw [List.getElem?_eq_none (by simpa using within), rows,
      front_eq_nil (Nat.le_of_not_lt within)]
    rfl

theorem Fronts.map_zipIdx_rowsOf (f : Fronts) (pool : List Solution) :
    (f.fronts.zipIdx.map fun (front, rank) => rowsOf pool rank front) = f.groups pool := by
  refine List.ext_getElem (by simp [groups, count]) ?_
  intro r within _
  have inside : r < f.fronts.length := by simpa using within
  simp [groups, rows, front_eq_getElem inside]

/-- The table filled with the rows of all fronts. -/
def Fronts.table (f : Fronts) (pool : List Solution) : List Ranked :=
  fillDistances (f.ranks.zipIdx.map fun (rank, index) => ⟨index, rank, some 0⟩)
    (f.groups pool).flatten

theorem Fronts.map_table (f : Fronts) (pool : List Solution) :
    (f.table pool).map (fun row => (row.rank, row.index)) = f.ranks.zipIdx := by
  rw [table, map_fillDistances, List.map_map]
  exact List.map_id _

theorem Fronts.map_front_range (f : Fronts) : (List.range f.count).map f.front = f.fronts := by
  refine List.ext_getElem (by simp [count]) ?_
  intro r _ inside
  rw [List.getElem_map, List.getElem_range, front_eq_getElem inside]

namespace Fronts.IsPeelingOf

variable (h : f.IsPeelingOf beats pool.length)
include h

theorem map_index_flatten_groups (accepted : commonWidths pool = .ok w) :
    (f.groups pool).flatten.map Ranked.index = f.fronts.flatten := by
  rw [List.map_flatten, groups, List.map_map, ← f.map_front_range]
  refine congrArg List.flatten (List.map_congr_left fun r _ => ?_)
  exact h.map_index_rows accepted r

theorem ranks_of_mem_rows (accepted : commonWidths pool = .ok w) {r : Nat} {row : Ranked}
    (member : row ∈ f.rows pool r) : row.rank = r ∧ f.ranks[row.index]? = some r := by
  refine ⟨rank_of_mem_rowsOf member, (h.rank_iff row.index r).2 ?_⟩
  rw [← h.map_index_rows accepted r]
  exact List.mem_map_of_mem member

theorem rankTable_eq_ok (accepted : commonWidths pool = .ok w)
    (sorted : sortIntoFronts compare pool = .ok f) :
    rankTable compare pool = .ok (f.table pool) := by
  have filled : f.fronts.zipIdx.mapM (fun (front, rank) => frontRows pool rank front) =
      .ok (f.groups pool) := by
    rw [← f.map_zipIdx_rowsOf]
    refine mapM_eq_ok fun (front, rank) placed => frontRows_eq_ok accepted (fun i member => ?_) rank
    rw [List.mem_zipIdx_iff_getElem?] at placed
    exact h.lt_of_mem_fronts (List.mem_of_getElem? placed) member
  simp only [rankTable, sorted, bind, Except.bind, filled]
  rfl

/-- From top to bottom the rows are those of the positions of the pool. -/
theorem map_index_table : (f.table pool).map Ranked.index = List.range pool.length := by
  have positions := congrArg (List.map Prod.snd) (f.map_table pool)
  rwa [List.map_map, List.zipIdx_map_snd, h.length_ranks, ← List.range_eq_range'] at positions

/-- The rows of the fronts are in the table, each at its position. -/
theorem getElem?_table (accepted : commonWidths pool = .ok w) {r : Nat} {row : Ranked}
    (member : row ∈ f.rows pool r) : (f.table pool)[row.index]? = some row := by
  obtain ⟨rfl, ranked⟩ := h.ranks_of_mem_rows accepted member
  have distinct : ((f.groups pool).flatten.map Ranked.index).Nodup := by
    rw [h.map_index_flatten_groups accepted]
    exact h.flatten_perm.nodup_iff.2 List.nodup_range
  have inside : row ∈ (f.groups pool).flatten := by
    refine List.mem_flatten_of_mem (List.mem_map_of_mem ?_) member
    exact List.mem_range.2 (h.lt_count ranked)
  rw [table, getElem?_fillDistances_of_mem distinct inside, List.getElem?_map, List.getElem?_zipIdx,
    ranked, Option.map_some, Option.map_some, Option.map_some, Nat.zero_add]

theorem getElem?_table_of_mem {row : Ranked} (member : row ∈ f.table pool) :
    (f.table pool)[row.index]? = some row := by
  obtain ⟨i, atI⟩ := List.mem_iff_getElem?.1 member
  have position := congrArg (fun positions => positions[i]?) h.map_index_table
  simp only [List.getElem?_map, atI, Option.map_some] at position
  obtain ⟨_, here⟩ := List.getElem?_eq_some_iff.1 position.symm
  rw [List.getElem_range] at here
  exact here ▸ atI

theorem map_index_filter_table (r : Nat) :
    ((f.table pool).filter fun row => row.rank = r).map Ranked.index = f.front r := by
  have part : ((f.table pool).filter fun row => row.rank = r).map Ranked.index =
      (((f.table pool).map fun row => (row.rank, row.index)).filter fun p => p.1 = r).map
        Prod.snd := by
    rw [List.filter_map, List.map_map]
    rfl
  have ascending : (f.ranks.zipIdx.map Prod.snd).Pairwise (· < ·) := by
    rw [List.zipIdx_map_snd]
    exact List.pairwise_lt_range'
  rw [part, f.map_table]
  refine List.Pairwise.eq_of_mem_iff (ascending.sublist (List.filter_sublist.map _))
    (h.pairwise_front r) fun i => ?_
  rw [← h.rank_iff, List.mem_map]
  simp only [List.mem_filter, List.mem_zipIdx_iff_getElem?, decide_eq_true_eq, Prod.exists,
    exists_eq_right]

/-- The rows of a rank are those of the front. -/
theorem filter_table (accepted : commonWidths pool = .ok w) (r : Nat) :
    ((f.table pool).filter fun row => row.rank = r) = f.rows pool r := by
  -- a part of the table is known by the positions of its rows
  have known {rows : List Ranked} (placed : ∀ row ∈ rows, (f.table pool)[row.index]? = some row) :
      rows.map some = (rows.map Ranked.index).map fun i => (f.table pool)[i]? := by
    rw [List.map_map]
    exact List.map_congr_left fun row member => (placed row member).symm
  refine List.map_injective_iff.2 (Option.some_injective Ranked) ?_
  rw [known fun row member => h.getElem?_table_of_mem (List.mem_of_mem_filter member),
    known fun row member => h.getElem?_table accepted member, h.map_index_rows accepted,
    h.map_index_filter_table]

end Fronts.IsPeelingOf

end ParetoFront
