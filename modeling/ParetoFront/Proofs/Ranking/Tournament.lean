import Mathlib.Data.List.Induction
import Mathlib.Data.List.Iterate
import Mathlib.Data.List.Perm.Basic
import ParetoFront.Proofs.Number.Extremes
import ParetoFront.Proofs.Ranking.RankTable
import ParetoFront.Selection

/-!
# The winner of a tournament

Rows are preferred by a total preorder, in which two rows tie exactly when they agree on rank and
distance. Of the rows that a tournament draws, those that no drawn row is preferred to all tie, and
the earliest of them wins. The order of the draws therefore decides among tied rows only.

## Main definitions

- `crowdedBest` — the earliest row of a list that no row of the list is preferred to
- `drawnPositions` — the positions that a generator draws in turn

## Main statements

- `crowdedCompare_eq_eq_iff` — rows tie when rank and distance are the same
- `crowdedBest_cons` — keeping a running winner finds the best row
- `Selection.select_tournament` — the winner is the best of the drawn rows
-/

namespace ParetoFront

/-! ### Ties -/

variable {a b : Ranked}

theorem crowdedCompare_swap (a b : Ranked) : (crowdedCompare a b).swap = crowdedCompare b a := by
  rw [crowdedCompare, crowdedCompare, Ordering.swap_then, Nat.compare_swap, Int.compare_swap]

/-- The place below all numbers is for an undefined distance alone. -/
theorem distanceKey_injective : Function.Injective distanceKey := by
  have below (d : Float) : distanceKey none < distanceKey (some d) := by
    have bound := d.toBits.toNat_lt
    simp only [distanceKey, Number.totalKey]
    split <;> omega
  intro d d' same
  cases d with
  | none =>
    cases d' with
    | none => rfl
    | some d' => exact absurd same (Int.ne_of_lt (below d'))
  | some d =>
    cases d' with
    | none => exact absurd same.symm (Int.ne_of_lt (below d))
    | some d' => exact congrArg some (Number.totalKey_injective same)

theorem crowdedCompare_eq_eq_iff :
    crowdedCompare a b = .eq ↔ a.rank = b.rank ∧ a.distance = b.distance := by
  rw [crowdedCompare, Ordering.then_eq_eq, Nat.compare_eq_eq, Int.compare_eq_eq,
    distanceKey_injective.eq_iff, @eq_comm _ b.distance]

instance : Std.TransCmp crowdedCompare where
  eq_swap := (crowdedCompare_swap _ _).symm
  isLE_trans := isLE_crowdedCompare_trans _ _ _

/-- A row that another one is not preferred to is at least as good. -/
theorem crowdedCompare_ne_lt_iff : crowdedCompare a b ≠ .lt ↔ (crowdedCompare b a).isLE = true := by
  rw [← Ordering.ne_gt_iff_isLE, Std.OrientedCmp.gt_iff_lt]

/-! ### The best of some rows -/

/-- The earliest of the rows that no row is preferred to. -/
def crowdedBest (rows : List Ranked) : Option Ranked :=
  rows.find? fun row => rows.all fun other => crowdedCompare other row ≠ .lt

variable {rows rows' : List Ranked}

/-- Every earlier row loses to the best row, and no later row is preferred to it. -/
theorem crowdedBest_eq_some_iff :
    crowdedBest rows = some b ↔
      ∃ earlier later, rows = earlier ++ b :: later ∧
        (∀ row ∈ earlier, crowdedCompare b row = .lt) ∧
          ∀ row ∈ later, (crowdedCompare b row).isLE = true := by
  simp only [crowdedBest, List.find?_eq_some_iff_append, Bool.not_eq_true', ← Bool.not_eq_true,
    List.all_eq_true, decide_eq_true_eq, not_forall, exists_prop, crowdedCompare_ne_lt_iff]
  constructor
  · rintro ⟨best, earlier, later, rfl, beaten⟩
    refine ⟨earlier, later, rfl, fun row member => ?_, fun row member => ?_⟩
    · obtain ⟨other, among, better⟩ := beaten row member
      exact Std.TransCmp.lt_of_isLE_of_lt (best other among) (Std.OrientedCmp.lt_of_not_isLE better)
    · exact best row (List.mem_append_right _ (List.mem_cons_of_mem _ member))
  · rintro ⟨earlier, later, rfl, beaten, best⟩
    refine ⟨?_, earlier, later, rfl, fun row member => ?_⟩
    · refine List.forall_mem_append.2 ⟨fun row member => ?_, List.forall_mem_cons.2 ⟨?_, best⟩⟩
      · exact Ordering.isLE_of_eq_lt (beaten row member)
      · exact Std.ReflCmp.isLE_rfl
    · refine ⟨b, List.mem_append_right _ List.mem_cons_self, ?_⟩
      exact Std.OrientedCmp.not_isLE_of_lt (beaten row member)

/-- A new row takes the place of the best one when it is preferred to it. -/
theorem crowdedBest_concat (best : crowdedBest rows = some b) (c : Ranked) :
    crowdedBest (rows ++ [c]) = some (if crowdedCompare c b = .lt then c else b) := by
  obtain ⟨earlier, later, rfl, beaten, least⟩ := crowdedBest_eq_some_iff.1 best
  rw [crowdedBest_eq_some_iff]
  split
  next better =>
    refine ⟨earlier ++ b :: later, [], rfl, ?_, List.forall_mem_nil _⟩
    refine List.forall_mem_append.2 ⟨fun row member => ?_, List.forall_mem_cons.2 ⟨better, ?_⟩⟩
    · exact Std.TransCmp.lt_trans better (beaten row member)
    · exact fun row member => Std.TransCmp.lt_of_lt_of_isLE better (least row member)
  next notBetter =>
    refine ⟨earlier, later ++ [c], by rw [List.append_assoc, List.cons_append], beaten, ?_⟩
    refine List.forall_mem_append.2 ⟨least, List.forall_mem_singleton.2 ?_⟩
    exact crowdedCompare_ne_lt_iff.1 notBetter

/-- Keeping a running winner finds the best row. -/
theorem crowdedBest_cons (first : Ranked) (challengers : List Ranked) :
    crowdedBest (first :: challengers) = some (tournamentWinner first challengers) := by
  induction challengers using List.reverseRecOn with
  | nil =>
    exact crowdedBest_eq_some_iff.2 ⟨[], [], rfl, List.forall_mem_nil _, List.forall_mem_nil _⟩
  | append_singleton challengers c ih =>
    rw [tournamentWinner, List.foldl_concat]
    exact crowdedBest_concat ih c

theorem mem_of_crowdedBest (best : crowdedBest rows = some b) : b ∈ rows :=
  List.mem_of_find?_eq_some best

theorem isLE_of_crowdedBest (best : crowdedBest rows = some b) {row : Ranked}
    (member : row ∈ rows) : (crowdedCompare b row).isLE = true := by
  have unbeaten := List.find?_some best
  simp only [List.all_eq_true, decide_eq_true_eq] at unbeaten
  exact crowdedCompare_ne_lt_iff.1 (unbeaten row member)

/-- In another order of the rows, the best one ties with the best one. -/
theorem same_of_crowdedBest_of_perm (best : crowdedBest rows = some a)
    (best' : crowdedBest rows' = some b) (perm : rows.Perm rows') :
    a.rank = b.rank ∧ a.distance = b.distance := by
  rw [← crowdedCompare_eq_eq_iff]
  have forwards := isLE_of_crowdedBest best (perm.mem_iff.2 (mem_of_crowdedBest best'))
  have backwards := isLE_of_crowdedBest best' (perm.mem_iff.1 (mem_of_crowdedBest best))
  exact Std.OrientedCmp.isLE_antisymm forwards backwards

/-! ### Draws -/

section Draws

variable {σ : Type}

/-- The positions that a generator gives in `m` draws, each below `n`. -/
def drawnPositions (draw : σ → Nat → Nat × σ) (n m : Nat) (s : σ) : List Nat :=
  (List.iterate (fun s => (draw s n).2) s m).map fun s => (draw s n).1

/-- The state of a generator after `m` draws. -/
def afterDraws (draw : σ → Nat → Nat × σ) (n m : Nat) (s : σ) : σ :=
  (fun s => (draw s n).2)^[m] s

variable {draw : σ → Nat → Nat × σ} {table : List Ranked}

/-- Draws in range give rows, and one of them is the best. -/
theorem exists_drawn {n m : Nat} {s : σ} (positive : 0 < m)
    (inRange : ∀ i ∈ drawnPositions draw n m s, i < table.length) :
    ∃ rows best,
      rows.map some = (drawnPositions draw n m s).map (fun i => table[i]?) ∧
        crowdedBest rows = some best := by
  obtain ⟨rows, found⟩ : ∃ rows : List Ranked,
      rows.map some = (drawnPositions draw n m s).map fun i => table[i]? := by
    refine ⟨(drawnPositions draw n m s).pmap (fun i within => table.get ⟨i, within⟩) inRange, ?_⟩
    rw [List.map_pmap, ← List.pmap_eq_map inRange]
    exact List.pmap_congr_left _ fun i _ within _ => (List.getElem?_eq_getElem within).symm
  have many : rows.length = m := by
    simpa only [drawnPositions, List.length_map, List.length_iterate] using
      congrArg List.length found
  obtain ⟨first, challengers, rfl⟩ := List.exists_cons_of_length_pos (many ▸ positive)
  exact ⟨_, _, found, crowdedBest_cons first challengers⟩

theorem drawRow_eq_ok {row : Ranked} {s : σ} (drawn : table[(draw s table.length).1]? = some row) :
    drawRow draw table s = .ok (row, (draw s table.length).2) := by
  simp only [drawRow, elementAt, drawn]
  rfl

/-- As many rows are drawn as asked for, each with a draw of its own. -/
theorem drawRows_eq_ok {m : Nat} {s : σ}
    (drawn : rows.map some = (drawnPositions draw table.length m s).map fun i => table[i]?) :
    drawRows draw table m s = .ok (rows, afterDraws draw table.length m s) := by
  induction m generalizing rows s with
  | zero =>
    obtain rfl := List.map_eq_nil_iff.1 drawn
    rfl
  | succ m ih =>
    obtain ⟨row, rest, rfl, atFirst, others⟩ := List.map_eq_cons_iff.1 drawn
    simp only [drawRows, drawRow_eq_ok atFirst.symm, bind, Except.bind, ih others]
    rfl

theorem Selection.drawCount_pos (selection : Selection) : 0 < selection.drawCount := by
  cases selection with
  | tournament size => exact Nat.lt_of_lt_of_le Nat.zero_lt_one (Nat.le_max_right size 1)
  | random => exact Nat.zero_lt_one

/-- The choice is the best of the drawn rows. -/
theorem Selection.select_eq_ok {s : σ} {selection : Selection}
    (drawn : rows.map some =
      (drawnPositions draw table.length selection.drawCount s).map fun i => table[i]?)
    (best : crowdedBest rows = some b) :
    selection.select draw table s =
      .ok (b.index, afterDraws draw table.length selection.drawCount s) := by
  rw [← Nat.sub_one_add_one selection.drawCount_pos.ne'] at drawn ⊢
  obtain ⟨first, challengers, rfl, atFirst, others⟩ := List.map_eq_cons_iff.1 drawn
  rw [crowdedBest_cons, Option.some_inj] at best
  have present : table.isEmpty = false :=
    List.isEmpty_eq_false_iff.2 (List.ne_nil_of_mem (List.mem_of_getElem? atFirst.symm))
  simp only [select, present, drawRow_eq_ok atFirst.symm, drawRows_eq_ok others, bind, Except.bind,
    best]
  rfl

end Draws

/-- A tournament draws as often as its size says, at least once, and the winner is the best of the
drawn rows. The same draws in another order give a row that ties with it. -/
theorem Selection.select_tournament {σ : Type} (draw : σ → Nat → Nat × σ) (table : List Ranked)
    (k : Nat) (s : σ)
    (inRange : ∀ i ∈ drawnPositions draw table.length (max k 1) s, i < table.length) :
    (∀ a b, (crowdedCompare a b).isLE = true ∨ (crowdedCompare b a).isLE = true) ∧
      Std.TransCmp crowdedCompare ∧
      (∀ a b, crowdedCompare a b = .eq ↔ a.rank = b.rank ∧ a.distance = b.distance) ∧
      ∃ drawn best,
        drawn.map some = (drawnPositions draw table.length (max k 1) s).map (fun i => table[i]?) ∧
        crowdedBest drawn = some best ∧
        (tournament k).select draw table s =
          .ok (best.index, afterDraws draw table.length (max k 1) s) ∧
        ∀ {τ : Type} (draw' : τ → Nat → Nat × τ) (t : τ),
          (drawnPositions draw' table.length (max k 1) t).Perm
              (drawnPositions draw table.length (max k 1) s) →
            ∃ best' ∈ drawn, best'.rank = best.rank ∧ best'.distance = best.distance ∧
              (tournament k).select draw' table t =
                .ok (best'.index, afterDraws draw' table.length (max k 1) t) := by
  refine ⟨isLE_crowdedCompare_total, inferInstance, fun a b => crowdedCompare_eq_eq_iff, ?_⟩
  have positive : 0 < max k 1 := (tournament k).drawCount_pos
  obtain ⟨drawn, best, found, isBest⟩ := exists_drawn positive inRange
  refine ⟨drawn, best, found, isBest, select_eq_ok found isBest, ?_⟩
  intro τ draw' t perm
  obtain ⟨drawn', best', found', isBest'⟩ :=
    exists_drawn positive fun i member => inRange i (perm.mem_iff.1 member)
  have reordered : drawn'.Perm drawn := by
    rw [← List.map_perm_map_iff (Option.some_injective Ranked), found, found']
    exact perm.map _
  obtain ⟨rank, distance⟩ := same_of_crowdedBest_of_perm isBest' isBest reordered
  exact ⟨best', reordered.mem_iff.1 (mem_of_crowdedBest isBest'), rank, distance,
    select_eq_ok found' isBest'⟩

/-- The third and the fourth row tie at the undefined distance above infinity, and the second one
has the undefined distance below all numbers. -/
def tiedRows : List Ranked :=
  [⟨4, 1, some (1 / 0)⟩, ⟨9, 0, none⟩, ⟨7, 0, some (0 / 0)⟩, ⟨2, 0, some (0 / 0)⟩, ⟨5, 0, some 3⟩]

/-- A generator that follows a script. -/
def scripted (script : List Nat) (_ : Nat) : Nat × List Nat :=
  (script.headD 0, script.tail)

/-- The same draws in another order let the other one of two tied rows win. -/
theorem Selection.select_tournament_tiedRows :
    (∀ i ∈ [0, 4, 2, 1, 3], i < tiedRows.length) ∧
      (tournament 5).select scripted tiedRows [0, 4, 2, 1, 3, 6] = .ok (7, [6]) ∧
      ∃ other ∈ tiedRows, other.rank = 0 ∧ other.distance = some (0 / 0) ∧ other.index = 2 ∧
        (tournament 5).select scripted tiedRows [3, 1, 2, 4, 0, 6] = .ok (other.index, [6]) := by
  have inRange : ∀ i ∈ [0, 4, 2, 1, 3], i < tiedRows.length := by decide
  obtain ⟨-, -, -, drawn, best, found, isBest, selected, reordered⟩ :=
    select_tournament scripted tiedRows 5 [0, 4, 2, 1, 3, 6] inRange
  obtain rfl : drawn = [⟨4, 1, some (1 / 0)⟩, ⟨5, 0, some 3⟩, ⟨7, 0, some (0 / 0)⟩, ⟨9, 0, none⟩,
      ⟨2, 0, some (0 / 0)⟩] :=
    List.map_injective_iff.2 (Option.some_injective Ranked) found
  obtain rfl : best = ⟨7, 0, some (0 / 0)⟩ :=
    Option.some_inj.1 (isBest.symm.trans (by decide +kernel))
  obtain ⟨other, among, rank, distance, selected'⟩ :=
    reordered scripted [3, 1, 2, 4, 0, 6] (by decide)
  have value : (tournament 5).select scripted tiedRows [3, 1, 2, 4, 0, 6] = .ok (2, [6]) := by
    decide +kernel
  refine ⟨inRange, selected, other, ?_, rank, distance, ?_, selected'⟩
  · exact List.Perm.subset (by decide) among
  · exact congrArg Prod.fst (Except.ok.inj (selected'.symm.trans value))

end ParetoFront
