import Mathlib.Data.List.Perm.Subperm
import ParetoFront.Population
import ParetoFront.Proofs.Fronts.Parts
import ParetoFront.Proofs.Ranking.Elitism

/-!
# Truncation moves members

Members that survive are moved out of slots, and an empty slot gives nothing without a word. A
position that stood twice among the survivors, or one beyond the pool, would thus shift all later
members against their rows. For every comparator, survivors are rows of the rank table at different
positions of the pool, so each slot is full when it is its turn. Nothing is moved before the
survivors are found.

## Main definitions

- `Survived` — what is known of survivors under any comparator
- `renumbered` — rows by their places among the survivors

## Main statements

- `survived_of_survivors` — whatever is found to survive
- `moveOut_eq_ok` — slots that are full
- `Population.truncate_eq_ok` — the members after a truncation
- `Population.truncate_moves` — they are where the rows say
-/

namespace ParetoFront

variable {compare : Comparator} {pool : List Solution} {k : Nat} {rows : List Ranked}

/-! ### Survivors under any comparator -/

/-- As many rows of the rank table as there are places, at different positions of the pool. -/
structure Survived (compare : Comparator) (pool : List Solution) (k : Nat) (rows : List Ranked) :
    Prop where
  length : rows.length = min k pool.length
  distinct : (rows.map Ranked.index).Nodup
  inside : ∀ i ∈ rows.map Ranked.index, i < pool.length
  ranked : ∀ row ∈ rows, ∃ table, rankTable compare pool = .ok table ∧
    table[row.index]? = some row

theorem Fronts.IsPeelingOf.survived {w : Widths} {f : Fronts} {beats : Nat → Nat → Bool}
    (h : f.IsPeelingOf beats pool.length) (accepted : commonWidths pool = .ok w)
    (sorted : sortIntoFronts compare pool = .ok f) (k : Nat) :
    Survived compare pool k (fillPlaces (min pool.length k) (f.groups pool)) := by
  have part : ((fillPlaces (min pool.length k) (f.groups pool)).map Ranked.index).Subperm
      (List.range pool.length) := by
    obtain ⟨rows, perm, sublist⟩ := fillPlaces_subperm (min pool.length k) (f.groups pool)
    have chosen := sublist.map Ranked.index
    rw [h.map_index_flatten_groups accepted] at chosen
    exact (perm.map Ranked.index).symm.subperm.trans
      (chosen.subperm.trans h.flatten_perm.subperm)
  refine ⟨?_, ?_, fun i member => List.mem_range.1 (part.subset member), fun row member => ?_⟩
  · rw [length_fillPlaces, h.length_flatten_groups accepted]
    omega
  · obtain ⟨positions, perm, sublist⟩ := part
    exact perm.nodup_iff.1 (List.nodup_range.sublist sublist)
  · exact ⟨_, h.rankTable_eq_ok accepted sorted,
      h.getElem?_table accepted (f.mem_fillPlaces member).1⟩

/-- Whatever the comparator does, survivors that are found are what they should be. -/
theorem survived_of_survivors (found : survivors compare pool k = .ok rows) :
    Survived compare pool k rows := by
  by_cases none : min pool.length k = 0
  · obtain ⟨w, -, found⟩ := bind_eq_ok_iff.1 found
    rw [if_pos none] at found
    obtain rfl := pure_eq_ok_iff.1 found
    exact ⟨by rw [Nat.min_comm, none, List.length_nil], .nil, by simp, by simp⟩
  · have sorts : ∃ f, sortIntoFronts compare pool = .ok f := by
      obtain ⟨w, -, found⟩ := bind_eq_ok_iff.1 found
      rw [if_neg none] at found
      obtain ⟨f, sorted, -⟩ := bind_eq_ok_iff.1 found
      exact ⟨f, sorted⟩
    obtain ⟨f, sorted⟩ := sorts
    obtain ⟨⟨w, accepted⟩, answers⟩ := answersOn_of_sortIntoFronts sorted
    obtain ⟨f, sorted, h⟩ := sortIntoFronts_eq_ok_of_answersOn accepted answers
    obtain rfl := Except.ok.inj ((h.survivors_eq_ok accepted sorted k).symm.trans found)
    exact h.survived accepted sorted k

/-! ### Slots -/

/-- Slots that are full, each of them emptied once, give what is in them. -/
theorem moveOut_eq_ok {α : Type} {xs : List α} {slots : List (Option α)} {positions : List Nat}
    (distinct : positions.Nodup)
    (full : ∀ i ∈ positions, ∃ x, xs[i]? = some x ∧ slots[i]? = some (some x)) :
    moveOut slots positions = .ok (positions.filterMap fun i => xs[i]?) := by
  induction positions generalizing slots with
  | nil => rfl
  | cons i later ih =>
    obtain ⟨fresh, distinct⟩ := List.nodup_cons.1 distinct
    obtain ⟨⟨x, atI, slot⟩, others⟩ := List.forall_mem_cons.1 full
    have rest : moveOut (slots.set i none) later = .ok (later.filterMap fun i => xs[i]?) := by
      refine ih distinct fun j member => ?_
      -- the slot that was emptied is not asked for again
      have apart : i ≠ j := fun same => fresh (same ▸ member)
      rw [List.getElem?_set_ne apart]
      exact others j member
    rw [moveOut, elementAt, slot, List.filterMap_cons, atI, rest]
    rfl

theorem map_some_membersAt {positions : List Nat} (inside : ∀ i ∈ positions, i < pool.length) :
    (membersAt pool positions).map some = positions.map fun i => pool[i]? := by
  induction positions with
  | nil => rfl
  | cons i later ih =>
    obtain ⟨first, others⟩ := List.forall_mem_cons.1 inside
    have rest := ih others
    rw [membersAt] at rest ⊢
    rw [List.filterMap_cons, List.map_cons, List.getElem?_eq_getElem first, List.map_cons, rest]

theorem membersAt_subperm {positions : List Nat} (distinct : positions.Nodup)
    (inside : ∀ i ∈ positions, i < pool.length) : (membersAt pool positions).Subperm pool := by
  obtain ⟨chosen, perm, sublist⟩ : positions.Subperm (List.range pool.length) :=
    distinct.subperm fun i member => List.mem_range.2 (inside i member)
  have part : (membersAt pool chosen).Sublist pool := by
    conv_rhs => rw [← membersAt_range pool]
    exact sublist.filterMap _
  exact ((perm.filterMap _).symm.subperm).trans part.subperm

/-! ### Populations -/

/-- The rows, each with its place among them. -/
def renumbered (rows : List Ranked) : List Ranked :=
  rows.zipIdx.map fun (row, i) => { row with index := i }

theorem getElem?_renumbered (rows : List Ranked) (i : Nat) :
    (renumbered rows)[i]? = rows[i]?.map fun row : Ranked => { row with index := i } := by
  rw [renumbered, List.getElem?_map, List.getElem?_zipIdx, Option.map_map, Nat.zero_add]
  rfl

namespace Population

variable {p : Population}

theorem truncate_eq_ok (survive : survivors compare p.members k = .ok rows) :
    p.truncate k compare =
      (⟨membersAt p.members (rows.map Ranked.index)⟩, .ok (renumbered rows)) := by
  have survived := survived_of_survivors survive
  have moved : moveOut (p.members.map some) (rows.map Ranked.index) =
      .ok (membersAt p.members (rows.map Ranked.index)) := by
    refine moveOut_eq_ok survived.distinct fun i member => ?_
    have atI := List.getElem?_eq_getElem (survived.inside i member)
    exact ⟨_, atI, by rw [List.getElem?_map, atI, Option.map_some]⟩
  simp only [truncate, survive, moved]
  rfl

theorem truncate_eq_of_error {fault : Fault}
    (fails : survivors compare p.members k = .error fault) :
    p.truncate k compare = (p, .error fault) := by
  rw [truncate, fails]

end Population

theorem survivors_eq_error {e : Error} (refused : commonWidths pool = .error e) :
    survivors compare pool k = .error (.refused e) := by
  rw [survivors, refused]
  rfl

/-- Where no survivors are found, because the widths differ or the comparator fails, a population
stays as it was. Otherwise the survivors stand in it in their order and nothing else does, each
member of before at most once, and the rows are those of the rank table of before but for the new
positions. -/
theorem Population.truncate_moves (p : Population) (k : Nat) (compare : Comparator) :
    (∀ fault, survivors compare p.members k = .error fault →
        p.truncate k compare = (p, .error fault)) ∧
      (∀ e, commonWidths p.members = .error e →
        survivors compare p.members k = .error (.refused e)) ∧
      (∀ w, commonWidths p.members = .ok w → compare.AnswersOn p.members →
        ∃ rows, survivors compare p.members k = .ok rows) ∧
      ∀ rows, survivors compare p.members k = .ok rows →
        ∃ q rows', p.truncate k compare = (q, .ok rows') ∧
          q.size = min k p.size ∧ rows.length = min k p.size ∧
          (q.members.map some = rows.map fun row => p.members[row.index]?) ∧
          q.members.Subperm p.members ∧
          (∀ i, rows'[i]? = rows[i]?.map fun row : Ranked => { row with index := i }) ∧
          ∀ row ∈ rows, ∃ table, p.rankTable compare = .ok table ∧
            table[row.index]? = some row := by
  refine ⟨fun _ => truncate_eq_of_error, fun _ => survivors_eq_error, fun w accepted answers => ?_,
    fun rows survive => ?_⟩
  · obtain ⟨f, sorted, h⟩ := sortIntoFronts_eq_ok_of_answersOn accepted answers
    exact ⟨_, h.survivors_eq_ok accepted sorted k⟩
  · have survived := survived_of_survivors survive
    have size := length_membersAt survived.inside
    rw [List.length_map] at size
    refine ⟨_, _, truncate_eq_ok survive, size.trans survived.length, survived.length, ?_,
      membersAt_subperm survived.distinct survived.inside, getElem?_renumbered rows,
      survived.ranked⟩
    rw [map_some_membersAt survived.inside, List.map_map]
    rfl

/-- The cycle of the players is cut, and the first of them comes last. A player with constraints
among those without is refused, even where no places are left. -/
theorem Population.truncate_moves_players :
    let compare : Comparator := fun a b => .ok (playGame a b)
    let mixed : Population := ⟨[.ofObjectives [0], ⟨[], [1], [0]⟩]⟩
    (∃ q, (⟨players⟩ : Population).truncate 4 compare = (q, .ok [⟨0, 0, some infinite⟩,
        ⟨1, 0, some infinite⟩, ⟨2, 1, some infinite⟩, ⟨3, 2, some infinite⟩]) ∧
      q.members.map some = [players[3]?, players[4]?, players[5]?, players[0]?]) ∧
      mixed.truncate 0 compare = (mixed, .error (.refused (.constraintCountMismatch 0 1))) := by
  intro compare mixed
  obtain ⟨-, -, -, moves⟩ := truncate_moves ⟨players⟩ 4 compare
  obtain ⟨unchanged, refused, -⟩ := truncate_moves mixed 0 compare
  have survive : survivors compare players 4 = .ok [⟨3, 0, some infinite⟩, ⟨4, 0, some infinite⟩,
    ⟨5, 1, some infinite⟩, ⟨0, 2, some infinite⟩] := rfl
  obtain ⟨q, rows', truncated, -, -, members, -, renumbered, -⟩ := moves _ survive
  have rows : rows' = [⟨0, 0, some infinite⟩, ⟨1, 0, some infinite⟩, ⟨2, 1, some infinite⟩,
      ⟨3, 2, some infinite⟩] := by
    refine List.ext_getElem? fun i => (renumbered i).trans ?_
    match i with
    | 0 | 1 | 2 | 3 => rfl
    | _ + 4 => rfl
  exact ⟨⟨q, rows ▸ truncated, members⟩, unchanged _ (refused _ rfl)⟩

end ParetoFront
