import ParetoFront.Proofs.Archive.Incomparable

/-!
# Bounded archives

Vectors that agree except in one coordinate are comparable, so that incomparable boxes stay distinct
when a coordinate is dropped. An archive with boxes therefore never retains more solutions than
there are boxes in a grid of one dimension less, however many solutions are offered.

## Main statements

- `forall₂_le_of_eraseIdx_eq` — vectors that agree except in one coordinate
- `length_le_prod` — vectors in a grid that stay distinct without one coordinate
- `Archive.size_le_grid` — the size of every reachable archive with boxes
-/

namespace ParetoFront

/-! ### Vectors without a coordinate -/

/-- Vectors that agree except in one coordinate compare as they do there. -/
theorem forall₂_le_of_eraseIdx_eq {κ : Type} [LinearOrder κ] {xs ys : List κ} {j : Nat}
    (withinX : j < xs.length) (withinY : j < ys.length) (same : xs.eraseIdx j = ys.eraseIdx j)
    (le : xs[j] ≤ ys[j]) : List.Forall₂ (· ≤ ·) xs ys := by
  induction xs generalizing ys j with
  | nil => simp at withinX
  | cons x xs ih =>
    cases ys with
    | nil => simp at withinY
    | cons y ys =>
      cases j with
      | zero =>
        obtain rfl : xs = ys := same
        exact .cons le (List.forall₂_refl xs)
      | succ j =>
        obtain ⟨rfl, rest⟩ : x = y ∧ xs.eraseIdx j = ys.eraseIdx j := List.cons.inj same
        exact .cons le_rfl
          (ih (Nat.lt_of_succ_lt_succ withinX) (Nat.lt_of_succ_lt_succ withinY) rest le)

/-- Vectors of one length that agree except in one coordinate are equal without it. -/
theorem eraseIdx_eq_of_agree {xs ys : List Int} {j : Nat} (lengths : xs.length = ys.length)
    (agree : ∀ i < xs.length, i ≠ j → xs.getD i 0 = ys.getD i 0) :
    xs.eraseIdx j = ys.eraseIdx j := by
  have entries (i : Nat) (withinX : i < xs.length) (withinY : i < ys.length) (other : i ≠ j) :
      xs[i] = ys[i] := by
    have := agree i withinX other
    rwa [List.getD_eq_getElem _ _ withinX, List.getD_eq_getElem _ _ withinY] at this
  refine List.ext_getElem (by rw [List.length_eraseIdx, List.length_eraseIdx, lengths]) ?_
  intro i _ _
  rw [List.getElem_eraseIdx, List.getElem_eraseIdx]
  split
  · exact entries i _ _ (by omega)
  · exact entries (i + 1) _ _ (by omega)

/-- There are at most as many vectors, distinct without a coordinate, as places in the grid that
the other coordinates lie in. -/
theorem length_le_prod {vectors : List (List Int)} {m j : Nat}
    (lengths : ∀ v ∈ vectors, v.length = m)
    (distinct : (vectors.map fun v => v.eraseIdx j).Nodup) {lo hi : Nat → Int}
    (inside : ∀ v ∈ vectors, ∀ i < m, i ≠ j → lo i ≤ v.getD i 0 ∧ v.getD i 0 ≤ hi i) :
    vectors.length ≤ ∏ i ∈ (Finset.range m).erase j, (hi i - lo i + 1).toNat := by
  classical
  let place (v : List Int) : (i : Nat) → i ∈ (Finset.range m).erase j → Int := fun i _ => v.getD i 0
  let grid := ((Finset.range m).erase j).pi fun i => Finset.Icc (lo i) (hi i)
  have places : (vectors.map place).Nodup := by
    refine List.pairwise_map.2 ((List.pairwise_map.1 distinct).imp_of_mem ?_)
    intro u v hu hv apart same
    refine apart (eraseIdx_eq_of_agree ((lengths u hu).trans (lengths v hv).symm) ?_)
    intro i within other
    rw [lengths u hu] at within
    have member : i ∈ (Finset.range m).erase j :=
      Finset.mem_erase.2 ⟨other, Finset.mem_range.2 within⟩
    exact congrFun (congrFun same i) member
  have gridPlaces : (vectors.map place).toFinset ⊆ grid := by
    intro p member
    obtain ⟨v, hv, rfl⟩ := List.mem_map.1 (List.mem_toFinset.1 member)
    refine Finset.mem_pi.2 fun i inRange => ?_
    obtain ⟨other, within⟩ := Finset.mem_erase.1 inRange
    exact Finset.mem_Icc.2 (inside v hv i (Finset.mem_range.1 within) other)
  calc vectors.length
      = (vectors.map place).toFinset.card := by
        rw [List.toFinset_card_of_nodup places, List.length_map]
    _ ≤ grid.card := Finset.card_le_card gridPlaces
    _ = ∏ i ∈ (Finset.range m).erase j, (hi i - lo i + 1).toNat := by
        rw [Finset.card_pi]
        refine Finset.prod_congr rfl fun i _ => ?_
        rw [Int.card_Icc, add_sub_right_comm]

/-! ### Retained boxes -/

namespace Archive

variable {ε : Epsilons} {a : Archive} {recent : List Solution} {w : Widths} {j : Nat}

theorem Coexistent.length_boxIndex (h : a.Coexistent recent) (widths : a.widths = some w)
    {s : Solution} (member : s ∈ a.retained) :
    (ε.boxIndex s.objectives).length = w.objectives := by
  obtain rfl : s.widths = w := Option.some.inj ((h.widths s member).symm.trans widths)
  exact ε.length_boxIndex _

/-- Retained boxes stay distinct when a coordinate is dropped. -/
theorem Coexistent.nodup_eraseIdx (h : a.Coexistent recent) (boxes : a.policy = .epsilonBox ε)
    (widths : a.widths = some w) (within : j < w.objectives) :
    (a.retained.map fun s => (ε.boxIndex s.objectives).eraseIdx j).Nodup := by
  refine List.pairwise_map.2 ((h.pairwise_incomparable boxes).imp_of_mem ?_)
  intro r s retained retained' incomparable same
  have left : j < (ε.boxIndex r.objectives).length :=
    (h.length_boxIndex widths retained).symm ▸ within
  have right : j < (ε.boxIndex s.objectives).length :=
    (h.length_boxIndex widths retained').symm ▸ within
  -- one of the two boxes is at most the other in the coordinate that is dropped
  obtain le | ge := le_total (ε.boxIndex r.objectives)[j] (ε.boxIndex s.objectives)[j]
  · exact incomparable.1 (forall₂_le_of_eraseIdx_eq left right same le)
  · exact incomparable.2 (forall₂_le_of_eraseIdx_eq right left same.symm ge)

theorem Coexistent.size_le_prod (h : a.Coexistent recent) (boxes : a.policy = .epsilonBox ε)
    (widths : a.widths = some w) (within : j < w.objectives) {lo hi : Nat → Int}
    (inside : ∀ s ∈ a.retained, ∀ i < w.objectives, i ≠ j →
      lo i ≤ (ε.boxIndex s.objectives).getD i 0 ∧ (ε.boxIndex s.objectives).getD i 0 ≤ hi i) :
    a.size ≤ ∏ i ∈ (Finset.range w.objectives).erase j, (hi i - lo i + 1).toNat := by
  have distinct := h.nodup_eraseIdx boxes widths within
  rw [size, ← List.length_map fun s : Solution => ε.boxIndex s.objectives]
  refine length_le_prod (List.forall_mem_map.2 fun s => h.length_boxIndex widths) ?_
    (List.forall_mem_map.2 inside)
  rwa [List.map_map]

end Archive

/-- Whatever was asked of an archive with boxes, and whatever the floats were, the boxes that it
retains stay distinct when any one coordinate is dropped. When the other coordinates of all retained
boxes lie in given ranges, the archive retains at most as many solutions as there are vectors of
integers in these ranges; with a single objective it retains at most one. -/
theorem Archive.size_le_grid {ε : Epsilons} {a : Archive} (new : a.IsNew)
    (boxes : a.policy = .epsilonBox ε) (calls : List Call) (w : Widths) :
    let reached := calls.foldl Archive.after a
    reached.widths = some w →
      (∀ j < w.objectives,
        (reached.retained.map fun s => (ε.boxIndex s.objectives).eraseIdx j).Nodup ∧
          ∀ lo hi : Nat → Int,
            (∀ s ∈ reached.retained, ∀ i < w.objectives, i ≠ j →
              lo i ≤ (ε.boxIndex s.objectives).getD i 0 ∧
                (ε.boxIndex s.objectives).getD i 0 ≤ hi i) →
            reached.size ≤ ∏ i ∈ (Finset.range w.objectives).erase j, (hi i - lo i + 1).toNat) ∧
      (w.objectives = 1 → reached.size ≤ 1) := by
  intro reached widths
  have coexistent := new.coexistent calls
  have policy : reached.policy = .epsilonBox ε := (a.policy_foldl_after calls).trans boxes
  refine ⟨?_, ?_⟩
  · intro j within
    refine ⟨coexistent.nodup_eraseIdx policy widths within, fun lo hi inside => ?_⟩
    exact coexistent.size_le_prod policy widths within inside
  · intro single
    have bound := @Coexistent.size_le_prod ε reached _ w 0 coexistent policy widths (by omega)
      0 0 (by omega)
    simpa [single] using bound

/-- Offers in a strip of boxes, an undefined objective value, and offers of other widths. -/
def stripCalls : List Call :=
  [.addAll [.ofObjectives [0, 9], .ofObjectives [1, 7], .ofObjectives [0 / 0, 8.5],
    .ofObjectives [3, 3], .ofObjectives [1, 6.5], .ofObjectives [2]], .add (.ofObjectives [2, 5]),
    .offer (.ofObjectives [3, 4]), .add (.ofObjectives [2.5, 5.25])]

theorem size_le_grid_stripCalls :
    let reached := stripCalls.foldl Archive.after (.epsilonBox ⟨[1], by decide, by decide⟩)
    reached.widths = some ⟨2, 0⟩ ∧
      reached.objectives = [[0 / 0, 8.5], [3, 3], [1, 6.5], [2, 5]] ∧
      reached.size ≤ ∏ i ∈ (Finset.range 2).erase 1, ((3 : Int) - 0 + 1).toNat := by
  have widths : (stripCalls.foldl Archive.after
    (.epsilonBox ⟨[1], by decide, by decide⟩)).widths = some ⟨2, 0⟩ := by decide +kernel
  have bound := Archive.size_le_grid (.epsilonBox ⟨[1], by decide, by decide⟩) rfl stripCalls ⟨2, 0⟩
    widths
  exact ⟨widths, by decide +kernel,
    (bound.1 1 (by decide)).2 (fun _ => 0) (fun _ => 3) (by decide +kernel)⟩

end ParetoFront
