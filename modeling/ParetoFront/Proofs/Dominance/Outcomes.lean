import ParetoFront.Proofs.Dominance.Boxes
import ParetoFront.Proofs.Dominance.StrictOrder

/-!
# What comparisons decide

Two scans look for the sides that are better somewhere. The scan of objectives stops once both are;
that of boxes goes on to the end and computes the boxes on its way. What they decide can be said
without a scan: a side dominates when it is less somewhere and the other side nowhere. An undefined
value is not less than any value and no value is less than it, so that its place counts for neither
side.

## Main definitions

- `LessSomewhere`, `ParetoOutcome` — the outcome for two vectors, place by place
- `numberPlaces` — the places where neither vector is undefined

## Main statements

- `advantage_dominance_eq_iff` — the scan of two vectors decides that outcome
- `paretoDominance_numberPlaces` — places with an undefined value do not count
- `comparisons_decide` — objectives and boxes
-/

namespace ParetoFront

section Outcome

variable {α : Type} [LT α] {xs ys : List α}

/-- Some value of `xs` is less than the value of `ys` in its place. -/
def LessSomewhere (xs ys : List α) : Prop :=
  ∃ (i : Nat) (x y : α), xs[i]? = some x ∧ ys[i]? = some y ∧ x < y

/-- A side dominates when it is less somewhere and the other side nowhere. Otherwise neither
does. -/
def ParetoOutcome (xs ys : List α) : Dominance → Prop
  | .left => LessSomewhere xs ys ∧ ¬LessSomewhere ys xs
  | .right => LessSomewhere ys xs ∧ ¬LessSomewhere xs ys
  | .neither => ¬(LessSomewhere xs ys ∧ ¬LessSomewhere ys xs) ∧
    ¬(LessSomewhere ys xs ∧ ¬LessSomewhere xs ys)

variable {less : α → α → Bool} (agrees : ∀ x y, less x y = true ↔ x < y)
include agrees

theorem betterSomewhere_iff_lessSomewhere :
    betterSomewhere less xs ys = true ↔ LessSomewhere xs ys := by
  rw [betterSomewhere, List.any_eq_true]
  constructor
  · rintro ⟨⟨x, y⟩, member, better⟩
    obtain ⟨i, here⟩ := List.mem_iff_getElem?.1 member
    obtain ⟨atX, atY⟩ := List.getElem?_zip_eq_some.1 here
    exact ⟨i, x, y, atX, atY, (agrees x y).1 better⟩
  · rintro ⟨i, x, y, atX, atY, lt⟩
    have here : (xs.zip ys)[i]? = some (x, y) := List.getElem?_zip_eq_some.2 ⟨atX, atY⟩
    exact ⟨(x, y), List.mem_of_getElem? here, (agrees x y).2 lt⟩

/-- The scan decides the outcome, although it may stop early. -/
theorem advantage_dominance_eq_iff (asymm : ∀ x y, less x y = true → less y x = false)
    (d : Dominance) :
    (advantage less ⟨false, false⟩ xs ys).dominance = d ↔ ParetoOutcome xs ys d := by
  have left := @betterSomewhere_iff_lessSomewhere α _ xs ys less agrees
  have right := @betterSomewhere_iff_lessSomewhere α _ ys xs less agrees
  rw [advantage_eq asymm, Bool.false_or, Bool.false_or]
  cases d <;> rw [ParetoOutcome, ← left, ← right] <;>
    cases betterSomewhere less xs ys <;> cases betterSomewhere less ys xs <;>
      simp [Advantage.dominance]

end Outcome

/-! ### Undefined values -/

theorem paretoDominance_eq_iff (xs ys : List Float) (d : Dominance) :
    paretoDominance xs ys = d ↔ ParetoOutcome xs ys d :=
  advantage_dominance_eq_iff (fun _ _ => decide_eq_true_iff) lt_asymm_decide d

/-- The pairs of values in one place, without those where a value is undefined. -/
def numberPlaces (xs ys : List Float) : List (Float × Float) :=
  (xs.zip ys).filter fun p => !p.1.isNaN && !p.2.isNaN

theorem lessSomewhere_iff_mem_zip {xs ys : List Float} :
    LessSomewhere xs ys ↔ ∃ p ∈ xs.zip ys, p.1 < p.2 := by
  have agrees (x y : Float) : decide (x < y) = true ↔ x < y := decide_eq_true_iff
  rw [← betterSomewhere_iff_lessSomewhere agrees, betterSomewhere, List.any_eq_true]
  simp only [decide_eq_true_iff]

/-- Only numbers are less than another value, and only than numbers. -/
theorem lessSomewhere_numberPlaces (xs ys : List Float) :
    LessSomewhere ((numberPlaces xs ys).map Prod.fst) ((numberPlaces xs ys).map Prod.snd) ↔
      LessSomewhere xs ys := by
  have together : ((numberPlaces xs ys).map Prod.fst).zip ((numberPlaces xs ys).map Prod.snd) =
      numberPlaces xs ys := (List.zip_of_prod rfl rfl).symm
  rw [lessSomewhere_iff_mem_zip, lessSomewhere_iff_mem_zip, together]
  constructor
  · rintro ⟨p, member, lt⟩
    exact ⟨p, List.mem_of_mem_filter member, lt⟩
  · rintro ⟨p, member, lt⟩
    obtain ⟨⟨first, second⟩, -⟩ := Number.lt_iff.1 lt
    exact ⟨p, List.mem_filter.2 ⟨member, by rw [first, second]; rfl⟩, lt⟩

theorem map_swap_numberPlaces (xs ys : List Float) :
    (numberPlaces xs ys).map Prod.swap = numberPlaces ys xs := by
  rw [numberPlaces, numberPlaces, ← List.zip_swap ys xs, List.filter_map, List.map_map,
    Prod.swap_swap_eq, List.map_id]
  exact List.filter_congr fun p _ => Bool.and_comm ..

theorem paretoDominance_numberPlaces (xs ys : List Float) :
    paretoDominance ((numberPlaces xs ys).map Prod.fst) ((numberPlaces xs ys).map Prod.snd) =
      paretoDominance xs ys := by
  have left := lessSomewhere_numberPlaces xs ys
  have right := lessSomewhere_numberPlaces ys xs
  rw [← map_swap_numberPlaces, List.map_map, List.map_map] at right
  change LessSomewhere ((numberPlaces xs ys).map Prod.snd) ((numberPlaces xs ys).map Prod.fst) ↔ _
    at right
  have same := (paretoDominance_eq_iff xs ys _).1 rfl
  rw [paretoDominance_eq_iff]
  revert same
  cases paretoDominance xs ys <;> simp only [ParetoOutcome, left, right] <;> exact id

/-! ### Comparisons -/

/-- For all vectors of one length, whatever the floats are, Pareto dominance is the outcome place by
place, and the places with an undefined value can be left out. When the feasibility tier is tied,
box dominance is the same outcome for the two box vectors, and a box is shared exactly when these
are equal. When the tier decides, its outcome stands and no box is shared, also for vectors of
different lengths. -/
theorem comparisons_decide (ε : Epsilons) :
    (∀ xs ys : List Float, xs.length = ys.length →
      (∀ d, paretoDominance xs ys = d ↔ ParetoOutcome xs ys d) ∧
        paretoDominance xs ys =
          paretoDominance ((numberPlaces xs ys).map Prod.fst)
            ((numberPlaces xs ys).map Prod.snd)) ∧
    ∀ a b : Solution,
      (feasibilityTier a b = none → a.objectives.length = b.objectives.length →
        ∃ found, ε.compareBoxes a b = .ok found ∧
          (∀ d, found.dominance = d ↔
            ParetoOutcome (ε.boxIndex a.objectives) (ε.boxIndex b.objectives) d) ∧
          (found.sameBox = true ↔ ε.boxIndex a.objectives = ε.boxIndex b.objectives)) ∧
      ∀ d, feasibilityTier a b = some d → ε.compareBoxes a b = .ok ⟨d, false⟩ := by
  refine ⟨fun xs ys _ => ⟨paretoDominance_eq_iff xs ys, ?_⟩, fun a b => ⟨?_, ?_⟩⟩
  · exact (paretoDominance_numberPlaces xs ys).symm
  · intro tied lengths
    refine ⟨_, ε.compareBoxes_eq_ok lengths, fun d => ?_, ?_⟩
    · rw [ε.relateBoxes_of_none tied]
      exact advantage_dominance_eq_iff (fun _ _ => decide_eq_true_iff) strictlyLess_asymm d
    · rw [ε.relateBoxes_sameBox_iff lengths, and_iff_right tied]
  · intro d decided
    rw [Epsilons.compareBoxes, decided, ε.relateBoxes_of_some decided]
    rfl

/-- Undefined and infinite values, coordinates at the end of the range, a side that is better before
both are, and an infeasible side with fewer objectives. -/
theorem comparisons_decide_extremes :
    let ε : Epsilons := ⟨[1 / 4, 1], by decide +kernel, by decide +kernel⟩
    let a : Solution := .ofObjectives [1e20, 0 / 0, -1 / 0, 7]
    let b : Solution := .ofObjectives [2e20, 1 / 2, -1 / 0, 8]
    let c : Solution := ⟨[], [0], [1]⟩
    paretoDominance a.objectives b.objectives = .left ∧
      ParetoOutcome a.objectives b.objectives .left ∧
      (∃ found, ε.compareBoxes a b = .ok found ∧
        (found.dominance = .left ↔
          ParetoOutcome (ε.boxIndex a.objectives) (ε.boxIndex b.objectives) .left) ∧
        (found.sameBox = true ↔ ε.boxIndex a.objectives = ε.boxIndex b.objectives)) ∧
      ε.compareBoxes a c = .ok ⟨.left, false⟩ := by
  intro ε a b c
  obtain ⟨objectives, solutions⟩ := comparisons_decide ε
  have wins : paretoDominance a.objectives b.objectives = .left := by decide +kernel
  have lengths : a.objectives.length = b.objectives.length := by decide
  obtain ⟨found, compared, dominance, shared⟩ := (solutions a b).1 (by decide) lengths
  exact ⟨wins, ((objectives a.objectives b.objectives lengths).1 .left).1 wins,
    ⟨found, compared, dominance .left, shared⟩, (solutions a c).2 .left (by decide +kernel)⟩

end ParetoFront
