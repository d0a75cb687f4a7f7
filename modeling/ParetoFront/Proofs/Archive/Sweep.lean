import Mathlib.Data.List.Nodup
import ParetoFront.Archive.Offer

/-!
# Offers without positions

The scan of an offer collects the positions of those that leave, and they are removed by their
positions afterwards. What comes of that can be said without positions: those stay that the offer
coexists with, and as many are reported to leave as are missing afterwards.

## Main definitions

- `Sweep`, `sweep` — what an offer does to the retained solutions
- `leavingFrom` — the positions of those that leave

## Main statements

- `sweep_eq` — the judgement of an offer
- `withoutPositions_leavingFrom` — the positions that are collected are the ones to remove
- `Archive.settle_eq_sweep` — the scan and the removal
-/

namespace ParetoFront

/-! ### The judgement of an offer -/

/-- What an accepted offer does to the retained solutions. -/
structure Sweep where
  staying : List Solution
  /-- The number of those that leave. -/
  leaving : Nat
  /-- One of those that leave was displaced from its box. -/
  displaces : Bool

/-- Judges an offer against the retained solutions; `none` when one of them keeps it out. -/
def sweep (judge : Solution → Verdict) : List Solution → Option Sweep
  | [] => some ⟨[], 0, false⟩
  | r :: rest =>
    match judge r, sweep judge rest with
    | .keepsOut, _ => none
    | _, none => none
    | .coexists, some s => some { s with staying := r :: s.staying }
    | .dominated, some s => some { s with leaving := s.leaving + 1 }
    | .displaced, some s => some { s with leaving := s.leaving + 1, displaces := true }

def Sweep.onlyDisplaces (s : Sweep) : Bool :=
  s.displaces && s.leaving == 1

variable {judge : Solution → Verdict} {retained : List Solution}

/-- An offer is kept out by one retained solution, or stays with those that it coexists with. -/
theorem sweep_eq (judge : Solution → Verdict) (retained : List Solution) :
    sweep judge retained =
      if ∃ r ∈ retained, judge r = .keepsOut then none
      else some ⟨retained.filter fun r => judge r = .coexists,
        retained.countP fun r => judge r = .dominated ∨ judge r = .displaced,
        retained.any fun r => judge r = .displaced⟩ := by
  induction retained with
  | nil => rfl
  | cons r rest ih =>
    rw [sweep, ih]
    -- the verdict on `r` counts only when nothing later keeps the offer out
    by_cases kept : ∃ r ∈ rest, judge r = .keepsOut
    · cases judge r <;> simp [kept]
    · cases verdict : judge r <;> simp [kept, verdict]

/-! ### Positions -/

/-- The solution has to leave for the offer. -/
def Verdict.leaves : Verdict → Bool
  | dominated | displaced => true
  | keepsOut | coexists => false

/-- The positions of those that leave, where the first one is at position `i`. -/
def leavingFrom (judge : Solution → Verdict) (i : Nat) (retained : List Solution) : List Nat :=
  ((retained.zipIdx i).filter fun p => (judge p.1).leaves).map Prod.snd

theorem pairwise_leavingFrom (i : Nat) : (leavingFrom judge i retained).Pairwise (· < ·) := by
  have part : (leavingFrom judge i retained).Sublist ((retained.zipIdx i).map Prod.snd) :=
    List.filter_sublist.map Prod.snd
  rw [List.zipIdx_map_snd] at part
  exact (List.pairwise_lt_range' ..).sublist part

theorem mem_leavingFrom_iff {r : Solution} {i : Nat} (placed : (r, i) ∈ retained.zipIdx) :
    i ∈ leavingFrom judge 0 retained ↔ (judge r).leaves = true := by
  rw [leavingFrom, List.mem_map]
  constructor
  · rintro ⟨⟨t, j⟩, member, rfl⟩
    obtain ⟨placed', leaves⟩ := List.mem_filter.1 member
    rw [List.mem_zipIdx_iff_getElem?] at placed placed'
    obtain rfl : t = r := Option.some.inj (placed'.symm.trans placed)
    exact leaves
  · exact fun leaves => ⟨(r, i), List.mem_filter.2 ⟨placed, leaves⟩, rfl⟩

theorem length_leavingFrom (i : Nat) :
    (leavingFrom judge i retained).length = retained.countP fun r => (judge r).leaves := by
  conv_rhs => rw [← List.zipIdx_map_fst i retained, List.countP_map, List.countP_eq_length_filter]
  rw [leavingFrom, List.length_map]
  rfl

theorem withoutPositions_eq_filter {positions : List Nat} {i : Nat} {stays : Solution → Bool}
    (listed : ∀ p ∈ retained.zipIdx i, isListed positions p.2 = !stays p.1) :
    withoutPositions positions i retained = retained.filter stays := by
  induction retained generalizing i with
  | nil => rfl
  | cons r rest ih =>
    rw [List.zipIdx_cons] at listed
    obtain ⟨first, others⟩ := List.forall_mem_cons.1 listed
    rw [withoutPositions, List.filter_cons, ih others, first]
    cases stays r <;> rfl

/-- The removal takes out those whose positions were collected. -/
theorem withoutPositions_leavingFrom :
    withoutPositions (leavingFrom judge 0 retained) 0 retained =
      retained.filter fun r => !(judge r).leaves := by
  refine withoutPositions_eq_filter fun p placed => ?_
  rw [Bool.not_not, Bool.eq_iff_iff, isListed_eq_true_iff (pairwise_leavingFrom 0),
    mem_leavingFrom_iff placed]

/-- Nothing has to be removed when no position was collected. -/
theorem withoutPositions_of_isEmpty (none : (leavingFrom judge 0 retained).isEmpty = true) :
    withoutPositions (leavingFrom judge 0 retained) 0 retained = retained := by
  rw [List.isEmpty_iff_length_eq_zero, length_leavingFrom, List.countP_eq_zero] at none
  rw [withoutPositions_leavingFrom]
  exact List.filter_eq_self.2 fun r member => by simpa using none r member

/-- The scan collects the positions of those that leave. -/
theorem scanFrom_eq (i : Nat) (found : Findings) :
    scanFrom judge i found retained = (sweep judge retained).map fun s =>
      ⟨found.leaving ++ leavingFrom judge i retained, found.displaces || s.displaces⟩ := by
  induction retained generalizing i found with
  | nil => simp [scanFrom, sweep, leavingFrom]
  | cons r rest ih =>
    rw [scanFrom, sweep, leavingFrom, List.zipIdx_cons, List.filter_cons]
    cases verdict : judge r <;>
      cases swept : sweep judge rest <;> simp [ih, swept, Verdict.leaves, leavingFrom]

/-- When nothing keeps an offer out, those that do not leave are those that it coexists with. -/
theorem sweep_eq_some {found : Sweep} (swept : sweep judge retained = some found) :
    found.staying = (retained.filter fun r => !(judge r).leaves) ∧
      found.leaving = (retained.countP fun r => (judge r).leaves) ∧
      found.displaces = retained.any fun r => judge r = .displaced := by
  rw [sweep_eq] at swept
  by_cases kept : ∃ r ∈ retained, judge r = .keepsOut
  · rw [if_pos kept] at swept
    cases swept
  · rw [if_neg kept] at swept
    obtain rfl := Option.some.inj swept
    refine ⟨List.filter_congr fun r member => ?_, List.countP_congr fun r member => ?_, rfl⟩
    · cases verdict : judge r with
      | keepsOut => exact absurd ⟨r, member, verdict⟩ kept
      | coexists | dominated | displaced => rfl
    · cases judge r <;> simp [Verdict.leaves]

/-! ### Archives -/

namespace Archive

/-- Retains an offer beside those that stay. -/
def retainSwept (a : Archive) (s : Solution) (found : Sweep) : Archive :=
  { a with
    retained := found.staying ++ [s]
    stats := { a.stats with
      improvements := a.stats.improvements + 1
      dominatingImprovements :=
        a.stats.dominatingImprovements + if found.onlyDisplaces then 0 else 1 } }

/-- The scan and the removal afterwards, without positions. -/
theorem settle_eq_sweep (a : Archive) (s : Solution) :
    a.settle s =
      match sweep (fun r => a.policy.judge s r) a.retained with
      | none => (a, .rejected)
      | some found => (a.retainSwept s found, .added found.leaving) := by
  rw [settle, scanFrom_eq]
  cases swept : sweep (fun r => a.policy.judge s r) a.retained with
  | none => rfl
  | some found =>
    obtain ⟨staying, leaving, -⟩ := sweep_eq_some swept
    rw [← withoutPositions_leavingFrom] at staying
    rw [← length_leavingFrom 0] at leaving
    generalize positions : leavingFrom (fun r => a.policy.judge s r) 0 a.retained = leaving' at *
    have only : Findings.onlyDisplaces ⟨leaving', found.displaces⟩ = found.onlyDisplaces := by
      rw [Findings.onlyDisplaces, Sweep.onlyDisplaces, leaving]
    have removed : (if leaving'.isEmpty then a.retained
        else withoutPositions leaving' 0 a.retained) = found.staying := by
      by_cases none : leaving'.isEmpty = true
      · rw [if_pos none, staying, ← positions, withoutPositions_of_isEmpty (positions ▸ none)]
      · rw [if_neg none, staying]
    simp only [Option.map_some, List.nil_append, Bool.false_or, retain, only, removed, ← leaving]
    rfl

end Archive

end ParetoFront
