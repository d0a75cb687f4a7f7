import ParetoFront.Failure
import ParetoFront.Solution

/-!
# Widths of solutions

Solutions can be ranked together when they agree on the number of objectives and on the number of
constraints.

## Main definitions

- `Widths` — the two counts
- `Widths.accept` — refuses a solution of other widths
- `commonWidths` — the widths shared by a pool

## Main statements

- `Widths.accept_eq_ok_iff`, `commonWidths_eq_ok_iff` — what is accepted
-/

namespace ParetoFront

/-- The number of objectives and the number of constraints of a solution. -/
structure Widths where
  objectives : Nat
  constraints : Nat
deriving DecidableEq

def Solution.widths (s : Solution) : Widths :=
  ⟨s.objectives.length, s.constraints.length⟩

/-- Accepts solutions of widths `w`. Of two differences the objective count is named. -/
def Widths.accept (w : Widths) (s : Solution) : Except Error Unit :=
  if s.objectives.length ≠ w.objectives then
    .error (.objectiveCountMismatch w.objectives s.objectives.length)
  else if s.constraints.length ≠ w.constraints then
    .error (.constraintCountMismatch w.constraints s.constraints.length)
  else .ok ()

/-- The widths of the first solution, which all others must share; no solutions have widths `0`.
The first solution of the pool that differs is named. -/
def commonWidths : List Solution → Except Error Widths
  | [] => .ok ⟨0, 0⟩
  | first :: rest => do
    rest.forM first.widths.accept
    return first.widths

theorem Widths.accept_eq_ok_iff {w : Widths} {s : Solution} :
    w.accept s = .ok () ↔ s.widths = w := by
  obtain ⟨objectives, constraints⟩ := w
  rw [accept, Solution.widths, Widths.mk.injEq]
  by_cases sameObjectives : s.objectives.length = objectives
  · by_cases sameConstraints : s.constraints.length = constraints
    · simp [sameObjectives, sameConstraints]
    · simp [sameObjectives, sameConstraints]
  · simp [sameObjectives]

theorem Widths.forM_accept_eq_ok_iff {w : Widths} {pool : List Solution} :
    pool.forM w.accept = .ok () ↔ ∀ s ∈ pool, s.widths = w := by
  induction pool with
  | nil => exact iff_of_true rfl (by simp)
  | cons s rest ih =>
    show (w.accept s >>= fun _ => rest.forM w.accept) = .ok () ↔ _
    rw [List.forall_mem_cons, ← ih, ← accept_eq_ok_iff]
    cases w.accept s with
    | error e => exact iff_of_false (fun h => by cases h) (fun h => by cases h.1)
    | ok => exact (and_iff_right rfl).symm

/-- A nonempty pool has common widths when all its solutions have them. -/
theorem commonWidths_eq_ok_iff {pool : List Solution} (nonempty : pool ≠ []) {w : Widths} :
    commonWidths pool = .ok w ↔ ∀ s ∈ pool, s.widths = w := by
  cases pool with
  | nil => exact absurd rfl nonempty
  | cons first rest =>
    rw [List.forall_mem_cons, commonWidths]
    constructor
    · intro isOk
      cases accepted : rest.forM first.widths.accept with
      | error e => rw [accepted] at isOk; cases isOk
      | ok =>
        rw [accepted] at isOk
        obtain rfl : first.widths = w := Except.ok.inj isOk
        exact ⟨rfl, Widths.forM_accept_eq_ok_iff.1 accepted⟩
    · rintro ⟨rfl, others⟩
      rw [Widths.forM_accept_eq_ok_iff.2 others]
      rfl

theorem widths_eq_of_commonWidths {pool : List Solution} {w : Widths}
    (accepted : commonWidths pool = .ok w) {s : Solution} (member : s ∈ pool) : s.widths = w :=
  (commonWidths_eq_ok_iff (List.ne_nil_of_mem member)).1 accepted s member

/-- Solutions of a pool with common widths have common widths. -/
theorem exists_commonWidths_of_subset {pool members : List Solution} (part : members ⊆ pool)
    {w : Widths} (accepted : commonWidths pool = .ok w) : ∃ v, commonWidths members = .ok v := by
  by_cases nonempty : members = []
  · exact ⟨⟨0, 0⟩, by rw [nonempty]; rfl⟩
  · exact ⟨w, (commonWidths_eq_ok_iff nonempty).2 fun s member =>
      widths_eq_of_commonWidths accepted (part member)⟩

/-- Whether widths are shared does not depend on the order of the pool. -/
theorem commonWidths_eq_ok_of_perm {pool offers : List Solution} (perm : offers.Perm pool)
    {w : Widths} (accepted : commonWidths pool = .ok w) : commonWidths offers = .ok w := by
  by_cases nonempty : offers = []
  · subst nonempty
    rwa [List.nil_perm.1 perm] at accepted
  · exact (commonWidths_eq_ok_iff nonempty).2 fun s member =>
      widths_eq_of_commonWidths accepted (perm.subset member)

theorem objectives_length_eq {pool : List Solution} {w : Widths}
    (accepted : commonWidths pool = .ok w) {a b : Solution} (left : a ∈ pool) (right : b ∈ pool) :
    a.objectives.length = b.objectives.length :=
  congrArg Widths.objectives ((widths_eq_of_commonWidths accepted left).trans
    (widths_eq_of_commonWidths accepted right).symm)

end ParetoFront
