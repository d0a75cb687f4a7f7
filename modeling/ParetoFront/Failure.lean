import ParetoFront.Decimal.Positional

/-!
# Ways to fail

Operations that can be refused return an `Error`, which names the cause. Operations that promise
an answer to every caller who keeps their terms stop with a `Fault` when the terms are broken.

## Main definitions

- `Error` — a refusal, with `Error.message`
- `Fault` — a broken promise, with `Fault.message`
- `orFault` — turns a refusal into a fault
- `takeFrom` — subtraction that faults below zero
-/

namespace ParetoFront

inductive ConfigFlaw where
  | boxesWithoutEpsilons
  /-- The duplicate tolerance is negative, infinite or undefined. -/
  | badTolerance (tolerance : Float)
  | epsilonsNotSet
deriving DecidableEq

def ConfigFlaw.message : ConfigFlaw → String
  | .boxesWithoutEpsilons => "epsilon-box dominance requires epsilons"
  | .badTolerance t =>
    "duplicate_tolerance must be finite and non-negative, got " ++ Decimal.ofFloat t
  | .epsilonsNotSet => "epsilons are not set"

/-- The causes for which an operation is refused. -/
inductive Error where
  | emptyEpsilons
  /-- The epsilon at `index` is not positive and finite. -/
  | invalidEpsilon (index : Nat) (value : Float)
  | objectiveCountMismatch (expected actual : Nat)
  | constraintCountMismatch (expected actual : Nat)
  /-- There are more epsilons than objectives. -/
  | epsilonWidthMismatch (epsilons objectives : Nat)
  | invalidConfig (flaw : ConfigFlaw)
  /-- A caller failed while it held the lock of a shared archive. -/
  | lockPoisoned
deriving DecidableEq

def Error.message : Error → String
  | .emptyEpsilons => "epsilons must contain at least one value"
  | .invalidEpsilon index value =>
    s!"epsilon at index {index} must be positive and finite, got " ++ Decimal.ofFloat value
  | .objectiveCountMismatch expected actual =>
    s!"objective count mismatch: expected {expected}, got {actual}"
  | .constraintCountMismatch expected actual =>
    s!"constraint count mismatch: expected {expected}, got {actual}"
  | .epsilonWidthMismatch epsilons objectives =>
    s!"epsilons of width {epsilons} cannot be applied to {objectives} objectives"
  | .invalidConfig flaw => "invalid configuration: " ++ flaw.message
  | .lockPoisoned => "archive lock poisoned"

/-- The ways in which an operation without a refusal stops. -/
inductive Fault where
  /-- A refusal met where the caller has no way to be refused. -/
  | refused (error : Error)
  | unequalVectors
  | indexOutOfRange
  | emptyTable
  | countUnderflow
  | survivorMiscount
  /-- Code of the caller stopped with a text of its own. -/
  | crashed (text : String)
deriving DecidableEq

/-- Description of a fault for people, for the faults that have one. -/
def Fault.message : Fault → Option String
  | .refused error => some error.message
  | .emptyTable => some "cannot select from empty population"
  | .crashed text => some text
  | .unequalVectors | .indexOutOfRange | .countUnderflow | .survivorMiscount => none

def orFault {α : Type} : Except Error α → Except Fault α
  | .ok a => .ok a
  | .error e => .error (.refused e)

/-- A computation in two steps succeeds when both steps do. -/
theorem bind_eq_ok_iff {ε α β : Type} {first : Except ε α} {next : α → Except ε β} {b : β} :
    (first >>= next) = .ok b ↔ ∃ a, first = .ok a ∧ next a = .ok b := by
  cases first with
  | error e => exact iff_of_false (fun h => by cases h) fun ⟨_, h, _⟩ => by cases h
  | ok a =>
    constructor
    · exact fun h => ⟨a, rfl, h⟩
    · rintro ⟨_, ⟨⟩, h⟩
      exact h

theorem pure_eq_ok_iff {ε α : Type} {a b : α} : (pure a : Except ε α) = .ok b ↔ a = b :=
  Except.ok.injEq a b ▸ Iff.rfl

theorem map_eq_ok_iff {ε α β : Type} {f : α → β} {r : Except ε α} {b : β} :
    r.map f = .ok b ↔ ∃ a, r = .ok a ∧ f a = b := by
  cases r with
  | error e => exact iff_of_false (fun h => by cases h) fun ⟨_, h, _⟩ => by cases h
  | ok a =>
    rw [Except.map, Except.ok.injEq]
    exact ⟨fun h => ⟨a, rfl, h⟩, fun ⟨_, same, h⟩ => Except.ok.inj same ▸ h⟩

/-- Takes `m` from the count `n`. -/
def takeFrom (n m : Nat) : Except Fault Nat :=
  if m ≤ n then .ok (n - m) else .error .countUnderflow

end ParetoFront
