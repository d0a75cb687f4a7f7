/-!
# Outcomes of comparisons

A comparison of two solutions says that the left one dominates, that the right one does, or that
neither does. Neither is incomparability, which includes equality but is not equality.

## Main definitions

- `Dominance` — the three outcomes
- `Advantage` — on which sides a vector is better somewhere
- `advantage` — the scan of two vectors that finds out
-/

namespace ParetoFront

inductive Dominance where
  | left
  | right
  | neither
deriving DecidableEq

namespace Dominance

/-- The outcome seen from the other side. -/
def swap : Dominance → Dominance
  | left => right
  | right => left
  | neither => neither

/-- `-1` when the left side is better, `1` when the right side is, `0` otherwise. -/
def signum : Dominance → Int
  | left => -1
  | right => 1
  | neither => 0

/-- The smaller side dominates. -/
def ofOrdering : Ordering → Dominance
  | .lt => left
  | .gt => right
  | .eq => neither

/-- The dominating side is smaller. -/
def toOrdering : Dominance → Ordering
  | left => .lt
  | right => .gt
  | neither => .eq

@[simp] theorem swap_swap (d : Dominance) : d.swap.swap = d := by
  cases d <;> rfl

@[simp] theorem ofOrdering_toOrdering (d : Dominance) : ofOrdering d.toOrdering = d := by
  cases d <;> rfl

end Dominance

/-- The sides that are better in some place. -/
structure Advantage where
  left : Bool
  right : Bool
deriving DecidableEq

namespace Advantage

/-- A side dominates when it alone is better somewhere. -/
def dominance : Advantage → Dominance
  | ⟨true, false⟩ => .left
  | ⟨false, true⟩ => .right
  | _ => .neither

/-- Neither side is better anywhere. -/
def isTie (a : Advantage) : Bool :=
  !a.left && !a.right

end Advantage

/-- Scans two vectors place by place and stops once both sides have been better somewhere. Places
beyond the end of the shorter vector are not looked at. -/
def advantage {α : Type} (less : α → α → Bool) (soFar : Advantage) : List α → List α → Advantage
  | x :: xs, y :: ys =>
    let now : Advantage :=
      if less x y then ⟨true, soFar.right⟩
      else if less y x then ⟨soFar.left, true⟩
      else soFar
    if now.left && now.right then now else advantage less now xs ys
  | _, _ => soFar

end ParetoFront
