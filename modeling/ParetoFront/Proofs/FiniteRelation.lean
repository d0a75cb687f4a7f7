import Mathlib.Data.Set.Finite.Lemmas
import Mathlib.Logic.Relation
import Mathlib.Order.WellFounded

/-!
# Relations on finite sets

Going back along a relation in a finite set ends at a member that nothing precedes, unless there is
a cycle. A chain of a strict order that passes through some place is spliced there: the step before
and the step after are one step, so that without the place the chain is at most one shorter.

## Main definitions

- `Chain`, `CycleUpstream` — chains of a relation, and what lies on or below a cycle
- `Away` — a relation without one of its places

## Main statements

- `Chain.away`, `Chain.splice` — chains of a strict order without a place
- `exists_first` — in a finite strict order something first precedes every member
- `cycleUpstream_of_forall_exists` — when all members are preceded, all lie on or below a cycle
-/

namespace ParetoFront

open Relation

variable {α : Type} {r : α → α → Prop}

/-- A chain of `k` steps ends in the given place. -/
inductive Chain (r : α → α → Prop) : Nat → α → Prop
  | single (x : α) : Chain r 0 x
  | step {k : Nat} {x y : α} : Chain r k x → r x y → Chain r (k + 1) y

/-- The place is on a cycle, or a cycle leads to it. -/
def CycleUpstream (r : α → α → Prop) (x : α) : Prop :=
  ∃ c, TransGen r c c ∧ ReflTransGen r c x

/-! ### Chains without a place -/

/-- The relation between places other than `s`. -/
def Away (r : α → α → Prop) (s x y : α) : Prop :=
  r x y ∧ x ≠ s ∧ y ≠ s

theorem Chain.imp {r' : α → α → Prop} (imp : ∀ x y, r x y → r' x y) {k : Nat} {x : α}
    (chain : Chain r k x) : Chain r' k x := by
  induction chain with
  | single x => exact .single x
  | step _ edge ih => exact .step ih (imp _ _ edge)

section Splice

variable {s x : α} {k : Nat} (trans : ∀ x y z, r x y → r y z → r x z)
include trans

/-- A chain does not pass through a place that does not precede its end. -/
theorem Chain.away (chain : Chain r k x) (other : x ≠ s) (free : ¬ r s x) :
    Chain (Away r s) k x := by
  induction chain with
  | single x => exact .single x
  | @step _ y x _ edge ih =>
    have other' : y ≠ s := fun same => free (same ▸ edge)
    exact .step (ih other' fun before => free (trans s y x before edge)) ⟨edge, other', other⟩

/-- A chain of a strict order loses at most one step when a place is taken out of it. -/
theorem Chain.splice (irrefl : ∀ x, ¬ r x x) (chain : Chain r k x) (other : x ≠ s) :
    ∃ m, k ≤ m + 1 ∧ Chain (Away r s) m x := by
  induction chain with
  | single x => exact ⟨0, Nat.zero_le 1, .single x⟩
  | @step k y x before edge ih =>
    by_cases here : y = s
    · subst here
      cases before with
      | single => exact ⟨0, Nat.le_refl 1, .single x⟩
      | @step k z _ before step =>
        -- the place is passed once only, so that what leads to it stays
        have other' : z ≠ y := fun same => irrefl y (same ▸ step)
        have free : ¬ r y z := fun back => irrefl y (trans y z y back step)
        exact ⟨k + 1, Nat.le_refl _,
          .step (before.away trans other' free) ⟨trans z y x step edge, other', other⟩⟩
    · obtain ⟨m, shorter, chain⟩ := ih here
      exact ⟨m + 1, Nat.succ_le_succ shorter, .step chain ⟨edge, here, other⟩⟩

end Splice

/-! ### Finite sets -/

/-- In a finite set that a relation orders strictly, a first member precedes or is any given one. -/
theorem exists_first {s : Set α} (finite : s.Finite) (irrefl : ∀ x ∈ s, ¬ r x x)
    (trans : ∀ x ∈ s, ∀ y ∈ s, ∀ z ∈ s, r x y → r y z → r x z) {x : α} (member : x ∈ s) :
    ∃ y ∈ s, (y = x ∨ r y x) ∧ ∀ z ∈ s, ¬ r z y := by
  let before : s → s → Prop := fun y z => r y.1 z.1
  have : Finite s := finite
  have : IsTrans s before := ⟨fun x y z => trans x.1 x.2 y.1 y.2 z.1 z.2⟩
  have : Std.Irrefl before := ⟨fun x => irrefl x.1 x.2⟩
  obtain ⟨y, reaches, first⟩ := (Finite.wellFounded_of_trans_of_irrefl before).has_min
    {y | y.1 = x ∨ r y.1 x} ⟨⟨x, member⟩, Or.inl rfl⟩
  refine ⟨y.1, y.2, reaches, fun z inside precedes => first ⟨z, inside⟩ (Or.inr ?_) precedes⟩
  obtain rfl | below := reaches
  · exact precedes
  · exact trans z inside y.1 y.2 x member precedes below

/-- In a finite set whose members all have a predecessor there, going back leads to a cycle. -/
theorem cycleUpstream_of_forall_exists {s : Set α} (finite : s.Finite)
    (predecessor : ∀ x ∈ s, ∃ y ∈ s, r y x) {x : α} (member : x ∈ s) : CycleUpstream r x := by
  by_contra acyclic
  -- otherwise what leads to `x` without leaving `s` would be ordered and have a first member
  obtain ⟨y, ⟨inside, path⟩, -, first⟩ := @exists_first α (TransGen r)
    {y | y ∈ s ∧ ReflTransGen r y x} (finite.subset fun _ h => h.1)
    (fun y h cycle => acyclic ⟨y, cycle, h.2⟩) (fun _ _ _ _ _ _ => TransGen.trans)
    x ⟨member, .refl⟩
  obtain ⟨z, inside, step⟩ := predecessor y inside
  exact first z ⟨inside, .head step path⟩ (.single step)

end ParetoFront
