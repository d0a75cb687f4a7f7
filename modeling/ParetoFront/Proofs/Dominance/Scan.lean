import Mathlib
import ParetoFront.Dominance.Criterion

/-!
# What the scans of two vectors compute

A scan collects on which sides a vector is better somewhere and may stop early. Its outcome is that
of looking at all places. Over a linear order the outcome is left exactly when the left vector is
componentwise at most the right one and differs from it.

## Main definitions

- `betterSomewhere` — some place of two vectors where the first is better

## Main statements

- `advantage_eq` — the scan, early stop included, looks for such places on both sides
- `advantage_dominance_eq_left_iff` — dominance over a linear order is the strict product order
- `advantage_isTie_iff` — over a linear order only equal vectors tie
- `advantage_incomparable_iff` — both sides are better somewhere when neither is at most the other
-/

namespace ParetoFront

variable {α : Type}

/-- The vector `xs` is better than `ys` at some place that both have. -/
def betterSomewhere (less : α → α → Bool) (xs ys : List α) : Bool :=
  (xs.zip ys).any fun p => less p.1 p.2

@[simp] theorem betterSomewhere_cons (less : α → α → Bool) (x y : α) (xs ys : List α) :
    betterSomewhere less (x :: xs) (y :: ys) = (less x y || betterSomewhere less xs ys) :=
  rfl

@[simp] theorem betterSomewhere_nil_left (less : α → α → Bool) (ys : List α) :
    betterSomewhere less [] ys = false :=
  rfl

@[simp] theorem betterSomewhere_nil_right (less : α → α → Bool) (xs : List α) :
    betterSomewhere less xs [] = false := by
  cases xs <;> rfl

/-- Stopping early loses nothing: once both sides have been better, they stay so. -/
theorem advantage_eq {less : α → α → Bool} (asymm : ∀ x y, less x y = true → less y x = false)
    (soFar : Advantage) (xs ys : List α) :
    advantage less soFar xs ys =
      ⟨soFar.left || betterSomewhere less xs ys, soFar.right || betterSomewhere less ys xs⟩ := by
  induction xs generalizing ys soFar with
  | nil => simp [advantage]
  | cons x xs ih =>
    cases ys with
    | nil => simp [advantage]
    | cons y ys =>
      obtain ⟨l, r⟩ := soFar
      rw [advantage, betterSomewhere_cons, betterSomewhere_cons]
      by_cases hxy : less x y = true
      · rw [if_pos hxy, ih, hxy, asymm x y hxy]
        cases r <;> simp
      · rw [if_neg hxy, eq_false_of_ne_true hxy]
        by_cases hyx : less y x = true
        · rw [if_pos hyx, ih, hyx]
          cases l <;> simp
        · rw [if_neg hyx, eq_false_of_ne_true hyx, ih]
          cases l <;> cases r <;> simp

theorem advantage_swap {less : α → α → Bool}
    (asymm : ∀ x y, less x y = true → less y x = false) (xs ys : List α) :
    advantage less ⟨false, false⟩ ys xs =
      ⟨(advantage less ⟨false, false⟩ xs ys).right, (advantage less ⟨false, false⟩ xs ys).left⟩ := by
  rw [advantage_eq asymm, advantage_eq asymm]

theorem Advantage.dominance_swap (a : Advantage) :
    Advantage.dominance ⟨a.right, a.left⟩ = a.dominance.swap := by
  obtain ⟨l, r⟩ := a
  cases l <;> cases r <;> rfl

theorem Advantage.isTie_swap (a : Advantage) : Advantage.isTie ⟨a.right, a.left⟩ = a.isTie :=
  Bool.and_comm ..

/-- A scan only depends on how the elements compare. -/
theorem advantage_map {β : Type} {less : α → α → Bool} {less' : β → β → Bool} (f : α → β)
    (soFar : Advantage) {xs ys : List α} (agree : ∀ x ∈ xs, ∀ y ∈ ys, less x y = less' (f x) (f y))
    (agree' : ∀ x ∈ xs, ∀ y ∈ ys, less y x = less' (f y) (f x)) :
    advantage less soFar xs ys = advantage less' soFar (xs.map f) (ys.map f) := by
  induction xs generalizing ys soFar with
  | nil => rfl
  | cons x xs ih =>
    cases ys with
    | nil => rfl
    | cons y ys =>
      have tail (s : Advantage) := @ih s ys
        (fun x' hx y' hy => agree x' (List.mem_cons_of_mem _ hx) y' (List.mem_cons_of_mem _ hy))
        (fun x' hx y' hy => agree' x' (List.mem_cons_of_mem _ hx) y' (List.mem_cons_of_mem _ hy))
      simp only [advantage, List.map_cons, tail]
      rw [agree x List.mem_cons_self y List.mem_cons_self,
        agree' x List.mem_cons_self y List.mem_cons_self]

section LinearOrder

variable {κ : Type} [LinearOrder κ]

/-- The strict comparison of a linear order, as a test. -/
def strictlyLess (x y : κ) : Bool :=
  decide (x < y)

theorem strictlyLess_asymm (x y : κ) (h : strictlyLess x y = true) : strictlyLess y x = false :=
  decide_eq_false (lt_asymm (of_decide_eq_true h))

theorem betterSomewhere_eq_false_iff {xs ys : List κ} (h : xs.length = ys.length) :
    betterSomewhere strictlyLess ys xs = false ↔ List.Forall₂ (· ≤ ·) xs ys := by
  induction xs generalizing ys with
  | nil =>
    obtain rfl := List.length_eq_zero_iff.1 h.symm
    simp
  | cons x xs ih =>
    cases ys with
    | nil => simp at h
    | cons y ys => simp [ih (Nat.succ.inj h), strictlyLess]

theorem forall₂_le_antisymm {xs ys : List κ} (h₁ : List.Forall₂ (· ≤ ·) xs ys)
    (h₂ : List.Forall₂ (· ≤ ·) ys xs) : xs = ys := by
  induction h₁ with
  | nil => rfl
  | cons h _ ih =>
    cases h₂ with
    | cons h' t' => rw [le_antisymm h h', ih t']

theorem forall₂_le_trans {xs ys zs : List κ} (h₁ : List.Forall₂ (· ≤ ·) xs ys)
    (h₂ : List.Forall₂ (· ≤ ·) ys zs) : List.Forall₂ (· ≤ ·) xs zs := by
  induction h₁ generalizing zs with
  | nil => exact h₂
  | cons h _ ih =>
    cases h₂ with
    | cons h' t' => exact .cons (h.trans h') (ih t')

theorem strictlyBelow_trans {xs ys zs : List κ} (h₁ : List.Forall₂ (· ≤ ·) xs ys ∧ xs ≠ ys)
    (h₂ : List.Forall₂ (· ≤ ·) ys zs ∧ ys ≠ zs) : List.Forall₂ (· ≤ ·) xs zs ∧ xs ≠ zs := by
  refine ⟨forall₂_le_trans h₁.1 h₂.1, ?_⟩
  rintro rfl
  exact h₁.2 (forall₂_le_antisymm h₁.1 h₂.1)

/-- A strict order of vectors with ties among equal ones is transitive when the tie-break is. -/
theorem belowOrTied_trans {xs ys zs : List κ} {first second both : Prop}
    (trans : first → second → both)
    (h₁ : List.Forall₂ (· ≤ ·) xs ys ∧ xs ≠ ys ∨ xs = ys ∧ first)
    (h₂ : List.Forall₂ (· ≤ ·) ys zs ∧ ys ≠ zs ∨ ys = zs ∧ second) :
    List.Forall₂ (· ≤ ·) xs zs ∧ xs ≠ zs ∨ xs = zs ∧ both := by
  obtain below | ⟨rfl, h₁⟩ := h₁
  · obtain below' | ⟨rfl, -⟩ := h₂
    · exact .inl (strictlyBelow_trans below below')
    · exact .inl below
  · exact h₂.imp_right fun h => ⟨h.1, trans h₁ h.2⟩

/-- Neither side is better anywhere exactly when the vectors are equal. -/
theorem advantage_isTie_iff {xs ys : List κ} (h : xs.length = ys.length) :
    (advantage strictlyLess ⟨false, false⟩ xs ys).isTie = true ↔ xs = ys := by
  rw [advantage_eq strictlyLess_asymm]
  simp only [Advantage.isTie, Bool.false_or, Bool.and_eq_true, Bool.not_eq_true']
  rw [betterSomewhere_eq_false_iff h, betterSomewhere_eq_false_iff h.symm]
  constructor
  · rintro ⟨h₁, h₂⟩
    exact (forall₂_le_antisymm h₁ h₂).symm
  · rintro rfl
    exact ⟨List.forall₂_refl _, List.forall₂_refl _⟩

/-- Dominance of vectors over a linear order is the strict part of the componentwise order. -/
theorem advantage_dominance_eq_left_iff {xs ys : List κ} (h : xs.length = ys.length) :
    (advantage strictlyLess ⟨false, false⟩ xs ys).dominance = .left ↔
      List.Forall₂ (· ≤ ·) xs ys ∧ xs ≠ ys := by
  have hle := betterSomewhere_eq_false_iff h
  have hge := betterSomewhere_eq_false_iff h.symm
  rw [advantage_eq strictlyLess_asymm]
  simp only [Bool.false_or]
  constructor
  · intro dominates
    cases hr : betterSomewhere strictlyLess ys xs with
    | true =>
      cases hl : betterSomewhere strictlyLess xs ys <;>
        simp [hl, hr, Advantage.dominance] at dominates
    | false =>
      refine ⟨hle.1 hr, ?_⟩
      rintro rfl
      simp [hr, Advantage.dominance] at dominates
  · rintro ⟨le, ne⟩
    rw [hle.2 le]
    cases hl : betterSomewhere strictlyLess xs ys with
    | true => rfl
    | false => exact absurd (forall₂_le_antisymm le (hge.1 hl)) ne

/-- Both sides are better somewhere exactly when neither vector is componentwise at most the
other. -/
theorem advantage_incomparable_iff {xs ys : List κ} (h : xs.length = ys.length) :
    (advantage strictlyLess ⟨false, false⟩ xs ys).dominance = .neither ∧
        (advantage strictlyLess ⟨false, false⟩ xs ys).isTie = false ↔
      ¬ List.Forall₂ (· ≤ ·) xs ys ∧ ¬ List.Forall₂ (· ≤ ·) ys xs := by
  rw [← betterSomewhere_eq_false_iff h, ← betterSomewhere_eq_false_iff h.symm,
    advantage_eq strictlyLess_asymm]
  cases betterSomewhere strictlyLess xs ys <;> cases betterSomewhere strictlyLess ys xs <;>
    simp [Advantage.dominance, Advantage.isTie]

end LinearOrder

end ParetoFront
