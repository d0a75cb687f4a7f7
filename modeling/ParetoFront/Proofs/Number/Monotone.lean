import ParetoFront.Proofs.Number.Arithmetic
import ParetoFront.Proofs.Number.Positive

/-!
# Monotone arithmetic

Rounding is monotone, so sums of floats that are at least zero and quotients by a positive finite
float are. Infinite operands keep them so.

## Main statements

- `add_mono`, `sum_mono` — sums of floats that are at least zero
- `div_mono` — quotients by a positive finite float
- `div_ne_infinite` — quotients by what is at least as large
-/

namespace ParetoFront.Number

open Float.Model (UnpackedFloat Format)
open Float.Model.UnpackedFloat

variable {x y z w ε : Float}

/-! ### Sums -/

theorem nonneg_of_le (h : 0 ≤ x) (le : x ≤ y) : 0 ≤ y := by
  rw [le_iff] at *
  exact ⟨⟨h.1.1, le.1.2⟩, h.2.trans le.2⟩

theorem le_infinite (number : x.isNaN = false) : x ≤ infinite :=
  le_iff.2 ⟨⟨number, rfl⟩, (abs_le.1 (abs_units_le x)).2⟩

theorem isFinite_of_nonneg (nonneg : 0 ≤ x) (bounded : x ≠ infinite) : x.isFinite = true := by
  by_contra unbounded
  obtain ⟨s, form, place⟩ :=
    exists_infinity (isNaN_of_nonneg nonneg) (Bool.eq_false_of_not_eq_true unbounded)
  cases s with
  | positive => exact bounded (eq_infinite_iff.2 form)
  | negative =>
    have := infiniteUnits_pos
    have : 0 ≤ units x := (le_iff.1 nonneg).2
    simp only [Sign.apply] at place
    omega

theorem isFinite_of_le (nonneg : 0 ≤ x) (le : x ≤ y) (finite : y.isFinite = true) :
    x.isFinite = true := by
  refine isFinite_of_nonneg nonneg ?_
  rintro rfl
  have := abs_lt.1 (abs_units_lt finite)
  exact absurd ((le_iff.1 le).2.trans_lt this.2) (lt_irrefl infiniteUnits)

/-- Sums of floats that are at least zero. -/
theorem add_mono (hx : 0 ≤ x) (hy : 0 ≤ y) (hxz : x ≤ z) (hyw : y ≤ w) : x + y ≤ z + w := by
  have hz := nonneg_of_le hx hxz
  have hw := nonneg_of_le hy hyw
  have number := isNaN_of_nonneg (add_nonneg hx hy)
  by_cases first : z = infinite
  · rw [first, infinite_add hw]
    exact le_infinite number
  by_cases second : w = infinite
  · rw [second, add_infinite hz]
    exact le_infinite number
  have finite := And.intro (isFinite_of_nonneg hz first) (isFinite_of_nonneg hw second)
  refine (RoundsTo.add (unpack_canonical x) (unpack_canonical y) ?_).le
    (.add (unpack_canonical z) (unpack_canonical w) finite) (Int.cast_le.2 ?_)
  · exact ⟨isFinite_of_le hx hxz finite.1, isFinite_of_le hy hyw finite.2⟩
  · exact Int.add_le_add (le_iff.1 hxz).2 (le_iff.1 hyw).2

theorem foldl_add_mono {xs ys : List Float} (h : List.Forall₂ (fun x y => 0 ≤ x ∧ x ≤ y) xs ys)
    (nonneg : 0 ≤ x) (le : x ≤ y) : xs.foldl (· + ·) x ≤ ys.foldl (· + ·) y := by
  induction h generalizing x y with
  | nil => exact le
  | cons next _ ih => exact ih (add_nonneg nonneg next.1) (add_mono nonneg next.1 le next.2)

/-- Sums of any number of floats that are at least zero. -/
theorem sum_mono {xs ys : List Float} (h : List.Forall₂ (fun x y => 0 ≤ x ∧ x ≤ y) xs ys) :
    sum xs ≤ sum ys :=
  foldl_add_mono h (by decide) (by decide)

/-! ### Quotients -/

theorem unpack_of_pos (finite : ε.isFinite = true) (pos : 0 < ε) :
    ∃ n f q, ε.toModel.unpack = .finite .positive n f q := by
  obtain ⟨positive, notZero⟩ := pos_iff.1 pos
  change ε.toModel.unpack.isFinite = true at finite
  cases form : ε.toModel.unpack with
  | notANumber | infinity =>
    rw [form] at finite
    exact absurd finite Bool.false_ne_true
  | zero s =>
    rw [form] at positive notZero
    cases positive
    exact absurd rfl notZero
  | finite s n f q =>
    rw [form] at positive
    cases positive
    exact ⟨n, f, q, rfl⟩

section Quotients

variable (width : ε.isFinite = true) (pos : 0 < ε)
include width pos

theorem div_eq_self (number : x.isNaN = false) (unbounded : x.isFinite = false) : x / ε = x := by
  obtain ⟨n, f, q, divisor⟩ := unpack_of_pos width pos
  obtain ⟨s, form, -⟩ := exists_infinity number unbounded
  refine eq_of_unpack_eq_infinity (s := s) ?_ form
  show (Float.Model.pack (div Format.binary64 x.toModel.unpack ε.toModel.unpack)).unpack = _
  rw [form, divisor]
  cases s <;> exact unpack_pack (u := .infinity _) trivial

theorem RoundsTo.div_width (finite : x.isFinite = true) :
    RoundsTo (UnpackedFloat.div Format.binary64 x.toModel.unpack ε.toModel.unpack)
      (units x * unitsOfOne / units ε) := by
  obtain ⟨n, f, q, divisor⟩ := unpack_of_pos width pos
  have canonical := unpack_canonical ε
  rw [units, units, divisor] at *
  exact .div (unpack_canonical x) finite canonical

theorem isNaN_div (number : x.isNaN = false) : (x / ε).isNaN = false := by
  cases finite : x.isFinite with
  | false => rwa [div_eq_self width pos number finite]
  | true => exact (isNaN_unpack_pack _).trans (RoundsTo.div_width width pos finite).isNaN

/-- Quotients by a positive finite float. -/
theorem div_mono (le : x ≤ y) : x / ε ≤ y / ε := by
  obtain ⟨⟨hx, hy⟩, place⟩ := le_iff.1 le
  have := infiniteUnits_pos
  cases first : x.isFinite <;> cases second : y.isFinite
  · rwa [div_eq_self width pos hx first, div_eq_self width pos hy second]
  · -- what is not finite and below a finite float is the negative infinity
    have inside := abs_lt.1 (abs_units_lt second)
    have bound := abs_le.1 (abs_units_le (y / ε))
    obtain ⟨s, -, isInfinite⟩ := exists_infinity hx first
    rw [div_eq_self width pos hx first]
    refine le_iff.2 ⟨⟨hx, isNaN_div width pos hy⟩, ?_⟩
    cases s <;> simp only [Sign.apply] at isInfinite <;> omega
  · have inside := abs_lt.1 (abs_units_lt first)
    have bound := abs_le.1 (abs_units_le (x / ε))
    obtain ⟨s, -, isInfinite⟩ := exists_infinity hy second
    rw [div_eq_self width pos hy second]
    refine le_iff.2 ⟨⟨isNaN_div width pos hx, hy⟩, ?_⟩
    cases s <;> simp only [Sign.apply] at isInfinite <;> omega
  · have divisor : (0 : ℚ) < units ε := by exact_mod_cast (lt_iff.1 pos).2
    have one : (0 : ℚ) ≤ unitsOfOne := by exact_mod_cast unitsOfOne_pos.le
    refine (RoundsTo.div_width width pos first).le (.div_width width pos second) ?_
    gcongr

theorem div_self_le_one : ε / ε ≤ 1 := by
  have divisor : (units ε : ℚ) ≠ 0 := by exact_mod_cast (lt_iff.1 pos).2.ne'
  have one := RoundsTo.self (u := .finite .positive (2 ^ 52) (-52) (by decide))
    ⟨by decide, by decide, by decide, .inl le_rfl⟩ rfl
  have place : unpackedUnits (.finite .positive (2 ^ 52) (-52) (by decide)) = unitsOfOne :=
    (unitsOfOne_eq (k := 52) (by decide)).symm
  rw [place] at one
  refine (RoundsTo.div_width width pos width).le one ?_
  rw [mul_div_cancel_left₀ _ divisor]

end Quotients

theorem div_infinite_ne_infinite (x : Float) : x / infinite ≠ infinite := by
  have quotient (u : UnpackedFloat) : div Format.binary64 u (.infinity .positive) = .notANumber ∨
      ∃ s, div Format.binary64 u (.infinity .positive) = .zero s := by
    cases u with
    | notANumber => exact .inl rfl
    | infinity s => exact .inl rfl
    | zero s | finite s => exact .inr ⟨_, rfl⟩
  rw [Ne, eq_infinite_iff]
  show ¬(Float.Model.pack (div Format.binary64 x.toModel.unpack (.infinity .positive))).unpack =
    .infinity .positive
  obtain undefined | ⟨s, zero⟩ := quotient x.toModel.unpack
  · rw [undefined, unpack_pack (u := .notANumber) trivial]
    exact nofun
  · rw [zero, unpack_pack (u := .zero s) trivial]
    exact nofun

/-- What is at most the divisor is not infinitely many times as large. -/
theorem div_ne_infinite (hx : 0 ≤ x) (le : x ≤ y) (pos : 0 < y) : x / y ≠ infinite := by
  by_cases unbounded : y = infinite
  · rw [unbounded]
    exact div_infinite_ne_infinite x
  · have finite := isFinite_of_nonneg (nonneg_of_le hx le) unbounded
    intro quotient
    have bound : infinite ≤ y / y := quotient ▸ div_mono finite pos le
    have inside : (y / y).isFinite = true :=
      isFinite_of_le (nonneg_of_le nonneg_infinite bound) (div_self_le_one finite pos) rfl
    exact absurd (isFinite_of_le nonneg_infinite bound inside) (by decide)

end ParetoFront.Number
