import ParetoFront.Proofs.Number.Arithmetic

/-!
# Floors and fractional parts

The floor of a finite float is a finite float at or below it, since an integer of at most 53 bits is
a float, so that the fractional part `x - ⌊x⌋` is at least zero. Floors are monotone, and stay so
when they are clamped to the signed 64-bit range. Of floats with the same clamped floor, the
fractional parts are in the order of the floats: either the floors are the same, or they lie outside
the range, where floats have no fractional part.

## Main statements

- `floorInt_eq`, `units_floor`, `clampedFloor_eq` — floors in terms of places
- `fractional_nonneg` — fractional parts are at least zero
- `clampedFloor_mono`, `fractional_mono` — floors, and fractional parts over one clamped floor
-/

namespace ParetoFront.Number

open Float.Model (UnpackedFloat Format)
open Float.Model.UnpackedFloat

variable {x y : Float}

/-- A rounded integer of at most 53 bits keeps its value. -/
theorem unpackedUnits_round (s : Sign) {m : Nat} (p : 0 < m) (upper : m < 2 ^ 53) :
    (Float.Model.pack (UnpackedFloat.round Format.binary64 s m 0)).unpack.isFinite = true ∧
      unpackedUnits (Float.Model.pack (UnpackedFloat.round Format.binary64 s m 0)).unpack =
        s.apply m * unitsOfOne := by
  obtain ⟨k, q, le, isRound, canonical⟩ := round_of_lt s p upper (e := 0) (by decide) (by decide)
  rw [isRound, unpack_pack canonical]
  refine ⟨rfl, ?_⟩
  rw [unpackedUnits, magnitude, unitsOfOne_eq le, zero_sub, ← apply_mul]
  push_cast
  rw [mul_assoc]

/-- Integers of at most 53 bits are floats. -/
theorem unpack_ofInt {n : Int} (h : n.natAbs < 2 ^ 53) :
    (Float.Model.ofInt n).unpack.isFinite = true ∧
      unpackedUnits (Float.Model.ofInt n).unpack = n * unitsOfOne := by
  unfold Float.Model.ofInt UnpackedFloat.ofInt UnpackedFloat.normalize
  obtain negative | rfl | positive := lt_trichotomy n 0
  · obtain ⟨m, rfl⟩ : ∃ m : Nat, n = -m := ⟨n.natAbs, by omega⟩
    rw [compare_lt_iff_lt.2 negative]
    simpa [Sign.apply] using unpackedUnits_round .negative (m := m) (by omega) (by omega)
  · exact ⟨rfl, (zero_mul _).symm⟩
  · obtain ⟨m, rfl⟩ : ∃ m : Nat, n = m := ⟨n.natAbs, by omega⟩
    rw [compare_gt_iff_gt.2 positive]
    simpa [Sign.apply] using unpackedUnits_round .positive (m := m) (by omega) (by omega)

/-- Dropping binary digits does not add any. -/
theorem natAbs_shiftRight_lt {a : Int} (k : Nat) (upper : a.natAbs < 2 ^ 53) :
    (a >>> k).natAbs < 2 ^ 53 := by
  rw [Int.shiftRight_eq_div_pow]
  push_cast
  have hpos : (0 : Int) < 2 ^ k := by positivity
  -- the quotient lies between zero and the number
  obtain nonneg | nonpos := Int.le_total 0 a
  · have := Int.ediv_le_self (2 ^ k) nonneg
    have := Int.ediv_nonneg nonneg hpos.le
    omega
  · have : a ≤ a / 2 ^ k :=
      (Int.le_ediv_iff_mul_le hpos).2 (mul_le_of_one_le_right nonpos (one_le_pow₀ (by decide)))
    have := Int.ediv_nonpos_of_nonpos_of_neg nonpos hpos
    omega

theorem unpackedUnits_of_integral (s : Sign) {m : Nat} {e : Int} (p : 0 < m) (integral : 0 ≤ e) :
    unpackedUnits (.finite s m e p) = s.apply (m <<< e.toNat : Nat) * unitsOfOne := by
  have one : unitsOfOne = 2 ^ (0 + 1074 : Int).toNat := by
    rw [unitsOfOne, magnitude, Nat.cast_one, one_mul]
  rw [unpackedUnits, magnitude_eq_mul (by decide) integral, apply_mul, ← one, sub_zero]

/-- The floor of a finite float, in terms of its place. -/
theorem floorInt_eq (finite : x.isFinite = true) :
    floorInt x = units x / unitsOfOne := by
  have canonical := unpack_canonical x
  unfold floorInt units
  cases form : x.toModel.unpack with
  | notANumber | infinity =>
    change x.toModel.unpack.isFinite = true at finite
    rw [form] at finite
    contradiction
  | zero s => exact (Int.zero_ediv _).symm
  | finite s m e p =>
    rw [form] at canonical
    obtain ⟨-, lower, -⟩ := canonical
    dsimp only
    by_cases integral : 0 ≤ e
    · rw [if_pos integral, unpackedUnits_of_integral s p integral,
        Int.mul_ediv_cancel _ unitsOfOne_pos.ne']
    · obtain ⟨k, rfl⟩ : ∃ k : Nat, e = -k := ⟨e.natAbs, by omega⟩
      have exponent : (- -(k : Int)).toNat = k := by omega
      rw [if_neg integral, exponent, unpackedUnits, magnitude, @unitsOfOne_eq k (by omega),
        apply_mul, Int.mul_ediv_mul_of_pos_left _ _ (by positivity), Int.shiftRight_eq_div_pow]
      push_cast
      rfl

/-- A finite float is its own floor, or its floor is an integer of at most 53 bits. -/
theorem floor_eq (finite : x.isFinite = true) :
    (floor x = x ∧ units x = floorInt x * unitsOfOne) ∨
      ((floorInt x).natAbs < 2 ^ 53 ∧ floor x = .ofModel (.ofInt (floorInt x))) := by
  have canonical := unpack_canonical x
  unfold floor floorInt units
  cases form : x.toModel.unpack with
  | notANumber | infinity =>
    change x.toModel.unpack.isFinite = true at finite
    rw [form] at finite
    contradiction
  | zero s => exact Or.inl ⟨rfl, (zero_mul _).symm⟩
  | finite s m e p =>
    rw [form] at canonical
    dsimp only
    by_cases integral : 0 ≤ e
    · simp only [if_pos integral]
      exact Or.inl ⟨trivial, unpackedUnits_of_integral s p integral⟩
    · simp only [if_neg integral]
      refine Or.inr ⟨natAbs_shiftRight_lt _ ?_, trivial⟩
      cases s <;> simpa [Sign.apply] using canonical.1

theorem units_floor (finite : x.isFinite = true) :
    (floor x).isFinite = true ∧ units (floor x) = floorInt x * unitsOfOne := by
  obtain ⟨same, place⟩ | ⟨short, same⟩ := floor_eq finite
  · rw [same]
    exact ⟨finite, place⟩
  · rw [same]
    exact unpack_ofInt short

/-- The fractional part of a finite float is at least zero. -/
theorem fractional_nonneg (finite : x.isFinite = true) : 0 ≤ x - floor x := by
  obtain ⟨isFinite, place⟩ := units_floor finite
  refine sub_nonneg ⟨finite, isFinite⟩ ?_
  rw [place, floorInt_eq finite]
  exact Int.ediv_mul_le _ unitsOfOne_pos.ne'

/-! ### Monotone floors -/

theorem clampInt64_mono {a b : Int} (le : a ≤ b) : clampInt64 a ≤ clampInt64 b :=
  max_le_max le_rfl (min_le_min le_rfl le)

/-- The infinities lie outside the signed 64-bit range. -/
theorem exists_infiniteUnits_eq : ∃ n : Int, 2 ^ 63 ≤ n ∧ infiniteUnits = n * unitsOfOne := by
  have place := unpackedUnits_of_integral .positive (m := 2 ^ 53) (e := 971) (by decide) (by decide)
  rw [unpackedUnits, Sign.apply, ← infiniteUnits] at place
  have long : 10 ≤ (971 : Int).toNat := by decide
  generalize (971 : Int).toNat = k at place long
  refine ⟨_, ?_, place⟩
  have := Nat.mul_le_mul_left (2 ^ 53) (Nat.pow_le_pow_right two_pos long)
  rw [Sign.apply, Nat.shiftLeft_eq]
  exact_mod_cast this

theorem clampedFloor_eq (number : x.isNaN = false) :
    clampedFloor x = clampInt64 (units x / unitsOfOne) := by
  cases finite : x.isFinite with
  | true =>
    rw [← floorInt_eq finite, clampedFloor]
    change x.toModel.unpack.isFinite = true at finite
    revert finite
    cases x.toModel.unpack with
    | notANumber | infinity => exact fun finite => absurd finite Bool.false_ne_true
    | zero | finite => exact fun _ => rfl
  | false =>
    obtain ⟨s, form, place⟩ := exists_infinity number finite
    obtain ⟨n, outside, infinite⟩ := exists_infiniteUnits_eq
    rw [clampedFloor, form, place, infinite, apply_mul, Int.mul_ediv_cancel _ unitsOfOne_pos.ne']
    cases s <;> simp only [Sign.apply, clampInt64, maxInt64, minInt64] <;> omega

/-- Clamped floors are monotone. -/
theorem clampedFloor_mono (le : x ≤ y) : clampedFloor x ≤ clampedFloor y := by
  obtain ⟨⟨hx, hy⟩, place⟩ := le_iff.1 le
  rw [clampedFloor_eq hx, clampedFloor_eq hy]
  exact clampInt64_mono (Int.ediv_le_ediv unitsOfOne_pos place)

/-- Floats of 53 bits before the point have no fractional part. -/
theorem units_eq_of_le (finite : x.isFinite = true) (long : 2 ^ 53 ≤ (floorInt x).natAbs) :
    units x = floorInt x * unitsOfOne := by
  obtain ⟨-, place⟩ | ⟨short, -⟩ := floor_eq finite
  · exact place
  · omega

/-- Fractional parts over one clamped floor are monotone. -/
theorem fractional_mono (finite : x.isFinite = true ∧ y.isFinite = true) (le : x ≤ y)
    (same : clampedFloor x = clampedFloor y) : x - floor x ≤ y - floor y := by
  obtain ⟨⟨hx, hy⟩, place⟩ := le_iff.1 le
  obtain ⟨isFinite, floorx⟩ := units_floor finite.1
  obtain ⟨isFinite', floory⟩ := units_floor finite.2
  rw [clampedFloor_eq hx, clampedFloor_eq hy, ← floorInt_eq finite.1, ← floorInt_eq finite.2,
    clampInt64, clampInt64, maxInt64, minInt64] at same
  refine sub_mono ⟨finite.1, isFinite⟩ ⟨finite.2, isFinite'⟩ ?_
  rw [floorx, floory]
  by_cases shared : floorInt x = floorInt y
  · rw [shared]
    exact Int.sub_le_sub_right place _
  · rw [units_eq_of_le finite.1 (by omega), units_eq_of_le finite.2 (by omega), sub_self, sub_self]

end ParetoFront.Number
