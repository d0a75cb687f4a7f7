import ParetoFront.Proofs.Number.Extremes
import ParetoFront.Proofs.Number.Order

/-!
# The total order and the numerical order

The bit pattern of a float without its sign is the exponent field followed by the mantissa field,
and read as a number it grows with the magnitude. So finite floats in ascending total order are in
ascending numerical order, where the two zeros are one place.

## Main definitions

- `totalPlace` — the place of an unpacked finite float in the total order
- `OppositeZeros` — numerically equal floats that are not the same

## Main statements

- `totalKey_eq_signedPlace` — the sign bit and the other bits
- `totalKey_eq` — the place of a finite float from its sign, mantissa and exponent
- `units_le_of_totalKey_le` — the two orders agree on finite floats
- `eq_or_oppositeZeros` — numerical equality of finite floats
- `eq_of_unpack_eq_infinity` — an infinity is one bit pattern
-/

namespace ParetoFront.Number

open Float.Model (UnpackedFloat Format)
open Float.Model.UnpackedFloat

theorem toNat_unpackMantissa (b : BitVec 64) :
    (@unpackMantissa Format.binary64 b).toNat = b.toNat % 2 ^ 52 := by
  show ((b.extractLsb 51 0).cast _).toNat = _
  rw [BitVec.toNat_cast, BitVec.extractLsb_toNat, Nat.shiftRight_zero]

theorem toNat_unpackExponent (b : BitVec 64) :
    (@unpackExponent Format.binary64 b).toNat = b.toNat / 2 ^ 52 % 2 ^ 11 := by
  show ((b.extractLsb 62 52).cast _).toNat = _
  rw [BitVec.toNat_cast, BitVec.extractLsb_toNat, Nat.shiftRight_eq_div_pow]

theorem toNat_unpackSign (b : BitVec 64) :
    (@unpackSign Format.binary64 b).toNat = b.toNat / 2 ^ 63 := by
  show ((b.extractLsb 63 63).cast _).toNat = _
  have := b.isLt
  rw [BitVec.toNat_cast, BitVec.extractLsb_toNat, Nat.shiftRight_eq_div_pow]
  omega

/-- A place before the zeros for each magnitude with a negative sign. -/
def signedPlace : Sign → Int → Int
  | .positive, k => k
  | .negative, k => -1 - k

/-- The place of an unpacked finite float in the total order. -/
def totalPlace : UnpackedFloat → Int
  | .zero s => signedPlace s 0
  | .finite s m e _ => signedPlace s ((e + 1074) * 2 ^ 52 + m)
  | .infinity _ | .notANumber => 0

/-- The sign bit splits the places in two halves. -/
theorem totalKey_eq_signedPlace (x : Float) :
    totalKey x = signedPlace (Sign.ofBitVec (@unpackSign Format.binary64 x.toModel.toBits.toBitVec))
      (x.toBits.toNat % 2 ^ 63 : Nat) := by
  have bound := x.toBits.toNat_lt
  have signBit := toNat_unpackSign x.toModel.toBits.toBitVec
  change _ = x.toBits.toNat / 2 ^ 63 at signBit
  rw [totalKey, Sign.ofBitVec]
  by_cases positive : x.toBits.toNat < 0x8000000000000000
  · have none : @unpackSign Format.binary64 x.toModel.toBits.toBitVec = 0#1 :=
      BitVec.eq_of_toNat_eq (by rw [signBit, BitVec.toNat_zero]; omega)
    rw [if_pos none]
    simp only [if_pos positive, signedPlace]
    omega
  · have set : @unpackSign Format.binary64 x.toModel.toBits.toBitVec ≠ 0#1 := by
      intro none
      rw [none, BitVec.toNat_zero] at signBit
      omega
    rw [if_neg set]
    simp only [if_neg positive, signedPlace]
    omega

theorem totalKey_eq {x : Float} (finite : x.isFinite = true) :
    totalKey x = totalPlace x.toModel.unpack := by
  have mantissa := toNat_unpackMantissa x.toModel.toBits.toBitVec
  have exponent := toNat_unpackExponent x.toModel.toBits.toBitVec
  have implicit := toNat_implicitBit (@unpackMantissa Format.binary64 x.toModel.toBits.toBitVec)
  have bits : x.toBits.toNat = x.toModel.toBits.toBitVec.toNat := rfl
  have bias : ((Format.binary64.exponentBias : Int) + (52 : Nat)) = 1075 := rfl
  change x.toModel.unpack.isFinite = true at finite
  rw [totalKey_eq_signedPlace]
  unfold Float.Model.unpack UnpackedFloat.unpack at finite ⊢
  dsimp only at finite ⊢
  rw [bias] at finite ⊢
  split at finite
  · split at finite <;> cases finite
  · next notAllOnes =>
    rw [if_neg notAllOnes]
    split
    · next none =>
      rw [none, BitVec.toNat_zero] at exponent
      split
      · next empty =>
        rw [empty, BitVec.toNat_zero] at mantissa
        refine congrArg _ ?_
        omega
      · refine congrArg _ ?_
        rw [none, BitVec.toNat_zero]
        omega
    · next some =>
      have positive : (@unpackExponent Format.binary64 x.toModel.toBits.toBitVec).toNat ≠ 0 :=
        fun none => some (BitVec.eq_of_toNat_eq none)
      refine congrArg _ ?_
      rw [implicit]
      omega

theorem magnitude_le_of_place_le {s t : Sign} {m n : Nat} {e f : Int} {p : 0 < m} {q : 0 < n}
    (hu : Canonical (.finite s m e p)) (hv : Canonical (.finite t n f q))
    (le : (e + 1074) * 2 ^ 52 + m ≤ (f + 1074) * 2 ^ 52 + n) : magnitude m e ≤ magnitude n f := by
  obtain ⟨upper₁, lower₁, -, normal₁⟩ := hu
  obtain ⟨upper₂, lower₂, -, normal₂⟩ := hv
  obtain lt | rfl | gt := lt_trichotomy e f
  · exact (magnitude_lt_of_exponent_lt upper₁ (normal₂.resolve_right (by omega)) lower₁ lt).le
  · have : (m : Int) ≤ n := by omega
    exact mul_le_mul_of_nonneg_right this (by positivity)
  · omega

theorem unpackedUnits_le_of_totalPlace_le {u v : UnpackedFloat} (hu : Canonical u)
    (hv : Canonical v) (finite : u.isFinite = true ∧ v.isFinite = true)
    (le : totalPlace u ≤ totalPlace v) : unpackedUnits u ≤ unpackedUnits v := by
  cases u with
  | notANumber | infinity => exact absurd finite.1 Bool.false_ne_true
  | zero s =>
    cases v with
    | notANumber | infinity => exact absurd finite.2 Bool.false_ne_true
    | zero t => exact le_rfl
    | finite t n f q =>
      have := magnitude_pos f q
      have := hv.2.1
      cases s <;> cases t <;>
        simp only [totalPlace, signedPlace, unpackedUnits, Sign.apply] at le ⊢ <;> omega
  | finite s m e p =>
    have := magnitude_pos e p
    have := hu.2.1
    cases v with
    | notANumber | infinity => exact absurd finite.2 Bool.false_ne_true
    | zero t =>
      cases s <;> cases t <;>
        simp only [totalPlace, signedPlace, unpackedUnits, Sign.apply] at le ⊢ <;> omega
    | finite t n f q =>
      have := magnitude_pos f q
      have := hv.2.1
      cases s <;> cases t <;>
        simp only [totalPlace, signedPlace, unpackedUnits, Sign.apply] at le ⊢
      · -- of two negative floats the one of the larger magnitude comes first
        have := magnitude_le_of_place_le hv hu (by omega)
        omega
      · omega
      · omega
      · exact magnitude_le_of_place_le hu hv le

/-- Finite floats in ascending total order are in ascending numerical order. -/
theorem units_le_of_totalKey_le {x y : Float} (finite : x.isFinite = true ∧ y.isFinite = true)
    (le : totalKey x ≤ totalKey y) : units x ≤ units y := by
  rw [totalKey_eq finite.1, totalKey_eq finite.2] at le
  exact unpackedUnits_le_of_totalPlace_le (unpack_canonical x) (unpack_canonical y) finite le

/-! ### Numerically equal floats -/

/-- The two zeros, which are numerically equal. -/
def OppositeZeros (x y : Float) : Prop :=
  x = 0 ∧ y = -0.0 ∨ x = -0.0 ∧ y = 0

theorem eq_of_magnitude_eq {s t : Sign} {m n : Nat} {e f : Int} {p : 0 < m} {q : 0 < n}
    (hu : Canonical (.finite s m e p)) (hv : Canonical (.finite t n f q))
    (same : magnitude m e = magnitude n f) : m = n ∧ e = f := by
  have compared := compare_magnitudes hu hv
  rw [compare_eq_iff_eq.2 same, Ordering.then_eq_eq, compare_eq_iff_eq, compare_eq_iff_eq]
    at compared
  exact compared.symm

/-- Only zeros share their numerical place with another unpacked float. -/
theorem eq_of_unpackedUnits_eq {u v : UnpackedFloat} (hu : Canonical u) (hv : Canonical v)
    (finite : u.isFinite = true ∧ v.isFinite = true) (same : unpackedUnits u = unpackedUnits v) :
    u = v ∨ ∃ s t, u = .zero s ∧ v = .zero t := by
  cases u with
  | notANumber | infinity => exact absurd finite.1 Bool.false_ne_true
  | zero s =>
    cases v with
    | notANumber | infinity => exact absurd finite.2 Bool.false_ne_true
    | zero t => exact .inr ⟨s, t, rfl, rfl⟩
    | finite t n f q =>
      have := magnitude_pos f q
      cases t <;> simp only [unpackedUnits, Sign.apply] at same <;> omega
  | finite s m e p =>
    have := magnitude_pos e p
    cases v with
    | notANumber | infinity => exact absurd finite.2 Bool.false_ne_true
    | zero t => cases s <;> simp only [unpackedUnits, Sign.apply] at same <;> omega
    | finite t n f q =>
      have := magnitude_pos f q
      obtain ⟨signs, magnitudes⟩ : s = t ∧ magnitude m e = magnitude n f := by
        cases s <;> cases t <;> simp only [unpackedUnits, Sign.apply] at same
        · exact ⟨rfl, by omega⟩
        · omega
        · omega
        · exact ⟨rfl, same⟩
      obtain ⟨rfl, rfl⟩ := eq_of_magnitude_eq hu hv magnitudes
      exact .inl (signs ▸ rfl)

theorem eq_of_unpack_eq {x y : Float} (finite : x.isFinite = true ∧ y.isFinite = true)
    (same : x.toModel.unpack = y.toModel.unpack) : x = y :=
  totalKey_injective (by rw [totalKey_eq finite.1, totalKey_eq finite.2, same])

/-- Each sign has one zero. -/
theorem eq_zero_of_unpack {x : Float} {s : Sign} (form : x.toModel.unpack = .zero s) :
    s = .positive ∧ x = 0 ∨ s = .negative ∧ x = -0.0 := by
  have finite : x.isFinite = true := by
    change x.toModel.unpack.isFinite = true
    rw [form]
    rfl
  cases s with
  | positive => exact .inl ⟨rfl, eq_of_unpack_eq ⟨finite, rfl⟩ form⟩
  | negative => exact .inr ⟨rfl, eq_of_unpack_eq ⟨finite, rfl⟩ form⟩

/-- Numerically equal finite floats are the same, or they are the two zeros. -/
theorem eq_or_oppositeZeros {x y : Float} (finite : x.isFinite = true ∧ y.isFinite = true)
    (same : units x = units y) : x = y ∨ OppositeZeros x y := by
  obtain same | ⟨s, t, first, second⟩ :=
    eq_of_unpackedUnits_eq (unpack_canonical x) (unpack_canonical y) finite same
  · exact .inl (eq_of_unpack_eq finite same)
  · obtain ⟨-, rfl⟩ | ⟨-, rfl⟩ := eq_zero_of_unpack first <;>
      obtain ⟨-, rfl⟩ | ⟨-, rfl⟩ := eq_zero_of_unpack second
    · exact .inl rfl
    · exact .inr (.inl ⟨rfl, rfl⟩)
    · exact .inr (.inr ⟨rfl, rfl⟩)
    · exact .inl rfl

/-- In the total order the negative zero comes first. -/
theorem totalKey_negZero_lt : totalKey (-0.0) < totalKey 0 := by
  decide

theorem totalKey_of_infinity {x : Float} {s : Sign} (form : x.toModel.unpack = .infinity s) :
    totalKey x = signedPlace s (2047 * 2 ^ 52) := by
  have mantissa := toNat_unpackMantissa x.toModel.toBits.toBitVec
  have exponent := toNat_unpackExponent x.toModel.toBits.toBitVec
  have bits : x.toBits.toNat = x.toModel.toBits.toBitVec.toNat := rfl
  rw [totalKey_eq_signedPlace]
  unfold Float.Model.unpack UnpackedFloat.unpack at form
  dsimp only at form
  split at form
  · next allOnes =>
    split at form
    · next empty =>
      rw [allOnes] at exponent
      rw [empty, BitVec.toNat_zero] at mantissa
      change 2047 = _ at exponent
      rw [UnpackedFloat.infinity.inj form]
      refine congrArg _ ?_
      omega
    · cases form
  · split at form
    · split at form <;> cases form
    · cases form

/-- Each infinity is one float. -/
theorem eq_of_unpack_eq_infinity {x y : Float} {s : Sign} (first : x.toModel.unpack = .infinity s)
    (second : y.toModel.unpack = .infinity s) : x = y :=
  totalKey_injective ((totalKey_of_infinity first).trans (totalKey_of_infinity second).symm)

end ParetoFront.Number
