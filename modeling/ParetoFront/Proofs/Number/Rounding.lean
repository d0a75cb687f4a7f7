import ParetoFront.Proofs.Number.Order

/-!
# Rounding to 53 bits

Rounding drops the bits of a mantissa beyond the 53rd, or those below the smallest exponent, and
may then add one in the last place. What comes out has the canonical shape, except that its exponent
may be too large for a float. Packing turns it into an infinity in this case and keeps it otherwise.

## Main definitions

- `IsRounded` — the shape of what rounding gives

## Main statements

- `roundWithAccuracy_eq` — rounding gives zero or a rounded form, with a bound on its exponent
- `unpack_pack_of_isRounded` — packing a rounded form
- `round_eq_roundWithAccuracy` — rounding that may add bits first
- `isFinite_ofInt` — integers of 64 bits become finite floats
-/

namespace ParetoFront.Number

open Float.Model (UnpackedFloat Format totalExponent)
open Float.Model.UnpackedFloat

/-- The mantissa and the exponent of a rounded form: canonical, but for the size of the exponent. -/
structure IsRounded (m : Nat) (e : Int) : Prop where
  upper : m < 2 ^ 53
  lower : -1074 ≤ e
  normal : 2 ^ 52 ≤ m ∨ e = -1074

theorem mantissa_shiftRight (em : ExtendedMantissa) (k : Nat) :
    (em >>> k).mantissa = em.mantissa / 2 ^ k := by
  show (k.repeat ExtendedMantissa.shiftRightOne em).mantissa = _
  induction k with
  | zero => exact (Nat.div_one _).symm
  | succ k ih =>
    show (k.repeat ExtendedMantissa.shiftRightOne em).mantissa / 2 = _
    rw [ih, Nat.div_div_eq_div_mul, ← pow_succ]

theorem mantissa_ofMantissaAndAccuracy (m : Nat) (acc : Accuracy) :
    (ExtendedMantissa.ofMantissaAndAccuracy m acc).mantissa = m := by
  cases acc with
  | exact => rfl
  | inexact relative => cases relative <;> rfl

/-- Rounding to nearest adds at most one in the last place. -/
theorem roundedMantissa_bounds (em : ExtendedMantissa) :
    em.mantissa ≤ em.roundedMantissa ∧ em.roundedMantissa ≤ em.mantissa + 1 := by
  obtain ⟨m, round, sticky⟩ := em
  cases round <;> cases sticky
  · exact ⟨le_rfl, Nat.le_succ m⟩
  · exact ⟨le_rfl, Nat.le_succ m⟩
  · show m ≤ m + m % 2 ∧ m + m % 2 ≤ m + 1
    omega
  · exact ⟨Nat.le_succ m, le_rfl⟩

theorem shiftToTargetExponent_eq {m : Nat} {e : Int} (acc : Accuracy) {k : Nat}
    (target : Format.binary64.targetExponent (totalExponent m e) = e + k) :
    shiftToTargetExponent Format.binary64 m e acc =
      (ExtendedMantissa.ofMantissaAndAccuracy m acc >>> k, e + k) := by
  have amount : (e + k - e).toNat = k := by omega
  unfold shiftToTargetExponent shiftToExponent
  simp only [target, amount]

/-- The bits that remain after the shift to the target exponent. -/
theorem isRounded_shifted {m k : Nat} {e : Int}
    (target : Format.binary64.targetExponent (totalExponent m e) = e + k) :
    IsRounded (m / 2 ^ k) (e + k) := by
  rw [targetExponent_binary64, totalExponent] at target
  refine ⟨?_, by omega, ?_⟩
  · rw [Nat.div_lt_iff_lt_mul (Nat.two_pow_pos k), ← pow_add]
    exact lt_of_lt_of_le Nat.lt_log2_self (Nat.pow_le_pow_right (by decide) (by omega))
  · by_cases smallest : e + k = -1074
    · exact Or.inr smallest
    · have bits : m.log2 = 52 + k := by omega
      have some : m ≠ 0 := by
        rintro rfl
        rw [Nat.log2_zero] at bits
        omega
      refine Or.inl ?_
      rw [Nat.le_div_iff_mul_le (Nat.two_pow_pos k), ← pow_add, ← bits]
      exact Nat.log2_self_le some

/-- After the last bit is rounded, a carry may have made one bit too many. -/
theorem shiftToTargetExponent_carried {r m : Nat} {e : Int} (rounded : IsRounded m e)
    (atLeast : m ≤ r) (atMost : r ≤ m + 1) :
    ∃ (n : Nat) (f : Int),
      (shiftToTargetExponent Format.binary64 r e .exact).1.mantissa = n ∧
        (shiftToTargetExponent Format.binary64 r e .exact).2 = f ∧
        IsRounded n f ∧ f ≤ e + 1 ∧ magnitude n f = magnitude r e := by
  have := rounded.lower
  have := rounded.upper
  by_cases carry : r = 2 ^ 53
  · have target : Format.binary64.targetExponent (totalExponent r e) = e + (1 : Nat) := by
      rw [targetExponent_binary64, totalExponent, carry, Nat.log2_two_pow]
      omega
    have half : r / 2 ^ 1 = 2 ^ 52 := by rw [carry]; rfl
    refine ⟨2 ^ 52, e + 1, ?_, ?_, ⟨by decide, by omega, Or.inl le_rfl⟩, le_rfl, ?_⟩
    · rw [shiftToTargetExponent_eq .exact target, mantissa_shiftRight,
        mantissa_ofMantissaAndAccuracy, half]
    · rw [shiftToTargetExponent_eq .exact target]
      rfl
    · have next : (e + 1 + 1074).toNat = (e + 1074).toNat + 1 := by omega
      rw [magnitude, magnitude, carry, next, pow_succ']
      push_cast
      ring
  · have small : r < 2 ^ 53 := by omega
    have bits : r.log2 ≤ 52 := by
      by_cases none : r = 0
      · rw [none, Nat.log2_zero]
        omega
      · have := (Nat.log2_lt none).2 small
        omega
    have target : Format.binary64.targetExponent (totalExponent r e) = e + (0 : Nat) ∨
        r.log2 < 52 ∧ -1074 < e := by
      rw [targetExponent_binary64, totalExponent]
      omega
    obtain target | ⟨few, above⟩ := target
    · refine ⟨r, e, ?_, ?_, ⟨small, rounded.lower, ?_⟩, by omega, rfl⟩
      · rw [shiftToTargetExponent_eq .exact target, mantissa_shiftRight,
          mantissa_ofMantissaAndAccuracy, pow_zero, Nat.div_one]
      · rw [shiftToTargetExponent_eq .exact target]
        exact Int.add_zero e
      · exact rounded.normal.imp_left fun normal => normal.trans atLeast
    · -- a mantissa above the smallest exponent has all its bits
      have normal : 2 ^ 52 ≤ r := (rounded.normal.resolve_right (by omega)).trans atLeast
      have := (Nat.le_log2 (by omega)).2 normal
      omega

/-- Rounding to a target exponent that is not below the given one. -/
theorem roundWithAccuracy_eq (s : Sign) {m k : Nat} {e : Int} (acc : Accuracy)
    (target : Format.binary64.targetExponent (totalExponent m e) = e + k) :
    let r := (ExtendedMantissa.ofMantissaAndAccuracy m acc >>> k).roundedMantissa
    (r = 0 ∧ roundWithAccuracy Format.binary64 s m e acc = .zero s) ∨
      ∃ (n : Nat) (f : Int) (p : 0 < n), IsRounded n f ∧ f ≤ e + k + 1 ∧
        magnitude n f = magnitude r (e + k) ∧
        roundWithAccuracy Format.binary64 s m e acc = .finite s n f p := by
  have bounds := roundedMantissa_bounds (ExtendedMantissa.ofMantissaAndAccuracy m acc >>> k)
  rw [mantissa_shiftRight, mantissa_ofMantissaAndAccuracy] at bounds
  obtain ⟨n, f, mantissa, exponent, rounded, bound, same⟩ :=
    shiftToTargetExponent_carried (isRounded_shifted target) bounds.1 bounds.2
  unfold roundWithAccuracy
  simp only [shiftToTargetExponent_eq acc target, mantissa, exponent]
  by_cases none : n = 0
  · refine Or.inl ⟨Nat.eq_zero_of_not_pos fun some => ?_, by rw [dif_pos none]⟩
    have := magnitude_pos (e + k) some
    rw [← same, none, magnitude] at this
    simp at this
  · exact Or.inr ⟨n, f, Nat.pos_of_ne_zero none, rounded, bound, same, by rw [dif_neg none]⟩

/-- A rounded form is kept by packing, or becomes an infinity where its exponent is too large. -/
theorem unpack_pack_of_isRounded (s : Sign) {m : Nat} {e : Int} (p : 0 < m)
    (rounded : IsRounded m e) :
    (Float.Model.pack (.finite s m e p)).unpack =
      if e ≤ 971 then .finite s m e p else .infinity s := by
  by_cases fits : e ≤ 971
  · rw [if_pos fits]
    exact unpack_pack ⟨rounded.upper, rounded.lower, fits, rounded.normal⟩
  · have bias : (Format.binary64.exponentBias : Int) = 1023 := rfl
    have packed : UnpackedFloat.pack Format.binary64 (.finite s m e p) =
        packedInfinity Format.binary64 s := by
      unfold UnpackedFloat.pack
      dsimp only
      rw [bias, if_pos (by omega)]
    rw [if_neg fits]
    show UnpackedFloat.unpack _ (UnpackedFloat.pack Format.binary64 (.finite s m e p)) = _
    rw [packed]
    exact unpack_pack (u := .infinity s) trivial

theorem log2_mul_two_pow {m : Nat} (p : 0 < m) (k : Nat) : (m * 2 ^ k).log2 = m.log2 + k := by
  induction k with
  | zero => rw [pow_zero, mul_one, Nat.add_zero]
  | succ k ih =>
    have q : m * 2 ^ k ≠ 0 := (Nat.mul_pos p (Nat.two_pow_pos k)).ne'
    rw [pow_succ', Nat.mul_left_comm, Nat.log2_two_mul q, ih, Nat.add_assoc]

/-- Before it drops bits, rounding may add some. -/
theorem round_eq_roundWithAccuracy (s : Sign) {m : Nat} (p : 0 < m) (e : Int) :
    ∃ j k : Nat,
      Format.binary64.targetExponent (totalExponent (m * 2 ^ j) (e - j)) = e - j + k ∧
      UnpackedFloat.round Format.binary64 s m e =
        roundWithAccuracy Format.binary64 s (m * 2 ^ j) (e - j) .exact := by
  obtain ⟨j, added⟩ : ∃ j : Nat,
      (e - Format.binary64.targetExponent (totalExponent m e)).toNat = j := ⟨_, rfl⟩
  have same : totalExponent (m * 2 ^ j) (e - j) = totalExponent m e := by
    rw [totalExponent, totalExponent, log2_mul_two_pow p]
    omega
  refine ⟨j, (Format.binary64.targetExponent (totalExponent m e) - e).toNat, ?_, ?_⟩
  · rw [same]
    omega
  · unfold UnpackedFloat.round decreaseExponent
    simp only [added, Nat.shiftLeft_eq]

/-! ### Integers -/

/-- What has at most 1023 bits before the point does not overflow. -/
theorem isFinite_roundWithAccuracy (s : Sign) {m : Nat} {e : Int} (acc : Accuracy)
    (long : 2 ^ 52 ≤ m) (bits : m.log2 + e ≤ 1022) :
    (Float.Model.pack (roundWithAccuracy Format.binary64 s m e acc)).unpack.isFinite = true := by
  have : 52 ≤ m.log2 := (Nat.le_log2 (by omega)).2 long
  obtain ⟨k, target⟩ : ∃ k : Nat, Format.binary64.targetExponent (totalExponent m e) = e + k := by
    refine ⟨(Format.binary64.targetExponent (totalExponent m e) - e).toNat, ?_⟩
    rw [targetExponent_binary64, totalExponent]
    omega
  obtain ⟨-, isZero⟩ | ⟨n, f, q, rounded, bound, -, isFinite⟩ := roundWithAccuracy_eq s acc target
  · rw [isZero, unpack_pack (u := .zero s) trivial]
    rfl
  · rw [targetExponent_binary64, totalExponent] at target
    rw [isFinite, unpack_pack_of_isRounded s q rounded, if_pos (by omega)]
    rfl

theorem ofNat_of_lt {n : Nat} (short : n < 2 ^ 53) :
    Float.ofNat n = n.toUInt64.toFloat * Float.ofBits 0x3FF0000000000000 := by
  show Float.ofScientific n false 0 = _
  have both : n < 2 ^ 53 ∧ 0 ≤ 22 := ⟨short, by decide⟩
  unfold Float.ofScientific
  rw [dif_pos both]
  rfl

theorem ofNat_of_le {n : Nat} (long : 2 ^ 53 ≤ n) :
    Float.ofNat n = .ofModel (Float.Model.ofScientific n 0) := by
  show Float.ofScientific n false 0 = _
  unfold Float.ofScientific
  rw [dif_neg fun both => Nat.not_lt.2 long both.1]
  rfl

theorem unpack_toFloat {n : Nat} (p : 0 < n) (short : n < 2 ^ 53) :
    n.toUInt64.toFloat.toModel.unpack =
      (Float.Model.pack (UnpackedFloat.round Format.binary64 .positive n 0)).unpack := by
  have word : n.toUInt64.toNat = n := UInt64.toNat_ofNat_of_lt' (short.trans (by decide))
  show (Float.Model.pack (UnpackedFloat.normalize Format.binary64 (n.toUInt64.toNat : Int) 0
    .positive)).unpack = _
  rw [word, UnpackedFloat.normalize, compare_gt_iff_gt.2 (by exact_mod_cast p)]
  rfl

theorem ofScientific_zero {n : Nat} (p : 0 < n) :
    UnpackedFloat.ofScientific Format.binary64 n 0 =
      roundWithAccuracy Format.binary64 .positive (n * 2 ^ 53) (-53) .exact := by
  have notHuge : ¬(0 : Int) > 2 ^ Format.binary64.exponentBits := by decide
  have notTiny : ¬(0 : Int) < -(2 ^ Format.binary64.exponentBits + (n.log2 : Int)) := by
    have : (0 : Int) ≤ 2 ^ Format.binary64.exponentBits := by positivity
    omega
  have mantissa : n <<< Format.binary64.mantissaBits * 10 ^ (0 : Int).toNat = n * 2 ^ 53 := by
    rw [Nat.shiftLeft_eq, Int.toNat_zero, pow_zero, mul_one]
    rfl
  unfold UnpackedFloat.ofScientific
  simp only [dif_neg p.ne', if_neg notHuge, if_neg notTiny, if_pos (le_refl (0 : Int)), mul]
  rw [mantissa]
  rfl

/-- Natural numbers of 64 bits become finite floats. -/
theorem isFinite_ofNat {n : Nat} (word : n < 2 ^ 64) : (Float.ofNat n).isFinite = true := by
  obtain rfl | p := Nat.eq_zero_or_pos n
  · rfl
  have bits : n.log2 < 64 := (Nat.log2_lt p.ne').2 word
  obtain short | long := Nat.lt_or_ge n (2 ^ 53)
  · -- an exact float times the float one
    obtain ⟨k, q, -, isRound, canonical⟩ :=
      round_of_lt .positive p short (e := 0) (by decide) (by decide)
    have one : (Float.ofBits 0x3FF0000000000000).toModel.unpack =
      .finite .positive (2 ^ 52) (-52) (by decide) := rfl
    rw [ofNat_of_lt short]
    show (Float.Model.pack (mul Format.binary64 n.toUInt64.toFloat.toModel.unpack
      (Float.ofBits 0x3FF0000000000000).toModel.unpack)).unpack.isFinite = true
    rw [unpack_toFloat p short, isRound, unpack_pack canonical, one]
    refine isFinite_roundWithAccuracy _ .exact (Nat.le_mul_of_pos_left _ q) ?_
    rw [log2_mul_two_pow q, log2_mul_two_pow p]
    omega
  · rw [ofNat_of_le long]
    show (Float.Model.pack (UnpackedFloat.ofScientific Format.binary64 n 0)).unpack.isFinite = true
    rw [ofScientific_zero p]
    refine isFinite_roundWithAccuracy _ .exact (by omega) ?_
    rw [log2_mul_two_pow p]
    omega

theorem isFinite_neg {x : Float} (finite : x.isFinite = true) : (-x).isFinite = true := by
  have canonical := unpack_canonical x
  show (Float.Model.pack x.toModel.unpack.neg).unpack.isFinite = true
  change x.toModel.unpack.isFinite = true at finite
  revert finite canonical
  cases x.toModel.unpack with
  | notANumber | infinity => exact fun _ finite => (Bool.false_ne_true finite).elim
  | zero s => exact fun _ _ => unpack_pack (u := .zero (-s)) trivial ▸ rfl
  | finite s m e p =>
    intro canonical _
    show (Float.Model.pack (.finite (-s) m e p)).unpack.isFinite = true
    rw [unpack_pack (u := .finite (-s) m e p) canonical]
    rfl

/-- Integers of 64 bits and a sign become finite floats. -/
theorem isFinite_ofInt {n : Int} (word : n.natAbs < 2 ^ 64) : (Float.ofInt n).isFinite = true := by
  cases n with
  | ofNat n => exact isFinite_ofNat word
  | negSucc n => exact isFinite_neg (isFinite_ofNat word)

end ParetoFront.Number
