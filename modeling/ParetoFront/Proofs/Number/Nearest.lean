import ParetoFront.Proofs.Number.Rounding

/-!
# Rounding to the nearest float

Rounding gives a place of a float, or of a float beyond infinity if there were one, and no such
place is nearer to the exact value. Of two nearest places the one with the even mantissa is taken,
so that only one place can be the result, and rounding is monotone in the exact value.

## Main definitions

- `IsPlace` — the places of floats, if there were no largest one
- `IsNearest` — the place that a value is rounded to
- `Represents` — what a mantissa with two more bits says of an exact value
- `clampUnits` — the place of a float, for places beyond infinity
- `RoundsTo` — an unpacked form is packed to the float nearest to a value

## Main statements

- `IsNearest.mono` — rounding to the nearest is monotone, and gives one result
- `Represents.shiftRight`, `Represents.nearest` — dropping bits, and rounding the last one
- `RoundsTo.roundWithAccuracy`, `RoundsTo.normalize` — what is rounded is nearest
- `RoundsTo.le` — floats of rounded values are in the order of the values
-/

namespace ParetoFront.Number

open Float.Model (UnpackedFloat Format totalExponent)
open Float.Model.UnpackedFloat

theorem cast_magnitude (m : Nat) {e : Int} (lower : -1074 ≤ e) :
    ((magnitude m e : Int) : ℚ) = m * 2 ^ (e + 1074) := by
  obtain ⟨k, exponent⟩ : ∃ k : Nat, e + 1074 = k := ⟨(e + 1074).toNat, by omega⟩
  rw [magnitude, exponent, Int.toNat_natCast, zpow_natCast]
  push_cast
  rfl

/-! ### Places -/

/-- A multiple of a power of two by at most 53 bits, of either sign. -/
def IsPlace (n : Int) : Prop :=
  ∃ m k : Nat, m < 2 ^ 53 ∧ n.natAbs = m * 2 ^ k

/-- No place is nearer to `x` than the place `n`. Of two nearest places it is the one with more
factors of two. -/
structure IsNearest (x : ℚ) (n : Int) : Prop where
  place : IsPlace n
  le : ∀ g, IsPlace g → |x - n| ≤ |x - g|
  even : ∀ g, IsPlace g → |x - g| = |x - n| → ∀ k : Nat, (2 : Int) ^ k ∣ g → 2 ^ k ∣ n

variable {x y : ℚ} {n k : Int}

theorem isPlace_zero : IsPlace 0 :=
  ⟨0, 0, by decide, rfl⟩

theorem IsPlace.neg (h : IsPlace n) : IsPlace (-n) := by
  obtain ⟨m, j, short, same⟩ := h
  exact ⟨m, j, short, by rwa [Int.natAbs_neg]⟩

/-- What is left of a place without its factors of two is short. -/
theorem IsPlace.natAbs_lt {a : Int} {j : Nat} (place : IsPlace (2 ^ j * a)) (odd : ¬ 2 ∣ a) :
    a.natAbs < 2 ^ 53 := by
  obtain ⟨m, i, short, same⟩ := place
  rw [Int.natAbs_mul, Int.natAbs_pow] at same
  have coprime : a.natAbs.Coprime (2 ^ i) :=
    ((Nat.Prime.coprime_iff_not_dvd Nat.prime_two).2 (by omega)).symm.pow_right i
  have divides : a.natAbs ∣ m := coprime.dvd_of_dvd_mul_right (same ▸ dvd_mul_left _ _)
  by_cases none : m = 0
  · rw [none, zero_mul, Nat.mul_eq_zero] at same
    have := same.resolve_left (by positivity)
    omega
  · exact (Nat.le_of_dvd (Nat.pos_of_ne_zero none) divides).trans_lt short

/-- One bit more than 53 is possible for an even mantissa. -/
theorem isPlace_mul_two_pow {m : Nat} (short : m ≤ 2 ^ 53) (j : Nat) :
    IsPlace ((m * 2 ^ j : Nat) : Int) := by
  obtain carry | short := Nat.eq_or_lt_of_le short
  · refine ⟨2 ^ 52, j + 1, by decide, ?_⟩
    rw [carry, Int.natAbs_natCast, pow_succ' 2 j, ← mul_assoc, ← pow_succ]
  · exact ⟨m, j, short, Int.natAbs_natCast _⟩

namespace IsNearest

/-- A place is nearest to itself. -/
theorem self (h : IsPlace n) : IsNearest n n where
  place := h
  le g _ := by
    rw [sub_self, abs_zero]
    positivity
  even g _ same k divides := by
    rw [sub_self, abs_zero, abs_eq_zero, sub_eq_zero] at same
    rwa [Int.cast_injective same]

theorem neg (h : IsNearest x n) : IsNearest (-x) (-n) := by
  have mirrored (t : Int) : |-x - (-t : Int)| = |x - t| := by
    push_cast
    rw [neg_sub_neg, ← abs_neg, neg_sub]
  refine ⟨h.place.neg, fun g place => ?_, fun g place same k divides => ?_⟩
  · have le := h.le (-g) place.neg
    rwa [← mirrored n, ← mirrored (-g), neg_neg] at le
  · rw [← neg_neg g, mirrored, mirrored] at same
    exact (h.even (-g) place.neg same k (divides.neg_right)).neg_right

theorem apply (s : Sign) (h : IsNearest x n) :
    IsNearest ((s.apply 1 : Int) * x) (s.apply n) := by
  cases s with
  | positive => rwa [Sign.apply, Int.cast_one, one_mul]
  | negative => rw [Sign.apply, Int.cast_neg, Int.cast_one, neg_one_mul]; exact h.neg

/-- Rounding to the nearest is monotone. -/
theorem le_of_lt (hx : IsNearest x n) (hy : IsNearest y k) (lt : x < y) : n ≤ k := by
  by_contra less
  have less : (k : ℚ) < n := by exact_mod_cast Int.not_le.1 less
  -- otherwise both values would lie on the wrong side of the middle between the places
  have first := hx.le k hy.place
  have second := hy.le n hx.place
  rw [← sq_le_sq] at first second
  have : 0 < (y - x) * (n - k) := mul_pos (by linarith) (by linarith)
  nlinarith

/-- Only one place is nearest. -/
theorem unique (hn : IsNearest x n) (hk : IsNearest x k) : n = k := by
  have tie : |x - k| = |x - n| := le_antisymm (hk.le n hn.place) (hn.le k hk.place)
  have divides (j : Nat) : (2 : Int) ^ j ∣ n ↔ 2 ^ j ∣ k :=
    ⟨hk.even n hn.place tie.symm j, hn.even k hk.place tie j⟩
  have powers {c : Int} (some : c ≠ 0) : FiniteMultiplicity 2 c :=
    Int.finiteMultiplicity_iff.2 ⟨by decide, some⟩
  by_cases none : n = 0
  · by_contra differ
    obtain ⟨j, not⟩ := powers (none ▸ Ne.symm differ)
    exact not ((divides _).1 (none ▸ dvd_zero _))
  -- both are the same power of two times an odd number, so that their middle is a place as well
  obtain ⟨a, first, odd⟩ := (powers none).exists_eq_pow_mul_and_not_dvd
  generalize multiplicity 2 n = j at first
  obtain ⟨b, rfl⟩ := (divides j).1 ⟨a, first⟩
  have odd' : ¬ 2 ∣ b := by
    intro even
    have twice := (divides (j + 1)).2 (by rw [pow_succ]; exact mul_dvd_mul_left _ even)
    rw [first, pow_succ] at twice
    exact odd (Int.dvd_of_mul_dvd_mul_left (by positivity) twice)
  subst first
  have := hn.place.natAbs_lt odd
  have := hk.place.natAbs_lt odd'
  obtain ⟨c, middle⟩ : ∃ c, a + b = 2 * c := ⟨(a + b) / 2, by omega⟩
  have place : IsPlace (2 ^ j * c) :=
    ⟨c.natAbs, j, by omega, by rw [Int.natAbs_mul, Int.natAbs_pow, mul_comm]; rfl⟩
  obtain same | sum := abs_eq_abs.1 tie
  · exact_mod_cast (sub_right_injective same).symm
  · have value : x = ((2 ^ j * c : Int) : ℚ) := by
      have := congrArg (fun z : Int => (2 ^ j * z : ℚ)) middle
      push_cast at this sum ⊢
      linarith
    have zero := hn.le _ place
    rw [← value, sub_self, abs_zero, abs_nonpos_iff] at zero
    rw [zero, abs_zero, abs_eq_zero] at tie
    exact_mod_cast (sub_eq_zero.1 zero).symm.trans (sub_eq_zero.1 tie)

theorem mono (hx : IsNearest x n) (hy : IsNearest y k) (le : x ≤ y) : n ≤ k := by
  obtain rfl | lt := le.eq_or_lt
  · exact (hx.unique hy).le
  · exact hx.le_of_lt hy lt

end IsNearest

/-! ### Dropping bits -/

/-- The exact value in units of the last bit of an extended mantissa: the next bit after it is the
round bit, and the sticky bit says whether any later bit is set. -/
def Represents : ExtendedMantissa → ℚ → Prop
  | ⟨m, false, false⟩, x => x = m
  | ⟨m, false, true⟩, x => m < x ∧ x < m + 1 / 2
  | ⟨m, true, false⟩, x => x = m + 1 / 2
  | ⟨m, true, true⟩, x => m + 1 / 2 < x ∧ x < m + 1

theorem Represents.shiftRightOne {em : ExtendedMantissa} (h : Represents em x) :
    Represents em.shiftRightOne (x / 2) := by
  obtain ⟨m, round, sticky⟩ := em
  -- the last bit of the mantissa becomes the round bit
  obtain ⟨half, rfl | rfl⟩ : ∃ half, m = 2 * half ∨ m = 2 * half + 1 := ⟨m / 2, by omega⟩
  · have shifted : (⟨2 * half, round, sticky⟩ : ExtendedMantissa).shiftRightOne =
        ⟨half, false, round || sticky⟩ := by
      simp [ExtendedMantissa.shiftRightOne]
    rw [shifted]
    cases round <;> cases sticky <;> simp only [Represents, Bool.or_true, Bool.or_false] at h ⊢ <;>
      push_cast at h ⊢ <;> first | constructor <;> linarith | linarith
  · have shifted : (⟨2 * half + 1, round, sticky⟩ : ExtendedMantissa).shiftRightOne =
        ⟨half, true, round || sticky⟩ := by
      have dropped : (2 * half + 1) / 2 = half := by omega
      simp [ExtendedMantissa.shiftRightOne, dropped, Nat.add_mod]
    rw [shifted]
    cases round <;> cases sticky <;> simp only [Represents, Bool.or_true, Bool.or_false] at h ⊢ <;>
      push_cast at h ⊢ <;> first | constructor <;> linarith | linarith

theorem Represents.shiftRight {em : ExtendedMantissa} (h : Represents em x) (k : Nat) :
    Represents (em >>> k) (x / 2 ^ k) := by
  show Represents (k.repeat ExtendedMantissa.shiftRightOne em) _
  induction k with
  | zero => rwa [pow_zero, div_one]
  | succ k ih =>
    rw [pow_succ, ← div_div]
    exact ih.shiftRightOne

/-- The last bit is rounded to the nearest integer, and to the even one in the middle. -/
theorem Represents.nearest {em : ExtendedMantissa} (h : Represents em x) :
    |x - em.roundedMantissa| ≤ 1 / 2 ∧
      (|x - em.roundedMantissa| = 1 / 2 → em.roundedMantissa % 2 = 0) := by
  obtain ⟨m, round, sticky⟩ := em
  cases round <;> cases sticky <;> simp only [Represents] at h
  · show |x - m| ≤ 1 / 2 ∧ (|x - m| = 1 / 2 → m % 2 = 0)
    rw [h, sub_self, abs_zero]
    norm_num
  · show |x - m| ≤ 1 / 2 ∧ (|x - m| = 1 / 2 → m % 2 = 0)
    rw [abs_of_pos (by linarith)]
    exact ⟨by linarith, fun tie => by linarith⟩
  · -- a tie goes to the even mantissa
    show |x - (m + m % 2 : Nat)| ≤ 1 / 2 ∧ (|x - (m + m % 2 : Nat)| = 1 / 2 → (m + m % 2) % 2 = 0)
    refine ⟨?_, fun _ => by omega⟩
    obtain even | odd := Nat.mod_two_eq_zero_or_one m
    · rw [even, h]
      norm_num
    · rw [odd, h]
      norm_num
  · show |x - (m + 1 : Nat)| ≤ 1 / 2 ∧ (|x - (m + 1 : Nat)| = 1 / 2 → (m + 1) % 2 = 0)
    push_cast
    rw [abs_of_neg (by linarith)]
    exact ⟨by linarith, fun tie => by linarith⟩

theorem Represents.le {em : ExtendedMantissa} (h : Represents em x) : em.mantissa ≤ x := by
  obtain ⟨m, round, sticky⟩ := em
  cases round <;> cases sticky <;> simp only [Represents] at h ⊢ <;> linarith

/-! ### Rounding -/

/-- Where a value has all its bits, or where units cannot be smaller, places that are no multiples
of the unit are farther away than the least value that has all its bits. -/
theorem IsPlace.eq_mul_or_lt {g : Int} {j : Nat} (place : IsPlace g) (full : 2 ^ 52 ≤ x ∨ j = 0) :
    (∃ t : Int, g = t * 2 ^ j) ∨ |x * 2 ^ j - (2 ^ 52 : Int) * 2 ^ j| < |x * 2 ^ j - g| := by
  obtain ⟨m, k, few, same⟩ := place
  by_cases coarse : j ≤ k
  · obtain ⟨t, rfl⟩ : ((2 ^ j : Nat) : Int) ∣ g := by
      rw [Int.natCast_dvd, same]
      exact (Nat.pow_dvd_pow 2 coarse).mul_left m
    exact Or.inl ⟨t, by rw [mul_comm, Nat.cast_pow, Nat.cast_ofNat]⟩
  · have many := full.resolve_right (by omega)
    have pow : 2 ^ k * 2 ≤ 2 ^ j := by
      rw [← pow_succ]
      exact Nat.pow_le_pow_right (by decide) (by omega)
    have bound : g.natAbs < 2 ^ 52 * 2 ^ j := by
      rw [same]
      nlinarith [Nat.two_pow_pos k]
    have below : (g : ℚ) < 2 ^ 52 * 2 ^ j := by
      exact_mod_cast (Int.le_natAbs (a := g)).trans_lt (by exact_mod_cast bound)
    have above : (2 : ℚ) ^ 52 * 2 ^ j ≤ x * 2 ^ j :=
      mul_le_mul_of_nonneg_right many (by positivity)
    rw [Int.cast_pow, Int.cast_ofNat, abs_of_nonneg (by linarith)]
    exact Or.inr ((sub_lt_sub_left below _).trans_le (le_abs_self _))

/-- An integer that is at most half a unit away is not farther away than other integers, and on
equal distances it is in the middle of two neighbours. -/
theorem abs_sub_le_of_le_half {r : Nat} (near : |x - r| ≤ 1 / 2) (t : Int) :
    |x - r| ≤ |x - t| ∧
      (|x - t| = |x - r| → t = r ∨ |x - r| = 1 / 2 ∧ (t = r + 1 ∨ r = t + 1)) := by
  by_cases same : t = r
  · rw [same, Int.cast_natCast]
    exact ⟨le_rfl, fun _ => Or.inl rfl⟩
  have apart : (1 : ℚ) ≤ |(t : ℚ) - r| := by
    exact_mod_cast Int.one_le_abs (sub_ne_zero.2 same)
  have triangle := abs_sub_le (t : ℚ) x r
  rw [← abs_neg (t - x), neg_sub] at triangle
  refine ⟨by linarith, fun tie => Or.inr ⟨by linarith, ?_⟩⟩
  have close : |t - (r : Int)| ≤ 1 := by
    have : |(t : ℚ) - r| ≤ 1 := by linarith
    exact_mod_cast this
  rw [abs_le] at close
  omega

/-- An integer that is at most half a unit away is nearest, when all bits are there or when units
cannot be smaller, if ties go to even integers. -/
theorem isNearest_mul_two_pow {r j : Nat} (near : |x - r| ≤ 1 / 2)
    (even : |x - r| = 1 / 2 → r % 2 = 0) (short : r ≤ 2 ^ 53) (full : 2 ^ 52 ≤ x ∨ j = 0) :
    IsNearest (x * 2 ^ j) ((r * 2 ^ j : Nat) : Int) := by
  have unit : (0 : ℚ) < 2 ^ j := by positivity
  have scaled (t : ℚ) : |x * 2 ^ j - t * 2 ^ j| = |x - t| * 2 ^ j := by
    rw [← sub_mul, abs_mul, abs_of_pos unit]
  have cast : (((r * 2 ^ j : Nat) : Int) : ℚ) = r * 2 ^ j := by push_cast; rfl
  have multiple (t : Int) : |x - r| * 2 ^ j ≤ |x - t| * 2 ^ j :=
    mul_le_mul_of_nonneg_right (abs_sub_le_of_le_half near t).1 unit.le
  refine ⟨isPlace_mul_two_pow short j, fun g place => ?_, fun g place tie k divides => ?_⟩
  · rw [cast, scaled]
    obtain ⟨t, rfl⟩ | farther := place.eq_mul_or_lt full
    · rw [Int.cast_mul, Int.cast_pow, Int.cast_ofNat, scaled]
      exact multiple t
    · rw [scaled] at farther
      exact (multiple _).trans farther.le
  · rw [cast, scaled] at tie
    obtain ⟨t, rfl⟩ | farther := place.eq_mul_or_lt full
    · rw [Int.cast_mul, Int.cast_pow, Int.cast_ofNat, scaled] at tie
      obtain same | ⟨half, next⟩ :=
        (abs_sub_le_of_le_half near t).2 (mul_right_cancel₀ unit.ne' tie)
      · rw [same] at divides
        exact_mod_cast divides
      · -- the other neighbour is odd, so the power of two divides the unit
        have := even half
        have odd : Odd t := Int.odd_iff.2 (by omega)
        have coprime : IsCoprime ((2 : Int) ^ k) t := (Int.isCoprime_two_left.2 odd).pow_left
        push_cast
        exact (coprime.dvd_of_dvd_mul_left divides).mul_left _
    · rw [scaled, tie] at farther
      exact absurd (multiple _) (not_le.2 farther)

/-- The place of a float, for a place that may lie beyond infinity. -/
def clampUnits (n : Int) : Int :=
  max (-infiniteUnits) (min infiniteUnits n)

theorem clampUnits_mono (le : n ≤ k) : clampUnits n ≤ clampUnits k :=
  max_le_max le_rfl (min_le_min le_rfl le)

theorem clampUnits_apply_of_lt (s : Sign) (nonneg : 0 ≤ n) (inside : n < infiniteUnits) :
    clampUnits (s.apply n) = s.apply n := by
  cases s <;> simp only [clampUnits, Sign.apply] <;> omega

theorem clampUnits_apply_of_le (s : Sign) (beyond : infiniteUnits ≤ n) :
    clampUnits (s.apply n) = s.apply infiniteUnits := by
  have := infiniteUnits_pos
  cases s <;> simp only [clampUnits, Sign.apply] <;> omega

/-- Packing a rounded form clamps its place. -/
theorem unpackedUnits_pack_of_isRounded (s : Sign) {m : Nat} {e : Int} (p : 0 < m)
    (rounded : IsRounded m e) :
    unpackedUnits (Float.Model.pack (.finite s m e p)).unpack =
      clampUnits (s.apply (magnitude m e)) := by
  rw [unpack_pack_of_isRounded s p rounded]
  by_cases fits : e ≤ 971
  · rw [if_pos fits, clampUnits_apply_of_lt s (magnitude_pos e p).le
      (magnitude_lt_infiniteUnits rounded.upper fits)]
    rfl
  · have normal := rounded.normal.resolve_right (by omega)
    have beyond : infiniteUnits ≤ magnitude m e := by
      have mantissa : 2 ^ 53 ≤ m <<< (e - 971).toNat := by
        rw [Nat.shiftLeft_eq, pow_succ]
        exact Nat.mul_le_mul normal (Nat.le_self_pow (by omega) 2)
      rw [infiniteUnits, magnitude_eq_mul (m := m) (f := 971) (by decide) (by omega), magnitude]
      exact mul_le_mul_of_nonneg_right (by exact_mod_cast mantissa) (by positivity)
    rw [if_neg fits, clampUnits_apply_of_le s beyond]
    rfl

/-- Packing gives the number whose place is nearest to `x`, in units of the smallest positive
float. -/
structure RoundsTo (u : UnpackedFloat) (x : ℚ) : Prop where
  isNaN : u.isNaN = false
  nearest : ∃ n, IsNearest x n ∧ unpackedUnits (Float.Model.pack u).unpack = clampUnits n

namespace RoundsTo

/-- Rounding is monotone in the exact value. -/
theorem le {u v : UnpackedFloat} (hu : RoundsTo u x) (hv : RoundsTo v y) (le : x ≤ y) :
    Float.ofModel (.pack u) ≤ Float.ofModel (.pack v) := by
  obtain ⟨first, n, hn, isFirst⟩ := hu
  obtain ⟨second, k, hk, isSecond⟩ := hv
  refine le_iff.2 ⟨⟨(isNaN_unpack_pack u).trans first, (isNaN_unpack_pack v).trans second⟩, ?_⟩
  show unpackedUnits _ ≤ unpackedUnits _
  rw [isFirst, isSecond]
  exact clampUnits_mono (hn.mono hk le)

/-- Finite floats are kept. -/
theorem self {u : UnpackedFloat} (canonical : Canonical u) (finite : u.isFinite = true) :
    RoundsTo u (unpackedUnits u) := by
  have inside := unpackedUnits_bounds canonical finite
  have kept : unpackedUnits (Float.Model.pack u).unpack = clampUnits (unpackedUnits u) := by
    rw [unpack_pack canonical, clampUnits]
    omega
  cases u with
  | notANumber | infinity => exact absurd finite Bool.false_ne_true
  | zero s => exact ⟨rfl, 0, .self isPlace_zero, kept⟩
  | finite s m e p =>
    have place : IsPlace (magnitude m e) := ⟨m, (e + 1074).toNat, canonical.1, by
      rw [magnitude, Int.natAbs_mul, Int.natAbs_natCast, Int.natAbs_pow]
      rfl⟩
    refine ⟨rfl, _, .self ?_, kept⟩
    cases s
    · exact place.neg
    · exact place

/-- Rounding with bits that were dropped before. -/
theorem roundWithAccuracy (s : Sign) {m k : Nat} {e : Int} {acc : Accuracy}
    (target : Format.binary64.targetExponent (totalExponent m e) = e + k)
    (represents : Represents (ExtendedMantissa.ofMantissaAndAccuracy m acc) x) :
    RoundsTo (UnpackedFloat.roundWithAccuracy Format.binary64 s m e acc)
      ((s.apply 1 : Int) * (x * 2 ^ (e + 1074))) := by
  have shifted := represents.shiftRight k
  have rounded := isRounded_shifted target
  have bounds := roundedMantissa_bounds (ExtendedMantissa.ofMantissaAndAccuracy m acc >>> k)
  have below := shifted.le
  rw [mantissa_shiftRight, mantissa_ofMantissaAndAccuracy] at bounds below
  have := rounded.lower
  have := rounded.upper
  obtain ⟨j, exponent⟩ : ∃ j : Nat, e + k + 1074 = j := ⟨(e + k + 1074).toNat, by omega⟩
  have scaled : x / 2 ^ k * 2 ^ j = x * 2 ^ (e + 1074) := by
    have split : e + 1074 = (j : Int) - k := by omega
    rw [split, zpow_sub₀ two_ne_zero, zpow_natCast, zpow_natCast, div_mul_eq_mul_div, mul_div_assoc]
  have full : 2 ^ 52 ≤ x / 2 ^ k ∨ j = 0 :=
    rounded.normal.imp (fun normal => le_trans (by exact_mod_cast normal) below) (by omega)
  have nearest := isNearest_mul_two_pow shifted.nearest.1 shifted.nearest.2 (by omega) full
  rw [scaled] at nearest
  obtain ⟨none, isZero⟩ | ⟨n, f, p, rounded', -, same, isFinite⟩ :=
    roundWithAccuracy_eq s acc target
  · rw [isZero]
    refine ⟨rfl, _, nearest.apply s, ?_⟩
    rw [none, unpack_pack (u := .zero s) trivial]
    cases s <;> simp [unpackedUnits, clampUnits, Sign.apply, infiniteUnits_pos.le]
  · rw [isFinite]
    refine ⟨rfl, _, nearest.apply s, ?_⟩
    rw [unpackedUnits_pack_of_isRounded s p rounded', same, magnitude, exponent, Int.toNat_natCast]
    push_cast
    rfl

/-- Rounding a multiple of a power of two that is not below the smallest positive float. -/
theorem round (s : Sign) {m : Nat} {e : Int} (p : 0 < m) (lower : -1074 ≤ e) :
    RoundsTo (UnpackedFloat.round Format.binary64 s m e) (s.apply (magnitude m e) : Int) := by
  obtain ⟨j, k, target, isRound⟩ := round_eq_roundWithAccuracy s p e
  have same : Represents (.ofMantissaAndAccuracy (m * 2 ^ j) .exact) (m * 2 ^ j : Nat) := rfl
  have nearest := roundWithAccuracy s target same
  have value : ((m * 2 ^ j : Nat) : ℚ) * 2 ^ (e - j + 1074) = (magnitude m e : Int) := by
    have split : e - j + 1074 = e + 1074 - j := by omega
    rw [cast_magnitude m lower, split, zpow_sub₀ two_ne_zero, zpow_natCast]
    push_cast
    field_simp
  rw [isRound]
  rwa [value, ← Int.cast_mul, ← apply_mul, one_mul] at nearest

/-- Rounding with a sign that the mantissa carries. -/
theorem normalize (n : Int) {e : Int} (lower : -1074 ≤ e) (zeroSign : Sign) :
    RoundsTo (UnpackedFloat.normalize Format.binary64 n e zeroSign)
      (n * 2 ^ (e + 1074).toNat : Int) := by
  unfold UnpackedFloat.normalize
  obtain negative | rfl | positive := lt_trichotomy n 0
  · obtain ⟨m, rfl⟩ : ∃ m : Nat, n = -m := ⟨n.natAbs, by omega⟩
    have mantissa : (- -(m : Int)).toNat = m := by omega
    simp only [compare_lt_iff_lt.2 negative, neg_mul, mantissa]
    exact round .negative (by omega) lower
  · rw [compare_eq_iff_eq.2 rfl, zero_mul]
    exact self (u := .zero zeroSign) trivial rfl
  · obtain ⟨m, rfl⟩ : ∃ m : Nat, n = m := ⟨n.natAbs, by omega⟩
    rw [compare_gt_iff_gt.2 positive]
    exact round .positive (by omega) lower

end RoundsTo

end ParetoFront.Number
