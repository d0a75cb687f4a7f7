import ParetoFront.Proofs.Number.Nearest

/-!
# Rounded arithmetic

Sums, differences and quotients of finite floats are the exact ones, rounded. A difference of finite
floats is therefore monotone in the exact one. It underflows gradually: the difference of two floats
of which the first is greater is above zero, however close they are.

## Main statements

- `RoundsTo.add`, `RoundsTo.sub`, `RoundsTo.div` — the exact values that are rounded
- `sub_mono`, `sub_nonneg`, `sub_pos_iff` — differences of finite floats
-/

namespace ParetoFront.Number

open Float.Model (UnpackedFloat Format totalExponent)
open Float.Model.UnpackedFloat

theorem neg_apply (s : Sign) (n : Int) : (-s).apply n = -s.apply n := by
  cases s
  · exact (neg_neg n).symm
  · rfl

variable {u v : UnpackedFloat}

theorem canonical_neg (hu : Canonical u) : Canonical u.neg := by
  cases u <;> exact hu

theorem unpackedUnits_neg (u : UnpackedFloat) : unpackedUnits u.neg = -unpackedUnits u := by
  cases u with
  | notANumber | zero => rfl
  | infinity s | finite s => exact neg_apply s _

/-- A difference is a sum with the negated operand. -/
theorem sub_eq_add (spec : Format) (u v : UnpackedFloat) :
    UnpackedFloat.sub spec u v = UnpackedFloat.add spec u v.neg := by
  cases u <;> cases v <;> try rfl
  simp only [UnpackedFloat.sub, UnpackedFloat.add, UnpackedFloat.neg, neg_apply, Int.sub_eq_add_neg]

namespace RoundsTo

section Operands

variable (hu : Canonical u) (hv : Canonical v) (finite : u.isFinite = true ∧ v.isFinite = true)
include hu hv finite

theorem add : RoundsTo (UnpackedFloat.add Format.binary64 u v)
    ((unpackedUnits u + unpackedUnits v : Int) : ℚ) := by
  cases u with
  | notANumber | infinity => exact absurd finite.1 Bool.false_ne_true
  | zero s =>
    cases v with
    | notANumber | infinity => exact absurd finite.2 Bool.false_ne_true
    | zero t => cases s <;> cases t <;> exact self (u := .zero _) trivial rfl
    | finite t n f q =>
      rw [unpackedUnits, zero_add]
      exact self hv rfl
  | finite s m e p =>
    cases v with
    | notANumber | infinity => exact absurd finite.2 Bool.false_ne_true
    | zero t =>
      show RoundsTo (.finite s m e p) (unpackedUnits (.finite s m e p) + 0 : Int)
      rw [add_zero]
      exact self hu rfl
    | finite t n f q =>
      have lower := le_min hu.2.1 hv.2.1
      rw [unpackedUnits_finite s p lower (min_le_left e f),
        unpackedUnits_finite t q lower (min_le_right e f), ← add_mul]
      exact normalize _ lower .positive

theorem sub : RoundsTo (UnpackedFloat.sub Format.binary64 u v)
    ((unpackedUnits u - unpackedUnits v : Int) : ℚ) := by
  have negated : v.neg.isFinite = v.isFinite := by cases v <;> rfl
  have sum := add hu (canonical_neg hv) ⟨finite.1, negated.trans finite.2⟩
  rwa [← sub_eq_add, unpackedUnits_neg, ← sub_eq_add_neg] at sum

end Operands

end RoundsTo

/-- The bits of a quotient of natural numbers, where the remainder tells what comes after them. -/
theorem represents_div (a : Nat) {b : Nat} (p : 0 < b) :
    Represents (ExtendedMantissa.ofMantissaAndAccuracy (a / b) (accuracyOfFraction (a % b) b))
      (a / b : ℚ) := by
  have divisor : (0 : ℚ) < b := by exact_mod_cast p
  have split : (a / b : ℚ) = (a / b : Nat) + ((a % b : Nat) : ℚ) / b := by
    rw [eq_comm, add_div_eq_mul_add_div _ _ divisor.ne']
    congr 1
    exact_mod_cast Nat.div_add_mod' a b
  have less : (a % b : Nat) < (b : ℚ) := by exact_mod_cast Nat.mod_lt a p
  rw [split]
  generalize a / b = quotient at *
  generalize a % b = rest at *
  unfold accuracyOfFraction
  by_cases none : rest = 0
  · rw [if_pos none, none]
    show (quotient : ℚ) + (0 : Nat) / b = quotient
    rw [Nat.cast_zero, zero_div, add_zero]
  have some : (0 : ℚ) < rest := by exact_mod_cast Nat.pos_of_ne_zero none
  have above := div_pos some divisor
  rw [if_neg none]
  obtain lt | eq | gt := lt_trichotomy (2 * rest) b
  · rw [compare_lt_iff_lt.2 lt]
    have half : (rest : ℚ) / b < 1 / 2 := by
      rw [div_lt_iff₀ divisor]
      have : (2 * rest : ℚ) < b := by exact_mod_cast lt
      linarith
    exact ⟨by linarith, by linarith⟩
  · rw [compare_eq_iff_eq.2 eq]
    have half : (rest : ℚ) / b = 1 / 2 := by
      rw [div_eq_iff divisor.ne']
      have : (2 * rest : ℚ) = b := by exact_mod_cast eq
      linarith
    exact congrArg _ half
  · rw [compare_gt_iff_gt.2 gt]
    have half : 1 / 2 < (rest : ℚ) / b := by
      rw [lt_div_iff₀ divisor]
      have : (b : ℚ) < 2 * rest := by exact_mod_cast gt
      linarith
    have : (rest : ℚ) / b < 1 := (div_lt_one divisor).2 less
    exact ⟨by linarith, by linarith⟩

/-- A dividend that is longer than the divisor by 53 bits gives all bits of the quotient. -/
theorem le_div_of_log2_le {m n k : Nat} (p : 0 < m) (q : 0 < n) (long : n.log2 + 53 ≤ m.log2 + k) :
    2 ^ 52 ≤ m * 2 ^ k / n := by
  have short : n < 2 ^ (n.log2 + 1) := Nat.lt_log2_self
  rw [Nat.le_div_iff_mul_le q]
  calc 2 ^ 52 * n ≤ 2 ^ 52 * 2 ^ (n.log2 + 1) := Nat.mul_le_mul_left _ short.le
    _ = 2 ^ (n.log2 + 53) := by rw [← pow_add, Nat.add_comm, Nat.add_assoc]
    _ ≤ 2 ^ (m.log2 + k) := Nat.pow_le_pow_right (by decide) long
    _ ≤ m * 2 ^ k := by
      rw [pow_add]
      exact Nat.mul_le_mul_right _ (Nat.log2_self_le p.ne')

/-- The quotient is computed with enough bits for rounding, which only drops some. -/
theorem divCore_eq {m n : Nat} (p : 0 < m) (q : 0 < n) (e f : Int) :
    ∃ j k : Nat, divCore Format.binary64 m e n f =
        (m * 2 ^ j / n, e - f - j, accuracyOfFraction (m * 2 ^ j % n) n) ∧
      Format.binary64.targetExponent (totalExponent (m * 2 ^ j / n) (e - f - j)) =
        e - f - j + k := by
  obtain ⟨t, isTarget⟩ : ∃ t, t = min (e - f)
    (Format.binary64.targetExponent (totalExponent m e - totalExponent n f)) := ⟨_, rfl⟩
  obtain ⟨j, added⟩ : ∃ j : Nat, e - f - t = j := ⟨(e - f - t).toNat, by omega⟩
  obtain rfl : t = e - f - j := by omega
  refine ⟨j, (Format.binary64.targetExponent
    (totalExponent (m * 2 ^ j / n) (e - f - j)) - (e - f - j)).toNat, ?_, ?_⟩
  · unfold divCore
    simp only [← isTarget, added, Int.toNat_natCast, Nat.shiftLeft_eq]
  · rw [targetExponent_binary64, totalExponent, totalExponent] at isTarget
    rw [targetExponent_binary64, totalExponent]
    by_cases long : n.log2 + 53 ≤ m.log2 + j
    · have all := le_div_of_log2_le p q long
      have := (Nat.le_log2 (by omega)).2 all
      omega
    · omega

theorem cast_unpackedUnits (s : Sign) {m : Nat} {e : Int} (p : 0 < m) (lower : -1074 ≤ e) :
    ((unpackedUnits (.finite s m e p) : Int) : ℚ) = (s.apply 1 : Int) * (m * 2 ^ (e + 1074)) := by
  rw [unpackedUnits, ← one_mul (magnitude m e), apply_mul, Int.cast_mul, cast_magnitude m lower]

/-- Quotients are computed in units of the smallest positive float. -/
theorem RoundsTo.div {u : UnpackedFloat} (hu : Canonical u) (finite : u.isFinite = true) {t : Sign}
    {n : Nat} {f : Int} {q : 0 < n} (hv : Canonical (.finite t n f q)) :
    RoundsTo (UnpackedFloat.div Format.binary64 u (.finite t n f q))
      (unpackedUnits u * unitsOfOne / unpackedUnits (.finite t n f q)) := by
  cases u with
  | notANumber | infinity => exact absurd finite Bool.false_ne_true
  | zero s =>
    rw [unpackedUnits, Int.cast_zero, zero_mul, zero_div]
    exact self (u := .zero (s / t)) trivial rfl
  | finite s m e p =>
    obtain ⟨j, k, core, target⟩ := divCore_eq p q e f
    have rounded := roundWithAccuracy (s / t) target (represents_div _ q)
    have powers : (2 : ℚ) ^ (e + 1074) * unitsOfOne =
        2 ^ j * 2 ^ (e - f - j + 1074) * 2 ^ (f + 1074) := by
      rw [unitsOfOne, cast_magnitude 1 (by decide), Nat.cast_one, one_mul,
        ← zpow_natCast (2 : ℚ) j, ← zpow_add₀ two_ne_zero, ← zpow_add₀ two_ne_zero,
        ← zpow_add₀ two_ne_zero]
      congr 1
      omega
    have signs : (((s / t).apply 1 : Int) : ℚ) = (s.apply 1 : Int) / (t.apply 1 : Int) := by
      cases s <;> cases t <;> simp [Sign.apply] <;> rfl
    have value :
        (unpackedUnits (.finite s m e p) * unitsOfOne / unpackedUnits (.finite t n f q) : ℚ) =
          ((s / t).apply 1 : Int) * ((m * 2 ^ j : Nat) / n * 2 ^ (e - f - j + 1074)) := by
      rw [cast_unpackedUnits s p hu.2.1, cast_unpackedUnits t q hv.2.1, signs]
      have : ((t.apply 1 : Int) : ℚ) ≠ 0 := by cases t <;> simp [Sign.apply]
      have : (n : ℚ) ≠ 0 := by exact_mod_cast q.ne'
      push_cast
      field_simp
      linear_combination (s.apply 1 : ℚ) * powers
    unfold UnpackedFloat.div
    simp only [core]
    rwa [value]

/-! ### Differences -/

variable {x y z w : Float}

/-- Differences of finite floats. -/
theorem sub_mono (first : x.isFinite = true ∧ y.isFinite = true)
    (second : z.isFinite = true ∧ w.isFinite = true) (le : units x - units y ≤ units z - units w) :
    x - y ≤ z - w :=
  (RoundsTo.sub (unpack_canonical x) (unpack_canonical y) first).le
    (.sub (unpack_canonical z) (unpack_canonical w) second) (Int.cast_le.2 le)

theorem sub_nonneg (finite : x.isFinite = true ∧ y.isFinite = true) (le : units y ≤ units x) :
    0 ≤ x - y :=
  (RoundsTo.self (u := .zero .positive) trivial rfl).le
    (.sub (unpack_canonical x) (unpack_canonical y) finite) (Int.cast_le.2 (Int.sub_nonneg.2 le))

/-- A greater finite float is at a distance above zero. -/
theorem sub_pos (finite : x.isFinite = true ∧ y.isFinite = true) (lt : units y < units x) :
    0 < x - y := by
  -- the exact difference is at least the smallest positive float
  have least := RoundsTo.self (u := .finite .positive 1 (-1074) Nat.one_pos)
    ⟨by decide, le_rfl, by decide, .inr rfl⟩ rfl
  obtain ⟨⟨-, number⟩, place⟩ := le_iff.1 <|
    least.le (.sub (unpack_canonical x) (unpack_canonical y) finite)
      (Int.cast_le.2 (Int.sub_pos_of_lt lt))
  exact lt_iff.2 ⟨⟨rfl, number⟩, (by decide : 0 < (1 : Int)).trans_le place⟩

/-- Only a greater finite float is at a distance above zero. -/
theorem sub_pos_iff (finite : x.isFinite = true ∧ y.isFinite = true) :
    0 < x - y ↔ units y < units x := by
  refine ⟨fun apart => ?_, sub_pos finite⟩
  by_contra notLess
  have exact : units x - units y ≤ 0 := by omega
  have below : x - y ≤ 0 := (RoundsTo.sub (unpack_canonical x) (unpack_canonical y) finite).le
    (.self (u := .zero .positive) trivial rfl) (Int.cast_le.2 exact)
  exact absurd (lt_iff.1 apart).2 (not_lt.2 (le_iff.1 below).2)

end ParetoFront.Number
