import Mathlib
import ParetoFront.Number.Floor

/-!
# Unpacked floats and their bit patterns

Every operation on floats unpacks its operands, computes on the unpacked form and packs the result.
Facts about the unpacked form reach the next operation through the round trips of this file: a
canonical form comes back unchanged, and any form comes back with its sign.

## Main definitions

- `Canonical` — the unpacked forms that a bit pattern can stand for
- `signOf` — the sign of an unpacked form

## Main statements

- `unpack_canonical`, `unpack_pack` — unpacking gives canonical forms, and packing keeps them
- `signOf_unpack_pack` — the sign survives the round trip, rounded or not
- `round_of_lt` — a mantissa of at most 53 bits is not changed by rounding
-/

namespace ParetoFront.Number

open Float.Model (UnpackedFloat Format totalExponent)
open Float.Model.UnpackedFloat

/-- The unpacked forms of bit patterns: 53 bits of mantissa, the top one set unless the exponent is
the smallest one. -/
def Canonical : UnpackedFloat → Prop
  | .finite _ m e _ => m < 2 ^ 53 ∧ -1074 ≤ e ∧ e ≤ 971 ∧ (2 ^ 52 ≤ m ∨ e = -1074)
  | _ => True

/-- The sign of an unpacked float; the undefined value has none. -/
def signOf : UnpackedFloat → Option Sign
  | .notANumber => none
  | .infinity s | .zero s | .finite s .. => some s

theorem finite_congr {s : Sign} {m n : Nat} {e f : Int} {p : 0 < m} {q : 0 < n} (hm : m = n)
    (he : e = f) : UnpackedFloat.finite s m e p = .finite s n f q := by
  subst hm he
  rfl

theorem toNat_implicitBit (m : BitVec 52) : (1#1 ++ m).toNat = 2 ^ 52 + m.toNat := by
  rw [BitVec.toNat_append, ← Nat.shiftLeft_add_eq_or_of_lt m.isLt]
  rfl

/-- Bit patterns stand for canonical forms. -/
theorem unpack_canonical (x : Float) : Canonical x.toModel.unpack := by
  unfold Float.Model.unpack UnpackedFloat.unpack
  dsimp only
  have hm := (@unpackMantissa Format.binary64 x.toModel.toBits.toBitVec).isLt
  have he := (@unpackExponent Format.binary64 x.toModel.toBits.toBitVec).isLt
  have hbit := toNat_implicitBit
    (@unpackMantissa Format.binary64 x.toModel.toBits.toBitVec)
  change _ < 2 ^ 52 at hm
  change _ < 2 ^ 11 at he
  have bias : ((Format.binary64.exponentBias : Int) + (52 : Nat)) = 1075 := rfl
  rw [bias]
  split
  · split <;> trivial
  · next notAllOnes =>
    have hmax : (@unpackExponent Format.binary64 x.toModel.toBits.toBitVec).toNat ≠ 2047 :=
      fun h => notAllOnes (BitVec.eq_of_toNat_eq h)
    split
    · next zero =>
      rw [zero]
      split
      · trivial
      · exact ⟨by omega, by decide, by decide, Or.inr (by decide)⟩
    · next notZero =>
      have hmin : (@unpackExponent Format.binary64 x.toModel.toBits.toBitVec).toNat ≠ 0 :=
        fun h => notZero (BitVec.eq_of_toNat_eq h)
      exact ⟨by omega, by omega, by omega, Or.inl (by omega)⟩

@[simp] theorem ofBitVec_unpackSign_packComponents {spec : Format} {sign : Sign}
    {exponent : BitVec spec.exponentBits} {mantissa : BitVec spec.mantissaBitsWithoutImplicit} :
    Sign.ofBitVec (unpackSign (packComponents spec sign exponent mantissa)) = sign := by
  have hsign : unpackSign (packComponents spec sign exponent mantissa) = sign.toBitVec := by
    ext i hi
    have hi : i = 0 := by omega
    subst hi
    simp [unpackSign, packComponents, BitVec.getLsbD_append, BitVec.getElem_append]
  rw [hsign]
  cases sign <;> rfl

/-- Components that do not spell the undefined value unpack to a form of their sign. -/
theorem signOf_unpack_packComponents {s : Sign} {exponent : BitVec 11} {mantissa : BitVec 52}
    (h : exponent = -1#_ → mantissa = 0#_) :
    signOf (UnpackedFloat.unpack Format.binary64
      (packComponents Format.binary64 s exponent mantissa)) = some s := by
  unfold UnpackedFloat.unpack
  simp only [unpackMantissa_packComponents, unpackExponent_packComponents,
    ofBitVec_unpackSign_packComponents]
  split
  · next allOnes =>
    rw [if_pos (h allOnes)]
    rfl
  · split
    · split <;> rfl
    · rfl

/-- Packing keeps the sign, also where it overflows or loses bits. -/
theorem signOf_unpack_pack (u : UnpackedFloat) :
    signOf (Float.Model.pack u).unpack = signOf u := by
  unfold Float.Model.unpack Float.Model.pack
  dsimp only
  cases u with
  | notANumber => rfl
  | infinity s => exact signOf_unpack_packComponents fun _ => rfl
  | zero s => exact signOf_unpack_packComponents fun _ => rfl
  | finite s m e p =>
    unfold UnpackedFloat.pack
    dsimp only
    split
    · exact signOf_unpack_packComponents fun _ => rfl
    · split
      · -- the exponent field stays below all ones, which would spell the undefined value
        refine signOf_unpack_packComponents ?_
        intro allOnes
        have := congrArg BitVec.toNat allOnes
        rw [BitVec.toNat_ofNat, Nat.mod_eq_of_lt (by omega)] at this
        change _ = 2047 at this
        omega
      · exact signOf_unpack_packComponents fun allOnes => absurd allOnes (by decide)

theorem isNaN_unpack_pack (u : UnpackedFloat) :
    (Float.Model.pack u).unpack.isNaN = u.isNaN := by
  have unsigned (v : UnpackedFloat) : v.isNaN = (signOf v).isNone := by cases v <;> rfl
  rw [unsigned, unsigned, signOf_unpack_pack]

theorem unpack_pack_normal (s : Sign) {m : Nat} {e : Int} (p : 0 < m) (upper : m < 2 ^ 53)
    (normal : 2 ^ 52 ≤ m) (lower : -1074 ≤ e) (bound : e ≤ 971) :
    (Float.Model.pack (.finite s m e p)).unpack = .finite s m e p := by
  have bias : (Format.binary64.exponentBias : Int) = 1023 := rfl
  have hlog : m.log2 = 52 := (Nat.log2_eq_iff (by omega)).2 ⟨normal, upper⟩
  have hexp : (BitVec.ofNat 11 (e + 1023 + (52 : Nat)).toNat).toNat = (e + 1075).toNat := by
    rw [BitVec.toNat_ofNat]
    omega
  unfold Float.Model.unpack Float.Model.pack UnpackedFloat.pack
  dsimp only
  rw [bias, if_neg (by omega), if_pos (by rw [hlog]; rfl)]
  unfold UnpackedFloat.unpack
  simp only [unpackMantissa_packComponents, unpackExponent_packComponents,
    ofBitVec_unpackSign_packComponents, BitVec.toNat_eq, hexp, bias]
  rw [if_neg (by change _ ≠ 2047; omega), if_neg (by change _ ≠ 0; omega)]
  refine finite_congr ?_ (by omega)
  rw [toNat_implicitBit, BitVec.toNat_ofNat]
  omega

theorem unpack_pack_subnormal (s : Sign) {m : Nat} (p : 0 < m) (upper : m < 2 ^ 52) :
    (Float.Model.pack (.finite s m (-1074) p)).unpack = .finite s m (-1074) p := by
  have hlog : m.log2 < 52 := (Nat.log2_lt p.ne').2 upper
  have hmod : (BitVec.ofNat 52 m).toNat = m := by
    rw [BitVec.toNat_ofNat]
    omega
  unfold Float.Model.unpack Float.Model.pack UnpackedFloat.pack
  dsimp only
  rw [if_neg (by decide), if_neg (by change m.log2 + 1 ≠ 53; omega)]
  unfold UnpackedFloat.unpack
  simp only [unpackMantissa_packComponents, unpackExponent_packComponents,
    ofBitVec_unpackSign_packComponents, BitVec.toNat_eq, hmod]
  rw [if_neg (by decide), if_pos trivial, dif_neg (by change m ≠ 0; omega)]
  exact finite_congr rfl rfl

/-- Packing loses nothing of a canonical form. -/
theorem unpack_pack {u : UnpackedFloat} (hu : Canonical u) : (Float.Model.pack u).unpack = u := by
  cases u with
  | notANumber => rfl
  | infinity s => cases s <;> rfl
  | zero s => cases s <;> rfl
  | finite s m e p =>
    obtain ⟨upper, lower, bound, normal⟩ := hu
    by_cases hm : 2 ^ 52 ≤ m
    · exact unpack_pack_normal s p upper hm lower bound
    · obtain rfl := normal.resolve_left hm
      exact unpack_pack_subnormal s p (by omega)

theorem targetExponent_binary64 (t : Int) :
    Format.binary64.targetExponent t = max (t - 53) (-1074) := rfl

theorem shiftToTargetExponent_of_target {m : Nat} {e : Int}
    (h : Format.binary64.targetExponent (totalExponent m e) = e) :
    shiftToTargetExponent Format.binary64 m e .exact = (⟨m, false, false⟩, e) := by
  unfold shiftToTargetExponent shiftToExponent
  simp only [h, Int.sub_self]
  exact Prod.ext rfl (Int.add_zero e)

theorem roundWithAccuracy_of_target (s : Sign) {m : Nat} {e : Int} (p : 0 < m)
    (h : Format.binary64.targetExponent (totalExponent m e) = e) :
    roundWithAccuracy Format.binary64 s m e .exact = .finite s m e p := by
  have rounded : (⟨m, false, false⟩ : ExtendedMantissa).roundedMantissa = m := rfl
  unfold roundWithAccuracy
  simp only [shiftToTargetExponent_of_target h, rounded, dif_neg p.ne']

/-- Rounding a mantissa of at most 53 bits only moves it to the canonical exponent. -/
theorem round_of_lt (s : Sign) {m : Nat} {e : Int} (p : 0 < m) (upper : m < 2 ^ 53)
    (lower : -1074 ≤ e) (bound : e ≤ 971) :
    ∃ (k : Nat) (q : 0 < m * 2 ^ k), (k : Int) ≤ e + 1074 ∧
      UnpackedFloat.round Format.binary64 s m e = .finite s (m * 2 ^ k) (e - k) q ∧
      Canonical (.finite s (m * 2 ^ k) (e - k) q) := by
  have hlog : m.log2 ≤ 52 := by
    have := (Nat.log2_lt p.ne').2 upper
    omega
  obtain ⟨k, hk⟩ : ∃ k : Nat, (k : Int) = e - max (m.log2 + 1 + e - 53) (-1074) :=
    ⟨_, Int.toNat_of_nonneg (by omega)⟩
  have hpos : 0 < 2 ^ k := Nat.two_pow_pos k
  have q : 0 < m * 2 ^ k := Nat.mul_pos p hpos
  have low : 2 ^ (m.log2 + k) ≤ m * 2 ^ k := by
    rw [pow_add]
    exact Nat.mul_le_mul_right _ (Nat.log2_self_le p.ne')
  have high : m * 2 ^ k < 2 ^ (m.log2 + k + 1) := by
    rw [show m.log2 + k + 1 = m.log2 + 1 + k by omega, pow_add]
    exact Nat.mul_lt_mul_of_pos_right Nat.lt_log2_self hpos
  have hlog' : (m * 2 ^ k).log2 = m.log2 + k := (Nat.log2_eq_iff q.ne').2 ⟨low, high⟩
  refine ⟨k, q, by omega, ?_, ?_, by omega, by omega, ?_⟩
  · have target : Format.binary64.targetExponent (totalExponent m e) = e - k := by
      rw [targetExponent_binary64, totalExponent]
      omega
    have shift : (e - (e - k)).toNat = k := by omega
    unfold UnpackedFloat.round decreaseExponent
    simp only [target, shift, Nat.shiftLeft_eq]
    refine roundWithAccuracy_of_target s q ?_
    rw [targetExponent_binary64, totalExponent, hlog']
    omega
  · exact lt_of_lt_of_le high (Nat.pow_le_pow_right (by decide) (by omega))
  · by_cases normal : e - k = -1074
    · exact Or.inr normal
    · have : 52 ≤ m.log2 + k := by omega
      exact Or.inl (le_trans (Nat.pow_le_pow_right (by decide) this) low)

end ParetoFront.Number
