import ParetoFront.Proofs.Number.Packing

/-!
# Differences of floats

Exchanging the operands of a difference changes nothing but its sign, whatever the operands are and
however the difference is rounded. The sign is lost in a product with itself.

## Main statements

- `abs_sub_comm` — unpacked differences agree up to the sign
- `abs_unpack_pack` — packing keeps agreement up to the sign
- `sub_mul_self_comm` — the square of a difference does not depend on the order of the operands
-/

namespace ParetoFront.Number

open Float.Model (UnpackedFloat Format)
open Float.Model.UnpackedFloat

theorem abs_unpack_packComponents (s t : Sign) (exponent : BitVec 11) (mantissa : BitVec 52) :
    (UnpackedFloat.unpack Format.binary64
        (packComponents Format.binary64 s exponent mantissa)).abs =
      (UnpackedFloat.unpack Format.binary64
        (packComponents Format.binary64 t exponent mantissa)).abs := by
  unfold UnpackedFloat.unpack
  simp only [unpackMantissa_packComponents, unpackExponent_packComponents]
  by_cases allOnes : exponent = -1#_
  · by_cases empty : mantissa = 0#_
    · simp only [if_pos allOnes, if_pos empty, UnpackedFloat.abs]
    · simp only [if_pos allOnes, if_neg empty]
  · by_cases allZeros : exponent = 0#_
    · by_cases empty : mantissa = 0#_
      · simp only [if_neg allOnes, if_pos allZeros, dif_pos empty, UnpackedFloat.abs]
      · simp only [if_neg allOnes, if_pos allZeros, dif_neg empty, UnpackedFloat.abs]
    · simp only [if_neg allOnes, if_neg allZeros, UnpackedFloat.abs]

/-- Forms that agree up to the sign still do so after packing, also where they overflow. -/
theorem abs_unpack_pack {u v : UnpackedFloat} (same : u.abs = v.abs) :
    (Float.Model.pack u).unpack.abs = (Float.Model.pack v).unpack.abs := by
  unfold Float.Model.unpack Float.Model.pack
  cases u with
  | notANumber =>
    cases v <;> cases same
    rfl
  | infinity s | zero s =>
    cases v <;> cases same
    exact abs_unpack_packComponents ..
  | finite s m e p =>
    cases v <;> cases same
    unfold UnpackedFloat.pack
    dsimp only
    split
    · exact abs_unpack_packComponents ..
    · split <;> exact abs_unpack_packComponents ..

theorem abs_roundWithAccuracy (spec : Format) (s t : Sign) (m : Nat) (e : Int) (acc : Accuracy) :
    (roundWithAccuracy spec s m e acc).abs = (roundWithAccuracy spec t m e acc).abs := by
  unfold roundWithAccuracy
  dsimp only
  split <;> rfl

theorem abs_normalize_neg (spec : Format) (m e : Int) (zeroSign : Sign) :
    (UnpackedFloat.normalize spec (-m) e zeroSign).abs =
      (UnpackedFloat.normalize spec m e zeroSign).abs := by
  unfold UnpackedFloat.normalize
  obtain negative | rfl | positive := lt_trichotomy m 0
  · rw [compare_lt_iff_lt.2 negative, compare_gt_iff_gt.2 (neg_pos.2 negative)]
    exact abs_roundWithAccuracy ..
  · rfl
  · rw [compare_gt_iff_gt.2 positive, compare_lt_iff_lt.2 (neg_neg_of_pos positive), neg_neg]
    exact abs_roundWithAccuracy ..

theorem abs_sub_comm (spec : Format) (u v : UnpackedFloat) :
    (sub spec u v).abs = (sub spec v u).abs := by
  cases u with
  | notANumber => cases v <;> rfl
  | infinity s =>
    cases v with
    | infinity t => cases s <;> cases t <;> rfl
    | _ => rfl
  | zero s =>
    cases v with
    | zero t => cases s <;> cases t <;> rfl
    | _ => rfl
  | finite s m e p =>
    cases v with
    | finite t n f q =>
      -- the mantissas of the two differences are opposite integers
      simp only [sub, min_comm f e]
      rw [← neg_sub, abs_normalize_neg]
    | _ => rfl

theorem mul_self_abs (spec : Format) (u : UnpackedFloat) :
    mul spec u u = mul spec u.abs u.abs := by
  cases u with
  | notANumber => rfl
  | infinity s | zero s | finite s => cases s <;> rfl

/-- The square of a difference is the same float from both sides. -/
theorem sub_mul_self_comm (x y : Float) : (x - y) * (x - y) = (y - x) * (y - x) := by
  have same : (x - y).toModel.unpack.abs = (y - x).toModel.unpack.abs :=
    abs_unpack_pack (abs_sub_comm Format.binary64 x.toModel.unpack y.toModel.unpack)
  show Float.ofModel (.pack (mul Format.binary64 (x - y).toModel.unpack (x - y).toModel.unpack)) =
    Float.ofModel (.pack (mul Format.binary64 (y - x).toModel.unpack (y - x).toModel.unpack))
  rw [mul_self_abs, same, ← mul_self_abs]

end ParetoFront.Number
