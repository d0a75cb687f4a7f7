import ParetoFront.Crowding
import ParetoFront.Proofs.Number.NonNegative
import ParetoFront.Proofs.Number.TotalPlaces

/-!
# Floats above zero

Sums that contain an infinity stay infinite as long as nothing negative is added, and a quotient of
floats that are not negative is undefined only where an infinity is divided by an infinity.

## Main definitions

- `Positive` — an unpacked float above zero

## Main statements

- `pos_iff` — floats above zero by their unpacked forms
- `eq_infinite_iff`, `add_infinite`, `infinite_add` — infinity in sums
- `isNaN_add_of_left`, `isNaN_add_of_right`, `isNaN_sub_of_left`, `isNaN_div_of_left` — undefined
  operands
- `isNaN_sum_of_mem` — an undefined term of a sum
- `div_nonneg` — quotients
-/

namespace ParetoFront.Number

open Float.Model (UnpackedFloat Format)
open Float.Model.UnpackedFloat

/-- An unpacked float above zero. -/
def Positive (u : UnpackedFloat) : Prop :=
  signOf u = some .positive ∧ u ≠ .zero .positive

theorem positive_iff {u : UnpackedFloat} : Positive u ↔ u.isNaN = false ∧ 0 < unpackedUnits u := by
  have hinf := infiniteUnits_pos
  cases u with
  | notANumber => simp [Positive, signOf, UnpackedFloat.isNaN]
  | infinity s =>
    cases s <;> simp [Positive, signOf, UnpackedFloat.isNaN, unpackedUnits, Sign.apply] <;> omega
  | zero s => cases s <;> simp [Positive, signOf, UnpackedFloat.isNaN, unpackedUnits]
  | finite s m e p =>
    have := magnitude_pos e p
    cases s <;> simp [Positive, signOf, UnpackedFloat.isNaN, unpackedUnits, Sign.apply] <;> omega

variable {x y : Float}

theorem pos_iff : 0 < x ↔ Positive x.toModel.unpack := by
  have hzero : (0 : Float).isNaN = false ∧ units 0 = 0 := ⟨rfl, rfl⟩
  rw [positive_iff, lt_iff]
  simp only [hzero, true_and]
  rfl

/-! ### Infinity -/

theorem eq_infinite_iff : x = infinite ↔ x.toModel.unpack = .infinity .positive := by
  have form : infinite.toModel.unpack = .infinity .positive := rfl
  exact ⟨fun h => h ▸ form, fun h => eq_of_unpack_eq_infinity h form⟩

theorem nonneg_infinite : 0 ≤ infinite := by
  decide

theorem isNaN_infinite_div_infinite : (infinite / infinite).isNaN = true := by
  decide

/-- Only the negative infinity and what is undefined change an infinity. -/
theorem add_infinity_of_nonNegative {u : UnpackedFloat} (h : NonNegative u) :
    add Format.binary64 u (.infinity .positive) = .infinity .positive ∧
      add Format.binary64 (.infinity .positive) u = .infinity .positive := by
  obtain positive | rfl := h
  · cases u with
    | notANumber => cases positive
    | infinity s => cases positive; exact ⟨rfl, rfl⟩
    | zero | finite => exact ⟨rfl, rfl⟩
  · exact ⟨rfl, rfl⟩

theorem add_infinite (h : 0 ≤ x) : x + infinite = infinite := by
  show Float.ofModel (Float.Model.pack (add Format.binary64 x.toModel.unpack
    (.infinity .positive))) = infinite
  rw [(add_infinity_of_nonNegative (nonneg_iff.1 h)).1]
  rfl

theorem infinite_add (h : 0 ≤ x) : infinite + x = infinite := by
  show Float.ofModel (Float.Model.pack (add Format.binary64 (.infinity .positive)
    x.toModel.unpack)) = infinite
  rw [(add_infinity_of_nonNegative (nonneg_iff.1 h)).2]
  rfl

/-! ### Undefined operands -/

theorem not_isNaN_of_isFinite (finite : x.isFinite = true) : x.isNaN = false := by
  change x.toModel.unpack.isFinite = true at finite
  show x.toModel.unpack.isNaN = false
  revert finite
  cases x.toModel.unpack with
  | notANumber => exact fun finite => absurd finite Bool.false_ne_true
  | infinity | zero | finite => exact fun _ => rfl

theorem unpack_of_isNaN (h : x.isNaN = true) : x.toModel.unpack = .notANumber := by
  change x.toModel.unpack.isNaN = true at h
  revert h
  cases x.toModel.unpack with
  | notANumber => exact fun _ => rfl
  | infinity | zero | finite => exact fun h => absurd h Bool.false_ne_true

theorem isNaN_add_of_left (h : x.isNaN = true) (y : Float) : (x + y).isNaN = true := by
  have sum : add Format.binary64 .notANumber y.toModel.unpack = .notANumber := by
    cases y.toModel.unpack <;> rfl
  show (Float.Model.pack
    (add Format.binary64 x.toModel.unpack y.toModel.unpack)).unpack.isNaN = true
  rw [unpack_of_isNaN h, sum]
  rfl

theorem isNaN_add_of_right (h : y.isNaN = true) (x : Float) : (x + y).isNaN = true := by
  have sum : add Format.binary64 x.toModel.unpack .notANumber = .notANumber := by
    cases x.toModel.unpack <;> rfl
  show (Float.Model.pack
    (add Format.binary64 x.toModel.unpack y.toModel.unpack)).unpack.isNaN = true
  rw [unpack_of_isNaN h, sum]
  rfl

theorem isNaN_sub_of_left (h : x.isNaN = true) (y : Float) : (x - y).isNaN = true := by
  have difference : sub Format.binary64 .notANumber y.toModel.unpack = .notANumber := by
    cases y.toModel.unpack <;> rfl
  show (Float.Model.pack
    (sub Format.binary64 x.toModel.unpack y.toModel.unpack)).unpack.isNaN = true
  rw [unpack_of_isNaN h, difference]
  rfl

/-- What is added later does not make up for an undefined term. -/
theorem isNaN_sum_of_mem {xs : List Float} (member : x ∈ xs) (h : x.isNaN = true) :
    (sum xs).isNaN = true := by
  induction xs using List.reverseRecOn with
  | nil => cases member
  | append_singleton xs last ih =>
    rw [sum, List.foldl_concat]
    obtain before | here := List.mem_append.1 member
    · exact isNaN_add_of_left (ih before) last
    · exact isNaN_add_of_right (List.mem_singleton.1 here ▸ h) _

theorem isNaN_div_of_left (h : x.isNaN = true) (y : Float) : (x / y).isNaN = true := by
  have quotient : div Format.binary64 .notANumber y.toModel.unpack = .notANumber := by
    cases y.toModel.unpack <;> rfl
  show (Float.Model.pack
    (div Format.binary64 x.toModel.unpack y.toModel.unpack)).unpack.isNaN = true
  rw [unpack_of_isNaN h, quotient]
  rfl

/-! ### Quotients -/

/-- Only an infinity divided by an infinity is undefined. -/
theorem div_nonneg (hx : 0 ≤ x) (hy : 0 < y) (apart : ¬(x = infinite ∧ y = infinite)) :
    0 ≤ x / y := by
  rw [eq_infinite_iff, eq_infinite_iff] at apart
  replace hx := nonneg_iff.1 hx
  replace hy := pos_iff.1 hy
  refine nonneg_iff.2 (NonNegative.pack ?_)
  show NonNegative (div Format.binary64 x.toModel.unpack y.toModel.unpack)
  revert apart hx hy
  generalize x.toModel.unpack = u
  generalize y.toModel.unpack = v
  rintro apart (positive | rfl) ⟨above, notZero⟩
  · cases u with
    | notANumber => cases positive
    | infinity s =>
      cases positive
      cases v with
      | notANumber => cases above
      | infinity t => cases above; exact absurd ⟨rfl, rfl⟩ apart
      | zero t => cases above; exact absurd rfl notZero
      | finite t => cases above; exact Or.inl rfl
    | zero s =>
      cases positive
      cases v with
      | notANumber => cases above
      | zero t => cases above; exact absurd rfl notZero
      | infinity t | finite t => cases above; exact Or.inl rfl
    | finite s m e p =>
      cases positive
      cases v with
      | notANumber => cases above
      | zero t => cases above; exact absurd rfl notZero
      | infinity t => cases above; exact Or.inl rfl
      | finite t n f q => cases above; exact Or.inl (signOf_roundWithAccuracy ..)
  · cases v with
    | notANumber => cases above
    | zero t => cases above; exact absurd rfl notZero
    | infinity t | finite t => cases above; exact Or.inr rfl

end ParetoFront.Number
