import ParetoFront.Number.Sum
import ParetoFront.Proofs.Number.Order

/-!
# Floats that are not negative

Arithmetic can turn numbers into the undefined value, by adding opposite infinities. Sums of floats
that are at least zero never do: they stay at least zero, however large they get. Absolute values
are of this kind, and so are square roots where they are defined.

## Main statements

- `sum_nonneg` — a sum of floats that are at least zero is at least zero
- `isNaN_of_nonneg` — such a float is a number
- `abs_nonneg`, `sqrt_nonneg` — absolute values and square roots are of this kind
-/

namespace ParetoFront.Number

open Float.Model (UnpackedFloat Format)
open Float.Model.UnpackedFloat

/-- An unpacked float that is at least zero: its sign is positive, or it is negative zero. -/
def NonNegative (u : UnpackedFloat) : Prop :=
  signOf u = some .positive ∨ u = .zero .negative

theorem nonNegative_iff {u : UnpackedFloat} (hu : Canonical u) :
    NonNegative u ↔ u.isNaN = false ∧ 0 ≤ unpackedUnits u := by
  have hinf := infiniteUnits_pos
  cases u with
  | notANumber => simp [NonNegative, signOf, UnpackedFloat.isNaN]
  | infinity s =>
    cases s <;> simp [NonNegative, signOf, UnpackedFloat.isNaN, unpackedUnits, Sign.apply] <;> omega
  | zero s => cases s <;> simp [NonNegative, signOf, UnpackedFloat.isNaN, unpackedUnits]
  | finite s m e p =>
    have := magnitude_pos e p
    cases s <;> simp [NonNegative, signOf, UnpackedFloat.isNaN, unpackedUnits, Sign.apply] <;> omega

variable {x y : Float}

theorem nonneg_iff : 0 ≤ x ↔ NonNegative x.toModel.unpack := by
  have hzero : (0 : Float).isNaN = false ∧ units 0 = 0 := ⟨rfl, rfl⟩
  rw [nonNegative_iff (unpack_canonical x), le_iff]
  simp only [hzero, true_and]
  rfl

theorem isNaN_of_nonneg (h : 0 ≤ x) : x.isNaN = false :=
  (le_iff.1 h).1.2

/-- Rounding and overflow on packing leave a float at least zero. -/
theorem NonNegative.pack {u : UnpackedFloat} (h : NonNegative u) :
    NonNegative (Float.Model.pack u).unpack := by
  obtain positive | rfl := h
  · exact Or.inl ((signOf_unpack_pack u).trans positive)
  · exact Or.inr rfl

theorem signOf_roundWithAccuracy (spec : Format) (s : Sign) (m : Nat) (e : Int) (acc : Accuracy) :
    signOf (roundWithAccuracy spec s m e acc) = some s := by
  unfold roundWithAccuracy
  dsimp only
  split <;> rfl

theorem signOf_round (spec : Format) (s : Sign) (m : Nat) (e : Int) :
    signOf (UnpackedFloat.round spec s m e) = some s :=
  signOf_roundWithAccuracy ..

/-- A rounded integer that is not negative is at least zero. -/
theorem NonNegative.normalize (spec : Format) {m : Int} (e : Int) (h : 0 ≤ m) :
    NonNegative (UnpackedFloat.normalize spec m e .positive) := by
  unfold Float.Model.UnpackedFloat.normalize
  obtain rfl | pos := h.eq_or_lt
  · exact Or.inl rfl
  · rw [compare_gt_iff_gt.2 pos]
    exact Or.inl (signOf_round ..)

theorem NonNegative.add {u v : UnpackedFloat} (spec : Format) (hu : NonNegative u)
    (hv : NonNegative v) : NonNegative (add spec u v) := by
  obtain hu | rfl := hu
  · obtain hv | rfl := hv
    · -- two positive signs: only a sum of finite floats is rounded
      cases u with
      | notANumber => contradiction
      | infinity s => cases v <;> cases hu <;> cases hv <;> exact Or.inl rfl
      | zero s => cases v <;> cases hu <;> cases hv <;> exact Or.inl rfl
      | finite s m e p =>
        cases v with
        | finite t n f q =>
          cases hu
          cases hv
          exact .normalize spec _ (Int.add_nonneg (Int.natCast_nonneg _) (Int.natCast_nonneg _))
        | notANumber => contradiction
        | _ => cases hu; cases hv; exact Or.inl rfl
    · cases u <;> cases hu <;> exact Or.inl rfl
  · obtain hv | rfl := hv
    · cases v <;> cases hv <;> exact Or.inl rfl
    · exact Or.inr rfl

theorem add_nonneg (hx : 0 ≤ x) (hy : 0 ≤ y) : 0 ≤ x + y :=
  nonneg_iff.2 ((nonneg_iff.1 hx).add _ (nonneg_iff.1 hy)).pack

/-- A sum of floats that are at least zero is at least zero, and so it is a number. -/
theorem sum_nonneg {xs : List Float} (h : ∀ x ∈ xs, 0 ≤ x) : 0 ≤ sum xs := by
  have start : (0 : Float) ≤ -0.0 := nonneg_iff.2 (Or.inr rfl)
  rw [sum]
  generalize -(0.0 : Float) = total at start ⊢
  induction xs generalizing total with
  | nil => exact start
  | cons x xs ih =>
    exact ih (fun y hy => h y (List.mem_cons_of_mem x hy)) _
      (add_nonneg start (h x List.mem_cons_self))

theorem abs_nonneg (h : x.isNaN = false) : 0 ≤ x.abs := by
  refine nonneg_iff.2 (NonNegative.pack ?_)
  change x.toModel.unpack.isNaN = false at h
  revert h
  cases x.toModel.unpack with
  | notANumber => exact fun h => absurd h (by decide)
  | _ => exact fun _ => Or.inl rfl

/-- A square root is undefined or at least zero. -/
theorem sqrt_nonneg (h : x.sqrt.isNaN = false) : 0 ≤ x.sqrt := by
  refine nonneg_iff.2 ?_
  change (Float.Model.pack (sqrt .binary64 x.toModel.unpack)).unpack.isNaN = false at h
  show NonNegative (Float.Model.pack (sqrt .binary64 x.toModel.unpack)).unpack
  revert h
  cases x.toModel.unpack with
  | notANumber => exact fun h => (Bool.false_ne_true h.symm).elim
  | infinity s =>
    cases s with
    | positive => exact fun _ => .pack (Or.inl rfl)
    | negative => exact fun h => (Bool.false_ne_true h.symm).elim
  | zero s =>
    cases s with
    | positive => exact fun _ => .pack (Or.inl rfl)
    | negative => exact fun _ => .pack (Or.inr rfl)
  | finite s m e p =>
    cases s with
    | positive => exact fun _ => .pack (Or.inl (signOf_roundWithAccuracy ..))
    | negative =>
      show (Float.Model.pack .notANumber).unpack.isNaN = false → _
      exact fun h => (Bool.false_ne_true h.symm).elim

theorem not_sqrt_lt (h : ¬ 0 < y) : ¬ x.sqrt < y := by
  intro less
  obtain ⟨⟨defined, number⟩, below⟩ := lt_iff.1 less
  obtain ⟨⟨zero, -⟩, atLeast⟩ := le_iff.1 (sqrt_nonneg defined)
  exact h (lt_iff.2 ⟨⟨zero, number⟩, Int.lt_of_le_of_lt atLeast below⟩)

end ParetoFront.Number
