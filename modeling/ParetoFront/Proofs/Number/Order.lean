import ParetoFront.Proofs.Number.Packing

/-!
# The numerical order on binary floats

Every float that is not the undefined value has an integer place: its value in units of the
smallest positive float, with the infinities beyond all others. Numerical comparison is comparison
of places, so that `<` and `≤` are a linear order of values, except that the undefined value
compares with nothing.

## Main definitions

- `units` — the place of a float

## Main statements

- `lt_iff`, `le_iff`, `beq_iff` — comparisons in terms of places
- `lt_trans`, `lt_asymm`, `not_lt_iff` — the order facts that follow
-/

namespace ParetoFront.Number

open Float.Model (UnpackedFloat)
open Float.Model.UnpackedFloat

/-- A finite magnitude in units of the smallest positive float. -/
def magnitude (m : Nat) (e : Int) : Int :=
  m * 2 ^ (e + 1074).toNat

/-- The place of infinity: the first magnitude that is too large for a float. -/
@[irreducible]
def infiniteUnits : Int :=
  magnitude (2 ^ 53) 971

/-- The place of one. -/
@[irreducible]
def unitsOfOne : Int :=
  magnitude 1 0

/-- The place of an unpacked float; the undefined value is put at zero. -/
def unpackedUnits : UnpackedFloat → Int
  | .notANumber => 0
  | .infinity s => s.apply infiniteUnits
  | .zero _ => 0
  | .finite s m e _ => s.apply (magnitude m e)

/-- The place of a float among all values. -/
def units (x : Float) : Int :=
  unpackedUnits x.toModel.unpack

theorem magnitude_pos {m : Nat} (e : Int) (hm : 0 < m) : 0 < magnitude m e := by
  rw [magnitude]
  positivity

theorem infiniteUnits_pos : 0 < infiniteUnits := by
  rw [infiniteUnits]
  exact magnitude_pos _ (by positivity)

theorem magnitude_eq_mul {m : Nat} {e f : Int} (lower : -1074 ≤ f) (le : f ≤ e) :
    magnitude m e = (m <<< (e - f).toNat : Nat) * 2 ^ (f + 1074).toNat := by
  have split : (e + 1074).toNat = (e - f).toNat + (f + 1074).toNat := by omega
  rw [magnitude, split, pow_add, Nat.shiftLeft_eq]
  push_cast
  ring

theorem apply_mul (s : Sign) (a b : Int) : s.apply (a * b) = s.apply a * b := by
  cases s <;> simp [Sign.apply]

theorem unitsOfOne_eq {k : Nat} (h : (k : Int) ≤ 1074) :
    unitsOfOne = 2 ^ k * 2 ^ (-(k : Int) + 1074).toNat := by
  rw [unitsOfOne, magnitude, ← pow_add, Nat.cast_one, one_mul]
  congr 1
  omega

theorem unitsOfOne_pos : 0 < unitsOfOne := by
  rw [unitsOfOne]
  exact magnitude_pos 0 (by decide)

theorem unpackedUnits_finite (s : Sign) {m : Nat} {e f : Int} (p : 0 < m) (lower : -1074 ≤ f)
    (le : f ≤ e) :
    unpackedUnits (.finite s m e p) =
      s.apply (m <<< (e - f).toNat : Nat) * 2 ^ (f + 1074).toNat := by
  rw [unpackedUnits, magnitude_eq_mul lower le, apply_mul]

/-- A larger exponent wins over any mantissa, when the larger one has its top bit set. -/
theorem magnitude_lt_of_exponent_lt {m n : Nat} {e f : Int} (hm : m < 2 ^ 53) (hn : 2 ^ 52 ≤ n)
    (he : -1074 ≤ e) (lt : e < f) : magnitude m e < magnitude n f := by
  have hpow : (2 : Int) ^ (e + 1074).toNat * 2 ≤ 2 ^ (f + 1074).toNat := by
    rw [← pow_succ]
    exact pow_le_pow_right₀ (by norm_num) (by omega)
  have hpos : (0 : Int) < 2 ^ (e + 1074).toNat := by positivity
  have hm' : (m : Int) < 2 ^ 53 := by exact_mod_cast hm
  have hn' : (2 : Int) ^ 52 ≤ n := by exact_mod_cast hn
  calc (m : Int) * 2 ^ (e + 1074).toNat
      < 2 ^ 53 * 2 ^ (e + 1074).toNat := mul_lt_mul_of_pos_right hm' hpos
    _ = 2 ^ 52 * (2 ^ (e + 1074).toNat * 2) := by ring
    _ ≤ n * 2 ^ (f + 1074).toNat := mul_le_mul hn' hpow (by positivity) (by positivity)

theorem magnitude_lt_infiniteUnits {m : Nat} {e : Int} (hm : m < 2 ^ 53) (he : e ≤ 971) :
    magnitude m e < infiniteUnits := by
  rw [infiniteUnits, magnitude, magnitude]
  have hpow : (2 : Int) ^ (e + 1074).toNat ≤ 2 ^ (971 + 1074 : Int).toNat :=
    pow_le_pow_right₀ (by norm_num) (by omega)
  have hm' : (m : Int) < ((2 ^ 53 : Nat) : Int) := by exact_mod_cast hm
  exact mul_lt_mul hm' hpow (by positivity) (by positivity)

/-- Finite floats lie strictly between the infinities. -/
theorem unpackedUnits_bounds {u : UnpackedFloat} (hu : Canonical u) (finite : u.isFinite = true) :
    -infiniteUnits < unpackedUnits u ∧ unpackedUnits u < infiniteUnits := by
  have hinf := infiniteUnits_pos
  cases u with
  | notANumber => contradiction
  | infinity s => contradiction
  | zero s => exact ⟨by simpa [unpackedUnits] using hinf, hinf⟩
  | finite s m e p =>
    have hpos := magnitude_pos e p
    have hlt := magnitude_lt_infiniteUnits hu.1 hu.2.2.1
    cases s <;> simp only [unpackedUnits, Sign.apply] <;> constructor <;> omega

/-- Canonical magnitudes compare by exponent and then by mantissa. -/
theorem compare_magnitudes {s t : Sign} {m n : Nat} {e f : Int} {p : 0 < m} {q : 0 < n}
    (hu : Canonical (.finite s m e p)) (hv : Canonical (.finite t n f q)) :
    (compare e f).then (compare m n) = compare (magnitude m e) (magnitude n f) := by
  obtain ⟨upper₁, lower₁, -, normal₁⟩ := hu
  obtain ⟨upper₂, lower₂, -, normal₂⟩ := hv
  obtain lt | rfl | gt := lt_trichotomy e f
  · have := magnitude_lt_of_exponent_lt upper₁ (normal₂.resolve_right (by omega)) lower₁ lt
    rw [compare_lt_iff_lt.2 lt, compare_lt_iff_lt.2 this]
    rfl
  · have hpos : (0 : Int) < 2 ^ (e + 1074).toNat := by positivity
    rw [compare_eq_iff_eq.2 rfl]
    rw [magnitude, magnitude]
    obtain lt | rfl | gt := lt_trichotomy m n
    · rw [compare_lt_iff_lt.2 lt, compare_lt_iff_lt.2]
      · rfl
      · exact mul_lt_mul_of_pos_right (by exact_mod_cast lt) hpos
    · simp
    · rw [compare_gt_iff_gt.2 gt, compare_gt_iff_gt.2]
      · rfl
      · exact mul_lt_mul_of_pos_right (by exact_mod_cast gt) hpos
  · have := magnitude_lt_of_exponent_lt upper₂ (normal₁.resolve_right (by omega)) lower₂ gt
    rw [compare_gt_iff_gt.2 gt, compare_gt_iff_gt.2 this]
    rfl

theorem neg_compare_neg (a b : Int) : compare (-a) (-b) = (compare a b).swap := by
  obtain lt | rfl | gt := lt_trichotomy a b
  · rw [compare_lt_iff_lt.2 lt, compare_gt_iff_gt.2 (neg_lt_neg lt)]
    rfl
  · simp
  · rw [compare_gt_iff_gt.2 gt, compare_lt_iff_lt.2 (neg_lt_neg gt)]
    rfl

/-- Numerical comparison is comparison of places. -/
theorem compare_unpacked {u v : UnpackedFloat} (hu : Canonical u) (hv : Canonical v) :
    UnpackedFloat.compare u v =
      if u.isNaN || v.isNaN then none else some (compare (unpackedUnits u) (unpackedUnits v)) := by
  have hinf := infiniteUnits_pos
  have lt (a b : Int) (h : a < b) : some Ordering.lt = some (compare a b) := by
    rw [compare_lt_iff_lt.2 h]
  have gt (a b : Int) (h : b < a) : some Ordering.gt = some (compare a b) := by
    rw [compare_gt_iff_gt.2 h]
  have eq (a : Int) : some Ordering.eq = some (compare a a) := by
    rw [compare_eq_iff_eq.2 rfl]
  cases u with
  | notANumber => rfl
  | infinity s =>
    cases v with
    | notANumber => cases s <;> rfl
    | infinity t =>
      cases s <;> cases t
      · exact eq _
      · exact lt _ _ (by simp only [unpackedUnits, Sign.apply]; omega)
      · exact gt _ _ (by simp only [unpackedUnits, Sign.apply]; omega)
      · exact eq _
    | zero | finite =>
      have bounds := unpackedUnits_bounds hv rfl
      cases s
      · exact lt _ _ bounds.1
      · exact gt _ _ bounds.2
  | zero s =>
    cases v with
    | notANumber => rfl
    | infinity t =>
      cases t
      · exact gt _ _ (by simp only [unpackedUnits, Sign.apply]; omega)
      · exact lt _ _ (by simp only [unpackedUnits, Sign.apply]; omega)
    | zero t => exact eq _
    | finite t n f q =>
      have hpos := magnitude_pos f q
      cases t
      · exact gt _ _ (by simp only [unpackedUnits, Sign.apply]; omega)
      · exact lt _ _ (by simp only [unpackedUnits, Sign.apply]; omega)
  | finite s m e p =>
    have bounds := unpackedUnits_bounds hu rfl
    have hpos := magnitude_pos e p
    cases v with
    | notANumber => rfl
    | infinity t =>
      cases t
      · exact gt _ _ bounds.1
      · exact lt _ _ bounds.2
    | zero t =>
      cases s
      · exact lt _ _ (by simp only [unpackedUnits, Sign.apply]; omega)
      · exact gt _ _ (by simp only [unpackedUnits, Sign.apply]; omega)
    | finite t n f q =>
      have hpos' := magnitude_pos f q
      have magnitudes := compare_magnitudes hu hv
      cases s <;> cases t
      · -- two negative floats compare the other way round
        refine congrArg some ?_
        rw [magnitudes]
        exact (neg_compare_neg _ _).symm
      · exact lt _ _ (by simp only [unpackedUnits, Sign.apply]; omega)
      · exact gt _ _ (by simp only [unpackedUnits, Sign.apply]; omega)
      · exact congrArg some magnitudes

variable {x y z : Float}

/-- No place lies beyond the infinities. -/
theorem abs_units_le (x : Float) : |units x| ≤ infiniteUnits := by
  have canonical := unpack_canonical x
  have := infiniteUnits_pos
  rw [units, abs_le]
  revert canonical
  cases x.toModel.unpack with
  | notANumber => exact fun _ => ⟨neg_nonpos.2 infiniteUnits_pos.le, infiniteUnits_pos.le⟩
  | infinity s => cases s <;> simp only [unpackedUnits, Sign.apply] <;> omega
  | zero | finite =>
    intro canonical
    have inside := unpackedUnits_bounds canonical rfl
    exact ⟨inside.1.le, inside.2.le⟩

theorem abs_units_lt (finite : x.isFinite = true) : |units x| < infiniteUnits :=
  abs_lt.2 (unpackedUnits_bounds (unpack_canonical x) finite)

/-- A number that is not finite is one of the infinities. -/
theorem exists_infinity (number : x.isNaN = false) (infinite : x.isFinite = false) :
    ∃ s, x.toModel.unpack = .infinity s ∧ units x = s.apply infiniteUnits := by
  change x.toModel.unpack.isNaN = false at number
  change x.toModel.unpack.isFinite = false at infinite
  rw [units]
  revert number infinite
  cases x.toModel.unpack with
  | notANumber => exact fun number => absurd number.symm Bool.false_ne_true
  | infinity s => exact fun _ _ => ⟨s, rfl, rfl⟩
  | zero | finite => exact fun _ infinite => absurd infinite.symm Bool.false_ne_true

theorem compare_toModel (x y : Float) :
    UnpackedFloat.compare x.toModel.unpack y.toModel.unpack =
      if x.isNaN || y.isNaN then none else some (compare (units x) (units y)) :=
  compare_unpacked (unpack_canonical x) (unpack_canonical y)

/-- Less means two numbers, the first at the smaller place. -/
theorem lt_iff : x < y ↔ (x.isNaN = false ∧ y.isNaN = false) ∧ units x < units y := by
  change decide (UnpackedFloat.lt x.toModel.unpack y.toModel.unpack = true) = true ↔ _
  rw [decide_eq_true_iff, UnpackedFloat.lt, compare_toModel, beq_iff_eq]
  cases x.isNaN <;> cases y.isNaN <;> simp [compare_lt_iff_lt]

theorem le_iff : x ≤ y ↔ (x.isNaN = false ∧ y.isNaN = false) ∧ units x ≤ units y := by
  change decide (UnpackedFloat.le x.toModel.unpack y.toModel.unpack = true) = true ↔ _
  rw [decide_eq_true_iff, UnpackedFloat.le, compare_toModel]
  cases x.isNaN <;> cases y.isNaN <;> simp [Int.isLE_compare]

/-- Numerical equality, which does not tell the zeros apart. -/
theorem beq_iff : (x == y) = true ↔ (x.isNaN = false ∧ y.isNaN = false) ∧ units x = units y := by
  change UnpackedFloat.beq x.toModel.unpack y.toModel.unpack = true ↔ _
  rw [UnpackedFloat.beq, compare_toModel, beq_iff_eq]
  cases x.isNaN <;> cases y.isNaN <;> simp

theorem lt_asymm (h : x < y) : ¬y < x := by
  rw [lt_iff] at *
  omega

theorem lt_trans (h₁ : x < y) (h₂ : y < z) : x < z := by
  rw [lt_iff] at *
  exact ⟨⟨h₁.1.1, h₂.1.2⟩, by omega⟩

/-! ### Comparisons of numbers -/

section Numbers

variable (hx : x.isNaN = false) (hy : y.isNaN = false)
include hx hy

theorem lt_iff_units : x < y ↔ units x < units y := by
  rw [lt_iff, and_iff_right ⟨hx, hy⟩]

theorem le_iff_units : x ≤ y ↔ units x ≤ units y := by
  rw [le_iff, and_iff_right ⟨hx, hy⟩]

theorem beq_iff_units : (x == y) = true ↔ units x = units y := by
  rw [beq_iff, and_iff_right ⟨hx, hy⟩]

/-- Among numbers, not less means at least. -/
theorem not_lt_iff : ¬x < y ↔ y ≤ x := by
  rw [lt_iff_units hx hy, le_iff_units hy hx, not_lt]

end Numbers

end ParetoFront.Number
