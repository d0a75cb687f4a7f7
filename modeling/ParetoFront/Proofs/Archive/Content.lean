import ParetoFront.Proofs.Archive.Unbeaten
import ParetoFront.Proofs.Dominance.Boxes
import ParetoFront.Proofs.Number.Fraction

/-!
# The exact content of an archive with boxes

An archive with boxes holds exactly those offers that no other offer beats, kept or dropped, where
an offer beats another by box dominance, or in a shared box by the smaller residual, or by coming
first on equal residuals. That is so because beating is a strict order on offers by which the
archive decides.

## Main definitions

- `Epsilons.Regular` — the floats that the archive compares are numbers
- `Epsilons.Survives` — no other offer beats an offer
- `Epsilons.Beats` — the strict order among offers with their positions

## Main statements

- `Epsilons.beats_trans`, `Epsilons.beats_irrefl` — it is a strict order
- `Epsilons.Comparable.decidedBy` — the archive decides by it
- `Archive.retained_eq_survivors` — the content after any series of calls
-/

namespace ParetoFront

open Number

namespace Epsilons

variable (ε : Epsilons)

/-- No constraint value is undefined, and all objective values are finite in box widths. -/
def Regular (s : Solution) : Prop :=
  AllNumbers s.constraints ∧ ∀ p ∈ s.objectives.zipIdx, (p.1 / ε.get p.2).isFinite = true

instance (s : Solution) : Decidable (ε.Regular s) :=
  inferInstanceAs (Decidable (AllNumbers s.constraints ∧
    ∀ p ∈ s.objectives.zipIdx, (p.1 / ε.get p.2).isFinite = true))

/-- No offer box-dominates the offer, and in its box it has the smallest residual, or came first
among those of equal residual. -/
def Survives (offers : List Solution) (p : Solution × Nat) : Prop :=
  (∀ q ∈ offers.zipIdx, (ε.relateBoxes q.1 p.1).dominance ≠ .left) ∧
    ∀ q ∈ offers.zipIdx, q.2 ≠ p.2 → feasibilityTier q.1 p.1 = none →
      ε.boxIndex q.1.objectives = ε.boxIndex p.1.objectives →
        ε.residual p.1.objectives < ε.residual q.1.objectives ∨
          (ε.residual p.1.objectives == ε.residual q.1.objectives) = true ∧ p.2 < q.2

instance (offers : List Solution) : DecidablePred (ε.Survives offers) := fun p => by
  unfold Survives
  infer_instance

/-- An offer beats another, both with their positions. -/
def Beats (q p : Solution × Nat) : Prop :=
  (ε.relateBoxes q.1 p.1).dominance = .left ∨
    (ε.relateBoxes q.1 p.1).sameBox = true ∧
      (ε.residual q.1.objectives < ε.residual p.1.objectives ∨
        ε.residual q.1.objectives ≤ ε.residual p.1.objectives ∧ q.2 < p.2)

variable {ε}

theorem Regular.residual_nonneg {s : Solution} (h : ε.Regular s) :
    0 ≤ ε.residual s.objectives := by
  refine sum_nonneg ?_
  intro x member
  obtain ⟨p, inside, rfl⟩ := List.mem_map.1 member
  exact fractional_nonneg (h.2 p inside)

theorem Regular.residual_isNaN {s : Solution} (h : ε.Regular s) :
    (ε.residual s.objectives).isNaN = false :=
  isNaN_of_nonneg h.residual_nonneg

instance : DecidableRel ε.Beats := fun q p => by
  unfold Beats
  infer_instance

/-! ### Beating is a strict order -/

/-- The order inside a tier: by boxes, then by residuals, then by positions. -/
def BeatsInTier (ε : Epsilons) (q p : Solution × Nat) : Prop :=
  List.Forall₂ (· ≤ ·) (ε.boxIndex q.1.objectives) (ε.boxIndex p.1.objectives) ∧
      ε.boxIndex q.1.objectives ≠ ε.boxIndex p.1.objectives ∨
    ε.boxIndex q.1.objectives = ε.boxIndex p.1.objectives ∧
      (units (ε.residual q.1.objectives) < units (ε.residual p.1.objectives) ∨
        units (ε.residual q.1.objectives) = units (ε.residual p.1.objectives) ∧ q.2 < p.2)

theorem BeatsInTier.trans {p q r : Solution × Nat} (h₁ : ε.BeatsInTier p q)
    (h₂ : ε.BeatsInTier q r) : ε.BeatsInTier p r :=
  belowOrTied_trans (fun first second => by omega) h₁ h₂

variable {p q r : Solution × Nat}

theorem beats_iff (hq : ε.Regular q.1) (hp : ε.Regular p.1)
    (lengths : q.1.objectives.length = p.1.objectives.length) :
    ε.Beats q p ↔ q.1.violationPlace < p.1.violationPlace ∨
      q.1.violationPlace = p.1.violationPlace ∧ ε.BeatsInTier q p := by
  rw [Beats, BeatsInTier, ε.relateBoxes_dominance_eq_left_iff hq.1 hp.1 lengths,
    ε.relateBoxes_sameBox_iff lengths, feasibilityTier_eq_none_iff hq.1 hp.1,
    lt_iff_units hq.residual_isNaN hp.residual_isNaN,
    le_iff_units hq.residual_isNaN hp.residual_isNaN]
  rw [or_assoc, and_assoc, ← and_or_left]
  refine or_congr_right (and_congr_right fun _ => or_congr_right (and_congr_right ?_))
  intro _
  omega

theorem beats_irrefl (hp : ε.Regular p.1) : ¬ ε.Beats p p := by
  rw [beats_iff hp hp rfl, BeatsInTier]
  simp

theorem beats_trans (hp : ε.Regular p.1) (hq : ε.Regular q.1) (hr : ε.Regular r.1)
    (lengths₁ : p.1.objectives.length = q.1.objectives.length)
    (lengths₂ : q.1.objectives.length = r.1.objectives.length)
    (h₁ : ε.Beats p q) (h₂ : ε.Beats q r) : ε.Beats p r := by
  rw [beats_iff hp hq lengths₁] at h₁
  rw [beats_iff hq hr lengths₂] at h₂
  rw [beats_iff hp hr (lengths₁.trans lengths₂)]
  exact tiered_trans BeatsInTier.trans h₁ h₂

/-! ### Judgements -/

/-- A retained solution keeps an offer out when it beats the offer, since it came before. -/
theorem judge_eq_keepsOut_iff {s t : Solution} {i n : Nat} (before : i < n) :
    (Policy.epsilonBox ε).judge s t = .keepsOut ↔ ε.Beats (t, i) (s, n) := by
  have tie := @relateBoxes_dominance_of_sameBox ε t s
  have le_of_lt : ε.residual t.objectives < ε.residual s.objectives →
      ε.residual t.objectives ≤ ε.residual s.objectives := by
    rw [lt_iff, le_iff]
    exact fun h => ⟨h.1, Int.le_of_lt h.2⟩
  rw [Policy.judge, Beats, ε.relateBoxes_swap t s]
  simp only [before, and_true, or_iff_right_of_imp le_of_lt]
  revert tie
  generalize ε.relateBoxes t s = found
  obtain ⟨dominance, sameBox⟩ := found
  intro tie
  cases sameBox
  · cases dominance <;> simp [Dominance.swap]
  · -- in a shared box only the residuals are left to decide
    obtain rfl : dominance = .neither := tie rfl
    by_cases nearer : ε.residual t.objectives ≤ ε.residual s.objectives <;>
      simp [Dominance.swap, nearer]

/-- A retained solution that does not keep an offer out stays unless the offer beats it. -/
theorem judge_eq_coexists_iff {s t : Solution} {i n : Nat} (before : i < n) (hs : ε.Regular s)
    (ht : ε.Regular t) (admitted : ¬ ε.Beats (t, i) (s, n)) :
    (Policy.epsilonBox ε).judge s t = .coexists ↔ ¬ ε.Beats (s, n) (t, i) := by
  rw [← judge_eq_keepsOut_iff before] at admitted
  have tie := @relateBoxes_dominance_of_sameBox ε s t
  have order := @not_lt_iff _ _ hs.residual_isNaN ht.residual_isNaN
  rw [Policy.judge] at admitted ⊢
  simp only [Beats, Nat.lt_asymm before, and_false, or_false]
  revert admitted tie
  generalize ε.relateBoxes s t = found
  obtain ⟨dominance, sameBox⟩ := found
  intro admitted tie
  cases sameBox
  · cases dominance <;> simp_all
  · obtain rfl : dominance = .neither := tie rfl
    simp_all

/-! ### Offers that can be compared -/

/-- Offers that can be compared: their floats are numbers, and their widths are equal. -/
def Comparable (ε : Epsilons) (offers : List Solution) : Prop :=
  (∀ s ∈ offers, ε.Regular s) ∧ ∃ w : Widths, ∀ s ∈ offers, s.widths = w

/-- No offer beats the offer at a position. -/
def Unbeaten (ε : Epsilons) (offers : List Solution) (p : Solution × Nat) : Prop :=
  ∀ q ∈ offers.zipIdx, ¬ ε.Beats q p

instance (offers : List Solution) : DecidablePred (ε.Unbeaten offers) := fun p =>
  inferInstanceAs (Decidable (∀ q ∈ offers.zipIdx, ¬ ε.Beats q p))

/-- The offers that no offer beats, in order. -/
def unbeaten (ε : Epsilons) (offers : List Solution) : List Solution :=
  (offers.zipIdx.filter fun p => ε.Unbeaten offers p).map Prod.fst

variable {offers : List Solution}

theorem Comparable.lengths (h : ε.Comparable offers) (hp : p ∈ offers.zipIdx)
    (hq : q ∈ offers.zipIdx) : p.1.objectives.length = q.1.objectives.length := by
  obtain ⟨-, w, widths⟩ := h
  have same := (widths p.1 (mem_of_mem_zipIdx hp).1).trans
    (widths q.1 (mem_of_mem_zipIdx hq).1).symm
  exact congrArg Widths.objectives same

theorem Comparable.regular (h : ε.Comparable offers) (hp : p ∈ offers.zipIdx) :
    ε.Regular p.1 :=
  h.1 p.1 (mem_of_mem_zipIdx hp).1

theorem Comparable.trans (h : ε.Comparable offers) (hp : p ∈ offers.zipIdx)
    (hq : q ∈ offers.zipIdx) (hr : r ∈ offers.zipIdx) (h₁ : ε.Beats p q) (h₂ : ε.Beats q r) :
    ε.Beats p r :=
  beats_trans (h.regular hp) (h.regular hq) (h.regular hr) (h.lengths hp hq) (h.lengths hq hr)
    h₁ h₂

theorem Comparable.decidedBy (h : ε.Comparable offers) :
    (Policy.epsilonBox ε).DecidedBy ε.Beats offers where
  irrefl _ hp := beats_irrefl (h.regular hp)
  trans _ hp _ hq _ hr := h.trans hp hq hr
  keepsOut_iff _ _ _ _ before := judge_eq_keepsOut_iff before
  coexists_iff _ hp _ hq before admitted :=
    judge_eq_coexists_iff before (h.regular hq) (h.regular hp) admitted

theorem foldl_retainedAfter (h : ε.Comparable offers) :
    offers.foldl (Policy.epsilonBox ε).retainedAfter [] = ε.unbeaten offers :=
  h.decidedBy.foldl_retainedAfter

theorem survives_iff_unbeaten (h : ε.Comparable offers) (hp : p ∈ offers.zipIdx) :
    ε.Survives offers p ↔ ε.Unbeaten offers p := by
  rw [Survives, Unbeaten, ← forall₂_and]
  refine forall₂_congr ?_
  intro q hq
  have sameBox := ε.relateBoxes_sameBox_iff (h.lengths hq hp)
  have hr := (h.regular hp).residual_isNaN
  have hr' := (h.regular hq).residual_isNaN
  have self : q.2 = p.2 → q = p := fun same => by
    rw [List.mem_zipIdx_iff_getElem?] at hp hq
    exact Prod.ext (Option.some.inj (hq.symm.trans (same ▸ hp))) same
  rw [Beats, not_or, not_and, sameBox, and_imp, lt_iff_units hr hr', lt_iff_units hr' hr,
    le_iff_units hr' hr, beq_iff_units hr hr']
  refine and_congr_right ?_
  intro _
  by_cases same : q.2 = p.2
  · -- an offer does not compete with itself
    obtain rfl := self same
    simp
  · constructor
    · intro first tied shared
      have := first same tied shared
      omega
    · intro first _ tied shared
      have := first tied shared
      omega

end Epsilons

/-- What an archive with boxes retains after any calls, begun when it was made or cleared: of the
offers since the last clear, all of one widths, those that survive among all of them. -/
theorem Archive.retained_eq_survivors (ε : Epsilons) (a : Archive) (w : Widths)
    (calls : List Call) (policy : a.policy = .epsilonBox ε) (empty : a.retained = [])
    (fits : ε.fits w.objectives = true) (widths : a.widths = none ∨ a.widths = some w)
    (matching : ∀ call ∈ calls, ∀ s ∈ call.offers, s.widths = w)
    (regular : ∀ s ∈ recentOffers calls, ε.Regular s) :
    (calls.foldl Archive.after a).retained =
      ((recentOffers calls).zipIdx.filter fun p =>
        ε.Survives (recentOffers calls) p).map Prod.fst := by
  have serves : a.Serves w := by
    refine ⟨?_, widths⟩
    rw [policy, Policy.accept, if_pos fits]
  have comparable : ε.Comparable (recentOffers calls) := by
    refine ⟨regular, w, ?_⟩
    intro s member
    obtain ⟨call, inside, offered⟩ := exists_call_of_mem_recentOffers member
    exact matching call inside s offered
  have begun : a.retained = [].foldl a.policy.retainedAfter [] := empty
  have content := serves.retained_foldl_after matching begun
  rw [policy] at content
  rw [content, ← recentOffers, Epsilons.foldl_retainedAfter comparable, Epsilons.unbeaten]
  refine congrArg _ (List.filter_congr ?_)
  intro p member
  exact decide_eq_decide.2 (Epsilons.survives_iff_unbeaten comparable member).symm

/-- A clear, an offer dropped for a dominating one, a box taken over, and an equal residual. -/
theorem retained_eq_survivors_takeover :
    let calls : List Call := [.offer (.ofObjectives [0, 0]), .clear,
      .addAll [.ofObjectives [3, 3], .ofObjectives [2.5, 2.5], .ofObjectives [0, 9]],
      .add (.ofObjectives [2.25, 2.5]), .offer (.ofObjectives [2.5, 2.25])]
    let a := Archive.epsilonBox ⟨[1], by decide, by decide⟩
    (calls.foldl Archive.after a).retained =
        [.ofObjectives [0, 9], .ofObjectives [2.25, 2.5]] ∧
      (calls.foldl Archive.after a).retained =
        ((recentOffers calls).zipIdx.filter fun p =>
          Epsilons.Survives ⟨[1], by decide, by decide⟩ (recentOffers calls) p).map Prod.fst :=
  ⟨rfl, Archive.retained_eq_survivors _ _ ⟨2, 0⟩ _ rfl rfl rfl (Or.inl rfl) (by decide)
    (by decide)⟩

end ParetoFront
