import ParetoFront.Proofs.Archive.Runs
import ParetoFront.Proofs.FiniteRelation

/-!
# Archives that retain the unbeaten offers

An archive forgets what it drops. It nonetheless holds exactly the offers that no other offer beats,
kept or dropped, whenever its policy decides by a strict order among the offers: an offer is kept
out by what beats it, and it makes leave what it beats. Whatever a dropped offer beats is then
beaten by a retained offer as well.

## Main definitions

- `unbeatenOffers` — the offers that no offer beats, in order
- `Policy.DecidedBy` — the policy decides by a strict order among the offers

## Main statements

- `Policy.DecidedBy.retainedAfter_eq` — one more offer
- `Policy.DecidedBy.foldl_retainedAfter` — all offers
-/

namespace ParetoFront

variable {beats : Solution × Nat → Solution × Nat → Prop} {offers : List Solution}
  {policy : Policy} {s : Solution} {p : Solution × Nat}

theorem mem_of_mem_zipIdx (member : p ∈ offers.zipIdx) : p.1 ∈ offers ∧ p.2 < offers.length := by
  rw [List.mem_zipIdx_iff_getElem?] at member
  exact ⟨List.mem_of_getElem? member, (List.getElem?_eq_some_iff.1 member).1⟩

theorem zipIdx_concat (offers : List Solution) (s : Solution) :
    (offers ++ [s]).zipIdx = offers.zipIdx ++ [(s, offers.length)] := by
  simp [List.zipIdx_append]

theorem mem_zipIdx_concat_of_mem (member : p ∈ offers.zipIdx) : p ∈ (offers ++ [s]).zipIdx := by
  rw [zipIdx_concat]
  exact List.mem_append_left _ member

theorem last_mem_zipIdx_concat : (s, offers.length) ∈ (offers ++ [s]).zipIdx := by
  simp [zipIdx_concat]

/-! ### Unbeaten offers -/

variable (beats) in
/-- No offer beats the offer at a position. -/
def IsUnbeaten (offers : List Solution) (p : Solution × Nat) : Prop :=
  ∀ q ∈ offers.zipIdx, ¬ beats q p

instance [DecidableRel beats] : DecidablePred (IsUnbeaten beats offers) := fun p =>
  inferInstanceAs (Decidable (∀ q ∈ offers.zipIdx, ¬ beats q p))

theorem isUnbeaten_concat_iff :
    IsUnbeaten beats (offers ++ [s]) p ↔
      IsUnbeaten beats offers p ∧ ¬ beats (s, offers.length) p := by
  rw [IsUnbeaten, zipIdx_concat, List.forall_mem_append, List.forall_mem_singleton]
  rfl

variable [DecidableRel beats]

variable (beats) in
/-- The offers that no offer beats, in order. -/
def unbeatenOffers (offers : List Solution) : List Solution :=
  (offers.zipIdx.filter fun p => IsUnbeaten beats offers p).map Prod.fst

theorem mem_unbeatenOffers :
    s ∈ unbeatenOffers beats offers ↔
      ∃ i, (s, i) ∈ offers.zipIdx ∧ IsUnbeaten beats offers (s, i) := by
  simp [unbeatenOffers]

/-- The unbeaten offers among one more: those that the new one does not beat, and the new one when
nothing beats it. -/
theorem unbeatenOffers_concat (alone : ¬ beats (s, offers.length) (s, offers.length)) :
    unbeatenOffers beats (offers ++ [s]) =
      ((offers.zipIdx.filter fun p => IsUnbeaten beats offers p).filter
          fun p => ¬ beats (s, offers.length) p).map Prod.fst ++
        if IsUnbeaten beats offers (s, offers.length) then [s] else [] := by
  rw [unbeatenOffers, zipIdx_concat, List.filter_append, List.map_append, List.filter_filter]
  congr 1
  · refine congrArg _ (List.filter_congr ?_)
    intro p _
    rw [Bool.eq_iff_iff, Bool.and_eq_true, decide_eq_true_iff, decide_eq_true_iff,
      decide_eq_true_iff, isUnbeaten_concat_iff, and_comm]
  · by_cases free : IsUnbeaten beats offers (s, offers.length)
    · simp [isUnbeaten_concat_iff, free, alone]
    · simp [isUnbeaten_concat_iff, free]

/-! ### Decisions by a strict order -/

variable (policy beats offers) in
/-- The policy decides by a strict order among the offers with their positions: an earlier offer
keeps out what it beats, and it stays unless it is beaten. -/
structure Policy.DecidedBy : Prop where
  irrefl : ∀ p ∈ offers.zipIdx, ¬ beats p p
  trans : ∀ p ∈ offers.zipIdx, ∀ q ∈ offers.zipIdx, ∀ r ∈ offers.zipIdx,
    beats p q → beats q r → beats p r
  keepsOut_iff : ∀ p ∈ offers.zipIdx, ∀ q ∈ offers.zipIdx, p.2 < q.2 →
    (policy.judge q.1 p.1 = .keepsOut ↔ beats p q)
  coexists_iff : ∀ p ∈ offers.zipIdx, ∀ q ∈ offers.zipIdx, p.2 < q.2 → ¬ beats p q →
    (policy.judge q.1 p.1 = .coexists ↔ ¬ beats q p)

namespace Policy.DecidedBy

omit [DecidableRel beats] in
theorem of_concat (h : policy.DecidedBy beats (offers ++ [s])) : policy.DecidedBy beats offers where
  irrefl p hp := h.irrefl p (mem_zipIdx_concat_of_mem hp)
  trans p hp q hq r hr := h.trans p (mem_zipIdx_concat_of_mem hp) q (mem_zipIdx_concat_of_mem hq)
    r (mem_zipIdx_concat_of_mem hr)
  keepsOut_iff p hp q hq :=
    h.keepsOut_iff p (mem_zipIdx_concat_of_mem hp) q (mem_zipIdx_concat_of_mem hq)
  coexists_iff p hp q hq :=
    h.coexists_iff p (mem_zipIdx_concat_of_mem hp) q (mem_zipIdx_concat_of_mem hq)

omit [DecidableRel beats] in
/-- An offer is unbeaten, or an unbeaten offer beats it. -/
theorem exists_unbeaten (h : policy.DecidedBy beats offers) (hp : p ∈ offers.zipIdx) :
    ∃ q ∈ offers.zipIdx, (q = p ∨ beats q p) ∧ IsUnbeaten beats offers q :=
  exists_first (s := {p | p ∈ offers.zipIdx}) (List.finite_toSet _) h.irrefl h.trans hp

theorem exists_keepsOut_iff (h : policy.DecidedBy beats (offers ++ [s])) :
    (∃ r ∈ unbeatenOffers beats offers, policy.judge s r = .keepsOut) ↔
      ∃ p ∈ offers.zipIdx, IsUnbeaten beats offers p ∧ beats p (s, offers.length) := by
  have decided {p : Solution × Nat} (hp : p ∈ offers.zipIdx) :=
    h.keepsOut_iff p (mem_zipIdx_concat_of_mem hp) _ last_mem_zipIdx_concat (mem_of_mem_zipIdx hp).2
  constructor
  · rintro ⟨r, member, verdict⟩
    obtain ⟨i, inside, free⟩ := mem_unbeatenOffers.1 member
    exact ⟨(r, i), inside, free, (decided inside).1 verdict⟩
  · rintro ⟨p, inside, free, wins⟩
    exact ⟨p.1, mem_unbeatenOffers.2 ⟨p.2, inside, free⟩, (decided inside).2 wins⟩

/-- The archive needs only the unbeaten offers to find the unbeaten ones among one more. -/
theorem retainedAfter_eq (h : policy.DecidedBy beats (offers ++ [s])) :
    policy.retainedAfter (unbeatenOffers beats offers) s =
      unbeatenOffers beats (offers ++ [s]) := by
  have isNew : (s, offers.length) ∈ (offers ++ [s]).zipIdx := last_mem_zipIdx_concat
  have isOld {p : Solution × Nat} (hp : p ∈ offers.zipIdx) : p ∈ (offers ++ [s]).zipIdx :=
    mem_zipIdx_concat_of_mem hp
  rw [Policy.retainedAfter, unbeatenOffers_concat (h.irrefl _ isNew)]
  by_cases kept : ∃ r ∈ unbeatenOffers beats offers, policy.judge s r = .keepsOut
  · rw [if_pos kept]
    obtain ⟨p, inside, free, wins⟩ := h.exists_keepsOut_iff.1 kept
    -- whatever the rejected offer beats is beaten by what keeps it out
    rw [if_neg fun none => none p inside wins, List.append_nil, List.filter_eq_self.2]
    · rfl
    · intro q member
      obtain ⟨inside', free'⟩ := List.mem_filter.1 member
      rw [decide_eq_true_eq] at free' ⊢
      exact fun worse =>
        free' p inside (h.trans p (isOld inside) _ isNew q (isOld inside') wins worse)
  · rw [if_neg kept, if_pos]
    · rw [unbeatenOffers, List.filter_map]
      refine congrArg (· ++ [s]) (congrArg _ (List.filter_congr ?_))
      intro p member
      obtain ⟨inside, free⟩ := List.mem_filter.1 member
      rw [decide_eq_true_eq] at free
      have admitted : ¬ beats p (s, offers.length) := fun wins =>
        kept (h.exists_keepsOut_iff.2 ⟨p, inside, free, wins⟩)
      exact decide_eq_decide.2
        (h.coexists_iff p (isOld inside) _ isNew (mem_of_mem_zipIdx inside).2 admitted)
    · -- were the offer beaten, then by an unbeaten offer, which would keep it out
      intro q inside wins
      obtain ⟨p, inside', reaches, free⟩ := h.of_concat.exists_unbeaten inside
      refine kept (h.exists_keepsOut_iff.2 ⟨p, inside', free, ?_⟩)
      obtain rfl | wins' := reaches
      · exact wins
      · exact h.trans p (isOld inside') q (isOld inside) _ isNew wins' wins

/-- Offered in order to an archive that retains nothing, the unbeaten offers are retained. -/
theorem foldl_retainedAfter (h : policy.DecidedBy beats offers) :
    offers.foldl policy.retainedAfter [] = unbeatenOffers beats offers := by
  induction offers using List.reverseRecOn with
  | nil => rfl
  | append_singleton offers s ih =>
    rw [List.foldl_append, ih h.of_concat, List.foldl_cons, List.foldl_nil, h.retainedAfter_eq]

end Policy.DecidedBy

end ParetoFront
