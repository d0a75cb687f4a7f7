import ParetoFront.Proofs.Archive.Reoffers

/-!
# What an offer does to an archive with boxes

The scan of an offer stops at the first retained solution that keeps it out, and forgets what it has
found to leave before. That is sound since retained solutions stand in no box dominance and share no
boxes: an offer that some retained solution box-dominates has nothing to win from the others, an
offer that shares a box stands aside from all others, and any other offer can only box-dominate.

## Main definitions

- `Standing` — the three ways in which an offer stands to retained solutions
- `Meets` — what is known of an offer and retained solutions, in any order

## Main statements

- `Meets.of_beaten`, `Meets.of_sharing` — the ways exclude each other
- `Archive.offer_of_sharing`, `Archive.offer_of_free` — the archive afterwards
- `Archive.offer_classified` — every reachable archive with boxes
-/

namespace ParetoFront

/-! ### Verdicts -/

namespace Epsilons

variable {ε : Epsilons} {s t r : Solution}

theorem judge_of_left (wins : (ε.relateBoxes s r).dominance = .left) :
    (Policy.epsilonBox ε).judge s r = .dominated := by
  rw [Policy.judge]
  simp only [wins]

theorem judge_of_beaten (wins : (ε.relateBoxes r s).dominance = .left) :
    (Policy.epsilonBox ε).judge s r = .keepsOut :=
  judge_eq_keepsOut_iff_coversBy.2 (.inl wins)

theorem judge_of_sameBox (shared : (ε.relateBoxes s r).sameBox = true) :
    (Policy.epsilonBox ε).judge s r =
      if ε.residual r.objectives ≤ ε.residual s.objectives then .keepsOut else .displaced := by
  rw [Policy.judge]
  simp only [ε.relateBoxes_dominance_of_sameBox shared, shared, if_true]

/-- Solutions that share a box stand in the same way to all others. -/
theorem relateBoxes_left_congr (hs : AllNumbers s.constraints) (ht : AllNumbers t.constraints)
    (hr : AllNumbers r.constraints) (lengths : t.objectives.length = s.objectives.length)
    (lengths' : r.objectives.length = s.objectives.length)
    (shared : (ε.relateBoxes s t).sameBox = true) :
    ((ε.relateBoxes s r).dominance = .left ↔ (ε.relateBoxes t r).dominance = .left) ∧
      ((ε.relateBoxes r s).dominance = .left ↔ (ε.relateBoxes r t).dominance = .left) := by
  obtain ⟨tied, box⟩ := (ε.relateBoxes_sameBox_iff lengths.symm).1 shared
  have place := (feasibilityTier_eq_none_iff hs ht).1 tied
  rw [ε.relateBoxes_dominance_eq_left_iff hs hr lengths'.symm,
    ε.relateBoxes_dominance_eq_left_iff ht hr (lengths.trans lengths'.symm),
    ε.relateBoxes_dominance_eq_left_iff hr hs lengths',
    ε.relateBoxes_dominance_eq_left_iff hr ht (lengths'.trans lengths.symm), place, box]
  exact ⟨Iff.rfl, Iff.rfl⟩

end Epsilons

/-! ### Standings -/

/-- How an offer stands to the retained solutions. -/
inductive Standing where
  | beaten
  | sharing
  | free

/-- Some retained solution box-dominates the offer, or some retained solution shares its box, or
neither is the case. -/
def Standing.Holds (ε : Epsilons) (retained : List Solution) (s : Solution) : Standing → Prop
  | beaten => ∃ r ∈ retained, (ε.relateBoxes r s).dominance = .left
  | sharing => ∃ r ∈ retained, (ε.relateBoxes s r).sameBox = true
  | free => ∀ r ∈ retained,
    (ε.relateBoxes r s).dominance ≠ .left ∧ (ε.relateBoxes s r).sameBox = false

instance (ε : Epsilons) (retained : List Solution) (s : Solution) :
    DecidablePred (Standing.Holds ε retained s)
  | .beaten => inferInstanceAs (Decidable (∃ r ∈ retained, (ε.relateBoxes r s).dominance = .left))
  | .sharing => inferInstanceAs (Decidable (∃ r ∈ retained, (ε.relateBoxes s r).sameBox = true))
  | .free => inferInstanceAs (Decidable (∀ r ∈ retained,
    (ε.relateBoxes r s).dominance ≠ .left ∧ (ε.relateBoxes s r).sameBox = false))

/-- An offer and retained solutions, all of the same widths and without undefined constraint values.
No retained solution box-dominates another, and no two lie in the same box. -/
structure Meets (ε : Epsilons) (retained : List Solution) (s : Solution) : Prop where
  numbers : AllNumbers s.constraints
  others : ∀ r ∈ retained, AllNumbers r.constraints
  lengths : ∀ r ∈ retained, r.objectives.length = s.objectives.length
  undominated : ∀ r ∈ retained, ∀ t ∈ retained, (ε.relateBoxes r t).dominance ≠ .left
  distinct : (retained.map fun r => ε.boxIndex r.objectives).Nodup

namespace Meets

variable {ε : Epsilons} {retained before later : List Solution} {s r t : Solution}

theorem perm {retained' : List Solution} (perm : retained'.Perm retained)
    (h : Meets ε retained s) : Meets ε retained' s where
  numbers := h.numbers
  others r member := h.others r (perm.subset member)
  lengths r member := h.lengths r (perm.subset member)
  undominated r left t right := h.undominated r (perm.subset left) t (perm.subset right)
  distinct := (perm.map _).nodup_iff.2 h.distinct

section

variable (h : Meets ε retained s)
include h

/-- A box-dominated offer box-dominates nothing and shares no box. -/
theorem of_beaten (member : r ∈ retained) (wins : (ε.relateBoxes r s).dominance = .left)
    (other : t ∈ retained) :
    (ε.relateBoxes s t).dominance ≠ .left ∧ (ε.relateBoxes s t).sameBox = false := by
  refine ⟨fun wins' => h.undominated r member t other ?_, eq_false_of_ne_true fun shared =>
    h.undominated r member t other ?_⟩
  · exact (Criterion.epsilonBox ε).relate_trans (h.others r member) h.numbers (h.others t other)
      (h.lengths r member) (h.lengths t other).symm wins wins'
  · exact (ε.relateBoxes_left_congr h.numbers (h.others t other) (h.others r member)
      (h.lengths t other) (h.lengths r member) shared).2.1 wins

/-- An offer that shares a box neither box-dominates nor is box-dominated. -/
theorem of_sharing (member : r ∈ retained) (shared : (ε.relateBoxes s r).sameBox = true)
    (other : t ∈ retained) : (ε.relateBoxes s t).dominance = .neither := by
  have congr := ε.relateBoxes_left_congr h.numbers (h.others r member) (h.others t other)
    (h.lengths r member) (h.lengths t other) shared
  cases outcome : (ε.relateBoxes s t).dominance with
  | neither => rfl
  | left => exact absurd (congr.1.1 outcome) (h.undominated r member t other)
  | right =>
    have wins : (ε.relateBoxes t s).dominance = .left := by
      rw [ε.relateBoxes_swap s t, outcome]
      rfl
    exact absurd (congr.2.1 wins) (h.undominated t other r member)

/-- Exactly one standing is the case. -/
theorem existsUnique_standing : ∃! standing : Standing, standing.Holds ε retained s := by
  by_cases beaten : Standing.beaten.Holds ε retained s
  · refine ⟨.beaten, beaten, fun standing holds => ?_⟩
    obtain ⟨r, member, wins⟩ := beaten
    cases standing with
    | beaten => rfl
    | sharing =>
      obtain ⟨t, other, shared⟩ := holds
      exact absurd shared (ne_true_of_eq_false (h.of_beaten member wins other).2)
    | free => exact absurd wins (holds r member).1
  · by_cases sharing : Standing.sharing.Holds ε retained s
    · refine ⟨.sharing, sharing, fun standing holds => ?_⟩
      obtain ⟨r, member, shared⟩ := sharing
      cases standing with
      | beaten => exact absurd holds beaten
      | sharing => rfl
      | free => exact absurd shared (ne_true_of_eq_false (holds r member).2)
    · refine ⟨.free, fun r member => ⟨fun wins => beaten ⟨r, member, wins⟩,
        eq_false_of_ne_true fun shared => sharing ⟨r, member, shared⟩⟩, fun standing holds => ?_⟩
      cases standing with
      | beaten => exact absurd holds beaten
      | sharing => exact absurd holds sharing
      | free => rfl

end

/-- No other retained solution shares the box. -/
theorem sharing_unique (h : Meets ε (before ++ r :: later) s)
    (shared : (ε.relateBoxes s r).sameBox = true) (other : t ∈ before ++ later) :
    (ε.relateBoxes s t).sameBox = false := by
  have perm : (before ++ r :: later).Perm (r :: (before ++ later)) := List.perm_middle
  have distinct := (perm.map fun r => ε.boxIndex r.objectives).nodup_iff.1 h.distinct
  have member : r ∈ before ++ r :: later := perm.symm.subset List.mem_cons_self
  have member' : t ∈ before ++ r :: later := perm.symm.subset (List.mem_cons_of_mem _ other)
  refine eq_false_of_ne_true fun shared' => (List.nodup_cons.1 distinct).1 ?_
  have same := ((ε.relateBoxes_sameBox_iff (h.lengths r member).symm).1 shared).2
  have same' := ((ε.relateBoxes_sameBox_iff (h.lengths t member').symm).1 shared').2
  exact List.mem_map.2 ⟨t, other, same'.symm.trans same⟩

end Meets

/-! ### Sweeps -/

section Sweeps

variable {judge : Solution → Verdict} {retained before later : List Solution} {r : Solution}

theorem sweep_of_wins {wins : Solution → Bool}
    (verdict : ∀ r ∈ retained, judge r = if wins r then .dominated else .coexists) :
    sweep judge retained =
      some ⟨retained.filter fun r => !wins r, retained.countP wins, false⟩ := by
  induction retained with
  | nil => rfl
  | cons r rest ih =>
    obtain ⟨first, others⟩ := List.forall_mem_cons.1 verdict
    rw [sweep, ih others, first]
    cases won : wins r <;> simp [won]

theorem sweep_of_displaced (displaced : judge r = .displaced)
    (aside : ∀ t ∈ before ++ later, judge t = .coexists) :
    sweep judge (before ++ r :: later) = some ⟨before ++ later, 1, true⟩ := by
  induction before with
  | nil =>
    have stay := @sweep_of_wins judge later (fun _ => false) aside
    rw [List.nil_append, sweep, stay, displaced]
    simp
  | cons t before ih =>
    obtain ⟨first, others⟩ := List.forall_mem_cons.1 aside
    rw [List.cons_append, sweep, ih others, first]
    rfl

end Sweeps

/-! ### The archive afterwards -/

namespace Archive

variable {ε : Epsilons} {a : Archive} {s r : Solution} {before later : List Solution}

/-- An offer that is not kept out is retained, and those that it coexists with stay. -/
theorem offer_of_sweep (serves : a.Serves s.widths) (known : a.widths = some s.widths)
    {found : Sweep} (admitted : sweep (fun r => a.policy.judge s r) a.retained = some found) :
    a.offer s = (a.countOffer.retainSwept s found, .ok (.added found.leaving)) := by
  have settled :
      a.countOffer.settle s = (a.countOffer.retainSwept s found, .added found.leaving) := by
    rw [settle_eq_sweep]
    simp only [show sweep (fun r => a.countOffer.policy.judge s r) a.countOffer.retained =
      some found from admitted]
  rw [serves.offer_of_known known, settled]

section

variable (boxes : a.policy = .epsilonBox ε) (serves : a.Serves s.widths)
  (known : a.widths = some s.widths)
include boxes serves known

/-- In a shared box the smaller residual wins, and the occupant on equal ones. A winner takes the
place of the occupant only. -/
theorem offer_of_sharing (meets : Meets ε a.retained s) (split : a.retained = before ++ r :: later)
    (shared : (ε.relateBoxes s r).sameBox = true) :
    a.offer s =
      if ε.residual r.objectives ≤ ε.residual s.objectives then (a.countOffer, .ok .rejected)
      else
        ({ a with
            retained := before ++ later ++ [s]
            stats := ⟨a.stats.offered + 1, a.stats.improvements + 1,
              a.stats.dominatingImprovements⟩ }, .ok (.added 1)) := by
  have verdict := Epsilons.judge_of_sameBox shared
  by_cases loses : ε.residual r.objectives ≤ ε.residual s.objectives
  · rw [if_pos loses] at verdict ⊢
    refine offer_of_keptOut serves known ⟨r, ?_, by rw [boxes, verdict]⟩
    rw [split]
    exact List.mem_append_right _ List.mem_cons_self
  · rw [if_neg loses] at verdict ⊢
    rw [split] at meets
    have aside (t : Solution) (other : t ∈ before ++ later) :
        (Policy.epsilonBox ε).judge s t = .coexists :=
      Epsilons.judge_eq_coexists_iff_undecided.2
        ⟨meets.of_sharing (List.mem_append_right _ List.mem_cons_self) shared
          (List.perm_middle.symm.subset (List.mem_cons_of_mem _ other)),
          meets.sharing_unique shared other⟩
    have admitted : sweep (fun r => a.policy.judge s r) a.retained =
        some ⟨before ++ later, 1, true⟩ := by
      rw [boxes, split]
      exact sweep_of_displaced verdict aside
    exact offer_of_sweep serves known admitted

/-- Any other offer is retained in place of what it box-dominates. -/
theorem offer_of_free (free : Standing.free.Holds ε a.retained s) :
    a.offer s =
      ({ a with
          retained := (a.retained.filter fun r => (ε.relateBoxes s r).dominance ≠ .left) ++ [s]
          stats := ⟨a.stats.offered + 1, a.stats.improvements + 1,
            a.stats.dominatingImprovements + 1⟩ },
        .ok (.added (a.retained.countP fun r => (ε.relateBoxes s r).dominance = .left))) := by
  have admitted : sweep (fun r => a.policy.judge s r) a.retained =
      some ⟨a.retained.filter fun r => (ε.relateBoxes s r).dominance ≠ .left,
        a.retained.countP fun r => (ε.relateBoxes s r).dominance = .left, false⟩ := by
    have swept := @sweep_of_wins ((Policy.epsilonBox ε).judge s) a.retained
      (fun r => decide ((ε.relateBoxes s r).dominance = .left)) fun r member => ?_
    · simpa only [boxes, decide_not] using swept
    · cases outcome : (ε.relateBoxes s r).dominance with
      | left => exact Epsilons.judge_of_left outcome
      | neither => exact Epsilons.judge_eq_coexists_iff_undecided.2 ⟨outcome, (free r member).2⟩
      | right =>
        refine absurd ?_ (free r member).1
        rw [ε.relateBoxes_swap s r, outcome]
        rfl
  exact offer_of_sweep serves known admitted

end

theorem IsNew.meets (new : a.IsNew) (boxes : a.policy = .epsilonBox ε) (calls : List Call)
    (numbers : ∀ t ∈ a.takenSince [] calls, AllNumbers t.constraints)
    (number : AllNumbers s.constraints)
    (known : (calls.foldl Archive.after a).widths = some s.widths) :
    Meets ε (calls.foldl Archive.after a).retained s := by
  have policy := (a.policy_foldl_after calls).trans boxes
  have coexistent := new.coexistent calls
  have covered := new.covered (boxes ▸ ε.covering_boxes) calls
  refine ⟨number, fun r member => numbers r (covered.subset member), fun r member => ?_,
    fun r left t right => coexistent.not_dominates policy left right,
    coexistent.nodup_boxes policy⟩
  have widths := Option.some.inj ((coexistent.widths r member).symm.trans known)
  exact congrArg Widths.objectives widths

/-- Whatever was asked of an archive with boxes, and in whatever order it lists what it retains, an
offer of its widths stands to it in exactly one of three ways. If some retained solution
box-dominates the offer, it box-dominates none and shares no box, and it is rejected. If one shares
its box, the others do not, box dominance holds in neither direction with any, and the offer is
rejected or takes the place of that one. Otherwise it is retained in place of those it
box-dominates. Objective values may be infinite or undefined; no constraint value taken since the
last clear is undefined. -/
theorem offer_classified (new : a.IsNew) (boxes : a.policy = .epsilonBox ε) (calls : List Call)
    (numbers : ∀ t ∈ a.takenSince [] calls, AllNumbers t.constraints)
    (number : AllNumbers s.constraints)
    (known : (calls.foldl Archive.after a).widths = some s.widths) {retained : List Solution}
    (order : retained.Perm (calls.foldl Archive.after a).retained) :
    let b : Archive := { calls.foldl Archive.after a with retained }
    (∃! standing : Standing, standing.Holds ε retained s) ∧
      (Standing.beaten.Holds ε retained s →
        (∀ t ∈ retained, (ε.relateBoxes s t).dominance ≠ .left ∧
          (ε.relateBoxes s t).sameBox = false) ∧
        b.offer s = (b.countOffer, .ok .rejected)) ∧
      (∀ before r later, retained = before ++ r :: later → (ε.relateBoxes s r).sameBox = true →
        (∀ t ∈ retained, (ε.relateBoxes s t).dominance = .neither) ∧
        (∀ t ∈ before ++ later, (ε.relateBoxes s t).sameBox = false) ∧
        b.offer s =
          if ε.residual r.objectives ≤ ε.residual s.objectives then (b.countOffer, .ok .rejected)
          else
            ({ b with
                retained := before ++ later ++ [s]
                stats := ⟨b.stats.offered + 1, b.stats.improvements + 1,
                  b.stats.dominatingImprovements⟩ }, .ok (.added 1))) ∧
      (Standing.free.Holds ε retained s →
        b.offer s =
          ({ b with
              retained := (retained.filter fun t => (ε.relateBoxes s t).dominance ≠ .left) ++ [s]
              stats := ⟨b.stats.offered + 1, b.stats.improvements + 1,
                b.stats.dominatingImprovements + 1⟩ },
            .ok (.added (retained.countP fun t => (ε.relateBoxes s t).dominance = .left)))) := by
  intro b
  have boxesNow : b.policy = .epsilonBox ε := (a.policy_foldl_after calls).trans boxes
  have serves : b.Serves s.widths := ⟨(new.serves_of_widths calls known).accept, .inr known⟩
  have meets : Meets ε b.retained s := (new.meets boxes calls numbers number known).perm order
  refine ⟨meets.existsUnique_standing, ?_, ?_, offer_of_free boxesNow serves known⟩
  · rintro ⟨r, member, wins⟩
    refine ⟨fun t => meets.of_beaten member wins, offer_of_keptOut serves known ⟨r, member, ?_⟩⟩
    rw [boxesNow, Epsilons.judge_of_beaten wins]
  · intro before r later split shared
    have around : Meets ε (before ++ r :: later) s := split ▸ (show Meets ε retained s from meets)
    refine ⟨fun t => ?_, fun t => around.sharing_unique shared,
      offer_of_sharing boxesNow serves known meets split shared⟩
    rw [split]
    exact around.of_sharing (List.mem_append_right _ List.mem_cons_self) shared

end Archive

/-- Boxes of width one. -/
def unitBoxes : Epsilons :=
  ⟨[1], by decide, by decide⟩

/-- Two retained solutions, listed in the other order, and three offers: one that is box-dominated,
one that takes the place of an occupant and one that box-dominates it. -/
theorem offer_classified_earlierCalls :
    let reached := earlierCalls.foldl Archive.after (.epsilonBox unitBoxes)
    let b : Archive := { reached with
      retained := [.ofObjectives [2.25, 2.5], .ofObjectives [0, 9]] }
    b.retained.Perm reached.retained ∧
      b.offer (.ofObjectives [5, 5]) = (b.countOffer, .ok .rejected) ∧
      b.offer (.ofObjectives [2, 2.5]) =
        ({ b with
            retained := [.ofObjectives [0, 9], .ofObjectives [2, 2.5]]
            stats := ⟨6, 6, 4⟩ }, .ok (.added 1)) ∧
      b.offer (.ofObjectives [1, 1]) =
        ({ b with
            retained := [.ofObjectives [0, 9], .ofObjectives [1, 1]]
            stats := ⟨6, 6, 5⟩ }, .ok (.added 1)) := by
  intro reached b
  have kept : reached.retained = [.ofObjectives [0, 9], .ofObjectives [2.25, 2.5]] := rfl
  have order : b.retained.Perm reached.retained := kept ▸ List.Perm.swap _ _ []
  have taken : (Archive.epsilonBox unitBoxes).takenSince [] earlierCalls = [.ofObjectives [3, 3],
    .ofObjectives [2.5, 2.5], .ofObjectives [0, 9], .ofObjectives [2.25, 2.5]] := rfl
  have numbers : ∀ t ∈ (Archive.epsilonBox unitBoxes).takenSince [] earlierCalls,
      AllNumbers t.constraints := taken ▸ by decide
  have classified (s : Solution) (number : AllNumbers s.constraints)
      (known : reached.widths = some s.widths) :=
    Archive.offer_classified (.epsilonBox unitBoxes) rfl earlierCalls numbers number known order
  refine ⟨order, ?_, ?_, ?_⟩
  · obtain ⟨-, beaten, -, -⟩ := classified (.ofObjectives [5, 5]) (by decide) rfl
    exact (beaten ⟨_, List.mem_cons_self, by decide⟩).2
  · obtain ⟨-, -, sharing, -⟩ := classified (.ofObjectives [2, 2.5]) (by decide) rfl
    exact (sharing [] _ _ rfl (by decide)).2.2.trans (if_neg (by decide +kernel))
  · obtain ⟨-, -, -, free⟩ := classified (.ofObjectives [1, 1]) (by decide) rfl
    exact (free (by decide)).trans rfl

end ParetoFront
