import ParetoFront.Proofs.Archive.Content
import ParetoFront.Proofs.Archive.OccupiedBoxes

/-!
# Offers made again

An archive with boxes rejects every solution that it took since the last clear when it is offered
again: whatever made it lose or leave still keeps it out. That needs residuals that are numbers. An
objective value that is infinite in box widths has an undefined residual, which is not at most
itself, so that the same solution displaces itself.

## Main statements

- `Epsilons.covering_residuals` — what keeps an offer out, as a preorder
- `Archive.reoffer_rejected` — offers made again
- `reoffer_overflow` — a finite objective value with an infinite quotient
-/

namespace ParetoFront

open Number

variable {ε : Epsilons} {a : Archive} {s : Solution}

/-- Among solutions whose residuals are numbers, what keeps an offer out covers whatever the offer
covers, and every solution keeps itself out. -/
theorem Epsilons.covering_residuals (ε : Epsilons) :
    (Policy.epsilonBox ε).Covering ε.Regular
      (ε.CoversBy fun s t => ε.residual s.objectives ≤ ε.residual t.objectives) := by
  have places {s t : Solution} (hs : ε.Regular s) (ht : ε.Regular t) :=
    le_iff_units hs.residual_isNaN ht.residual_isNaN
  refine covering (fun s hs => hs.1) (fun s hs => ?_) (fun s t u hs ht hu first second => ?_)
    (fun _ _ _ _ le => le) (fun s t hs ht loses => ?_)
  · exact (places hs hs).2 le_rfl
  · rw [places hs ht] at first
    rw [places ht hu] at second
    exact (places hs hu).2 (first.trans second)
  · rw [places hs ht, not_le] at loses
    exact (places ht hs).2 loses.le

namespace Archive

/-- An offer that is kept out is counted, and nothing else changes. -/
theorem offer_of_keptOut (serves : a.Serves s.widths) (known : a.widths = some s.widths)
    (keptOut : ∃ r ∈ a.retained, a.policy.judge s r = .keepsOut) :
    a.offer s = (a.countOffer, .ok .rejected) := by
  have lost : a.countOffer.settle s = (a.countOffer, .rejected) := by
    have keptOut : ∃ r ∈ a.countOffer.retained, a.countOffer.policy.judge s r = .keepsOut := keptOut
    rw [settle_eq_sweep, sweep_eq, if_pos keptOut]
  rw [serves.offer_of_known known, lost]

/-- Whatever was asked of an archive with boxes, it rejects every solution that it took since the
last clear, retained or not, when that is offered again: the offer is counted, and the retained
solutions, their order, the widths and the other counters stay. The solutions taken since the last
clear must have no undefined constraint value and objective values that are finite in box widths. -/
theorem reoffer_rejected (new : a.IsNew) (boxes : a.policy = .epsilonBox ε) (calls : List Call)
    (regular : ∀ t ∈ a.takenSince [] calls, ε.Regular t) :
    let reached := calls.foldl Archive.after a
    ∀ s ∈ a.takenSince [] calls, reached.offer s = (reached.countOffer, .ok .rejected) := by
  intro reached s member
  have policy : reached.policy = .epsilonBox ε := (a.policy_foldl_after calls).trans boxes
  have covered := new.covered (boxes ▸ ε.covering_residuals) calls
  obtain ⟨serves, known⟩ := covered.serves s member
  obtain ⟨r, kept, above⟩ := covered.covered regular s member
  refine offer_of_keptOut serves known ⟨r, kept, ?_⟩
  rw [policy]
  exact Epsilons.judge_eq_keepsOut_iff_coversBy.2 above

end Archive

/-- Refused offers between offers that are dominated, displaced and retained. -/
def earlierCalls : List Call :=
  [.offer (.ofObjectives [0, 0]), .clear, .add (.ofObjectives [3, 3]), .offer (.ofObjectives [1]),
    .addAll [.ofObjectives [2.5, 2.5], .ofObjectives [0, 9], .ofObjectives []],
    .add (.ofObjectives [2.25, 2.5])]

theorem reoffer_rejected_earlierCalls :
    let a := Archive.epsilonBox ⟨[1], by decide, by decide⟩
    let reached := earlierCalls.foldl Archive.after a
    a.takenSince [] earlierCalls =
        [.ofObjectives [3, 3], .ofObjectives [2.5, 2.5], .ofObjectives [0, 9],
          .ofObjectives [2.25, 2.5]] ∧
      reached.retained = [.ofObjectives [0, 9], .ofObjectives [2.25, 2.5]] ∧
      reached.offer (.ofObjectives [3, 3]) = (reached.countOffer, .ok .rejected) := by
  intro a reached
  have taken : a.takenSince [] earlierCalls =
    [.ofObjectives [3, 3], .ofObjectives [2.5, 2.5], .ofObjectives [0, 9],
      .ofObjectives [2.25, 2.5]] := rfl
  refine ⟨taken, rfl, Archive.reoffer_rejected (.epsilonBox _) rfl earlierCalls ?_ _ ?_⟩
  · exact taken ▸ by decide
  · exact taken ▸ List.mem_cons_self

/-- A finite objective value that is infinite in box widths. Offered again while it is retained, it
displaces itself. -/
theorem reoffer_overflow :
    let ε : Epsilons := ⟨[1e-200], by decide, by decide +kernel⟩
    let s : Solution := .ofObjectives [1e200]
    let reached := (Archive.epsilonBox ε).after (.offer s)
    (∀ x ∈ s.objectives, x.isFinite = true) ∧ AllNumbers s.constraints ∧
      s ∈ (Archive.epsilonBox ε).takenSince [] [.offer s] ∧ reached.retained = [s] ∧
      (reached.offer s).2 = .ok (.added 1) ∧ (reached.offer s).1.stats = ⟨2, 2, 1⟩ :=
  ⟨by decide +kernel, by decide, List.mem_singleton.2 rfl, rfl, by decide +kernel,
    by decide +kernel⟩

end ParetoFront
