import ParetoFront.Proofs.Archive.Reachable
import ParetoFront.Proofs.Dominance.Boxes

/-!
# The counters of an archive agree with what was asked of it

An archive counts the offers that it does not refuse and those that it lets in, and reports for each
of these how many solutions left for it. The counters, the reports and the number of retained
solutions are kept apart from each other. They agree after every series of calls: what was let in
and neither left for a later offer nor was cleared away is retained.

## Main definitions

- `Event`, `Archive.events` — the offers and clears of a series of calls, one by one
- `Event.TakesOver` — the occupant of a box was all that left
- `Archive.Balanced` — the counters agree with the events

## Main statements

- `Archive.Balanced.offer`, `Archive.Balanced.clear` — one event
- `Archive.Balanced.foldl_after` — a series of calls
- `Archive.ledger` — every reachable archive
-/

namespace ParetoFront

deriving instance DecidableEq for Variable, Solution

/-! ### What leaves for an offer -/

section

variable {judge : Solution → Verdict} {retained : List Solution} {found : Sweep}

theorem length_staying_add_leaving (swept : sweep judge retained = some found) :
    found.staying.length + found.leaving = retained.length := by
  obtain ⟨staying, leaving, -⟩ := sweep_eq_some swept
  rw [staying, leaving, List.countP_eq_length_filter, Nat.add_comm]
  simpa only [Bool.not_not] using
    (List.length_eq_length_filter_add (l := retained) fun r => (judge r).leaves).symm

theorem filter_eraseIdx {α : Type} {l : List α} {i : Nat} {p : α → Bool} (inside : i < l.length)
    (out : p l[i] = false) : (l.eraseIdx i).filter p = l.filter p := by
  conv_rhs => rw [← List.take_append_drop i l, List.drop_eq_getElem_cons inside]
  rw [List.eraseIdx_eq_take_drop_succ, List.filter_append, List.filter_append,
    List.filter_cons_of_neg (ne_true_of_eq_false out)]

/-- The occupant of a box is all that leaves if taking it out gives those that stay. -/
theorem onlyDisplaces_iff (swept : sweep judge retained = some found) :
    found.onlyDisplaces = true ↔ ∃ i : Fin retained.length,
      found.staying = retained.eraseIdx i ∧ judge retained[i] = .displaced := by
  obtain ⟨staying, leaving, displaces⟩ := sweep_eq_some swept
  have size := length_staying_add_leaving swept
  rw [Sweep.onlyDisplaces, Bool.and_eq_true, beq_iff_eq, displaces, List.any_eq_true]
  constructor
  · rintro ⟨⟨r, member, displaced⟩, alone⟩
    obtain ⟨i, inside, rfl⟩ := List.mem_iff_getElem.1 member
    have displaced : judge retained[i] = .displaced := of_decide_eq_true displaced
    have out : (!(judge retained[i]).leaves) = false := by rw [displaced]; rfl
    refine ⟨⟨i, inside⟩, ?_, displaced⟩
    rw [staying] at size ⊢
    rw [← filter_eraseIdx inside out] at size ⊢
    refine List.filter_sublist.eq_of_length ?_
    rw [List.length_eraseIdx_of_lt inside]
    omega
  · rintro ⟨i, erased, displaced⟩
    refine ⟨⟨retained[i], List.getElem_mem i.2, decide_eq_true displaced⟩, ?_⟩
    have inside := i.2
    rw [erased, List.length_eraseIdx_of_lt inside] at size
    omega

theorem judge_ne_keepsOut (swept : sweep judge retained = some found) {r : Solution}
    (member : r ∈ retained) : judge r ≠ .keepsOut := by
  intro keeps
  rw [sweep_eq, if_pos ⟨r, member, keeps⟩] at swept
  cases swept

end

namespace Epsilons

variable {ε : Epsilons} {s t : Solution}

/-- A retained solution that leaves for an offer without being box-dominated shares its box. -/
theorem judge_eq_displaced_iff (admitted : (Policy.epsilonBox ε).judge s t ≠ .keepsOut) :
    (Policy.epsilonBox ε).judge s t = .displaced ↔ (ε.relateBoxes s t).sameBox = true := by
  have tied := @relateBoxes_dominance_of_sameBox ε s t
  rw [Policy.judge] at admitted ⊢
  revert admitted tied
  generalize ε.relateBoxes s t = found
  obtain ⟨_ | _ | _, _ | _⟩ := found
  all_goals simp

end Epsilons

/-- An archive without boxes displaces nothing. -/
theorem Policy.judge_ne_displaced {criterion : Criterion} {tolerance : Float} {s r : Solution} :
    (nondominated criterion tolerance).judge s r ≠ .displaced := by
  rw [judge]
  cases criterion.relate s r with
  | left | right => exact nofun
  | neither =>
    by_cases near : euclideanDistance s.objectives r.objectives < tolerance <;> simp [near]

/-! ### Events -/

/-- An offer or a clear, with the archive that it met. -/
inductive Event where
  | offer (met : Archive) (s : Solution)
  | clear (met : Archive)

namespace Event

/-- The outcome of an offer that was not refused. -/
def outcome : Event → Option Outcome
  | offer met s => (met.offer s).2.toOption
  | clear _ => none

def succeeds (event : Event) : Bool :=
  event.outcome.isSome

def isAdded (event : Event) : Bool :=
  event.outcome.any Outcome.isAdded

/-- The number of solutions that are reported to have left for an offer. -/
def replaced (event : Event) : Nat :=
  event.outcome.elim 0 Outcome.replaced

/-- The number of solutions that were cleared away. -/
def removed : Event → Nat
  | offer .. => 0
  | clear met => met.size

/-- The offer was let in, and all that left for it was one solution in its box. -/
def TakesOver (ε : Epsilons) : Event → Prop
  | offer met s =>
    (offer met s).isAdded = true ∧ ∃ i : Fin met.retained.length,
      (met.offer s).1.retained = met.retained.eraseIdx i ++ [s] ∧
        (ε.compareBoxes s met.retained[i]).map BoxComparison.sameBox = .ok true
  | clear _ => False

instance (ε : Epsilons) : DecidablePred (TakesOver ε)
  | offer met s =>
    inferInstanceAs (Decidable ((offer met s).isAdded = true ∧ ∃ i : Fin met.retained.length,
      (met.offer s).1.retained = met.retained.eraseIdx i ++ [s] ∧
        (ε.compareBoxes s met.retained[i]).map BoxComparison.sameBox = .ok true))
  | clear _ => inferInstanceAs (Decidable False)

theorem not_takesOver {event : Event} (out : event.isAdded = false) (ε : Epsilons) :
    ¬ event.TakesOver ε := by
  cases event with
  | offer met s => exact fun takes => ne_true_of_eq_false out takes.1
  | clear met => exact id

theorem succeeds_of_isAdded {event : Event} (added : event.isAdded = true) :
    event.succeeds = true := by
  rw [isAdded, Option.any_eq_true] at added
  obtain ⟨outcome, isSome, -⟩ := added
  rw [succeeds, isSome, Option.isSome_some]

end Event

namespace Archive

/-- The events of offers made one after the other. -/
def offerEvents (a : Archive) : List Solution → List Event
  | [] => []
  | s :: later => .offer a s :: (a.offer s).1.offerEvents later

/-- The events of a call. A series of offers ends with the first that is refused. -/
def eventsOf (a : Archive) : Call → List Event
  | .clear => [.clear a]
  | call => a.offerEvents (a.offeredBy call)

/-- The events of a series of calls. -/
def events (a : Archive) : List Call → List Event
  | [] => []
  | call :: later => a.eventsOf call ++ (a.after call).events later

/-! ### One offer -/

section

variable {a : Archive} {s : Solution}

/-- An offer is refused, or counted and rejected, or counted and let in. -/
theorem offer_cases (a : Archive) (s : Solution) :
    (∃ e, a.offer s = (a, .error e)) ∨
      a.Serves s.widths ∧
        (a.offer s = ({ a with widths := some s.widths }.countOffer, .ok .rejected) ∨
          ∃ found, sweep (fun r => a.policy.judge s r) a.retained = some found ∧
            a.offer s = ({ a with widths := some s.widths }.countOffer.retainSwept s found,
              .ok (.added found.leaving))) := by
  refine (a.refused_or_serves s).imp_right fun serves => ⟨serves, ?_⟩
  rw [serves.offer rfl, settle_eq_sweep]
  cases swept : sweep (fun r => a.policy.judge s r) a.retained with
  | none =>
    left
    simp only [countOffer, swept]
  | some found =>
    refine .inr ⟨found, rfl, ?_⟩
    simp only [countOffer, swept]

/-- The counters of an archive agree with the events. -/
structure Balanced (a : Archive) (events : List Event) : Prop where
  offered : a.stats.offered = events.countP Event.succeeds
  improvements : a.stats.improvements = events.countP Event.isAdded
  size : a.size + (events.map Event.replaced).sum + (events.map Event.removed).sum =
    a.stats.improvements
  takeovers : ∀ ε, a.policy = .epsilonBox ε →
    a.stats.dominatingImprovements + events.countP (Event.TakesOver ε) = a.stats.improvements
  criterion : ∀ criterion tolerance, a.policy = .nondominated criterion tolerance →
    a.stats.dominatingImprovements = a.stats.improvements

theorem onlyDisplaces_eq_false {criterion : Criterion} {tolerance : Float} {found : Sweep}
    (judged : a.policy = .nondominated criterion tolerance)
    (swept : sweep (fun r => a.policy.judge s r) a.retained = some found) :
    found.onlyDisplaces = false := by
  refine eq_false_of_ne_true fun only => ?_
  obtain ⟨i, -, displaced⟩ := (onlyDisplaces_iff swept).1 only
  rw [judged] at displaced
  exact Policy.judge_ne_displaced displaced

/-- In an archive with boxes the scan finds out whether an offer takes over a box. -/
theorem takesOver_iff {ε : Epsilons} {found : Sweep} {recent : List Solution}
    (boxes : a.policy = .epsilonBox ε) (serves : a.Serves s.widths) (h : a.Coexistent recent)
    (swept : sweep (fun r => a.policy.judge s r) a.retained = some found)
    (offered : a.offer s = ({ a with widths := some s.widths }.countOffer.retainSwept s found,
      .ok (.added found.leaving))) :
    (Event.offer a s).TakesOver ε ↔ found.onlyDisplaces = true := by
  have added : (Event.offer a s).isAdded = true := by
    rw [Event.isAdded, Event.outcome, offered]
    rfl
  have retained : (a.offer s).1.retained = found.staying ++ [s] := by rw [offered]; rfl
  rw [Event.TakesOver, and_iff_right added, retained, onlyDisplaces_iff swept]
  refine exists_congr fun i => and_congr (List.append_left_inj [s]) ?_
  have lengths : s.objectives.length = a.retained[i].objectives.length :=
    congrArg Widths.objectives (serves.widths_of_retained h (List.getElem_mem i.2)).symm
  have admitted := judge_ne_keepsOut swept (List.getElem_mem i.2)
  rw [boxes] at admitted ⊢
  rw [ε.compareBoxes_eq_ok lengths]
  exact Iff.trans (by simp [Except.map]) (Epsilons.judge_eq_displaced_iff admitted).symm

/-- One more event, and what it says about the archive afterwards. -/
theorem Balanced.concat {b : Archive} {events : List Event} (h : a.Balanced events)
    (event : Event) (policy : b.policy = a.policy)
    (offered : b.stats.offered = a.stats.offered + if event.succeeds then 1 else 0)
    (improvements : b.stats.improvements = a.stats.improvements + if event.isAdded then 1 else 0)
    (size : b.size + event.replaced + event.removed = a.size + if event.isAdded then 1 else 0)
    (takeovers : ∀ ε, a.policy = .epsilonBox ε →
      b.stats.dominatingImprovements + (if event.TakesOver ε then 1 else 0) =
        a.stats.dominatingImprovements + if event.isAdded then 1 else 0)
    (criterion : ∀ criterion tolerance, a.policy = .nondominated criterion tolerance →
      b.stats.dominatingImprovements =
        a.stats.dominatingImprovements + if event.isAdded then 1 else 0) :
    b.Balanced (events ++ [event]) where
  offered := by rw [offered, h.offered, List.countP_append, List.countP_singleton]
  improvements := by rw [improvements, h.improvements, List.countP_append, List.countP_singleton]
  size := by
    have before := h.size
    simp only [List.map_append, List.sum_append, List.map_singleton, List.sum_singleton]
    omega
  takeovers ε boxes := by
    rw [policy] at boxes
    have before := h.takeovers ε boxes
    have now := takeovers ε boxes
    simp only [List.countP_append, List.countP_singleton, decide_eq_true_eq]
    omega
  criterion c tolerance judged := by
    rw [policy] at judged
    have before := h.criterion c tolerance judged
    have now := criterion c tolerance judged
    omega

theorem Balanced.offer {events : List Event} {recent : List Solution} (h : a.Balanced events)
    (coexistent : a.Coexistent recent) (s : Solution) :
    (a.offer s).1.Balanced (events ++ [.offer a s]) := by
  obtain ⟨e, refused⟩ | ⟨serves, rejected | ⟨found, swept, added⟩⟩ := a.offer_cases s
  · have outcome : (Event.offer a s).outcome = none := by
      rw [Event.outcome, refused]
      rfl
    have isAdded : (Event.offer a s).isAdded = false := by rw [Event.isAdded, outcome]; rfl
    rw [refused]
    refine h.concat _ rfl ?_ ?_ ?_ (fun ε _ => ?_) (fun _ _ _ => ?_)
    all_goals simp [Event.succeeds, Event.replaced, Event.removed, Event.not_takesOver, outcome,
      isAdded]
  · have outcome : (Event.offer a s).outcome = some .rejected := by
      rw [Event.outcome, rejected]
      rfl
    have isAdded : (Event.offer a s).isAdded = false := by rw [Event.isAdded, outcome]; rfl
    rw [rejected]
    refine h.concat _ rfl ?_ ?_ ?_ (fun ε _ => ?_) (fun _ _ _ => ?_)
    all_goals simp [Event.succeeds, Event.replaced, Event.removed, Event.not_takesOver, outcome,
      isAdded, Outcome.replaced, countOffer, Archive.size]
  · have outcome : (Event.offer a s).outcome = some (.added found.leaving) := by
      rw [Event.outcome, added]
      rfl
    have size := length_staying_add_leaving swept
    have isAdded : (Event.offer a s).isAdded = true := by rw [Event.isAdded, outcome]; rfl
    have takes (ε : Epsilons) (boxes : a.policy = .epsilonBox ε) :=
      takesOver_iff boxes serves coexistent swept added
    rw [added]
    refine h.concat _ rfl ?_ ?_ ?_ (fun ε boxes => ?_) (fun c tolerance judged => ?_)
    · simp [Event.succeeds, outcome, retainSwept, countOffer]
    · rw [isAdded]
      rfl
    · rw [isAdded, Event.replaced, outcome]
      show (found.staying ++ [s]).length + found.leaving + 0 = a.retained.length + 1
      rw [List.length_append, ← size, List.length_singleton]
      omega
    · rw [isAdded]
      simp only [takes ε boxes, retainSwept, countOffer]
      cases found.onlyDisplaces <;> rfl
    · rw [isAdded]
      simp only [retainSwept, countOffer, onlyDisplaces_eq_false judged swept]
      rfl

theorem Balanced.clear {events : List Event} (h : a.Balanced events) :
    a.clear.Balanced (events ++ [.clear a]) := by
  refine h.concat (.clear a) rfl rfl rfl ?_ (fun _ _ => rfl) (fun _ _ _ => rfl)
  show 0 + 0 + a.size = a.size + 0
  omega

end

/-! ### Series of calls -/

section

variable {a : Archive} {before : List Event} {recent : List Solution}

theorem Balanced.offers (h : a.Balanced before) (coexistent : a.Coexistent recent)
    (offers : List Solution) :
    (offers.foldl (fun a s => (a.offer s).1) a).Balanced (before ++ a.offerEvents offers) := by
  induction offers generalizing a before recent with
  | nil => rwa [offerEvents, List.append_nil]
  | cons s later ih =>
    rw [offerEvents, List.append_cons]
    exact ih (h.offer coexistent s) (coexistent.offer s)

theorem Balanced.after (h : a.Balanced before) (coexistent : a.Coexistent recent) (call : Call) :
    (a.after call).Balanced (before ++ a.eventsOf call) := by
  cases call with
  | clear => exact h.clear
  | offer s | add s => exact h.offer coexistent s
  | addAll offers =>
    show (a.addAll offers).1.Balanced (before ++ a.offerEvents (a.seriesOffered offers))
    rw [addAll_eq_foldl]
    exact h.offers coexistent _

/-- The series answers with the number of its offers that were let in. -/
theorem addAll_eq_ok {offers : List Solution} {n : Nat} (isOk : (a.addAll offers).2 = .ok n) :
    n = (a.eventsOf (.addAll offers)).countP Event.isAdded := by
  show n = (a.offerEvents (a.seriesOffered offers)).countP Event.isAdded
  induction offers generalizing a n with
  | nil => exact (Except.ok.inj isOk).symm
  | cons s later ih =>
    cases offered : a.offer s with
    | mk next result =>
      cases result with
      | error e =>
        simp only [addAll, add, offered, orFault] at isOk
        cases isOk
      | ok outcome =>
        simp only [addAll, add, offered, orFault] at isOk
        cases answered : (next.addAll later).2 with
        | error fault =>
          rw [answered] at isOk
          cases isOk
        | ok m =>
          rw [answered] at isOk
          have first : (Event.offer a s).isAdded = outcome.isAdded := by
            rw [Event.isAdded, Event.outcome, offered]
            rfl
          rw [← Except.ok.inj isOk, seriesOffered, offered, offerEvents, offered,
            List.countP_cons, first, ← ih answered]

theorem Balanced.foldl_after (h : a.Balanced before) (coexistent : a.Coexistent recent)
    (calls : List Call) :
    (calls.foldl Archive.after a).Balanced (before ++ a.events calls) := by
  induction calls generalizing a before recent with
  | nil => rwa [events, List.append_nil]
  | cons call later ih =>
    rw [events, ← List.append_assoc]
    exact ih (h.after coexistent call) (coexistent.foldl_after [call])

theorem IsNew.balanced (new : a.IsNew) : a.Balanced [] := by
  obtain ⟨widths, isEmpty, -⟩ := new.eq_empty
  rw [isEmpty]
  exact ⟨rfl, rfl, rfl, fun _ _ => rfl, fun _ _ _ => rfl⟩

/-- Whatever was asked of a new archive, its counters agree with what came of it. So many offers
were counted as were not refused, so many improvements as were let in, and what was let in is
retained unless it was reported to leave for a later offer or was cleared away. Each improvement is
a dominating one unless all that left for it was one solution in its box; in an archive without
boxes each one is. A series that is answered is answered with its share of the improvements. -/
theorem ledger (new : a.IsNew) (calls : List Call) :
    let reached := calls.foldl Archive.after a
    let events := a.events calls
    reached.stats.offered = events.countP Event.succeeds ∧
      reached.stats.improvements = events.countP Event.isAdded ∧
      reached.size + (events.map Event.replaced).sum + (events.map Event.removed).sum =
        reached.stats.improvements ∧
      reached.stats.dominatingImprovements ≤ reached.stats.improvements ∧
      reached.stats.improvements ≤ reached.stats.offered ∧
      (∀ ε, a.policy = .epsilonBox ε →
        reached.stats.improvements - reached.stats.dominatingImprovements =
          events.countP (Event.TakesOver ε)) ∧
      (∀ criterion tolerance, a.policy = .nondominated criterion tolerance →
        reached.stats.dominatingImprovements = reached.stats.improvements) ∧
      ∀ earlier offers later n, calls = earlier ++ .addAll offers :: later →
        let met := earlier.foldl Archive.after a
        (met.addAll offers).2 = .ok n →
          n = (met.eventsOf (.addAll offers)).countP Event.isAdded ∧
            (met.after (.addAll offers)).stats.improvements = met.stats.improvements + n := by
  intro reached events
  have fresh := new.coexistent []
  have balanced : reached.Balanced events := new.balanced.foldl_after fresh calls
  have policy : reached.policy = a.policy := a.policy_foldl_after calls
  refine ⟨balanced.offered, balanced.improvements, balanced.size, ?_, ?_, fun ε boxes => ?_,
    fun c tolerance judged => ?_, ?_⟩
  · cases kind : reached.policy with
    | epsilonBox ε => exact Nat.le.intro (balanced.takeovers ε kind)
    | nondominated c tolerance => exact (balanced.criterion c tolerance kind).le
  · rw [balanced.offered, balanced.improvements]
    exact List.countP_mono_left fun event _ => Event.succeeds_of_isAdded
  · rw [← balanced.takeovers ε (policy.trans boxes), Nat.add_sub_cancel_left]
  · exact balanced.criterion c tolerance (policy.trans judged)
  · intro earlier offers later n _ met isOk
    have until_met : met.Balanced (a.events earlier) := new.balanced.foldl_after fresh earlier
    have then_after := until_met.after (fresh.foldl_after earlier) (.addAll offers)
    have share := addAll_eq_ok isOk
    refine ⟨share, ?_⟩
    rw [then_after.improvements, List.countP_append, ← until_met.improvements, share]

end

end Archive

/-- Refused, rejected and accepted offers, one that makes several solutions leave, one that takes
over a box, a clear, and a series that is stopped. -/
def accountedCalls : List Call :=
  [.addAll [.ofObjectives [2, 5], .ofObjectives [3, 3], .ofObjectives [5, 2]],
    .offer (.ofObjectives [1]), .add (.ofObjectives [1.5, 1.5]), .offer (.ofObjectives [9, 9]),
    .add (.ofObjectives [1.25, 1.25]), .clear,
    .addAll [.ofObjectives [0, 9], .ofObjectives [9, 0], .ofObjectives []]]

theorem ledger_accountedCalls :
    let ε : Epsilons := ⟨[1], by decide, by decide⟩
    let a := Archive.epsilonBox ε
    let reached := accountedCalls.foldl Archive.after a
    let events := a.events accountedCalls
    events.map Event.outcome =
        [some (.added 0), some (.added 0), some (.added 0), none, some (.added 3), some .rejected,
          some (.added 1), none, some (.added 0), some (.added 0), none] ∧
      (events.map Event.removed).sum = 1 ∧ reached.stats = ⟨8, 7, 6⟩ ∧ reached.size = 2 ∧
      events.countP (Event.TakesOver ε) = 1 := by
  intro ε a reached events
  obtain ⟨-, -, size, -, -, takeovers, -⟩ := Archive.ledger (.epsilonBox ε) accountedCalls
  have outcomes : events.map Event.outcome =
      [some (.added 0), some (.added 0), some (.added 0), none, some (.added 3), some .rejected,
        some (.added 1), none, some (.added 0), some (.added 0), none] := by decide +kernel
  have removed : (events.map Event.removed).sum = 1 := by decide +kernel
  have stats : reached.stats = ⟨8, 7, 6⟩ := by decide +kernel
  have replaced : (events.map Event.replaced).sum = 4 := by decide +kernel
  refine ⟨outcomes, removed, stats, ?_, ?_⟩
  · have balance : reached.size + (events.map Event.replaced).sum +
      (events.map Event.removed).sum = reached.stats.improvements := size
    rw [stats, replaced, removed] at balance
    exact Nat.add_right_cancel (m := 5) balance
  · have count : reached.stats.improvements - reached.stats.dominatingImprovements =
      events.countP (Event.TakesOver ε) := takeovers ε rfl
    rw [← count, stats]
    rfl

end ParetoFront
