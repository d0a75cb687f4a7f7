import ParetoFront.Proofs.Archive.Reachable

/-!
# Coverage of offers

An archive forgets what it drops. When its policy decides by a preorder among solutions, what keeps
an offer out covers it and what makes a retained solution leave covers that one, so that every offer
taken since the last clear stays covered by a retained solution, through every chain of departures.

## Main definitions

- `Archive.takenSince` — the offers since the last clear that were not refused
- `Policy.Covering` — the policy decides by a preorder
- `Archive.Covered` — the state between two calls

## Main statements

- `Archive.invariant_foldl_taken` — what offers taken and clears keep holds after all calls
- `Archive.Covered.offer`, `Archive.Covered.foldl_offer` — one more offer, several more
- `Archive.IsNew.covered` — coverage in every reachable archive
-/

namespace ParetoFront

/-- The policy decides by a preorder among good solutions of equal widths: whatever keeps an offer
out covers it, and an offer covers those that leave for it. -/
structure Policy.Covering (policy : Policy) (good : Solution → Prop)
    (covers : Solution → Solution → Prop) : Prop where
  refl : ∀ s, good s → covers s s
  trans : ∀ s t u, good s → good t → good u → s.widths = t.widths → t.widths = u.widths →
    covers s t → covers t u → covers s u
  of_keepsOut : ∀ s r, good s → good r → s.widths = r.widths →
    policy.judge s r = .keepsOut → covers r s
  of_leaves : ∀ s r, good s → good r → s.widths = r.widths →
    policy.judge s r ≠ .keepsOut → policy.judge s r ≠ .coexists → covers s r

namespace Archive

variable {a : Archive} {s : Solution} {w : Widths} {taken offers : List Solution}

/-! ### Offers taken -/

/-- The solutions of a series that are taken, which are those before the first that is refused. -/
def seriesTaken (a : Archive) : List Solution → List Solution
  | [] => []
  | s :: rest =>
    match a.offer s with
    | (next, .ok _) => s :: next.seriesTaken rest
    | (_, .error _) => []

/-- The solutions that an archive takes from a call. -/
def takenBy (a : Archive) : Call → List Solution
  | .offer s | .add s => a.seriesTaken [s]
  | .addAll offers => a.seriesTaken offers
  | .clear => []

/-- The solutions taken since the last clear, after more calls. -/
def takenSince (a : Archive) (taken : List Solution) : List Call → List Solution
  | [] => taken
  | call :: later =>
    (a.after call).takenSince (if call matches .clear then [] else taken ++ a.takenBy call) later

theorem addAll_of_ok {rest : List Solution} {next : Archive} {outcome : Outcome}
    (offered : a.offer s = (next, .ok outcome)) :
    (a.addAll (s :: rest)).1 = (next.addAll rest).1 := by
  simp only [addAll, add, offered, orFault]

theorem addAll_singleton (a : Archive) (s : Solution) : (a.addAll [s]).1 = (a.offer s).1 := by
  rw [addAll, add]
  cases a.offer s with
  | mk next result => cases result <;> rfl

/-- What offers taken and clears keep holds after all calls. -/
theorem invariant_foldl_taken {motive : List Solution → Archive → Prop}
    (cleared : ∀ taken a, motive taken a → motive [] a.clear)
    (offered : ∀ taken (a : Archive) (s : Solution), a.Serves s.widths → motive taken a →
      motive (taken ++ [s]) (a.offer s).1)
    (taken : List Solution) (start : motive taken a) (calls : List Call) :
    motive (a.takenSince taken calls) (calls.foldl Archive.after a) := by
  have series (taken : List Solution) (a : Archive) (start : motive taken a)
      (offers : List Solution) :
      motive (taken ++ a.seriesTaken offers) (a.addAll offers).1 := by
    induction offers generalizing taken a with
    | nil => rwa [seriesTaken, List.append_nil]
    | cons s rest ih =>
      obtain ⟨e, refused⟩ | serves := a.refused_or_serves s
      · simpa only [seriesTaken, addAll, add, refused, orFault, List.append_nil] using start
      · obtain ⟨outcome, isOk⟩ := serves.offer_eq_ok rfl
        have result : a.offer s = ((a.offer s).1, .ok outcome) := Prod.ext rfl isOk
        rw [addAll_of_ok result, seriesTaken, result, List.append_cons]
        exact ih _ _ (offered taken a s serves start)
  induction calls generalizing taken a with
  | nil => exact start
  | cons call later ih =>
    refine ih _ ?_
    cases call with
    | offer s | add s =>
      show motive (taken ++ a.seriesTaken [s]) (a.offer s).1
      rw [← addAll_singleton]
      exact series taken a start [s]
    | addAll offers => exact series taken a start offers
    | clear => exact cleared taken a start

/-! ### Coverage -/

/-- The offers taken are still served. When they are good, each is covered by one that is
retained. -/
structure Covered (good : Solution → Prop) (covers : Solution → Solution → Prop) (a : Archive)
    (taken : List Solution) : Prop where
  subset : a.retained ⊆ taken
  serves : ∀ t ∈ taken, a.Serves t.widths ∧ a.widths = some t.widths
  covered : (∀ t ∈ taken, good t) → ∀ t ∈ taken, ∃ r ∈ a.retained, covers r t

variable {good : Solution → Prop} {covers : Solution → Solution → Prop}

theorem Covered.of_empty (empty : a.retained = []) : a.Covered good covers [] :=
  ⟨by simp [empty], by simp, by simp⟩

theorem Covered.widths_eq (h : a.Covered good covers taken) (serves : a.Serves w) {t : Solution}
    (member : t ∈ taken) : t.widths = w := by
  have known := (h.serves t member).2
  obtain unknown | same := serves.widths
  · cases unknown.symm.trans known
  · exact Option.some.inj (known.symm.trans same)

/-- One more offer keeps all offers covered: those whose cover leaves for it are covered by it. -/
theorem Covered.offer (covering : a.policy.Covering good covers)
    (h : a.Covered good covers taken) (serves : a.Serves s.widths) :
    (a.offer s).1.Covered good covers (taken ++ [s]) := by
  have retained := serves.retained_offer rfl
  have matching : ∀ t ∈ taken, t.widths = s.widths := fun t => h.widths_eq serves
  rw [Policy.retainedAfter] at retained
  refine ⟨?_, ?_, ?_⟩
  · rw [retained]
    split
    · exact List.subset_append_of_subset_left _ h.subset
    · exact List.append_subset.2 ⟨List.subset_append_of_subset_left _
        (List.Subset.trans (List.filter_subset_self _) h.subset), List.subset_append_right _ _⟩
  · have known : (a.offer s).1.Serves s.widths ∧ (a.offer s).1.widths = some s.widths :=
      ⟨serves.offer_serves rfl, serves.widths_offer⟩
    refine List.forall_mem_append.2 ⟨fun t member => ?_, List.forall_mem_singleton.2 known⟩
    rwa [matching t member]
  · intro allGood
    obtain ⟨goodTaken, goodNew⟩ := List.forall_mem_append.1 allGood
    have goodNew : good s := goodNew s List.mem_cons_self
    have covered := h.covered goodTaken
    have inside {r : Solution} (member : r ∈ a.retained) : good r ∧ s.widths = r.widths :=
      ⟨goodTaken r (h.subset member), (matching r (h.subset member)).symm⟩
    by_cases keptOut : ∃ r ∈ a.retained, a.policy.judge s r = .keepsOut
    · rw [if_pos keptOut] at retained
      rw [retained]
      refine List.forall_mem_append.2 ⟨covered, List.forall_mem_singleton.2 ?_⟩
      obtain ⟨r, member, verdict⟩ := keptOut
      exact ⟨r, member,
        covering.of_keepsOut s r goodNew (inside member).1 (inside member).2 verdict⟩
    · rw [if_neg keptOut] at retained
      rw [retained]
      have isNew : s ∈ (a.retained.filter fun r => a.policy.judge s r = .coexists) ++ [s] := by simp
      refine List.forall_mem_append.2 ⟨?_, List.forall_mem_singleton.2
        ⟨s, isNew, covering.refl s goodNew⟩⟩
      intro t member
      obtain ⟨r, kept, above⟩ := covered t member
      by_cases stays : a.policy.judge s r = .coexists
      · exact ⟨r, List.mem_append_left _ (List.mem_filter.2 ⟨kept, by simpa using stays⟩), above⟩
      · have admitted : a.policy.judge s r ≠ .keepsOut := fun verdict => keptOut ⟨r, kept, verdict⟩
        obtain ⟨goodOld, same⟩ := inside kept
        have above' := covering.of_leaves s r goodNew goodOld same admitted stays
        exact ⟨s, isNew, covering.trans s r t goodNew goodOld (goodTaken t member) same
          (same.symm.trans (matching t member).symm) above' above⟩

theorem Covered.foldl_offer (covering : a.policy.Covering good covers)
    (h : a.Covered good covers taken) (serves : a.Serves w)
    (matching : ∀ s ∈ offers, s.widths = w) :
    (offers.foldl (fun a s => (a.offer s).1) a).Covered good covers (taken ++ offers) := by
  induction offers generalizing a taken with
  | nil => rwa [List.append_nil]
  | cons s rest ih =>
    obtain ⟨first, others⟩ := List.forall_mem_cons.1 matching
    subst first
    rw [List.append_cons]
    refine ih ?_ (h.offer covering serves) (serves.offer_serves rfl) others
    rwa [serves.policy_offer rfl]

/-- Every offer taken since the last clear is covered in every reachable archive. -/
theorem IsNew.covered (new : a.IsNew) (covering : a.policy.Covering good covers)
    (calls : List Call) :
    (calls.foldl Archive.after a).Covered good covers (a.takenSince [] calls) := by
  have start : a.policy.Covering good covers ∧ a.Covered good covers [] :=
    ⟨covering, .of_empty new.retained_eq_nil⟩
  refine (invariant_foldl_taken
    (motive := fun taken b => b.policy.Covering good covers ∧ b.Covered good covers taken)
    (fun _ b h => ⟨h.1, .of_empty rfl⟩) (fun _ b s serves h => ⟨?_, h.2.offer h.1 serves⟩)
    [] start calls).2
  rw [serves.policy_offer rfl]
  exact h.1

end Archive

end ParetoFront
