import ParetoFront.Proofs.Archive.Refusals

/-!
# Archives under another policy

What an archive does with an offer depends on its policy through two answers: whether the number of
objectives is accepted, and how the offer is judged against each retained solution. Policies that
give the same answers serve the offer in the same way. If they do so for all offers of a series of
calls, the series is answered in the same way, and it leaves the same archive.

## Main definitions

- `Archive.withPolicy` — the archive with another policy
- `Policy.AlikeFor` — a policy gives the same answers to an offer as another one

## Main statements

- `Archive.offer_withPolicy` — the same outcome, and the same archive but for the policy
- `Archive.after_withPolicy`, `Archive.respond_withPolicy` — one call
- `Archive.responses_withPolicy` — a series of calls
-/

namespace ParetoFront

theorem sweep_congr {judge judge' : Solution → Verdict} {retained : List Solution}
    (same : ∀ r ∈ retained, judge r = judge' r) : sweep judge retained = sweep judge' retained := by
  induction retained with
  | nil => rfl
  | cons r rest ih =>
    obtain ⟨first, others⟩ := List.forall_mem_cons.1 same
    rw [sweep, sweep, first, ih others]

/-- A policy gives the same answers to an offer as another one. -/
structure Policy.AlikeFor (policy other : Policy) (s : Solution) : Prop where
  accept : policy.accept s.objectives.length = other.accept s.objectives.length
  judge : ∀ r, policy.judge s r = other.judge s r

namespace Archive

variable {a : Archive} {s : Solution} {policy : Policy}

/-- The archive with another policy. -/
def withPolicy (a : Archive) (policy : Policy) : Archive :=
  { a with policy }

theorem settle_withPolicy (same : ∀ r ∈ a.retained, policy.judge s r = a.policy.judge s r) :
    (a.withPolicy policy).settle s = ((a.settle s).1.withPolicy policy, (a.settle s).2) := by
  have found : sweep (fun r => policy.judge s r) a.retained =
      sweep (fun r => a.policy.judge s r) a.retained := sweep_congr same
  rw [settle_eq_sweep, settle_eq_sweep]
  simp only [withPolicy, found]
  cases sweep (fun r => a.policy.judge s r) a.retained <;> rfl

theorem establish_withPolicy (a : Archive) (policy : Policy) (s : Solution) :
    (a.withPolicy policy).establish s =
      ((a.establish s).1.withPolicy policy, (a.establish s).2) := by
  obtain ⟨_, _, widths, _⟩ := a
  cases widths <;> rfl

/-- An offer is served in the same way under a policy that accepts the same number of objectives
and judges the offer in the same way. Only an offer that is not refused has to be judged. -/
theorem offer_withPolicy
    (accept : policy.accept s.objectives.length = a.policy.accept s.objectives.length)
    (same : a.Serves s.widths → ∀ r ∈ a.retained, policy.judge s r = a.policy.judge s r) :
    (a.withPolicy policy).offer s = ((a.offer s).1.withPolicy policy, (a.offer s).2) := by
  have accept' : (a.withPolicy policy).policy.accept s.objectives.length =
    a.policy.accept s.objectives.length := accept
  obtain ⟨e, refused⟩ | serves := a.refused_or_serves s
  · rw [refused]
    rw [offer] at refused ⊢
    rw [accept', establish_withPolicy]
    cases accepted : a.policy.accept s.objectives.length with
    | error =>
      rw [accepted] at refused
      cases refused
      rfl
    | ok =>
      cases established : a.establish s with
      | mk next result =>
        rw [accepted, established] at refused
        cases result <;> cases refused
        rfl
  · have served : (a.withPolicy policy).Serves s.widths :=
      ⟨accept'.trans serves.accept, serves.widths⟩
    have settled :=
      @settle_withPolicy { a with widths := some s.widths }.countOffer s policy (same serves)
    rw [serves.offer rfl, served.offer rfl]
    exact congrArg (fun p => (p.1, Except.ok p.2)) settled

/-! ### Series of calls -/

theorem offer_withPolicy_of_alike (alike : policy.AlikeFor a.policy s) :
    (a.withPolicy policy).offer s = ((a.offer s).1.withPolicy policy, (a.offer s).2) :=
  offer_withPolicy alike.accept fun _ r _ => alike.judge r

theorem add_withPolicy (alike : policy.AlikeFor a.policy s) :
    (a.withPolicy policy).add s = ((a.add s).1.withPolicy policy, (a.add s).2) := by
  rw [add, offer_withPolicy_of_alike alike]
  rfl

theorem addAll_withPolicy {offers : List Solution}
    (alike : ∀ s ∈ offers, policy.AlikeFor a.policy s) :
    (a.withPolicy policy).addAll offers =
      ((a.addAll offers).1.withPolicy policy, (a.addAll offers).2) := by
  induction offers generalizing a with
  | nil => rfl
  | cons s rest ih =>
    obtain ⟨first, others⟩ := List.forall_mem_cons.1 alike
    have policyNow : (a.add s).1.policy = a.policy := a.policy_offer s
    have later := ih (policyNow.symm ▸ others)
    rw [addAll, addAll, add_withPolicy first]
    cases added : a.add s with
    | mk next result =>
      rw [added] at later
      cases result with
      | error => rfl
      | ok outcome => simp only [later]

variable {call : Call} {calls : List Call}

theorem after_withPolicy (alike : ∀ s ∈ call.offers, policy.AlikeFor a.policy s) :
    (a.withPolicy policy).after call = (a.after call).withPolicy policy := by
  cases call with
  | offer s | add s =>
    exact congrArg Prod.fst (offer_withPolicy_of_alike (alike s (List.mem_singleton_self s)))
  | addAll offers => exact congrArg Prod.fst (addAll_withPolicy alike)
  | clear => rfl

theorem respond_withPolicy (alike : ∀ s ∈ call.offers, policy.AlikeFor a.policy s) :
    (a.withPolicy policy).respond call = a.respond call := by
  cases call with
  | offer s =>
    rw [respond, offer_withPolicy_of_alike (alike s (List.mem_singleton_self s))]
    rfl
  | add s =>
    rw [respond, add_withPolicy (alike s (List.mem_singleton_self s))]
    rfl
  | addAll offers =>
    rw [respond, @addAll_withPolicy a policy offers alike]
    rfl
  | clear => rfl

/-- A series of calls is answered in the same way, and it leaves the same archive. -/
theorem responses_withPolicy
    (alike : ∀ call ∈ calls, ∀ s ∈ call.offers, policy.AlikeFor a.policy s) :
    (a.withPolicy policy).responses calls = a.responses calls ∧
      calls.foldl Archive.after (a.withPolicy policy) =
        (calls.foldl Archive.after a).withPolicy policy := by
  induction calls generalizing a with
  | nil => exact ⟨rfl, rfl⟩
  | cons call later ih =>
    obtain ⟨first, others⟩ := List.forall_mem_cons.1 alike
    have policyNow : (a.after call).policy = a.policy := a.policy_foldl_after [call]
    obtain ⟨responses, reached⟩ := ih (policyNow.symm ▸ others)
    rw [Archive.responses, Archive.responses, List.foldl_cons, List.foldl_cons,
      respond_withPolicy first, after_withPolicy first, responses, reached]
    exact ⟨rfl, rfl⟩

end Archive

end ParetoFront
