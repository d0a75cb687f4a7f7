import ParetoFront.Proofs.Archive.Sweep

/-!
# Series of calls to an archive

An offer that is not refused changes the retained solutions in a way that depends on the policy and
on the retained solutions only. Any mixture of calls is thus a series of such changes, begun anew
by the last clear.

## Main definitions

- `Policy.retainedAfter` — the retained solutions after one more offer
- `Call`, `Archive.after` — what can be asked of an archive, and the archive afterwards
- `recentOffers` — the solutions offered since the last clear
- `Archive.Serves` — offers of given widths are not refused

## Main statements

- `Archive.settle_retained`, `Archive.Serves.offer` — an offer that is not refused
- `Archive.Serves.retained_foldl_after` — the retained solutions after a series of calls
-/

namespace ParetoFront

/-! ### One offer -/

/-- The retained solutions after one more offer. -/
def Policy.retainedAfter (policy : Policy) (retained : List Solution) (s : Solution) :
    List Solution :=
  if ∃ r ∈ retained, policy.judge s r = .keepsOut then retained
  else (retained.filter fun r => policy.judge s r = .coexists) ++ [s]

namespace Archive

theorem settle_policy (a : Archive) (s : Solution) : (a.settle s).1.policy = a.policy := by
  rw [settle]
  split <;> rfl

theorem settle_widths (a : Archive) (s : Solution) : (a.settle s).1.widths = a.widths := by
  rw [settle]
  split <;> rfl

theorem settle_retained (a : Archive) (s : Solution) :
    (a.settle s).1.retained = a.policy.retainedAfter a.retained s := by
  rw [settle_eq_sweep, sweep_eq, Policy.retainedAfter]
  by_cases kept : ∃ r ∈ a.retained, a.policy.judge s r = .keepsOut
  · rw [if_pos kept, if_pos kept]
  · rw [if_neg kept, if_neg kept]
    rfl

/-- Offers of widths `w` are not refused. -/
structure Serves (a : Archive) (w : Widths) : Prop where
  accept : a.policy.accept w.objectives = .ok ()
  widths : a.widths = none ∨ a.widths = some w

variable {a : Archive} {w : Widths} {s : Solution}

theorem Serves.establish (h : a.Serves w) (matching : s.widths = w) :
    a.establish s = ({ a with widths := some w }, .ok ()) := by
  obtain ⟨policy, retained, widths, stats⟩ := a
  subst matching
  obtain rfl | rfl := h.widths
  · rfl
  · simp [Archive.establish, Widths.accept, Solution.widths]

theorem Serves.offer (h : a.Serves w) (matching : s.widths = w) :
    a.offer s =
      ((({ a with widths := some w }).countOffer.settle s).1,
        .ok ((({ a with widths := some w }).countOffer.settle s).2)) := by
  have accepted : a.policy.accept s.objectives.length = .ok () := by
    subst matching
    exact h.accept
  rw [Archive.offer, accepted, h.establish matching]

/-- An offer of the widths that are known is counted and judged. -/
theorem Serves.offer_of_known (h : a.Serves s.widths) (known : a.widths = some s.widths) :
    a.offer s = ((a.countOffer.settle s).1, .ok (a.countOffer.settle s).2) := by
  have same : { a with widths := some s.widths } = a := by rw [← known]
  rw [h.offer rfl, same]

theorem Serves.offer_eq_ok (h : a.Serves w) (matching : s.widths = w) :
    ∃ outcome, (a.offer s).2 = .ok outcome := by
  rw [h.offer matching]
  exact ⟨_, rfl⟩

theorem Serves.retained_offer (h : a.Serves w) (matching : s.widths = w) :
    (a.offer s).1.retained = a.policy.retainedAfter a.retained s := by
  rw [h.offer matching, settle_retained]
  rfl

theorem Serves.policy_offer (h : a.Serves w) (matching : s.widths = w) :
    (a.offer s).1.policy = a.policy := by
  rw [h.offer matching, settle_policy]
  rfl

theorem Serves.offered_offer (h : a.Serves w) (matching : s.widths = w) :
    (a.offer s).1.stats.offered = a.stats.offered + 1 := by
  rw [h.offer matching, Archive.settle]
  split <;> rfl

theorem Serves.offer_serves (h : a.Serves w) (matching : s.widths = w) :
    (a.offer s).1.Serves w := by
  refine ⟨by rw [h.policy_offer matching]; exact h.accept, Or.inr ?_⟩
  rw [h.offer matching, settle_widths]
  rfl

/-! ### Several offers -/

/-- Offers of the right widths are all made. -/
theorem Serves.addAll (h : a.Serves w) {offers : List Solution}
    (matching : ∀ s ∈ offers, s.widths = w) :
    (a.addAll offers).1 = offers.foldl (fun a s => (a.offer s).1) a := by
  induction offers generalizing a with
  | nil => rfl
  | cons s rest ih =>
    obtain ⟨first, others⟩ := List.forall_mem_cons.1 matching
    obtain ⟨outcome, isOk⟩ := h.offer_eq_ok first
    have added : a.add s = ((a.offer s).1, .ok outcome) := Prod.ext rfl (congrArg orFault isOk)
    rw [Archive.addAll, added, List.foldl_cons]
    exact ih (h.offer_serves first) others

end Archive

/-! ### Calls -/

/-- What can be asked of an archive. -/
inductive Call where
  | offer (s : Solution)
  | add (s : Solution)
  | addAll (offers : List Solution)
  | clear

namespace Call

/-- The solutions that a call offers. -/
def offers : Call → List Solution
  | offer s | add s => [s]
  | addAll offers => offers
  | clear => []

/-- The solutions offered since the last clear, after one more call. -/
def extend (recent : List Solution) : Call → List Solution
  | clear => []
  | call => recent ++ call.offers

end Call

/-- The solutions offered since the last clear. -/
def recentOffers (calls : List Call) : List Solution :=
  calls.foldl Call.extend []

theorem mem_foldl_extend {calls : List Call} {recent : List Solution} {s : Solution}
    (member : s ∈ calls.foldl Call.extend recent) :
    s ∈ recent ∨ ∃ call ∈ calls, s ∈ call.offers := by
  induction calls generalizing recent with
  | nil => exact Or.inl member
  | cons call calls ih =>
    obtain extended | ⟨later, inside, offered⟩ := ih member
    · by_cases known : s ∈ recent
      · exact Or.inl known
      · refine Or.inr ⟨call, List.mem_cons_self, ?_⟩
        cases call <;> simp_all [Call.extend, Call.offers]
    · exact Or.inr ⟨later, List.mem_cons_of_mem call inside, offered⟩

/-- Offers since the last clear are offers of some call. -/
theorem exists_call_of_mem_recentOffers {calls : List Call} {s : Solution}
    (member : s ∈ recentOffers calls) : ∃ call ∈ calls, s ∈ call.offers :=
  (mem_foldl_extend member).resolve_left List.not_mem_nil

namespace Archive

/-- The archive after a call. -/
def after (a : Archive) : Call → Archive
  | .offer s => (a.offer s).1
  | .add s => (a.add s).1
  | .addAll offers => (a.addAll offers).1
  | .clear => a.clear

variable {a : Archive} {w : Widths}

theorem Serves.foldl_offer (h : a.Serves w) {offers : List Solution}
    (matching : ∀ s ∈ offers, s.widths = w) :
    (offers.foldl (fun a s => (a.offer s).1) a).Serves w ∧
      (offers.foldl (fun a s => (a.offer s).1) a).policy = a.policy ∧
      (offers.foldl (fun a s => (a.offer s).1) a).retained =
        offers.foldl a.policy.retainedAfter a.retained := by
  induction offers generalizing a with
  | nil => exact ⟨h, rfl, rfl⟩
  | cons s rest ih =>
    obtain ⟨first, others⟩ := List.forall_mem_cons.1 matching
    have := ih (h.offer_serves first) others
    rwa [h.policy_offer first, h.retained_offer first] at this

theorem Serves.offered_foldl_offer (h : a.Serves w) {offers : List Solution}
    (matching : ∀ s ∈ offers, s.widths = w) :
    (offers.foldl (fun a s => (a.offer s).1) a).stats.offered =
      a.stats.offered + offers.length := by
  induction offers generalizing a with
  | nil => rfl
  | cons s rest ih =>
    obtain ⟨first, others⟩ := List.forall_mem_cons.1 matching
    rw [List.foldl_cons, ih (h.offer_serves first) others, h.offered_offer first,
      List.length_cons]
    omega

/-- A call that is no clear makes its offers one by one. -/
theorem Serves.after_eq (h : a.Serves w) {call : Call} (matching : ∀ s ∈ call.offers, s.widths = w)
    (offering : call ≠ .clear) :
    a.after call = call.offers.foldl (fun a s => (a.offer s).1) a := by
  cases call with
  | offer | add => rfl
  | addAll offers => exact h.addAll matching
  | clear => exact absurd rfl offering

theorem Serves.after (h : a.Serves w) {recent : List Solution} {call : Call}
    (matching : ∀ s ∈ call.offers, s.widths = w)
    (retained : a.retained = recent.foldl a.policy.retainedAfter []) :
    (a.after call).Serves w ∧ (a.after call).policy = a.policy ∧
      (a.after call).retained = (call.extend recent).foldl a.policy.retainedAfter [] := by
  by_cases clearing : call = .clear
  · subst clearing
    exact ⟨⟨h.accept, h.widths⟩, rfl, rfl⟩
  · have extended : call.extend recent = recent ++ call.offers := by
      cases call <;> first | rfl | exact absurd rfl clearing
    rw [h.after_eq matching clearing, extended, List.foldl_append, ← retained]
    exact h.foldl_offer matching

/-- What is retained depends on the offers since the last clear. -/
theorem Serves.retained_foldl_after (h : a.Serves w) {calls : List Call}
    (matching : ∀ call ∈ calls, ∀ s ∈ call.offers, s.widths = w) {recent : List Solution}
    (retained : a.retained = recent.foldl a.policy.retainedAfter []) :
    (calls.foldl Archive.after a).retained =
      (calls.foldl Call.extend recent).foldl a.policy.retainedAfter [] := by
  induction calls generalizing a recent with
  | nil => exact retained
  | cons call calls ih =>
    obtain ⟨first, others⟩ := List.forall_mem_cons.1 matching
    obtain ⟨serves, policy, now⟩ := h.after first retained
    rw [List.foldl_cons, List.foldl_cons, ih serves others (by rwa [policy]), policy]

end Archive

end ParetoFront
