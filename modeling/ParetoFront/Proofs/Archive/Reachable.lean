import ParetoFront.Config
import ParetoFront.Proofs.Archive.Runs

/-!
# Reachable archives

A series of calls to an archive may contain offers of any widths. One that is refused leaves the
archive as it was, and a series of offers ends with the first that is refused. Whatever the policy
and whatever the floats are, retained solutions coexist: none of them, when it came, was kept out by
one of the others or made it leave.

## Main definitions

- `Archive.IsNew` — the ways to make an archive
- `Archive.offeredSince` — the solutions offered since the last clear
- `Archive.Coexistent` — the state between two calls

## Main statements

- `Archive.refused_or_serves` — what an offer does
- `Archive.invariant_foldl_after` — what offers and clears keep holds after all calls
- `Archive.IsNew.coexistent` — retained solutions coexist
-/

namespace ParetoFront.Archive

/-! ### New archives -/

/-- An archive as it is made, directly or from a configuration. -/
inductive IsNew : Archive → Prop
  | epsilonBox (ε : Epsilons) : IsNew (.epsilonBox ε)
  | nondominated (criterion : Criterion) (tolerance : Float) :
    IsNew (.nondominated criterion tolerance)
  | ofWidths {ε : Epsilons} {w : Widths} {a : Archive} (isOk : epsilonBoxOfWidths ε w = .ok a) :
    IsNew a
  | ofConfig {c : Config} {a : Archive} (isOk : c.epsilonArchive = .ok a) : IsNew a
  | nondominatedOfConfig {c : Config} {constraintCount : Nat} {a : Archive}
    (isOk : c.nondominatedArchive constraintCount = .ok a) : IsNew a

variable {a : Archive} {s : Solution}

/-- A new archive is empty. If its widths are fixed, its policy accepts them. -/
theorem IsNew.eq_empty (h : a.IsNew) : ∃ widths : Option Widths,
    a = { empty a.policy with widths } ∧
      ∀ w, widths = some w → a.policy.accept w.objectives = .ok () := by
  cases h with
  | epsilonBox | nondominated => exact ⟨none, rfl, fun w known => nomatch known⟩
  | @ofWidths ε w _ isOk =>
    rw [epsilonBoxOfWidths] at isOk
    by_cases fits : ε.fits w.objectives = true
    · rw [if_pos fits] at isOk
      obtain rfl := Except.ok.inj isOk
      refine ⟨some w, rfl, fun w' same => ?_⟩
      obtain rfl := Option.some.inj same
      exact if_pos fits
    · rw [if_neg fits] at isOk
      cases isOk
  | @ofConfig c _ isOk =>
    rw [Config.epsilonArchive] at isOk
    cases valid : c.validate with
    | error e => rw [valid] at isOk; cases isOk
    | ok =>
      cases set : c.requireEpsilons with
      | error e => rw [valid, set] at isOk; cases isOk
      | ok ε =>
        rw [valid, set] at isOk
        obtain rfl := Except.ok.inj isOk
        exact ⟨none, rfl, fun w known => nomatch known⟩
  | @nondominatedOfConfig c n _ isOk =>
    rw [Config.nondominatedArchive] at isOk
    cases chosen : c.criterion n with
    | error e => rw [chosen] at isOk; cases isOk
    | ok criterion =>
      rw [chosen] at isOk
      obtain rfl := Except.ok.inj isOk
      exact ⟨none, rfl, fun w known => nomatch known⟩

theorem IsNew.retained_eq_nil (h : a.IsNew) : a.retained = [] := by
  obtain ⟨widths, isEmpty, -⟩ := h.eq_empty
  rw [isEmpty]
  rfl

/-! ### One offer -/

/-- An offer that is not refused is one of the widths that the archive serves. -/
theorem refused_or_serves (a : Archive) (s : Solution) :
    (∃ e, a.offer s = (a, .error e)) ∨ a.Serves s.widths := by
  rw [offer]
  cases accepted : a.policy.accept s.objectives.length with
  | error e => exact .inl ⟨e, rfl⟩
  | ok =>
    cases known : a.widths with
    | none => exact .inr ⟨accepted, .inl known⟩
    | some w =>
      rw [establish, known]
      cases fits : w.accept s with
      | error e => exact .inl ⟨e, by simp only [fits]⟩
      | ok =>
        obtain rfl := Widths.accept_eq_ok_iff.1 fits
        exact .inr ⟨accepted, .inr known⟩

theorem Serves.widths_offer (h : a.Serves s.widths) : (a.offer s).1.widths = some s.widths := by
  rw [h.offer rfl, settle_widths]
  rfl

theorem policy_offer (a : Archive) (s : Solution) : (a.offer s).1.policy = a.policy := by
  obtain ⟨e, refused⟩ | serves := a.refused_or_serves s
  · rw [refused]
  · exact serves.policy_offer rfl

/-! ### Calls of any widths -/

/-- The solutions of a series that are offered: the first that is refused ends the series. -/
def seriesOffered (a : Archive) : List Solution → List Solution
  | [] => []
  | s :: rest =>
    match a.offer s with
    | (next, .ok _) => s :: next.seriesOffered rest
    | (_, .error _) => [s]

/-- The solutions that a call offers to an archive. -/
def offeredBy (a : Archive) : Call → List Solution
  | .offer s | .add s => [s]
  | .addAll offers => a.seriesOffered offers
  | .clear => []

/-- The solutions offered since the last clear, after more calls. -/
def offeredSince (a : Archive) (recent : List Solution) : List Call → List Solution
  | [] => recent
  | call :: later =>
    (a.after call).offeredSince
      (if call matches .clear then [] else recent ++ a.offeredBy call) later

theorem addAll_eq_foldl (a : Archive) (offers : List Solution) :
    (a.addAll offers).1 = (a.seriesOffered offers).foldl (fun a s => (a.offer s).1) a := by
  induction offers generalizing a with
  | nil => rfl
  | cons s rest ih =>
    cases offered : a.offer s with
    | mk next result =>
      have step : (a.offer s).1 = next := congrArg Prod.fst offered
      cases result with
      | error e =>
        simp only [addAll, seriesOffered, add, offered, orFault, List.foldl_cons, List.foldl_nil]
      | ok outcome =>
        simp only [addAll, seriesOffered, add, offered, orFault, List.foldl_cons]
        exact ih next

/-- What single offers and clears keep holds after all calls. -/
theorem invariant_foldl_after {motive : List Solution → Archive → Prop}
    (cleared : ∀ recent a, motive recent a → motive [] a.clear)
    (offered : ∀ recent a s, motive recent a → motive (recent ++ [s]) (a.offer s).1)
    (recent : List Solution) (start : motive recent a) (calls : List Call) :
    motive (a.offeredSince recent calls) (calls.foldl Archive.after a) := by
  have series (recent : List Solution) (a : Archive) (start : motive recent a)
      (offers : List Solution) :
      motive (recent ++ offers) (offers.foldl (fun a s => (a.offer s).1) a) := by
    induction offers generalizing recent a with
    | nil => rwa [List.append_nil]
    | cons s rest ih =>
      rw [List.append_cons]
      exact ih _ _ (offered recent a s start)
  induction calls generalizing recent a with
  | nil => exact start
  | cons call later ih =>
    refine ih _ ?_
    cases call with
    | offer s | add s => exact offered recent a s start
    | clear => exact cleared recent a start
    | addAll offers =>
      show motive (recent ++ a.seriesOffered offers) (a.addAll offers).1
      rw [addAll_eq_foldl]
      exact series recent a start _

/-! ### Coexistence -/

/-- What is retained was offered since the last clear, in this order. All of it has the widths of
the archive, and each offer coexisted with what was retained before it and is still there. -/
structure Coexistent (a : Archive) (recent : List Solution) : Prop where
  sublist : a.retained.Sublist recent
  widths : ∀ s ∈ a.retained, a.widths = some s.widths
  coexists : a.retained.Pairwise fun r s => a.policy.judge s r = .coexists

theorem Serves.widths_of_retained (serves : a.Serves s.widths) {recent : List Solution}
    (h : a.Coexistent recent) {r : Solution} (member : r ∈ a.retained) :
    r.widths = s.widths := by
  obtain unknown | known := serves.widths
  · cases unknown.symm.trans (h.widths r member)
  · exact Option.some.inj ((h.widths r member).symm.trans known)

/-- An offer that is not refused leaves the archive as it was, up to widths and counters, or stays
with those that it coexists with. -/
theorem Coexistent.taken {recent : List Solution} (h : a.Coexistent recent)
    (serves : a.Serves s.widths) : (a.offer s).1.Coexistent (recent ++ [s]) := by
  have retained := serves.retained_offer rfl
  have matching : ∀ r ∈ a.retained, r.widths = s.widths := fun r => serves.widths_of_retained h
  have widths := serves.widths_offer
  rw [Policy.retainedAfter] at retained
  by_cases keptOut : ∃ r ∈ a.retained, a.policy.judge s r = .keepsOut
  · rw [if_pos keptOut] at retained
    refine ⟨?_, ?_, ?_⟩
    · rw [retained]
      exact h.sublist.trans (List.sublist_append_left recent [s])
    · intro r member
      rw [widths, matching r (retained ▸ member)]
    · rw [retained, serves.policy_offer rfl]
      exact h.coexists
  · rw [if_neg keptOut] at retained
    have staying : (a.retained.filter fun r => a.policy.judge s r = .coexists).Sublist a.retained :=
      List.filter_sublist
    refine ⟨?_, ?_, ?_⟩
    · rw [retained]
      exact (staying.trans h.sublist).append (.refl [s])
    · rw [retained, widths]
      refine List.forall_mem_append.2 ⟨fun r member => ?_, by simp⟩
      rw [matching r (staying.subset member)]
    · rw [retained, serves.policy_offer rfl]
      refine List.pairwise_append.2 ⟨h.coexists.sublist staying, List.pairwise_singleton _ s, ?_⟩
      intro r member t last
      rw [List.mem_singleton.1 last]
      simpa using (List.mem_filter.1 member).2

theorem Coexistent.refused {recent : List Solution} (h : a.Coexistent recent) (s : Solution) :
    a.Coexistent (recent ++ [s]) :=
  ⟨h.sublist.trans (List.sublist_append_left recent [s]), h.widths, h.coexists⟩

theorem Coexistent.offer {recent : List Solution} (h : a.Coexistent recent) (s : Solution) :
    (a.offer s).1.Coexistent (recent ++ [s]) := by
  obtain ⟨e, refused⟩ | serves := a.refused_or_serves s
  · rw [refused]
    exact h.refused s
  · exact h.taken serves

theorem Coexistent.clear (a : Archive) : a.clear.Coexistent [] :=
  ⟨.slnil, by simp [Archive.clear], .nil⟩

theorem Coexistent.foldl_after {recent : List Solution} (h : a.Coexistent recent)
    (calls : List Call) :
    (calls.foldl Archive.after a).Coexistent (a.offeredSince recent calls) :=
  invariant_foldl_after (motive := fun recent b => b.Coexistent recent)
    (fun _ b _ => Coexistent.clear b) (fun _ _ s h => h.offer s) recent h calls

/-- Retained solutions coexist in every reachable archive. -/
theorem IsNew.coexistent (new : a.IsNew) (calls : List Call) :
    (calls.foldl Archive.after a).Coexistent (a.offeredSince [] calls) := by
  have empty := new.retained_eq_nil
  have fresh : a.Coexistent [] := ⟨empty ▸ .slnil, by simp [empty], empty ▸ .nil⟩
  exact fresh.foldl_after calls

theorem policy_foldl_after (a : Archive) (calls : List Call) :
    (calls.foldl Archive.after a).policy = a.policy :=
  invariant_foldl_after (motive := fun _ b => b.policy = a.policy) (fun _ _ h => h)
    (fun _ b s h => (b.policy_offer s).trans h) [] rfl calls

/-- In every reachable archive the policy accepts the widths that are known. -/
theorem IsNew.serves_of_widths (new : a.IsNew) (calls : List Call) {w : Widths}
    (known : (calls.foldl Archive.after a).widths = some w) :
    (calls.foldl Archive.after a).Serves w := by
  refine ⟨?_, .inr known⟩
  refine invariant_foldl_after
    (motive := fun _ b => ∀ w, b.widths = some w → b.policy.accept w.objectives = .ok ())
    (fun _ _ h => h) (fun _ b s h w known => ?_) [] ?_ calls w known
  · obtain ⟨e, refused⟩ | serves := b.refused_or_serves s
    · rw [refused] at known ⊢
      exact h w known
    · obtain rfl := Option.some.inj (serves.widths_offer.symm.trans known)
      exact (serves.offer_serves rfl).accept
  · obtain ⟨widths, isEmpty, accept⟩ := new.eq_empty
    rw [isEmpty]
    exact accept

end ParetoFront.Archive
