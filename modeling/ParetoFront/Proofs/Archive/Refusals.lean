import ParetoFront.Proofs.Archive.Reachable

/-!
# Failed calls leave no trace

A call that is refused, or that stops because its offer is refused, leaves an archive as it was.
Striking such calls from a series changes neither the answers to the other calls nor the archive
afterwards: retained solutions, widths and counters are the same. Only a series of offers made by
one call keeps what it did before it was stopped.

## Main definitions

- `Response`, `Archive.respond` — the answer to a call
- `Archive.responses` — the answers to a series of calls

## Main statements

- `Archive.after_eq_of_fails` — one failed call
- `Archive.addAll_of_error` — a series of offers that is stopped
- `Archive.failures_invisible` — any failed calls in a series
-/

namespace ParetoFront

/-- The answer to a call. -/
inductive Response where
  | outcome (outcome : Outcome)
  /-- So many solutions of a series were retained when they were offered. -/
  | accepted (count : Nat)
  | cleared
  | refused (error : Error)
  | faulted (fault : Fault)
deriving DecidableEq

def Response.fails : Response → Bool
  | refused _ | faulted _ => true
  | outcome _ | accepted _ | cleared => false

namespace Archive

/-- The answer of an archive to a call. -/
def respond (a : Archive) : Call → Response
  | .offer s =>
    match (a.offer s).2 with
    | .ok outcome => .outcome outcome
    | .error e => .refused e
  | .add s =>
    match (a.add s).2 with
    | .ok outcome => .outcome outcome
    | .error fault => .faulted fault
  | .addAll offers =>
    match (a.addAll offers).2 with
    | .ok count => .accepted count
    | .error fault => .faulted fault
  | .clear => .cleared

/-- The answers to a series of calls. -/
def responses (a : Archive) : List Call → List Response
  | [] => []
  | call :: later => a.respond call :: (a.after call).responses later

variable {a : Archive} {s : Solution} {call : Call}

/-! ### One call -/

theorem Serves.respond_offer (h : a.Serves s.widths) :
    ∃ outcome, a.respond (.offer s) = .outcome outcome ∧ a.respond (.add s) = .outcome outcome := by
  obtain ⟨outcome, isOk⟩ := h.offer_eq_ok rfl
  have added : (a.add s).2 = .ok outcome := congrArg orFault isOk
  exact ⟨outcome, by rw [respond, isOk], by rw [respond, added]⟩

theorem after_eq_of_fails (single : ∀ offers, call ≠ .addAll offers)
    (fails : (a.respond call).fails = true) : a.after call = a := by
  cases call with
  | addAll offers => exact absurd rfl (single offers)
  | clear => cases fails
  | offer s | add s =>
    obtain ⟨e, refused⟩ | serves := a.refused_or_serves s
    · show (a.offer s).1 = a
      rw [refused]
    · obtain ⟨outcome, offered, added⟩ := serves.respond_offer
      simp only [offered, added] at fails
      cases fails

/-- A series of offers that is stopped leaves the archive as the offers before left it. -/
theorem addAll_of_error {offers : List Solution} {fault : Fault}
    (stopped : (a.addAll offers).2 = .error fault) :
    ∃ done s later, offers = done ++ s :: later ∧
      (∀ r ∈ a.responses (done.map .add), r.fails = false) ∧
      (a.addAll offers).1 = (done.map .add).foldl Archive.after a ∧
      ((done.map .add).foldl Archive.after a).respond (.add s) = .faulted fault := by
  induction offers generalizing a with
  | nil => cases stopped
  | cons s rest ih =>
    cases added : a.add s with
    | mk next result =>
      cases result with
      | error e =>
        simp only [addAll, added] at stopped ⊢
        obtain rfl := Except.error.inj stopped
        have first : a.respond (.add s) = .faulted e := by rw [respond, added]
        have single : ∀ offers, Call.add s ≠ .addAll offers := fun _ same => by cases same
        have unchanged := after_eq_of_fails single (by rw [first]; rfl)
        refine ⟨[], s, rest, rfl, List.forall_mem_nil _, ?_, first⟩
        exact (congrArg Prod.fst added).symm.trans unchanged
      | ok outcome =>
        have step : a.after (.add s) = next := congrArg Prod.fst added
        have first : a.respond (.add s) = .outcome outcome := by rw [respond, added]
        simp only [addAll, added] at stopped ⊢
        obtain ⟨done, t, later, split, succeed, reached, last⟩ := @ih next (by
          revert stopped
          cases (next.addAll rest).2 <;> simp [Except.map])
        refine ⟨s :: done, t, later, by rw [split, List.cons_append], ?_, ?_, ?_⟩
        · rw [List.map_cons, responses, first, step]
          exact List.forall_mem_cons.2 ⟨rfl, succeed⟩
        · rw [List.map_cons, List.foldl_cons, step, reached]
        · rw [List.map_cons, List.foldl_cons, step, last]

/-! ### Series of calls -/

/-- Each failed call leaves the archive as it was, so that a series of calls and the same series
without the failed ones leave the same archive, widths and counters included, and the other calls
are answered alike. A series of offers made by one call stops at the first that fails, and leaves
the archive as the offers before left it. -/
theorem failures_invisible (a : Archive) :
    (∀ calls, (∀ offers, Call.addAll offers ∉ calls) →
      let answered := calls.zip (a.responses calls)
      let succeeded := (answered.filter fun p => !p.2.fails).map Prod.fst
      succeeded.foldl Archive.after a = calls.foldl Archive.after a ∧
        a.responses succeeded = (a.responses calls).filter fun r => !r.fails) ∧
      (∀ call, (∀ offers, call ≠ .addAll offers) → (a.respond call).fails = true →
        a.after call = a) ∧
      ∀ offers fault, (a.addAll offers).2 = .error fault →
        ∃ done s later, offers = done ++ s :: later ∧
          (∀ r ∈ a.responses (done.map .add), r.fails = false) ∧
          (a.addAll offers).1 = (done.map .add).foldl Archive.after a ∧
          ((done.map .add).foldl Archive.after a).respond (.add s) = .faulted fault := by
  refine ⟨?_, fun _ => after_eq_of_fails, fun _ _ => addAll_of_error⟩
  intro calls single
  induction calls generalizing a with
  | nil => exact ⟨rfl, rfl⟩
  | cons call later ih =>
    obtain ⟨same, answers⟩ := ih (a.after call) fun offers member =>
      single offers (List.mem_cons_of_mem call member)
    have alone : ∀ offers, call ≠ .addAll offers := fun offers here =>
      single offers (here ▸ List.mem_cons_self)
    dsimp only at same answers ⊢
    rw [responses, List.zip_cons_cons, List.filter_cons, List.filter_cons, List.foldl_cons]
    cases fails : (a.respond call).fails with
    | true =>
      -- the later calls find the archive that they would have found without this one
      rw [after_eq_of_fails alone fails] at same answers ⊢
      exact ⟨same, answers⟩
    | false =>
      refine ⟨same, ?_⟩
      show a.respond call :: (a.after call).responses _ = a.respond call :: _
      rw [answers]

end Archive

/-- A first offer that epsilons are left over from, offers of other widths, and a series that one
of them stops. -/
def mixedCalls : List Call :=
  [.offer (.ofObjectives [1]), .add (.ofObjectives [5]), .offer ⟨[], [3, 3], [0]⟩,
    .add (.ofObjectives [2, 2]), .clear, .offer ⟨[], [2, 2, 2], [0]⟩, .add ⟨[], [4, 1], [0]⟩]

theorem failures_invisible_mixedCalls :
    let a := Archive.epsilonBox ⟨[1, 2], by decide, by decide⟩
    let series : List Solution := [⟨[], [3, 3], [0]⟩, .ofObjectives [2, 2], ⟨[], [1, 1], [0]⟩]
    a.responses mixedCalls =
        [.refused (.epsilonWidthMismatch 2 1), .faulted (.refused (.epsilonWidthMismatch 2 1)),
          .outcome (.added 0), .faulted (.refused (.constraintCountMismatch 1 0)), .cleared,
          .refused (.objectiveCountMismatch 2 3), .outcome (.added 0)] ∧
      ([.offer ⟨[], [3, 3], [0]⟩, .clear, .add ⟨[], [4, 1], [0]⟩] : List Call).foldl
        Archive.after a = mixedCalls.foldl Archive.after a ∧
      (a.after (.offer (.ofObjectives [1]))).widths = none ∧
      (a.addAll series).2 = .error (.refused (.constraintCountMismatch 1 0)) ∧
      ∃ done s later, series = done ++ s :: later ∧
        (a.addAll series).1 = (done.map .add).foldl Archive.after a := by
  intro a series
  obtain ⟨struck, unchanged, stopped⟩ := a.failures_invisible
  obtain ⟨done, s, later, split, -, reached, -⟩ := stopped series _ rfl
  refine ⟨rfl, (struck mixedCalls (by simp [mixedCalls])).1, ?_, rfl, done, s, later, split,
    reached⟩
  rw [unchanged (.offer (.ofObjectives [1])) (fun _ h => nomatch h) rfl]
  rfl

end ParetoFront
