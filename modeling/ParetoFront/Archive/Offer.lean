import ParetoFront.Archive.Basic
import ParetoFront.SortedSearch

/-!
# Offers to an archive

An offer of the wrong widths is refused and leaves the archive as it was. Any other offer is
counted and judged against the retained solutions, up to one that keeps it out. An offer that is
kept out by none of them is retained, and the solutions that it dominates or displaces leave: the
scan collects their positions, and they are removed once it is over.

## Main definitions

- `scanFrom` — the judgement of an offer over the retained solutions
- `withoutPositions` — the removal of those that leave
- `Policy.accept`, `Archive.establish` — the checks of the widths
- `Archive.offer` — the offer of one solution
- `Archive.add`, `Archive.addAll` — offers that count on the widths being right
-/

namespace ParetoFront

/-- What a scan of the retained solutions has found. -/
structure Findings where
  /-- The positions of those that leave, in ascending order. -/
  leaving : List Nat
  /-- One of those that leave was displaced from its box. -/
  displaces : Bool

/-- Judges an offer against retained solutions, the first of which is at position `i`. The scan ends
with `none` at one that keeps the offer out. -/
def scanFrom (judge : Solution → Verdict) : Nat → Findings → List Solution → Option Findings
  | _, found, [] => some found
  | i, found, r :: rest =>
    match judge r with
    | .keepsOut => none
    | .coexists => scanFrom judge (i + 1) found rest
    | .dominated => scanFrom judge (i + 1) { found with leaving := found.leaving ++ [i] } rest
    | .displaced => scanFrom judge (i + 1) ⟨found.leaving ++ [i], true⟩ rest

/-- Only the occupant of a box leaves. -/
def Findings.onlyDisplaces (found : Findings) : Bool :=
  found.displaces && found.leaving.length == 1

/-- Removes the solutions at the given positions, which are in ascending order. The first solution
is at position `i`. -/
def withoutPositions (positions : List Nat) : Nat → List Solution → List Solution
  | _, [] => []
  | i, r :: rest =>
    if isListed positions i then withoutPositions positions (i + 1) rest
    else r :: withoutPositions positions (i + 1) rest

/-- Holds the number of objectives of an offer against the policy. No epsilon may be left over; a
criterion judges any number. -/
def Policy.accept (objectives : Nat) : Policy → Except Error Unit
  | epsilonBox ε =>
    if ε.fits objectives then .ok () else .error (.epsilonWidthMismatch ε.size objectives)
  | nondominated _ _ => .ok ()

namespace Archive

/-- Holds the offer against the widths of the archive, which the first offer establishes. -/
def establish (a : Archive) (s : Solution) : Archive × Except Error Unit :=
  match a.widths with
  | some w => (a, w.accept s)
  | none => ({ a with widths := some s.widths }, .ok ())

def countOffer (a : Archive) : Archive :=
  { a with stats := { a.stats with offered := a.stats.offered + 1 } }

/-- Retains an offer in place of those that leave for it. -/
def retain (a : Archive) (s : Solution) (found : Findings) : Archive :=
  let staying :=
    if found.leaving.isEmpty then a.retained else withoutPositions found.leaving 0 a.retained
  { a with
    retained := staying ++ [s]
    stats := { a.stats with
      improvements := a.stats.improvements + 1
      dominatingImprovements :=
        a.stats.dominatingImprovements + if found.onlyDisplaces then 0 else 1 } }

/-- Judges an offer of the right widths against the retained solutions. -/
def settle (a : Archive) (s : Solution) : Archive × Outcome :=
  match scanFrom (fun r => a.policy.judge s r) 0 ⟨[], false⟩ a.retained with
  | none => (a, .rejected)
  | some found => (a.retain s found, .added found.leaving.length)

/-- Offers a solution. Returned are the archive afterwards and the outcome. -/
def offer (a : Archive) (s : Solution) : Archive × Except Error Outcome :=
  match a.policy.accept s.objectives.length with
  | .error e => (a, .error e)
  | .ok () =>
    match a.establish s with
    | (next, .error e) => (next, .error e)
    | (next, .ok ()) =>
      let (last, outcome) := next.countOffer.settle s
      (last, .ok outcome)

/-- Offers a solution and counts on its widths being right. -/
def add (a : Archive) (s : Solution) : Archive × Except Fault Outcome :=
  let (next, result) := a.offer s
  (next, orFault result)

/-- Offers solutions in order and returns how many were retained when they were offered. A fault
ends the series. -/
def addAll (a : Archive) : List Solution → Archive × Except Fault Nat
  | [] => (a, .ok 0)
  | s :: rest =>
    match a.add s with
    | (next, .error fault) => (next, .error fault)
    | (next, .ok outcome) =>
      let (last, accepted) := next.addAll rest
      (last, accepted.map (· + if outcome.isAdded then 1 else 0))

end Archive

end ParetoFront
