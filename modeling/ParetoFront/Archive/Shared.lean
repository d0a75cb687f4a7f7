import ParetoFront.Archive.Offer

/-!
# Shared archives

Several handles can share one archive behind a lock. When a caller's code faults while it holds the
lock, the lock is poisoned for good, and the archive, which may be half changed, is shown to nobody
any more. The last handle can take the archive out.

## Main definitions

- `SharedArchive` — the archive, its lock and its live handles
- `Request`, `Reply` — what can be asked through a handle, and the answers
- `SharedArchive.serve` — one request
- `SharedArchive.runAll` — a series of requests
-/

namespace ParetoFront

structure SharedArchive where
  archive : Archive
  /-- Some caller's code faulted under the lock. -/
  poisoned : Bool
  handles : List Nat
  /-- The number of handles ever made, which is the next handle. -/
  made : Nat

/-- A request made through a handle. Code that a caller runs under the lock may change the archive,
and answers or faults. -/
inductive Request (α : Type) where
  | add (s : Solution)
  | size
  | isEmpty
  | snapshot
  | inside (code : Archive → Archive × Except Fault α)
  | clone
  | drop
  | unwrap

/-- The answers to requests. -/
inductive Reply (α : Type) where
  /-- The handle was never made or lives no more. -/
  | noHandle
  | refused (error : Error)
  | outcome (outcome : Outcome)
  | size (size : Nat)
  | isEmpty (isEmpty : Bool)
  | snapshot (retained : List Solution)
  | answer (answer : α)
  /-- The caller's code faulted; the fault goes on to the caller. -/
  | faulted (fault : Fault)
  | cloned (handle : Nat)
  | dropped
  | unwrapped (archive : Archive)
  | shared

namespace SharedArchive

variable {α : Type}

/-- Shares an archive, with `0` as its first handle. -/
def ofArchive (a : Archive) : SharedArchive :=
  ⟨a, false, [0], 1⟩

def release (shared : SharedArchive) (h : Nat) : SharedArchive :=
  { shared with handles := shared.handles.erase h }

/-- Runs code under the lock, which must not be poisoned. -/
def locked (shared : SharedArchive) (code : Archive → SharedArchive × Reply α) :
    SharedArchive × Reply α :=
  if shared.poisoned then (shared, .refused .lockPoisoned) else code shared.archive

/-- Answers a request made through handle `h`. -/
def serve (shared : SharedArchive) (h : Nat) (request : Request α) : SharedArchive × Reply α :=
  if h ∉ shared.handles then (shared, .noHandle)
  else
    match request with
    | .add s => shared.locked fun a =>
      match a.offer s with
      | (next, .ok outcome) => ({ shared with archive := next }, .outcome outcome)
      | (next, .error e) => ({ shared with archive := next }, .refused e)
    | .size => shared.locked fun a => (shared, .size a.size)
    | .isEmpty => shared.locked fun a => (shared, .isEmpty a.isEmpty)
    | .snapshot => shared.locked fun a => (shared, .snapshot a.retained)
    | .inside code => shared.locked fun a =>
      match code a with
      | (next, .ok answer) => ({ shared with archive := next }, .answer answer)
      | (next, .error fault) => ({ shared with archive := next, poisoned := true }, .faulted fault)
    | .clone =>
      ({ shared with handles := shared.handles ++ [shared.made], made := shared.made + 1 },
        .cloned shared.made)
    | .drop => (shared.release h, .dropped)
    | .unwrap =>
      if shared.handles ≠ [h] then (shared, .shared)
      else if shared.poisoned then (shared.release h, .refused .lockPoisoned)
      else (shared.release h, .unwrapped shared.archive)

def runAll (shared : SharedArchive) : List (Nat × Request α) → SharedArchive × List (Reply α)
  | [] => (shared, [])
  | (h, request) :: rest =>
    let (next, reply) := shared.serve h request
    let (last, replies) := next.runAll rest
    (last, reply :: replies)

end SharedArchive

end ParetoFront
