import Mathlib.Data.List.Induction
import Mathlib.Data.List.Nodup
import ParetoFront.Archive.Shared

/-!
# Shared archives behave like one plain archive

What the callers of a shared archive see is the log of their requests and of the replies. Up to the
first fault under the lock, each reply is the one that a plain archive gives that is asked the same
in the same order. From then on nothing is said about the content any more. Which handles live, and
whether the lock is poisoned, can be read off the log, and so can the handle, if there is one, that
takes the archive out.

## Main definitions

- `Entry`, `SharedArchive.log` — the requests of a run with their replies
- `Live`, `Faulted` — the handles and the lock, as the log shows them
- `Archive.ask`, `Archive.following` — the plain archive
- `SharedArchive.Tracks`, `SharedArchive.Mirrors` — the handles and the content between two requests

## Main statements

- `SharedArchive.serve_of_locks` — a request under the lock
- `SharedArchive.tracks_log`, `SharedArchive.mirrors_log` — what holds after any requests
- `SharedArchive.replies_refine` — the reply to any request of a run
-/

namespace ParetoFront

variable {α : Type}

/-! ### What callers see -/

/-- A request through a handle, and its reply. -/
structure Entry (α : Type) where
  handle : Nat
  request : Request α
  reply : Reply α

/-- The request ended the life of its handle. -/
def Entry.Ends (e : Entry α) : Prop :=
  match e.request, e.reply with
  | .drop, .dropped | .unwrap, .unwrapped _ | .unwrap, .refused _ => True
  | _, _ => False

/-- The handle was made, as the first one or by cloning, and no request ended its life. -/
def Live (log : List (Entry α)) (h : Nat) : Prop :=
  (h = 0 ∨ ∃ e ∈ log, e.reply = .cloned h) ∧ ∀ e ∈ log, e.handle = h → ¬ e.Ends

/-- Some caller's code faulted under the lock. -/
def Faulted (log : List (Entry α)) : Prop :=
  ∃ e ∈ log, ∃ fault, e.reply = .faulted fault

/-- The request runs under the lock. -/
def Request.locks : Request α → Bool
  | add _ | size | isEmpty | snapshot | inside _ => true
  | clone | drop | unwrap => false

namespace Reply

/-- There was a handle for the request. -/
def isServed : Reply α → Bool
  | noHandle => false
  | _ => true

/-- The reply hands out the archive. -/
def yields : Reply α → Bool
  | unwrapped _ => true
  | _ => false

/-- The reply says nothing about the archive. -/
def Hides : Reply α → Prop
  | noHandle | refused .lockPoisoned | cloned _ | dropped | shared => True
  | _ => False

/-- A caller's code faulted. -/
def isFault : Reply α → Bool
  | faulted _ => true
  | _ => false

end Reply

theorem faulted_iff {log : List (Entry α)} : Faulted log ↔ ∃ e ∈ log, e.reply.isFault = true := by
  refine exists_congr fun e => and_congr_right fun _ => ?_
  cases e.reply <;> simp [Reply.isFault]

theorem faulted_concat_iff {log : List (Entry α)} {e : Entry α} :
    Faulted (log ++ [e]) ↔ Faulted log ∨ e.reply.isFault = true := by
  simp [faulted_iff, or_and_right, exists_or]

namespace Archive

/-- The request to a plain archive, without a lock and without handles. There is no reply to a
request that is about handles only. -/
def ask (a : Archive) : Request α → Archive × Option (Reply α)
  | .add s =>
    match a.offer s with
    | (next, .ok outcome) => (next, some (.outcome outcome))
    | (next, .error e) => (next, some (.refused e))
  | .size => (a, some (.size a.size))
  | .isEmpty => (a, some (.isEmpty a.isEmpty))
  | .snapshot => (a, some (.snapshot a.retained))
  | .inside code =>
    match code a with
    | (next, .ok answer) => (next, some (.answer answer))
    | (next, .error fault) => (next, some (.faulted fault))
  | .clone | .drop | .unwrap => (a, none)

/-- The plain archive after one more request, if there was a handle for it. -/
def follow (a : Archive) (e : Entry α) : Archive :=
  if e.reply.isServed then (a.ask e.request).1 else a

/-- The plain archive after the requests of a log. -/
def following (a : Archive) (log : List (Entry α)) : Archive :=
  log.foldl follow a

theorem following_concat (a : Archive) (log : List (Entry α)) (e : Entry α) :
    a.following (log ++ [e]) = (a.following log).follow e := by
  rw [following, List.foldl_append]
  rfl

variable {a : Archive} {request : Request α} {reply : Reply α}

theorem follow_of_not_locks (a : Archive) {e : Entry α} (unlocked : e.request.locks = false) :
    a.follow e = a := by
  obtain ⟨h, request, reply⟩ := e
  have same : (a.ask request).1 = a := by
    cases request <;> first | rfl | cases unlocked
  rw [follow, same, ite_self]

/-- A plain archive is asked through no handle, makes none and is not handed out. -/
theorem reply_of_ask (asked : (a.ask request).2 = some reply) :
    reply.isServed = true ∧ (∀ h, reply ≠ .cloned h) ∧ reply.yields = false := by
  revert asked
  cases request with
  | add s =>
    rw [ask]
    obtain ⟨next, _ | _⟩ := a.offer s
    all_goals rintro ⟨⟩; exact ⟨rfl, nofun, rfl⟩
  | inside code =>
    rw [ask]
    obtain ⟨next, _ | _⟩ := code a
    all_goals rintro ⟨⟩; exact ⟨rfl, nofun, rfl⟩
  | size | isEmpty | snapshot =>
    rintro ⟨⟩
    exact ⟨rfl, nofun, rfl⟩
  | clone | drop | unwrap => exact nofun

end Archive

namespace SharedArchive

variable {shared : SharedArchive} {h : Nat} {request : Request α}

/-! ### One request -/

theorem serve_of_not_mem (dead : h ∉ shared.handles) :
    shared.serve h request = (shared, .noHandle) :=
  if_pos dead

/-- Under a lock that is not poisoned a request is answered as by a plain archive, and its fault
poisons the lock. -/
theorem serve_of_locks (live : h ∈ shared.handles) (locks : request.locks = true)
    (sound : shared.poisoned = false) :
    ∃ reply, (shared.archive.ask request).2 = some reply ∧
      shared.serve h request = ({ shared with
        archive := (shared.archive.ask request).1
        poisoned := reply.isFault }, reply) := by
  obtain ⟨archive, poisoned, handles, made⟩ := shared
  dsimp only at live sound
  subst sound
  cases request with
  | add s =>
    simp only [serve, live, not_true, if_false, locked, Archive.ask]
    obtain ⟨next, _ | _⟩ := archive.offer s
    all_goals exact ⟨_, rfl, rfl⟩
  | inside code =>
    simp only [serve, live, not_true, if_false, locked, Archive.ask]
    obtain ⟨next, _ | _⟩ := code archive
    all_goals exact ⟨_, rfl, rfl⟩
  | size | isEmpty | snapshot =>
    simp only [serve, live, not_true, if_false, locked, Archive.ask]
    exact ⟨_, rfl, rfl⟩
  | clone | drop | unwrap => cases locks

theorem serve_of_poisoned (live : h ∈ shared.handles) (locks : request.locks = true)
    (poisoned : shared.poisoned = true) :
    shared.serve h request = (shared, .refused .lockPoisoned) := by
  cases request with
  | clone | drop | unwrap => cases locks
  | _ => simp only [serve, live, not_true, if_false, locked, poisoned, if_true]

theorem serve_clone (live : h ∈ shared.handles) :
    shared.serve h (.clone : Request α) =
      ({ shared with handles := shared.handles ++ [shared.made], made := shared.made + 1 },
        .cloned shared.made) := by
  simp only [serve, live, not_true, if_false]

theorem serve_drop (live : h ∈ shared.handles) :
    shared.serve h (.drop : Request α) = (shared.release h, .dropped) := by
  simp only [serve, live, not_true, if_false]

/-- Only the last handle takes the archive out, and only under a lock that is not poisoned. -/
theorem serve_unwrap (live : h ∈ shared.handles) :
    shared.serve h (.unwrap : Request α) =
      if shared.handles = [h] then
        (shared.release h,
          if shared.poisoned then .refused .lockPoisoned else .unwrapped shared.archive)
      else (shared, .shared) := by
  simp only [serve, live, not_true, if_false, ite_not]
  cases shared.poisoned <;> rfl

/-! ### Runs -/

theorem runAll_cons (shared : SharedArchive) (first : Nat × Request α)
    (later : List (Nat × Request α)) :
    shared.runAll (first :: later) =
      (((shared.serve first.1 first.2).1.runAll later).1,
        (shared.serve first.1 first.2).2 :: ((shared.serve first.1 first.2).1.runAll later).2) :=
  rfl

theorem runAll_concat (shared : SharedArchive) (requests : List (Nat × Request α)) (h : Nat)
    (request : Request α) :
    shared.runAll (requests ++ [(h, request)]) =
      (((shared.runAll requests).1.serve h request).1,
        (shared.runAll requests).2 ++ [((shared.runAll requests).1.serve h request).2]) := by
  induction requests generalizing shared with
  | nil => rfl
  | cons first later ih =>
    rw [List.cons_append, runAll_cons, runAll_cons, ih]
    rfl

theorem length_replies (shared : SharedArchive) (requests : List (Nat × Request α)) :
    (shared.runAll requests).2.length = requests.length := by
  induction requests generalizing shared with
  | nil => rfl
  | cons first later ih => exact congrArg (· + 1) (ih _)

/-- The requests of a run with their replies. -/
def log (shared : SharedArchive) (requests : List (Nat × Request α)) : List (Entry α) :=
  List.zipWith (fun (h, request) reply => ⟨h, request, reply⟩) requests (shared.runAll requests).2

/-- A run ends with its last request. -/
theorem log_concat (shared : SharedArchive) (requests : List (Nat × Request α)) (h : Nat)
    (request : Request α) :
    shared.log (requests ++ [(h, request)]) = shared.log requests ++
      [⟨h, request, ((shared.runAll requests).1.serve h request).2⟩] := by
  rw [log, runAll_concat, List.zipWith_append (length_replies shared requests).symm]
  rfl

/-! ### Handles -/

/-- The handles between two requests, as the log shows them. Every handle of the log is one of those
made, and once the archive is taken out no handle is left. -/
structure Tracks (log : List (Entry α)) (shared : SharedArchive) : Prop where
  mem_iff : ∀ h, h ∈ shared.handles ↔ Live log h
  nodup : shared.handles.Nodup
  cloned_lt : ∀ h, (h = 0 ∨ ∃ e ∈ log, e.reply = .cloned h) → h < shared.made
  ended_lt : ∀ e ∈ log, e.Ends → e.handle < shared.made
  taken : (log.countP fun e => e.reply.yields) ≤ if shared.handles = [] then 1 else 0

variable {log : List (Entry α)} {e : Entry α} {next : SharedArchive}

theorem live_concat_iff :
    Live (log ++ [e]) h ↔
      ((h = 0 ∨ ∃ e ∈ log, e.reply = .cloned h) ∨ e.reply = .cloned h) ∧
        (∀ e ∈ log, e.handle = h → ¬ e.Ends) ∧ (e.handle = h → ¬ e.Ends) := by
  rw [Live, List.forall_mem_append, List.forall_mem_singleton]
  refine and_congr_left fun _ => ?_
  simp [or_and_right, exists_or, or_assoc]

/-- A request that neither makes a handle nor ends one. -/
theorem live_concat_of_inert (keeps : ∀ k, e.reply ≠ .cloned k) (lives : ¬ e.Ends) :
    Live (log ++ [e]) h ↔ Live log h := by
  rw [live_concat_iff, Live]
  simp [keeps, lives]

/-- A request that ends its handle. -/
theorem live_concat_of_ends (keeps : ∀ k, e.reply ≠ .cloned k) (ends : e.Ends) :
    Live (log ++ [e]) h ↔ Live log h ∧ h ≠ e.handle := by
  rw [live_concat_iff, Live]
  simp only [keeps, or_false, ends, not_true, imp_false, and_assoc, ne_eq, eq_comm]

namespace Tracks

theorem lt_made (tracks : Tracks log shared) (live : h ∈ shared.handles) : h < shared.made :=
  tracks.cloned_lt h ((tracks.mem_iff h).1 live).1

/-- As long as a handle lives the archive is not taken out. -/
theorem countP_eq_zero (tracks : Tracks log shared) (live : h ∈ shared.handles) :
    (log.countP fun e => e.reply.yields) = 0 := by
  have taken := tracks.taken
  rw [if_neg (List.ne_nil_of_mem live)] at taken
  exact Nat.le_zero.1 taken

theorem inert (tracks : Tracks log shared) (handles : next.handles = shared.handles)
    (made : next.made = shared.made) (keeps : ∀ k, e.reply ≠ .cloned k) (lives : ¬ e.Ends)
    (holds : e.reply.yields = false) : Tracks (log ++ [e]) next where
  mem_iff h := by rw [handles, tracks.mem_iff, live_concat_of_inert keeps lives]
  nodup := handles ▸ tracks.nodup
  cloned_lt h made' := by
    rw [made]
    refine tracks.cloned_lt h (made'.imp_right ?_)
    rintro ⟨e', member, cloned⟩
    obtain inside | last := List.mem_append.1 member
    · exact ⟨e', inside, cloned⟩
    · exact absurd cloned (List.mem_singleton.1 last ▸ keeps h)
  ended_lt := by
    rw [made]
    refine List.forall_mem_append.2 ⟨tracks.ended_lt, ?_⟩
    exact List.forall_mem_singleton.2 fun ends => absurd ends lives
  taken := by simpa [List.countP_append, holds, handles] using tracks.taken

theorem clone (tracks : Tracks log shared) (live : h ∈ shared.handles) :
    Tracks (log ++ [⟨h, .clone, .cloned shared.made⟩])
      { shared with handles := shared.handles ++ [shared.made], made := shared.made + 1 } where
  mem_iff k := by
    -- the new handle is in no earlier entry, so that none of them ended it
    have fresh : ∀ e ∈ log, e.handle = shared.made → ¬ e.Ends := fun e member same ends =>
      Nat.ne_of_lt (tracks.ended_lt e member ends) same
    have unmade : shared.made ∉ shared.handles := fun inside =>
      Nat.lt_irrefl _ (tracks.lt_made inside)
    rw [List.mem_append, List.mem_singleton, tracks.mem_iff, live_concat_iff]
    by_cases new : k = shared.made
    · subst new
      simpa [Entry.Ends] using fresh
    · have other : (Reply.cloned shared.made : Reply α) ≠ .cloned k := fun same =>
        new (Reply.cloned.inj same).symm
      simp [Live, Entry.Ends, new, Ne.symm new]
  nodup := by
    refine List.nodup_append.2 ⟨tracks.nodup, List.nodup_singleton _, ?_⟩
    intro k inside k' last
    rw [List.mem_singleton.1 last]
    exact Nat.ne_of_lt (tracks.lt_made inside)
  cloned_lt k made := by
    simp only [List.mem_append, List.mem_singleton, or_and_right, exists_or, exists_eq_left,
      Reply.cloned.injEq] at made
    obtain first | old | rfl := made
    · exact Nat.lt_succ_of_lt (tracks.cloned_lt k (.inl first))
    · exact Nat.lt_succ_of_lt (tracks.cloned_lt k (.inr old))
    · exact Nat.lt_succ_self _
  ended_lt := by
    refine List.forall_mem_append.2 ⟨fun e member ends => ?_, ?_⟩
    · exact Nat.lt_succ_of_lt (tracks.ended_lt e member ends)
    · exact List.forall_mem_singleton.2 fun ends => ends.elim
  taken := by
    rw [List.countP_append, tracks.countP_eq_zero live]
    exact Nat.zero_le _

/-- The handle of a request that ends it is released. -/
theorem release (tracks : Tracks log shared) (live : e.handle ∈ shared.handles)
    (keeps : ∀ k, e.reply ≠ .cloned k) (ends : e.Ends)
    (last : e.reply.yields = true → shared.handles = [e.handle]) :
    Tracks (log ++ [e]) (shared.release e.handle) where
  mem_iff h := by
    rw [SharedArchive.release, tracks.nodup.mem_erase_iff, tracks.mem_iff,
      live_concat_of_ends keeps ends, and_comm]
  nodup := tracks.nodup.erase _
  cloned_lt h made := by
    refine tracks.cloned_lt h (made.imp_right ?_)
    rintro ⟨e', member, cloned⟩
    obtain inside | last := List.mem_append.1 member
    · exact ⟨e', inside, cloned⟩
    · exact absurd cloned (List.mem_singleton.1 last ▸ keeps h)
  ended_lt := by
    refine List.forall_mem_append.2 ⟨tracks.ended_lt, ?_⟩
    exact List.forall_mem_singleton.2 fun _ => tracks.lt_made live
  taken := by
    rw [List.countP_append, tracks.countP_eq_zero live, List.countP_singleton, Nat.zero_add]
    cases yields : e.reply.yields with
    | false => exact Nat.zero_le _
    | true =>
      rw [SharedArchive.release, last yields, List.erase_cons_head, if_pos rfl]
      exact Nat.le_refl 1

end Tracks

/-! ### Content -/

/-- The lock and the archive between two requests, as the log shows them. Under a poisoned lock
nothing is known about the archive. -/
structure Mirrors (a : Archive) (log : List (Entry α)) (shared : SharedArchive) : Prop where
  poisoned_iff : shared.poisoned = true ↔ Faulted log
  archive_eq : shared.poisoned = false → shared.archive = a.following log

namespace Mirrors

variable {a : Archive}

theorem sound (mirrors : Mirrors a log shared) (h : ¬ Faulted log) : shared.poisoned = false :=
  Bool.eq_false_iff.2 fun poisoned => h (mirrors.poisoned_iff.1 poisoned)

/-- A request that runs no code on the archive. -/
theorem idle (mirrors : Mirrors a log shared) (archive : next.archive = shared.archive)
    (poisoned : next.poisoned = shared.poisoned) (holds : e.reply.isFault = false)
    (follows : shared.poisoned = false → (a.following log).follow e = a.following log) :
    Mirrors a (log ++ [e]) next where
  poisoned_iff := by simp [poisoned, mirrors.poisoned_iff, faulted_concat_iff, holds]
  archive_eq sound := by
    rw [poisoned] at sound
    rw [archive, mirrors.archive_eq sound, Archive.following_concat, follows sound]

theorem locked (mirrors : Mirrors a log shared) (sound : shared.poisoned = false)
    {reply : Reply α} (asked : (shared.archive.ask request).2 = some reply) :
    Mirrors a (log ++ [⟨h, request, reply⟩]) { shared with
      archive := (shared.archive.ask request).1
      poisoned := reply.isFault } where
  poisoned_iff := by simp [faulted_concat_iff, ← mirrors.poisoned_iff, sound]
  archive_eq _ := by
    rw [Archive.following_concat, ← mirrors.archive_eq sound, Archive.follow,
      if_pos (Archive.reply_of_ask asked).1]

end Mirrors

/-! ### All requests -/

theorem not_ends_of_locks (locks : request.locks = true) (h : Nat) (reply : Reply α) :
    ¬ Entry.Ends ⟨h, request, reply⟩ := by
  cases request <;> first | exact id | cases locks

theorem tracks_serve (tracks : Tracks log shared) (h : Nat) (request : Request α) :
    Tracks (log ++ [⟨h, request, (shared.serve h request).2⟩]) (shared.serve h request).1 := by
  by_cases live : h ∈ shared.handles
  · cases locks : request.locks with
    | true =>
      have lives := not_ends_of_locks locks h
      cases poisoned : shared.poisoned with
      | true =>
        rw [serve_of_poisoned live locks poisoned]
        exact tracks.inert rfl rfl nofun (lives _) rfl
      | false =>
        obtain ⟨reply, asked, served⟩ := serve_of_locks live locks poisoned
        obtain ⟨-, keeps, holds⟩ := Archive.reply_of_ask asked
        rw [served]
        exact tracks.inert rfl rfl keeps (lives reply) holds
    | false =>
      cases request with
      | clone =>
        rw [serve_clone live]
        exact tracks.clone live
      | drop =>
        rw [serve_drop live]
        exact tracks.release (e := ⟨h, .drop, .dropped⟩) live nofun trivial nofun
      | unwrap =>
        rw [serve_unwrap live]
        by_cases last : shared.handles = [h]
        · rw [if_pos last]
          cases shared.poisoned with
          | true =>
            exact tracks.release (e := ⟨h, .unwrap, .refused .lockPoisoned⟩) live nofun trivial
              nofun
          | false =>
            exact tracks.release (e := ⟨h, .unwrap, .unwrapped shared.archive⟩) live nofun trivial
              fun _ => last
        · rw [if_neg last]
          exact tracks.inert rfl rfl nofun id rfl
      | _ => cases locks
  · rw [serve_of_not_mem live]
    exact tracks.inert rfl rfl nofun (by cases request <;> exact id) rfl

theorem mirrors_serve {a : Archive} (mirrors : Mirrors a log shared) (h : Nat)
    (request : Request α) :
    Mirrors a (log ++ [⟨h, request, (shared.serve h request).2⟩]) (shared.serve h request).1 := by
  by_cases live : h ∈ shared.handles
  · cases locks : request.locks with
    | true =>
      cases poisoned : shared.poisoned with
      | true =>
        rw [serve_of_poisoned live locks poisoned]
        exact mirrors.idle rfl rfl rfl fun sound => absurd (poisoned.symm.trans sound) nofun
      | false =>
        obtain ⟨reply, asked, served⟩ := serve_of_locks live locks poisoned
        rw [served]
        exact mirrors.locked poisoned asked
    | false =>
      have follows {reply : Reply α} : (a.following log).follow ⟨h, request, reply⟩ =
          a.following log := Archive.follow_of_not_locks _ locks
      cases request with
      | clone =>
        rw [serve_clone live]
        exact mirrors.idle rfl rfl rfl fun _ => follows
      | drop =>
        rw [serve_drop live]
        exact mirrors.idle rfl rfl rfl fun _ => follows
      | unwrap =>
        rw [serve_unwrap live]
        by_cases last : shared.handles = [h]
        · rw [if_pos last]
          refine mirrors.idle rfl rfl ?_ fun _ => follows
          cases shared.poisoned <;> rfl
        · rw [if_neg last]
          exact mirrors.idle rfl rfl rfl fun _ => follows
      | _ => cases locks
  · rw [serve_of_not_mem live]
    exact mirrors.idle rfl rfl rfl fun _ => rfl

theorem tracks_ofArchive (a : Archive) : Tracks ([] : List (Entry α)) (ofArchive a) where
  mem_iff h := by simp [ofArchive, Live]
  nodup := List.nodup_singleton 0
  cloned_lt h made := by
    obtain rfl | ⟨e, member, -⟩ := made
    · exact Nat.zero_lt_one
    · cases member
  ended_lt := List.forall_mem_nil _
  taken := Nat.zero_le _

theorem mirrors_ofArchive (a : Archive) : Mirrors a ([] : List (Entry α)) (ofArchive a) where
  poisoned_iff := by simp [ofArchive, Faulted]
  archive_eq _ := rfl

theorem tracks_log (a : Archive) (requests : List (Nat × Request α)) :
    Tracks ((ofArchive a).log requests) ((ofArchive a).runAll requests).1 := by
  induction requests using List.reverseRecOn with
  | nil => exact tracks_ofArchive a
  | append_singleton requests last ih =>
    rw [log_concat, runAll_concat]
    exact tracks_serve ih last.1 last.2

theorem mirrors_log (a : Archive) (requests : List (Nat × Request α)) :
    Mirrors a ((ofArchive a).log requests) ((ofArchive a).runAll requests).1 := by
  induction requests using List.reverseRecOn with
  | nil => exact mirrors_ofArchive a
  | append_singleton requests last ih =>
    rw [log_concat, runAll_concat]
    exact mirrors_serve ih last.1 last.2

/-! ### Replies -/

/-- The only handle left. -/
theorem Tracks.handles_eq_iff (tracks : Tracks log shared) (live : Live log h) :
    shared.handles = [h] ↔ ∀ k, Live log k → k = h := by
  constructor
  · intro only k other
    rw [← tracks.mem_iff, only] at other
    exact List.mem_singleton.1 other
  · intro only
    refine List.perm_singleton.1 ((List.perm_ext_iff_of_nodup tracks.nodup
      (List.nodup_singleton h)).2 fun k => ?_)
    rw [tracks.mem_iff, List.mem_singleton]
    exact ⟨only k, fun same => same ▸ live⟩

/-- Under a poisoned lock no reply is about the archive. -/
theorem hides_of_poisoned (poisoned : shared.poisoned = true) (h : Nat) (request : Request α) :
    (shared.serve h request).2.Hides := by
  by_cases live : h ∈ shared.handles
  · cases request with
    | clone => rw [serve_clone live]; trivial
    | drop => rw [serve_drop live]; trivial
    | unwrap =>
      rw [serve_unwrap live, poisoned]
      by_cases last : shared.handles = [h]
      · rw [if_pos last]
        trivial
      · rw [if_neg last]
        trivial
    | _ =>
      rw [serve_of_poisoned live rfl poisoned]
      trivial
  · rw [serve_of_not_mem live]
    trivial

theorem serve_eq_noHandle_iff : (shared.serve h request).2 = .noHandle ↔ h ∉ shared.handles := by
  refine ⟨fun missing live => ?_, fun dead => by rw [serve_of_not_mem dead]⟩
  cases locks : request.locks with
  | true =>
    cases poisoned : shared.poisoned with
    | true =>
      rw [serve_of_poisoned live locks poisoned] at missing
      cases missing
    | false =>
      obtain ⟨reply, asked, served⟩ := serve_of_locks live locks poisoned
      rw [served] at missing
      subst missing
      cases (Archive.reply_of_ask asked).1
  | false =>
    cases request with
    | clone => rw [serve_clone live] at missing; cases missing
    | drop => rw [serve_drop live] at missing; cases missing
    | unwrap =>
      rw [serve_unwrap live] at missing
      split_ifs at missing
    | _ => cases locks

/-- The reply to a request to take the archive out. -/
theorem unwrap_reply {a : Archive} (tracks : Tracks log shared) (mirrors : Mirrors a log shared)
    (live : Live log h) :
    let reply : Reply α := (shared.serve h .unwrap).2
    let last := ∀ k, Live log k → k = h
    ((∃ b, reply = .unwrapped b) ↔ last ∧ ¬ Faulted log) ∧
      (∀ b, reply = .unwrapped b → b = a.following log) ∧
      (reply = .shared ↔ ¬ last) ∧
      (reply = .refused .lockPoisoned ↔ last ∧ Faulted log) ∧
      (Live (log ++ [⟨h, .unwrap, reply⟩]) h ↔ reply = .shared) := by
  intro reply last
  have inside : h ∈ shared.handles := (tracks.mem_iff h).2 live
  have only : shared.handles = [h] ↔ last := tracks.handles_eq_iff live
  have served : reply = if shared.handles = [h] then
      if shared.poisoned then .refused .lockPoisoned else .unwrapped shared.archive
      else .shared := by
    show (shared.serve h .unwrap).2 = _
    rw [serve_unwrap inside]
    split_ifs <;> rfl
  by_cases alone : shared.handles = [h]
  · have isLast := only.1 alone
    cases poisoned : shared.poisoned with
    | true =>
      have faulted := mirrors.poisoned_iff.1 poisoned
      have gone : reply = .refused .lockPoisoned := by rw [served, if_pos alone, poisoned]; rfl
      have ends := @live_concat_of_ends α h log ⟨h, .unwrap, .refused .lockPoisoned⟩ nofun trivial
      rw [gone, ends]
      simp [isLast, faulted]
    | false =>
      have sound : ¬ Faulted log := by rw [← mirrors.poisoned_iff, poisoned]; exact nofun
      have gone : reply = .unwrapped shared.archive := by rw [served, if_pos alone, poisoned]; rfl
      have ends :=
        @live_concat_of_ends α h log ⟨h, .unwrap, .unwrapped shared.archive⟩ nofun trivial
      rw [gone, ends, mirrors.archive_eq poisoned]
      simp [isLast, sound]
  · have stays : reply = .shared := by rw [served, if_neg alone]
    have stands := @live_concat_of_inert α h log ⟨h, .unwrap, .shared⟩ nofun id
    rw [stays, stands]
    simp [← only, alone, live]

/-- The reply to a request, whatever was requested before. Up to the first fault under the lock
every request under it is answered as by a plain archive asked the same in the same order, and a
refusal is no fault. From then on such requests are refused, and nothing is said about the archive.
Only the last handle takes the archive out, which happens at most once, and only before a fault;
after one, the last handle is lost without it. -/
theorem replies_refine (a : Archive) (requests : List (Nat × Request α)) (h : Nat)
    (request : Request α) :
    let log := (ofArchive a).log requests
    ∃ reply, let now := log ++ [⟨h, request, reply⟩]
      (ofArchive a).log (requests ++ [(h, request)]) = now ∧
      (reply = .noHandle ↔ ¬ Live log h) ∧
      (Live log h → request.locks = true →
        (¬ Faulted log → some reply = ((a.following log).ask request).2) ∧
        (Faulted log → reply = .refused .lockPoisoned)) ∧
      (∀ e, reply = .refused e → (Faulted now ↔ Faulted log)) ∧
      (Faulted log → reply.Hides) ∧
      (Live log h → request = .clone →
        ∃ k, reply = .cloned k ∧ ¬ Live log k ∧ ∀ i, Live now i ↔ Live log i ∨ i = k) ∧
      (Live log h → request = .drop → reply = .dropped ∧ ∀ i, Live now i ↔ Live log i ∧ i ≠ h) ∧
      (Live log h → request = .unwrap →
        let last := ∀ k, Live log k → k = h
        ((∃ b, reply = .unwrapped b) ↔ last ∧ ¬ Faulted log) ∧
        (∀ b, reply = .unwrapped b → b = a.following log) ∧
        (reply = .shared ↔ ¬ last) ∧
        (reply = .refused .lockPoisoned ↔ last ∧ Faulted log) ∧
        (Live now h ↔ reply = .shared)) ∧
      (now.countP fun e => e.reply.yields) ≤ 1 := by
  intro log
  have tracks : Tracks log _ := tracks_log a requests
  have mirrors : Mirrors a log _ := mirrors_log a requests
  have after := tracks_serve tracks h request
  refine ⟨_, log_concat _ requests h request, ?_, ?_, ?_, ?_, ?_, ?_, ?_, ?_⟩
  · rw [serve_eq_noHandle_iff, tracks.mem_iff]
  · intro live locks
    have inside := (tracks.mem_iff h).2 live
    refine ⟨fun sound => ?_, fun faulted => ?_⟩
    · have sound := mirrors.sound sound
      obtain ⟨reply, asked, served⟩ := serve_of_locks inside locks sound
      rw [served, ← mirrors.archive_eq sound, asked]
    · rw [serve_of_poisoned inside locks (mirrors.poisoned_iff.2 faulted)]
  · intro e refused
    rw [faulted_concat_iff, refused]
    simp [Reply.isFault]
  · exact fun faulted => hides_of_poisoned (mirrors.poisoned_iff.2 faulted) h request
  · rintro live rfl
    have inside := (tracks.mem_iff h).2 live
    rw [serve_clone inside] at after ⊢
    refine ⟨_, rfl, ?_, fun i => ?_⟩
    · rw [← tracks.mem_iff]
      exact fun unmade => Nat.lt_irrefl _ (tracks.lt_made unmade)
    · rw [← after.mem_iff, ← tracks.mem_iff, List.mem_append, List.mem_singleton]
  · rintro live rfl
    rw [serve_drop ((tracks.mem_iff h).2 live)]
    exact ⟨rfl, fun i => live_concat_of_ends nofun trivial⟩
  · rintro live rfl
    exact unwrap_reply tracks mirrors live
  · refine Nat.le_trans after.taken ?_
    split_ifs <;> decide

end SharedArchive

/-- Two offers, one of them refused, then a caller's code that faults, and handles that come and
go until the handle `2` is the last one. -/
def crash : List (Nat × Request Unit) :=
  [(0, .clone), (1, .add (.ofObjectives [1, 2])), (0, .add (.ofObjectives [3])), (1, .snapshot),
    (1, .inside fun a => (a.clear, .error (.crashed "evaluator crashed"))), (1, .size), (0, .clone),
    (0, .unwrap), (0, .drop), (1, .drop)]

theorem replies_refine_crash :
    let shared := SharedArchive.ofArchive (.epsilonBox ⟨[1], by decide, by decide⟩)
    let log := shared.log crash
    log.map Entry.reply =
        [.cloned 1, .outcome (.added 0), .refused (.objectiveCountMismatch 2 1),
          .snapshot [.ofObjectives [1, 2]], .faulted (.crashed "evaluator crashed"),
          .refused .lockPoisoned, .cloned 2, .shared, .dropped, .dropped] ∧
      Live log 2 ∧ (∀ k, Live log k → k = 2) ∧ Faulted log ∧
      (shared.log (crash ++ [(2, .snapshot)])).map Entry.reply =
        log.map Entry.reply ++ [.refused .lockPoisoned] ∧
      ¬ Live (shared.log (crash ++ [(2, .unwrap)])) 2 := by
  intro shared log
  obtain ⟨reply, isLog, served, -, -, -, -, -, unwrap, -⟩ :=
    SharedArchive.replies_refine (.epsilonBox ⟨[1], by decide, by decide⟩) crash 2 .unwrap
  have value : reply = .refused .lockPoisoned :=
    congrArg Entry.reply (List.singleton_inj.1 (List.append_cancel_left (isLog.symm.trans rfl)))
  have live : Live log 2 := by
    by_contra dead
    have missing := served.2 dead
    rw [value] at missing
    cases missing
  obtain ⟨-, -, -, lost, stands⟩ := unwrap live rfl
  obtain ⟨only, faulted⟩ := lost.1 value
  obtain ⟨reply', isLog', -, locked, -⟩ :=
    SharedArchive.replies_refine (.epsilonBox ⟨[1], by decide, by decide⟩) crash 2 .snapshot
  refine ⟨rfl, live, only, faulted, ?_, ?_⟩
  · rw [isLog', List.map_append, (locked live rfl).2 faulted]
    rfl
  · rw [isLog, stands, value]
    exact nofun

end ParetoFront
