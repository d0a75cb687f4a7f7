import Mathlib.Data.Multiset.ZeroCons
import ParetoFront.Proofs.Archive.Content
import ParetoFront.Proofs.Archive.Sharing

/-!
# Interleaved offers to a shared archive

Callers offer solutions through handles of one shared archive, each in an order of its own. The lock
makes the offers of all callers one series, and any series can come about in which those of each
caller keep their order. What is retained, what leaves, and the counts of improvements depend on the
series. The solutions that are retained in the end do not, up to ties: solutions of one box whose
residuals are equal, between which only the order of arrival decides.

## Main definitions

- `Interleaves` — the series that can come about
- `Epsilons.Tied`, `Epsilons.place` — ties, as equality of places
- `Epsilons.Outdoes` — the part of the order among offers that is not about arrival

## Main statements

- `Interleaves.perm` — each offer of each caller is made once
- `Epsilons.map_place_unbeaten_perm` — the places of what is retained in the end
- `SharedArchive.retained_interleavings` — any two series end alike
-/

namespace ParetoFront

open Number

/-! ### Series of offers -/

/-- A series of offers through the handles `0, 1, …`: at each step some handle makes the next of its
own offers, until all are made. -/
inductive Interleaves : List (List Solution) → List (Nat × Solution) → Prop
  | done {family : List (List Solution)} (made : ∀ offers ∈ family, offers = []) :
    Interleaves family []
  | step {family : List (List Solution)} {h : Nat} {s : Solution} {later : List Solution}
    {series : List (Nat × Solution)} (next : family[h]? = some (s :: later))
    (rest : Interleaves (family.set h later) series) : Interleaves family ((h, s) :: series)

namespace Interleaves

variable {family : List (List Solution)} {series : List (Nat × Solution)}

/-- The next offer of a handle is one of all offers. -/
theorem flatten_perm {h : Nat} {s : Solution} {later : List Solution}
    (next : family[h]? = some (s :: later)) :
    (s :: (family.set h later).flatten).Perm family.flatten := by
  obtain ⟨within, atH⟩ := List.getElem?_eq_some_iff.1 next
  have whole : family = family.take h ++ (s :: later) :: family.drop (h + 1) := by
    rw [← atH, List.getElem_cons_drop, List.take_append_drop]
  have taken : family.set h later = family.take h ++ later :: family.drop (h + 1) := by
    rw [List.set_eq_take_append_cons_drop, if_pos within]
  rw [taken]
  conv_rhs => rw [whole]
  rw [List.flatten_append, List.flatten_append, List.flatten_cons, List.flatten_cons]
  exact List.perm_middle.symm

/-- Each offer of each handle is made once. -/
theorem perm (h : Interleaves family series) : (series.map Prod.snd).Perm family.flatten := by
  induction h with
  | done made => rw [List.flatten_eq_nil_iff.2 made, List.map_nil]
  | step next _ ih => exact (ih.cons _).trans (flatten_perm next)

theorem handle_lt (h : Interleaves family series) : ∀ p ∈ series, p.1 < family.length := by
  induction h with
  | done => exact List.forall_mem_nil _
  | step next _ ih =>
    rw [List.length_set] at ih
    exact List.forall_mem_cons.2 ⟨(List.getElem?_eq_some_iff.1 next).1, ih⟩

end Interleaves

/-! ### Ties -/

namespace Epsilons

variable (ε : Epsilons)

/-- The feasibility tier is tied, the box is shared, and the residuals are equal. -/
def Tied (s t : Solution) : Prop :=
  feasibilityTier s t = none ∧ ε.boxIndex s.objectives = ε.boxIndex t.objectives ∧
    (ε.residual s.objectives == ε.residual t.objectives) = true

instance : DecidableRel ε.Tied := fun _ _ => inferInstanceAs (Decidable (_ ∧ _ ∧ _))

/-- Tier, box and residual of a solution. -/
def place (s : Solution) : WithBot Int × List Int × Int :=
  (s.violationPlace, ε.boxIndex s.objectives, units (ε.residual s.objectives))

/-- A solution beats another, whichever of them came first. -/
def Outdoes (s t : Solution) : Prop :=
  ε.Beats (s, 0) (t, 0)

variable {ε} {offers offers' : List Solution} {s t : Solution}

theorem place_eq_iff_tied (hs : ε.Regular s) (ht : ε.Regular t) :
    ε.place s = ε.place t ↔ ε.Tied s t := by
  rw [place, place, Prod.mk.injEq, Prod.mk.injEq, Tied, feasibilityTier_eq_none_iff hs.1 ht.1,
    beq_iff_units hs.residual_isNaN ht.residual_isNaN]

/-- The order of arrival decides only between tied offers. -/
theorem beats_iff_outdoes_or {p q : Solution × Nat} (hp : ε.Regular p.1) (hq : ε.Regular q.1)
    (lengths : p.1.objectives.length = q.1.objectives.length) :
    ε.Beats p q ↔ ε.Outdoes p.1 q.1 ∨ ε.place p.1 = ε.place q.1 ∧ p.2 < q.2 := by
  rw [Outdoes, beats_iff hp hq lengths, beats_iff (p := (q.1, 0)) (q := (p.1, 0)) hp hq lengths,
    BeatsInTier, BeatsInTier, place, place, Prod.mk.injEq, Prod.mk.injEq]
  grind

theorem Comparable.perm (h : ε.Comparable offers) (perm : offers'.Perm offers) :
    ε.Comparable offers' :=
  ⟨fun s member => h.1 s (perm.subset member), h.2.imp fun _ widths s member =>
    widths s (perm.subset member)⟩

/-- No place is taken twice among the unbeaten offers, since the first of tied offers beats the
others. -/
theorem nodup_map_place_unbeaten (h : ε.Comparable offers) :
    ((ε.unbeaten offers).map ε.place).Nodup := by
  have ascending : (offers.zipIdx.filter fun p => ε.Unbeaten offers p).Pairwise
      fun p q => p.2 < q.2 := by
    refine List.Pairwise.sublist List.filter_sublist (List.pairwise_map.1 ?_)
    rw [List.zipIdx_map_snd]
    exact List.pairwise_lt_range'
  rw [unbeaten, List.map_map, List.Nodup, List.pairwise_map]
  refine ascending.imp_of_mem ?_
  intro p q hp hq before same
  obtain ⟨insideP, -⟩ := List.mem_filter.1 hp
  obtain ⟨insideQ, unbeatenQ⟩ := List.mem_filter.1 hq
  refine of_decide_eq_true unbeatenQ p insideP ?_
  exact (beats_iff_outdoes_or (h.regular insideP) (h.regular insideQ)
    (h.lengths insideP insideQ)).2 (.inr ⟨same, before⟩)

/-- The places of the unbeaten offers are those of the offers that no offer outdoes, in whatever
order they came. -/
theorem mem_map_place_unbeaten (h : ε.Comparable offers) {k : WithBot Int × List Int × Int} :
    k ∈ (ε.unbeaten offers).map ε.place ↔
      ∃ s ∈ offers, ε.place s = k ∧ ∀ t ∈ offers, ¬ ε.Outdoes t s := by
  simp only [unbeaten, List.map_map, List.mem_map, List.mem_filter, decide_eq_true_eq,
    Function.comp_apply]
  constructor
  · rintro ⟨p, ⟨inside, free⟩, rfl⟩
    refine ⟨p.1, (mem_of_mem_zipIdx inside).1, rfl, fun t member outdone => ?_⟩
    obtain ⟨j, atJ⟩ := List.mem_iff_getElem?.1 member
    have insideT : (t, j) ∈ offers.zipIdx := List.mem_zipIdx_iff_getElem?.2 atJ
    exact free (t, j) insideT ((beats_iff_outdoes_or (h.regular insideT) (h.regular inside)
      (h.lengths insideT inside)).2 (.inl outdone))
  · rintro ⟨s, member, rfl, free⟩
    obtain ⟨i, atI⟩ := List.mem_iff_getElem?.1 member
    have inside : (s, i) ∈ offers.zipIdx := List.mem_zipIdx_iff_getElem?.2 atI
    -- the offer is unbeaten, or what beats it is an earlier offer of its place
    obtain ⟨q, insideQ, reaches, unbeatenQ⟩ := h.decidedBy.exists_unbeaten inside
    refine ⟨q, ⟨insideQ, unbeatenQ⟩, ?_⟩
    obtain rfl | wins := reaches
    · rfl
    · obtain outdone | ⟨same, -⟩ := (beats_iff_outdoes_or (h.regular insideQ) (h.regular inside)
        (h.lengths insideQ inside)).1 wins
      · exact absurd outdone (free q.1 (mem_of_mem_zipIdx insideQ).1)
      · exact same

theorem map_place_unbeaten_perm (h : ε.Comparable offers) (perm : offers'.Perm offers) :
    ((ε.unbeaten offers').map ε.place).Perm ((ε.unbeaten offers).map ε.place) := by
  have h' := h.perm perm
  refine (List.perm_ext_iff_of_nodup (nodup_map_place_unbeaten h')
    (nodup_map_place_unbeaten h)).2 fun k => ?_
  rw [mem_map_place_unbeaten h', mem_map_place_unbeaten h]
  simp only [perm.mem_iff]

theorem mem_of_mem_unbeaten (member : s ∈ ε.unbeaten offers) : s ∈ offers := by
  obtain ⟨p, inside, rfl⟩ := List.mem_map.1 member
  exact (mem_of_mem_zipIdx (List.mem_of_mem_filter inside)).1

/-- What is unbeaten in one order of the offers is tied, one to one, with what is unbeaten in
another. -/
theorem unbeaten_rel_tied (h : ε.Comparable offers) (perm : offers'.Perm offers) :
    Multiset.Rel ε.Tied (ε.unbeaten offers' : Multiset Solution)
      (ε.unbeaten offers : Multiset Solution) := by
  have same : Multiset.Rel Eq ((ε.unbeaten offers' : Multiset Solution).map ε.place)
      ((ε.unbeaten offers : Multiset Solution).map ε.place) := by
    rw [Multiset.rel_eq]
    exact Multiset.coe_eq_coe.2 (map_place_unbeaten_perm h perm)
  rw [Multiset.rel_map] at same
  refine same.mono fun s hs t ht places => ?_
  have regularS := h.1 s (perm.subset (mem_of_mem_unbeaten (Multiset.mem_coe.1 hs)))
  have regularT := h.1 t (mem_of_mem_unbeaten (Multiset.mem_coe.1 ht))
  exact (place_eq_iff_tied regularS regularT).1 places

end Epsilons

/-! ### Offers through handles -/

namespace SharedArchive

/-- The requests of a series of offers. -/
def adds {α : Type} (series : List (Nat × Solution)) : List (Nat × Request α) :=
  series.map fun p => (p.1, .add p.2)

variable {α : Type} {shared : SharedArchive} {w : Widths} {series : List (Nat × Solution)}

theorem serve_add {h : Nat} {s : Solution} (live : h ∈ shared.handles)
    (sound : shared.poisoned = false) (serves : shared.archive.Serves w) (matching : s.widths = w) :
    ∃ outcome, shared.serve h (.add s : Request α) =
      ({ shared with archive := (shared.archive.offer s).1 }, .outcome outcome) := by
  obtain ⟨outcome, isOk⟩ := serves.offer_eq_ok matching
  have asked : shared.archive.ask (.add s : Request α) =
      ((shared.archive.offer s).1, some (.outcome outcome)) := by
    rw [Archive.ask, show shared.archive.offer s = ((shared.archive.offer s).1, .ok outcome) from
      Prod.ext rfl isOk]
  obtain ⟨reply, isReply, served⟩ := @serve_of_locks α shared h (.add s) live rfl sound
  rw [asked] at isReply served
  obtain rfl := Option.some.inj isReply
  have unpoisoned : (Reply.outcome outcome : Reply α).isFault = shared.poisoned := sound.symm
  rw [served, unpoisoned]
  exact ⟨outcome, rfl⟩

/-- Offers through live handles are the same offers to the archive itself. -/
theorem runAll_adds (live : ∀ p ∈ series, p.1 ∈ shared.handles) (sound : shared.poisoned = false)
    (serves : shared.archive.Serves w) (matching : ∀ p ∈ series, p.2.widths = w) :
    (∀ reply ∈ (shared.runAll (adds (α := α) series)).2, ∃ outcome, reply = .outcome outcome) ∧
      (shared.runAll (adds (α := α) series)).1.archive =
        (series.map Prod.snd).foldl (fun a s => (a.offer s).1) shared.archive := by
  induction series generalizing shared with
  | nil => exact ⟨List.forall_mem_nil _, rfl⟩
  | cons first later ih =>
    obtain ⟨liveFirst, liveLater⟩ := List.forall_mem_cons.1 live
    obtain ⟨matchingFirst, matchingLater⟩ := List.forall_mem_cons.1 matching
    obtain ⟨outcome, served⟩ := @serve_add α _ _ _ _ liveFirst sound serves matchingFirst
    obtain ⟨replies, reached⟩ :=
      @ih { shared with archive := (shared.archive.offer first.2).1 } liveLater sound
        (serves.offer_serves matchingFirst) matchingLater
    rw [adds, List.map_cons, runAll_cons, served]
    exact ⟨List.forall_mem_cons.2 ⟨⟨outcome, rfl⟩, replies⟩, reached⟩

/-- Where any series ends: the unbeaten offers are retained. -/
theorem ends_of_interleaves {ε : Epsilons} {family : List (List Solution)}
    (policy : shared.archive.policy = .epsilonBox ε) (empty : shared.archive.retained = [])
    (serves : shared.archive.Serves w) (sound : shared.poisoned = false)
    (live : ∀ h < family.length, h ∈ shared.handles)
    (matching : ∀ s ∈ family.flatten, s.widths = w)
    (regular : ∀ s ∈ family.flatten, ε.Regular s) (h : Interleaves family series) :
    (∀ reply ∈ (shared.runAll (adds (α := α) series)).2, ∃ outcome, reply = .outcome outcome) ∧
      (shared.runAll (adds (α := α) series)).1.archive.stats.offered =
        shared.archive.stats.offered + family.flatten.length ∧
      (shared.runAll (adds (α := α) series)).1.archive.retained =
        ε.unbeaten (series.map Prod.snd) := by
  have matching' : ∀ s ∈ series.map Prod.snd, s.widths = w := fun s member =>
    matching s (h.perm.subset member)
  have comparable : ε.Comparable (series.map Prod.snd) :=
    Epsilons.Comparable.perm ⟨regular, w, matching⟩ h.perm
  have live' : ∀ p ∈ series, p.1 ∈ shared.handles := fun p member =>
    live p.1 (h.handle_lt p member)
  obtain ⟨replies, reached⟩ := runAll_adds (α := α) live' sound serves fun p member =>
    matching' p.2 (List.mem_map_of_mem member)
  refine ⟨replies, ?_, ?_⟩
  · rw [reached, serves.offered_foldl_offer matching', h.perm.length_eq]
  · rw [reached, (serves.foldl_offer matching').2.2, policy, empty,
      Epsilons.foldl_retainedAfter comparable]

/-- Whatever series the offers of all handles make, the same number of them is counted, and the same
places are retained: the same solutions, when only equal ones are tied. -/
theorem retained_interleavings (ε : Epsilons) (shared : SharedArchive) (w : Widths)
    (family : List (List Solution)) (policy : shared.archive.policy = .epsilonBox ε)
    (empty : shared.archive.retained = []) (fits : ε.fits w.objectives = true)
    (widths : shared.archive.widths = none ∨ shared.archive.widths = some w)
    (sound : shared.poisoned = false) (live : ∀ h < family.length, h ∈ shared.handles)
    (matching : ∀ s ∈ family.flatten, s.widths = w)
    (regular : ∀ s ∈ family.flatten, ε.Regular s) {series series' : List (Nat × Solution)}
    (hs : Interleaves family series) (hs' : Interleaves family series') :
    let ran := shared.runAll (adds (α := α) series)
    let ran' := shared.runAll (adds (α := α) series')
    (∀ reply ∈ ran.2 ++ ran'.2, ∃ outcome, reply = .outcome outcome) ∧
      ran.1.archive.stats.offered = shared.archive.stats.offered + family.flatten.length ∧
      ran'.1.archive.stats.offered = ran.1.archive.stats.offered ∧
      Multiset.Rel ε.Tied ran'.1.archive.retained ran.1.archive.retained ∧
      ((∀ s ∈ family.flatten, ∀ t ∈ family.flatten, ε.Tied s t → s = t) →
        ran'.1.archive.retained.Perm ran.1.archive.retained) := by
  intro ran ran'
  have serves : shared.archive.Serves w := ⟨by rw [policy, Policy.accept, if_pos fits], widths⟩
  have ends {series : List (Nat × Solution)} (h : Interleaves family series) :=
    ends_of_interleaves (α := α) policy empty serves sound live matching regular h
  obtain ⟨replies, offered, retained⟩ := ends hs
  obtain ⟨replies', offered', retained'⟩ := ends hs'
  have comparable : ε.Comparable (series.map Prod.snd) :=
    Epsilons.Comparable.perm ⟨regular, w, matching⟩ hs.perm
  have tied : Multiset.Rel ε.Tied ran'.1.archive.retained ran.1.archive.retained := by
    rw [retained, retained']
    exact Epsilons.unbeaten_rel_tied comparable (hs'.perm.trans hs.perm.symm)
  refine ⟨List.forall_mem_append.2 ⟨replies, replies'⟩, offered, offered'.trans offered.symm, tied,
    fun distinct => Multiset.coe_eq_coe.1 (Multiset.rel_eq.1 (tied.mono ?_))⟩
  intro s member t member'
  rw [retained'] at member
  rw [retained] at member'
  exact distinct s (hs'.perm.subset (Epsilons.mem_of_mem_unbeaten (Multiset.mem_coe.1 member)))
    t (hs.perm.subset (Epsilons.mem_of_mem_unbeaten (Multiset.mem_coe.1 member')))

end SharedArchive

/-- Two callers offer one and the same solution among others: the counts of improvements differ. -/
theorem retained_interleavings_twoHandles :
    let ε : Epsilons := ⟨[1], by decide, by decide⟩
    let shared := ((SharedArchive.ofArchive (.epsilonBox ε)).serve 0 (.clone : Request Unit)).1
    let family : List (List Solution) :=
      [[.ofObjectives [3, 3], .ofObjectives [2.5, 2.5]], [.ofObjectives [0, 9],
        .ofObjectives [2.5, 2.5]]]
    let turns : List (Nat × Solution) :=
      [(0, .ofObjectives [3, 3]), (0, .ofObjectives [2.5, 2.5]), (1, .ofObjectives [0, 9]),
        (1, .ofObjectives [2.5, 2.5])]
    let turns' : List (Nat × Solution) :=
      [(1, .ofObjectives [0, 9]), (1, .ofObjectives [2.5, 2.5]), (0, .ofObjectives [3, 3]),
        (0, .ofObjectives [2.5, 2.5])]
    let ran := shared.runAll (SharedArchive.adds (α := Unit) turns)
    let ran' := shared.runAll (SharedArchive.adds (α := Unit) turns')
    Interleaves family turns ∧ Interleaves family turns' ∧
      ran.1.archive.stats.improvements = 3 ∧ ran'.1.archive.stats.improvements = 2 ∧
      ran'.1.archive.stats.offered = ran.1.archive.stats.offered ∧
      ran.1.archive.objectives = [[2.5, 2.5], [0, 9]] ∧
      ran'.1.archive.retained.Perm ran.1.archive.retained := by
  intro ε shared family turns turns' ran ran'
  have first : Interleaves family turns :=
    .step rfl (.step rfl (.step rfl (.step rfl (.done (by decide)))))
  have second : Interleaves family turns' :=
    .step rfl (.step rfl (.step rfl (.step rfl (.done (by decide)))))
  have distinct : ∀ s ∈ family.flatten, ∀ t ∈ family.flatten, ε.Tied s t → s = t := by
    intro s hs t ht tied
    simp only [family, List.flatten_cons, List.flatten_nil, List.cons_append, List.nil_append,
      List.mem_cons, List.not_mem_nil, or_false] at hs ht
    obtain rfl | rfl | rfl | rfl := hs <;> obtain rfl | rfl | rfl | rfl := ht <;>
      first | rfl | exact absurd tied (by decide)
  obtain ⟨-, -, offered, -, same⟩ :=
    SharedArchive.retained_interleavings (α := Unit) ε shared ⟨2, 0⟩ family rfl rfl rfl (.inl rfl)
      rfl (by decide) (by decide) (by decide) first second
  exact ⟨first, second, by decide, by decide, offered, by decide, same distinct⟩

end ParetoFront
