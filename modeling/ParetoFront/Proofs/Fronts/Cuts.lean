import ParetoFront.Proofs.Fronts.Layers

/-!
# Cutting a series of fronts

The fronts of a strict order hold the longest chains: below any front each node is beaten by a node
of it. When the fronts are cut, so that whole ones are kept up to one of which only a part is kept,
what is kept has the very same fronts when it is peeled alone, in whatever order it lists the last
one.

## Main definitions

- `IsCut` — the first of some groups, the last of them in part
- `AreFronts` — what makes a series of groups the fronts of its members

## Main statements

- `nextFront_append`, `leftOver_append` — one round
- `naiveFronts_flatten` — the members of such a series have it as their fronts
- `areFronts_naiveFronts` — the fronts of a strict order are such a series
- `naiveFronts_flatten_of_isCut` — and so are the fronts that are kept
-/

namespace ParetoFront

/-! ### Cuts -/

/-- The groups `kept` are the first ones of `groups`; of the last of them there may be some members
only, in another order. -/
inductive IsCut {α : Type} : List (List α) → List (List α) → Prop
  | nothing (groups : List (List α)) : IsCut [] groups
  | part {some group : List α} (later : List (List α)) (nonempty : some ≠ [])
      (inside : some.Subperm group) (fewer : some.length < group.length) :
      IsCut [some] (group :: later)
  | whole {kept later : List (List α)} (group : List α) (rest : IsCut kept later) :
      IsCut (group :: kept) (group :: later)

namespace IsCut

variable {α β : Type} {kept groups : List (List α)}

theorem map (f : α → β) (cut : IsCut kept groups) :
    IsCut (kept.map (List.map f)) (groups.map (List.map f)) := by
  induction cut with
  | nothing groups => exact .nothing _
  | part later nonempty inside fewer =>
    obtain ⟨listed, perm, sublist⟩ := inside
    refine .part _ (fun nothing => nonempty (List.map_eq_nil_iff.1 nothing))
      ⟨listed.map f, perm.map f, sublist.map f⟩ ?_
    rwa [List.length_map, List.length_map]
  | whole group _ ih => exact .whole _ ih

/-- A group that is kept is whole, or some of its members are missing. -/
theorem of_getElem? (cut : IsCut kept groups) {r : Nat} {rows : List α}
    (here : kept[r]? = some rows) : ∃ group, groups[r]? = some group ∧
      (rows = group ∨ rows.Subperm group ∧ rows.length < group.length) := by
  induction cut generalizing r with
  | nothing groups => cases here
  | part later _ inside fewer =>
    cases r with
    | zero =>
      obtain rfl := Option.some.inj here
      exact ⟨_, rfl, .inr ⟨inside, fewer⟩⟩
    | succ r => cases here
  | whole group _ ih =>
    cases r with
    | zero =>
      obtain rfl := Option.some.inj here
      exact ⟨_, rfl, .inl rfl⟩
    | succ r => exact ih here

/-- Each group that is kept is a part of one of the groups. -/
theorem exists_subset (cut : IsCut kept groups) {rows : List α} (member : rows ∈ kept) :
    ∃ group ∈ groups, rows ⊆ group := by
  obtain ⟨r, here⟩ := List.mem_iff_getElem?.1 member
  obtain ⟨group, there, same | ⟨inside, -⟩⟩ := cut.of_getElem? here
  · exact ⟨group, List.mem_of_getElem? there, same ▸ List.Subset.refl _⟩
  · exact ⟨group, List.mem_of_getElem? there, inside.subset⟩

theorem flatten_subperm (cut : IsCut kept groups) : kept.flatten.Subperm groups.flatten := by
  induction cut with
  | nothing groups => exact List.nil_subperm
  | @part some group later _ inside _ =>
    rw [List.flatten_cons, List.flatten_nil, List.append_nil, List.flatten_cons]
    exact inside.trans (List.sublist_append_left _ _).subperm
  | whole group _ ih =>
    rw [List.flatten_cons, List.flatten_cons]
    exact (List.subperm_append_left group).2 ih

end IsCut

/-! ### Fronts -/

/-- Nonempty groups in which no member beats another, and each of which beats all members of the
later groups and is beaten by none. -/
structure AreFronts (beats : Nat → Nat → Bool) (fronts : List (List Nat)) : Prop where
  nonempty : ∀ front ∈ fronts, front ≠ []
  apart : ∀ front ∈ fronts, ∀ i ∈ front, ∀ j ∈ front, beats i j = false
  ordered : fronts.Pairwise fun front later =>
    (∀ j ∈ later, ∃ i ∈ front, beats i j = true) ∧ ∀ j ∈ later, ∀ i ∈ front, beats j i = false

variable {beats : Nat → Nat → Bool} {fronts kept : List (List Nat)} {front rest : List Nat}

theorem areFronts_nil : AreFronts beats [] :=
  ⟨List.forall_mem_nil _, List.forall_mem_nil _, .nil⟩

theorem areFronts_cons_iff : AreFronts beats (front :: fronts) ↔
    (front ≠ [] ∧ (∀ i ∈ front, ∀ j ∈ front, beats i j = false) ∧
      ∀ later ∈ fronts, (∀ j ∈ later, ∃ i ∈ front, beats i j = true) ∧
        ∀ j ∈ later, ∀ i ∈ front, beats j i = false) ∧ AreFronts beats fronts := by
  constructor
  · rintro ⟨nonempty, apart, ordered⟩
    obtain ⟨first, nonempty⟩ := List.forall_mem_cons.1 nonempty
    obtain ⟨alone, apart⟩ := List.forall_mem_cons.1 apart
    obtain ⟨before, ordered⟩ := List.pairwise_cons.1 ordered
    exact ⟨⟨first, alone, before⟩, nonempty, apart, ordered⟩
  · rintro ⟨⟨first, alone, before⟩, nonempty, apart, ordered⟩
    exact ⟨List.forall_mem_cons.2 ⟨first, nonempty⟩, List.forall_mem_cons.2 ⟨alone, apart⟩,
      List.pairwise_cons.2 ⟨before, ordered⟩⟩

section Round

variable (nonempty : front ≠ [])
  (unbeaten : ∀ i ∈ front, ∀ j ∈ front ++ rest, beats j i = false)
  (beaten : ∀ j ∈ rest, ∃ i ∈ front, beats i j = true)
include nonempty unbeaten beaten

theorem nextFront_append : nextFront beats (front ++ rest) = front := by
  have all : front.filter (fun j => !(front ++ rest).any fun i => beats i j) = front :=
    List.filter_eq_self.2 fun i inFront => by
      simpa only [Bool.not_eq_true', List.any_eq_false, Bool.not_eq_true] using unbeaten i inFront
  have none : rest.filter (fun j => !(front ++ rest).any fun i => beats i j) = [] :=
    List.filter_eq_nil_iff.2 fun j inRest => by
      obtain ⟨i, inFront, wins⟩ := beaten j inRest
      simpa only [Bool.not_eq_true', Bool.not_eq_false, List.any_eq_true] using
        ⟨i, List.mem_append_left _ inFront, wins⟩
  have first : undominated beats (front ++ rest) = front := by
    rw [undominated, List.filter_append, all, none, List.append_nil]
  rw [nextFront_eq_undominated (by rwa [first]), first]

theorem leftOver_append : leftOver beats (front ++ rest) = rest := by
  have gone : front.filter (fun i => decide (i ∉ front)) = [] :=
    List.filter_eq_nil_iff.2 fun i inFront => by simpa using inFront
  have stays : rest.filter (fun i => decide (i ∉ front)) = rest :=
    List.filter_eq_self.2 fun j inRest => decide_eq_true fun inFront => by
      -- a member of both would be beaten by a member of its own front
      obtain ⟨i, inFront', wins⟩ := beaten j inRest
      have alone := unbeaten j inFront i (List.mem_append_left _ inFront')
      exact Bool.false_ne_true (alone.symm.trans wins)
  rw [leftOver, nextFront_append nonempty unbeaten beaten, List.filter_append, gone, stays,
    List.nil_append]

end Round

/-- The members of such a series have it as their fronts. -/
theorem naiveFronts_flatten (h : AreFronts beats fronts) :
    naiveFronts beats fronts.flatten = fronts := by
  induction fronts with
  | nil => exact naiveFronts_nil
  | cons front later ih =>
    obtain ⟨⟨nonempty, alone, before⟩, rest⟩ := areFronts_cons_iff.1 h
    have beaten : ∀ j ∈ later.flatten, ∃ i ∈ front, beats i j = true := fun j member => by
      obtain ⟨group, isLater, inGroup⟩ := List.mem_flatten.1 member
      exact (before group isLater).1 j inGroup
    have unbeaten : ∀ i ∈ front, ∀ j ∈ front ++ later.flatten, beats j i = false := by
      intro i inFront j member
      obtain inFront' | inLater := List.mem_append.1 member
      · exact alone j inFront' i inFront
      · obtain ⟨group, isLater, inGroup⟩ := List.mem_flatten.1 inLater
        exact (before group isLater).2 j inGroup i inFront
    have some : front ++ later.flatten ≠ [] := fun nothing =>
      nonempty (List.append_eq_nil_iff.1 nothing).1
    rw [List.flatten_cons, naiveFronts_of_ne_nil some, nextFront_append nonempty unbeaten beaten,
      leftOver_append nonempty unbeaten beaten, ih rest]

/-- What is left over by a strict order is beaten by what is taken. -/
theorem exists_undominated_beats (free : NeverStalls beats rest)
    (trans : ∀ i ∈ rest, ∀ j ∈ rest, ∀ k ∈ rest,
      beats i j = true → beats j k = true → beats i k = true)
    {j : Nat} (member : j ∈ rest) (beaten : j ∉ undominated beats rest) :
    ∃ i ∈ undominated beats rest, beats i j = true := by
  have inside : (rest.filter fun i => beats i j) ⊆ rest := List.filter_subset_self rest
  have some : (rest.filter fun i => beats i j) ≠ [] := fun nothing => beaten <|
    mem_undominated.2 ⟨member, fun i inRest =>
      eq_false_of_ne_true (List.filter_eq_nil_iff.1 nothing i inRest)⟩
  obtain ⟨i, first⟩ := List.exists_mem_of_ne_nil _ (free _ inside some)
  obtain ⟨inPart, unbeaten⟩ := mem_undominated.1 first
  obtain ⟨inRest, wins⟩ := List.mem_filter.1 inPart
  refine ⟨i, mem_undominated.2 ⟨inRest, fun k inRest' => ?_⟩, wins⟩
  -- whatever beats `i` beats `j` as well
  by_contra beats'
  rw [Bool.not_eq_false] at beats'
  have both : k ∈ rest.filter fun i => beats i j :=
    List.mem_filter.2 ⟨inRest', trans k inRest' i inRest j member beats' wins⟩
  exact Bool.false_ne_true ((unbeaten k both).symm.trans beats')

/-- The fronts of a strict order. -/
theorem areFronts_naiveFronts (irrefl : ∀ i ∈ rest, beats i i = false)
    (trans : ∀ i ∈ rest, ∀ j ∈ rest, ∀ k ∈ rest,
      beats i j = true → beats j k = true → beats i k = true) :
    AreFronts beats (naiveFronts beats rest) := by
  induction rest using naiveFronts.induct beats with
  | case1 => rw [naiveFronts_nil]; exact areFronts_nil
  | case2 rest nonempty ih =>
    have free := neverStalls_of_strictOrder irrefl trans
    have left := (@leftOver_sublist beats rest).subset
    have taken := nextFront_eq_undominated (free rest (List.Subset.refl rest) nonempty)
    rw [naiveFronts_of_ne_nil nonempty, areFronts_cons_iff]
    refine ⟨⟨nextFront_ne_nil nonempty, ?_, fun later isLater => ⟨?_, ?_⟩⟩,
      ih (fun i hi => irrefl i (left hi))
        fun i hi j hj k hk => trans i (left hi) j (left hj) k (left hk)⟩
    · rw [taken]
      exact fun i inFront j inFront' =>
        (mem_undominated.1 inFront').2 i (mem_undominated.1 inFront).1
    · intro j inLater
      obtain ⟨member, beaten⟩ :=
        mem_leftOver.1 ((sublist_of_mem_naiveFronts _ later isLater).subset inLater)
      rw [taken] at beaten ⊢
      exact exists_undominated_beats free trans member beaten
    · intro j inLater i inFront
      have member := left ((sublist_of_mem_naiveFronts _ later isLater).subset inLater)
      rw [taken] at inFront
      exact (mem_undominated.1 inFront).2 j member

theorem AreFronts.cut (h : AreFronts beats fronts) (cut : IsCut kept fronts) :
    AreFronts beats kept := by
  induction cut with
  | nothing => exact areFronts_nil
  | part later nonempty inside _ =>
    obtain ⟨⟨-, alone, -⟩, -⟩ := areFronts_cons_iff.1 h
    refine areFronts_cons_iff.2 ⟨⟨nonempty, fun i hi j hj => ?_, List.forall_mem_nil _⟩,
      areFronts_nil⟩
    exact alone i (inside.subset hi) j (inside.subset hj)
  | whole front cut ih =>
    obtain ⟨⟨nonempty, alone, before⟩, rest⟩ := areFronts_cons_iff.1 h
    refine areFronts_cons_iff.2 ⟨⟨nonempty, alone, fun part isKept => ?_⟩, ih rest⟩
    obtain ⟨group, isLater, inside⟩ := cut.exists_subset isKept
    obtain ⟨beaten, unbeaten⟩ := before group isLater
    exact ⟨fun j hj => beaten j (inside hj), fun j hj => unbeaten j (inside hj)⟩

/-- The fronts that are kept are the fronts of their members. -/
theorem naiveFronts_flatten_of_isCut (irrefl : ∀ i ∈ rest, beats i i = false)
    (trans : ∀ i ∈ rest, ∀ j ∈ rest, ∀ k ∈ rest,
      beats i j = true → beats j k = true → beats i k = true)
    (cut : IsCut kept (naiveFronts beats rest)) : naiveFronts beats kept.flatten = kept :=
  naiveFronts_flatten ((areFronts_naiveFronts irrefl trans).cut cut)

end ParetoFront
