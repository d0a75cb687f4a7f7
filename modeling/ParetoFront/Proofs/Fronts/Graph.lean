import Mathlib.Data.List.Nodup
import ParetoFront.Fronts.Basic

/-!
# Domination graphs of pools

The graph of a pool compares each pair once, the earlier solution on the left, and has an edge to
the side that loses. For a comparator that says the same from both sides its edges are all pairs of
positions of which the first dominates the second. Counting edges by their sources splits along any
split of the sources, which is what the loop that peels a graph relies on.

## Main definitions

- `Comparator.AnswersOn` — the comparator answers what a pool asks
- `Comparator.AntisymmetricOn` — the comparator answers, and says the same from both sides
- `winsAt` — the edges between positions of a pool
- `dominatesAt` — domination between positions of a pool
- `DominationGraph.dominatorsAmong` — the number of edges into a node from some of the nodes

## Main statements

- `DominationGraph.count_flatMap_losers` — a front meets each node once for each edge into it
- `DominationGraph.ofPool_eq_ok` — the graph of a pool exists and is `winsAt`
- `Comparator.AntisymmetricOn.winsAt_eq` — which is `dominatesAt` when both sides say the same
-/

namespace ParetoFront

/-- The comparator answers for each pair of the pool, the earlier solution on the left. -/
def Comparator.AnswersOn (compare : Comparator) (pool : List Solution) : Prop :=
  pool.Pairwise fun a b => ∃ d : Dominance, compare a b = .ok d

/-- On the solutions of the pool the comparator answers, and says the same from both sides. -/
def Comparator.AntisymmetricOn (compare : Comparator) (pool : List Solution) : Prop :=
  ∀ a ∈ pool, ∀ b ∈ pool, ∃ d : Dominance, compare a b = .ok d ∧ compare b a = .ok d.swap

/-- The answer of the comparator, where a fault leaves both sides undominated. -/
def Comparator.answer (compare : Comparator) (a b : Solution) : Dominance :=
  match compare a b with
  | .ok d => d
  | .error _ => .neither

theorem Comparator.answer_of_ok {compare : Comparator} {a b : Solution} {d : Dominance}
    (h : compare a b = .ok d) : compare.answer a b = d := by
  rw [answer, h]

theorem Comparator.AntisymmetricOn.answersOn {compare : Comparator} {pool : List Solution}
    (h : compare.AntisymmetricOn pool) : compare.AnswersOn pool := by
  refine List.pairwise_of_forall_mem_list ?_
  intro a left b right
  obtain ⟨d, forward, -⟩ := h a left b right
  exact ⟨d, forward⟩

theorem Comparator.AntisymmetricOn.answer_swap {compare : Comparator} {pool : List Solution}
    (h : compare.AntisymmetricOn pool) {a b : Solution} (left : a ∈ pool) (right : b ∈ pool) :
    compare.answer b a = (compare.answer a b).swap := by
  obtain ⟨d, forward, backward⟩ := h a left b right
  rw [answer_of_ok forward, answer_of_ok backward]

/-- The solution at `i` dominates the solution at `j`, another position of the pool. -/
def dominatesAt (compare : Comparator) (pool : List Solution) (i j : Nat) : Bool :=
  match pool[i]?, pool[j]? with
  | some a, some b => decide (i ≠ j ∧ compare.answer a b = .left)
  | _, _ => false

theorem dominatesAt_iff {compare : Comparator} {pool : List Solution} {i j : Nat} :
    dominatesAt compare pool i j = true ↔
      i ≠ j ∧ ∃ a b, pool[i]? = some a ∧ pool[j]? = some b ∧ compare.answer a b = .left := by
  rw [dominatesAt]
  cases pool[i]? <;> cases pool[j]? <;> simp

@[simp] theorem dominatesAt_self (compare : Comparator) (pool : List Solution) (i : Nat) :
    dominatesAt compare pool i i = false :=
  eq_false_of_ne_true fun wins => (dominatesAt_iff.1 wins).1 rfl

theorem lt_of_dominatesAt {compare : Comparator} {pool : List Solution} {i j : Nat}
    (h : dominatesAt compare pool i j = true) : i < pool.length ∧ j < pool.length := by
  obtain ⟨-, a, b, atI, atJ, -⟩ := dominatesAt_iff.1 h
  exact ⟨(List.getElem?_eq_some_iff.1 atI).1, (List.getElem?_eq_some_iff.1 atJ).1⟩

/-- The comparison of the solutions at `i` and `j`, the earlier one on the left, is won by `i`. -/
def winsAt (compare : Comparator) (pool : List Solution) (i j : Nat) : Bool :=
  match pool[i]?, pool[j]? with
  | some a, some b =>
    decide (i < j ∧ compare.answer a b = .left ∨ j < i ∧ compare.answer b a = .right)
  | _, _ => false

theorem winsAt_iff {compare : Comparator} {pool : List Solution} {i j : Nat} :
    winsAt compare pool i j = true ↔ ∃ a b, pool[i]? = some a ∧ pool[j]? = some b ∧
      (i < j ∧ compare.answer a b = .left ∨ j < i ∧ compare.answer b a = .right) := by
  rw [winsAt]
  cases pool[i]? <;> cases pool[j]? <;> simp

theorem lt_of_winsAt {compare : Comparator} {pool : List Solution} {i j : Nat}
    (h : winsAt compare pool i j = true) : i < pool.length ∧ j < pool.length := by
  obtain ⟨a, b, atI, atJ, -⟩ := winsAt_iff.1 h
  exact ⟨(List.getElem?_eq_some_iff.1 atI).1, (List.getElem?_eq_some_iff.1 atJ).1⟩

/-- When both sides say the same, it does not matter which solution is on the left. -/
theorem Comparator.AntisymmetricOn.winsAt_eq {compare : Comparator} {pool : List Solution}
    (h : compare.AntisymmetricOn pool) : winsAt compare pool = dominatesAt compare pool := by
  funext i j
  rw [winsAt, dominatesAt]
  cases atI : pool[i]? with
  | none => rfl
  | some a =>
    cases atJ : pool[j]? with
    | none => rfl
    | some b =>
      refine decide_eq_decide.2 ?_
      rw [h.answer_swap (List.mem_of_getElem? atI) (List.mem_of_getElem? atJ)]
      cases compare.answer a b with
      | left => simp only [Dominance.swap, and_true, Nat.ne_iff_lt_or_gt]
      | right => simp [Dominance.swap]
      | neither => simp [Dominance.swap]

namespace DominationGraph

variable (g : DominationGraph)

/-- There is an edge from `i` to `j`. -/
def beats (i j : Nat) : Bool :=
  decide ((i, j) ∈ g.edges)

/-- All edges are between nodes. -/
def InRange : Prop :=
  ∀ e ∈ g.edges, e.1 < g.size ∧ e.2 < g.size

/-- The number of edges from `nodes` to `j`. -/
def dominatorsAmong (nodes : List Nat) (j : Nat) : Nat :=
  g.edges.countP fun e => decide (e.2 = j ∧ e.1 ∈ nodes)

variable {g}

theorem dominatorsAmong_eq_zero_iff {nodes : List Nat} {j : Nat} :
    g.dominatorsAmong nodes j = 0 ↔ ∀ i ∈ nodes, g.beats i j = false := by
  simp only [dominatorsAmong, List.countP_eq_zero, decide_eq_true_eq, beats,
    decide_eq_false_iff_not]
  constructor
  · intro absent i member edge
    exact absent (i, j) edge ⟨rfl, member⟩
  · rintro absent ⟨i, k⟩ edge ⟨rfl, member⟩
    exact absent i member edge

theorem dominatorCount_eq (inRange : g.InRange) (j : Nat) :
    g.dominatorCount j = g.dominatorsAmong (List.range g.size) j := by
  refine List.countP_congr ?_
  intro e edge
  simp [inRange e edge]

theorem dominatorsAmong_eq_zero_of_le (inRange : g.InRange) (nodes : List Nat) {j : Nat}
    (h : g.size ≤ j) : g.dominatorsAmong nodes j = 0 := by
  refine dominatorsAmong_eq_zero_iff.2 fun i _ => decide_eq_false ?_
  intro edge
  exact Nat.not_lt.2 h (inRange _ edge).2

end DominationGraph

/-- A function that faults nowhere on a list. -/
theorem mapM_eq_ok {α β : Type} {f : α → Except Fault β} {g : α → β} {xs : List α}
    (h : ∀ x ∈ xs, f x = .ok (g x)) : xs.mapM f = .ok (xs.map g) := by
  induction xs with
  | nil => rfl
  | cons x xs ih =>
    obtain ⟨first, others⟩ := List.forall_mem_cons.1 h
    rw [List.mapM_cons, first, ih others]
    rfl

/-- A function that has answered for a list faults nowhere on it. -/
theorem exists_of_mapM_eq_ok {α β : Type} {f : α → Except Fault β} {xs : List α} {ys : List β}
    (answered : xs.mapM f = .ok ys) : ∀ x ∈ xs, ∃ y, f x = .ok y := by
  induction xs generalizing ys with
  | nil => exact List.forall_mem_nil _
  | cons x xs ih =>
    rw [List.mapM_cons] at answered
    obtain ⟨y, first, answered⟩ := bind_eq_ok_iff.1 answered
    obtain ⟨later, others, -⟩ := bind_eq_ok_iff.1 answered
    exact List.forall_mem_cons.2 ⟨⟨y, first⟩, ih others⟩

/-- Counts of exclusive conditions add up. -/
theorem countP_add_countP_of_disjoint {α : Type} (p q r : α → Bool) (xs : List α)
    (split : ∀ x, r x = true ↔ p x = true ∨ q x = true)
    (disjoint : ∀ x, p x = true → q x = true → False) :
    xs.countP p + xs.countP q = xs.countP r := by
  induction xs with
  | nil => rfl
  | cons x xs ih =>
    have := split x
    have := disjoint x
    simp only [List.countP_cons]
    grind

namespace DominationGraph

variable {g : DominationGraph}

/-- Dominators among some nodes are among the part taken or among the part left. -/
theorem dominatorsAmong_add_dominatorsAmong {rest front left : List Nat}
    (split : ∀ i, i ∈ rest ↔ i ∈ front ∨ i ∈ left) (disjoint : ∀ i ∈ front, i ∉ left) (j : Nat) :
    g.dominatorsAmong front j + g.dominatorsAmong left j = g.dominatorsAmong rest j := by
  refine countP_add_countP_of_disjoint _ _ _ _ ?_ ?_
  · intro e
    simp only [decide_eq_true_eq, split]
    tauto
  · intro e inFront inLeft
    simp only [decide_eq_true_eq] at inFront inLeft
    exact disjoint _ inFront.2 inLeft.2

theorem count_losers (i j : Nat) : (g.losers i).count j = g.dominatorsAmong [i] j := by
  rw [losers, List.count_eq_countP, List.countP_filterMap, dominatorsAmong]
  refine List.countP_congr ?_
  intro e _
  by_cases h : e.1 = i <;> simp [h]

/-- What a front dominates, taken together, holds each node once for each edge into it. -/
theorem count_flatMap_losers {front : List Nat} (nodup : front.Nodup) (j : Nat) :
    (front.flatMap g.losers).count j = g.dominatorsAmong front j := by
  induction front with
  | nil => exact (dominatorsAmong_eq_zero_iff.2 (by simp)).symm
  | cons i front ih =>
    obtain ⟨fresh, nodup⟩ := List.nodup_cons.1 nodup
    rw [List.flatMap_cons, List.count_append, count_losers, ih nodup]
    refine dominatorsAmong_add_dominatorsAmong (by simp) ?_ j
    intro k member
    rwa [List.mem_singleton.1 member]

variable {compare : Comparator}

theorem mapM_compare_eq {s : Solution} {rest : List Solution}
    (answers : ∀ b ∈ rest, ∃ d, compare s b = .ok d) :
    rest.mapM (compare s) = .ok (rest.map (compare.answer s)) := by
  refine mapM_eq_ok ?_
  intro b member
  obtain ⟨d, isOk⟩ := answers b member
  rw [isOk, Comparator.answer_of_ok isOk]

theorem edge_eq_some_iff {i j x y : Nat} {d : Dominance} :
    edge i d j = some (x, y) ↔ d = .left ∧ x = i ∧ y = j ∨ d = .right ∧ x = j ∧ y = i := by
  cases d <;> simp [edge, eq_comm]

@[simp] theorem winsAt_self (pool : List Solution) (i : Nat) : winsAt compare pool i i = false :=
  Bool.eq_false_iff.2 fun h => by
    obtain ⟨a, b, -, -, ⟨before, -⟩ | ⟨after, -⟩⟩ := winsAt_iff.1 h
    · exact Nat.lt_irrefl i before
    · exact Nat.lt_irrefl i after

@[simp] theorem winsAt_succ_succ (s : Solution) (rest : List Solution) (i j : Nat) :
    winsAt compare (s :: rest) (i + 1) (j + 1) = winsAt compare rest i j := by
  simp [winsAt]

theorem winsAt_zero_succ_iff {s : Solution} {rest : List Solution} {k : Nat} :
    winsAt compare (s :: rest) 0 (k + 1) = true ↔
      ∃ b, rest[k]? = some b ∧ compare.answer s b = .left := by
  simp [winsAt_iff]

theorem winsAt_succ_zero_iff {s : Solution} {rest : List Solution} {k : Nat} :
    winsAt compare (s :: rest) (k + 1) 0 = true ↔
      ∃ b, rest[k]? = some b ∧ compare.answer s b = .right := by
  simp [winsAt_iff]

/-- The edges at the first solution are those of the pairs that it is in. -/
theorem mem_firstEdges_iff {s : Solution} {rest : List Solution} (i : Nat) (e : Nat × Nat) :
    e ∈ ((rest.map (compare.answer s)).zipIdx (i + 1)).filterMap (fun (d, j) => edge i d j) ↔
      ∃ k, e = (i, i + (k + 1)) ∧ winsAt compare (s :: rest) 0 (k + 1) = true ∨
        e = (i + (k + 1), i) ∧ winsAt compare (s :: rest) (k + 1) 0 = true := by
  obtain ⟨x, y⟩ := e
  simp only [List.mem_filterMap, Prod.exists, List.mk_mem_zipIdx_iff_le_and_getElem?_sub,
    List.getElem?_map, Option.map_eq_some_iff, edge_eq_some_iff, Prod.mk.injEq,
    winsAt_zero_succ_iff, winsAt_succ_zero_iff]
  constructor
  · rintro ⟨d, j, ⟨after, b, atJ, answer⟩, isEdge⟩
    refine ⟨j - (i + 1), ?_⟩
    -- the numbering of the later solutions starts at `i + 1`
    have position : i + (j - (i + 1) + 1) = j := by omega
    rw [position]
    obtain ⟨rfl, ends⟩ | ⟨rfl, ends⟩ := isEdge
    · exact .inl ⟨ends, b, atJ, answer⟩
    · exact .inr ⟨ends, b, atJ, answer⟩
  · rintro ⟨k, ⟨ends, b, atK, answer⟩ | ⟨ends, b, atK, answer⟩⟩
    all_goals
      have position : i + (k + 1) - (i + 1) = k := by omega
      refine ⟨_, i + (k + 1), ⟨by omega, b, by rwa [position], answer⟩, ?_⟩
    · exact .inl ⟨rfl, ends⟩
    · exact .inr ⟨rfl, ends⟩

/-- The edges among a part of the pool lead from the winners of its pairs to the losers. -/
theorem edgesFrom_eq_ok {pool : List Solution} (answers : compare.AnswersOn pool) (i : Nat) :
    ∃ edges, edgesFrom compare i pool = .ok edges ∧ ∀ e, e ∈ edges ↔
      ∃ x y, e = (i + x, i + y) ∧ winsAt compare pool x y = true := by
  induction pool generalizing i with
  | nil => exact ⟨[], rfl, by simp [winsAt]⟩
  | cons s rest ih =>
    obtain ⟨first, later⟩ := List.pairwise_cons.1 answers
    obtain ⟨edges, isOk, isEdge⟩ := ih later (i + 1)
    refine ⟨_, by rw [edgesFrom, mapM_compare_eq first, isOk]; rfl, ?_⟩
    intro e
    have shift (x y : Nat) : (i + 1 + x, i + 1 + y) = (i + (x + 1), i + (y + 1)) := by
      simp only [Nat.add_assoc, Nat.add_comm 1]
    -- a pair has the first solution in it, or its positions count on from the second
    rw [List.mem_append, mem_firstEdges_iff, isEdge]
    constructor
    · rintro (⟨k, ⟨rfl, h⟩ | ⟨rfl, h⟩⟩ | ⟨x, y, rfl, h⟩)
      · exact ⟨0, k + 1, rfl, h⟩
      · exact ⟨k + 1, 0, rfl, h⟩
      · exact ⟨x + 1, y + 1, shift x y, by rwa [winsAt_succ_succ]⟩
    · rintro ⟨x, y, rfl, h⟩
      match x, y with
      | 0, 0 => simp at h
      | 0, k + 1 => exact .inl ⟨k, .inl ⟨rfl, h⟩⟩
      | k + 1, 0 => exact .inl ⟨k, .inr ⟨rfl, h⟩⟩
      | x + 1, y + 1 =>
        rw [winsAt_succ_succ] at h
        exact .inr ⟨x, y, (shift x y).symm, h⟩

/-- There are no edges to speak of unless the comparator has answered. -/
theorem answersOn_of_edgesFrom {pool : List Solution} {i : Nat} {edges : List (Nat × Nat)}
    (isOk : edgesFrom compare i pool = .ok edges) : compare.AnswersOn pool := by
  induction pool generalizing i edges with
  | nil => exact .nil
  | cons s rest ih =>
    obtain ⟨outcomes, first, isOk⟩ := bind_eq_ok_iff.1 isOk
    obtain ⟨later, others, -⟩ := bind_eq_ok_iff.1 isOk
    exact .cons (exists_of_mapM_eq_ok first) (ih others)

/-- The graph of a pool has an edge from the winner to the loser of each pair that has them. -/
theorem ofPool_eq_ok {pool : List Solution} (answers : compare.AnswersOn pool) :
    ∃ g, ofPool compare pool = .ok g ∧ g.size = pool.length ∧ g.InRange ∧
      g.beats = winsAt compare pool := by
  obtain ⟨edges, isOk, isEdge⟩ := edgesFrom_eq_ok answers 0
  simp only [Nat.zero_add] at isEdge
  refine ⟨⟨pool.length, edges⟩, by rw [ofPool, isOk]; rfl, rfl, ?_, ?_⟩
  · intro e member
    obtain ⟨x, y, rfl, h⟩ := (isEdge e).1 member
    exact lt_of_winsAt h
  · funext i j
    rw [Bool.eq_iff_iff, beats, decide_eq_true_eq, isEdge]
    simp

end DominationGraph

end ParetoFront
