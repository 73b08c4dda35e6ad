import Mathlib.Data.Finset.Card

/-!
Depth-first search with a stack that may hold a node several times. A node that is popped again is
expanded again; a node is only put on the stack while it is not in the result.
-/

namespace Worklist

open List

variable {α : Type} [DecidableEq α]

/-- A finite graph, given by the successors of each node. -/
structure Graph (α : Type) where
  children : α → List α
  nodes : List α
  closed : ∀ p, ∀ c ∈ children p, c ∈ nodes

/-- What the search has found, and its stack with the top first. -/
structure State (α : Type) where
  result : List α
  stack : List α

/-- The found nodes once `current` is popped. -/
def found (current : α) (result : List α) : List α :=
  if current ∈ result then result else result ++ [current]

/-- One round of the search, on the node that is popped and the rest of the stack. -/
def Graph.round (g : Graph α) (result : List α) (current : α) (rest : List α) : State α :=
  let result := found current result
  ⟨result, ((g.children current).filter (· ∉ result)).reverse ++ rest⟩

theorem mem_found {current x : α} {result : List α} :
    x ∈ found current result ↔ x = current ∨ x ∈ result := by
  unfold found
  split
  case isTrue h =>
    constructor
    · exact Or.inr
    · rintro (rfl | hx)
      · exact h
      · exact hx
  case isFalse => rw [mem_append, mem_singleton, or_comm]

theorem mem_round_stack {g : Graph α} {current x : α} {result rest : List α} :
    x ∈ (g.round result current rest).stack ↔
      (x ∈ g.children current ∧ x ∉ found current result) ∨ x ∈ rest := by
  simp [Graph.round]

/-! ## Termination -/

/-- The nodes that can still be found. -/
def Graph.unfound (g : Graph α) (s : State α) : Finset α :=
  (g.nodes ++ s.stack).toFinset \ s.result.toFinset

/-- The entries of the stack that are found already. -/
def stale (s : State α) : Nat := s.stack.countP (· ∈ s.result)

variable (g : Graph α)

theorem Graph.round_unfound (result : List α) (current : α) (rest : List α) :
    g.unfound (g.round result current rest) ⊆ g.unfound ⟨result, current :: rest⟩ := by
  intro x hx
  simp only [Graph.unfound, Finset.mem_sdiff, mem_toFinset, mem_append] at hx ⊢
  obtain ⟨hx, hnew⟩ := hx
  have hold : x ∉ result := fun h => hnew (mem_found.mpr (Or.inr h))
  refine ⟨?_, hold⟩
  rcases hx with hx | hx
  · exact Or.inl hx
  · rcases mem_round_stack.mp hx with ⟨hchild, -⟩ | hrest
    · exact Or.inl (g.closed current x hchild)
    · exact Or.inr (mem_cons_of_mem current hrest)

theorem Graph.round_decreases (result : List α) (current : α) (rest : List α) :
    Prod.Lex (· < ·) (· < ·)
      ((g.unfound (g.round result current rest)).card, stale (g.round result current rest))
      ((g.unfound ⟨result, current :: rest⟩).card, stale ⟨result, current :: rest⟩) := by
  have hsub := g.round_unfound result current rest
  by_cases hcur : current ∈ result
  · have hsame : found current result = result := if_pos hcur
    have hfresh : ((g.children current).filter (· ∉ result)).reverse.countP (· ∈ result) = 0 := by
      rw [countP_eq_zero]
      intro x hx
      simpa using (mem_filter.mp (mem_reverse.mp hx)).2
    have hstale : stale (g.round result current rest) < stale ⟨result, current :: rest⟩ := by
      simp only [stale, Graph.round, hsame, countP_append, hfresh, countP_cons, hcur]
      simp
    rcases (Finset.card_le_card hsub).eq_or_lt with heq | hlt
    · rw [heq]
      exact Prod.Lex.right _ hstale
    · exact Prod.Lex.left _ _ hlt
  · refine Prod.Lex.left _ _ (Finset.card_lt_card ⟨hsub, fun hback => ?_⟩)
    have hunfound : current ∈ g.unfound ⟨result, current :: rest⟩ := by
      simp [Graph.unfound, hcur]
    have := hback hunfound
    simp only [Graph.unfound, Finset.mem_sdiff, mem_toFinset] at this
    exact this.2 (mem_found.mpr (Or.inl rfl))

/-- The search from a state on: the nodes it finds, in the order in which it finds them. -/
def Graph.search (g : Graph α) (result : List α) : List α → List α
  | [] => result
  | current :: rest =>
    g.search (g.round result current rest).result (g.round result current rest).stack
termination_by stack => ((g.unfound ⟨result, stack⟩).card, stale ⟨result, stack⟩)
decreasing_by exact g.round_decreases result current rest

/-- The rounds of the search, one after the other. -/
def Graph.rounds (g : Graph α) : Nat → State α → State α
  | 0, s => s
  | n + 1, ⟨result, current :: rest⟩ => g.rounds n (g.round result current rest)
  | _ + 1, s => s

theorem Graph.rounds_search (result stack : List α) :
    ∃ n, g.rounds n ⟨result, stack⟩ = ⟨g.search result stack, []⟩ := by
  fun_induction g.search result stack with
  | case1 result => exact ⟨0, rfl⟩
  | case2 result current rest ih =>
    obtain ⟨n, hn⟩ := ih
    exact ⟨n + 1, hn⟩

/-! ## What is found -/

/-- `x` can be reached from `root`. -/
def Graph.Reachable (g : Graph α) (root x : α) : Prop :=
  Relation.ReflTransGen (fun p c => c ∈ g.children p) root x

/-- The invariant of the rounds. -/
structure Inv (g : Graph α) (root : α) (s : State α) : Prop where
  nodup : s.result.Nodup
  sound : ∀ x, x ∈ s.result ∨ x ∈ s.stack → g.Reachable root x
  started : root ∈ s.result ∨ root ∈ s.stack
  covered : ∀ p ∈ s.result, ∀ c ∈ g.children p, c ∈ s.result ∨ c ∈ s.stack

omit [DecidableEq α] in
theorem Inv.start (root : α) : Inv g root ⟨[], [root]⟩ where
  nodup := List.nodup_nil
  sound := by
    rintro x (hx | hx)
    · cases hx
    · rw [mem_singleton.mp hx]
      exact Relation.ReflTransGen.refl
  started := Or.inr mem_cons_self
  covered := fun _ hp => by cases hp

theorem found_nodup {current : α} {result : List α} (h : result.Nodup) :
    (found current result).Nodup := by
  unfold found
  split
  case isTrue => exact h
  case isFalse hcur =>
    refine nodup_append.mpr ⟨h, nodup_singleton _, ?_⟩
    rintro x hx y hy rfl
    exact hcur (mem_singleton.mp hy ▸ hx)

theorem Inv.round {g : Graph α} {root : α} {result rest : List α} {current : α}
    (h : Inv g root ⟨result, current :: rest⟩) : Inv g root (g.round result current rest) := by
  have hcurrent : g.Reachable root current := h.sound current (Or.inr mem_cons_self)
  -- What was on the stack is found now or still there.
  have hkeep : ∀ x, x ∈ result ∨ x ∈ current :: rest →
      x ∈ found current result ∨ x ∈ (g.round result current rest).stack := by
    rintro x (hx | hx)
    · exact Or.inl (mem_found.mpr (Or.inr hx))
    · rcases mem_cons.mp hx with rfl | hx
      · exact Or.inl (mem_found.mpr (Or.inl rfl))
      · exact Or.inr (mem_round_stack.mpr (Or.inr hx))
  refine ⟨found_nodup h.nodup, ?_, hkeep root h.started, ?_⟩
  · rintro x (hx | hx)
    · rcases mem_found.mp hx with rfl | hx
      · exact hcurrent
      · exact h.sound x (Or.inl hx)
    · rcases mem_round_stack.mp hx with ⟨hchild, -⟩ | hx
      · exact hcurrent.tail hchild
      · exact h.sound x (Or.inr (mem_cons_of_mem current hx))
  · intro p hp c hc
    rcases mem_found.mp hp with rfl | hp
    · by_cases hfound : c ∈ found p result
      · exact Or.inl hfound
      · exact Or.inr (mem_round_stack.mpr (Or.inl ⟨hc, hfound⟩))
    · exact hkeep c (h.covered p hp c hc)

omit [DecidableEq α] in
theorem Inv.done {g : Graph α} {root : α} {result : List α} (h : Inv g root ⟨result, []⟩) (x : α) :
    x ∈ result ↔ g.Reachable root x := by
  constructor
  · exact fun hx => h.sound x (Or.inl hx)
  · intro hx
    induction hx with
    | refl => exact h.started.resolve_right not_mem_nil
    | tail _ hc ih => exact (h.covered _ ih _ hc).resolve_right not_mem_nil

theorem Inv.search {g : Graph α} {root : α} {result stack : List α}
    (h : Inv g root ⟨result, stack⟩) : Inv g root ⟨g.search result stack, []⟩ := by
  fun_induction g.search result stack with
  | case1 result => exact h
  | case2 result current rest ih => exact ih h.round

theorem Graph.prefix_search (result stack : List α) :
    result <+: g.search result stack := by
  fun_induction g.search result stack with
  | case1 result => exact prefix_refl _
  | case2 result current rest ih =>
    refine List.IsPrefix.trans ?_ ih
    show result <+: found current result
    unfold found
    split
    · exact prefix_refl _
    · exact prefix_append _ _

theorem Graph.head_search (root : α) : (g.search [] [root]).head? = some root := by
  rw [Graph.search]
  obtain ⟨more, hmore⟩ := g.prefix_search (g.round [] root []).result (g.round [] root []).stack
  rw [← hmore]
  rfl

end Worklist
