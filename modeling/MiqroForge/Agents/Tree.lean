import Mathlib.Algebra.Order.Ring.Rat
import MiqroForge.Library.PyText
import MiqroForge.Library.Worklist

/-!
The spawn edges of `AgentGraphStore`, and the tree that `get_tree` reads off them.
-/

namespace MiqroForge.Agents

open PyText Worklist

/-- A row of `runtime_agent_edges`. -/
structure AgentEdgeRow where
  parentAgentId : Text
  childAgentId : Text
  childThreadId : Option Text
  createdAt : Rat

/-- The primary key of a row. -/
def AgentEdgeRow.key (e : AgentEdgeRow) : Text × Text := (e.parentAgentId, e.childAgentId)

/-- The table of the edges, in the order of their insertion. -/
structure EdgeStore where
  edges : List AgentEdgeRow := []
  unique : (edges.map AgentEdgeRow.key).Nodup := by simp

namespace EdgeStore

/-- `add_edge`: `INSERT OR IGNORE`. -/
def addEdge (s : EdgeStore) (e : AgentEdgeRow) : EdgeStore :=
  if h : e.key ∈ s.edges.map AgentEdgeRow.key then s
  else
    { edges := s.edges ++ [e]
      unique := by
        rw [List.map_append]
        refine List.nodup_append.mpr ⟨s.unique, List.nodup_singleton _, ?_⟩
        rintro k hk _ hk' rfl
        exact h (List.mem_singleton.mp hk' ▸ hk) }

/-- `get_children`, by the time of creation. -/
def getChildren (s : EdgeStore) (parent : Text) : List AgentEdgeRow :=
  (s.edges.filter (·.parentAgentId = parent)).mergeSort fun a b => a.createdAt ≤ b.createdAt

/-- An agent has spawned another. -/
def Spawned (s : EdgeStore) (parent child : Text) : Prop :=
  ∃ e ∈ s.edges, e.parentAgentId = parent ∧ e.childAgentId = child

theorem mem_children {s : EdgeStore} {parent child : Text} :
    child ∈ (s.getChildren parent).map AgentEdgeRow.childAgentId ↔ s.Spawned parent child := by
  simp [getChildren, Spawned, and_assoc]

/-- The edges as a graph. -/
def graph (s : EdgeStore) : Graph Text where
  children parent := (s.getChildren parent).map AgentEdgeRow.childAgentId
  nodes := s.edges.map AgentEdgeRow.childAgentId
  closed := by
    intro parent child hchild
    obtain ⟨e, he, -, rfl⟩ := mem_children.mp hchild
    exact List.mem_map_of_mem he

/-- `get_tree`: `Graph.round` is the body of its loop. -/
def getTree (s : EdgeStore) (rootAgentId : Text) : List Text := s.graph.search [] [rootAgentId]

theorem reachable_iff {s : EdgeStore} {root x : Text} :
    s.graph.Reachable root x ↔ Relation.ReflTransGen s.Spawned root x := by
  have hedge : (fun p c => c ∈ s.graph.children p) = s.Spawned :=
    funext fun p => funext fun c => propext mem_children
  rw [Graph.Reachable, hedge]

/-- **Spawn tree.** For any edges the loop ends, with the root first and each agent that the root
reaches exactly once. -/
theorem getTree_spec (s : EdgeStore) (root : Text) :
    (∃ n, s.graph.rounds n ⟨[], [root]⟩ = ⟨s.getTree root, []⟩) ∧
      (s.getTree root).head? = some root ∧ (s.getTree root).Nodup ∧
      ∀ x, x ∈ s.getTree root ↔ Relation.ReflTransGen s.Spawned root x := by
  have hinv := (Inv.start s.graph root).search
  exact ⟨s.graph.rounds_search [] [root], s.graph.head_search root, hinv.nodup,
    fun x => (hinv.done x).trans reachable_iff⟩

end EdgeStore

end MiqroForge.Agents
