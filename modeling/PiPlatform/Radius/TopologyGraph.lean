import Mathlib.Data.Finset.Basic
import PiPlatform.Library.Dict
import PiPlatform.Library.Worklist

/-! Topology graphs: fan-out, depth and what a node reaches.

The depth of a node is a recursion along its edges that stops at a node it came through, and
after 33 calls within each other. What a node reaches is found with a stack, and is all its edges
lead to (`mem_reachable`). -/
namespace PiPlatform.Radius

open Library Relation

structure TopologyNode where
  nodeId : String
  nodeType : String
  dependencies : List String
  authFields : List String
  mutationClass : String
  replayClass : String
  layerId : String
  deriving DecidableEq

structure TopologyEdge where
  edgeId : String
  upstream : String
  downstream : String
  deriving DecidableEq

structure TopologyGraph where
  graphId : String
  nodes : Dict String TopologyNode
  edges : List TopologyEdge

namespace TopologyGraph

def nodeIds (g : TopologyGraph) : List String := g.nodes.items.map Prod.fst

/-- The downstream ends of a node's edges, as they are listed. -/
def children (g : TopologyGraph) (nodeId : String) : List String :=
  (g.edges.filter (·.upstream = nodeId)).map (·.downstream)

def fanout (g : TopologyGraph) (nodeId : String) : Nat :=
  g.edges.countP (·.upstream = nodeId)

/-- `depth_from`, with the calls that may still be made within each other. -/
def depthWithin (g : TopologyGraph) : Nat → List String → String → Nat
  | 0, _, _ => 0
  | k + 1, visited, nodeId =>
    if nodeId ∈ visited then 0
    else
      match g.children nodeId with
      | [] => 0
      | child :: others =>
        1 + ((child :: others).map (g.depthWithin k (nodeId :: visited))).foldl max 0

def depthFrom (g : TopologyGraph) (nodeId : String) : Nat := g.depthWithin 33 [] nodeId

/-- More turns than the frontier takes to become empty. -/
def turns (g : TopologyGraph) : Nat := 1 + (g.edges.length + 1) * g.edges.length

def reachable (g : TopologyGraph) (nodeId : String) : Finset String :=
  (Worklist.after .stack g.children g.turns (Worklist.start nodeId)).visited.toFinset.erase nodeId

theorem length_children (g : TopologyGraph) (nodeId : String) :
    (g.children nodeId).length = g.fanout nodeId := by
  rw [children, List.length_map, fanout, List.countP_eq_length_filter]

theorem mem_children {g : TopologyGraph} {a b : String} :
    b ∈ g.children a ↔ ∃ e ∈ g.edges, e.upstream = a ∧ e.downstream = b := by
  simp [children, and_assoc]

theorem mem_reachable {g : TopologyGraph} {a b : String} :
    b ∈ g.reachable a ↔
      b ≠ a ∧ ReflTransGen (fun a b => ∃ e ∈ g.edges, e.upstream = a ∧ e.downstream = b) a b := by
  have hclosed : ∀ n ∈ a :: g.edges.map (·.downstream), ∀ m ∈ g.children n,
      m ∈ a :: g.edges.map (·.downstream) := by
    intro n _ m hm
    obtain ⟨e, he, -, rfl⟩ := mem_children.mp hm
    exact List.mem_cons_of_mem a (List.mem_map_of_mem he)
  have hturns : Worklist.measure g.children (a :: g.edges.map (·.downstream))
      (Worklist.start a) ≤ g.turns := by
    have hwidth : ∀ n ∈ a :: g.edges.map (·.downstream),
        (g.children n).length ≤ g.edges.length := by
      intro n _
      rw [length_children]
      exact List.countP_le_length
    refine (Worklist.measure_start_le a hwidth).trans (le_of_eq ?_)
    rw [turns, List.length_cons, List.length_map]
  obtain ⟨hdone, hsound⟩ := Worklist.after_of_measure (D := .stack) hclosed g.turns
    (Worklist.start a) (fun n hn => List.mem_singleton.mp hn ▸ List.mem_cons_self ..)
    (Worklist.sound_start a) hturns
  rw [reachable, Finset.mem_erase, List.mem_toFinset, hsound.exact hdone, Worklist.Leads]
  simp only [mem_children]

end TopologyGraph

end PiPlatform.Radius
