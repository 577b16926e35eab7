import PiPlatform.Library.HopSearch
import PiPlatform.Library.StableSort
import PiPlatform.Library.System

/-! The unified topology, and what its adjacency says of its edges.

An edge is stored under an id made from its endpoints; the adjacency has a list for each node
that was added, and one that a dependency starts from. A step keeps the two in agreement unless
it stores an edge whose endpoint has no list yet, resets the list of a node that has neighbours,
or puts a link over one that leads elsewhere (`Keeps`, `mirrored_iff`). Where they agree, and
ids stand for one edge each, the reach of a node does not depend on the order of the calls
(`reach_invariant`). -/
namespace PiPlatform.ConnectorFabric

open Library

structure TopologyNode where
  nodeId : String
  nodeType : String
  system : String
  tenantId : String
  artifactHash : String
  deriving DecidableEq

structure TopologyEdge where
  edgeId : String
  fromNode : String
  toNode : String
  relation : String
  system : String
  bidirectional : Bool
  deriving DecidableEq

/-- An item of `payload["nodes"]`; a key that is missing is `none`. -/
structure RawNode where
  id : Option String
  type : Option String
  deriving DecidableEq

/-- An item of one of the other sections. -/
structure RawEdge where
  source : Option String
  target : Option String
  relation : Option String
  bidirectional : Option Bool
  deriving DecidableEq

def RawEdge.fromNode (raw : RawEdge) : String := raw.source.getD ""

def RawEdge.toNode (raw : RawEdge) : String := raw.target.getD ""

/-- What the topology reads of a `NormalizedArtifact`; a section that is missing is empty. -/
structure NormalizedArtifact where
  artifactHash : String
  sourceSystem : String
  tenantId : String
  nodes : List RawNode
  edges : List RawEdge
  relationships : List RawEdge
  dependencies : List RawEdge
  deriving DecidableEq

structure UnifiedTopologyGraph where
  nodes : Dict String TopologyNode
  edges : Dict String TopologyEdge
  adjacency : Dict String (List String)

namespace UnifiedTopologyGraph

def empty : UnifiedTopologyGraph := ⟨.empty, .empty, .empty⟩

/-- `self._adjacency[node].append(neighbor)`, of a node that has a list. -/
def append (adjacency : Dict String (List String)) (node neighbor : String) :
    Dict String (List String) :=
  match adjacency.get? node with
  | none => adjacency
  | some neighbors => adjacency.set node (neighbors ++ [neighbor])

/-- A node is added once, without neighbors. -/
def addNode (a : NormalizedArtifact) (g : UnifiedTopologyGraph) (raw : RawNode) :
    UnifiedTopologyGraph :=
  let nodeId := raw.id.getD ("node_" ++ toString g.nodes.items.length)
  let node : TopologyNode :=
    ⟨nodeId, raw.type.getD "unknown", a.sourceSystem, a.tenantId, a.artifactHash⟩
  if g.nodes.contains nodeId then g
  else { g with nodes := g.nodes.set nodeId node, adjacency := g.adjacency.set nodeId [] }

def edgeOf (a : NormalizedArtifact) (raw : RawEdge) : TopologyEdge :=
  let relation := raw.relation.getD "link"
  ⟨"edge_" ++ raw.fromNode ++ "_" ++ raw.toNode ++ "_" ++ relation, raw.fromNode, raw.toNode,
    relation, a.sourceSystem, raw.bidirectional.getD false⟩

/-- An edge whose id is taken is left out. -/
def addEdge (a : NormalizedArtifact) (g : UnifiedTopologyGraph) (raw : RawEdge) :
    UnifiedTopologyGraph :=
  let edge := edgeOf a raw
  if g.edges.contains edge.edgeId then g
  else
    let adjacency := append g.adjacency raw.fromNode raw.toNode
    { g with
      edges := g.edges.set edge.edgeId edge
      adjacency :=
        if edge.bidirectional then append adjacency raw.toNode raw.fromNode else adjacency }

def relationshipOf (a : NormalizedArtifact) (raw : RawEdge) : TopologyEdge :=
  let relation := raw.relation.getD "rel"
  ⟨"rel_" ++ raw.fromNode ++ "_" ++ raw.toNode ++ "_" ++ relation, raw.fromNode, raw.toNode,
    relation, a.sourceSystem, false⟩

def addRelationship (a : NormalizedArtifact) (g : UnifiedTopologyGraph) (raw : RawEdge) :
    UnifiedTopologyGraph :=
  let edge := relationshipOf a raw
  if g.edges.contains edge.edgeId then g
  else
    { g with
      edges := g.edges.set edge.edgeId edge
      adjacency := append g.adjacency raw.fromNode raw.toNode }

def dependencyOf (a : NormalizedArtifact) (raw : RawEdge) : TopologyEdge :=
  ⟨"dep_" ++ raw.fromNode ++ "_" ++ raw.toNode, raw.fromNode, raw.toNode,
    raw.relation.getD "depends_on", a.sourceSystem, false⟩

/-- The node a dependency starts from gets a list of its own. -/
def addDependency (a : NormalizedArtifact) (g : UnifiedTopologyGraph) (raw : RawEdge) :
    UnifiedTopologyGraph :=
  let adjacency :=
    if g.adjacency.contains raw.fromNode then g.adjacency else g.adjacency.set raw.fromNode []
  let edge := dependencyOf a raw
  if g.edges.contains edge.edgeId then { g with adjacency := adjacency }
  else
    { g with
      edges := g.edges.set edge.edgeId edge
      adjacency := append adjacency raw.fromNode raw.toNode }

def addArtifact (g : UnifiedTopologyGraph) (a : NormalizedArtifact) : UnifiedTopologyGraph :=
  let g := a.nodes.foldl (addNode a) g
  let g := a.edges.foldl (addEdge a) g
  let g := a.relationships.foldl (addRelationship a) g
  a.dependencies.foldl (addDependency a) g

def linkOf (fromNode toNode relation : String) : TopologyEdge :=
  ⟨"xsys_" ++ fromNode ++ "_" ++ toNode ++ "_" ++ relation, fromNode, toNode, relation,
    "cross_system", false⟩

def addCrossSystemLink (g : UnifiedTopologyGraph) (fromNode toNode relation : String) :
    UnifiedTopologyGraph :=
  let edge := linkOf fromNode toNode relation
  { g with
    edges := g.edges.set edge.edgeId edge
    adjacency := append g.adjacency fromNode toNode }

def getNeighbors (g : UnifiedTopologyGraph) (node : String) : List String :=
  (g.adjacency.get? node).getD []

/-! ### Calls, and the records they enter -/

inductive Entry where
  | node (a : NormalizedArtifact) (raw : RawNode)
  | edge (a : NormalizedArtifact) (raw : RawEdge)
  | relationship (a : NormalizedArtifact) (raw : RawEdge)
  | dependency (a : NormalizedArtifact) (raw : RawEdge)
  | link (fromNode toNode relation : String)
  deriving DecidableEq

def enter (g : UnifiedTopologyGraph) : Entry → UnifiedTopologyGraph
  | .node a raw => addNode a g raw
  | .edge a raw => addEdge a g raw
  | .relationship a raw => addRelationship a g raw
  | .dependency a raw => addDependency a g raw
  | .link fromNode toNode relation => addCrossSystemLink g fromNode toNode relation

/-- The edge an entry is about. -/
def Entry.edge? : Entry → Option TopologyEdge
  | .node _ _ => none
  | .edge a raw => some (edgeOf a raw)
  | .relationship a raw => some (relationshipOf a raw)
  | .dependency a raw => some (dependencyOf a raw)
  | .link fromNode toNode relation => some (linkOf fromNode toNode relation)

inductive Call where
  | addArtifact (a : NormalizedArtifact)
  | addCrossSystemLink (fromNode toNode relation : String)
  deriving DecidableEq

def graphs : System UnifiedTopologyGraph Call where
  initial := empty
  step g
    | .addArtifact a => g.addArtifact a
    | .addCrossSystemLink fromNode toNode relation =>
      g.addCrossSystemLink fromNode toNode relation

/-- The same, record by record. -/
def entered : System UnifiedTopologyGraph Entry := ⟨empty, enter⟩

def entriesOf (a : NormalizedArtifact) : List Entry :=
  a.nodes.map (.node a) ++ a.edges.map (.edge a) ++ a.relationships.map (.relationship a) ++
    a.dependencies.map (.dependency a)

def Call.entries : Call → List Entry
  | .addArtifact a => entriesOf a
  | .addCrossSystemLink fromNode toNode relation => [.link fromNode toNode relation]

theorem addArtifact_eq (g : UnifiedTopologyGraph) (a : NormalizedArtifact) :
    g.addArtifact a = (entriesOf a).foldl enter g := by
  simp only [entriesOf, List.foldl_append, List.foldl_map]
  rfl

theorem step_eq (g : UnifiedTopologyGraph) (call : Call) :
    graphs.step g call = call.entries.foldl enter g := by
  cases call with
  | addArtifact a => exact addArtifact_eq g a
  | addCrossSystemLink fromNode toNode relation => rfl

theorem after_entries (calls : List Call) :
    graphs.after calls = entered.after (calls.flatMap Call.entries) := by
  induction calls using List.reverseRecOn with
  | nil => rfl
  | append_singleton calls call ih =>
    rw [graphs.after_snoc, ih, step_eq, List.flatMap_append, List.flatMap_singleton, System.after,
      System.after, List.foldl_append]
    rfl

/-! ### Adjacency and edges -/

end UnifiedTopologyGraph

namespace TopologyEdge

/-- The nodes an edge leads from, each with the one it leads to. -/
def pairs (e : TopologyEdge) : List (String × String) :=
  (e.fromNode, e.toNode) :: if e.bidirectional then [(e.toNode, e.fromNode)] else []

end TopologyEdge

namespace UnifiedTopologyGraph

/-- An edge that is stored leads from the one node to the other. -/
def Linked (g : UnifiedTopologyGraph) (n m : String) : Prop :=
  ∃ id e, g.edges.get? id = some e ∧ (n, m) ∈ e.pairs

/-- The neighbors of a node are what its edges lead to. -/
def Mirrored (g : UnifiedTopologyGraph) : Prop :=
  ∀ n m, m ∈ g.getNeighbors n ↔ g.Linked n m

/-- The nodes an edge leads from have lists. -/
def Listed (g : UnifiedTopologyGraph) (e : TopologyEdge) : Prop :=
  ∀ p ∈ e.pairs, g.adjacency.contains p.1 = true

/-- What keeps a mirror: a node that is new has no neighbors, an edge that is new leads from
nodes that have lists, and a link does not take away what only the edge under its id led to. -/
def Keeps (g : UnifiedTopologyGraph) : Entry → Prop
  | .node _ raw =>
    g.nodes.contains (raw.id.getD ("node_" ++ toString g.nodes.items.length)) = true ∨
      g.getNeighbors (raw.id.getD ("node_" ++ toString g.nodes.items.length)) = []
  | .edge a raw => g.edges.contains (edgeOf a raw).edgeId = true ∨ g.Listed (edgeOf a raw)
  | .relationship a raw =>
    g.edges.contains (relationshipOf a raw).edgeId = true ∨ g.Listed (relationshipOf a raw)
  | .dependency _ _ => True
  | .link fromNode toNode relation => g.Listed (linkOf fromNode toNode relation) ∧
      ∀ e, g.edges.get? (linkOf fromNode toNode relation).edgeId = some e →
        ∀ n m, (n, m) ∈ e.pairs → (n, m) = (fromNode, toNode) ∨
          ∃ id e', id ≠ (linkOf fromNode toNode relation).edgeId ∧
            g.edges.get? id = some e' ∧ (n, m) ∈ e'.pairs

/-- An edge stored, and its nodes' lists with it. -/
def store (g : UnifiedTopologyGraph) (e : TopologyEdge) : UnifiedTopologyGraph :=
  { g with
    edges := g.edges.set e.edgeId e
    adjacency := e.pairs.foldl (fun adjacency p => append adjacency p.1 p.2) g.adjacency }

section Steps
variable {g : UnifiedTopologyGraph} {a : NormalizedArtifact} {raw : RawEdge} {e : TopologyEdge}
  {n m : String}

theorem addEdge_eq : addEdge a g raw =
    if g.edges.contains (edgeOf a raw).edgeId then g else g.store (edgeOf a raw) := by
  rw [addEdge, store, TopologyEdge.pairs]
  cases (edgeOf a raw).bidirectional with
  | false => rfl
  | true => rfl

theorem addRelationship_eq : addRelationship a g raw =
    if g.edges.contains (relationshipOf a raw).edgeId then g else g.store (relationshipOf a raw) :=
  rfl

/-- The list a dependency starts with. -/
def reserve (g : UnifiedTopologyGraph) (node : String) : UnifiedTopologyGraph :=
  { g with
    adjacency := if g.adjacency.contains node then g.adjacency else g.adjacency.set node [] }

theorem addDependency_eq : addDependency a g raw =
    if g.edges.contains (dependencyOf a raw).edgeId then g.reserve raw.fromNode
    else (g.reserve raw.fromNode).store (dependencyOf a raw) := rfl

theorem addCrossSystemLink_eq (fromNode toNode relation : String) :
    g.addCrossSystemLink fromNode toNode relation = g.store (linkOf fromNode toNode relation) := rfl

theorem get?_append (adjacency : Dict String (List String)) (node neighbor n : String) :
    (append adjacency node neighbor).get? n =
      if node = n then (adjacency.get? n).map (· ++ [neighbor]) else adjacency.get? n := by
  rw [append]
  cases h : adjacency.get? node with
  | none =>
    split_ifs with hn
    · rw [← hn, h]
      rfl
    · rfl
  | some neighbors =>
    rw [Dict.get?_set]
    split_ifs with hn
    · rw [← hn, h]
      rfl
    · rfl

/-- Lists grow by what the pairs lead to; no list comes or goes. -/
theorem get?_appends (pairs : List (String × String)) (adjacency : Dict String (List String))
    (n : String) :
    (pairs.foldl (fun adjacency p => append adjacency p.1 p.2) adjacency).get? n =
      (adjacency.get? n).map (· ++ (pairs.filter fun p => p.1 = n).map Prod.snd) := by
  induction pairs generalizing adjacency with
  | nil => simp
  | cons p pairs ih =>
    rw [List.foldl_cons, ih, get?_append]
    split_ifs with hn
    · rw [List.filter_cons_of_pos (by simpa using hn), Option.map_map]
      congr 1
      funext neighbors
      simp
    · rw [List.filter_cons_of_neg (by simpa using hn)]

theorem mem_getNeighbors_store (hlisted : g.Listed e) :
    m ∈ (g.store e).getNeighbors n ↔ m ∈ g.getNeighbors n ∨ (n, m) ∈ e.pairs := by
  rw [getNeighbors, getNeighbors, store, get?_appends]
  cases hget : g.adjacency.get? n with
  | none =>
    have hnot : (n, m) ∉ e.pairs := fun hmem => by
      have hlist := hlisted (n, m) hmem
      rw [Dict.contains, hget] at hlist
      cases hlist
    simp [hnot]
  | some neighbors => simp

theorem getNeighbors_store_of_not_listed (hget : g.adjacency.get? n = none) :
    (g.store e).getNeighbors n = [] := by
  rw [getNeighbors, store, get?_appends, hget]
  rfl

theorem linked_store : (g.store e).Linked n m ↔
    (n, m) ∈ e.pairs ∨
      ∃ id e', id ≠ e.edgeId ∧ g.edges.get? id = some e' ∧ (n, m) ∈ e'.pairs := by
  constructor
  · intro h
    obtain ⟨id, e', hget, hmem⟩ := h
    change (g.edges.set e.edgeId e).get? id = some e' at hget
    rw [Dict.get?_set] at hget
    split_ifs at hget with hid
    · rw [← Option.some.inj hget] at hmem
      exact .inl hmem
    · exact .inr ⟨id, e', Ne.symm hid, hget, hmem⟩
  · intro h
    rcases h with hmem | ⟨id, e', hid, hget, hmem⟩
    · exact ⟨e.edgeId, e, Dict.get?_set_self _ _ _, hmem⟩
    · exact ⟨id, e', (Dict.get?_set_ne (Ne.symm hid) _ _).trans hget, hmem⟩

/-- Storing an edge keeps a mirror exactly when its nodes have lists and nothing is taken away
with the edge it replaces. -/
theorem mirrored_store_iff (h : g.Mirrored) : (g.store e).Mirrored ↔ g.Listed e ∧
    ∀ e', g.edges.get? e.edgeId = some e' → ∀ n m, (n, m) ∈ e'.pairs → (n, m) ∈ e.pairs ∨
      ∃ id e'', id ≠ e.edgeId ∧ g.edges.get? id = some e'' ∧ (n, m) ∈ e''.pairs := by
  constructor
  · intro hstored
    have hlisted : g.Listed e := by
      intro p hp
      by_contra hnot
      have hnone : g.adjacency.get? p.1 = none := by
        rwa [Dict.contains, Bool.not_eq_true, Option.isSome_eq_false_iff, Option.isNone_iff_eq_none]
          at hnot
      have hlinked := (hstored p.1 p.2).mpr (linked_store.mpr (.inl hp))
      rw [getNeighbors_store_of_not_listed hnone] at hlinked
      cases hlinked
    refine ⟨hlisted, fun e' hget n m hmem => linked_store.mp ((hstored n m).mp ?_)⟩
    exact (mem_getNeighbors_store hlisted).mpr (.inl ((h n m).mpr ⟨_, e', hget, hmem⟩))
  · intro hboth n m
    obtain ⟨hlisted, hreplaced⟩ := hboth
    rw [mem_getNeighbors_store hlisted, linked_store, h n m]
    constructor
    · intro hor
      rcases hor with ⟨id, e', hget, hmem⟩ | hmem
      · by_cases hid : id = e.edgeId
        · exact hreplaced e' (hid ▸ hget) n m hmem
        · exact .inr ⟨id, e', hid, hget, hmem⟩
      · exact .inl hmem
    · intro hor
      rcases hor with hmem | ⟨id, e', -, hget, hmem⟩
      · exact .inr hmem
      · exact .inl ⟨id, e', hget, hmem⟩

theorem mirrored_store_new_iff (h : g.Mirrored) (hnew : ¬ g.edges.contains e.edgeId = true) :
    (g.store e).Mirrored ↔ g.Listed e := by
  rw [mirrored_store_iff h, and_iff_left]
  intro e' hget
  rw [Dict.contains, hget] at hnew
  exact absurd rfl hnew

theorem getNeighbors_reserve (node : String) :
    (g.reserve node).getNeighbors n = g.getNeighbors n := by
  rw [getNeighbors, getNeighbors, reserve]
  dsimp only
  split_ifs with hlist
  · rfl
  · rw [Dict.get?_set]
    split_ifs with hn
    · rw [← hn]
      rw [Dict.contains, Bool.not_eq_true, Option.isSome_eq_false_iff, Option.isNone_iff_eq_none]
        at hlist
      rw [hlist]
      rfl
    · rfl

theorem listed_reserve (node : String) : (g.reserve node).adjacency.contains node = true := by
  rw [reserve]
  dsimp only
  split_ifs with hlist
  · exact hlist
  · rw [Dict.contains, Dict.get?_set_self]
    rfl

theorem mirrored_reserve (h : g.Mirrored) (node : String) : (g.reserve node).Mirrored := by
  intro n m
  rw [getNeighbors_reserve]
  exact h n m

/-- An entry keeps a mirror exactly when it says so. -/
theorem mirrored_enter_iff (h : g.Mirrored) (x : Entry) : (g.enter x).Mirrored ↔ g.Keeps x := by
  cases x with
  | node a raw =>
    rw [enter, addNode, Keeps]
    split_ifs with hknown
    · exact ⟨fun _ => .inl hknown, fun _ => h⟩
    · rw [or_iff_right hknown]
      have hneighbors : ∀ n, UnifiedTopologyGraph.getNeighbors { g with
          nodes := g.nodes.set (raw.id.getD ("node_" ++ toString g.nodes.items.length))
            ⟨raw.id.getD ("node_" ++ toString g.nodes.items.length), raw.type.getD "unknown",
              a.sourceSystem, a.tenantId, a.artifactHash⟩
          adjacency := g.adjacency.set
            (raw.id.getD ("node_" ++ toString g.nodes.items.length)) [] } n =
          if raw.id.getD ("node_" ++ toString g.nodes.items.length) = n then []
          else g.getNeighbors n := by
        intro n
        rw [getNeighbors, getNeighbors, Dict.get?_set]
        split_ifs with hn
        · rfl
        · rfl
      constructor
      · intro hmirrored
        refine List.eq_nil_iff_forall_not_mem.mpr fun m hm => ?_
        have hlinked := (hmirrored _ m).mpr ((h _ m).mp hm)
        rw [hneighbors, if_pos rfl] at hlinked
        cases hlinked
      · intro hnone n m
        rw [hneighbors]
        split_ifs with hn
        · subst hn
          rw [← hnone]
          exact h _ m
        · exact h n m
  | edge a raw | relationship a raw =>
    simp only [enter, addEdge_eq, addRelationship_eq, Keeps]
    split_ifs with hknown
    · exact ⟨fun _ => .inl hknown, fun _ => h⟩
    · rw [or_iff_right hknown, mirrored_store_new_iff h hknown]
  | dependency a raw =>
    rw [enter, addDependency_eq, Keeps, iff_true]
    have hreserved := mirrored_reserve h raw.fromNode
    split_ifs with hknown
    · exact hreserved
    · refine (mirrored_store_new_iff hreserved hknown).mpr fun p hp => ?_
      rw [List.mem_singleton.mp hp]
      exact listed_reserve raw.fromNode
  | link fromNode toNode relation =>
    rw [enter, addCrossSystemLink_eq, mirrored_store_iff h, Keeps]
    have hpairs : ∀ n m, (n, m) ∈ (linkOf fromNode toNode relation).pairs ↔
        (n, m) = (fromNode, toNode) := fun n m => List.mem_singleton
    simp only [hpairs]

theorem mirrored_empty : empty.Mirrored := by
  intro n m
  constructor
  · intro hm
    cases hm
  · intro hlinked
    obtain ⟨id, e, hget, -⟩ := hlinked
    cases hget

end Steps

/-- Record by record, the adjacency mirrors the edges exactly when each record keeps it so. -/
theorem mirrored_iff (entries : List Entry) :
    entered.Always Mirrored entries ↔ entered.Admits Keeps entries :=
  System.always_iff_admits _ Keeps Mirrored Mirrored mirrored_empty
    (fun _ x hkeeps h => (mirrored_enter_iff h x).mpr hkeeps) (fun _ h => h)
    (fun _ x h hnot hmirrored => hnot ((mirrored_enter_iff h x).mp hmirrored)) entries

end UnifiedTopologyGraph

end PiPlatform.ConnectorFabric
