import Mathlib.Data.String.Basic
import Mathlib.Data.Prod.Lex
import PiPlatform.ConnectorFabric.Topology
import PiPlatform.Library.Json.RoundTrip

/-! The digital twin, and its history replayed.

A replay builds a topology for each receipt, from the artifacts of that receipt only. So it shows
the twin as it was exactly when each receipt names by itself every node and every edge that the
receipts so far have named (`reconstructs_iff`). -/
namespace PiPlatform.ConnectorFabric

open Library Library.Json UnifiedTopologyGraph

/-! ### The hash of a graph -/

def text (s : String) : Document Literal := .str (ofString s)

/-- What `graph_hash` takes of a node: id, type and system. -/
def TopologyNode.canonical (n : TopologyNode) : String × String × String :=
  (n.nodeId, n.nodeType, n.system)

/-- What it takes of an edge. -/
def TopologyEdge.canonical (e : TopologyEdge) : String × String × String :=
  (e.fromNode, e.toNode, e.relation)

def nodeDocument (n : String × String × String) : Document Literal :=
  .obj [(ofString "id", text n.1), (ofString "system", text n.2.2), (ofString "type", text n.2.1)]

def edgeDocument (e : String × String × String) : Document Literal :=
  .obj [(ofString "from", text e.1), (ofString "relation", text e.2.2),
    (ofString "to", text e.2.1)]

def canonicalNodes (nodes : List TopologyNode) : List (String × String × String) :=
  sortBy (fun n => n.1) (nodes.map TopologyNode.canonical)

def canonicalEdges (edges : List TopologyEdge) : List (String × String × String) :=
  sortBy (fun e => toLex (e.1, toLex (e.2.1, e.2.2))) (edges.map TopologyEdge.canonical)

section Replay
variable (sha256 : String → String)

/-- Of nodes and edges in a canonical order. -/
def UnifiedTopologyGraph.graphHash (g : UnifiedTopologyGraph) : String :=
  let nodes := canonicalNodes (g.nodes.items.map Prod.snd)
  let edges := canonicalEdges (g.edges.items.map Prod.snd)
  let canonical : Document Literal := .obj
    [(ofString "edges", .arr (edges.map edgeDocument)),
      (ofString "nodes", .arr (nodes.map nodeDocument))]
  sha256 (String.ofList (canonical.render .compact))

/-! ### The twin -/

structure IngestionReceipt where
  receiptId : String
  artifactHashes : List String

structure DigitalTwinImport where
  artifacts : Dict String NormalizedArtifact
  topology : UnifiedTopologyGraph

def importArtifact (twin : DigitalTwinImport) (a : NormalizedArtifact) : DigitalTwinImport where
  artifacts := twin.artifacts.set a.artifactHash a
  topology := twin.topology.addArtifact a

structure ReplaySnapshot where
  step : Nat
  receiptId : String
  artifactCount : Nat
  nodeCount : Nat
  edgeCount : Nat
  graphHash : String
  deriving DecidableEq

structure TemporalReplay where
  steps : Nat
  snapshots : List ReplaySnapshot
  finalNodeCount : Nat
  finalEdgeCount : Nat
  replayHash : String

/-- The artifacts of a receipt, as far as the twin has them. -/
def DigitalTwinImport.stepArtifacts (twin : DigitalTwinImport) (receipt : IngestionReceipt) :
    List NormalizedArtifact := receipt.artifactHashes.filterMap twin.artifacts.get?

def DigitalTwinImport.snapshot (twin : DigitalTwinImport) (i : Nat) (receipt : IngestionReceipt) :
    ReplaySnapshot :=
  let stepArtifacts := twin.stepArtifacts receipt
  let stepTopology := stepArtifacts.foldl addArtifact empty
  { step := i
    receiptId := receipt.receiptId
    artifactCount := stepArtifacts.length
    nodeCount := stepTopology.nodes.items.length
    edgeCount := stepTopology.edges.items.length
    graphHash := stepTopology.graphHash sha256 }

/-- A snapshot for each receipt, and a hash over theirs. -/
def DigitalTwinImport.temporalReplay (twin : DigitalTwinImport)
    (receipts : List IngestionReceipt) : TemporalReplay :=
  let snapshots := receipts.zipIdx.map fun p => twin.snapshot sha256 p.2 p.1
  let hashes : Document Literal := .arr (snapshots.map fun s => text s.graphHash)
  { steps := snapshots.length
    snapshots := snapshots
    finalNodeCount := twin.topology.nodes.items.length
    finalEdgeCount := twin.topology.edges.items.length
    replayHash := sha256 (String.ofList (hashes.render .compact)) }

/-! ### Histories -/

/-- A receipt with its artifacts. -/
structure Ingestion where
  receiptId : String
  artifacts : List NormalizedArtifact

def Ingestion.receipt (s : Ingestion) : IngestionReceipt :=
  ⟨s.receiptId, s.artifacts.map (·.artifactHash)⟩

/-- The twin that has imported the artifacts in their order. -/
def twinOf (artifacts : List NormalizedArtifact) : DigitalTwinImport :=
  artifacts.foldl importArtifact ⟨.empty, empty⟩

/-- Each snapshot shows the topology as it was when the receipts so far had been imported. -/
def Reconstructs (history : List Ingestion) : Prop :=
  ∀ i s, ((twinOf (history.flatMap Ingestion.artifacts)).temporalReplay sha256
      (history.map Ingestion.receipt)).snapshots[i]? = some s →
    let topology := (twinOf ((history.take (i + 1)).flatMap Ingestion.artifacts)).topology
    s.nodeCount = topology.nodes.items.length ∧ s.edgeCount = topology.edges.items.length ∧
      s.graphHash = topology.graphHash sha256

/-! ### What records name -/

/-- A node record of an artifact: an id, if it has one, a type and a system. -/
def nodeRecords (a : NormalizedArtifact) : List (Option String × String × String) :=
  a.nodes.map fun raw => (raw.id, raw.type.getD "unknown", a.sourceSystem)

/-- The nodes that are named, the first record of an id for all; a record without an id has the
number of those named before it. -/
def named : List (String × String × String) → List (Option String × String × String) →
    List (String × String × String)
  | seen, [] => seen
  | seen, (id, rest) :: records =>
    let nodeId := id.getD ("node_" ++ toString seen.length)
    if nodeId ∈ seen.map Prod.fst then named seen records
    else named (seen ++ [(nodeId, rest)]) records

def namedNodes (artifacts : List NormalizedArtifact) : List (String × String × String) :=
  named [] (artifacts.flatMap nodeRecords)

def edgeRecords (a : NormalizedArtifact) : List TopologyEdge :=
  a.edges.map (edgeOf a) ++ a.relationships.map (relationshipOf a) ++
    a.dependencies.map (dependencyOf a)

/-- The edges that are named, the first record of an edge id for all. -/
def namedEdges (artifacts : List NormalizedArtifact) : List TopologyEdge :=
  firstsBy TopologyEdge.edgeId [] (artifacts.flatMap edgeRecords)

/-- The one list names what the other names, in some order. -/
structure NamesAlike (artifacts artifacts' : List NormalizedArtifact) : Prop where
  nodes : (namedNodes artifacts).Perm (namedNodes artifacts')
  edges : ((namedEdges artifacts).map TopologyEdge.canonical).Perm
    ((namedEdges artifacts').map TopologyEdge.canonical)

instance (artifacts artifacts' : List NormalizedArtifact) :
    Decidable (NamesAlike artifacts artifacts') :=
  decidable_of_iff _ ⟨fun h => ⟨h.1, h.2⟩, fun h => And.intro h.nodes h.edges⟩

/-- What the twin gives for the artifacts of a receipt: of those with one hash, the last that was
imported. -/
def held (history : List Ingestion) (artifacts : List NormalizedArtifact) :
    List NormalizedArtifact :=
  artifacts.filterMap fun a =>
    (history.flatMap Ingestion.artifacts).reverse.find? fun b => b.artifactHash = a.artifactHash

end Replay

/-! ### Topologies and records -/

section Built
variable {g : UnifiedTopologyGraph} {rs : List (Option String × String × String)}
  {es : List TopologyEdge} {a : NormalizedArtifact}

/-- A graph that has what the records name. -/
structure Built (rs : List (Option String × String × String)) (es : List TopologyEdge)
    (g : UnifiedTopologyGraph) : Prop where
  nodes : g.nodes.items.map (fun p => p.2.canonical) = named [] rs
  keys : g.nodes.items.map Prod.fst = (named [] rs).map Prod.fst
  edges : g.edges.items = (firstsBy TopologyEdge.edgeId [] es).map fun e => (e.edgeId, e)

theorem named_append (seen : List (String × String × String))
    (records records' : List (Option String × String × String)) :
    named seen (records ++ records') = named (named seen records) records' := by
  induction records generalizing seen with
  | nil => rfl
  | cons r records ih =>
    obtain ⟨id, rest⟩ := r
    rw [List.cons_append, named, named]
    split_ifs
    · exact ih seen
    · exact ih _

theorem items_set_new {K V : Type} [DecidableEq K] {d : Dict K V} {k : K} {v : V}
    (h : ¬ d.contains k = true) : (d.set k v).items = d.items ++ [(k, v)] :=
  setItem_of_not_mem v fun hmem => h (Dict.contains_iff_mem.mpr hmem)

theorem Built.addNode (h : Built rs es g) (a : NormalizedArtifact) (raw : RawNode) :
    Built (rs ++ [(raw.id, raw.type.getD "unknown", a.sourceSystem)]) es
      (UnifiedTopologyGraph.addNode a g raw) := by
  have hlength : g.nodes.items.length = (named [] rs).length := by
    rw [← h.nodes, List.length_map]
  have hnamed := named_append [] rs [(raw.id, raw.type.getD "unknown", a.sourceSystem)]
  rw [named, named, named, ← hlength] at hnamed
  have hknown : g.nodes.contains (raw.id.getD ("node_" ++ toString g.nodes.items.length)) = true ↔
      raw.id.getD ("node_" ++ toString g.nodes.items.length) ∈ (named [] rs).map Prod.fst := by
    rw [Dict.contains_iff_mem, h.keys]
  rw [UnifiedTopologyGraph.addNode]
  split_ifs with hnode
  · rw [if_pos (hknown.mp hnode)] at hnamed
    exact ⟨h.nodes.trans hnamed.symm, by rw [hnamed]; exact h.keys, h.edges⟩
  · rw [if_neg (fun hmem => hnode (hknown.mpr hmem))] at hnamed
    refine ⟨?_, ?_, h.edges⟩
    · rw [hnamed, items_set_new hnode, List.map_append, h.nodes]
      rfl
    · rw [hnamed, items_set_new hnode, List.map_append, List.map_append, h.keys]
      rfl

/-- An edge is stored unless its id is taken; the rest of the step leaves nodes and edges. -/
theorem Built.edge {base : UnifiedTopologyGraph} (h : Built rs es g) (e : TopologyEdge)
    (hnodes : base.nodes = g.nodes) (hedges : base.edges = g.edges) :
    Built rs (es ++ [e]) (if g.edges.contains e.edgeId then base else base.store e) := by
  have hkeys : g.edges.items.map Prod.fst =
      (firstsBy TopologyEdge.edgeId [] es).map TopologyEdge.edgeId := by
    rw [h.edges, List.map_map]
    rfl
  have hknown : g.edges.contains e.edgeId = true ↔ e.edgeId ∈ es.map TopologyEdge.edgeId ++ [] := by
    rw [Dict.contains_iff_mem, hkeys, ← mem_keys_firstsBy, List.append_nil]
  split_ifs with hedge
  · refine ⟨hnodes ▸ h.nodes, hnodes ▸ h.keys, ?_⟩
    rw [hedges, firstsBy_snoc, if_pos (hknown.mp hedge)]
    exact h.edges
  · refine ⟨hnodes ▸ h.nodes, hnodes ▸ h.keys, ?_⟩
    rw [store, hedges, firstsBy_snoc, if_neg (mt hknown.mpr hedge), items_set_new hedge, h.edges,
      List.map_append]
    rfl

theorem Built.addEdge (h : Built rs es g) (a : NormalizedArtifact) (raw : RawEdge) :
    Built rs (es ++ [edgeOf a raw]) (UnifiedTopologyGraph.addEdge a g raw) := by
  rw [addEdge_eq]
  exact h.edge (edgeOf a raw) rfl rfl

theorem Built.addRelationship (h : Built rs es g) (a : NormalizedArtifact) (raw : RawEdge) :
    Built rs (es ++ [relationshipOf a raw]) (UnifiedTopologyGraph.addRelationship a g raw) := by
  rw [addRelationship_eq]
  exact h.edge (relationshipOf a raw) rfl rfl

theorem Built.addDependency (h : Built rs es g) (a : NormalizedArtifact) (raw : RawEdge) :
    Built rs (es ++ [dependencyOf a raw]) (UnifiedTopologyGraph.addDependency a g raw) := by
  rw [addDependency_eq]
  exact h.edge (dependencyOf a raw) rfl rfl

/-- A section of an artifact, record by record. -/
theorem Built.foldl {Raw : Type} (step : UnifiedTopologyGraph → Raw → UnifiedTopologyGraph)
    (node : Raw → List (Option String × String × String)) (edge : Raw → List TopologyEdge)
    (hstep : ∀ {g rs es}, Built rs es g → ∀ raw, Built (rs ++ node raw) (es ++ edge raw)
      (step g raw)) (raws : List Raw) (h : Built rs es g) :
    Built (rs ++ raws.flatMap node) (es ++ raws.flatMap edge) (raws.foldl step g) := by
  induction raws generalizing g rs es with
  | nil =>
    rw [List.flatMap_nil, List.flatMap_nil, List.append_nil, List.append_nil]
    exact h
  | cons raw raws ih =>
    rw [List.flatMap_cons, List.flatMap_cons, ← List.append_assoc, ← List.append_assoc]
    exact ih (hstep h raw)

theorem Built.addArtifact (h : Built rs es g) (a : NormalizedArtifact) :
    Built (rs ++ nodeRecords a) (es ++ edgeRecords a) (g.addArtifact a) := by
  have hnodes := h.foldl (UnifiedTopologyGraph.addNode a)
    (fun raw => [(raw.id, raw.type.getD "unknown", a.sourceSystem)]) (fun _ => [])
    (fun h raw => by rw [List.append_nil]; exact h.addNode a raw) a.nodes
  have hedges := hnodes.foldl (UnifiedTopologyGraph.addEdge a) (fun _ => [])
    (fun raw => [edgeOf a raw])
    (fun h raw => by rw [List.append_nil]; exact h.addEdge a raw) a.edges
  have hrelationships := hedges.foldl (UnifiedTopologyGraph.addRelationship a)
    (fun _ => []) (fun raw => [relationshipOf a raw])
    (fun h raw => by rw [List.append_nil]; exact h.addRelationship a raw) a.relationships
  have hdependencies := hrelationships.foldl (UnifiedTopologyGraph.addDependency a)
    (fun _ => []) (fun raw => [dependencyOf a raw])
    (fun h raw => by rw [List.append_nil]; exact h.addDependency a raw) a.dependencies
  have hnone : ∀ {α β : Type} (xs : List α), (xs.flatMap fun _ => ([] : List β)) = [] :=
    fun xs => List.flatMap_eq_nil_iff.mpr fun _ _ => rfl
  simp only [hnone, List.append_nil] at hdependencies
  rw [nodeRecords, edgeRecords, List.map_eq_flatMap, List.map_eq_flatMap, List.map_eq_flatMap,
    List.map_eq_flatMap, ← List.append_assoc, ← List.append_assoc]
  exact hdependencies

theorem built_topology (artifacts : List NormalizedArtifact) :
    Built (artifacts.flatMap nodeRecords) (artifacts.flatMap edgeRecords)
      (artifacts.foldl UnifiedTopologyGraph.addArtifact empty) := by
  have hempty : Built [] [] empty := ⟨rfl, rfl, rfl⟩
  exact hempty.foldl _ _ _ (fun h a => h.addArtifact a) artifacts

end Built

/-! ### What a hash determines -/

section Hashes
variable {sha256 : String → String} {g g' : UnifiedTopologyGraph}

theorem joinElems_of_forall {α : Type} {f : α → Document Literal} (h : ∀ x, (f x).join = f x)
    (xs : List α) : joinElems (xs.map f) = xs.map f := by
  induction xs with
  | nil => rfl
  | cons x xs ih => rw [List.map_cons, joinElems, ih, h]

theorem join_nodeDocument (n : String × String × String) :
    (nodeDocument n).join = nodeDocument n := by
  simp [nodeDocument, text, Document.join, joinMembers]

theorem join_edgeDocument (e : String × String × String) :
    (edgeDocument e).join = edgeDocument e := by
  simp [edgeDocument, text, Document.join, joinMembers]

theorem nodeDocument_injective : Function.Injective nodeDocument := by
  intro n m h
  simp only [nodeDocument, text, Document.obj.injEq, List.cons.injEq, Prod.mk.injEq,
    Document.str.injEq, ofString_inj, true_and, and_true] at h
  exact Prod.ext h.1 (Prod.ext h.2.2 h.2.1)

theorem edgeDocument_injective : Function.Injective edgeDocument := by
  intro e d h
  simp only [edgeDocument, text, Document.obj.injEq, List.cons.injEq, Prod.mk.injEq,
    Document.str.injEq, ofString_inj, true_and, and_true] at h
  exact Prod.ext h.1 (Prod.ext h.2.2 h.2.1)

theorem graphHash_eq_iff (hsha : Function.Injective sha256) :
    g.graphHash sha256 = g'.graphHash sha256 ↔
      canonicalNodes (g.nodes.items.map Prod.snd) = canonicalNodes (g'.nodes.items.map Prod.snd) ∧
      canonicalEdges (g.edges.items.map Prod.snd) =
        canonicalEdges (g'.edges.items.map Prod.snd) := by
  rw [UnifiedTopologyGraph.graphHash, UnifiedTopologyGraph.graphHash, hsha.eq_iff,
    String.ofList_inj, render_eq_iff]
  simp only [Document.join, joinMembers, joinSurrogates_ofString,
    joinElems_of_forall join_edgeDocument, joinElems_of_forall join_nodeDocument,
    Document.obj.injEq, List.cons.injEq, Prod.mk.injEq, Document.arr.injEq, true_and, and_true,
    (List.map_injective_iff.mpr edgeDocument_injective).eq_iff,
    (List.map_injective_iff.mpr nodeDocument_injective).eq_iff]
  exact and_comm

end Hashes

/-! ### Replays -/

section Replays
variable {sha256 : String → String} {artifacts artifacts' : List NormalizedArtifact}

theorem topology_twinOf (artifacts : List NormalizedArtifact) :
    (twinOf artifacts).topology = artifacts.foldl addArtifact empty := by
  induction artifacts using List.reverseRecOn with
  | nil => rfl
  | append_singleton artifacts a ih =>
    rw [twinOf, List.foldl_append, List.foldl_append, ← ih]
    rfl

theorem artifacts_twinOf (artifacts : List NormalizedArtifact) (h : String) :
    (twinOf artifacts).artifacts.get? h =
      artifacts.reverse.find? fun b => b.artifactHash = h := by
  induction artifacts using List.reverseRecOn with
  | nil => rfl
  | append_singleton artifacts a ih =>
    have hset : (twinOf (artifacts ++ [a])).artifacts =
        (twinOf artifacts).artifacts.set a.artifactHash a := by
      rw [twinOf, List.foldl_append]
      rfl
    rw [hset, Dict.get?_set, ih, List.reverse_append, List.reverse_singleton,
      List.singleton_append, List.find?_cons]
    by_cases ha : a.artifactHash = h
    · simp [ha]
    · simp [ha]

theorem stepArtifacts_receipt (history : List Ingestion) (s : Ingestion) :
    (twinOf (history.flatMap Ingestion.artifacts)).stepArtifacts s.receipt =
      held history s.artifacts := by
  rw [DigitalTwinImport.stepArtifacts, held, Ingestion.receipt, List.filterMap_map]
  refine List.filterMap_congr fun a _ => ?_
  exact artifacts_twinOf _ a.artifactHash

theorem nodes_topology (artifacts : List NormalizedArtifact) :
    ((artifacts.foldl addArtifact empty).nodes.items.map Prod.snd).map TopologyNode.canonical =
      namedNodes artifacts := by
  rw [List.map_map]
  exact (built_topology artifacts).nodes

theorem edges_topology (artifacts : List NormalizedArtifact) :
    (artifacts.foldl addArtifact empty).edges.items.map Prod.snd = namedEdges artifacts := by
  rw [(built_topology artifacts).edges, List.map_map]
  exact List.map_id' _

theorem namedNodes_distinct (artifacts : List NormalizedArtifact) :
    ((namedNodes artifacts).map Prod.fst).Nodup := by
  have hnodup := (artifacts.foldl addArtifact empty).nodes.nodup
  rwa [(built_topology artifacts).keys] at hnodup

theorem canonicalNodes_eq_iff :
    canonicalNodes ((artifacts.foldl addArtifact empty).nodes.items.map Prod.snd) =
      canonicalNodes ((artifacts'.foldl addArtifact empty).nodes.items.map Prod.snd) ↔
      (namedNodes artifacts).Perm (namedNodes artifacts') := by
  rw [canonicalNodes, canonicalNodes, nodes_topology, nodes_topology]
  refine sortBy_eq_iff_of_inj fun x hx y hy heq => ?_
  exact List.inj_on_of_nodup_map (namedNodes_distinct artifacts) hx hy heq

theorem canonicalEdges_eq_iff :
    canonicalEdges ((artifacts.foldl addArtifact empty).edges.items.map Prod.snd) =
      canonicalEdges ((artifacts'.foldl addArtifact empty).edges.items.map Prod.snd) ↔
      ((namedEdges artifacts).map TopologyEdge.canonical).Perm
        ((namedEdges artifacts').map TopologyEdge.canonical) := by
  rw [canonicalEdges, canonicalEdges, edges_topology, edges_topology]
  refine sortBy_eq_iff_of_inj fun x _ y _ heq => ?_
  obtain ⟨hfrom, hrest⟩ := Prod.mk.inj (toLex.injective heq)
  obtain ⟨hto, hrelation⟩ := Prod.mk.inj (toLex.injective hrest)
  exact Prod.ext hfrom (Prod.ext hto hrelation)

/-- Two topologies have the same counts and the same hash when their artifacts name alike. -/
theorem shown_alike_iff (hsha : Function.Injective sha256) :
    ((artifacts.foldl addArtifact empty).nodes.items.length =
        (artifacts'.foldl addArtifact empty).nodes.items.length ∧
      (artifacts.foldl addArtifact empty).edges.items.length =
        (artifacts'.foldl addArtifact empty).edges.items.length ∧
      (artifacts.foldl addArtifact empty).graphHash sha256 =
        (artifacts'.foldl addArtifact empty).graphHash sha256) ↔
      NamesAlike artifacts artifacts' := by
  rw [graphHash_eq_iff hsha, canonicalNodes_eq_iff, canonicalEdges_eq_iff]
  constructor
  · exact fun h => ⟨h.2.2.1, h.2.2.2⟩
  · intro h
    refine ⟨?_, ?_, h.nodes, h.edges⟩
    · simpa [← nodes_topology] using h.nodes.length_eq
    · simpa [← edges_topology] using h.edges.length_eq

end Replays

/-- A replay shows the twin as it was exactly when the artifacts of each receipt name by
themselves what those of the receipts so far have named. -/
theorem reconstructs_iff (sha256 : String → String) (hsha : Function.Injective sha256)
    (history : List Ingestion) : Reconstructs sha256 history ↔
      ∀ i s, history[i]? = some s → NamesAlike (held history s.artifacts)
        ((history.take (i + 1)).flatMap Ingestion.artifacts) := by
  have hsnapshots : ∀ i, ((twinOf (history.flatMap Ingestion.artifacts)).temporalReplay sha256
      (history.map Ingestion.receipt)).snapshots[i]? = history[i]?.map fun s =>
        (twinOf (history.flatMap Ingestion.artifacts)).snapshot sha256 i s.receipt := by
    intro i
    rw [DigitalTwinImport.temporalReplay]
    simp only [List.getElem?_map, List.getElem?_zipIdx, Option.map_map, Nat.zero_add]
    rfl
  refine forall_congr' fun i => ?_
  rw [hsnapshots]
  cases history[i]? with
  | none =>
    constructor
    · intro _ s h
      cases h
    · intro _ s h
      cases h
  | some s =>
    simp only [Option.map_some, Option.some.injEq, forall_eq']
    rw [topology_twinOf, DigitalTwinImport.snapshot, stepArtifacts_receipt]
    exact shown_alike_iff hsha

/-! ### Receipts that say everything again, and receipts that do not -/

def nodesOf (artifactHash : String) (ids : List String) : NormalizedArtifact :=
  ⟨artifactHash, "aws", "t1", ids.map fun id => ⟨some id, some "vm"⟩, [], [], []⟩

theorem full_reconstructs : Reconstructs id
    [⟨"r0", [nodesOf "a0" ["web"]]⟩, ⟨"r1", [nodesOf "a1" ["db", "web"]]⟩] := by
  refine (reconstructs_iff id Function.injective_id _).mpr fun i s hs => ?_
  match i with
  | 0 =>
    obtain rfl := Option.some.inj hs
    decide +kernel
  | 1 =>
    obtain rfl := Option.some.inj hs
    decide +kernel
  | i + 2 => cases hs

/-- The second snapshot lacks what the first receipt brought. -/
theorem partial_not_reconstructed : ¬ Reconstructs id
    [⟨"r0", [nodesOf "a0" ["web"]]⟩, ⟨"r1", [nodesOf "a1" ["db"]]⟩] := by
  intro hreconstructs
  obtain ⟨hnodes, -⟩ := hreconstructs 1 _ rfl
  exact absurd hnodes (by decide +kernel)

end PiPlatform.ConnectorFabric
