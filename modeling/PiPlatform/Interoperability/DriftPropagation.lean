import PiPlatform.Interoperability.SemanticDrift
import PiPlatform.Radius.TopologyGraph
import Mathlib.Order.Fin.Basic
import Mathlib.Data.String.Basic

/-! The propagation of drift through a topology.

Risk goes one level a round, from all nodes at risk to those behind their edges. So after the
rounds the nodes at risk are those within the depth, at their distances (`Levels`). But the edges
that are marked are those that lead to a node at risk, a severity is looked up by the delta's id,
and one of `NONE` is no risk (`propagation_iff`). -/
namespace PiPlatform.Interoperability.Propagation

open Library
open Drift (DeltaType SemanticDelta SemanticDriftReport SetOrder)
open Radius (TopologyNode)

/-! ### Graphs -/

structure TopologyEdge where
  edgeId : String
  upstream : String
  downstream : String
  edgeType : String
  carriesAuth : Bool
  carriesState : Bool

structure TopologyGraph where
  graphId : String
  nodes : Dict String TopologyNode
  edges : List TopologyEdge

structure RiskNode where
  nodeId : String
  nodeType : String
  directDeltas : List String
  propagatedDeltas : List String
  riskLevel : String
  propagationDepth : Nat
  inDirectBlastRadius : Bool

structure RiskEdge extends TopologyEdge where
  carriesDrift : Bool

/-- The hash is of what stands here. -/
structure RiskPropagationGraph where
  graphId : String
  topologyGraphId : String
  driftReportId : String
  nodes : Dict String RiskNode
  edges : List RiskEdge
  totalNodesAtRisk : Nat
  totalEdgesPropagating : Nat
  maxPropagationDepth : Nat
  criticalNodes : List String
  highNodes : List String

structure DriftPropagationEngine where
  maxPropagationDepth : Nat
  authMultiplier : Int
  stateMultiplier : Int

/-! ### Levels of risk -/

def rank (level : String) : Nat :=
  if level = "INFO" then 1
  else if level = "LOW" then 2
  else if level = "MEDIUM" then 3
  else if level = "HIGH" then 4
  else if level = "CRITICAL" then 5
  else 0

/-- `reverse_order.get(score, "INFO")` -/
def levelOf (score : Int) : String :=
  if score = 0 then "NONE"
  else if score = 2 then "LOW"
  else if score = 3 then "MEDIUM"
  else if score = 4 then "HIGH"
  else if score = 5 then "CRITICAL"
  else "INFO"

/-- The first of the highest levels of a list that is not empty. -/
def maxRiskLevel (first : String) (rest : List String) : String :=
  rest.foldl (fun level other => if rank level < rank other then other else level) first

/-! ### Simulation -/

section Simulate
variable {Q : Type} (engine : DriftPropagationEngine) (S : SetOrder)
  (report : SemanticDriftReport Q) (topology : TopologyGraph)

/-- The severity of the first delta with the id. -/
def deltaRiskLevel (deltaId : String) : String :=
  ((report.deltas.find? fun d => d.deltaId = deltaId).map (·.severity)).getD "INFO"

/-- The delta's path leads to the node, or all of the topology changed. -/
def hits (d : SemanticDelta) (nid : String) : Bool :=
  let topologyWide := d.deltaType = .topologyExpanded ∨ d.deltaType = .topologyContracted ∨
    d.deltaType = .topologyRewired
  match (d.path.toList.splitOn '.').map String.ofList with
  | first :: second :: _ =>
    if first = "nodes" ∨ first = "trust_zones" ∨ first = "capabilities" then second = nid
    else topologyWide
  | _ => topologyWide

/-- What `_map_deltas_to_nodes` collects for a node of the topology, in the order of the deltas. -/
def directDeltas (nid : String) : List String :=
  (report.deltas.filter fun d => hits d nid).map (·.deltaId)

/-- A node of the direct blast radius has deltas of its own. -/
def startNode (nid : String) (node : TopologyNode) : RiskNode :=
  match directDeltas report nid with
  | [] => ⟨nid, node.nodeType, [], [], "NONE", 0, false⟩
  | first :: rest =>
    ⟨nid, node.nodeType, first :: rest, [],
      maxRiskLevel (deltaRiskLevel report first) (rest.map (deltaRiskLevel report)), 0, true⟩

def startNodes : Dict String RiskNode where
  items := topology.nodes.items.map fun item => (item.1, startNode report item.1 item.2)
  nodup := by
    rw [List.map_map]
    exact topology.nodes.nodup

/-- `max` of no levels raises. -/
def propagatedRiskLevel (deltaIds : List String) (depth : Nat) (edge : TopologyEdge) :
    Option String :=
  match deltaIds with
  | [] => none
  | first :: rest =>
    let base := maxRiskLevel (deltaRiskLevel report first) (rest.map (deltaRiskLevel report))
    let decay : Int := depth - (if edge.carriesAuth then engine.authMultiplier else 0) -
      (if edge.carriesState then engine.stateMultiplier else 0)
    some (levelOf (max (rank base - max decay 0) 1))

/-- At risk at a level before. -/
def prevRisk (nodes : Dict String RiskNode) (depth : Nat) (nid : String) : Bool :=
  (nodes.get? nid).any fun n => n.riskLevel ≠ "NONE" && n.propagationDepth < depth

def propagationFrontier (nodes : Dict String RiskNode) (depth : Nat) :
    List (String × List String × TopologyEdge) :=
  topology.edges.filterMap fun edge =>
    if prevRisk nodes depth edge.upstream ∧ ¬ prevRisk nodes depth edge.downstream then
      (nodes.get? edge.upstream).map fun n =>
        (edge.downstream, n.directDeltas ++ n.propagatedDeltas, edge)
    else none

/-- What comes in at a node. One of the direct blast radius keeps its risk. -/
def absorb (depth : Nat) (nodes : Dict String RiskNode)
    (incoming : String × List String × TopologyEdge) : Option (Dict String RiskNode) :=
  match nodes.get? incoming.1 with
  | none => some nodes
  | some existing =>
    if existing.inDirectBlastRadius ∧ existing.propagationDepth = 0 then some nodes
    else do
      let incomingRisk ← propagatedRiskLevel engine report incoming.2.1 depth incoming.2.2
      some (nodes.set incoming.1
        { existing with
          propagatedDeltas := S.order (existing.propagatedDeltas ++ incoming.2.1).dedup
          riskLevel := maxRiskLevel existing.riskLevel [incomingRisk]
          propagationDepth := if 0 < existing.propagationDepth then
            min existing.propagationDepth depth else depth })

def propagateLevel (nodes : Dict String RiskNode) (depth : Nat) : Option (Dict String RiskNode) :=
  (propagationFrontier topology nodes depth).foldlM (absorb engine S report depth) nodes

def propagate (levels : Nat) : Option (Dict String RiskNode) :=
  (List.range' 1 levels).foldlM (propagateLevel engine S report topology)
    (startNodes report topology)

def atRisk (nodes : Dict String RiskNode) (nid : String) : Bool :=
  (nodes.get? nid).any fun n => n.riskLevel ≠ "NONE"

/-- What the drift puts at risk, node by node and edge by edge. -/
def simulate : Option RiskPropagationGraph := do
  let nodes ← propagate engine S report topology engine.maxPropagationDepth
  let edges : List RiskEdge := topology.edges.map fun edge => ⟨edge, atRisk nodes edge.downstream⟩
  let values := nodes.items.map Prod.snd
  some
    { graphId := "risk_" ++ topology.graphId ++ "_" ++ report.reportId
      topologyGraphId := topology.graphId
      driftReportId := report.reportId
      nodes := nodes
      edges := edges
      totalNodesAtRisk := values.countP fun n => n.riskLevel ≠ "NONE"
      totalEdgesPropagating := edges.countP (·.carriesDrift)
      maxPropagationDepth := (values.map (·.propagationDepth)).foldl max 0
      criticalNodes := sortBy id
        ((values.filter fun n => n.riskLevel = "CRITICAL").map (·.nodeId))
      highNodes := sortBy id ((values.filter fun n => n.riskLevel = "HIGH").map (·.nodeId)) }

end Simulate

/-! ### Walks -/

section Specification
variable {Q : Type} (report : SemanticDriftReport Q) (topology : TopologyGraph)

/-- A node that a delta hits. -/
def Hit (nid : String) : Prop :=
  topology.nodes.contains nid = true ∧ ∃ d ∈ report.deltas, hits d nid = true

/-- A way of so many edges through nodes of the topology, from a node that is hit. -/
inductive Walk : Nat → String → Prop
  | start {nid : String} (hit : Hit report topology nid) : Walk 0 nid
  | step {n : Nat} {edge : TopologyEdge} (walk : Walk n edge.upstream)
    (edge_mem : edge ∈ topology.edges)
    (node : topology.nodes.contains edge.downstream = true) : Walk (n + 1) edge.downstream

/-- A walk of no more steps than the depth leads there. -/
def WithinDepth (depth : Nat) (nid : String) : Prop := ∃ n ≤ depth, Walk report topology n nid

/-- The severities of the deltas that hit a node. -/
def ownSeverities (nid : String) : List String :=
  (report.deltas.filter fun d => hits d nid).map (·.severity)

/-- A level of the list that no other outranks. -/
def IsHighest (levels : List String) (level : String) : Prop :=
  level ∈ levels ∧ ∀ other ∈ levels, rank other ≤ rank level

/-- Bounded breadth-first reachability. -/
structure Propagates (depth : Nat) (g : RiskPropagationGraph) : Prop where
  keys : ∀ nid, g.nodes.contains nid = topology.nodes.contains nid
  risk : ∀ nid node, g.nodes.get? nid = some node →
    (node.riskLevel ≠ "NONE" ↔ WithinDepth report topology depth nid)
  distance : ∀ nid node, g.nodes.get? nid = some node → WithinDepth report topology depth nid →
    Walk report topology node.propagationDepth nid ∧
      ∀ n < node.propagationDepth, ¬ Walk report topology n nid
  direct : ∀ nid node, g.nodes.get? nid = some node → Hit report topology nid →
    IsHighest (ownSeverities report nid) node.riskLevel
  carries : ∀ edge ∈ g.edges, edge.carriesDrift = true →
    ∃ node, g.nodes.get? edge.upstream = some node ∧ node.riskLevel ≠ "NONE"

/-- The severities that the ids of a hit node's deltas find. -/
def foundSeverities (nid : String) : List String :=
  (directDeltas report nid).map (deltaRiskLevel report)

/-- For the hit nodes the highest severity that is found is the highest of their own and not
`NONE`, and no edge leads from outside into what is within the depth. -/
structure Faithful (depth : Nat) : Prop where
  severities : ∀ nid, Hit report topology nid → ∃ first rest,
    foundSeverities report nid = first :: rest ∧ maxRiskLevel first rest ≠ "NONE" ∧
      IsHighest (ownSeverities report nid) (maxRiskLevel first rest)
  edges : ∀ edge ∈ topology.edges, WithinDepth report topology depth edge.downstream →
    WithinDepth report topology depth edge.upstream

end Specification

/-! ### Levels of risk are ordered -/

section Levels
variable {Q : Type} {engine : DriftPropagationEngine} {report : SemanticDriftReport Q}

theorem levelOf_ne (score : Int) (h : 1 ≤ score) : levelOf score ≠ "NONE" := by
  rw [levelOf, if_neg (by omega)]
  split_ifs <;> decide

theorem rank_pos_of_levelOf (score : Int) (h : 1 ≤ score) : 1 ≤ rank (levelOf score) := by
  rw [levelOf, if_neg (by omega)]
  split_ifs <;> decide

theorem maxRiskLevel_pair_ne {existing incoming : String} (h : 1 ≤ rank incoming)
    (hne : incoming ≠ "NONE") : maxRiskLevel existing [incoming] ≠ "NONE" := by
  rw [maxRiskLevel, List.foldl_cons, List.foldl_nil]
  split_ifs with hlt
  · exact hne
  · rintro rfl
    exact hlt (lt_of_lt_of_le (by decide) h)

theorem propagatedRiskLevel_some {deltaIds : List String} (h : deltaIds ≠ []) (depth : Nat)
    (edge : TopologyEdge) : ∃ level,
      propagatedRiskLevel engine report deltaIds depth edge = some level ∧ level ≠ "NONE" ∧
        1 ≤ rank level := by
  obtain ⟨first, rest, rfl⟩ := List.exists_cons_of_ne_nil h
  exact ⟨_, rfl, levelOf_ne _ (le_max_right _ _), rank_pos_of_levelOf _ (le_max_right _ _)⟩

end Levels

/-! ### Start -/

section Start
variable {Q : Type} {report : SemanticDriftReport Q} {topology : TopologyGraph} {nid : String}
  {node : RiskNode}

theorem get?_startNodes (nid : String) : (startNodes report topology).get? nid =
    (topology.nodes.get? nid).map (startNode report nid) := by
  refine Option.ext fun node => ?_
  rw [← Dict.mem_items, startNodes, List.mem_map, Option.map_eq_some_iff]
  constructor
  · rintro ⟨item, hitem, heq⟩
    obtain ⟨rfl, rfl⟩ := Prod.mk.inj heq
    exact ⟨item.2, (topology.nodes.mem_items).mp hitem, rfl⟩
  · rintro ⟨tnode, htnode, rfl⟩
    exact ⟨(nid, tnode), (topology.nodes.mem_items).mpr htnode, rfl⟩

theorem directDeltas_ne_nil :
    directDeltas report nid ≠ [] ↔ ∃ d ∈ report.deltas, hits d nid = true := by
  rw [directDeltas, ne_eq, List.map_eq_nil_iff, List.filter_eq_nil_iff]
  simp

variable (report) in
/-- A start node has its found severities' highest, if it is hit, and no risk if not. -/
theorem startNode_cases (nid : String) (tnode : TopologyNode) :
    (directDeltas report nid = [] ∧ startNode report nid tnode =
        ⟨nid, tnode.nodeType, [], [], "NONE", 0, false⟩) ∨
      ∃ first rest, directDeltas report nid = first :: rest ∧ startNode report nid tnode =
        ⟨nid, tnode.nodeType, first :: rest, [],
          maxRiskLevel (deltaRiskLevel report first) (rest.map (deltaRiskLevel report)), 0,
          true⟩ := by
  cases hdeltas : directDeltas report nid with
  | nil => exact .inl ⟨rfl, by rw [startNode, hdeltas]⟩
  | cons first rest => exact .inr ⟨first, rest, rfl, by rw [startNode, hdeltas]⟩

end Start

/-! ### One level -/

section Level
variable {Q : Type} {engine : DriftPropagationEngine} {S : SetOrder} {nid : String}
  {report : SemanticDriftReport Q} {topology : TopologyGraph}
  {nodes nodes' : Dict String RiskNode} {depth : Nat} {edge : TopologyEdge}

/-- A node of the direct blast radius at depth 0 stays as it is. -/
theorem absorb_direct {incoming : String × List String × TopologyEdge}
    {node : RiskNode} (h : absorb engine S report depth nodes incoming = some nodes')
    (hnode : nodes.get? nid = some node) (hdirect : node.inDirectBlastRadius = true)
    (hdepth : node.propagationDepth = 0) : nodes'.get? nid = some node := by
  rw [absorb] at h
  split at h
  · obtain rfl := Option.some.inj h
    exact hnode
  · rename_i existing hexisting
    split at h
    · obtain rfl := Option.some.inj h
      exact hnode
    · rename_i hnot
      obtain ⟨level, -, hset⟩ := Option.bind_eq_some_iff.mp h
      obtain rfl := Option.some.inj hset
      have hne : incoming.1 ≠ nid := by
        rintro rfl
        rw [hnode, Option.some_inj] at hexisting
        subst hexisting
        exact hnot ⟨hdirect, hdepth⟩
      rw [Dict.get?_set_ne hne, hnode]

/-- What stays of a dictionary in each step stays in a loop. -/
theorem foldlM_keeps {α β : Type} {f : β → α → Option β} {P : β → Prop}
    (hstep : ∀ b a b', f b a = some b' → P b → P b') {xs : List α} {b b' : β}
    (h : xs.foldlM f b = some b') (hP : P b) : P b' := by
  induction xs generalizing b with
  | nil =>
    obtain rfl := Option.some.inj h
    exact hP
  | cons a xs ih =>
    rw [List.foldlM_cons] at h
    obtain ⟨next, hnext, hrest⟩ := Option.bind_eq_some_iff.mp h
    exact ih hrest (hstep b a next hnext hP)

theorem propagate_direct {levels : Nat} {node : RiskNode}
    (h : propagate engine S report topology levels = some nodes)
    (hnode : (startNodes report topology).get? nid = some node)
    (hdirect : node.inDirectBlastRadius = true) (hdepth : node.propagationDepth = 0) :
    nodes.get? nid = some node := by
  refine foldlM_keeps (P := fun nodes => nodes.get? nid = some node) ?_ h hnode
  intro nodes level nodes' hlevel hnodes
  refine foldlM_keeps (P := fun nodes => nodes.get? nid = some node) ?_ hlevel hnodes
  exact fun nodes incoming nodes' hincoming hnodes => absorb_direct hincoming hnodes hdirect hdepth

/-- Round for round the nodes at risk are those within the depth, at their distances. -/
structure Levels (report : SemanticDriftReport Q) (topology : TopologyGraph) (depth : Nat)
    (nodes : Dict String RiskNode) : Prop where
  keys : ∀ nid, nodes.contains nid = topology.nodes.contains nid
  risk : ∀ nid node, nodes.get? nid = some node →
    (node.riskLevel ≠ "NONE" ↔ WithinDepth report topology depth nid)
  distance : ∀ nid node, nodes.get? nid = some node → WithinDepth report topology depth nid →
    Walk report topology node.propagationDepth nid ∧
      ∀ n < node.propagationDepth, ¬ Walk report topology n nid
  fresh : ∀ nid node, nodes.get? nid = some node → ¬ WithinDepth report topology depth nid →
    node.propagationDepth = 0 ∧ node.inDirectBlastRadius = false
  deltas : ∀ nid node, nodes.get? nid = some node → WithinDepth report topology depth nid →
    node.directDeltas ++ node.propagatedDeltas ≠ []

theorem Walk.contains {n : Nat} (h : Walk report topology n nid) :
    topology.nodes.contains nid = true := by
  cases h with
  | start hit => exact hit.1
  | step _ _ node => exact node

theorem WithinDepth.mono {d d' : Nat} (h : WithinDepth report topology d nid)
    (hle : d ≤ d') : WithinDepth report topology d' nid :=
  let ⟨n, hn, hwalk⟩ := h
  ⟨n, hn.trans hle, hwalk⟩

theorem withinDepth_zero :
    WithinDepth report topology 0 nid ↔ Hit report topology nid := by
  constructor
  · rintro ⟨n, hn, hwalk⟩
    obtain rfl := Nat.le_zero.mp hn
    cases hwalk with
    | start hit => exact hit
  · exact fun hit => ⟨0, le_rfl, .start hit⟩

/-- Behind the edges of what is within the depth comes the next level. -/
theorem withinDepth_succ : WithinDepth report topology (depth + 1) nid ↔
    WithinDepth report topology depth nid ∨ topology.nodes.contains nid = true ∧
      ∃ edge ∈ topology.edges, edge.downstream = nid ∧
        WithinDepth report topology depth edge.upstream := by
  constructor
  · rintro ⟨n, hn, hwalk⟩
    cases hwalk with
    | start hit => exact .inl ⟨0, Nat.zero_le _, .start hit⟩
    | @step n edge walk hedge node =>
      exact .inr ⟨node, edge, hedge, rfl, n, Nat.le_of_succ_le_succ hn, walk⟩
  · rintro (h | ⟨hnode, edge, hedge, rfl, n, hn, hwalk⟩)
    · exact h.mono (Nat.le_succ _)
    · exact ⟨n + 1, Nat.succ_le_succ hn, .step hwalk hedge hnode⟩

theorem contains_of_get? {V : Type} {d : Dict String V} {v : V}
    (h : d.get? nid = some v) : d.contains nid = true := Dict.contains_iff.mpr ⟨v, h⟩

theorem levels_start (h : ∀ nid, Hit report topology nid → ∃ first rest,
      foundSeverities report nid = first :: rest ∧ maxRiskLevel first rest ≠ "NONE") :
    Levels report topology 0 (startNodes report topology) := by
  have hstart : ∀ nid node, (startNodes report topology).get? nid = some node →
      (¬ Hit report topology nid ∧ node.riskLevel = "NONE" ∧ node.inDirectBlastRadius = false ∧
        node.propagationDepth = 0) ∨
      (Hit report topology nid ∧ node.riskLevel ≠ "NONE" ∧ node.propagationDepth = 0 ∧
        node.directDeltas ++ node.propagatedDeltas ≠ []) := by
    intro nid node hnode
    rw [get?_startNodes, Option.map_eq_some_iff] at hnode
    obtain ⟨tnode, htnode, rfl⟩ := hnode
    rcases startNode_cases report nid tnode with ⟨hnone, heq⟩ | ⟨first, rest, hdeltas, heq⟩
    · refine .inl ⟨fun hhit => directDeltas_ne_nil.mpr hhit.2 hnone, ?_⟩
      rw [heq]
      exact ⟨rfl, rfl, rfl⟩
    · have hhit : Hit report topology nid :=
        ⟨contains_of_get? htnode, directDeltas_ne_nil.mp (hdeltas ▸ List.cons_ne_nil _ _)⟩
      obtain ⟨level, levels, hfound, hne⟩ := h nid hhit
      rw [foundSeverities, hdeltas, List.map_cons] at hfound
      obtain ⟨rfl, rfl⟩ := List.cons.inj hfound
      rw [heq]
      exact .inr ⟨hhit, hne, rfl, by simp⟩
  constructor
  · intro nid
    rw [Dict.contains, get?_startNodes, Option.isSome_map]
    rfl
  · intro nid node hnode
    rw [withinDepth_zero]
    rcases hstart nid node hnode with ⟨hnot, hnone, -⟩ | ⟨hhit, hrisk, -⟩
    · exact ⟨fun hne => absurd hnone hne, fun hhit => absurd hhit hnot⟩
    · exact ⟨fun _ => hhit, fun _ => hrisk⟩
  · intro nid node hnode hwithin
    rcases hstart nid node hnode with ⟨hnot, -⟩ | ⟨hhit, -, hdepth, -⟩
    · exact absurd (withinDepth_zero.mp hwithin) hnot
    · rw [hdepth]
      exact ⟨.start hhit, fun n hn => absurd hn (Nat.not_lt_zero n)⟩
  · intro nid node hnode hwithin
    rcases hstart nid node hnode with ⟨-, -, hdirect, hdepth⟩ | ⟨hhit, -⟩
    · exact ⟨hdepth, hdirect⟩
    · exact absurd (withinDepth_zero.mpr hhit) hwithin
  · intro nid node hnode hwithin
    rcases hstart nid node hnode with ⟨hnot, -⟩ | ⟨-, -, -, hdeltas⟩
    · exact absurd (withinDepth_zero.mp hwithin) hnot
    · exact hdeltas

theorem prevRisk_iff (h : Levels report topology depth nodes) :
    prevRisk nodes (depth + 1) nid = true ↔ WithinDepth report topology depth nid := by
  rw [prevRisk]
  cases hnode : nodes.get? nid with
  | none =>
    refine ⟨fun hany => by simp at hany, fun ⟨n, _, hwalk⟩ => ?_⟩
    have hcontains := hwalk.contains
    rw [← h.keys, Dict.contains, hnode] at hcontains
    cases hcontains
  | some node =>
    rw [Option.any_some, Bool.and_eq_true, decide_eq_true_eq, decide_eq_true_eq,
      h.risk nid node hnode]
    refine ⟨fun hboth => hboth.1, fun hwithin => ⟨hwithin, ?_⟩⟩
    obtain ⟨n, hn, hwalk⟩ := hwithin
    have hshortest := (h.distance nid node hnode ⟨n, hn, hwalk⟩).2
    by_contra hdeep
    exact hshortest n (by omega) hwalk

/-- What the frontier leads to comes one level behind. -/
theorem mem_frontier (h : Levels report topology depth nodes) {deltas : List String}
    (hmem : (nid, deltas, edge) ∈ propagationFrontier topology nodes (depth + 1)) :
    edge ∈ topology.edges ∧ edge.downstream = nid ∧
      WithinDepth report topology depth edge.upstream ∧ ¬ WithinDepth report topology depth nid ∧
        deltas ≠ [] := by
  obtain ⟨edge', hedge, hfront⟩ := List.mem_filterMap.mp hmem
  split at hfront
  · rename_i hrisk
    rw [prevRisk_iff h, prevRisk_iff h] at hrisk
    obtain ⟨node, hnode, heq⟩ := Option.map_eq_some_iff.mp hfront
    obtain ⟨rfl, hrest⟩ := Prod.mk.inj heq
    obtain ⟨rfl, rfl⟩ := Prod.mk.inj hrest
    exact ⟨hedge, rfl, hrisk.1, hrisk.2, h.deltas _ node hnode hrisk.1⟩
  · cases hfront

theorem mem_frontier_of_edge (h : Levels report topology depth nodes)
    (hedge : edge ∈ topology.edges) (hup : WithinDepth report topology depth edge.upstream)
    (hdown : ¬ WithinDepth report topology depth edge.downstream) :
    edge.downstream ∈ (propagationFrontier topology nodes (depth + 1)).map Prod.fst := by
  obtain ⟨n, -, hwalk⟩ := id hup
  have hcontains := hwalk.contains
  rw [← h.keys] at hcontains
  obtain ⟨node, hnode⟩ := Dict.contains_iff.mp hcontains
  refine List.mem_map.mpr ⟨(edge.downstream, node.directDeltas ++ node.propagatedDeltas, edge), ?_,
    rfl⟩
  refine List.mem_filterMap.mpr ⟨edge, hedge, ?_⟩
  rw [if_pos ⟨(prevRisk_iff h).mpr hup, fun hrisk => hdown ((prevRisk_iff h).mp hrisk)⟩, hnode]
  rfl

/-- In the middle of a round: what was met is at risk at the round's level. -/
structure Advanced (before : Dict String RiskNode) (depth : Nat) (met : List String)
    (nodes : Dict String RiskNode) : Prop where
  keys : ∀ nid, nodes.contains nid = before.contains nid
  others : ∀ nid, nid ∉ met → nodes.get? nid = before.get? nid
  met : ∀ nid node, nid ∈ met → nodes.get? nid = some node → node.riskLevel ≠ "NONE" ∧
    node.propagationDepth = depth + 1 ∧ node.inDirectBlastRadius = false ∧
      node.directDeltas ++ node.propagatedDeltas ≠ []

theorem absorb_advances {before : Dict String RiskNode} (h : Levels report topology depth before)
    {met : List String} (hnodes : Advanced before depth met nodes)
    {deltas : List String} (hdeltas : deltas ≠ [])
    (hnew : ¬ WithinDepth report topology depth nid) :
    ∃ nodes', absorb engine S report (depth + 1) nodes (nid, deltas, edge) = some nodes' ∧
      Advanced before depth (nid :: met) nodes' := by
  cases hnode : nodes.get? nid with
  | none =>
    refine ⟨nodes, by rw [absorb, hnode], hnodes.keys, fun other hother => ?_,
      fun other node hother hget => ?_⟩
    · exact hnodes.others other fun hmem => hother (List.mem_cons_of_mem _ hmem)
    · rcases List.mem_cons.mp hother with rfl | hother
      · rw [hnode] at hget
        cases hget
      · exact hnodes.met other node hother hget
  | some existing =>
    have hexisting : existing.inDirectBlastRadius = false ∧
        (existing.propagationDepth = 0 ∨ existing.propagationDepth = depth + 1) := by
      by_cases hmet : nid ∈ met
      · obtain ⟨-, hdepth, hdirect, -⟩ := hnodes.met nid existing hmet hnode
        exact ⟨hdirect, .inr hdepth⟩
      · obtain ⟨hdepth, hdirect⟩ :=
          h.fresh nid existing ((hnodes.others nid hmet).symm.trans hnode) hnew
        exact ⟨hdirect, .inl hdepth⟩
    obtain ⟨level, hlevel, hne, hrank⟩ : ∃ level,
        propagatedRiskLevel engine report deltas (depth + 1) edge = some level ∧
          level ≠ "NONE" ∧ 1 ≤ rank level :=
      propagatedRiskLevel_some hdeltas (depth + 1) edge
    refine ⟨nodes.set nid
      { existing with
        propagatedDeltas := S.order (existing.propagatedDeltas ++ deltas).dedup
        riskLevel := maxRiskLevel existing.riskLevel [level]
        propagationDepth := if 0 < existing.propagationDepth then
          min existing.propagationDepth (depth + 1) else depth + 1 }, ?_, ?_⟩
    · rw [absorb, hnode]
      dsimp only
      rw [if_neg (by simp [hexisting.1]), hlevel]
      rfl
    · constructor
      · intro other
        by_cases heq : nid = other
        · subst heq
          rw [Dict.contains, Dict.get?_set_self, ← hnodes.keys, Dict.contains, hnode]
          rfl
        · rw [Dict.contains, Dict.get?_set_ne heq]
          exact hnodes.keys other
      · intro other hother
        have hne' : nid ≠ other := fun heq => hother (heq ▸ List.mem_cons_self ..)
        rw [Dict.get?_set_ne hne']
        exact hnodes.others other fun hmem => hother (List.mem_cons_of_mem _ hmem)
      · intro other node hother hget
        by_cases heq : nid = other
        · subst heq
          rw [Dict.get?_set_self, Option.some_inj] at hget
          subst hget
          refine ⟨maxRiskLevel_pair_ne hrank hne, ?_, hexisting.1, ?_⟩
          · dsimp only
            rcases hexisting.2 with hdepth | hdepth
            · rw [hdepth, if_neg (lt_irrefl _)]
            · rw [hdepth, if_pos (Nat.succ_pos _), min_self]
          · intro hnil
            have hnone : S.order (existing.propagatedDeltas ++ deltas).dedup = [] :=
              (List.append_eq_nil_iff.mp hnil).2
            obtain ⟨first, rest, rfl⟩ := List.exists_cons_of_ne_nil hdeltas
            have hmem : first ∈ (existing.propagatedDeltas ++ first :: rest).dedup :=
              List.mem_dedup.mpr (List.mem_append_right _ (List.mem_cons_self ..))
            rw [← (S.perm _).mem_iff, hnone] at hmem
            exact List.not_mem_nil hmem
        · rw [Dict.get?_set_ne heq] at hget
          exact hnodes.met other node ((List.mem_cons.mp hother).resolve_left (Ne.symm heq)) hget

/-- A round meets all that its frontier leads to. -/
theorem foldlM_advances {before : Dict String RiskNode} (h : Levels report topology depth before)
    {frontier : List (String × List String × TopologyEdge)}
    (hfrontier : ∀ x ∈ frontier, x.2.1 ≠ [] ∧ ¬ WithinDepth report topology depth x.1)
    {met : List String} (hnodes : Advanced before depth met nodes) :
    ∃ nodes' met', frontier.foldlM (absorb engine S report (depth + 1)) nodes = some nodes' ∧
      Advanced before depth met' nodes' ∧
        ∀ nid, nid ∈ met' ↔ nid ∈ met ∨ nid ∈ frontier.map Prod.fst := by
  induction frontier generalizing nodes met with
  | nil => exact ⟨nodes, met, rfl, hnodes, fun nid => by simp⟩
  | cons x frontier ih =>
    obtain ⟨⟨hdeltas, hnew⟩, hrest⟩ := List.forall_mem_cons.mp hfrontier
    obtain ⟨next, hnext, hadvanced⟩ : ∃ nodes',
        absorb engine S report (depth + 1) nodes x = some nodes' ∧
          Advanced before depth (x.1 :: met) nodes' := absorb_advances h hnodes hdeltas hnew
    obtain ⟨nodes', met', hfold, hmet, hmem⟩ := ih hrest hadvanced
    refine ⟨nodes', met', ?_, hmet, fun nid => ?_⟩
    · rw [List.foldlM_cons, hnext]
      exact hfold
    · rw [hmem, List.mem_cons, List.map_cons, List.mem_cons]
      exact or_right_comm.trans or_assoc |>.trans (by tauto)

theorem levels_succ (h : Levels report topology depth nodes) :
    ∃ nodes', propagateLevel engine S report topology nodes (depth + 1) = some nodes' ∧
      Levels report topology (depth + 1) nodes' := by
  have hfrontier : ∀ x ∈ propagationFrontier topology nodes (depth + 1),
      x.2.1 ≠ [] ∧ ¬ WithinDepth report topology depth x.1 := by
    intro x hx
    obtain ⟨-, -, -, hnew, hdeltas⟩ := mem_frontier h hx
    exact ⟨hdeltas, hnew⟩
  have hstart : Advanced nodes depth [] nodes :=
    ⟨fun _ => rfl, fun _ _ => rfl, fun nid node hmem => absurd hmem List.not_mem_nil⟩
  obtain ⟨nodes', met, hfold, hadvanced, hmet⟩ := foldlM_advances h hfrontier hstart
  refine ⟨nodes', hfold, ?_⟩
  -- what was met is on the next level, the rest is as it was
  have hcases : ∀ nid node, nodes'.get? nid = some node →
      (Walk report topology (depth + 1) nid ∧ ¬ WithinDepth report topology depth nid ∧
        node.riskLevel ≠ "NONE" ∧ node.propagationDepth = depth + 1 ∧
          node.directDeltas ++ node.propagatedDeltas ≠ []) ∨
      (nodes.get? nid = some node ∧
        (WithinDepth report topology (depth + 1) nid ↔ WithinDepth report topology depth nid)) := by
    intro nid node hnode
    by_cases hmem : nid ∈ met
    · obtain ⟨hrisk, hdepth, -, hdeltas⟩ := hadvanced.met nid node hmem hnode
      have hfront := ((hmet nid).mp hmem).resolve_left List.not_mem_nil
      obtain ⟨⟨_, deltas, edge⟩, hx, rfl⟩ := List.mem_map.mp hfront
      obtain ⟨hedge, rfl, ⟨n, hn, hwalk⟩, hnew, -⟩ := mem_frontier h hx
      have hcontains : topology.nodes.contains edge.downstream = true := by
        rw [← h.keys, ← hadvanced.keys]
        exact contains_of_get? hnode
      have hstep := Walk.step hwalk hedge hcontains
      obtain rfl : n = depth := by
        by_contra hne
        exact hnew ⟨n + 1, by omega, hstep⟩
      exact .inl ⟨hstep, hnew, hrisk, hdepth, hdeltas⟩
    · refine .inr ⟨(hadvanced.others nid hmem).symm.trans hnode, ?_⟩
      rw [withinDepth_succ]
      refine or_iff_left_of_imp fun ⟨_, edge, hedge, hdown, hup⟩ => ?_
      by_contra hnew
      subst hdown
      exact hmem ((hmet _).mpr (.inr (mem_frontier_of_edge h hedge hup hnew)))
  constructor
  · exact fun nid => (hadvanced.keys nid).trans (h.keys nid)
  · intro nid node hnode
    rcases hcases nid node hnode with ⟨hwalk, -, hrisk, -⟩ | ⟨hbefore, hsame⟩
    · exact ⟨fun _ => ⟨depth + 1, le_rfl, hwalk⟩, fun _ => hrisk⟩
    · rw [hsame]
      exact h.risk nid node hbefore
  · intro nid node hnode hwithin
    rcases hcases nid node hnode with ⟨hwalk, hnew, -, hdepth, -⟩ | ⟨hbefore, hsame⟩
    · rw [hdepth]
      exact ⟨hwalk, fun n hn hshorter => hnew ⟨n, Nat.le_of_lt_succ hn, hshorter⟩⟩
    · exact h.distance nid node hbefore (hsame.mp hwithin)
  · intro nid node hnode hwithin
    rcases hcases nid node hnode with ⟨hwalk, -⟩ | ⟨hbefore, hsame⟩
    · exact absurd ⟨depth + 1, le_rfl, hwalk⟩ hwithin
    · exact h.fresh nid node hbefore fun h => hwithin (hsame.mpr h)
  · intro nid node hnode hwithin
    rcases hcases nid node hnode with ⟨-, -, -, -, hdeltas⟩ | ⟨hbefore, hsame⟩
    · exact hdeltas
    · exact h.deltas nid node hbefore (hsame.mp hwithin)

theorem levels_rounds (rounds : Nat) (h : Levels report topology depth nodes) :
    ∃ nodes', (List.range' (depth + 1) rounds).foldlM (propagateLevel engine S report topology)
        nodes = some nodes' ∧ Levels report topology (depth + rounds) nodes' := by
  induction rounds generalizing depth nodes with
  | zero => exact ⟨nodes, rfl, h⟩
  | succ rounds ih =>
    obtain ⟨next, hnext, hlevels⟩ : ∃ nodes',
        propagateLevel engine S report topology nodes (depth + 1) = some nodes' ∧
          Levels report topology (depth + 1) nodes' := levels_succ h
    obtain ⟨nodes', hrest, hlast⟩ := ih hlevels
    refine ⟨nodes', ?_, ?_⟩
    · rw [List.range'_succ, List.foldlM_cons, hnext]
      exact hrest
    · rwa [Nat.add_right_comm] at hlast

end Level

/-! ### The whole simulation -/

section Propagation
variable {Q : Type} {engine : DriftPropagationEngine} {S : SetOrder}
  {report : SemanticDriftReport Q} {topology : TopologyGraph}
  {nodes : Dict String RiskNode} {g : RiskPropagationGraph}

theorem exists_of_simulate (h : simulate engine S report topology = some g) :
    ∃ nodes, propagate engine S report topology engine.maxPropagationDepth = some nodes ∧
      g.nodes = nodes ∧
        g.edges = topology.edges.map fun edge => ⟨edge, atRisk nodes edge.downstream⟩ := by
  obtain ⟨nodes, hnodes, hg⟩ := Option.bind_eq_some_iff.mp h
  obtain rfl := Option.some.inj hg
  exact ⟨nodes, hnodes, rfl, rfl⟩

/-- A node that is hit keeps the highest of the severities that are found. -/
theorem direct_riskLevel {levels : Nat} (h : propagate engine S report topology levels = some nodes)
    {nid : String} (hhit : Hit report topology nid) :
    ∃ first rest, foundSeverities report nid = first :: rest ∧
      ∃ node, nodes.get? nid = some node ∧ node.riskLevel = maxRiskLevel first rest := by
  obtain ⟨tnode, htnode⟩ := Dict.contains_iff.mp hhit.1
  rcases startNode_cases report nid tnode with ⟨hnone, -⟩ | ⟨first, rest, hdeltas, heq⟩
  · exact absurd hnone (directDeltas_ne_nil.mpr hhit.2)
  · have hnode : (startNodes report topology).get? nid = some (startNode report nid tnode) := by
      rw [get?_startNodes, htnode]
      rfl
    have hkept := propagate_direct h hnode (by rw [heq]) (by rw [heq])
    exact ⟨_, _, by rw [foundSeverities, hdeltas]; rfl, _, hkept, by rw [heq]⟩

theorem atRisk_iff {depth : Nat} (h : Levels report topology depth nodes) {nid : String} :
    atRisk nodes nid = true ↔ WithinDepth report topology depth nid := by
  rw [← prevRisk_iff h, prevRisk, atRisk]
  cases hnode : nodes.get? nid with
  | none => rfl
  | some node =>
    rw [Option.any_some, Option.any_some, Bool.and_eq_true, decide_eq_true_eq, decide_eq_true_eq]
    refine ⟨fun hrisk => ⟨hrisk, ?_⟩, fun hboth => hboth.1⟩
    obtain ⟨n, hn, hwalk⟩ := (h.risk nid node hnode).mp hrisk
    have hshortest := (h.distance nid node hnode ⟨n, hn, hwalk⟩).2
    by_contra hdeep
    exact hshortest n (by omega) hwalk

theorem faithful_of_propagates (hg : simulate engine S report topology = some g)
    (h : Propagates report topology engine.maxPropagationDepth g) :
    Faithful report topology engine.maxPropagationDepth := by
  obtain ⟨nodes, hnodes, hgnodes, hgedges⟩ := exists_of_simulate hg
  have hseverities : ∀ nid, Hit report topology nid → ∃ first rest,
      foundSeverities report nid = first :: rest ∧ maxRiskLevel first rest ≠ "NONE" ∧
        IsHighest (ownSeverities report nid) (maxRiskLevel first rest) := by
    intro nid hhit
    obtain ⟨first, rest, hfound, node, hnode, hlevel⟩ := direct_riskLevel hnodes hhit
    rw [← hgnodes] at hnode
    refine ⟨first, rest, hfound, ?_, hlevel ▸ h.direct nid node hnode hhit⟩
    rw [← hlevel, h.risk nid node hnode]
    exact ⟨0, Nat.zero_le _, .start hhit⟩
  refine ⟨hseverities, fun edge hedge hdown => ?_⟩
  obtain ⟨n, -, hwalk⟩ := id hdown
  have hcontains := hwalk.contains
  rw [← h.keys] at hcontains
  obtain ⟨node, hnode⟩ := Dict.contains_iff.mp hcontains
  have hrisk := (h.risk _ node hnode).mpr hdown
  have hcarries : (⟨edge, atRisk nodes edge.downstream⟩ : RiskEdge) ∈ g.edges := by
    rw [hgedges]
    exact List.mem_map_of_mem hedge
  obtain ⟨up, hup, huprisk⟩ := h.carries _ hcarries (by
    rw [hgnodes] at hnode
    rw [atRisk, hnode]
    simpa using hrisk)
  exact (h.risk _ up hup).mp huprisk

/-- The simulation is bounded breadth-first reachability exactly if the severities found by id
are those of the deltas, with a risk, and no edge leads into what is within the depth from
outside of it. -/
theorem propagation_iff :
    (∃ g, simulate engine S report topology = some g ∧
      Propagates report topology engine.maxPropagationDepth g) ↔
      Faithful report topology engine.maxPropagationDepth := by
  constructor
  · exact fun ⟨g, hg, h⟩ => faithful_of_propagates hg h
  · intro h
    have hstart : Levels report topology 0 (startNodes report topology) := by
      refine levels_start fun nid hhit => ?_
      obtain ⟨first, rest, hfound, hne, -⟩ := h.severities nid hhit
      exact ⟨first, rest, hfound, hne⟩
    obtain ⟨nodes, hnodes, hlevels⟩ : ∃ nodes,
        propagate engine S report topology engine.maxPropagationDepth = some nodes ∧
          Levels report topology (0 + engine.maxPropagationDepth) nodes :=
      levels_rounds engine.maxPropagationDepth hstart
    rw [Nat.zero_add] at hlevels
    refine ⟨_, congrArg (· >>= _) hnodes, ?_⟩
    refine ⟨hlevels.keys, hlevels.risk, hlevels.distance, fun nid node hnode hhit => ?_,
      fun redge hmem hcarries => ?_⟩
    · obtain ⟨first, rest, hfound, node', hnode', hlevel⟩ := direct_riskLevel hnodes hhit
      obtain ⟨first', rest', hfound', -, hhighest⟩ := h.severities nid hhit
      obtain ⟨rfl, rfl⟩ := List.cons.inj (hfound.symm.trans hfound')
      obtain rfl := Option.some.inj (hnode.symm.trans hnode')
      rwa [hlevel]
    · obtain ⟨edge, hedge, rfl⟩ := List.mem_map.mp hmem
      obtain ⟨n, hn, hwalk⟩ := h.edges edge hedge ((atRisk_iff hlevels).mp hcarries)
      have hcontains := hwalk.contains
      rw [← hlevels.keys] at hcontains
      obtain ⟨node, hnode⟩ := Dict.contains_iff.mp hcontains
      exact ⟨node, hnode, (hlevels.risk _ node hnode).mpr ⟨n, hn, hwalk⟩⟩

end Propagation

/-! ### An edge from outside -/

def outside : TopologyGraph where
  graphId := "g"
  nodes :=
    ⟨[("a", ⟨"a", "SERVICE", [], [], "", "", ""⟩), ("b", ⟨"b", "SERVICE", [], [], "", "", ""⟩)],
      by decide⟩
  edges := [⟨"e", "a", "b", "DEPENDS_ON", false, false⟩]

def changed : SemanticDriftReport Unit where
  reportId := "r"
  baselineSnapshotId := ""
  modifiedSnapshotId := ""
  deltas := [⟨"d", .nodeAdded, "nodes.b", "", .none, .none, "HIGH", ""⟩]
  deltaCounts := .empty
  highSeverityDeltas := []
  totalDriftScore := ()
  structuralDrift := ()
  semanticDrift := ()

def standardEngine : DriftPropagationEngine := ⟨6, 2, 1⟩

/-- The edge from `a` is marked, but only `b` is at risk. -/
theorem not_propagates_outside : ¬ ∃ g,
    simulate standardEngine ⟨id, List.Perm.refl⟩ changed outside = some g ∧
      Propagates changed outside standardEngine.maxPropagationDepth g := by
  rintro ⟨g, hg, h⟩
  have hfaithful := faithful_of_propagates hg h
  have hhit : Hit changed outside "b" := ⟨by decide, _, List.mem_singleton_self _, by decide⟩
  have hunreached : ∀ {n nid}, Walk changed outside n nid → nid ≠ "a" := by
    intro n nid hwalk
    cases hwalk with
    | start hit =>
      rintro rfl
      obtain ⟨-, d, hd, hits⟩ := hit
      obtain rfl := List.mem_singleton.mp hd
      exact absurd hits (by decide)
    | step _ edge_mem _ =>
      obtain rfl := List.mem_singleton.mp edge_mem
      decide
  obtain ⟨n, -, hwalk⟩ :=
    hfaithful.edges _ (List.mem_singleton_self _) ⟨0, Nat.zero_le _, .start hhit⟩
  exact hunreached hwalk rfl

end PiPlatform.Interoperability.Propagation
