import PiPlatform.AgentChain.AuthConsistency

/-! The protocol state machine.

The nodes are the endpoints, the edges lead from a trace to the next in the order of the
packets' times. Bounds on nodes, edges, fanout and depth are checked, and edges that were seen
often without a replay are contested.

The depth is searched from every node, in the order a set of them is iterated, which does not
matter (`computeDepth_order`). -/
namespace PiPlatform.AgentChain.Transitions

open Library Library.Python
open Auth (SemanticIRTrace NormalizedTrafficPacket AuthConsistencyReport AuthInvariant)

structure StateNode where
  nodeId : String
  endpointTemplate : String
  method : String

section Records
variable (R : Type)

/-- Its one constraint is always `REPLAY_REQUIRED`. -/
structure TransitionEdge where
  edgeId : String
  fromNode : String
  toNode : String
  observedCount : Nat
  replayConfirmedCount : Nat
  authDependencies : List String
  replayConfidence : R
  epistemicState : String

structure ProtocolStateMachine where
  fsmId : String
  nodes : List StateNode
  edges : List (TransitionEdge R)
  maxNodes : Int
  maxEdges : Int
  maxFanout : Int
  maxDepth : Int
  epistemicState : String

end Records

structure ValidationBounds where
  maxFsmNodes : Int
  maxFsmEdges : Int
  maxFsmFanout : Int
  maxFsmDepth : Int

/-! ### Depth -/

section Depth
variable {R : Type} (edges : List (TransitionEdge R))

def adjacency (node : String) : List String :=
  (edges.filter fun e => e.fromNode = node).map (·.toNode)

/-- The loop over the queue, with the deepest so far. Every node that is reached is queued once,
so `left` does not run out (`search_left`). -/
def search : (left : Nat) → (depth : List (String × Nat)) → (queue : List String) →
    (maxDepth : Nat) → Nat
  | 0, _, _, maxDepth => maxDepth
  | _ + 1, _, [], maxDepth => maxDepth
  | left + 1, depth, curr :: queue, maxDepth =>
    let next := (lookupItem curr depth).getD 0 + 1
    let fresh := firstsBy id (depth.map Prod.fst) (adjacency edges curr)
    search left (depth ++ fresh.map fun node => (node, next)) (queue ++ fresh)
      (if fresh = [] then maxDepth else max maxDepth next)

def depthFrom (start : String) : Nat := search edges (edges.length + 1) [(start, 0)] [start] 0

def computeDepth (order : SetOrder) (nodes : List StateNode) : Nat :=
  if nodes = [] ∨ edges = [] then 0
  else
    (order.iterate (nodes.map (·.nodeId))).foldl
      (fun maxDepth start => max maxDepth (depthFrom edges start)) 0

/-- The targets that have not been reached. -/
def unreached (depth : List (String × Nat)) : List String :=
  (edges.map (·.toNode)).dedup.filter fun node => node ∉ depth.map Prod.fst

theorem mem_unreached {depth : List (String × Nat)} {node : String} :
    node ∈ unreached edges depth ↔ node ∈ edges.map (·.toNode) ∧ node ∉ depth.map Prod.fst := by
  rw [unreached, List.mem_filter, List.mem_dedup, decide_eq_true_eq]

theorem nodup_unreached (depth : List (String × Nat)) : (unreached edges depth).Nodup :=
  (List.nodup_dedup _).filter _

/-- What is queued was unreached, and is no more. -/
theorem length_unreached (depth : List (String × Nat)) (curr : String) (next : Nat) :
    let fresh := firstsBy id (depth.map Prod.fst) (adjacency edges curr)
    fresh.length + (unreached edges (depth ++ fresh.map fun node => (node, next))).length ≤
      (unreached edges depth).length := by
  intro fresh
  have hfresh : fresh.Nodup := by
    have hnodup : (fresh.map id).Nodup := nodup_firstsBy (adjacency edges curr)
    rwa [List.map_id] at hnodup
  have hkeys : (depth ++ fresh.map fun node => (node, next)).map Prod.fst =
      depth.map Prod.fst ++ fresh := by
    simp [Function.comp_def]
  have hnodup : (fresh ++ unreached edges (depth ++ fresh.map fun node => (node, next))).Nodup := by
    refine List.nodup_append.mpr ⟨hfresh, nodup_unreached edges _, ?_⟩
    rintro x hx y hy rfl
    have hnot := (mem_unreached edges).mp hy
    rw [hkeys] at hnot
    exact hnot.2 (List.mem_append_right _ hx)
  have hsubset : fresh ++ unreached edges (depth ++ fresh.map fun node => (node, next)) ⊆
      unreached edges depth := by
    intro x hx
    rw [mem_unreached]
    rcases List.mem_append.mp hx with hx | hx
    · obtain ⟨e, he, htarget⟩ := List.mem_map.mp ((firstsBy_sublist _).mem hx)
      exact ⟨List.mem_map.mpr ⟨e, List.mem_of_mem_filter he, htarget⟩,
        not_mem_of_mem_firstsBy hx⟩
    · have hnot := (mem_unreached edges).mp hx
      rw [hkeys] at hnot
      exact ⟨hnot.1, fun hmem => hnot.2 (List.mem_append_left _ hmem)⟩
  have hle := (hnodup.subperm hsubset).length_le
  rwa [List.length_append] at hle

theorem search_succ : ∀ (left : Nat) (depth : List (String × Nat)) (queue : List String)
    (maxDepth : Nat), queue.length + (unreached edges depth).length ≤ left →
      search edges (left + 1) depth queue maxDepth = search edges left depth queue maxDepth := by
  intro left
  induction left with
  | zero =>
    intro depth queue maxDepth hleft
    have hqueue : queue = [] := List.eq_nil_of_length_eq_zero (by omega)
    rw [hqueue]
    rfl
  | succ left ih =>
    intro depth queue maxDepth hleft
    cases queue with
    | nil => rfl
    | cons curr queue =>
      have hlength := length_unreached edges depth curr ((lookupItem curr depth).getD 0 + 1)
      dsimp only at hlength
      rw [List.length_cons] at hleft
      rw [search, search]
      apply ih
      rw [List.length_append]
      omega

/-- With so much left, a search from one node comes to its end. -/
theorem search_left (start : String) {left : Nat} (h : edges.length + 1 ≤ left) :
    search edges left [(start, 0)] [start] 0 = depthFrom edges start := by
  have hunreached : (unreached edges [(start, 0)]).length ≤ edges.length := by
    calc (unreached edges [(start, 0)]).length
        ≤ (edges.map (·.toNode)).dedup.length := List.length_filter_le _ _
      _ ≤ (edges.map (·.toNode)).length := (List.dedup_sublist _).length_le
      _ = edges.length := List.length_map _
  induction left, h using Nat.le_induction with
  | base => rfl
  | succ left hle ih =>
    rw [← ih, search_succ]
    rw [List.length_singleton]
    omega

theorem computeDepth_order (order₁ order₂ : SetOrder) (nodes : List StateNode) :
    computeDepth edges order₁ nodes = computeDepth edges order₂ nodes := by
  have hperm := (order₁.perm (nodes.map (·.nodeId))).trans (order₂.perm _).symm
  have hdepths := hperm.foldl_eq' (f := fun depth start => max depth (depthFrom edges start))
    (fun _ _ _ _ _ => max_right_comm _ _ _) 0
  rw [computeDepth, computeDepth, hdepths]

end Depth

/-! ### Extraction -/

section Extract
variable {R : Type} (N : Floats R) (hash : String → String) (bounds : ValidationBounds)
  (executionId : String)

def nodeKey (t : SemanticIRTrace) : String := t.method ++ ":" ++ t.endpointTemplate

def buildNodes (traces : List SemanticIRTrace) : List StateNode :=
  (firstsBy nodeKey [] traces).map fun t =>
    ⟨hash (nodeKey t), t.endpointTemplate, t.method⟩

/-- The time of the last packet of a trace's endpoint. -/
def traceTime (packets : List NormalizedTrafficPacket) (t : SemanticIRTrace) : Int :=
  ((packets.reverse.find? fun p =>
    p.endpointPathTemplate = t.endpointTemplate ∧ p.method = t.method).map (·.timestamp)).getD 0

/-- An edge for each two traces that follow each other and are not of one node. -/
def rawEdges (nodes : List StateNode) (sortedTraces : List SemanticIRTrace) :
    List (TransitionEdge R) :=
  (sortedTraces.zip sortedTraces.tail).filterMap fun (curr, nxt) =>
    let fromId := hash (nodeKey curr)
    let toId := hash (nodeKey nxt)
    if fromId ∈ nodes.map (·.nodeId) ∧ toId ∈ nodes.map (·.nodeId) ∧ fromId ≠ toId then
      some
        { edgeId := hash ("edge:" ++ fromId ++ "->" ++ toId ++ ":" ++ executionId)
          fromNode := fromId
          toNode := toId
          observedCount := 1
          replayConfirmedCount := 0
          authDependencies := []
          replayConfidence := N.dec 0 1
          epistemicState := EpistemicState.observed }
    else none

/-- Edges of one id are merged: the first, with the number of them. -/
def buildEdges (nodes : List StateNode) (traces : List SemanticIRTrace)
    (packets : List NormalizedTrafficPacket) : List (TransitionEdge R) :=
  let built := rawEdges N hash executionId nodes (sortBy (traceTime packets) traces)
  (groupBy (·.edgeId) built).flatMap fun (_, same) =>
    (same.head?.map fun e => { e with observedCount := same.length }).toList

def violation (id rule : String) (severity : Governance.Severity)
    (context : List (String × Datum R)) (action : String) : Violation R :=
  ⟨hash id, rule, "state_transition_validator", executionId, severity, context, action⟩

/-- The edges out of a node from the given one of them on are contested. -/
def contestFrom (node : String) : (position : Nat) → List (TransitionEdge R) →
    List (TransitionEdge R)
  | _, [] => []
  | position, e :: rest =>
    if e.fromNode = node then
      match position with
      | 0 => { e with epistemicState := EpistemicState.contested } :: contestFrom node 0 rest
      | position + 1 => e :: contestFrom node position rest
    else e :: contestFrom node position rest

/-- The fanout of one node. -/
def checkFanout (node : StateNode) (state : List (TransitionEdge R) × List (Violation R)) :
    List (TransitionEdge R) × List (Violation R) :=
  let fanout := state.1.countP fun e => e.fromNode = node.nodeId
  if bounds.maxFsmFanout < fanout then
    (contestFrom node.nodeId
        (if bounds.maxFsmFanout < 0 then fanout + bounds.maxFsmFanout
          else bounds.maxFsmFanout).toNat state.1,
      state.2 ++ [violation hash executionId
        ("fanout_overflow:" ++ executionId ++ ":" ++ node.nodeId) "FSM_FANOUT_OVERFLOW" .error
        [("node_id", .text node.nodeId), ("fanout", .int fanout),
          ("max_fanout", .int bounds.maxFsmFanout)] "TRUNCATE"])
  else state

/-- No edge has been replayed here, so those seen five times are contested. -/
def applyReplayGate (edges : List (TransitionEdge R)) :
    List (TransitionEdge R) × List (Violation R) :=
  (edges.map fun e =>
      if 0 < e.replayConfirmedCount then
        { e with
          epistemicState := EpistemicState.inferred
          replayConfidence := N.min (N.add e.replayConfidence
            (N.mul (N.dec 3 1) (N.ofNat e.replayConfirmedCount))) (N.dec 10 1) }
      else if 5 ≤ e.observedCount then { e with epistemicState := EpistemicState.contested }
      else e,
    (edges.filter fun e => e.replayConfirmedCount = 0 ∧ 5 ≤ e.observedCount).map fun e =>
      violation hash executionId ("unverified_edge:" ++ e.edgeId)
        "TRANSITION_UNVERIFIED_BY_REPLAY" .warning
        [("edge_id", .text e.edgeId), ("from_node", .text e.fromNode), ("to_node", .text e.toNode),
          ("observed_count", .int e.observedCount),
          ("replay_confirmed_count", .int e.replayConfirmedCount)] "CONTEST")

/-- The invariants of an edge's target; of several nodes with its id the last one counts. -/
def linkAuthDependencies (nodes : List StateNode) (invariants : List (AuthInvariant R))
    (edges : List (TransitionEdge R)) : List (TransitionEdge R) :=
  edges.map fun e =>
    match nodes.reverse.find? fun n => n.nodeId = e.toNode with
    | none => e
    | some node =>
      let relevant := invariants.filter fun inv => node.endpointTemplate ∈ inv.affectedEndpoints
      if relevant = [] then e else { e with authDependencies := relevant.map (·.invariantId) }

/-- Nodes and edges up to their bounds, with a violation where one is met. -/
def extractFsm (order : SetOrder) (traces : List SemanticIRTrace)
    (packets : List NormalizedTrafficPacket) (authReport : AuthConsistencyReport R) :
    ProtocolStateMachine R × List (Violation R) :=
  let built := buildNodes hash traces
  let nodesOver : Bool := bounds.maxFsmNodes < built.length
  let nodes := if nodesOver then upToBound bounds.maxFsmNodes built else built
  let nodeViolations : List (Violation R) :=
    if nodesOver then
      [violation hash executionId ("node_overflow:" ++ executionId) "FSM_NODE_OVERFLOW" .critical
        [("observed_nodes", .int built.length), ("max_nodes", .int bounds.maxFsmNodes)] "HALT"]
    else []
  let merged := buildEdges N hash executionId nodes traces packets
  let edgesOver : Bool := bounds.maxFsmEdges < merged.length
  let edges := if edgesOver then upToBound bounds.maxFsmEdges merged else merged
  let edgeViolations : List (Violation R) :=
    if edgesOver then
      [violation hash executionId ("edge_overflow:" ++ executionId) "FSM_EDGE_OVERFLOW" .critical
        [("observed_edges", .int merged.length), ("max_edges", .int bounds.maxFsmEdges)] "HALT"]
    else []
  let fanned := nodes.foldl (fun state node => checkFanout hash bounds executionId node state)
    (edges, nodeViolations ++ edgeViolations)
  let maxDepthReached := computeDepth fanned.1 order nodes
  let depthViolations : List (Violation R) :=
    if bounds.maxFsmDepth < maxDepthReached then
      [violation hash executionId ("depth_overflow:" ++ executionId) "FSM_DEPTH_OVERFLOW" .critical
        [("observed_depth", .int maxDepthReached), ("max_depth", .int bounds.maxFsmDepth)] "HALT"]
    else []
  let gated := applyReplayGate N hash executionId fanned.1
  let violations := fanned.2 ++ depthViolations ++ gated.2
  ({ fsmId := hash ("fsm:" ++ executionId)
     nodes := nodes
     edges := linkAuthDependencies nodes authReport.invariants gated.1
     maxNodes := bounds.maxFsmNodes
     maxEdges := bounds.maxFsmEdges
     maxFanout := bounds.maxFsmFanout
     maxDepth := bounds.maxFsmDepth
     epistemicState := if violations.isEmpty then EpistemicState.inferred
       else EpistemicState.contested },
    violations)

theorem extractFsm_order (order₁ order₂ : SetOrder) (traces : List SemanticIRTrace)
    (packets : List NormalizedTrafficPacket) (authReport : AuthConsistencyReport R) :
    extractFsm N hash bounds executionId order₁ traces packets authReport =
      extractFsm N hash bounds executionId order₂ traces packets authReport := by
  simp only [extractFsm, computeDepth_order _ order₁ order₂]

end Extract

end PiPlatform.AgentChain.Transitions
