import Mathlib.Algebra.BigOperators.Group.List.Basic
import Mathlib.Algebra.Order.Field.Basic
import Mathlib.Data.String.Basic
import PiPlatform.Radius.TopologyGraph

/-! The risk report of two graphs.

Scores are computed for the nodes whose records differ, and the limits are evaluated on the
scores. A score measures what its node reaches, and of fan-out and depth the graph-wide maxima;
the pass that compares the graphs node by node is run, but what it finds is not put into the
report. So a report without exceeded limits bounds all growth exactly where what is not measured
did not grow too much either (`hides_nothing_iff`). -/
namespace PiPlatform.Radius

open Library

/-- The limits of the engine that reports and passes are compared with here. -/
structure BlastRadiusEngine where
  maxDependencies : Int
  maxCrossService : Int
  maxFanout : Int
  maxDepth : Int
  maxAuthFields : Int
  maxReplayScope : Int

def BlastRadiusEngine.default : BlastRadiusEngine := ⟨16, 64, 8, 6, 8, 256⟩

structure RiskScore where
  scoreId : String
  targetNode : String
  dependencyExpansion : Int
  topologyComplexityDelta : Int
  fanoutDelta : Int
  depthDelta : Int
  authSurfaceExpansion : Int
  authBoundaryWidening : Bool
  replayHazardSpread : Int
  replayPropagationDepth : Int
  downstreamMutationImpact : Int
  sideEffectBoundExpansion : Int
  inputHash : String

/-! ### Graph-wide measures -/

namespace TopologyGraph

def maxFanout (g : TopologyGraph) : Nat := (g.nodeIds.map g.fanout).foldl max 0

def maxDepth (g : TopologyGraph) : Nat := (g.nodeIds.map g.depthFrom).foldl max 0

/-- An integer, as sums of counts and squares are. -/
def complexityScore (g : TopologyGraph) : Nat :=
  g.nodeIds.length + g.edges.length + g.maxFanout ^ 2 + g.maxDepth ^ 2

def authFieldCount (g : TopologyGraph) : Nat :=
  (g.nodes.items.map fun p => p.2.authFields.length).sum

def sideEffectCount (g : TopologyGraph) : Nat :=
  g.nodes.items.countP (·.2.mutationClass = "SIDE_EFFECT_BOUND")

end TopologyGraph

open TopologyGraph

/-- What a node reaches in the modified graph only. -/
def newlyReachable (baseline modified : TopologyGraph) (nodeId : String) : Finset String :=
  modified.reachable nodeId \ baseline.reachable nodeId

/-! ### Scores -/

/-- Both graphs have the node, with different mutation classes. -/
def escalated (baseline modified : TopologyGraph) (nodeId : String) : Bool :=
  match baseline.nodes.get? nodeId, modified.nodes.get? nodeId with
  | some b, some m => b.mutationClass ≠ m.mutationClass
  | _, _ => false

/-- `hash` is of the sorted ids of both graphs and the node. -/
def computeScore (hash : List String → List String → String → String)
    (baseline modified : TopologyGraph) (targetNode : String) : RiskScore :=
  let authExpansion : Int := modified.authFieldCount - baseline.authFieldCount
  let inputHash := hash (baseline.nodeIds.insertionSort (· ≤ ·))
    (modified.nodeIds.insertionSort (· ≤ ·)) targetNode
  { scoreId := "br_" ++ targetNode ++ "_" ++ String.ofList (inputHash.toList.take 16)
    targetNode := targetNode
    dependencyExpansion := (newlyReachable baseline modified targetNode).card
    topologyComplexityDelta := modified.complexityScore - baseline.complexityScore
    fanoutDelta := modified.maxFanout - baseline.maxFanout
    depthDelta := modified.maxDepth - baseline.maxDepth
    authSurfaceExpansion := authExpansion
    authBoundaryWidening := 0 < authExpansion
    replayHazardSpread := (newlyReachable baseline modified targetNode).card
    replayPropagationDepth := modified.maxDepth
    downstreamMutationImpact :=
      ((modified.reachable targetNode).filter (escalated baseline modified ·)).card
    sideEffectBoundExpansion := modified.sideEffectCount - baseline.sideEffectCount
    inputHash := inputHash }

/-- `max(values, default=0)` -/
def maxOf : List Int → Int
  | [] => 0
  | x :: xs => xs.foldl max x

namespace BlastRadiusEngine

/-- The bounds that the largest scores pass. -/
def evaluateReport (engine : BlastRadiusEngine) (scores : List RiskScore) : List String :=
  (if engine.maxDependencies < maxOf (scores.map (·.dependencyExpansion)) then
    ["max_dependencies_per_endpoint"] else []) ++
  (if engine.maxFanout < maxOf (scores.map (·.fanoutDelta)) then
    ["max_fanout_per_endpoint"] else []) ++
  (if engine.maxDepth < maxOf (scores.map (·.depthDelta)) then ["max_graph_depth"] else []) ++
  (if engine.maxAuthFields < maxOf (scores.map (·.authSurfaceExpansion)) then
    ["max_auth_fields_per_endpoint"] else []) ++
  (if engine.maxReplayScope < maxOf (scores.map (·.replayHazardSpread)) then
    ["max_replay_scope_nodes"] else [])

end BlastRadiusEngine

/-! ### The pass over topology -/

/-! ### The runtime -/

structure RiskReport where
  reportId : String
  baselineGraphId : String
  modifiedGraphId : String
  scores : List RiskScore
  totalDependencyExpansion : Int
  totalAuthSurfaceExpansion : Int
  totalReplayHazardSpread : Int
  totalDownstreamMutationImpact : Int
  maxTopologyDepthDelta : Int
  maxFanoutDelta : Int
  limitsExceeded : List String

/-- A node that one graph lacks, or whose records differ. -/
def recordsDiffer (baseline modified : TopologyGraph) (nodeId : String) : Bool :=
  match baseline.nodes.get? nodeId, modified.nodes.get? nodeId with
  | some b, some m => b ≠ m
  | _, _ => true

def detectChangedNodes (baseline modified : TopologyGraph) : Finset String :=
  (baseline.nodeIds ++ modified.nodeIds).toFinset.filter (recordsDiffer baseline modified ·)

/-- `RadiusRuntime.run` without given nodes. The passes are executed too, and their violations
collected, but the report has none of them. -/
def run (engine : BlastRadiusEngine) (hash : List String → List String → String → String)
    (executionId : String) (baseline modified : TopologyGraph) : RiskReport :=
  let changed := sorted (detectChangedNodes baseline modified)
  let scores := changed.map (computeScore hash baseline modified)
  { reportId := executionId
    baselineGraphId := baseline.graphId
    modifiedGraphId := modified.graphId
    scores := scores
    totalDependencyExpansion := (scores.map (·.dependencyExpansion)).sum
    totalAuthSurfaceExpansion := (scores.map (·.authSurfaceExpansion)).sum
    totalReplayHazardSpread := (scores.map (·.replayHazardSpread)).sum
    totalDownstreamMutationImpact := (scores.map (·.downstreamMutationImpact)).sum
    maxTopologyDepthDelta := maxOf (scores.map (·.depthDelta))
    maxFanoutDelta := maxOf (scores.map (·.fanoutDelta))
    limitsExceeded := engine.evaluateReport scores }

/-! ### What is measured -/

/-- The graphs do not have the same record for the node, or for its absence. -/
def Changed (baseline modified : TopologyGraph) (nodeId : String) : Prop :=
  baseline.nodes.get? nodeId ≠ modified.nodes.get? nodeId

theorem mem_nodeIds {g : TopologyGraph} {nodeId : String} :
    nodeId ∈ g.nodeIds ↔ ∃ node, g.nodes.get? nodeId = some node := by
  simp [nodeIds, ← Dict.mem_items]

theorem mem_detectChangedNodes {baseline modified : TopologyGraph} {nodeId : String} :
    nodeId ∈ detectChangedNodes baseline modified ↔ Changed baseline modified nodeId := by
  rw [detectChangedNodes, Finset.mem_filter, List.mem_toFinset, List.mem_append, mem_nodeIds,
    mem_nodeIds, recordsDiffer, Changed]
  cases baseline.nodes.get? nodeId with
  | none | some b =>
    cases modified.nodes.get? nodeId with
    | none => simp
    | some m => simp

theorem maxOf_le {values : List Int} {d : Int} :
    maxOf values ≤ d ↔ (values = [] → 0 ≤ d) ∧ ∀ x ∈ values, x ≤ d := by
  have hfold : ∀ (xs : List Int) (x : Int), xs.foldl max x ≤ d ↔ x ≤ d ∧ ∀ y ∈ xs, y ≤ d := by
    intro xs
    induction xs with
    | nil => simp
    | cons y xs ih =>
      intro x
      rw [List.foldl_cons, ih, List.forall_mem_cons, max_le_iff, and_assoc]
  cases values with
  | nil => simp [maxOf]
  | cons x xs => rw [maxOf, hfold, List.forall_mem_cons]; simp

section Report
variable (engine : BlastRadiusEngine) (hash : List String → List String → String → String)
  (executionId : String) (baseline modified : TopologyGraph)

/-- A maximum over scores keeps to a limit when that of each changed node does; with none, the
limit is not negative. -/
theorem maxOf_scores_le (f : RiskScore → Int) {d : Int} :
    maxOf ((run engine hash executionId baseline modified).scores.map f) ≤ d ↔
      ((∀ n, ¬ Changed baseline modified n) → 0 ≤ d) ∧
        ∀ n, Changed baseline modified n → f (computeScore hash baseline modified n) ≤ d := by
  have hscores : (run engine hash executionId baseline modified).scores =
      (sorted (detectChangedNodes baseline modified)).map
        (computeScore hash baseline modified) := rfl
  rw [maxOf_le, hscores, List.map_map, List.forall_mem_map]
  refine and_congr (imp_congr_left ?_) ?_
  · rw [List.map_eq_nil_iff, List.eq_nil_iff_forall_not_mem]
    exact forall_congr' fun n => not_congr (mem_sorted.trans mem_detectChangedNodes)
  · exact forall_congr' fun n =>
      imp_congr_left (mem_sorted.trans mem_detectChangedNodes)

/-- What a report without exceeded limits says of the graphs. -/
structure WithinLimits : Prop where
  /-- With no changed node, the maxima are zero. -/
  unchanged : (∀ n, ¬ Changed baseline modified n) → 0 ≤ engine.maxDependencies ∧
    0 ≤ engine.maxFanout ∧ 0 ≤ engine.maxDepth ∧ 0 ≤ engine.maxAuthFields ∧
    0 ≤ engine.maxReplayScope
  reach : ∀ n, Changed baseline modified n →
    ((newlyReachable baseline modified n).card : Int) ≤ engine.maxDependencies ∧
      ((newlyReachable baseline modified n).card : Int) ≤ engine.maxReplayScope
  maxima : (∃ n, Changed baseline modified n) →
    (modified.maxFanout : Int) - baseline.maxFanout ≤ engine.maxFanout ∧
      (modified.maxDepth : Int) - baseline.maxDepth ≤ engine.maxDepth ∧
      (modified.authFieldCount : Int) - baseline.authFieldCount ≤ engine.maxAuthFields

theorem named_eq_nil {limit value : Int} {name : String} :
    (if limit < value then [name] else []) = [] ↔ value ≤ limit :=
  Library.ite_singleton_eq_nil.trans not_lt

theorem limitsExceeded_eq_nil :
    (run engine hash executionId baseline modified).limitsExceeded = [] ↔
      WithinLimits engine baseline modified := by
  show engine.evaluateReport (run engine hash executionId baseline modified).scores = [] ↔ _
  simp only [BlastRadiusEngine.evaluateReport, List.append_eq_nil_iff, named_eq_nil,
    maxOf_scores_le]
  constructor
  · intro ⟨⟨⟨⟨hdependencies, hfanout⟩, hdepth⟩, hauth⟩, hreplay⟩
    refine ⟨fun h => ⟨hdependencies.1 h, hfanout.1 h, hdepth.1 h, hauth.1 h, hreplay.1 h⟩,
      fun n hn => ⟨hdependencies.2 n hn, hreplay.2 n hn⟩, fun hsome => ?_⟩
    obtain ⟨n, hn⟩ := hsome
    exact ⟨hfanout.2 n hn, hdepth.2 n hn, hauth.2 n hn⟩
  · intro ⟨hunchanged, hreach, hmaxima⟩
    exact ⟨⟨⟨⟨⟨fun h => (hunchanged h).1, fun n hn => (hreach n hn).1⟩,
      fun h => (hunchanged h).2.1, fun n hn => (hmaxima ⟨n, hn⟩).1⟩,
      fun h => (hunchanged h).2.2.1, fun n hn => (hmaxima ⟨n, hn⟩).2.1⟩,
      fun h => (hunchanged h).2.2.2.1, fun n hn => (hmaxima ⟨n, hn⟩).2.2⟩,
      fun h => (hunchanged h).2.2.2.2, fun n hn => (hreach n hn).2⟩

/-! ### What grew -/

/-- Fan-out and depth of nodes, and the edges, grew by no more than the limits. -/
structure ShapeBounded : Prop where
  fanout : ∀ n ∈ modified.nodeIds,
    (modified.fanout n : Int) - baseline.fanout n ≤ engine.maxFanout
  depth : ∀ n ∈ modified.nodeIds,
    (modified.depthFrom n : Int) - baseline.depthFrom n ≤ engine.maxDepth
  edges : (modified.edges.length : Int) - baseline.edges.length ≤ engine.maxCrossService

/-- No node newly reaches too many, and the shape stays within bounds. -/
structure GrowthBounded : Prop where
  reach : ∀ n ∈ modified.nodeIds,
    ((newlyReachable baseline modified n).card : Int) ≤ engine.maxDependencies
  shape : ShapeBounded engine baseline modified

/-- A report without exceeded limits bounds all growth exactly when, where the changed nodes and
the graph-wide maxima keep to them, the reach of the nodes that did not change does so too, and
fan-out and depth do node by node, and the edges. -/
theorem hides_nothing_iff :
    ((run engine hash executionId baseline modified).limitsExceeded = [] →
      GrowthBounded engine baseline modified) ↔
    (WithinLimits engine baseline modified →
      (∀ n ∈ modified.nodeIds, ¬ Changed baseline modified n →
        ((newlyReachable baseline modified n).card : Int) ≤ engine.maxDependencies) ∧
      ShapeBounded engine baseline modified) := by
  rw [limitsExceeded_eq_nil]
  refine forall_congr' fun hwithin => ⟨fun h => ⟨fun n hn _ => h.reach n hn, h.shape⟩, ?_⟩
  intro ⟨hreach, hshape⟩
  refine ⟨fun n hn => ?_, hshape⟩
  by_cases hchanged : Changed baseline modified n
  · exact (hwithin.reach n hchanged).1
  · exact hreach n hn hchanged

end Report

/-! ### Edges only -/

def gateway : TopologyNode := ⟨"gateway", "service", [], [], "READ_ONLY", "SAFE", ""⟩

def gatewayCalling (downstreams : List String) : TopologyGraph where
  graphId := "g"
  nodes := .ofList [("gateway", gateway)]
  edges := downstreams.map fun d => ⟨"e", "gateway", d⟩

/-- Twenty services that nothing but the edges names. -/
def services : List String := (List.range 20).map fun i => "s" ++ toString i

theorem added_edges_hidden :
    ¬ ((run .default (fun _ _ target => target) "radius" (gatewayCalling [])
        (gatewayCalling services)).limitsExceeded = [] →
      GrowthBounded .default (gatewayCalling []) (gatewayCalling services)) := by
  intro h
  have hwithin : WithinLimits .default (gatewayCalling []) (gatewayCalling services) :=
    ⟨fun _ => by decide, fun n hn => absurd rfl hn, fun hsome => absurd rfl hsome.choose_spec⟩
  have hfanout := (h ((limitsExceeded_eq_nil _ _ _ _ _).mpr hwithin)).shape.fanout "gateway"
    (by decide +kernel)
  exact absurd hfanout (by decide +kernel)

end PiPlatform.Radius
