import Mathlib.Algebra.GroupWithZero.Nat
import PiPlatform.SemanticValidator.Policy
import Mathlib.Data.List.Nodup

/-! The validator: five passes over a list of artifacts, and what its PASS says.

Each pass looks at no more graphs, edges and traces than its bounds allow and does not say when it
has left some out. So what PASS covers is what lies within the bounds, and the rest of the
artifacts is covered only where it happens to be (`pass_covered_iff`). -/
namespace PiPlatform.SemanticValidator

open Library.Json (Text ofString)

/-! ### Artifacts -/

inductive Method where
  | get | post | put | delete | patch | options | head
  deriving DecidableEq

def Method.text : Method → Text
  | .get => ofString "GET"
  | .post => ofString "POST"
  | .put => ofString "PUT"
  | .delete => ofString "DELETE"
  | .patch => ofString "PATCH"
  | .options => ofString "OPTIONS"
  | .head => ofString "HEAD"

structure SemanticField where
  path : Text
  inferredType : Text

structure SemanticIRTrace where
  endpointTemplate : Text
  method : Method
  fields : List SemanticField

structure StateEdge where
  upstreamEndpoint : Text
  upstreamField : Text
  downstreamEndpoint : Text

structure DependencyGraph where
  edges : List StateEdge
  nodes : List Text
  sessionWindowId : Text

structure SemanticDiff (R : Type) where
  structuralDeltaScore : R
  semanticDeltaScore : R
  authMutations : List Text
  replayEquivalence : Text
  driftScore : R

structure AuthInvariant where
  affectedEndpoints : List Text
  replayConfirmedEndpoints : List Text
  replayConfirmed : Bool

inductive ArtifactType where
  | semanticIRTrace | dependencyGraph | synthesizedSpec | semanticDiff | authInvariant
  | protocolStateMachine | unknown
  deriving DecidableEq

/-- The payload where it is a dict. -/
structure ValidationArtifact (P : Type) where
  artifactType : ArtifactType
  payload : Option P

/-- What `get` finds in a payload: a string, or another value. -/
inductive Raw (O : Type) where
  | text (s : Text)
  | other (o : O)

/-- The library that reads payloads, and what is left of Python: the loop of `_glob_match` over a
value that is no string, letters' cases, and the quotient of two integers. -/
structure Models (P O R : Type) where
  trace : P → Option SemanticIRTrace
  graph : P → Option DependencyGraph
  diff : P → Option (SemanticDiff R)
  invariant : P → Option AuthInvariant
  stateMachine : P → Bool
  endpointTemplate : P → Raw O
  method : P → Raw O
  globOther : O → Text → Option Bool
  upper : Text → Text
  lower : Text → Text
  ratio : Nat → Nat → R
  /-- A trace has its payload's own strings. -/
  trace_endpointTemplate {payload : P} {parsed : SemanticIRTrace}
    (h : trace payload = some parsed) : endpointTemplate payload = .text parsed.endpointTemplate
  trace_method {payload : P} {parsed : SemanticIRTrace} (h : trace payload = some parsed) :
    method payload = .text parsed.method.text

structure ValidationBoundsConfig where
  maxViolationsPerPass : Nat
  maxEndpointsPerTrace : Nat
  maxEdgesPerGraph : Nat
  maxBlastRadiusDepth : Nat
  maxViolationsPerPass_pos : 1 ≤ maxViolationsPerPass
  maxEndpointsPerTrace_pos : 1 ≤ maxEndpointsPerTrace
  maxEdgesPerGraph_pos : 1 ≤ maxEdgesPerGraph
  maxBlastRadiusDepth_bounds : 1 ≤ maxBlastRadiusDepth ∧ maxBlastRadiusDepth ≤ 16

/-! ### Violations -/

inductive Severity where
  | warning | error | critical
  deriving DecidableEq

inductive PassName where
  | boundary | layer | mutationDrift | replaySafety | blastRadius | runtime
  deriving DecidableEq

structure GovernanceViolation where
  rule : String
  passName : PassName
  severity : Severity
  endpoint : Text
  fieldPath : Text
  provenanceChain : List Text
  deriving DecidableEq

namespace ViolationBuilder
variable (passName : PassName) (rule : String) (endpoint fieldPath : Text) (provenance : List Text)

def critical : GovernanceViolation := ⟨rule, passName, .critical, endpoint, fieldPath, provenance⟩

def error : GovernanceViolation := ⟨rule, passName, .error, endpoint, fieldPath, provenance⟩

def warning : GovernanceViolation := ⟨rule, passName, .warning, endpoint, fieldPath, provenance⟩

end ViolationBuilder

open ViolationBuilder

def graphRef (graph : DependencyGraph) : Text := ofString "graph:" ++ graph.sessionWindowId

def edgeRef (eidx : Nat) : Text := ofString "edge:" ++ ofString (toString eidx)

def ruleRef (ruleId : Text) : Text := ofString "rule:" ++ ruleId

def traceRef (tidx : Nat) : Text := ofString "trace:" ++ ofString (toString tidx)

def diffRef (didx : Nat) : Text := ofString "diff:" ++ ofString (toString didx)

def layerRef (layerId : Text) : Text := ofString "layer:" ++ layerId

def StateEdge.text (edge : StateEdge) : Text :=
  edge.upstreamEndpoint ++ ofString " -> " ++ edge.downstreamEndpoint

/-! ### Collecting -/

section Collect
variable {P O R : Type} (models : Models P O R) (artifacts : List (ValidationArtifact P))

/-- The dict payloads of a type. -/
def payloads (type : ArtifactType) : List P :=
  artifacts.filterMap fun artifact =>
    if artifact.artifactType = type then artifact.payload else none

def traces : List SemanticIRTrace := (payloads artifacts .semanticIRTrace).filterMap models.trace

def graphs : List DependencyGraph := (payloads artifacts .dependencyGraph).filterMap models.graph

def diffs : List (SemanticDiff R) := (payloads artifacts .semanticDiff).filterMap models.diff

def invariants : List AuthInvariant :=
  (payloads artifacts .authInvariant).filterMap models.invariant

def stateMachines : List P :=
  (payloads artifacts .protocolStateMachine).filter models.stateMachine

/-- The rule that an artifact breaks when its model refuses the payload. -/
def unparseable (artifact : ValidationArtifact P) : Option String :=
  match artifact.payload with
  | none => none
  | some payload =>
    match artifact.artifactType with
    | .semanticIRTrace =>
      if (models.trace payload).isNone then some "UNPARSEABLE_SEMANTIC_TRACE" else none
    | .dependencyGraph =>
      if (models.graph payload).isNone then some "UNPARSEABLE_DEPENDENCY_GRAPH" else none
    | .semanticDiff =>
      if (models.diff payload).isNone then some "UNPARSEABLE_SEMANTIC_DIFF" else none
    | .authInvariant =>
      if (models.invariant payload).isNone then some "UNPARSEABLE_AUTH_INVARIANT" else none
    | .protocolStateMachine =>
      if models.stateMachine payload then none else some "UNPARSEABLE_PROTOCOL_FSM"
    | .synthesizedSpec | .unknown => none

/-- A violation for each artifact of these types that cannot be read. -/
def refused (passName : PassName) (types : List ArtifactType) : List GovernanceViolation :=
  (artifacts.filter fun artifact => artifact.artifactType ∈ types).filterMap fun artifact =>
    (unparseable models artifact).map fun rule => critical passName rule [] [] []

end Collect

/-! ### The passes -/

section Passes
variable {P O R : Type} [LT R] [DecidableLT R] (models : Models P O R)
  (policy : ArchitecturePolicy R) (bounds : ValidationBoundsConfig)

/-- The edges of the graphs that the bounds leave, with their graphs and places. -/
def boundedEdges (graphs : List DependencyGraph) : List (DependencyGraph × StateEdge × Nat) :=
  (graphs.take bounds.maxEdgesPerGraph).flatMap fun graph =>
    (graph.edges.take bounds.maxEdgesPerGraph).zipIdx.map fun edge => (graph, edge)

namespace BoundaryValidationPass

/-- A crossing of zones. -/
def crossing : DependencyGraph × StateEdge × Nat → List GovernanceViolation
  | (graph, edge, eidx) =>
    match policy.getZoneForEndpoint edge.upstreamEndpoint,
      policy.getZoneForEndpoint edge.downstreamEndpoint with
    | some upZone, some downZone =>
      if upZone.zoneId = downZone.zoneId then []
      else
        match policy.findBoundaryRule upZone.zoneId downZone.zoneId with
        | none =>
          if policy.globalFailClosed then
            [error .boundary "TRUST_BOUNDARY_CROSSING_UNRULED" edge.text edge.upstreamField
              [graphRef graph, edgeRef eidx]]
          else []
        | some rule =>
          match rule.action with
          | .forbidden =>
            [critical .boundary "FORBIDDEN_TRUST_BOUNDARY_CROSSING" edge.text edge.upstreamField
              [graphRef graph, edgeRef eidx, ruleRef rule.ruleId]]
          | .requiresAuth =>
            [warning .boundary "TRUST_BOUNDARY_CROSSING_REQUIRES_AUTH" edge.text []
              [graphRef graph, ruleRef rule.ruleId]]
          | .requiresAudit | .allowed => []
    | _, _ => []

def globRaw : Raw O → Text → Option Bool
  | .text value, pattern => some (globMatches value pattern)
  | .other value, pattern =>
    if pattern = [Patterns.star] then some true else models.globOther value pattern

/-- The layer of an endpoint that may be no string; there the search can raise. -/
def layerForRaw (endpoint : Raw O) : Option (Option LayerDefinition) :=
  policy.layers.findM? fun layer => layer.endpointPatterns.anyM (globRaw models endpoint)

def isStateful : Raw O → Bool
  | .text method => among method (["POST", "PUT", "DELETE", "PATCH"].map ofString)
  | .other _ => false

/-- The text of an endpoint; that of another value is not modelled. -/
def rawText : Raw O → Text
  | .text s => s
  | .other _ => []

/-- A write of state. -/
def stateWrite (trace : P × Nat) : Option (List GovernanceViolation) := do
  let endpoint := models.endpointTemplate trace.1
  let layer ← layerForRaw models policy endpoint
  if !isStateful (models.method trace.1) then
    return []
  match layer with
  | none =>
    if policy.globalFailClosed then
      return [error .boundary "STATEFUL_MUTATION_UNCLASSIFIED_LAYER" (rawText endpoint) []
        [traceRef trace.2]]
    else return []
  | some layer =>
    match policy.findStateWriterRule layer.layerId with
    | none =>
      if policy.globalFailClosed then
        return [critical .boundary "UNAUTHORIZED_STATE_WRITER" (rawText endpoint) []
          [traceRef trace.2, layerRef layer.layerId]]
      else return []
    | some rule =>
      if rule.failClosed && rule.allowedWriters.isEmpty then
        return [critical .boundary "ISOLATED_DATABASE_ENFORCEMENT_VIOLATION" (rawText endpoint) []
          [traceRef trace.2, layerRef layer.layerId]]
      else return []

def execute (artifacts : List (ValidationArtifact P)) : Option (List GovernanceViolation) := do
  let written ← ((payloads artifacts .semanticIRTrace).take
    bounds.maxEndpointsPerTrace).zipIdx.mapM (stateWrite models policy)
  return refused models artifacts .boundary [.dependencyGraph] ++
    (boundedEdges bounds (graphs models artifacts)).flatMap (crossing policy) ++ written.flatten

end BoundaryValidationPass

namespace LayerValidationPass

def unclassified (trace : SemanticIRTrace × Nat) : List GovernanceViolation :=
  if (policy.getLayerForEndpoint trace.1.endpointTemplate).isNone && policy.globalFailClosed then
    [error .layer "RUNTIME_LAYERING_UNCLASSIFIED" trace.1.endpointTemplate [] [traceRef trace.2]]
  else []

/-- An import across layers. -/
def imported : DependencyGraph × StateEdge × Nat → List GovernanceViolation
  | (graph, edge, eidx) =>
    match policy.getLayerForEndpoint edge.upstreamEndpoint,
      policy.getLayerForEndpoint edge.downstreamEndpoint with
    | some upLayer, some downLayer =>
      if upLayer.layerId = downLayer.layerId then []
      else
        match policy.findLayerRule upLayer.layerId downLayer.layerId with
        | none =>
          if policy.globalFailClosed then
            [error .layer "LAYER_CROSSING_UNRULED" edge.text [] [graphRef graph, edgeRef eidx]]
          else []
        | some rule =>
          match rule.action with
          | .forbidden =>
            [critical .layer "FORBIDDEN_LAYER_IMPORT" edge.text []
              [graphRef graph, edgeRef eidx, ruleRef rule.ruleId]]
          | .requiresGateway =>
            if rule.gatewayModules.isEmpty then
              [critical .layer "LAYER_GATEWAY_REQUIRED_BUT_NONE_CONFIGURED" edge.text []
                [graphRef graph, edgeRef eidx, ruleRef rule.ruleId]]
            else []
          | .allowed => []
    | _, _ => []

def inverted : DependencyGraph × StateEdge × Nat → List GovernanceViolation
  | (graph, edge, eidx) =>
    match policy.getLayerForEndpoint edge.upstreamEndpoint,
      policy.getLayerForEndpoint edge.downstreamEndpoint with
    | some upLayer, some downLayer =>
      if among upLayer.layerId downLayer.forbiddenImporters then
        [critical .layer "BACKEND_FRONTEND_INVERSION_DETECTED" edge.text []
          [graphRef graph, edgeRef eidx]]
      else []
    | _, _ => []

def unverifiable (rule : ForbiddenImportRule) : List GovernanceViolation :=
  if policy.layers.any (fun layer => layer.layerId = rule.layerId) then
    [warning .layer "FORBIDDEN_IMPORT_RULE_UNVERIFIABLE_NO_SOURCE_ARTIFACTS" [] [] []]
  else []

/-- All traces are read before all graphs. -/
def execute (artifacts : List (ValidationArtifact P)) : List GovernanceViolation :=
  refused models artifacts .layer [.semanticIRTrace] ++
    refused models artifacts .layer [.dependencyGraph] ++
    ((traces models artifacts).take bounds.maxEndpointsPerTrace).zipIdx.flatMap
      (unclassified policy) ++
    (boundedEdges bounds (graphs models artifacts)).flatMap (imported policy) ++
    (boundedEdges bounds (graphs models artifacts)).flatMap (inverted policy) ++
    policy.forbiddenImportRules.flatMap (unverifiable policy)

end LayerValidationPass

def classifyTrace (trace : SemanticIRTrace) : Text :=
  match trace.method with
  | .get | .head | .options => ofString "IDEMPOTENT_READ"
  | .delete => ofString "DESTRUCTIVE_MUTATION"
  | .post | .put | .patch => ofString "STATEFUL_MUTATION"

namespace MutationDriftValidationPass

def authEndpoints (artifacts : List (ValidationArtifact P)) : List Text :=
  (invariants models artifacts).flatMap AuthInvariant.affectedEndpoints

def traceDrift (covered : List Text) : SemanticIRTrace × Nat → List GovernanceViolation
  | (trace, tidx) =>
    match policy.getMutationRuleForEndpoint models.upper trace.endpointTemplate
      trace.method.text with
    | none =>
      if policy.globalFailClosed then
        [error .mutationDrift "MUTATION_RULE_UNCLASSIFIED" trace.endpointTemplate []
          [traceRef tidx]]
      else []
    | some rule =>
      let actualClass := classifyTrace trace
      let destructive := ["DESTRUCTIVE_MUTATION", "REPLAY_UNSAFE"].map ofString
      let mutating := ofString "STATEFUL_MUTATION" :: destructive
      let provenance := [traceRef tidx, ruleRef rule.ruleId]
      (if among actualClass rule.allowedMutationClasses then [] else
        [critical .mutationDrift "MUTATION_CLASS_POLICY_VIOLATION" trace.endpointTemplate []
          provenance]) ++
      (if among actualClass destructive ∧ rule.requiresReplayUnsafeForDestructive ∧
          actualClass ≠ ofString "REPLAY_UNSAFE" then
        [critical .mutationDrift "DESTRUCTIVE_MUTATION_REQUIRES_REPLAY_UNSAFE"
          trace.endpointTemplate [] provenance] else []) ++
      (if rule.requiresAuthForMutation ∧ among actualClass mutating ∧
          !among trace.endpointTemplate covered then
        [error .mutationDrift "STATEFUL_MUTATION_MISSING_AUTH_INVARIANT" trace.endpointTemplate []
          provenance] else [])

def diffDrift : SemanticDiff R × Nat → List GovernanceViolation
  | (diff, didx) =>
    let limits := policy.blastRadiusLimits
    (if limits.maxStructuralDeltaScore < diff.structuralDeltaScore then
      [error .mutationDrift "STRUCTURAL_DELTA_EXCEEDS_LIMIT" [] [] [diffRef didx]] else []) ++
    (if limits.maxSemanticDeltaScore < diff.semanticDeltaScore then
      [error .mutationDrift "SEMANTIC_DELTA_EXCEEDS_LIMIT" [] [] [diffRef didx]] else []) ++
    (if limits.maxAuthMutationCount < diff.authMutations.length then
      [critical .mutationDrift "AUTH_MUTATION_COUNT_EXCEEDS_LIMIT" [] [] [diffRef didx]]
      else []) ++
    (if limits.maxDriftScore < diff.driftScore then
      [error .mutationDrift "DRIFT_SCORE_EXCEEDS_LIMIT" [] [] [diffRef didx]] else [])

def execute (artifacts : List (ValidationArtifact P)) : List GovernanceViolation :=
  refused models artifacts .mutationDrift [.semanticIRTrace, .semanticDiff, .authInvariant] ++
    ((traces models artifacts).take bounds.maxEndpointsPerTrace).zipIdx.flatMap
      (traceDrift models policy (authEndpoints models artifacts)) ++
    ((diffs models artifacts).take bounds.maxEndpointsPerTrace).zipIdx.flatMap (diffDrift policy)

end MutationDriftValidationPass

namespace ReplaySafetyValidationPass

def replayConfirmed (artifacts : List (ValidationArtifact P)) : List Text :=
  ((invariants models artifacts).filter AuthInvariant.replayConfirmed).flatMap
    AuthInvariant.replayConfirmedEndpoints

def effectiveReplayClass (mutationClass : Text) : Text :=
  if mutationClass = ofString "IDEMPOTENT_READ" then ofString "PURE_REPLAYABLE"
  else if mutationClass = ofString "STATEFUL_MUTATION" then ofString "IDEMPOTENT"
  else if among mutationClass
      (["DESTRUCTIVE_MUTATION", "REPLAY_UNSAFE", "SIDE_EFFECT_BOUND"].map ofString) then
    ofString "NON_REPLAYABLE"
  else ofString "SIDE_EFFECT_RISK"

def traceSafety (confirmed : List Text) : SemanticIRTrace × Nat → List GovernanceViolation
  | (trace, tidx) =>
    match policy.getReplayRuleForEndpoint models.upper trace.endpointTemplate
      trace.method.text with
    | none =>
      if policy.globalFailClosed then
        [error .replaySafety "REPLAY_RULE_UNCLASSIFIED" trace.endpointTemplate [] [traceRef tidx]]
      else []
    | some rule =>
      let mutationClass := classifyTrace trace
      let provenance := [traceRef tidx, ruleRef rule.ruleId]
      (if rule.productionReplayProhibited ∧ !among trace.endpointTemplate confirmed then
        [critical .replaySafety "PRODUCTION_REPLAY_PROHIBITED" trace.endpointTemplate []
          provenance] else []) ++
      (if rule.sandboxRequired ∧ !among mutationClass rule.sandboxReplayableMutations then
        [error .replaySafety "SANBOX_REQUIRED_ROUTE_NOT_SANDBOX_REPLAYABLE" trace.endpointTemplate
          [] provenance] else []) ++
      (if effectiveReplayClass mutationClass ≠ rule.requiredReplayClass then
        [error .replaySafety "REPLAY_CLASSIFICATION_MISMATCH" trace.endpointTemplate []
          provenance] else [])

def diffSafety : SemanticDiff R × Nat → List GovernanceViolation
  | (diff, didx) =>
    if diff.replayEquivalence = ofString "CONTESTED" ∧
        policy.blastRadiusLimits.maxDriftScore < diff.driftScore then
      [critical .replaySafety "REPLAY_CONTESTED_WITH_HIGH_DRIFT" [] [] [diffRef didx]]
    else []

def execute (artifacts : List (ValidationArtifact P)) : List GovernanceViolation :=
  refused models artifacts .replaySafety [.semanticIRTrace, .semanticDiff, .authInvariant] ++
    ((traces models artifacts).take bounds.maxEndpointsPerTrace).zipIdx.flatMap
      (traceSafety models policy (replayConfirmed models artifacts)) ++
    ((diffs models artifacts).take bounds.maxEndpointsPerTrace).zipIdx.flatMap (diffSafety policy)

end ReplaySafetyValidationPass

namespace BlastRadiusValidationPass

/-- The edges that cross from zone to zone. -/
def crossService (graph : DependencyGraph) : Nat :=
  graph.edges.countP fun edge =>
    match policy.getZoneForEndpoint edge.upstreamEndpoint,
      policy.getZoneForEndpoint edge.downstreamEndpoint with
    | some upZone, some downZone => decide (upZone.zoneId ≠ downZone.zoneId)
    | _, _ => false

/-- A violation for each endpoint that is counted too often, in the order of the dict. -/
def counted (rule : String) (graph : DependencyGraph) (limit : Nat) (endpoints : List Text) :
    List GovernanceViolation :=
  (endpoints.eraseDups.filter fun endpoint => limit < endpoints.count endpoint).map fun endpoint =>
    error .blastRadius rule endpoint [] [graphRef graph]

def graphRadius (graph : DependencyGraph) : List GovernanceViolation :=
  let limits := policy.blastRadiusLimits
  (if limits.maxCrossServiceEdges < crossService policy graph then
    [critical .blastRadius "CROSS_SERVICE_EDGE_LIMIT_EXCEEDED" [] [] [graphRef graph]] else []) ++
  counted "DEPENDENCY_EXPANSION_LIMIT_EXCEEDED" graph limits.maxDependenciesPerEndpoint
    (graph.edges.flatMap fun edge => [edge.downstreamEndpoint, edge.upstreamEndpoint]) ++
  counted "FANOUT_LIMIT_EXCEEDED" graph limits.maxFanoutPerEndpoint
    (graph.edges.map StateEdge.upstreamEndpoint) ++
  (if 0 < graph.nodes.length ∧
      limits.maxTopologyComplexityScore < models.ratio graph.edges.length graph.nodes.length then
    [critical .blastRadius "TOPOLOGY_COMPLEXITY_GROWTH_EXCEEDED" [] [] [graphRef graph]] else [])

def isAuthField (field : SemanticField) : Bool :=
  decide (ofString "auth" <:+: models.lower field.inferredType) ||
    among (models.lower field.path)
      (["authorization", "x-api-key", "cookie", "csrf"].map ofString)

def authSurface (trace : SemanticIRTrace × Nat) : List GovernanceViolation :=
  if policy.blastRadiusLimits.maxAuthFieldsPerEndpoint <
      (trace.1.fields.filter (isAuthField models)).length then
    [error .blastRadius "AUTH_SURFACE_EXPANSION_EXCEEDED" trace.1.endpointTemplate []
      [traceRef trace.2]]
  else []

def adjacent (graph : DependencyGraph) (endpoint : Text) : List Text :=
  (graph.edges.filter (·.upstreamEndpoint = endpoint)).map StateEdge.downstreamEndpoint

/-- The stack of the search, the last neighbour first; `none` where a path is too long. What is
left is `max_depth + 1 - depth`. -/
def explore (graph : DependencyGraph) : Nat → Text → Nat → List Text → Nat → Option Nat
  | 0, _, _, _, _ => none
  | left + 1, node, depth, visited, found =>
    ((adjacent graph node).reverse.filter (!among · visited)).foldlM
      (fun found neighbor => explore graph left neighbor (depth + 1) (neighbor :: visited) found)
      (max found depth)

/-- `_graph_depth(graph, max_depth)` -/
def graphDepth (graph : DependencyGraph) (maxDepth : Nat) : Nat :=
  (((graph.edges.map StateEdge.upstreamEndpoint).eraseDups.foldlM
    (fun found start => explore graph maxDepth start 1 [start] found) 0)).getD (maxDepth + 1)

def depthRadius (graph : DependencyGraph) : List GovernanceViolation :=
  if policy.blastRadiusLimits.maxReplayPropagationDepth <
      graphDepth graph bounds.maxBlastRadiusDepth then
    [error .blastRadius "REPLAY_PROPAGATION_DEPTH_EXCEEDED" [] [] [graphRef graph]]
  else []

/-- A state machine has no `node_count`, so the pass raises at the first. -/
def execute (artifacts : List (ValidationArtifact P)) : Option (List GovernanceViolation) :=
  let limits := policy.blastRadiusLimits
  let traces := traces models artifacts
  let graphs := graphs models artifacts
  let invariants := invariants models artifacts
  if (stateMachines models artifacts).isEmpty then
    some <|
      refused models artifacts .blastRadius
        [.dependencyGraph, .semanticIRTrace, .authInvariant, .protocolStateMachine] ++
      (graphs.take bounds.maxEdgesPerGraph).flatMap (graphRadius models policy) ++
      (traces.take bounds.maxEndpointsPerTrace).zipIdx.flatMap (authSurface models policy) ++
      (if limits.maxUnconfirmedAuthBindings <
          (invariants.filter (!AuthInvariant.replayConfirmed ·)).length then
        [warning .blastRadius "UNCONFIRMED_AUTH_BINDING_COUNT_HIGH" [] [] []] else []) ++
      (if limits.maxAuthInvariantsPerGraph < invariants.length then
        [error .blastRadius "AUTH_INVARIANT_COUNT_EXCEEDS_LIMIT" [] [] []] else []) ++
      (if limits.maxSideEffectBoundEndpoints <
          (traces.filter (classifyTrace · = ofString "SIDE_EFFECT_BOUND")).length then
        [critical .blastRadius "REPLAY_PROPAGATION_SCOPE_GROWTH_EXCEEDED" [] [] []] else []) ++
      (if limits.maxReplayScopeNodes < (graphs.map (·.nodes.length)).sum then
        [error .blastRadius "REPLAY_SCOPE_NODE_COUNT_EXCEEDED" [] [] []] else []) ++
      (graphs.take bounds.maxEdgesPerGraph).flatMap (depthRadius policy bounds)
  else none

end BlastRadiusValidationPass

/-! ### The run -/

inductive Status where
  | pass | fail | indeterminate
  deriving DecidableEq

structure ValidationReport where
  status : Status
  passResults : List (PassName × List GovernanceViolation)
  violations : List GovernanceViolation

namespace ValidatorRuntime

/-- The passes in their order; `none` where one raises. -/
def passOrder :
    List (PassName × (List (ValidationArtifact P) → Option (List GovernanceViolation))) :=
  [(.boundary, BoundaryValidationPass.execute models policy bounds),
    (.layer, fun artifacts => some (LayerValidationPass.execute models policy bounds artifacts)),
    (.mutationDrift, fun artifacts =>
      some (MutationDriftValidationPass.execute models policy bounds artifacts)),
    (.replaySafety, fun artifacts =>
      some (ReplaySafetyValidationPass.execute models policy bounds artifacts)),
    (.blastRadius, BlastRadiusValidationPass.execute models policy bounds)]

def boundedCollect (newViolations : List GovernanceViolation) : List GovernanceViolation :=
  if bounds.maxViolationsPerPass < newViolations.length then
    newViolations.take bounds.maxViolationsPerPass ++
      [critical .runtime "BOUNDED_EXECUTION_VIOLATION_LIMIT_EXCEEDED" [] [] []]
  else newViolations

def response (passName : PassName) (result : Option (List GovernanceViolation)) :
    List GovernanceViolation :=
  boundedCollect bounds
    (result.getD [critical passName "PASS_EXECUTION_FAILURE" [] [] []])

def assembleReport (passResults : List (PassName × List GovernanceViolation))
    (violations : List GovernanceViolation) : ValidationReport where
  status :=
    if violations.any (·.severity = .critical) then .fail
    else if violations.any (·.severity = .error) then .fail
    else if policy.globalFailClosed && passResults.isEmpty then .indeterminate
    else .pass
  passResults := passResults
  violations := violations

def run (artifacts : List (ValidationArtifact P)) : ValidationReport :=
  if artifacts.isEmpty then
    assembleReport policy [] [critical .runtime "NO_ARTIFACTS_PROVIDED" [] [] []]
  else
    let passResults := (passOrder models policy bounds).map fun pass =>
      (pass.1, response bounds pass.1 (pass.2 artifacts))
    assembleReport policy passResults (passResults.flatMap (·.2))

end ValidatorRuntime
end Passes

/-! ### What is covered -/

/-- A method that may change state. -/
def Method.Writes (method : Method) : Prop :=
  method = .post ∨ method = .put ∨ method = .patch ∨ method = .delete

section Covered
variable {P O R : Type} (models : Models P O R) (policy : ArchitecturePolicy R)
  (bounds : ValidationBoundsConfig) (artifacts : List (ValidationArtifact P))

/-- The first rule for two zones, and that for two layers, is there and does not forbid. -/
structure EdgeCovered (edge : StateEdge) : Prop where
  zones : ∀ up down, policy.getZoneForEndpoint edge.upstreamEndpoint = some up →
    policy.getZoneForEndpoint edge.downstreamEndpoint = some down → up ≠ down →
    ∃ rule, policy.findBoundaryRule up.zoneId down.zoneId = some rule ∧ rule.action ≠ .forbidden
  layers : ∀ up down, policy.getLayerForEndpoint edge.upstreamEndpoint = some up →
    policy.getLayerForEndpoint edge.downstreamEndpoint = some down → up ≠ down →
    ∃ rule, policy.findLayerRule up.layerId down.layerId = some rule ∧ rule.action ≠ .forbidden

/-- An endpoint has a layer, and one that is written to a layer with a writer rule. -/
def TraceCovered (trace : SemanticIRTrace) : Prop :=
  ∃ layer, policy.getLayerForEndpoint trace.endpointTemplate = some layer ∧
    (trace.method.Writes → ∃ rule, policy.findStateWriterRule layer.layerId = some rule)

/-- Every payload parses, and the policy rules each edge and trace. -/
structure Covered : Prop where
  traces_parse : ∀ artifact ∈ artifacts, artifact.artifactType = .semanticIRTrace →
    ∃ payload trace, artifact.payload = some payload ∧ models.trace payload = some trace
  graphs_parse : ∀ artifact ∈ artifacts, artifact.artifactType = .dependencyGraph →
    ∃ payload graph, artifact.payload = some payload ∧ models.graph payload = some graph
  edges : ∀ graph ∈ graphs models artifacts, ∀ edge ∈ graph.edges, EdgeCovered policy edge
  traces : ∀ trace ∈ traces models artifacts, TraceCovered policy trace

/-- What the bounds leave out is covered. -/
structure Beyond : Prop where
  graphs : ∀ graph ∈ (graphs models artifacts).drop bounds.maxEdgesPerGraph,
    ∀ edge ∈ graph.edges, EdgeCovered policy edge
  edges : ∀ graph ∈ (SemanticValidator.graphs models artifacts).take bounds.maxEdgesPerGraph,
    ∀ edge ∈ graph.edges.drop bounds.maxEdgesPerGraph, EdgeCovered policy edge
  traces : ∀ trace ∈ (traces models artifacts).drop bounds.maxEndpointsPerTrace,
    TraceCovered policy trace

end Covered

/-! ### A report of PASS -/

section Quiet
variable {R : Type} (policy : ArchitecturePolicy R) (bounds : ValidationBoundsConfig)
  {violations : List GovernanceViolation}

/-- Warnings, and not too many. -/
def Quiet (violations : List GovernanceViolation) : Prop :=
  violations.length ≤ bounds.maxViolationsPerPass ∧ ∀ v ∈ violations, v.severity = .warning

theorem Quiet.mono {fewer : List GovernanceViolation} (h : Quiet bounds violations)
    (hfewer : fewer.Sublist violations) : Quiet bounds fewer :=
  ⟨hfewer.length_le.trans h.1, fun v hv => h.2 v (hfewer.subset hv)⟩

theorem boundedCollect_warning :
    (∀ v ∈ ValidatorRuntime.boundedCollect bounds violations, v.severity = .warning) ↔
      Quiet bounds violations := by
  rw [ValidatorRuntime.boundedCollect]
  split_ifs with hmany
  · constructor
    · intro h
      have hcritical := h _ (List.mem_append_right _ List.mem_cons_self)
      cases hcritical
    · intro h
      exact absurd h.1 (Nat.not_le_of_gt hmany)
  · exact ⟨fun h => ⟨Nat.le_of_not_lt hmany, h⟩, fun h => h.2⟩

/-- A pass that raises is no quiet pass. -/
theorem response_warning {passName : PassName} {result : Option (List GovernanceViolation)} :
    (∀ v ∈ ValidatorRuntime.response bounds passName result, v.severity = .warning) ↔
      ∃ violations, result = some violations ∧ Quiet bounds violations := by
  rw [ValidatorRuntime.response, boundedCollect_warning]
  cases result with
  | none =>
    constructor
    · intro h
      have hcritical := h.2 _ List.mem_cons_self
      cases hcritical
    · intro h
      obtain ⟨_, hnone, _⟩ := h
      cases hnone
  | some violations => simp

theorem assembleReport_pass {passResults : List (PassName × List GovernanceViolation)}
    (hran : passResults ≠ []) :
    (ValidatorRuntime.assembleReport policy passResults violations).status = .pass ↔
      ∀ v ∈ violations, v.severity = .warning := by
  have hempty : passResults.isEmpty = false := by simpa using hran
  have hsplit : (∀ v ∈ violations, v.severity = .warning) ↔
      ¬ violations.any (·.severity = .critical) ∧ ¬ violations.any (·.severity = .error) := by
    simp only [List.any_eq_true, decide_eq_true_eq, not_exists, not_and, ← forall_and]
    refine forall_congr' fun v => ?_
    cases v.severity <;> simp
  rw [hsplit]
  simp only [ValidatorRuntime.assembleReport, hempty, Bool.and_false]
  split_ifs with hcritical herror <;> simp_all

end Quiet

section Runs
variable {P O R : Type} [LT R] [DecidableLT R] (models : Models P O R)
  (policy : ArchitecturePolicy R) (bounds : ValidationBoundsConfig)
  {artifacts : List (ValidationArtifact P)}

open ValidatorRuntime

/-- The report is PASS when each pass ends with warnings only. -/
theorem run_pass (hne : artifacts ≠ []) :
    (run models policy bounds artifacts).status = .pass ↔
      ∀ pass ∈ passOrder models policy bounds,
        ∃ violations, pass.2 artifacts = some violations ∧ Quiet bounds violations := by
  have hempty : artifacts.isEmpty = false := by simpa using hne
  rw [run, hempty, if_neg Bool.false_ne_true, assembleReport_pass policy (by simp [passOrder])]
  simp only [List.mem_flatMap, List.mem_map, forall_exists_index, and_imp,
    forall_apply_eq_imp_iff₂]
  constructor
  · intro h pass hpass
    exact (response_warning bounds).mp fun v hv => h v pass hpass hv
  · intro h v pass hpass
    exact (response_warning bounds).mpr (h pass hpass) v

end Runs

/-! ### What a quiet pass has seen -/

section Seen
variable {P O R : Type} (models : Models P O R) (policy : ArchitecturePolicy R)
  (bounds : ValidationBoundsConfig) {artifacts : List (ValidationArtifact P)}

theorem zoneId_injective {endpoint other : Text} {up down : TrustZone}
    (hup : policy.getZoneForEndpoint endpoint = some up)
    (hdown : policy.getZoneForEndpoint other = some down) (h : up.zoneId = down.zoneId) :
    up = down :=
  List.inj_on_of_nodup_map policy.unique_zone_ids (List.mem_of_find?_eq_some hup)
    (List.mem_of_find?_eq_some hdown) h

theorem layerId_injective {endpoint other : Text} {up down : LayerDefinition}
    (hup : policy.getLayerForEndpoint endpoint = some up)
    (hdown : policy.getLayerForEndpoint other = some down) (h : up.layerId = down.layerId) :
    up = down :=
  List.inj_on_of_nodup_map policy.unique_layer_ids (List.mem_of_find?_eq_some hup)
    (List.mem_of_find?_eq_some hdown) h

theorem zones_of_crossing (hclosed : policy.globalFailClosed = true) {graph : DependencyGraph}
    {edge : StateEdge} {eidx : Nat}
    (h : ∀ v ∈ BoundaryValidationPass.crossing policy (graph, edge, eidx), v.severity = .warning)
    {up down : TrustZone} (hup : policy.getZoneForEndpoint edge.upstreamEndpoint = some up)
    (hdown : policy.getZoneForEndpoint edge.downstreamEndpoint = some down) (hne : up ≠ down) :
    ∃ rule, policy.findBoundaryRule up.zoneId down.zoneId = some rule ∧
      rule.action ≠ .forbidden := by
  have hids : up.zoneId ≠ down.zoneId := fun heq => hne (zoneId_injective policy hup hdown heq)
  simp only [BoundaryValidationPass.crossing, hup, hdown, if_neg hids] at h
  cases hrule : policy.findBoundaryRule up.zoneId down.zoneId with
  | none =>
    rw [hrule] at h
    have herror := h _ (by rw [if_pos hclosed]; exact List.mem_cons_self)
    cases herror
  | some rule =>
    refine ⟨rule, rfl, fun hforbidden => ?_⟩
    simp only [hrule, hforbidden] at h
    have hcritical := h _ List.mem_cons_self
    cases hcritical

theorem layers_of_imported (hclosed : policy.globalFailClosed = true) {graph : DependencyGraph}
    {edge : StateEdge} {eidx : Nat}
    (h : ∀ v ∈ LayerValidationPass.imported policy (graph, edge, eidx), v.severity = .warning)
    {up down : LayerDefinition} (hup : policy.getLayerForEndpoint edge.upstreamEndpoint = some up)
    (hdown : policy.getLayerForEndpoint edge.downstreamEndpoint = some down) (hne : up ≠ down) :
    ∃ rule, policy.findLayerRule up.layerId down.layerId = some rule ∧
      rule.action ≠ .forbidden := by
  have hids : up.layerId ≠ down.layerId := fun heq => hne (layerId_injective policy hup hdown heq)
  simp only [LayerValidationPass.imported, hup, hdown, if_neg hids] at h
  cases hrule : policy.findLayerRule up.layerId down.layerId with
  | none =>
    rw [hrule] at h
    have herror := h _ (by rw [if_pos hclosed]; exact List.mem_cons_self)
    cases herror
  | some rule =>
    refine ⟨rule, rfl, fun hforbidden => ?_⟩
    simp only [hrule, hforbidden] at h
    have hcritical := h _ List.mem_cons_self
    cases hcritical

theorem layer_of_unclassified (hclosed : policy.globalFailClosed = true)
    {trace : SemanticIRTrace} {tidx : Nat}
    (h : ∀ v ∈ LayerValidationPass.unclassified policy (trace, tidx), v.severity = .warning) :
    ∃ layer, policy.getLayerForEndpoint trace.endpointTemplate = some layer := by
  cases hlayer : policy.getLayerForEndpoint trace.endpointTemplate with
  | none =>
    simp only [LayerValidationPass.unclassified, hlayer, hclosed] at h
    have herror := h _ List.mem_cons_self
    cases herror
  | some layer => exact ⟨layer, rfl⟩

theorem layerForRaw_text (endpoint : Text) :
    BoundaryValidationPass.layerForRaw models policy (.text endpoint) =
      some (policy.getLayerForEndpoint endpoint) := by
  have hglob : ∀ layer : LayerDefinition,
      layer.endpointPatterns.anyM (BoundaryValidationPass.globRaw models (.text endpoint)) =
        some (layer.endpointPatterns.any (globMatches endpoint)) :=
    fun layer => List.anyM_pure
  simp only [BoundaryValidationPass.layerForRaw, hglob]
  exact List.findM?_pure _ _

theorem isStateful_writes {method : Method} (h : method.Writes) :
    BoundaryValidationPass.isStateful (.text method.text : Raw O) = true := by
  simp only [BoundaryValidationPass.isStateful, among_iff]
  obtain rfl | rfl | rfl | rfl := h
  all_goals decide

theorem writer_of_stateWrite (hclosed : policy.globalFailClosed = true) {payload : P}
    {trace : SemanticIRTrace} (htrace : models.trace payload = some trace) {tidx : Nat}
    {violations : List GovernanceViolation}
    (hwrite : BoundaryValidationPass.stateWrite models policy (payload, tidx) = some violations)
    (h : ∀ v ∈ violations, v.severity = .warning) {layer : LayerDefinition}
    (hlayer : policy.getLayerForEndpoint trace.endpointTemplate = some layer)
    (hwrites : trace.method.Writes) :
    ∃ rule, policy.findStateWriterRule layer.layerId = some rule := by
  cases hrule : policy.findStateWriterRule layer.layerId with
  | some rule => exact ⟨rule, rfl⟩
  | none =>
    simp only [BoundaryValidationPass.stateWrite, models.trace_endpointTemplate htrace,
      models.trace_method htrace, layerForRaw_text, hlayer, isStateful_writes hwrites, hrule,
      hclosed, Option.bind_eq_bind, Option.bind_some, Bool.not_true, if_true] at hwrite
    cases hwrite
    have hcritical := h _ List.mem_cons_self
    cases hcritical

end Seen

/-! ### Within the bounds -/

section Within
variable {P O R : Type} (models : Models P O R)
  (policy : ArchitecturePolicy R) (bounds : ValidationBoundsConfig)
  {artifacts : List (ValidationArtifact P)}

/-- What is looked at is covered. -/
structure Within (artifacts : List (ValidationArtifact P)) : Prop where
  traces_parse : ∀ payload ∈ payloads artifacts .semanticIRTrace, models.trace payload ≠ none
  graphs_parse : ∀ payload ∈ payloads artifacts .dependencyGraph, models.graph payload ≠ none
  edges : ∀ graph ∈ (graphs models artifacts).take bounds.maxEdgesPerGraph,
    ∀ edge ∈ graph.edges.take bounds.maxEdgesPerGraph, EdgeCovered policy edge
  traces : ∀ trace ∈ (traces models artifacts).take bounds.maxEndpointsPerTrace,
    TraceCovered policy trace

theorem mem_payloads {type : ArtifactType} {payload : P} :
    payload ∈ payloads artifacts type ↔
      ∃ artifact ∈ artifacts, artifact.artifactType = type ∧ artifact.payload = some payload := by
  simp only [payloads, List.mem_filterMap, Option.ite_none_right_eq_some]

theorem parses_of_refused {passName : PassName} {type : ArtifactType} {payload : P}
    (h : ∀ v ∈ refused models artifacts passName [type], v.severity = .warning)
    (hpayload : payload ∈ payloads artifacts type) :
    unparseable models ⟨type, some payload⟩ = none := by
  obtain ⟨artifact, hmem, rfl, hsome⟩ := mem_payloads.mp hpayload
  cases hrule : unparseable models ⟨artifact.artifactType, some payload⟩ with
  | none => rfl
  | some rule =>
    have hcritical := h (critical passName rule [] [] []) (by
      refine List.mem_filterMap.mpr ⟨artifact, List.mem_filter.mpr ⟨hmem, by simp⟩, ?_⟩
      rw [show artifact = ⟨artifact.artifactType, some payload⟩ by rw [← hsome], hrule]
      rfl)
    cases hcritical

theorem mem_boundedEdges {graphs : List DependencyGraph} {graph : DependencyGraph}
    {edge : StateEdge} (hgraph : graph ∈ graphs.take bounds.maxEdgesPerGraph)
    (hedge : edge ∈ graph.edges.take bounds.maxEdgesPerGraph) :
    ∃ eidx, (graph, edge, eidx) ∈ boundedEdges bounds graphs := by
  obtain ⟨eidx, hget⟩ := List.mem_iff_getElem?.mp hedge
  exact ⟨eidx, List.mem_flatMap.mpr ⟨graph, hgraph,
    List.mem_map.mpr ⟨(edge, eidx), List.mem_zipIdx_iff_getElem?.mpr hget, rfl⟩⟩⟩

/-- Where all are read, as many are read as there are. -/
theorem take_filterMap {A B : Type} {f : A → Option B} {l : List A}
    (h : ∀ a ∈ l, f a ≠ none) (n : Nat) : (l.filterMap f).take n = (l.take n).filterMap f := by
  induction l generalizing n with
  | nil => simp
  | cons a l ih =>
    obtain ⟨b, hb⟩ := Option.ne_none_iff_exists'.mp (h a List.mem_cons_self)
    cases n with
    | zero => simp
    | succ n =>
      rw [List.filterMap_cons_some hb, List.take_succ_cons, List.take_succ_cons,
        List.filterMap_cons_some hb, ih fun x hx => h x (List.mem_cons_of_mem a hx)]

theorem mem_mapM {A B : Type} {f : A → Option B} {l : List A} {results : List B}
    (h : l.mapM f = some results) {a : A} (ha : a ∈ l) : ∃ b ∈ results, f a = some b := by
  induction l generalizing results with
  | nil => cases ha
  | cons x l ih =>
    simp only [List.mapM_cons, Option.bind_eq_bind, Option.bind_eq_some_iff, Option.pure_def,
      Option.some.injEq] at h
    obtain ⟨b, hb, rest, hrest, rfl⟩ := h
    cases List.mem_cons.mp ha with
    | inl heq =>
      subst heq
      exact ⟨b, List.mem_cons_self, hb⟩
    | inr hmem =>
      obtain ⟨c, hc, hac⟩ := ih hrest hmem
      exact ⟨c, List.mem_cons_of_mem b hc, hac⟩

open ValidatorRuntime in
theorem within_of_pass [LT R] [DecidableLT R] (hclosed : policy.globalFailClosed = true)
    (hne : artifacts ≠ []) (hpass : (run models policy bounds artifacts).status = .pass) :
    Within models policy bounds artifacts := by
  have hquiet := (run_pass models policy bounds hne).mp hpass
  obtain ⟨boundary, hboundary, -, hwarn⟩ := hquiet (.boundary, _) List.mem_cons_self
  obtain ⟨_, hlayer, -, hlayerWarn⟩ := hquiet (.layer, _) (.tail _ List.mem_cons_self)
  cases hlayer
  simp only [LayerValidationPass.execute, List.forall_mem_append] at hlayerWarn
  obtain ⟨⟨⟨⟨⟨hreadTraces, hreadGraphs⟩, hclassified⟩, himported⟩, -⟩, -⟩ := hlayerWarn
  simp only [BoundaryValidationPass.execute, Option.bind_eq_bind, Option.bind_eq_some_iff,
    Option.pure_def, Option.some.injEq] at hboundary
  obtain ⟨written, hwritten, rfl⟩ := hboundary
  simp only [List.forall_mem_append] at hwarn
  obtain ⟨⟨-, hcrossed⟩, hwrites⟩ := hwarn
  have hparse : ∀ payload ∈ payloads artifacts .semanticIRTrace, models.trace payload ≠ none := by
    intro payload hpayload hnone
    have hrefused := parses_of_refused models hreadTraces hpayload
    simp [unparseable, hnone] at hrefused
  refine ⟨hparse, ?_, ?_, ?_⟩
  · intro payload hpayload hnone
    have hrefused := parses_of_refused models hreadGraphs hpayload
    simp [unparseable, hnone] at hrefused
  · intro graph hgraph edge hedge
    obtain ⟨eidx, hmem⟩ := mem_boundedEdges bounds hgraph hedge
    exact
      { zones := fun _ _ => zones_of_crossing policy hclosed fun v hv =>
          hcrossed v (List.mem_flatMap.mpr ⟨_, hmem, hv⟩)
        layers := fun _ _ => layers_of_imported policy hclosed fun v hv =>
          himported v (List.mem_flatMap.mpr ⟨_, hmem, hv⟩) }
  · intro trace htrace
    obtain ⟨tidx, hget⟩ := List.mem_iff_getElem?.mp htrace
    obtain ⟨layer, hlayer⟩ := layer_of_unclassified policy hclosed fun v hv =>
      hclassified v (List.mem_flatMap.mpr
        ⟨_, List.mem_zipIdx_iff_getElem?.mpr hget, hv⟩)
    refine ⟨layer, hlayer, fun hmethod => ?_⟩
    rw [traces, take_filterMap hparse] at htrace
    obtain ⟨payload, hpayload, hsome⟩ := List.mem_filterMap.mp htrace
    obtain ⟨place, hplace⟩ := List.mem_iff_getElem?.mp hpayload
    obtain ⟨violations, hviolations, hwrite⟩ :=
      mem_mapM hwritten
        (show (payload, place) ∈ _ from List.mem_zipIdx_iff_getElem?.mpr hplace)
    exact writer_of_stateWrite models policy hclosed hsome hwrite
      (fun v hv => hwrites v (List.mem_flatten.mpr ⟨violations, hviolations, hv⟩)) hlayer hmethod

/-- What is within the bounds and what is beyond them is all there is. -/
theorem Within.covered_iff (h : Within models policy bounds artifacts)
    (hdicts : ∀ artifact ∈ artifacts, artifact.payload ≠ none) :
    Covered models policy artifacts ↔ Beyond models policy bounds artifacts := by
  constructor
  · intro hcovered
    exact
      { graphs := fun graph hgraph => hcovered.edges graph (List.mem_of_mem_drop hgraph)
        edges := fun graph hgraph edge hedge =>
          hcovered.edges graph (List.mem_of_mem_take hgraph) edge (List.mem_of_mem_drop hedge)
        traces := fun trace htrace => hcovered.traces trace (List.mem_of_mem_drop htrace) }
  · intro hbeyond
    refine ⟨fun artifact hmem htype => ?_, fun artifact hmem htype => ?_,
      fun graph hgraph edge hedge => ?_, fun trace htrace => ?_⟩
    · obtain ⟨payload, hpayload⟩ := Option.ne_none_iff_exists'.mp (hdicts artifact hmem)
      obtain ⟨trace, htrace⟩ := Option.ne_none_iff_exists'.mp
        (h.traces_parse payload (mem_payloads.mpr ⟨artifact, hmem, htype, hpayload⟩))
      exact ⟨payload, trace, hpayload, htrace⟩
    · obtain ⟨payload, hpayload⟩ := Option.ne_none_iff_exists'.mp (hdicts artifact hmem)
      obtain ⟨graph, hgraph⟩ := Option.ne_none_iff_exists'.mp
        (h.graphs_parse payload (mem_payloads.mpr ⟨artifact, hmem, htype, hpayload⟩))
      exact ⟨payload, graph, hpayload, hgraph⟩
    · rw [← List.take_append_drop bounds.maxEdgesPerGraph (graphs models artifacts)] at hgraph
      rw [← List.take_append_drop bounds.maxEdgesPerGraph graph.edges] at hedge
      cases List.mem_append.mp hgraph with
      | inl hgraph =>
        cases List.mem_append.mp hedge with
        | inl hedge => exact h.edges graph hgraph edge hedge
        | inr hedge => exact hbeyond.edges graph hgraph edge hedge
      | inr hgraph =>
        rw [List.take_append_drop] at hedge
        exact hbeyond.graphs graph hgraph edge hedge
    · rw [← List.take_append_drop bounds.maxEndpointsPerTrace
        (SemanticValidator.traces models artifacts)] at htrace
      cases List.mem_append.mp htrace with
      | inl htrace => exact h.traces trace htrace
      | inr htrace => exact hbeyond.traces trace htrace

end Within

/-! ### More traces and graphs -/

section More
variable {A B : Type} {l more : List A}

theorem prefix_filterMap (f : A → Option B) :
    (l.filterMap f).IsPrefix ((l ++ more).filterMap f) := by
  rw [List.filterMap_append]
  exact List.prefix_append _ _

/-- What is read of a prefix, place by place, is read of the whole. -/
theorem prefix_bounded (h : l.IsPrefix more) (f : A × Nat → List B) (n : Nat) :
    ((l.take n).zipIdx.flatMap f).Sublist ((more.take n).zipIdx.flatMap f) := by
  obtain ⟨rest, hrest⟩ := h.take n
  rw [← hrest, List.zipIdx_append, List.flatMap_append]
  exact List.sublist_append_left _ _

theorem ite_sublist {p q : Prop} [Decidable p] [Decidable q] (h : p → q) (l : List A) :
    (if p then l else []).Sublist (if q then l else []) := by
  split_ifs with hp hq
  · exact List.Sublist.refl l
  · exact absurd (h hp) hq
  · exact List.nil_sublist _
  · exact List.Sublist.refl []

end More

section Appended
variable {P O R : Type} (models : Models P O R) (policy : ArchitecturePolicy R)
  (bounds : ValidationBoundsConfig) {artifacts more : List (ValidationArtifact P)}

theorem payloads_append (type : ArtifactType) :
    payloads (artifacts ++ more) type = payloads artifacts type ++ payloads more type :=
  List.filterMap_append

theorem payloads_other {type : ArtifactType} (hmore : ∀ artifact ∈ more,
      artifact.artifactType = .semanticIRTrace ∨ artifact.artifactType = .dependencyGraph)
    (htrace : type ≠ .semanticIRTrace) (hgraph : type ≠ .dependencyGraph) :
    payloads (artifacts ++ more) type = payloads artifacts type := by
  have hnone : payloads more type = [] := by
    rw [List.eq_nil_iff_forall_not_mem]
    intro payload hpayload
    obtain ⟨artifact, hmem, htype, -⟩ := mem_payloads.mp hpayload
    cases hmore artifact hmem with
    | inl h => exact htrace (htype.symm.trans h)
    | inr h => exact hgraph (htype.symm.trans h)
  rw [payloads_append, hnone, List.append_nil]

theorem refused_append (passName : PassName) (types : List ArtifactType) :
    (refused models artifacts passName types).Sublist
      (refused models (artifacts ++ more) passName types) := by
  rw [refused, refused, List.filter_append]
  exact (prefix_filterMap _).sublist

variable (artifacts more) in
theorem traces_append : (traces models artifacts).IsPrefix (traces models (artifacts ++ more)) := by
  rw [traces, traces, payloads_append]
  exact prefix_filterMap _

variable (artifacts more) in
theorem graphs_append : (graphs models artifacts).IsPrefix (graphs models (artifacts ++ more)) := by
  rw [graphs, graphs, payloads_append]
  exact prefix_filterMap _

theorem boundedEdges_append {B : Type} (f : DependencyGraph × StateEdge × Nat → List B) :
    ((boundedEdges bounds (graphs models artifacts)).flatMap f).Sublist
      ((boundedEdges bounds (graphs models (artifacts ++ more))).flatMap f) := by
  obtain ⟨rest, hrest⟩ := (graphs_append models artifacts more).take bounds.maxEdgesPerGraph
  rw [boundedEdges, boundedEdges, ← hrest, List.flatMap_append, List.flatMap_append]
  exact List.sublist_append_left _ _

theorem boundedGraphs_append {B : Type} (f : DependencyGraph → List B) :
    (((graphs models artifacts).take bounds.maxEdgesPerGraph).flatMap f).Sublist
      (((graphs models (artifacts ++ more)).take bounds.maxEdgesPerGraph).flatMap f) := by
  obtain ⟨rest, hrest⟩ := (graphs_append models artifacts more).take bounds.maxEdgesPerGraph
  rw [← hrest, List.flatMap_append]
  exact List.sublist_append_left _ _

/-- A result of the longer list has that of the shorter in it, and does not raise less. -/
def Under (result longer : Option (List GovernanceViolation)) : Prop :=
  ∀ violations, longer = some violations →
    ∃ fewer, result = some fewer ∧ fewer.Sublist violations

theorem boundary_append : Under (BoundaryValidationPass.execute models policy bounds artifacts)
    (BoundaryValidationPass.execute models policy bounds (artifacts ++ more)) := by
  intro violations h
  simp only [BoundaryValidationPass.execute, Option.bind_eq_bind, Option.bind_eq_some_iff,
    Option.pure_def, Option.some.injEq] at h
  obtain ⟨written, hwritten, rfl⟩ := h
  have hprefix : (payloads artifacts .semanticIRTrace).IsPrefix
      (payloads (artifacts ++ more) .semanticIRTrace) := by
    rw [payloads_append]
    exact List.prefix_append _ _
  obtain ⟨rest, hrest⟩ := hprefix.take bounds.maxEndpointsPerTrace
  rw [← hrest, List.zipIdx_append, List.mapM_append] at hwritten
  simp only [Option.bind_eq_bind, Option.bind_eq_some_iff, Option.pure_def,
    Option.some.injEq] at hwritten
  obtain ⟨first, hfirst, second, -, rfl⟩ := hwritten
  refine ⟨_, by rw [BoundaryValidationPass.execute, hfirst]; rfl, ?_⟩
  refine ((refused_append models _ _).append (boundedEdges_append models bounds _)).append ?_
  rw [List.flatten_append]
  exact List.sublist_append_left _ _

theorem layer_append : (LayerValidationPass.execute models policy bounds artifacts).Sublist
    (LayerValidationPass.execute models policy bounds (artifacts ++ more)) :=
  (((((refused_append models _ _).append (refused_append models _ _)).append
    (prefix_bounded (traces_append models _ _) _ _)).append
    (boundedEdges_append models bounds _)).append (boundedEdges_append models bounds _)).append
    (List.Sublist.refl _)

variable (hmore : ∀ artifact ∈ more,
  artifact.artifactType = .semanticIRTrace ∨ artifact.artifactType = .dependencyGraph)
include hmore

theorem diffs_append : diffs models (artifacts ++ more) = diffs models artifacts := by
  rw [diffs, diffs, payloads_other hmore (by decide) (by decide)]

theorem invariants_append :
    invariants models (artifacts ++ more) = invariants models artifacts := by
  rw [invariants, invariants, payloads_other hmore (by decide) (by decide)]

theorem stateMachines_append :
    stateMachines models (artifacts ++ more) = stateMachines models artifacts := by
  rw [stateMachines, stateMachines, payloads_other hmore (by decide) (by decide)]

theorem mutationDrift_append [LT R] [DecidableLT R] :
    (MutationDriftValidationPass.execute models policy bounds artifacts).Sublist
      (MutationDriftValidationPass.execute models policy bounds (artifacts ++ more)) := by
  rw [MutationDriftValidationPass.execute, MutationDriftValidationPass.execute,
    MutationDriftValidationPass.authEndpoints, MutationDriftValidationPass.authEndpoints,
    invariants_append models hmore, diffs_append models hmore]
  exact ((refused_append models _ _).append (prefix_bounded (traces_append models _ _) _ _)).append
    (List.Sublist.refl _)

theorem replaySafety_append [LT R] [DecidableLT R] :
    (ReplaySafetyValidationPass.execute models policy bounds artifacts).Sublist
      (ReplaySafetyValidationPass.execute models policy bounds (artifacts ++ more)) := by
  rw [ReplaySafetyValidationPass.execute, ReplaySafetyValidationPass.execute,
    ReplaySafetyValidationPass.replayConfirmed, ReplaySafetyValidationPass.replayConfirmed,
    invariants_append models hmore, diffs_append models hmore]
  exact ((refused_append models _ _).append (prefix_bounded (traces_append models _ _) _ _)).append
    (List.Sublist.refl _)

theorem blastRadius_append [LT R] [DecidableLT R] :
    Under (BlastRadiusValidationPass.execute models policy bounds artifacts)
      (BlastRadiusValidationPass.execute models policy bounds (artifacts ++ more)) := by
  intro violations h
  simp only [BlastRadiusValidationPass.execute, stateMachines_append models hmore,
    invariants_append models hmore] at h
  by_cases hmachines : (stateMachines models artifacts).isEmpty = true
  swap
  · rw [if_neg hmachines] at h
    cases h
  rw [if_pos hmachines] at h
  cases h
  refine ⟨_, by rw [BlastRadiusValidationPass.execute, if_pos hmachines], ?_⟩
  have hside : ((traces models artifacts).filter
      (classifyTrace · = ofString "SIDE_EFFECT_BOUND")).length ≤
      ((traces models (artifacts ++ more)).filter
        (classifyTrace · = ofString "SIDE_EFFECT_BOUND")).length :=
    ((traces_append models _ _).sublist.filter _).length_le
  have hnodes : ((graphs models artifacts).map (·.nodes.length)).sum ≤
      ((graphs models (artifacts ++ more)).map (·.nodes.length)).sum := by
    obtain ⟨rest, hrest⟩ := graphs_append models artifacts more
    rw [← hrest, List.map_append, List.sum_append]
    exact Nat.le_add_right _ _
  exact (((((((refused_append models _ _).append (boundedGraphs_append models bounds _)).append
    (prefix_bounded (traces_append models _ _) _ _)).append (List.Sublist.refl _)).append
    (List.Sublist.refl _)).append (ite_sublist (fun h => Nat.lt_of_lt_of_le h hside) _)).append
    (ite_sublist (fun h => Nat.lt_of_lt_of_le h hnodes) _)).append
    (boundedGraphs_append models bounds _)

open ValidatorRuntime in
/-- What passes with more traces and graphs passes without them. -/
theorem pass_of_append [LT R] [DecidableLT R] (hne : artifacts ≠ [])
    (hpass : (run models policy bounds (artifacts ++ more)).status = .pass) :
    (run models policy bounds artifacts).status = .pass := by
  have hquiet := (run_pass models policy bounds (by simp [hne])).mp hpass
  rw [run_pass models policy bounds hne]
  have hunder : ∀ pass ∈ passOrder models policy bounds,
      Under (pass.2 artifacts) (pass.2 (artifacts ++ more)) := by
    have hsome : ∀ {fewer violations : List GovernanceViolation}, fewer.Sublist violations →
        Under (some fewer) (some violations) := by
      intro fewer violations hfewer _ h
      cases h
      exact ⟨fewer, rfl, hfewer⟩
    intro pass hmem
    simp only [passOrder, List.mem_cons, List.not_mem_nil, or_false] at hmem
    obtain rfl | rfl | rfl | rfl | rfl := hmem
    · exact boundary_append models policy bounds
    · exact hsome (layer_append models policy bounds)
    · exact hsome (mutationDrift_append models policy bounds hmore)
    · exact hsome (replaySafety_append models policy bounds hmore)
    · exact blastRadius_append models policy bounds hmore
  intro pass hmem
  obtain ⟨violations, hviolations, hfine⟩ := hquiet pass hmem
  obtain ⟨fewer, hfewer, hsub⟩ := hunder pass hmem violations hviolations
  exact ⟨fewer, hfewer, hfine.mono bounds hsub⟩

end Appended

/-! ### Every report -/

section Reports
variable {P O R : Type} [LT R] [DecidableLT R] (models : Models P O R)
  (policy : ArchitecturePolicy R) (bounds : ValidationBoundsConfig)

open ValidatorRuntime

theorem length_boundedCollect (violations : List GovernanceViolation) :
    (boundedCollect bounds violations).length ≤ bounds.maxViolationsPerPass + 1 := by
  rw [boundedCollect]
  split_ifs with hmany
  · rw [List.length_append, List.length_take, List.length_singleton]
    omega
  · omega

theorem length_responses {A : Type}
    (passes : List (PassName × (A → Option (List GovernanceViolation)))) (artifacts : A) :
    ((passes.map fun pass => (pass.1, response bounds pass.1 (pass.2 artifacts))).flatMap
      (·.2)).length ≤ passes.length * (bounds.maxViolationsPerPass + 1) := by
  induction passes with
  | nil => exact Nat.zero_le _
  | cons pass passes ih =>
    rw [List.map_cons, List.flatMap_cons, List.length_append, List.length_cons, Nat.succ_mul,
      Nat.add_comm]
    exact Nat.add_le_add ih (length_boundedCollect bounds _)

theorem run_decides (artifacts : List (ValidationArtifact P)) :
    (run models policy bounds artifacts).status ≠ .indeterminate := by
  rw [run]
  split_ifs with hempty
  · simp [assembleReport, critical]
  · intro hstatus
    simp only [assembleReport, passOrder, List.map_cons, List.isEmpty_cons,
      Bool.and_false] at hstatus
    split_ifs at hstatus
    contradiction

/-- A report is never longer than the passes may make it and never leaves the question open; a pass
that has more to say than it may makes it FAIL. -/
theorem run_bounded (artifacts : List (ValidationArtifact P)) :
    (run models policy bounds artifacts).violations.length ≤
        5 * (bounds.maxViolationsPerPass + 1) ∧
      (run models policy bounds artifacts).status ≠ .indeterminate ∧
      ∀ pass ∈ passOrder models policy bounds, ∀ violations, artifacts ≠ [] →
        pass.2 artifacts = some violations →
        bounds.maxViolationsPerPass < violations.length →
        (run models policy bounds artifacts).status = .fail := by
  refine ⟨?_, run_decides models policy bounds artifacts,
    fun pass hpass violations hne hresult hmany => ?_⟩
  · rw [run]
    split_ifs with hempty
    · simp only [assembleReport, List.length_singleton]
      omega
    · exact length_responses bounds (passOrder models policy bounds) artifacts
  · have hnot : (run models policy bounds artifacts).status ≠ .pass := by
      intro hstatus
      obtain ⟨others, hothers, hquiet⟩ := (run_pass models policy bounds hne).mp hstatus pass hpass
      rw [hresult, Option.some_inj] at hothers
      exact absurd (hothers ▸ hquiet.1) (Nat.not_le_of_gt hmany)
    have hdecides := run_decides models policy bounds artifacts
    cases hstatus : (run models policy bounds artifacts).status with
    | pass => exact absurd hstatus hnot
    | indeterminate => exact absurd hstatus hdecides
    | fail => rfl

end Reports

/-! ### The validator -/

section Validator
variable {P O R : Type} [LT R] [DecidableLT R] (models : Models P O R)
  (policy : ArchitecturePolicy R) (bounds : ValidationBoundsConfig)

open ValidatorRuntime

/-- PASS covers all exactly when the bounds leave out nothing that is not covered, and no more
traces and graphs make a PASS of a FAIL. -/
theorem pass_covered_iff (hclosed : policy.globalFailClosed = true)
    (artifacts : List (ValidationArtifact P)) (hne : artifacts ≠ [])
    (hdicts : ∀ artifact ∈ artifacts, artifact.payload ≠ none) :
    ((run models policy bounds artifacts).status = .pass →
      (Covered models policy artifacts ↔ Beyond models policy bounds artifacts)) ∧
    ∀ more : List (ValidationArtifact P),
      (∀ artifact ∈ more,
        artifact.artifactType = .semanticIRTrace ∨ artifact.artifactType = .dependencyGraph) →
      (run models policy bounds artifacts).status = .fail →
      (run models policy bounds (artifacts ++ more)).status ≠ .pass := by
  constructor
  · intro hpass
    exact (within_of_pass models policy bounds hclosed hne hpass).covered_iff models policy bounds
      hdicts
  · intro more hmore hfail hpass
    rw [pass_of_append models policy bounds hmore hne hpass] at hfail
    cases hfail

end Validator

/-! #### An edge that no pass looks at -/

def payloadModels : Models (SemanticIRTrace ⊕ DependencyGraph) Unit Nat where
  trace := fun payload => payload.getLeft?
  graph := fun payload => payload.getRight?
  diff := fun _ => none
  invariant := fun _ => none
  stateMachine := fun _ => false
  endpointTemplate := fun payload => .text (payload.elim (·.endpointTemplate) fun _ => [])
  method := fun payload => .text (payload.elim (·.method.text) fun _ => [])
  globOther := fun _ _ => none
  upper := id
  lower := id
  ratio := fun edges nodes => edges / nodes
  trace_endpointTemplate := by
    intro payload parsed h
    cases Sum.getLeft?_eq_some_iff.mp h
    rfl
  trace_method := by
    intro payload parsed h
    cases Sum.getLeft?_eq_some_iff.mp h
    rfl

def twoZones : ArchitecturePolicy Nat where
  trustZones := [⟨ofString "a", [ofString "/a"]⟩, ⟨ofString "b", [ofString "/b"]⟩]
  trustBoundaryRules := [⟨ofString "r", ofString "a", ofString "b", .forbidden⟩]
  layers := []
  layerRules := []
  mutationRules := []
  replayRules := []
  blastRadiusLimits := ⟨16, 64, 8, 100, 8, 128, 32, 256, 6, 32, 0, 0, 0, 4⟩
  stateWriterRules := []
  forbiddenImportRules := []
  globalFailClosed := true
  unique_zone_ids := by decide
  unique_layer_ids := by decide

def oneEdge : ValidationBoundsConfig where
  maxViolationsPerPass := 128
  maxEndpointsPerTrace := 1024
  maxEdgesPerGraph := 1
  maxBlastRadiusDepth := 6
  maxViolationsPerPass_pos := by decide
  maxEndpointsPerTrace_pos := by decide
  maxEdgesPerGraph_pos := Nat.one_pos
  maxBlastRadiusDepth_bounds := by decide

def secondCrosses : List (ValidationArtifact (SemanticIRTrace ⊕ DependencyGraph)) :=
  [⟨.dependencyGraph, some (.inr
    ⟨[⟨ofString "/a", [], ofString "/a"⟩, ⟨ofString "/a", [], ofString "/b"⟩], [],
      ofString "w"⟩)⟩]

theorem secondCrosses_pass :
    (ValidatorRuntime.run payloadModels twoZones oneEdge secondCrosses).status = .pass := by
  decide +kernel

/-- The second edge goes where the policy forbids. -/
theorem secondCrosses_uncovered : ¬ Covered payloadModels twoZones secondCrosses := by
  intro h
  obtain ⟨rule, hrule, hallowed⟩ := (h.edges _ List.mem_cons_self _
    (List.mem_cons_of_mem _ List.mem_cons_self)).zones
    ⟨ofString "a", [ofString "/a"]⟩ ⟨ofString "b", [ofString "/b"]⟩ (by decide +kernel)
    (by decide +kernel) (by decide)
  have hfound : twoZones.findBoundaryRule (ofString "a") (ofString "b") =
      some ⟨ofString "r", ofString "a", ofString "b", .forbidden⟩ := by decide
  rw [hfound] at hrule
  cases hrule
  exact hallowed rfl

theorem passes_secondCrosses : ¬ Beyond payloadModels twoZones oneEdge secondCrosses :=
  ((pass_covered_iff payloadModels twoZones oneEdge rfl secondCrosses (by decide)
    (by simp [secondCrosses])).1 secondCrosses_pass).not.mp secondCrosses_uncovered

theorem not_passes_covered :
    (ValidatorRuntime.run payloadModels twoZones oneEdge secondCrosses).status = .pass ∧
      ¬ Covered payloadModels twoZones secondCrosses :=
  ⟨secondCrosses_pass, secondCrosses_uncovered⟩

end PiPlatform.SemanticValidator
