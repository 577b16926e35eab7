import Mathlib.Algebra.BigOperators.Group.List.Basic
import Mathlib.Algebra.Ring.Int.Defs
import PiPlatform.SemanticDiff.Deltas

/-! The diff report of two snapshots. -/
namespace PiPlatform.SemanticDiff

open Library

structure DiffBounds where
  maxEndpointDeltas : Int
  maxDependencyDeltas : Int
  maxAuthDeltas : Int
  maxReplayDeltas : Int

def DiffBounds.default : DiffBounds := ⟨512, 512, 256, 512⟩

/-- One side of a diff. -/
structure Snapshot (R : Type) where
  traces : List (SemanticIRTrace R)
  graph : Option DependencyGraph
  auth : Option (List AuthInvariant)
  executionId : String

structure SemanticDiffReport (R : Type) where
  reportId : String
  baselineExecutionId : String
  modifiedExecutionId : String
  endpointCountDelta : Int
  edgeCountDelta : Int
  nodeCountDelta : Int
  fieldCountDelta : Int
  structuralDeltaScore : R
  semanticDeltaScore : R
  driftScore : R
  endpointDeltas : List (EndpointDelta R)
  dependencyDeltas : List DependencyDelta
  authDeltas : List AuthDelta
  replaySurfaceDeltas : List ReplaySurfaceDelta
  stateMutationExpansion : Nat
  destructiveMutationExpansion : Nat
  idempotentReadRegression : Nat
  replaySurfaceExpansion : Nat
  replayUnsafeExpansion : Nat
  dependencyGraphEvolutionScore : R

section Report
variable {R : Type} [Floats R]

/-! ### Scores -/

def computeStructuralDeltaScore (endpointDeltas : List (EndpointDelta R))
    (dependencyDeltas : List DependencyDelta) : R :=
  let score := endpointDeltas.foldl (fun score d =>
    let score :=
      if d.presence = .added ∨ d.presence = .removed then score + hundredths 10 else score
    score + (d.fieldDeltas.length : R) * hundredths 2) 0
  let score := dependencyDeltas.foldl (fun score d =>
    match d with
    | .edgeAdded _ | .edgeRemoved _ => score + hundredths 5
    | .nodeAdded _ | .nodeRemoved _ => score + hundredths 3) score
  min score 1

def computeSemanticDeltaScore (endpointDeltas : List (EndpointDelta R)) : R :=
  min ((endpointDeltas.flatMap (·.fieldDeltas)).foldl (fun score fd =>
    match fd.deltaType with
    | .typeChanged => score + hundredths 15
    | .removed => score + hundredths 5
    | _ => score + hundredths 1) 0) 1

def computeDriftScore (structural semantic : R) (mutationExp replayExp : Nat) : R :=
  min (structural * hundredths 30 + semantic * hundredths 40 +
    min ((mutationExp : R) * hundredths 5) (hundredths 20) +
    min ((replayExp : R) * hundredths 5) (hundredths 10)) 1

def countsStateMutation (d : EndpointDelta R) : Bool :=
  d.mutationClassTransition || (d.presence = .added &&
    d.modifiedMutationClass ∈ ["STATEFUL_MUTATION", "DESTRUCTIVE_MUTATION"])

def countsDestructive (d : EndpointDelta R) : Bool :=
  d.mutationClassTransition ||
    (d.presence = .added && d.modifiedMutationClass = "DESTRUCTIVE_MUTATION")

def countsRegression (d : EndpointDelta R) : Bool :=
  d.mutationClassTransition ||
    (d.presence = .removed && d.baselineMutationClass = "IDEMPOTENT_READ")

/-! ### The runtime -/

def assembleEmptyReport (reportId : String) (baseline modified : Snapshot R) :
    SemanticDiffReport R :=
  ⟨reportId, baseline.executionId, modified.executionId, 0, 0, 0, 0, 0, 0, 0, [], [], [], [],
    0, 0, 0, 0, 0, 0⟩

def edgeCount (s : Snapshot R) : Int := (s.graph.map fun g => g.edges.length).getD 0

def nodeCount (s : Snapshot R) : Int := (s.graph.map fun g => g.nodes.length).getD 0

def fieldCount (s : Snapshot R) : Int := (s.traces.map fun t => t.fields.length).sum

/-- `round` is to six digits. -/
def assembleReport (round : R → R) (bounds : DiffBounds) (reportId : String)
    (baseline modified : Snapshot R) : SemanticDiffReport R :=
  let endpointDeltas :=
    computeEndpointDeltas baseline.traces modified.traces bounds.maxEndpointDeltas
  let dependencyDeltas := match baseline.graph, modified.graph with
    | some b, some m => computeDependencyDeltas b m bounds.maxDependencyDeltas
    | _, _ => []
  let authDeltas := match baseline.auth, modified.auth with
    | some b, some m => computeAuthDeltas b m bounds.maxAuthDeltas
    | _, _ => []
  let replayDeltas :=
    computeReplaySurfaceDeltas baseline.traces modified.traces bounds.maxReplayDeltas
  let structural := computeStructuralDeltaScore endpointDeltas dependencyDeltas
  let semantic := computeSemanticDeltaScore endpointDeltas
  let mutationExp := endpointDeltas.countP countsStateMutation
  { reportId := reportId
    baselineExecutionId := baseline.executionId
    modifiedExecutionId := modified.executionId
    endpointCountDelta := modified.traces.length - baseline.traces.length
    edgeCountDelta := edgeCount modified - edgeCount baseline
    nodeCountDelta := nodeCount modified - nodeCount baseline
    fieldCountDelta := fieldCount modified - fieldCount baseline
    structuralDeltaScore := round structural
    semanticDeltaScore := round semantic
    driftScore := round (computeDriftScore structural semantic mutationExp replayDeltas.length)
    endpointDeltas := endpointDeltas
    dependencyDeltas := dependencyDeltas
    authDeltas := authDeltas
    replaySurfaceDeltas := replayDeltas
    stateMutationExpansion := mutationExp
    destructiveMutationExpansion := endpointDeltas.countP countsDestructive
    idempotentReadRegression := endpointDeltas.countP countsRegression
    replaySurfaceExpansion := replayDeltas.length
    replayUnsafeExpansion := replayDeltas.countP (·.replayableDelta)
    dependencyGraphEvolutionScore := round ((dependencyDeltas.length : R) * hundredths 1) }

/-- `DiffRuntime.diff` -/
def diff (round : R → R) (bounds : DiffBounds) (reportId : String)
    (baseline modified : Snapshot R) : SemanticDiffReport R :=
  if baseline.traces = [] ∧ modified.traces = [] then
    assembleEmptyReport reportId baseline modified
  else assembleReport round bounds reportId baseline modified

end Report

end PiPlatform.SemanticDiff
