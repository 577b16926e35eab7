import PiPlatform.AgentChain.Quorum
import PiPlatform.AgentChain.StateTransitions

/-! Entropy analysis.

Five dimensions are measured of a quorum report, a state machine, an auth report and the
snapshot before. The snapshot goes into a window that all validators of the process share, so
that a report shows what was measured before it, by whomever (`analyze_window`).

Nothing else of a report comes from earlier calls, and of the window only the last snapshots
remain (`after_eq`). -/
namespace PiPlatform.AgentChain.Entropy

open Library Library.Python
open Auth (ratio contains AuthConsistencyReport)
open Transitions (ProtocolStateMachine)
open Quorum (SemanticQuorumReport)

/-! ### Records -/

section Records
variable (R : Type)

structure EntropySnapshot where
  snapshotId : String
  executionId : String
  structuralEntropy : R
  semanticEntropy : R
  replayEntropy : R
  temporalEntropy : R
  topologicalEntropy : R
  compositeEntropy : R
  inputHash : String
  evidenceCount : Nat

inductive DeltaTrend where
  | converging | diverging | stable | regressing
  deriving DecidableEq

structure EntropyDelta where
  deltaId : String
  fromSnapshotId : String
  toSnapshotId : String
  structuralDelta : R
  semanticDelta : R
  replayDelta : R
  temporalDelta : R
  topologicalDelta : R
  compositeDelta : R
  trend : DeltaTrend
  regressionDimensions : List String

structure SemanticVariance where
  disagreementDensity : R
  authorityFragmentation : R
  contestedExpansionRate : R
  rejectedClaimRatio : R
  intersectionCoverage : R

structure ReplayStabilityMetric where
  equivalentRate : R
  nonEquivalentRate : R
  contestedRate : R
  authMutationCount : Nat
  averageDriftScore : R
  replayConfirmedEdgeRatio : R

structure TopologicalEntropy where
  branchingFactor : R
  fanoutVariance : R
  unconfirmedEdgeRatio : R
  nodeCount : Nat
  edgeCount : Nat

inductive PatternType where
  | structuralVolatility | semanticFragmentation | replayInstability | temporalRegression
  | topologyExplosion | crossDimensionCorrelation
  deriving DecidableEq

structure DriftSignature where
  signatureId : String
  patternType : PatternType
  affectedDimensions : List String
  severityScore : R
  description : String

structure ConvergenceScore where
  score : R
  confidenceBound : R
  contributingFactors : List (String × R)

inductive WindowTrend where
  | improving | degrading | oscillating | stable | insufficientData
  deriving DecidableEq

structure StabilityWindow where
  windowId : String
  snapshots : List (EntropySnapshot R)
  maxWindowSize : Int
  trend : WindowTrend
  averageCompositeEntropy : R
  entropyVariance : R

structure EntropyAnalysisReport where
  reportId : String
  executionId : String
  snapshot : EntropySnapshot R
  delta : Option (EntropyDelta R)
  semanticVariance : SemanticVariance R
  replayStability : ReplayStabilityMetric R
  topologicalEntropy : TopologicalEntropy R
  convergence : ConvergenceScore R
  stabilityWindow : Option (StabilityWindow R)
  driftSignatures : List (DriftSignature R)
  violations : List (Violation R)

/-- The arguments of a call, and the validator's bound. -/
structure Call where
  maxEntropyWindowSize : Int
  quorumReport : SemanticQuorumReport R
  fsm : Option (ProtocolStateMachine R)
  authReport : Option (AuthConsistencyReport R)
  executionId : String
  priorSnapshot : Option (EntropySnapshot R)

end Records

variable {R : Type} (N : Floats R)

/-! ### Validation

None is a `ValidationError`. -/

def EntropySnapshot.valid? (s : EntropySnapshot R) : Option (EntropySnapshot R) :=
  if N.InUnit s.structuralEntropy ∧ N.InUnit s.semanticEntropy ∧ N.InUnit s.replayEntropy ∧
      N.InUnit s.temporalEntropy ∧ N.InUnit s.topologicalEntropy ∧ N.InUnit s.compositeEntropy
  then some s else none

def SemanticVariance.valid? (v : SemanticVariance R) : Option (SemanticVariance R) :=
  if N.InUnit v.disagreementDensity ∧ N.InUnit v.authorityFragmentation ∧
      N.InUnit v.contestedExpansionRate ∧ N.InUnit v.rejectedClaimRatio ∧
      N.InUnit v.intersectionCoverage
  then some v else none

def ReplayStabilityMetric.valid? (m : ReplayStabilityMetric R) :
    Option (ReplayStabilityMetric R) :=
  if N.InUnit m.equivalentRate ∧ N.InUnit m.nonEquivalentRate ∧ N.InUnit m.contestedRate ∧
      N.InUnit m.averageDriftScore ∧ N.InUnit m.replayConfirmedEdgeRatio
  then some m else none

def TopologicalEntropy.valid? (t : TopologicalEntropy R) : Option (TopologicalEntropy R) :=
  if N.Nonneg t.branchingFactor ∧ N.Nonneg t.fanoutVariance ∧ N.InUnit t.unconfirmedEdgeRatio
  then some t else none

def DriftSignature.valid? (d : DriftSignature R) : Option (DriftSignature R) :=
  if N.InUnit d.severityScore then some d else none

def ConvergenceScore.valid? (c : ConvergenceScore R) : Option (ConvergenceScore R) :=
  if N.InUnit c.score ∧ N.InUnit c.confidenceBound then some c else none

/-- Only when the window is made, so the statistics of a full one are not checked. -/
def StabilityWindow.valid? (w : StabilityWindow R) : Option (StabilityWindow R) :=
  if 1 ≤ w.maxWindowSize ∧ w.maxWindowSize ≤ 128 then some w else none

/-! ### The five dimensions -/

/-- How evenly the claims are spread over path and type. -/
def measureStructuralEntropy (quorum : SemanticQuorumReport R) : R :=
  if quorum.claims = [] then N.dec 0 1
  else
    let pathTypes := (groupBy (fun c => (c.propertyPath, c.semanticType)) quorum.claims).map
      (·.2.length)
    let entropy := N.entropyOf pathTypes pathTypes.sum
    let maxEntropy := N.log2 (N.ofNat (max pathTypes.length 2))
    let normalized :=
      if N.lt (N.ofNat 0) maxEntropy then N.div entropy maxEntropy else N.dec 0 1
    N.min normalized (N.dec 10 1)

def measureSemanticEntropy (quorum : SemanticQuorumReport R) : R :=
  let totalClaims := max quorum.claims.length 1
  let disagreementRatio := ratio N quorum.conflictSets.length totalClaims
  let rejectionRatio := ratio N quorum.rejectedClaims.length totalClaims
  let coveredPaths := (quorum.intersections.map (·.propertyPath)).dedup
  let allPaths := (quorum.claims.map (·.propertyPath)).dedup
  let uncoveredRatio :=
    N.div (N.ofInt (allPaths.length - coveredPaths.length)) (N.ofNat (max allPaths.length 1))
  let semanticEntropy :=
    N.add (N.add (N.mul (N.dec 45 2) disagreementRatio) (N.mul (N.dec 30 2) rejectionRatio))
      (N.mul (N.dec 25 2) uncoveredRatio)
  N.min semanticEntropy (N.dec 10 1)

/-- The intersections that are confirmed by a replay. -/
def replayConfirmed (quorum : SemanticQuorumReport R) : Nat :=
  quorum.intersections.countP (·.consensusReplayConfirmed)

def measureReplayEntropy (quorum : SemanticQuorumReport R)
    (authReport : Option (AuthConsistencyReport R)) : R :=
  if quorum.intersections = [] ∧ quorum.claims = [] then N.dec 0 1
  else
    let totalIntersections := max quorum.intersections.length 1
    let replayRatio := N.sub (N.dec 10 1) (ratio N (replayConfirmed quorum) totalIntersections)
    let authPressure :=
      match authReport with
      | none => N.dec 0 1
      | some authReport =>
        N.min (N.div (N.ofNat authReport.violations.length) (N.dec 50 1)) (N.dec 10 1)
    N.min (N.add (N.mul (N.dec 6 1) replayRatio) (N.mul (N.dec 4 1) authPressure)) (N.dec 10 1)

/-- The growth of evidence and of entropy since the snapshot before. -/
def measureTemporalEntropy (quorum : SemanticQuorumReport R)
    (priorSnapshot : Option (EntropySnapshot R)) : R :=
  match priorSnapshot with
  | none => N.dec 0 1
  | some prior =>
    if prior.evidenceCount = 0 then N.dec 0 1
    else
      let evidenceGrowth := N.div (N.ofInt (quorum.claims.length - prior.evidenceCount))
        (N.ofNat (max prior.evidenceCount 1))
      let entropyGrowth :=
        if N.lt (N.ofNat 0) prior.compositeEntropy then
          N.div (N.sub prior.compositeEntropy (N.dec 0 1))
            (N.max prior.compositeEntropy (N.dec 1 3))
        else N.dec 0 1
      let temporal := N.add (N.mul (N.dec 5 1) (N.max (N.dec 0 1) evidenceGrowth))
        (N.mul (N.dec 5 1) entropyGrowth)
      N.min temporal (N.dec 10 1)

/-- The edges without a replay. -/
def unconfirmed (fsm : ProtocolStateMachine R) : Nat :=
  fsm.edges.countP fun e => e.replayConfirmedCount = 0

def measureTopologicalEntropy (fsm : Option (ProtocolStateMachine R)) : R :=
  match fsm with
  | none => N.dec 0 1
  | some fsm =>
    if fsm.nodes = [] then N.dec 0 1
    else
      let nodeCount := fsm.nodes.length
      let edgeCount := fsm.edges.length
      let branching := N.div (ratio N edgeCount (max nodeCount 1)) (N.ofInt (max fsm.maxFanout 1))
      let density := N.div (N.ofNat edgeCount) (N.ofInt (max fsm.maxEdges 1))
      let unconfirmedRatio := ratio N (unconfirmed fsm) (max edgeCount 1)
      let topoEntropy :=
        N.add (N.add (N.mul (N.dec 35 2) branching) (N.mul (N.dec 25 2) density))
          (N.mul (N.dec 40 2) unconfirmedRatio)
      N.min topoEntropy (N.dec 10 1)

/-- By `COMPOSITE_WEIGHTS`. -/
def computeComposite (structural semantic replay temporal topological : R) : R :=
  let composite :=
    N.add (N.add (N.add (N.add (N.mul (N.dec 20 2) structural) (N.mul (N.dec 25 2) semantic))
      (N.mul (N.dec 25 2) replay)) (N.mul (N.dec 15 2) temporal)) (N.mul (N.dec 15 2) topological)
  N.min composite (N.dec 10 1)

/-! ### The change since the snapshot before -/

def regressionThreshold : R := N.dec 5 2

/-- `abs(d_comp) <= 0.03`; a change of less than `-0.03` converges. -/
def stabilityBand : R := N.dec 3 2

def convergenceThreshold : R := N.sub (N.ofNat 0) (N.dec 3 2)

/-- Dimension by dimension, rounded to six places. -/
def computeDelta (hash : String → String) (prior current : EntropySnapshot R) : EntropyDelta R :=
  let dStruct := N.sub current.structuralEntropy prior.structuralEntropy
  let dSem := N.sub current.semanticEntropy prior.semanticEntropy
  let dReplay := N.sub current.replayEntropy prior.replayEntropy
  let dTemp := N.sub current.temporalEntropy prior.temporalEntropy
  let dTopo := N.sub current.topologicalEntropy prior.topologicalEntropy
  let dComp := N.sub current.compositeEntropy prior.compositeEntropy
  let regressionDims :=
    ([("structural", dStruct), ("semantic", dSem), ("replay", dReplay), ("temporal", dTemp),
      ("topological", dTopo)].filter fun d => N.lt (regressionThreshold N) d.2).map (·.1)
  { deltaId := hash ("delta:" ++ prior.snapshotId ++ ":" ++ current.snapshotId)
    fromSnapshotId := prior.snapshotId
    toSnapshotId := current.snapshotId
    structuralDelta := N.round dStruct 6
    semanticDelta := N.round dSem 6
    replayDelta := N.round dReplay 6
    temporalDelta := N.round dTemp 6
    topologicalDelta := N.round dTopo 6
    compositeDelta := N.round dComp 6
    trend :=
      if regressionDims ≠ [] then .regressing
      else if N.lt dComp (convergenceThreshold N) then .converging
      else if N.le (N.abs dComp) (stabilityBand N) then .stable
      else .diverging
    regressionDimensions := regressionDims }

/-! ### Decomposition -/

def decomposeSemantic (quorum : SemanticQuorumReport R) : Option (SemanticVariance R) :=
  let totalClaims := max quorum.claims.length 1
  let totalPaths := max (quorum.claims.map (·.propertyPath)).dedup.length 1
  let authorityValues := quorum.claims.map (·.authorityWeight)
  let totalAuthority := if authorityValues = [] then N.dec 0 1 else N.sum authorityValues
  let maxAuthority :=
    match authorityValues with
    | [] => N.dec 0 1
    | first :: rest => N.maxOf first rest
  let fragmentation :=
    N.sub (N.dec 10 1) (N.div maxAuthority (N.max totalAuthority (N.dec 1 3)))
  let contestedCount := quorum.claims.countP fun c =>
    c.sourceEpistemicState = EpistemicState.contested
  let intersectedPaths := (quorum.intersections.map (·.propertyPath)).dedup.length
  SemanticVariance.valid? N
    { disagreementDensity := N.round (ratio N quorum.conflictSets.length totalClaims) 4
      authorityFragmentation := N.round fragmentation 4
      contestedExpansionRate := N.round (ratio N contestedCount totalClaims) 4
      rejectedClaimRatio := N.round (ratio N quorum.rejectedClaims.length totalClaims) 4
      intersectionCoverage := N.round (ratio N intersectedPaths totalPaths) 4 }

def decomposeReplay (quorum : SemanticQuorumReport R)
    (authReport : Option (AuthConsistencyReport R)) : Option (ReplayStabilityMetric R) :=
  let totalInters := max quorum.intersections.length 1
  let equivalentRate := ratio N (replayConfirmed quorum) totalInters
  let contestedRate := ratio N (totalInters - replayConfirmed quorum) totalInters
  ReplayStabilityMetric.valid? N
    { equivalentRate := N.round equivalentRate 4
      nonEquivalentRate := N.round (N.dec 0 1) 4
      contestedRate := N.round contestedRate 4
      authMutationCount :=
        match authReport with
        | none => 0
        | some authReport => authReport.violations.countP fun v => contains "AUTH" v.rule
      averageDriftScore := N.dec 0 1
      replayConfirmedEdgeRatio := N.round equivalentRate 4 }

def decomposeTopological (fsm : Option (ProtocolStateMachine R)) :
    Option (TopologicalEntropy R) :=
  match fsm with
  | none => TopologicalEntropy.valid? N ⟨N.dec 0 1, N.dec 0 1, N.dec 0 1, 0, 0⟩
  | some fsm =>
    if fsm.nodes = [] then TopologicalEntropy.valid? N ⟨N.dec 0 1, N.dec 0 1, N.dec 0 1, 0, 0⟩
    else
      let nodeCount := fsm.nodes.length
      let edgeCount := fsm.edges.length
      let degrees := (groupBy (·.fromNode) fsm.edges).map (·.2.length)
      let meanDeg := ratio N degrees.sum degrees.length
      let variance :=
        if degrees = [] then N.dec 0 1
        else N.div (N.sum (degrees.map fun d => N.square (N.sub (N.ofNat d) meanDeg)))
          (N.ofNat degrees.length)
      TopologicalEntropy.valid? N
        { branchingFactor := N.round (ratio N edgeCount (max nodeCount 1)) 4
          fanoutVariance := N.round variance 4
          unconfirmedEdgeRatio := N.round (ratio N (unconfirmed fsm) (max edgeCount 1)) 4
          nodeCount := nodeCount
          edgeCount := edgeCount }

def computeConvergence (snapshot : EntropySnapshot R) (semanticVariance : SemanticVariance R)
    (replayStability : ReplayStabilityMetric R) (topologicalEntropy : TopologicalEntropy R) :
    Option (ConvergenceScore R) :=
  let base := N.max (N.dec 0 1) (N.sub (N.dec 10 1) snapshot.compositeEntropy)
  let replayBoost := N.mul (N.dec 25 2) replayStability.equivalentRate
  let semanticBoost := N.mul (N.dec 20 2) semanticVariance.intersectionCoverage
  let topoPenalty := N.mul (N.dec 15 2) topologicalEntropy.unconfirmedEdgeRatio
  let authPenalty := N.mul (N.dec 10 2) semanticVariance.authorityFragmentation
  let raw := N.sub (N.sub (N.add (N.add base replayBoost) semanticBoost) topoPenalty) authPenalty
  let score := N.max (N.dec 0 1) (N.min (N.dec 10 1) raw)
  let confidence := N.max (N.dec 0 1) (N.sub (N.dec 10 1) snapshot.compositeEntropy)
  ConvergenceScore.valid? N
    { score := N.round score 4
      confidenceBound := N.round confidence 4
      contributingFactors :=
        [("base_from_entropy", N.round base 4), ("replay_boost", N.round replayBoost 4),
          ("semantic_boost", N.round semanticBoost 4), ("topo_penalty", N.round topoPenalty 4),
          ("auth_penalty", N.round authPenalty 4)] }

/-! ### What is measured of one call -/

variable (hash : String → String) {call : Call R}

/-- Only the execution's id and how many there are of each kind go into it. -/
def hashInputs (call : Call R) : String :=
  hash ("|".intercalate (
    [call.executionId, toString call.quorumReport.claims.length,
      toString call.quorumReport.intersections.length,
      toString call.quorumReport.conflictSets.length] ++
    (match call.fsm with
      | none => []
      | some fsm => [toString fsm.nodes.length, toString fsm.edges.length]) ++
    match call.authReport with
      | none => []
      | some auth => [toString auth.invariants.length, toString auth.violations.length]))

/-- A report before the window is looked at. -/
structure Measured (R : Type) where
  snapshot : EntropySnapshot R
  delta : Option (EntropyDelta R)
  semanticVariance : SemanticVariance R
  replayStability : ReplayStabilityMetric R
  topologicalEntropy : TopologicalEntropy R
  convergence : ConvergenceScore R

/-- The five entropies and what they are composed to, rounded and checked. -/
def takeSnapshot (call : Call R) : Option (EntropySnapshot R) :=
  let structural := measureStructuralEntropy N call.quorumReport
  let semantic := measureSemanticEntropy N call.quorumReport
  let replay := measureReplayEntropy N call.quorumReport call.authReport
  let temporal := measureTemporalEntropy N call.quorumReport call.priorSnapshot
  let topological := measureTopologicalEntropy N call.fsm
  let composite := computeComposite N structural semantic replay temporal topological
  EntropySnapshot.valid? N
    { snapshotId := hash ("snap:" ++ call.executionId ++ ":" ++ hashInputs hash call)
      executionId := call.executionId
      structuralEntropy := N.round structural 6
      semanticEntropy := N.round semantic 6
      replayEntropy := N.round replay 6
      temporalEntropy := N.round temporal 6
      topologicalEntropy := N.round topological 6
      compositeEntropy := N.round composite 6
      inputHash := hashInputs hash call
      evidenceCount := call.quorumReport.claims.length }

/-- The first five steps. -/
def measure (call : Call R) : Option (Measured R) := do
  let snapshot ← takeSnapshot N hash call
  let delta := call.priorSnapshot.map fun prior => computeDelta N hash prior snapshot
  let semanticVariance ← decomposeSemantic N call.quorumReport
  let replayStability ← decomposeReplay N call.quorumReport call.authReport
  let topoEntropy ← decomposeTopological N call.fsm
  let convergence ← computeConvergence N snapshot semanticVariance replayStability topoEntropy
  some ⟨snapshot, delta, semanticVariance, replayStability, topoEntropy, convergence⟩

/-! ### The window -/

/-- `while len(window.snapshots) > window.max_window_size: window.snapshots.pop(0)` -/
def evict {α : Type} (bound : Int) : List α → List α
  | [] => []
  | s :: rest => if bound < (s :: rest).length then evict bound rest else s :: rest

/-- `sum(xs) / len(xs)` -/
def mean (xs : List R) : R := N.div (N.sum xs) (N.ofNat xs.length)

/-- The statistics of the snapshots in the window. -/
def StabilityWindow.summarized (window : StabilityWindow R) : StabilityWindow R :=
  let composites := window.snapshots.map (·.compositeEntropy)
  if composites = [] then window
  else
    let average := N.round (mean N composites) 6
    let variance :=
      if 1 < composites.length then
        N.round (mean N (composites.map fun c => N.square (N.sub c average))) 6
      else N.dec 0 1
    { window with
      averageCompositeEntropy := average
      entropyVariance := variance
      trend :=
        if 3 ≤ composites.length then
          let fAvg := mean N (composites.take (composites.length / 2))
          let sAvg := mean N (composites.drop (composites.length / 2))
          if N.lt sAvg (N.sub fAvg (N.dec 3 2)) then .improving
          else if N.lt (N.add fAvg (N.dec 3 2)) sAvg then .degrading
          else if N.lt (N.dec 5 2) variance then .oscillating
          else .stable
        else .insufficientData }

/-- A window that holds nothing yet. -/
def emptyWindow (maxWindowSize : Int) : StabilityWindow R :=
  { windowId := hash "window:init"
    snapshots := []
    maxWindowSize := maxWindowSize
    trend := .insufficientData
    averageCompositeEntropy := N.dec 0 1
    entropyVariance := N.dec 0 1 }

def StabilityWindow.record (window : StabilityWindow R) (snapshot : EntropySnapshot R) :
    StabilityWindow R :=
  StabilityWindow.summarized N { window with
    snapshots := evict window.maxWindowSize (window.snapshots ++ [snapshot]) }

/-- The window is made by the first call that comes here, with its validator's bound. -/
def updateWindow (maxEntropyWindowSize : Int) (window : Option (StabilityWindow R))
    (snapshot : EntropySnapshot R) : Option (StabilityWindow R) :=
  (match window with
    | some window => some window
    | none => StabilityWindow.valid? (emptyWindow N hash maxEntropyWindowSize)).map
      fun window => StabilityWindow.record N window snapshot

/-! ### Drift -/

/-- `str` of a list of words without quotes. -/
def showList (words : List String) : String :=
  "[" ++ ", ".intercalate (words.map fun word => "'" ++ word ++ "'") ++ "]"

/-- The signatures whose pattern is there. -/
def driftSignatures (m : Measured R) : List (DriftSignature R) :=
  let high (x : R) : Bool := N.lt (N.dec 3 1) x
  let elevated :=
    ([("structural", m.snapshot.structuralEntropy), ("semantic", m.snapshot.semanticEntropy),
      ("replay", m.snapshot.replayEntropy),
      ("topological", m.snapshot.topologicalEntropy)].filter fun d => N.lt (N.dec 4 1) d.2).map
        (·.1)
  (if N.lt (N.dec 6 1) m.snapshot.structuralEntropy then
    [{ signatureId := hash "drift:structural"
       patternType := .structuralVolatility
       affectedDimensions := ["structural"]
       severityScore := N.round m.snapshot.structuralEntropy 4
       description :=
        "Schema variability exceeds threshold. Field/type instability detected." }]
  else []) ++
  (if high m.semanticVariance.disagreementDensity ∨
      high m.semanticVariance.contestedExpansionRate then
    [{ signatureId := hash "drift:semantic"
       patternType := .semanticFragmentation
       affectedDimensions := ["semantic"]
       severityScore := N.round (N.max m.semanticVariance.disagreementDensity
         m.semanticVariance.contestedExpansionRate) 4
       description := "Claim disagreement or contested expansion rate high. " ++
         "Semantic coherence compromised." }]
  else []) ++
  (if high m.replayStability.contestedRate ∨ 0 < m.replayStability.authMutationCount then
    [{ signatureId := hash "drift:replay"
       patternType := .replayInstability
       affectedDimensions := ["replay"]
       severityScore := N.round (N.min (N.add m.replayStability.contestedRate
         (N.mul (N.dec 2 1) (N.ofNat m.replayStability.authMutationCount))) (N.dec 10 1)) 4
       description := "Replay equivalence contested or auth mutations present. " ++
         "Behavioral consistency degraded." }]
  else []) ++
  ((m.delta.filter fun delta => delta.trend = .regressing).map fun delta =>
    { signatureId := hash "drift:temporal"
      patternType := .temporalRegression
      affectedDimensions := delta.regressionDimensions
      severityScore := N.round (N.abs delta.compositeDelta) 4
      description := "Entropy regression in dimensions: " ++
        showList delta.regressionDimensions ++
        ". Evidence accumulation without convergence." }).toList ++
  (if N.lt (N.dec 5 1) m.snapshot.topologicalEntropy then
    [{ signatureId := hash "drift:topology"
       patternType := .topologyExplosion
       affectedDimensions := ["topological"]
       severityScore := N.round m.snapshot.topologicalEntropy 4
       description := "FSM branching or transition uncertainty exceeds threshold. " ++
         "Protocol state space unstable." }]
  else []) ++
  if 3 ≤ elevated.length then
    [{ signatureId := hash "drift:cross"
       patternType := .crossDimensionCorrelation
       affectedDimensions := elevated
       severityScore := N.round m.snapshot.compositeEntropy 4
       description := "Multiple entropy dimensions elevated simultaneously (" ++
         showList elevated ++ "). Systemic instability suspected." }]
  else []

/-- The window is passed to it in the source, and not read. -/
def detectDrift (m : Measured R) : Option (List (DriftSignature R)) :=
  (driftSignatures N hash m).mapM (DriftSignature.valid? N)

/-! ### Violations -/

def violation (executionId id rule : String) (severity : Governance.Severity)
    (context : List (String × Datum R)) (action : String) : Violation R :=
  ⟨hash (id ++ executionId), rule, "entropy_analysis", executionId, severity, context, action⟩

/-- A violation for each limit that is passed. -/
def buildViolations (snapshot : EntropySnapshot R) (delta : Option (EntropyDelta R))
    (executionId : String) : List (Violation R) :=
  (match delta with
    | none => []
    | some delta =>
      if N.lt (regressionThreshold N) delta.compositeDelta then
        [violation hash executionId "entropy_reg:" "ENTROPY_REGRESSION" .error
          [("composite_delta", .float delta.compositeDelta),
            ("regression_dimensions", .list (delta.regressionDimensions.map .text)),
            ("composite_entropy", .float snapshot.compositeEntropy)] "HALT"]
      else []) ++
  (if N.lt (N.dec 7 1) snapshot.replayEntropy then
    [violation hash executionId "replay_col:" "REPLAY_STABILITY_COLLAPSE" .critical
      [("replay_entropy", .float snapshot.replayEntropy)] "HALT"]
  else []) ++
  (if N.lt (N.dec 7 1) snapshot.semanticEntropy then
    [violation hash executionId "frag:" "SEMANTIC_FRAGMENTATION" .error
      [("semantic_entropy", .float snapshot.semanticEntropy)] "HALT"]
  else []) ++
  (if 10 < snapshot.evidenceCount ∧ N.lt (N.dec 6 1) snapshot.compositeEntropy then
    [violation hash executionId "conv_fail:" "CONVERGENCE_FAILURE" .error
      [("evidence_count", .int snapshot.evidenceCount),
        ("composite_entropy", .float snapshot.compositeEntropy)] "HALT"]
  else []) ++
  (if N.lt (N.dec 5 1) snapshot.temporalEntropy then
    [violation hash executionId "temp_drift:" "TEMPORAL_DRIFT_EXPLOSION" .warning
      [("temporal_entropy", .float snapshot.temporalEntropy)] "MONITOR"]
  else []) ++
  if N.lt (N.dec 6 1) snapshot.topologicalEntropy then
    [violation hash executionId "topo_unst:" "TOPOLOGY_UNSTABLE" .error
      [("topological_entropy", .float snapshot.topologicalEntropy)] "HALT"]
  else []

/-! ### Analysis -/

/-- One call, with the window of the process before and after it. The window stays as it is
when the call raises before it gets there. -/
def analyze (window : Option (StabilityWindow R)) (call : Call R) :
    Option (EntropyAnalysisReport R) × Option (StabilityWindow R) :=
  match measure N hash call with
  | none => (none, window)
  | some m =>
    match updateWindow N hash call.maxEntropyWindowSize window m.snapshot with
    | none => (none, window)
    | some window =>
      ((detectDrift N hash m).map fun driftSignatures =>
        { reportId := hash ("entropy:" ++ call.executionId ++ ":" ++ hashInputs hash call)
          executionId := call.executionId
          snapshot := m.snapshot
          delta := m.delta
          semanticVariance := m.semanticVariance
          replayStability := m.replayStability
          topologicalEntropy := m.topologicalEntropy
          convergence := m.convergence
          stabilityWindow := some window
          driftSignatures := driftSignatures
          violations := buildViolations N hash m.snapshot m.delta call.executionId },
        some window)

/-- The window of the process after the calls. -/
def after (history : List (Call R)) : Option (StabilityWindow R) :=
  history.foldl (fun window call => (analyze N hash window call).2) none

/-! ### What a window holds -/

theorem evict_eq_drop {α : Type} (bound : Int) (xs : List α) :
    evict bound xs = xs.drop (xs.length - bound.toNat) := by
  induction xs with
  | nil => rw [evict, List.drop_nil]
  | cons x xs ih =>
    rw [evict]
    split
    · next hover =>
      rw [List.length_cons] at hover ⊢
      have hdrop : xs.length + 1 - bound.toNat = xs.length - bound.toNat + 1 := by omega
      rw [ih, hdrop, List.drop_succ_cons]
    · next hfits =>
      have hdrop : (x :: xs).length - bound.toNat = 0 := by omega
      rw [hdrop, List.drop_zero]

/-- What was evicted once would be evicted later. -/
theorem evict_evict_append {α : Type} (bound : Int) (xs : List α) (x : α) :
    evict bound (evict bound xs ++ [x]) = evict bound (xs ++ [x]) := by
  induction xs with
  | nil => rfl
  | cons y xs ih =>
    by_cases hover : bound < (y :: xs).length
    · have hover' : bound < (y :: (xs ++ [x])).length := by
        rw [List.length_cons, List.length_append]
        rw [List.length_cons] at hover
        omega
      rw [evict, if_pos hover, ih, List.cons_append, evict, if_pos hover']
    · rw [evict, if_neg hover]

theorem evict_append_ne_nil {α : Type} {bound : Int} (h : 1 ≤ bound) (xs : List α) (x : α) :
    evict bound (xs ++ [x]) ≠ [] := by
  intro hnil
  have hlength := congrArg List.length hnil
  rw [evict_eq_drop, List.length_drop, List.length_append, List.length_singleton,
    List.length_nil] at hlength
  omega

@[simp] theorem summarized_windowId (w : StabilityWindow R) :
    (w.summarized N).windowId = w.windowId := by
  rw [StabilityWindow.summarized]
  split <;> rfl

@[simp] theorem summarized_snapshots (w : StabilityWindow R) :
    (w.summarized N).snapshots = w.snapshots := by
  rw [StabilityWindow.summarized]
  split <;> rfl

@[simp] theorem summarized_maxWindowSize (w : StabilityWindow R) :
    (w.summarized N).maxWindowSize = w.maxWindowSize := by
  rw [StabilityWindow.summarized]
  split <;> rfl

/-- The statistics are of the snapshots alone, not of what they were before. -/
theorem summarized_congr {w w' : StabilityWindow R} (hid : w.windowId = w'.windowId)
    (hsize : w.maxWindowSize = w'.maxWindowSize) (hsnapshots : w.snapshots = w'.snapshots)
    (hne : w.snapshots ≠ []) : w.summarized N = w'.summarized N := by
  obtain ⟨id, snapshots, size, trend, average, variance⟩ := w
  obtain ⟨id', snapshots', size', trend', average', variance'⟩ := w'
  dsimp only at hid hsize hsnapshots hne
  subst hid hsize hsnapshots
  have hcomposites : snapshots.map (·.compositeEntropy) ≠ [] := by simpa using hne
  simp only [StabilityWindow.summarized, hcomposites, if_false]

/-- The window of the last of the snapshots. -/
def windowOf (maxWindowSize : Int) (snapshots : List (EntropySnapshot R)) : StabilityWindow R :=
  StabilityWindow.summarized N { emptyWindow N hash maxWindowSize with
    snapshots := snapshots.drop (snapshots.length - maxWindowSize.toNat) }

theorem windowOf_snapshots (size : Int) (snapshots : List (EntropySnapshot R)) :
    (windowOf N hash size snapshots).snapshots = evict size snapshots := by
  rw [windowOf, summarized_snapshots, evict_eq_drop]

theorem record_windowOf {size : Int} (hsize : 1 ≤ size) (snapshots : List (EntropySnapshot R))
    (s : EntropySnapshot R) :
    (windowOf N hash size snapshots).record N s = windowOf N hash size (snapshots ++ [s]) := by
  have hbound : (windowOf N hash size snapshots).maxWindowSize = size := by
    simp [windowOf, emptyWindow]
  have hsnapshots : evict (windowOf N hash size snapshots).maxWindowSize
      ((windowOf N hash size snapshots).snapshots ++ [s]) = evict size (snapshots ++ [s]) := by
    rw [hbound, windowOf_snapshots, evict_evict_append]
  refine summarized_congr N ?_ ?_ ?_ ?_
  · simp [windowOf, emptyWindow]
  · exact hbound
  · exact hsnapshots.trans (evict_eq_drop size (snapshots ++ [s]))
  · exact hsnapshots ▸ evict_append_ne_nil hsize snapshots s

/-! ### The shared window -/

/-- A call that can make the window. -/
def opens (call : Call R) : Bool :=
  (measure N hash call).isSome &&
    decide (1 ≤ call.maxEntropyWindowSize ∧ call.maxEntropyWindowSize ≤ 128)

def sinceOpened (history : List (Call R)) : List (Call R) :=
  history.dropWhile fun call => !opens N hash call

/-- What the calls measured. -/
def recorded (history : List (Call R)) : List (EntropySnapshot R) :=
  history.filterMap fun call => (measure N hash call).map (·.snapshot)

/-- It has the bound of the first call that could make it, and the last snapshots since. -/
def sharedWindow (history : List (Call R)) : Option (StabilityWindow R) :=
  (sinceOpened N hash history).head?.map fun first =>
    windowOf N hash first.maxEntropyWindowSize (recorded N hash (sinceOpened N hash history))

theorem opens_of_head {history rest : List (Call R)} {first : Call R}
    (h : sinceOpened N hash history = first :: rest) : opens N hash first = true := by
  have hhead := List.head?_dropWhile_not (fun call => !opens N hash call) history
  rw [← sinceOpened, h] at hhead
  simpa using hhead

/-- The window after a call, when there is one. -/
theorem analyze_some {w : StabilityWindow R} :
    (analyze N hash (some w) call).2 =
      some ((measure N hash call).elim w fun m => w.record N m.snapshot) := by
  rw [analyze]
  cases measure N hash call with
  | none => rfl
  | some m => rfl

/-- The window after a call, when there is none. -/
theorem analyze_none :
    (analyze N hash none call).2 =
      if opens N hash call then
        (measure N hash call).map fun m =>
          windowOf N hash call.maxEntropyWindowSize [m.snapshot]
      else none := by
  rw [analyze, opens]
  cases measure N hash call with
  | none => rfl
  | some m =>
    by_cases hsize : 1 ≤ call.maxEntropyWindowSize ∧ call.maxEntropyWindowSize ≤ 128
    · have hempty : windowOf N hash call.maxEntropyWindowSize [] =
          emptyWindow N hash call.maxEntropyWindowSize := by
        simp [windowOf, StabilityWindow.summarized, emptyWindow]
      have hrecord := record_windowOf N hash hsize.1 [] m.snapshot
      rw [hempty, List.nil_append] at hrecord
      simp [updateWindow, StabilityWindow.valid?, emptyWindow, hsize, ← hrecord]
    · simp [updateWindow, StabilityWindow.valid?, emptyWindow, hsize]

theorem sharedWindow_snoc (history : List (Call R)) (call : Call R) :
    sharedWindow N hash (history ++ [call]) =
      (analyze N hash (sharedWindow N hash history) call).2 := by
  have happend := @List.dropWhile_append _ (fun call => !opens N hash call) history [call]
  rw [← sinceOpened, ← sinceOpened] at happend
  cases hopened : sinceOpened N hash history with
  | nil =>
    have hnone : sharedWindow N hash history = none := by
      rw [sharedWindow, hopened]
      rfl
    rw [hopened] at happend
    rw [hnone, analyze_none, sharedWindow, happend]
    by_cases hopens : opens N hash call = true
    · obtain ⟨m, hm⟩ := Option.isSome_iff_exists.mp (Bool.and_eq_true_iff.mp hopens).1
      simp [hopens, hm, recorded]
    · simp [hopens]
  | cons first rest =>
    have hsize : 1 ≤ first.maxEntropyWindowSize := by
      have hopens := opens_of_head N hash hopened
      rw [opens, Bool.and_eq_true, decide_eq_true_eq] at hopens
      exact hopens.2.1
    rw [hopened] at happend
    have hsome : sharedWindow N hash history =
        some (windowOf N hash first.maxEntropyWindowSize (recorded N hash (first :: rest))) := by
      rw [sharedWindow, hopened]
      rfl
    have hrecorded : recorded N hash (first :: (rest ++ [call])) =
        recorded N hash (first :: rest) ++
          ((measure N hash call).map (·.snapshot)).toList := by
      rw [← List.cons_append, recorded, List.filterMap_append]
      cases hm : measure N hash call <;> simp [recorded, hm]
    rw [hsome, analyze_some, sharedWindow, happend]
    cases hm : measure N hash call with
    | none =>
      rw [hm] at hrecorded
      simp [hrecorded]
    | some m =>
      rw [hm] at hrecorded
      simp [record_windowOf N hash hsize, hrecorded]

/-- The window of the process after any calls. -/
theorem after_eq (history : List (Call R)) :
    after N hash history = sharedWindow N hash history := by
  induction history using List.reverseRecOn with
  | nil => rfl
  | append_singleton history call ih =>
    rw [sharedWindow_snoc, ← ih, after, List.foldl_append]
    rfl

/-! ### What a report shows -/

def EntropyAnalysisReport.withoutWindow (r : EntropyAnalysisReport R) : EntropyAnalysisReport R :=
  { r with stabilityWindow := none }

theorem analyze_window {window : Option (StabilityWindow R)}
    {r : EntropyAnalysisReport R} (h : (analyze N hash window call).1 = some r) :
    r.stabilityWindow = (analyze N hash window call).2 := by
  rw [analyze] at h ⊢
  cases hm : measure N hash call with
  | none =>
    rw [hm] at h
    cases h
  | some m =>
    rw [hm] at h
    dsimp only at h ⊢
    cases hupdate : updateWindow N hash call.maxEntropyWindowSize window m.snapshot with
    | none =>
      rw [hupdate] at h
      cases h
    | some window' =>
      rw [hupdate] at h
      obtain ⟨drift, -, rfl⟩ := Option.map_eq_some_iff.mp h
      rfl

/-- The window that a call finds shows in the report's window only. -/
theorem withoutWindow_congr {window₁ window₂ : Option (StabilityWindow R)}
    {r₁ r₂ : EntropyAnalysisReport R} (h₁ : (analyze N hash window₁ call).1 = some r₁)
    (h₂ : (analyze N hash window₂ call).1 = some r₂) : r₁.withoutWindow = r₂.withoutWindow := by
  rw [analyze] at h₁ h₂
  cases hm : measure N hash call with
  | none =>
    rw [hm] at h₁
    cases h₁
  | some m =>
    rw [hm] at h₁ h₂
    dsimp only at h₁ h₂
    cases hupdate₁ : updateWindow N hash call.maxEntropyWindowSize window₁ m.snapshot with
    | none =>
      rw [hupdate₁] at h₁
      cases h₁
    | some window₁' =>
      cases hupdate₂ : updateWindow N hash call.maxEntropyWindowSize window₂ m.snapshot with
      | none =>
        rw [hupdate₂] at h₂
        cases h₂
      | some window₂' =>
        rw [hupdate₁] at h₁
        rw [hupdate₂] at h₂
        obtain ⟨drift₁, hdrift₁, rfl⟩ := Option.map_eq_some_iff.mp h₁
        obtain ⟨drift₂, hdrift₂, rfl⟩ := Option.map_eq_some_iff.mp h₂
        cases hdrift₁.symm.trans hdrift₂
        rfl

/-- **Main theorem.** A report depends on its call, but for its window, which holds the last
snapshots of the process since there was one. -/
theorem report_of_call {history₁ history₂ : List (Call R)} {call : Call R}
    {r₁ r₂ : EntropyAnalysisReport R}
    (h₁ : (analyze N hash (after N hash history₁) call).1 = some r₁)
    (h₂ : (analyze N hash (after N hash history₂) call).1 = some r₂) :
    r₁.withoutWindow = r₂.withoutWindow ∧
      r₁.stabilityWindow = sharedWindow N hash (history₁ ++ [call]) := by
  refine ⟨withoutWindow_congr N hash h₁ h₂, ?_⟩
  rw [analyze_window N hash h₁, after_eq, sharedWindow_snoc]

/-- A quorum report of one claim, with so many rejected. -/
def reportOfOne (rejected : Nat) : SemanticQuorumReport ℚ :=
  let claim : Quorum.SemanticClaim ℚ :=
    { claimId := "c"
      propertyPath := "user.id"
      semanticType := "UUID"
      confidenceScore := 1
      artifactId := "a"
      traceId := "/users"
      packetId := ""
      workerId := "SemanticTyperNode"
      sourceEpistemicState := EpistemicState.inferred
      replayConfirmed := false
      provenanceChain := []
      authorityWeight := 0 }
  { reportId := "q"
    executionId := "run"
    claims := [claim]
    intersections := []
    conflictSets := []
    rejectedClaims := List.replicate rejected claim
    promotions := []
    entropyBefore := 0
    entropyAfter := 0
    entropyDelta := 0
    violations := []
    quorumReached := false
    maxDepthHit := false
    boundedTruncated := false }

def callOfOne (rejected : Nat) : Call ℚ :=
  { maxEntropyWindowSize := 32
    quorumReport := reportOfOne rejected
    fsm := none
    authReport := none
    executionId := "run"
    priorSnapshot := none }

theorem report_of_call_one : ∃ r₁ r₂,
    (analyze exact id (after exact id []) (callOfOne 0)).1 = some r₁ ∧
    (analyze exact id (after exact id [callOfOne 1]) (callOfOne 0)).1 = some r₂ ∧
    r₁.withoutWindow = r₂.withoutWindow ∧
    r₁.stabilityWindow = sharedWindow exact id ([] ++ [callOfOne 0]) := by
  have hfirst : (analyze exact id (after exact id []) (callOfOne 0)).1.isSome = true := by
    decide +kernel
  have hsecond : (analyze exact id (after exact id [callOfOne 1]) (callOfOne 0)).1.isSome =
      true := by
    decide +kernel
  obtain ⟨r₁, h₁⟩ := Option.isSome_iff_exists.mp hfirst
  obtain ⟨r₂, h₂⟩ := Option.isSome_iff_exists.mp hsecond
  exact ⟨r₁, r₂, h₁, h₂, report_of_call exact id h₁ h₂⟩

/-- The second of two calls shows the first one's snapshot, and what was rejected is in the
snapshot and not in its id. -/
theorem report_of_history :
    (¬ ∀ (history₁ history₂ : List (Call ℚ)) (call : Call ℚ) (r₁ r₂ : EntropyAnalysisReport ℚ),
      (analyze exact id (after exact id history₁) call).1 = some r₁ →
      (analyze exact id (after exact id history₂) call).1 = some r₂ → r₁ = r₂) ∧
    ¬ ∀ (history₁ history₂ : List (Call ℚ)) (call₁ call₂ : Call ℚ)
        (r₁ r₂ : EntropyAnalysisReport ℚ),
      (analyze exact id (after exact id history₁) call₁).1 = some r₁ →
      (analyze exact id (after exact id history₂) call₂).1 = some r₂ →
      r₁.snapshot.snapshotId = r₂.snapshot.snapshotId → r₁.snapshot = r₂.snapshot := by
  have hsome : ∀ history ∈ [[], [callOfOne 1]], ∀ rejected ∈ [0, 1],
      (analyze exact id (after exact id history) (callOfOne rejected)).1.isSome = true := by
    decide +kernel
  obtain ⟨r, h⟩ := Option.isSome_iff_exists.mp (hsome [] (by simp) 0 (by simp))
  constructor
  · intro hsame
    obtain ⟨r', h'⟩ := Option.isSome_iff_exists.mp (hsome [callOfOne 1] (by simp) 0 (by simp))
    have hsizes :
        ((analyze exact id (after exact id []) (callOfOne 0)).1.bind (·.stabilityWindow)).map
          (·.snapshots.length) ≠
        ((analyze exact id (after exact id [callOfOne 1]) (callOfOne 0)).1.bind
          (·.stabilityWindow)).map (·.snapshots.length) := by
      decide +kernel
    rw [h, h', hsame _ _ _ _ _ h h'] at hsizes
    exact hsizes rfl
  · intro hsame
    obtain ⟨r', h'⟩ := Option.isSome_iff_exists.mp (hsome [] (by simp) 1 (by simp))
    have hids : (analyze exact id (after exact id []) (callOfOne 0)).1.map
          (·.snapshot.snapshotId) =
        (analyze exact id (after exact id []) (callOfOne 1)).1.map (·.snapshot.snapshotId) := by
      decide +kernel
    have hentropies : (analyze exact id (after exact id []) (callOfOne 0)).1.map
          (·.snapshot.semanticEntropy) ≠
        (analyze exact id (after exact id []) (callOfOne 1)).1.map
          (·.snapshot.semanticEntropy) := by
      decide +kernel
    rw [h, h'] at hids hentropies
    have hsnapshot := hsame _ _ _ _ _ _ h h' (Option.some.inj hids)
    rw [Option.map_some, Option.map_some, hsnapshot] at hentropies
    exact hentropies rfl

end PiPlatform.AgentChain.Entropy
