import PiPlatform.AgentChain.Artifacts
import PiPlatform.AgentChain.EntropyAnalysis

/-! Content addresses of the validators' results.

Two runs of a validator differ in the clock and in the order of sets. The artifact of a state
machine is the same in both. The other reports hold records that hold times, or lists in the
order of a set, and `reproducible_iff` says when they come out the same: an auth report without
evidence, a quorum report of nothing but rejected claims, and no entropy report. -/
namespace PiPlatform.AgentChain.ContentAddress

open Library Library.Python Library.Json
open Datum (hasTime)

/-! ### Dumps -/

section Dumps
variable {R : Type}

def texts (xs : List String) : Datum R := .list (xs.map .text)

/-- The records of a list, by their positions. -/
def records {α : Type} (dump : Nat → α → List (String × Datum R)) (xs : List α) : Datum R :=
  .list (xs.mapIdx fun position x => .dict (dump position x))

def severityText : Governance.Severity → String
  | .warning => "WARNING"
  | .error => "ERROR"
  | .critical => "CRITICAL"

def dumpViolation (position : Nat) (v : Violation R) : List (String × Datum R) :=
  [("violation_id", .text v.violationId), ("rule", .text v.rule), ("worker_id", .text v.workerId),
    ("root_goal_id", .text v.rootGoalId), ("detected_at", .time "violations.detected_at" position),
    ("severity", .text (severityText v.severity)), ("context", .dict v.context),
    ("action_taken", .text v.actionTaken)]

section Auth
open Auth

def dumpEvidence (position : Nat) (ev : AuthEvidence) : List (String × Datum R) :=
  [("evidence_id", .text ev.evidenceId), ("trace_id", .text ev.traceId),
    ("packet_id", .text ev.packetId), ("evidence_type", .text ev.evidenceType.value),
    ("field_path", .text ev.fieldPath), ("carrier", .text ev.carrier.value),
    ("observed_value_hash", .text ev.observedValueHash),
    ("observed_at", .time "evidence.observed_at" position),
    ("endpoint_template", .text ev.endpointTemplate), ("method", .text ev.method),
    ("status_code", .int ev.statusCode)]

def dumpBinding (_ : Nat) (b : AuthBinding R) : List (String × Datum R) :=
  [("binding_id", .text b.bindingId), ("carrier_a", .text b.carrierA),
    ("field_path_a", .text b.fieldPathA), ("carrier_b", .text b.carrierB),
    ("field_path_b", .text b.fieldPathB), ("co_occurrence_count", .int b.coOccurrenceCount),
    ("disjoint_count", .int b.disjointCount), ("confidence", .float b.confidence),
    ("evidence_refs", texts b.evidenceRefs), ("epistemic_state", .text b.epistemicState)]

def dumpInvariant (position : Nat) (inv : AuthInvariant R) : List (String × Datum R) :=
  [("invariant_id", .text inv.invariantId), ("invariant_type", .text inv.invariantType),
    ("description", .text inv.description), ("rotation_class", .text inv.rotationClass),
    ("evidence_refs", texts inv.evidenceRefs), ("binding_refs", texts []),
    ("affected_endpoints", texts inv.affectedEndpoints),
    ("replay_confirmed_endpoints", texts []), ("confidence", .float inv.confidence),
    ("epistemic_state", .text inv.epistemicState), ("replay_confirmed", .bool false),
    ("first_observed_at", .time "invariants.first_observed_at" position),
    ("last_observed_at", .time "invariants.last_observed_at" position)]

def dumpAuthReport (r : AuthConsistencyReport R) : List (String × Datum R) :=
  [("report_id", .text r.reportId), ("invariants", records dumpInvariant r.invariants),
    ("evidence", records dumpEvidence r.evidence), ("bindings", records dumpBinding r.bindings),
    ("violations", records dumpViolation r.violations),
    ("auth_field_count", .int r.authFieldCount), ("token_entropy", .float r.tokenEntropy),
    ("generated_at", .time "generated_at" 0)]

end Auth

section Fsm
open Transitions

def dumpNode (_ : Nat) (n : StateNode) : List (String × Datum R) :=
  [("node_id", .text n.nodeId), ("endpoint_template", .text n.endpointTemplate),
    ("method", .text n.method), ("required_auth_invariants", texts []),
    ("outgoing_edges", texts []), ("epistemic_state", .text EpistemicState.observed),
    ("semantic_hash", .null)]

/-- The constraint every edge is built with. -/
def replayRequired : List (String × Datum R) :=
  [("constraint_type", .text "REPLAY_REQUIRED"),
    ("description", .text ("Temporal edge requires replay confirmation: to_node must fail or " ++
      "change semantic class when from_node is absent.")),
    ("evidence_refs", texts []), ("satisfied", .bool false)]

def dumpEdge (_ : Nat) (e : TransitionEdge R) : List (String × Datum R) :=
  [("edge_id", .text e.edgeId), ("from_node", .text e.fromNode), ("to_node", .text e.toNode),
    ("observed_count", .int e.observedCount),
    ("replay_confirmed_count", .int e.replayConfirmedCount),
    ("failure_without_prerequisite", .int 0), ("constraints", .list [.dict replayRequired]),
    ("required_artifacts", texts []), ("auth_dependencies", texts e.authDependencies),
    ("replay_confidence", .float e.replayConfidence),
    ("epistemic_state", .text e.epistemicState), ("semantic_hash", .null)]

def dumpFsm (fsm : ProtocolStateMachine R) : List (String × Datum R) :=
  [("fsm_id", .text fsm.fsmId), ("nodes", records dumpNode fsm.nodes),
    ("edges", records dumpEdge fsm.edges), ("max_nodes", .int fsm.maxNodes),
    ("max_edges", .int fsm.maxEdges), ("max_fanout", .int fsm.maxFanout),
    ("max_depth", .int fsm.maxDepth), ("epistemic_state", .text fsm.epistemicState),
    ("generated_at", .time "generated_at" 0)]

end Fsm

section Quorum
open Quorum

def dumpClaim (_ : Nat) (c : SemanticClaim R) : List (String × Datum R) :=
  [("claim_id", .text c.claimId), ("property_path", .text c.propertyPath),
    ("semantic_type", .text c.semanticType), ("confidence_score", .float c.confidenceScore),
    ("artifact_id", .text c.artifactId), ("trace_id", .text c.traceId),
    ("packet_id", .text c.packetId), ("worker_id", .text c.workerId),
    ("source_epistemic_state", .text c.sourceEpistemicState),
    ("replay_confirmed", .bool c.replayConfirmed), ("provenance_chain", texts c.provenanceChain),
    ("authority_weight", .float c.authorityWeight)]

def dumpIntersection (position : Nat) (inter : SemanticIntersection R) :
    List (String × Datum R) :=
  [("intersection_id", .text inter.intersectionId), ("property_path", .text inter.propertyPath),
    ("intersected_type", .text inter.intersectedType),
    ("intersected_confidence", .float inter.intersectedConfidence),
    ("agreement_claim_ids", texts inter.agreementClaimIds),
    ("total_authority_sum", .float inter.totalAuthoritySum),
    ("consensus_replay_confirmed", .bool inter.consensusReplayConfirmed),
    ("generated_at", .time "intersections.generated_at" position)]

def conflictTypeText : ConflictType → String
  | .typeMismatch => "TYPE_MISMATCH"
  | .authorityWeightCollision => "AUTHORITY_WEIGHT_COLLISION"
  | .confidenceRegression => "CONFIDENCE_REGRESSION"

def dumpConflictSet (position : Nat) (cs : SemanticConflictSet R) : List (String × Datum R) :=
  [("conflict_id", .text cs.conflictId), ("property_path", .text cs.propertyPath),
    ("conflicting_claim_ids", texts cs.conflictingClaimIds),
    ("conflict_type", .text (conflictTypeText cs.conflictType)),
    ("description", .text cs.description), ("epistemic_state", .text cs.epistemicState),
    ("max_confidence", .float cs.maxConfidence),
    ("generated_at", .time "conflict_sets.generated_at" position)]

def dumpPromotion (_ : Nat) (p : Promotion R) : List (String × Datum R) :=
  [("promotion_id", .text p.promotionId), ("property_path", .text p.propertyPath),
    ("from_state", .text p.fromState), ("to_state", .text p.toState),
    ("min_authority", .float p.minAuthority), ("achieved_authority", .float p.achievedAuthority),
    ("rule", .text p.rule)]

def dumpQuorumReport (r : SemanticQuorumReport R) : List (String × Datum R) :=
  [("report_id", .text r.reportId), ("execution_id", .text r.executionId),
    ("claims", records dumpClaim r.claims),
    ("intersections", records dumpIntersection r.intersections),
    ("conflict_sets", records dumpConflictSet r.conflictSets),
    ("rejected_claims", records dumpClaim r.rejectedClaims),
    ("promotions", records dumpPromotion r.promotions),
    ("entropy_before", .float r.entropyBefore), ("entropy_after", .float r.entropyAfter),
    ("entropy_delta", .float r.entropyDelta), ("violations", records dumpViolation r.violations),
    ("quorum_reached", .bool r.quorumReached), ("max_depth_hit", .bool r.maxDepthHit),
    ("bounded_truncated", .bool r.boundedTruncated), ("generated_at", .time "generated_at" 0)]

end Quorum

section Entropy
open Entropy

/-- Those of the window keep the times they had. -/
def dumpSnapshot (measuredAt : String) (position : Nat) (s : EntropySnapshot R) :
    List (String × Datum R) :=
  [("snapshot_id", .text s.snapshotId), ("execution_id", .text s.executionId),
    ("measured_at", .time measuredAt position),
    ("structural_entropy", .float s.structuralEntropy),
    ("semantic_entropy", .float s.semanticEntropy), ("replay_entropy", .float s.replayEntropy),
    ("temporal_entropy", .float s.temporalEntropy),
    ("topological_entropy", .float s.topologicalEntropy),
    ("composite_entropy", .float s.compositeEntropy), ("input_hash", .text s.inputHash),
    ("evidence_count", .int s.evidenceCount)]

def deltaTrendText : DeltaTrend → String
  | .converging => "CONVERGING"
  | .diverging => "DIVERGING"
  | .stable => "STABLE"
  | .regressing => "REGRESSING"

def dumpDelta (d : EntropyDelta R) : List (String × Datum R) :=
  [("delta_id", .text d.deltaId), ("from_snapshot_id", .text d.fromSnapshotId),
    ("to_snapshot_id", .text d.toSnapshotId), ("structural_delta", .float d.structuralDelta),
    ("semantic_delta", .float d.semanticDelta), ("replay_delta", .float d.replayDelta),
    ("temporal_delta", .float d.temporalDelta), ("topological_delta", .float d.topologicalDelta),
    ("composite_delta", .float d.compositeDelta), ("trend", .text (deltaTrendText d.trend)),
    ("regression_dimensions", texts d.regressionDimensions)]

def dumpSemanticVariance (v : SemanticVariance R) : List (String × Datum R) :=
  [("disagreement_density", .float v.disagreementDensity),
    ("authority_fragmentation", .float v.authorityFragmentation),
    ("contested_expansion_rate", .float v.contestedExpansionRate),
    ("rejected_claim_ratio", .float v.rejectedClaimRatio),
    ("intersection_coverage", .float v.intersectionCoverage)]

def dumpReplayStability (m : ReplayStabilityMetric R) : List (String × Datum R) :=
  [("equivalent_rate", .float m.equivalentRate),
    ("non_equivalent_rate", .float m.nonEquivalentRate),
    ("contested_rate", .float m.contestedRate),
    ("auth_mutation_count", .int m.authMutationCount),
    ("average_drift_score", .float m.averageDriftScore),
    ("replay_confirmed_edge_ratio", .float m.replayConfirmedEdgeRatio)]

def dumpTopologicalEntropy (t : TopologicalEntropy R) : List (String × Datum R) :=
  [("branching_factor", .float t.branchingFactor), ("fanout_variance", .float t.fanoutVariance),
    ("unconfirmed_edge_ratio", .float t.unconfirmedEdgeRatio), ("node_count", .int t.nodeCount),
    ("edge_count", .int t.edgeCount)]

def dumpConvergence (c : ConvergenceScore R) : List (String × Datum R) :=
  [("score", .float c.score), ("confidence_bound", .float c.confidenceBound),
    ("contributing_factors", .dict (c.contributingFactors.map fun f => (f.1, .float f.2))),
    ("generated_at", .time "convergence.generated_at" 0)]

def windowTrendText : WindowTrend → String
  | .improving => "IMPROVING"
  | .degrading => "DEGRADING"
  | .oscillating => "OSCILLATING"
  | .stable => "STABLE"
  | .insufficientData => "INSUFFICIENT_DATA"

def dumpWindow (w : StabilityWindow R) : List (String × Datum R) :=
  [("window_id", .text w.windowId),
    ("snapshots", records (dumpSnapshot "stability_window.measured_at") w.snapshots),
    ("max_window_size", .int w.maxWindowSize), ("trend", .text (windowTrendText w.trend)),
    ("average_composite_entropy", .float w.averageCompositeEntropy),
    ("entropy_variance", .float w.entropyVariance), ("drift_signatures", .list [])]

def patternTypeText : PatternType → String
  | .structuralVolatility => "STRUCTURAL_VOLATILITY"
  | .semanticFragmentation => "SEMANTIC_FRAGMENTATION"
  | .replayInstability => "REPLAY_INSTABILITY"
  | .temporalRegression => "TEMPORAL_REGRESSION"
  | .topologyExplosion => "TOPOLOGY_EXPLOSION"
  | .crossDimensionCorrelation => "CROSS_DIMENSION_CORRELATION"

def dumpDrift (position : Nat) (d : DriftSignature R) : List (String × Datum R) :=
  [("signature_id", .text d.signatureId), ("pattern_type", .text (patternTypeText d.patternType)),
    ("affected_dimensions", texts d.affectedDimensions),
    ("severity_score", .float d.severityScore), ("description", .text d.description),
    ("first_detected", .time "drift_signatures.first_detected" position)]

/-- The last snapshot of the window is the report's, so its time has two names here. -/
def dumpEntropyReport (r : EntropyAnalysisReport R) : List (String × Datum R) :=
  [("report_id", .text r.reportId), ("execution_id", .text r.executionId),
    ("snapshot", .dict (dumpSnapshot "snapshot.measured_at" 0 r.snapshot)),
    ("delta", r.delta.elim .null fun d => .dict (dumpDelta d)),
    ("semantic_variance", .dict (dumpSemanticVariance r.semanticVariance)),
    ("replay_stability", .dict (dumpReplayStability r.replayStability)),
    ("topological_entropy", .dict (dumpTopologicalEntropy r.topologicalEntropy)),
    ("convergence", .dict (dumpConvergence r.convergence)),
    ("stability_window", r.stabilityWindow.elim .null fun w => .dict (dumpWindow w)),
    ("drift_signatures", records dumpDrift r.driftSignatures),
    ("violations", records dumpViolation r.violations),
    ("generated_at", .time "generated_at" 0)]

end Entropy

/-! ### Where the times are -/

theorem records_hasTime {α : Type} (dump : Nat → α → List (String × Datum R)) (xs : List α)
    (htimed : ∀ position x, hasTimeItems (dump position x) = true) :
    (records dump xs).hasTime = false ↔ xs = [] := by
  cases xs with
  | nil => simp [records, hasTime, hasTimeElems]
  | cons x xs => simp [records, hasTime, hasTimeElems, htimed]

theorem records_timeless {α : Type} {dump : Nat → α → List (String × Datum R)} (xs : List α)
    (htimeless : ∀ position x, hasTimeItems (dump position x) = false) :
    (records dump xs).hasTime = false := by
  rw [records, hasTime, ← Bool.not_eq_true, hasTimeElems_iff]
  rintro ⟨d, hd, htime⟩
  obtain ⟨position, hposition, rfl⟩ := List.mem_mapIdx.mp hd
  rw [hasTime, htimeless] at htime
  cases htime

@[simp] theorem texts_hasTime (xs : List String) : (texts xs : Datum R).hasTime = false := by
  rw [texts, hasTime, ← Bool.not_eq_true, hasTimeElems_iff]
  rintro ⟨d, hd, htime⟩
  obtain ⟨x, -, rfl⟩ := List.mem_map.mp hd
  cases htime

theorem authReport_time_iff (r : Auth.AuthConsistencyReport R) :
    hasTimeItems (hashedFields (dumpAuthReport r)) = false ↔
      r.invariants = [] ∧ r.evidence = [] ∧ r.violations = [] := by
  have hbindings : (records dumpBinding r.bindings).hasTime = false :=
    records_timeless _ fun _ b => by simp [dumpBinding, hasTimeItems, hasTime]
  have hinvariants := records_hasTime dumpInvariant r.invariants
    fun _ inv => by simp [dumpInvariant, hasTimeItems, hasTime]
  have hevidence := records_hasTime (dumpEvidence (R := R)) r.evidence
    fun _ ev => by simp [dumpEvidence, hasTimeItems, hasTime]
  have hviolations := records_hasTime dumpViolation r.violations
    fun _ v => by simp [dumpViolation, hasTimeItems, hasTime]
  have hfields : hashedFields (dumpAuthReport r) = (dumpAuthReport r).take 7 := by
    simp [hashedFields, dumpAuthReport, volatileHashFields]
  rw [← hinvariants, ← hevidence, ← hviolations, hfields]
  simp [dumpAuthReport, hasTimeItems, hasTime, hbindings]

theorem fsm_timeless (fsm : Transitions.ProtocolStateMachine R) :
    hasTimeItems (hashedFields (dumpFsm fsm)) = false := by
  have hnodes : (records (R := R) dumpNode fsm.nodes).hasTime = false :=
    records_timeless _ fun _ n => by simp [dumpNode, hasTimeItems, hasTime]
  have hedges : (records dumpEdge fsm.edges).hasTime = false :=
    records_timeless _ fun _ e => by
      simp [dumpEdge, replayRequired, hasTimeItems, hasTimeElems, hasTime]
  have hfields : hashedFields (dumpFsm fsm) = (dumpFsm fsm).take 8 := by
    simp [hashedFields, dumpFsm, volatileHashFields]
  rw [hfields]
  simp [dumpFsm, hasTimeItems, hasTime, hnodes, hedges]

theorem quorumReport_time_iff (r : Quorum.SemanticQuorumReport R) :
    hasTimeItems (hashedFields (dumpQuorumReport r)) = false ↔
      r.intersections = [] ∧ r.conflictSets = [] ∧ r.violations = [] := by
  have hclaims : ∀ claims : List (Quorum.SemanticClaim R),
      (records dumpClaim claims).hasTime = false := fun _ =>
    records_timeless _ fun _ c => by simp [dumpClaim, hasTimeItems, hasTime]
  have hpromotions : (records dumpPromotion r.promotions).hasTime = false :=
    records_timeless _ fun _ p => by simp [dumpPromotion, hasTimeItems, hasTime]
  have hintersections := records_hasTime dumpIntersection r.intersections
    fun _ inter => by simp [dumpIntersection, hasTimeItems, hasTime]
  have hconflicts := records_hasTime dumpConflictSet r.conflictSets
    fun _ cs => by simp [dumpConflictSet, hasTimeItems, hasTime]
  have hviolations := records_hasTime dumpViolation r.violations
    fun _ v => by simp [dumpViolation, hasTimeItems, hasTime]
  have hfields : hashedFields (dumpQuorumReport r) = (dumpQuorumReport r).take 14 := by
    simp [hashedFields, dumpQuorumReport, volatileHashFields]
  rw [← hintersections, ← hconflicts, ← hviolations, hfields]
  simp [dumpQuorumReport, hasTimeItems, hasTime, hclaims, hpromotions]

/-- Every entropy report holds the time of its snapshot. -/
theorem entropyReport_time (r : Entropy.EntropyAnalysisReport R) :
    hasTimeItems (hashedFields (dumpEntropyReport r)) = true := by
  refine hasTimeItems_iff.mpr
    ⟨("snapshot", .dict (dumpSnapshot "snapshot.measured_at" 0 r.snapshot)), ?_, ?_⟩
  · simp [hashedFields, dumpEntropyReport, volatileHashFields]
  · simp [dumpSnapshot, hasTimeItems, hasTime]

end Dumps

/-! ### Runs -/

structure Run where
  order : SetOrder
  clock : Clock

section Runs
variable {R : Type} (sha256 : String → String) (floatRepr : R → Fl Literal)

/-- Any two runs that return give one hash and one id. -/
def Reproducible (dump : SetOrder → Option (List (String × Datum R))) : Prop :=
  ∀ (run₁ run₂ : Run) (dump₁ dump₂ : List (String × Datum R)) (generatedBy : String),
    dump run₁.order = some dump₁ → dump run₂.order = some dump₂ →
    SameAddress (deriveArtifact floatRepr run₁.clock sha256 dump₁ generatedBy)
      (deriveArtifact floatRepr run₂.clock sha256 dump₂ generatedBy)

variable {dump : SetOrder → Option (List (String × Datum R))}

theorem reproducible_of_timeless
    (h : ∀ order₁ order₂ d₁ d₂, dump order₁ = some d₁ → dump order₂ = some d₂ →
      d₁ = d₂ ∧ hasTimeItems (hashedFields d₁) = false) :
    Reproducible sha256 floatRepr dump := by
  intro run₁ run₂ dump₁ dump₂ generatedBy h₁ h₂
  obtain ⟨rfl, htimeless⟩ := h _ _ _ _ h₁ h₂
  exact sameAddress_of_no_time floatRepr _ _ htimeless

variable {sha256 floatRepr}

/-- Two runs a second apart, which iterate their sets alike. -/
theorem timeless_of_reproducible (hsha : Function.Injective sha256)
    (h : Reproducible sha256 floatRepr dump) {order : SetOrder} {d : List (String × Datum R)}
    (hd : dump order = some d) : hasTimeItems (hashedFields d) = false := by
  have haddress := h ⟨order, fun _ _ => "2025-01-01 00:00:00"⟩
    ⟨order, fun _ _ => "2025-01-01 00:00:01"⟩ d d "" hd hd
  have happarent : "2025-01-01 00:00:00" ≠ "2025-01-01 00:00:01" := by decide
  exact no_time_of_sameAddress floatRepr hsha (fun _ _ => happarent) haddress

end Runs

/-! ### The auth report -/

section Auth
open Auth
variable {R : Type} {N : Floats R} {T : Texts} {minBindingConfidence : R} {executionId : String}
  {traces : List SemanticIRTrace} {packets : List NormalizedTrafficPacket}

theorem evidence_of_validate {order : SetOrder} {r : AuthConsistencyReport R}
    (h : validate N order T minBindingConfidence executionId traces packets = some r) :
    r.evidence = extractEvidence T executionId traces packets := by
  rw [validate] at h
  obtain ⟨bindings, -, h⟩ := Option.bind_eq_some_iff.mp h
  obtain ⟨invariants, -, h⟩ := Option.bind_eq_some_iff.mp h
  rw [AuthConsistencyReport.valid?] at h
  split at h
  · cases h
    rfl
  · cases h

theorem invariants_of_validate {order : SetOrder} {r : AuthConsistencyReport R}
    (h : validate N order T minBindingConfidence executionId traces packets = some r) :
    ∃ invs, inferInvariants N order T minBindingConfidence executionId
      (extractEvidence T executionId traces packets) = some invs ∧ r.invariants = invs := by
  rw [validate] at h
  obtain ⟨bindings, -, h⟩ := Option.bind_eq_some_iff.mp h
  obtain ⟨invariants, hinvariants, h⟩ := Option.bind_eq_some_iff.mp h
  rw [AuthConsistencyReport.valid?] at h
  split at h
  · cases h
    exact ⟨invariants, hinvariants, rfl⟩
  · cases h

theorem detectBindings_nil (order : SetOrder) :
    detectBindings N order T minBindingConfidence executionId [] = some [] := by
  rw [detectBindings, List.map_nil, order.iterate_nil]
  rfl

theorem inferInvariants_nil (order : SetOrder) :
    inferInvariants N order T minBindingConfidence executionId [] = some [] := by
  have hordering : dependencyOrdering N order T executionId [] = [] := by
    rw [dependencyOrdering, List.map_nil, order.iterate_nil]
    rfl
  rw [inferInvariants, hordering]
  rfl

/-- Without evidence nothing is bound, inferred or violated. -/
theorem validate_of_no_evidence (order : SetOrder)
    (h : extractEvidence T executionId traces packets = []) :
    validate N order T minBindingConfidence executionId traces packets =
      AuthConsistencyReport.valid? N
        ⟨T.hash ("auth_report:" ++ executionId), [], [], [], [], 0, N.round (N.ofNat 0) 4⟩ := by
  rw [validate, h]
  simp only [detectBindings_nil, inferInvariants_nil]
  rfl

/-- What a state machine reads of an invariant. -/
structure SameInvariant (inv₁ inv₂ : AuthInvariant R) : Prop where
  id : inv₁.invariantId = inv₂.invariantId
  endpoints : ∀ endpoint,
    endpoint ∈ inv₁.affectedEndpoints ↔ endpoint ∈ inv₂.affectedEndpoints

section Orders
variable (order₁ order₂ : SetOrder) {invs₁ invs₂ : List (AuthInvariant R)}

theorem length_iterate_congr {α : Type} [DecidableEq α] (xs : List α) :
    (order₁.iterate xs).length = (order₂.iterate xs).length :=
  ((order₁.perm xs).trans (order₂.perm xs).symm).length_eq

theorem sameInvariant_dependencyOrdering (evidence : List AuthEvidence) :
    List.Forall₂ SameInvariant (dependencyOrdering N order₁ T executionId evidence)
      (dependencyOrdering N order₂ T executionId evidence) := by
  have hlength := length_iterate_congr order₁ order₂ (evidence.map (·.endpointTemplate))
  rw [dependencyOrdering, dependencyOrdering]
  rw [hlength]
  split
  · exact .nil
  · refine .cons ⟨rfl, fun endpoint => ?_⟩ .nil
    simp only [sortBy, List.mem_insertionSort, SetOrder.mem_iterate]

theorem sameInvariant_csrfCoupling (evidence : List AuthEvidence) :
    List.Forall₂ SameInvariant
      (csrfCoupling N order₁ T minBindingConfidence executionId evidence)
      (csrfCoupling N order₂ T minBindingConfidence executionId evidence) := by
  rw [csrfCoupling, csrfCoupling]
  dsimp only
  split
  · exact .nil
  · exact .cons ⟨rfl, fun endpoint => by simp only [SetOrder.mem_iterate]⟩ .nil

/-- Those of one endpoint, by their ids. -/
theorem relevant_congr (h : List.Forall₂ SameInvariant invs₁ invs₂) (endpoint : String) :
    ((invs₁.filter fun inv => endpoint ∈ inv.affectedEndpoints) = [] ↔
      (invs₂.filter fun inv => endpoint ∈ inv.affectedEndpoints) = []) ∧
    (invs₁.filter fun inv => endpoint ∈ inv.affectedEndpoints).map (·.invariantId) =
      (invs₂.filter fun inv => endpoint ∈ inv.affectedEndpoints).map (·.invariantId) := by
  have hids : (invs₁.filter fun inv => endpoint ∈ inv.affectedEndpoints).map (·.invariantId) =
      (invs₂.filter fun inv => endpoint ∈ inv.affectedEndpoints).map (·.invariantId) := by
    induction h with
    | nil => rfl
    | @cons inv₁ inv₂ _ _ hsame _ ih =>
      by_cases hmem : endpoint ∈ inv₁.affectedEndpoints
      · have hmem' := (hsame.endpoints endpoint).mp hmem
        simp only [List.filter_cons, hmem, hmem', decide_true, if_true, List.map_cons, hsame.id, ih]
      · have hmem' : endpoint ∉ inv₂.affectedEndpoints :=
          fun h => hmem ((hsame.endpoints endpoint).mpr h)
        simpa only [List.filter_cons, hmem, hmem', decide_false, Bool.false_eq_true, if_false]
          using ih
  refine ⟨?_, hids⟩
  rw [← List.map_eq_nil_iff (f := (·.invariantId)), hids, List.map_eq_nil_iff]

/-- The invariants of one evidence are the same by any two orders, as far as they are read. -/
theorem sameInvariant_inferInvariants {evidence : List AuthEvidence}
    (h₁ : inferInvariants N order₁ T minBindingConfidence executionId evidence = some invs₁)
    (h₂ : inferInvariants N order₂ T minBindingConfidence executionId evidence = some invs₂) :
    List.Forall₂ SameInvariant invs₁ invs₂ := by
  have hvalid : ∀ {invs invs' : List (AuthInvariant R)},
      invs.mapM (AuthInvariant.valid? N) = some invs' → invs' = invs := by
    intro invs invs' h
    have hall : ∀ inv ∈ invs, AuthInvariant.valid? N inv = some inv := by
      intro inv hinv
      obtain ⟨inv', hinv'⟩ := Option.isSome_iff_exists.mp
        (isSome_mapM.mp (Option.isSome_of_eq_some h) inv hinv)
      rw [hinv']
      rw [AuthInvariant.valid?] at hinv'
      split at hinv'
      · exact hinv'.symm
      · cases hinv'
    rw [mapM_eq_map (g := id) hall, List.map_id] at h
    exact (Option.some.inj h).symm
  rw [hvalid h₁, hvalid h₂]
  refine List.rel_append (List.rel_append (List.rel_append (List.rel_append (List.rel_append
    ?_ ?_) ?_) ?_) ?_) ?_
  · rw [tokenReuse, tokenReuse, List.forall₂_map_left_iff, List.forall₂_map_right_iff]
    exact List.forall₂_same.mpr fun g _ => ⟨rfl,
      fun endpoint => by simp only [SetOrder.mem_iterate]⟩
  · exact sameInvariant_csrfCoupling order₁ order₂ evidence
  · rw [sessionRotation, sessionRotation, List.forall₂_map_left_iff, List.forall₂_map_right_iff]
    exact List.forall₂_same.mpr fun g _ => ⟨rfl, fun endpoint => Iff.rfl⟩
  · rw [authTransition, authTransition]
    split
    · exact .nil
    · exact .cons ⟨rfl, fun endpoint => by simp only [SetOrder.mem_iterate]⟩ .nil
  · rw [replaySurvivability, replaySurvivability]
    split
    · exact .nil
    · exact .cons ⟨rfl, fun endpoint => by simp only [SetOrder.mem_iterate]⟩ .nil
  · exact sameInvariant_dependencyOrdering order₁ order₂ evidence

/-- The state machine by two runs, each with the auth report of its own. -/
theorem extractFsm_congr {hash : String → String} {bounds : Transitions.ValidationBounds}
    {r₁ r₂ : AuthConsistencyReport R}
    (h₁ : validate N order₁ T minBindingConfidence executionId traces packets = some r₁)
    (h₂ : validate N order₂ T minBindingConfidence executionId traces packets = some r₂) :
    Transitions.extractFsm N hash bounds executionId order₁ traces packets r₁ =
      Transitions.extractFsm N hash bounds executionId order₂ traces packets r₂ := by
  have hinvariants : List.Forall₂ SameInvariant r₁.invariants r₂.invariants := by
    obtain ⟨invs₁, hinvs₁, hr₁⟩ := invariants_of_validate h₁
    obtain ⟨invs₂, hinvs₂, hr₂⟩ := invariants_of_validate h₂
    rw [hr₁, hr₂]
    exact sameInvariant_inferInvariants order₁ order₂ hinvs₁ hinvs₂
  have hlink : ∀ (nodes : List Transitions.StateNode)
      (edges : List (Transitions.TransitionEdge R)),
      Transitions.linkAuthDependencies nodes r₁.invariants edges =
        Transitions.linkAuthDependencies nodes r₂.invariants edges := by
    intro nodes edges
    refine List.map_congr_left fun e _ => ?_
    cases nodes.reverse.find? fun n => n.nodeId = e.toNode with
    | none => rfl
    | some node =>
      have hrelevant := relevant_congr hinvariants node.endpointTemplate
      dsimp only
      rw [hrelevant.2]
      by_cases hempty : (r₂.invariants.filter fun inv =>
          decide (node.endpointTemplate ∈ inv.affectedEndpoints)) = []
      · rw [if_pos hempty, if_pos (hrelevant.1.mpr hempty)]
      · rw [if_neg hempty, if_neg fun h => hempty (hrelevant.1.mp h)]
  rw [Transitions.extractFsm_order N hash bounds executionId order₁ order₂]
  simp only [Transitions.extractFsm, hlink]

end Orders

end Auth

/-! ### The quorum report -/

section Quorum
open Quorum
variable {R : Type} (N : Floats R) (bounds : Quorum.ValidationBounds)

/-- The claims one path after another. -/
def byPath (claims : List (SemanticClaim R)) : List (SemanticClaim R) :=
  (groupBy (·.propertyPath) claims).flatMap (·.2)

/-- All claims are rejected, and no bound and no entropy is complained about. -/
structure Quiet (claims : List (SemanticClaim R)) : Prop where
  bound : (claims.length : Int) ≤ bounds.maxQuorumClaims
  room : claims = [] ∨ 0 < bounds.maxQuorumIntersections ∧ 0 < bounds.maxQuorumConflictSets
  rejected : ∀ c ∈ claims, c.accepted N = false
  entropy : N.lt (N.add (computeClaimEntropy N claims) (N.dec 1 3))
    (computeClaimEntropy N (byPath claims)) = false

section Groups
variable {N} {claims : List (SemanticClaim R)} {groups : List (String × List (SemanticClaim R))}

/-- Neither agreed nor contested, when nothing is accepted. -/
theorem not_accepted_iff : agreed N claims = false ∧ contested N claims = false ↔
    ∀ c ∈ claims, c.accepted N = false := by
  rw [agreed, contested]
  cases hfilter : claims.filter (SemanticClaim.accepted N) with
  | nil => simpa using List.filter_eq_nil_iff.mp hfilter
  | cons first rest =>
    have hfirst : first ∈ claims.filter (SemanticClaim.accepted N) :=
      hfilter ▸ List.mem_cons_self ..
    obtain ⟨hmem, haccepted⟩ := List.mem_filter.mp hfirst
    refine iff_of_false ?_ fun hnone => ?_
    · rintro ⟨hagreed, hcontested⟩
      obtain ⟨c, hc, hne⟩ := List.all_eq_false.mp hagreed
      have hsame := List.any_eq_false.mp hcontested c hc
      simp only [decide_eq_true_eq] at hne hsame
      exact hsame hne
    · rw [hnone first hmem] at haccepted
      cases haccepted

theorem turns_eq_iff (hquiet : ∀ g ∈ groups, agreed N g.2 = false ∧ contested N g.2 = false)
    (agreements conflicts : Nat) :
    turns N bounds agreements conflicts groups = groups ↔ groups = [] ∨
      agreements < bounds.maxQuorumIntersections ∧ conflicts < bounds.maxQuorumConflictSets := by
  induction groups with
  | nil => simp [turns]
  | cons group rest ih =>
    obtain ⟨⟨hagreed, hcontested⟩, hrest⟩ := List.forall_mem_cons.mp hquiet
    rw [turns]
    split
    · next hfull => simp; omega
    · next hroom =>
      have hboth : (agreements : Int) < bounds.maxQuorumIntersections ∧
          (conflicts : Int) < bounds.maxQuorumConflictSets := by omega
      rw [hagreed, hcontested, List.cons.injEq, Bool.toNat_false, Nat.add_zero, Nat.add_zero,
        ih hrest]
      simp [hboth]

theorem mem_groups {group : String × List (SemanticClaim R)} {c : SemanticClaim R}
    (hgroup : group ∈ groupBy (·.propertyPath) claims) (hc : c ∈ group.2) : c ∈ claims := by
  obtain ⟨-, hfilter⟩ := mem_groupBy.mp hgroup
  rw [hfilter] at hc
  exact List.mem_of_mem_filter hc

theorem exists_group {c : SemanticClaim R} (hc : c ∈ claims) :
    ∃ group ∈ groupBy (·.propertyPath) claims, c ∈ group.2 :=
  ⟨(c.propertyPath, claims.filter fun c' => c'.propertyPath = c.propertyPath),
    mem_groupBy.mpr ⟨List.mem_map_of_mem hc, rfl⟩, List.mem_filter.mpr ⟨hc, by simp⟩⟩

theorem groups_eq_nil_iff : groupBy (·.propertyPath) claims = [] ↔ claims = [] := by
  constructor
  · intro hnil
    rw [List.eq_nil_iff_forall_not_mem]
    intro c hc
    obtain ⟨group, hgroup, -⟩ := exists_group hc
    rw [hnil] at hgroup
    cases hgroup
  · rintro rfl
    rfl

/-- Of claims that are all rejected, those of every path are. -/
theorem rejected_byPath (h : ∀ c ∈ claims, c.accepted N = false) :
    ((groupBy (·.propertyPath) claims).flatMap fun group => rejectedOf N group.2) =
      byPath claims := by
  refine List.flatMap_congr fun group hgroup => List.filter_eq_self.mpr fun c hc => ?_
  rw [h c (mem_groups hgroup hc), Bool.not_false]

end Groups

section Loop
variable {N} [DecidableEq R] {order : SetOrder} {hash : String → String} {executionId : String}
  {groups : List (String × List (SemanticClaim R))} {g g' : Gathered R}

/-- Violations are kept. -/
theorem violations_extend (h : intersectAll N order hash bounds executionId groups g = some g') :
    g.violations <+: g'.violations := by
  induction groups generalizing g with
  | nil =>
    cases h
    exact List.prefix_rfl
  | cons group rest ih =>
    obtain ⟨path, claims⟩ := group
    rw [intersectAll] at h
    split at h
    · cases h
      exact List.prefix_append _ _
    · obtain ⟨⟨inter, cs, rejected⟩, -, h⟩ := Option.bind_eq_some_iff.mp h
      exact (ih h :)

/-- One is added when the loop stops before its end. -/
theorem violations_eq_iff (hsound : ∀ group ∈ groups, ∀ c ∈ group.2, Sound N c)
    (h : intersectAll N order hash bounds executionId groups g = some g') :
    g'.violations = g.violations ↔
      turns N bounds g.intersections.length g.conflictSets.length groups = groups := by
  induction groups generalizing g with
  | nil =>
    cases h
    simp [turns]
  | cons group rest ih =>
    obtain ⟨path, claims⟩ := group
    obtain ⟨hclaims, hrest⟩ := List.forall_mem_cons.mp hsound
    rw [intersectAll] at h
    rw [turns]
    split at h
    · next hfull =>
      cases h
      rw [if_pos hfull]
      simp
    · next hroom =>
      obtain ⟨filed, hintersect, hfiled⟩ := intersect_filed order hash path executionId hclaims
      rw [hintersect, Option.bind_some] at h
      have hloop := ih hrest h
      simp only [List.length_append, hfiled.lengths] at hloop
      rw [hloop, if_neg hroom, List.cons.injEq]
      exact (and_iff_right rfl).symm

end Loop

section Report
variable {N} {bounds} [DecidableEq R] {order : SetOrder} {hash : String → String}
  {executionId : String} {artifacts : List (Quorum.SemanticArtifact N)}
  {claims : List (SemanticClaim R)} {report : SemanticQuorumReport R}

omit [DecidableEq R] in
theorem collect_rejected (rejected : List (SemanticClaim R)) :
    collectPostQuorumClaims N [] [] rejected = some rejected := by
  simp [collectPostQuorumClaims]

omit [DecidableEq R] in
theorem sound_of_extractClaims (h : extractClaims N hash artifacts = some claims) :
    ∀ c ∈ claims, Sound N c := by
  obtain ⟨lists, hlists, rfl⟩ := Option.map_eq_some_iff.mp h
  intro c hc
  obtain ⟨list, hlist, hc⟩ := List.mem_flatten.mp hc
  obtain ⟨artifact, -, hartifact⟩ := exists_of_mapM hlists hlist
  rw [claimsOf] at hartifact
  split at hartifact
  · cases hartifact
    cases hc
  · split at hartifact
    · cases hartifact
      cases hc
    · cases hartifact
    · next trace _ =>
      rw [mapM_eq_map fun field _ => (sound_claimOf field).valid?] at hartifact
      cases hartifact
      obtain ⟨field, -, rfl⟩ := List.mem_map.mp hc
      exact sound_claimOf field

/-- What the loop has gathered when nothing is accepted. -/
theorem gathered_of_quiet (hsound : ∀ c ∈ claims, Sound N c) (hquiet : Quiet N bounds claims)
    (order : SetOrder) :
    intersectAll N order hash bounds executionId (groupBy (·.propertyPath) claims)
      ⟨[], [], [], []⟩ = some ⟨[], [], byPath claims, []⟩ := by
  have hgroups : ∀ group ∈ groupBy (·.propertyPath) claims, ∀ c ∈ group.2, Sound N c :=
    fun group hgroup c hc => hsound c (mem_groups hgroup hc)
  have hnone : ∀ group ∈ groupBy (·.propertyPath) claims,
      agreed N group.2 = false ∧ contested N group.2 = false := fun group hgroup =>
    not_accepted_iff.mpr fun c hc => hquiet.rejected c (mem_groups hgroup hc)
  obtain ⟨g, hg, ⟨inters, hinters, hagrees⟩, ⟨sets, hsets, hconflicts⟩, hrejected⟩ :=
    intersectAll_gathers bounds order hash executionId hgroups ⟨[], [], [], []⟩
  have hturns : turns N bounds 0 0 (groupBy (·.propertyPath) claims) =
      groupBy (·.propertyPath) claims := by
    rw [turns_eq_iff bounds hnone, groups_eq_nil_iff]
    exact hquiet.room
  have hviolations := (violations_eq_iff bounds hgroups hg).mpr hturns
  simp only [List.length_nil] at hagrees hconflicts hrejected
  rw [hturns] at hagrees hconflicts hrejected
  rw [List.filter_eq_nil_iff.mpr fun group hgroup => by simp [(hnone group hgroup).1]] at hagrees
  rw [List.filter_eq_nil_iff.mpr fun group hgroup => by simp [(hnone group hgroup).2]]
    at hconflicts
  cases hagrees
  cases hconflicts
  obtain ⟨intersections, conflictSets, rejectedClaims, violations⟩ := g
  dsimp only [List.append_nil, List.nil_append] at hinters hsets hrejected hviolations
  subst hinters hsets hviolations
  rw [hg, hrejected, rejected_byPath hquiet.rejected]

/-- The loop of a report, and the violations behind those of the loop. -/
theorem gathered_of_report (hclaims : extractClaims N hash artifacts = some claims)
    (h : execute N order hash bounds artifacts executionId = some report) :
    ∃ taken start g remaining, (start = [] ↔ (claims.length : Int) ≤ bounds.maxQuorumClaims) ∧
      (start = [] → taken = claims) ∧
      intersectAll N order hash bounds executionId (groupBy (·.propertyPath) taken)
        ⟨[], [], [], start⟩ = some g ∧
      collectPostQuorumClaims N g.intersections g.conflictSets g.rejectedClaims = some remaining ∧
      report.intersections = g.intersections ∧ report.conflictSets = g.conflictSets ∧
      (report.violations = [] ↔ g.violations = [] ∧
        N.lt (N.add (computeClaimEntropy N taken) (N.dec 1 3))
          (computeClaimEntropy N remaining) = false) := by
  rw [execute] at h
  simp only [hclaims, Option.bind_eq_bind, Option.bind_some] at h
  obtain ⟨g, hg, h⟩ := Option.bind_eq_some_iff.mp h
  obtain ⟨remaining, hremaining, h⟩ := Option.bind_eq_some_iff.mp h
  rw [SemanticQuorumReport.valid?,
    if_pos ⟨(nonneg_computeClaimEntropy _).round 6, (nonneg_computeClaimEntropy _).round 6⟩] at h
  obtain rfl := Option.some.inj h
  refine ⟨_, _, g, remaining, ?_, ?_, hg, hremaining, rfl, rfl, ?_⟩
  · split
    · next hover => simpa using hover
    · next hfits => simpa using hfits
  · split
    · intro hnil
      cases hnil
    · exact fun _ => rfl
  · rw [List.append_eq_nil_iff, and_congr_right_iff]
    intro _
    split
    · simp
    · simp

theorem report_quiet_iff (hclaims : extractClaims N hash artifacts = some claims)
    (h : execute N order hash bounds artifacts executionId = some report) :
    report.intersections = [] ∧ report.conflictSets = [] ∧ report.violations = [] ↔
      Quiet N bounds claims := by
  have hsound := sound_of_extractClaims hclaims
  obtain ⟨taken, start, g, remaining, hstart, htaken, hg, hremaining, hinters, hsets,
    hviolations⟩ := gathered_of_report hclaims h
  rw [hinters, hsets, hviolations]
  constructor
  · rintro ⟨hnoInters, hnoSets, hnoViolations, hentropy⟩
    have hnoStart : start = [] := by
      have hextend := violations_extend bounds hg
      rw [hnoViolations] at hextend
      exact List.prefix_nil.mp hextend
    obtain rfl := htaken hnoStart
    subst hnoStart
    have hgroups : ∀ group ∈ groupBy (·.propertyPath) taken, ∀ c ∈ group.2, Sound N c :=
      fun group hgroup c hc => hsound c (mem_groups hgroup hc)
    have hturns := (violations_eq_iff bounds hgroups hg).mp hnoViolations
    obtain ⟨g', hg', ⟨inters, hinters', hagrees⟩, ⟨sets, hsets', hconflicts⟩, hrejected⟩ :=
      intersectAll_gathers bounds order hash executionId hgroups ⟨[], [], [], []⟩
    obtain rfl := Option.some.inj (hg'.symm.trans hg)
    rw [hturns] at hagrees hconflicts hrejected
    rw [hnoInters, List.nil_append] at hinters'
    rw [hnoSets, List.nil_append] at hsets'
    rw [← hinters', List.forall₂_nil_right_iff] at hagrees
    rw [← hsets', List.forall₂_nil_right_iff] at hconflicts
    have hnone : ∀ group ∈ groupBy (·.propertyPath) taken,
        agreed N group.2 = false ∧ contested N group.2 = false := fun group hgroup =>
      ⟨by simpa using List.filter_eq_nil_iff.mp hagrees group hgroup,
        by simpa using List.filter_eq_nil_iff.mp hconflicts group hgroup⟩
    have hnoneAccepted : ∀ c ∈ taken, c.accepted N = false := by
      intro c hc
      obtain ⟨group, hgroup, hmem⟩ := exists_group hc
      exact not_accepted_iff.mp (hnone group hgroup) c hmem
    have hroom := (turns_eq_iff bounds hnone 0 0).mp hturns
    rw [groups_eq_nil_iff] at hroom
    rw [List.nil_append, rejected_byPath hnoneAccepted] at hrejected
    rw [hnoInters, hnoSets, hrejected, collect_rejected] at hremaining
    obtain rfl := Option.some.inj hremaining
    exact ⟨hstart.mp rfl, hroom, hnoneAccepted, hentropy⟩
  · intro hquiet
    have hnoStart := hstart.mpr hquiet.bound
    obtain rfl := htaken hnoStart
    subst hnoStart
    rw [gathered_of_quiet hsound hquiet order] at hg
    obtain rfl := Option.some.inj hg
    obtain rfl := Option.some.inj ((collect_rejected _).symm.trans hremaining)
    exact ⟨rfl, rfl, rfl, hquiet.entropy⟩

/-- Quiet claims never come to a set. -/
theorem execute_order_of_quiet (hclaims : extractClaims N hash artifacts = some claims)
    (hquiet : Quiet N bounds claims) (order₁ order₂ : SetOrder) :
    execute N order₁ hash bounds artifacts executionId =
      execute N order₂ hash bounds artifacts executionId := by
  have hsound := sound_of_extractClaims hclaims
  have hover : decide (bounds.maxQuorumClaims < claims.length) = false :=
    decide_eq_false (not_lt.mpr hquiet.bound)
  rw [execute, execute]
  simp only [hclaims, hover, Option.bind_eq_bind, Option.bind_some, Bool.false_eq_true, if_false,
    gathered_of_quiet hsound hquiet]

end Report

end Quorum

/-! ### Who is reproducible -/

section Reproducible
variable {R : Type} [DecidableEq R] (N : Floats R) (sha256 hash : String → String)
  (floatRepr : R → Fl Literal) (T : Auth.Texts) (minBindingConfidence : R) (executionId : String)
  (traces : List Auth.SemanticIRTrace) (packets : List Auth.NormalizedTrafficPacket)

/-- What the artifact of a `validate` is made of. -/
def authDump (order : SetOrder) : Option (List (String × Datum R)) :=
  (Auth.validate N order T minBindingConfidence executionId traces packets).map dumpAuthReport

def fsmDump (bounds : Transitions.ValidationBounds) (authReport : Auth.AuthConsistencyReport R)
    (order : SetOrder) : Option (List (String × Datum R)) :=
  some (dumpFsm (Transitions.extractFsm N hash bounds executionId order traces packets
    authReport).1)

def quorumDump (bounds : Quorum.ValidationBounds) (artifacts : List (Quorum.SemanticArtifact N))
    (order : SetOrder) : Option (List (String × Datum R)) :=
  (Quorum.execute N order hash bounds artifacts executionId).map dumpQuorumReport

/-- With the auth report of the same run. -/
def chainedFsmDump (bounds : Transitions.ValidationBounds) (order : SetOrder) :
    Option (List (String × Datum R)) :=
  (Auth.validate N order T minBindingConfidence executionId traces packets).map fun authReport =>
    dumpFsm (Transitions.extractFsm N hash bounds executionId order traces packets authReport).1

/-- Of the first call of the process. No set is iterated in it. -/
def entropyDump (call : Entropy.Call R) (_ : SetOrder) : Option (List (String × Datum R)) :=
  (Entropy.analyze N hash none call).1.map dumpEntropyReport

variable {N sha256 hash floatRepr T minBindingConfidence executionId traces packets}

omit [DecidableEq R] in
theorem auth_reproducible_iff (hsha : Function.Injective sha256) (hreturns : ∃ order,
      (authDump N T minBindingConfidence executionId traces packets order).isSome = true) :
    Reproducible sha256 floatRepr
        (authDump N T minBindingConfidence executionId traces packets) ↔
      Auth.extractEvidence T executionId traces packets = [] := by
  constructor
  · intro hsame
    obtain ⟨order, horder⟩ := hreturns
    obtain ⟨d, hd⟩ := Option.isSome_iff_exists.mp horder
    have htime := timeless_of_reproducible hsha hsame hd
    obtain ⟨r, hr, rfl⟩ := Option.map_eq_some_iff.mp hd
    rw [← evidence_of_validate hr]
    exact ((authReport_time_iff r).mp htime).2.1
  · intro hnone
    refine reproducible_of_timeless sha256 floatRepr fun order₁ order₂ d₁ d₂ h₁ h₂ => ?_
    rw [authDump, validate_of_no_evidence _ hnone, Auth.AuthConsistencyReport.valid?] at h₁ h₂
    refine ⟨Option.some.inj (h₁.symm.trans h₂), ?_⟩
    obtain ⟨r, hr, rfl⟩ := Option.map_eq_some_iff.mp h₁
    split at hr
    · cases hr
      exact (authReport_time_iff _).mpr ⟨rfl, rfl, rfl⟩
    · cases hr

omit [DecidableEq R] in
theorem fsm_reproducible (bounds : Transitions.ValidationBounds)
    (authReport : Auth.AuthConsistencyReport R) :
    Reproducible sha256 floatRepr
      (fsmDump N hash executionId traces packets bounds authReport) := by
  refine reproducible_of_timeless sha256 floatRepr fun order₁ order₂ d₁ d₂ h₁ h₂ => ?_
  cases h₁
  cases h₂
  rw [Transitions.extractFsm_order N hash bounds executionId order₁ order₂]
  exact ⟨rfl, fsm_timeless _⟩

omit [DecidableEq R] in
theorem chainedFsm_reproducible (bounds : Transitions.ValidationBounds) :
    Reproducible sha256 floatRepr
      (chainedFsmDump N hash T minBindingConfidence executionId traces packets bounds) := by
  refine reproducible_of_timeless sha256 floatRepr fun order₁ order₂ d₁ d₂ h₁ h₂ => ?_
  obtain ⟨r₁, hr₁, rfl⟩ := Option.map_eq_some_iff.mp h₁
  obtain ⟨r₂, hr₂, rfl⟩ := Option.map_eq_some_iff.mp h₂
  rw [extractFsm_congr order₁ order₂ hr₁ hr₂]
  exact ⟨rfl, fsm_timeless _⟩

theorem quorum_reproducible_iff (hsha : Function.Injective sha256)
    {bounds : Quorum.ValidationBounds} {artifacts : List (Quorum.SemanticArtifact N)}
    (hreturns : ∃ order, (quorumDump N hash executionId bounds artifacts order).isSome = true) :
    Reproducible sha256 floatRepr (quorumDump N hash executionId bounds artifacts) ↔
      ∃ claims, Quorum.extractClaims N hash artifacts = some claims ∧ Quiet N bounds claims := by
  obtain ⟨order, horder⟩ := hreturns
  obtain ⟨d, hd⟩ := Option.isSome_iff_exists.mp horder
  obtain ⟨report, hreport, rfl⟩ := Option.map_eq_some_iff.mp hd
  have hextracted : ∃ claims, Quorum.extractClaims N hash artifacts = some claims := by
    rw [Quorum.execute] at hreport
    obtain ⟨claims, hclaims, -⟩ := Option.bind_eq_some_iff.mp hreport
    exact ⟨claims, hclaims⟩
  obtain ⟨claims, hclaims⟩ := hextracted
  constructor
  · intro hsame
    have htime := timeless_of_reproducible hsha hsame hd
    exact ⟨claims, hclaims,
      (report_quiet_iff hclaims hreport).mp ((quorumReport_time_iff report).mp htime)⟩
  · rintro ⟨claims', hclaims', hquiet⟩
    refine reproducible_of_timeless sha256 floatRepr fun order₁ order₂ d₁ d₂ h₁ h₂ => ?_
    rw [quorumDump, execute_order_of_quiet hclaims' hquiet order₁ order₂] at h₁
    refine ⟨Option.some.inj (h₁.symm.trans h₂), ?_⟩
    obtain ⟨report', hreport', rfl⟩ := Option.map_eq_some_iff.mp h₁
    exact (quorumReport_time_iff report').mpr ((report_quiet_iff hclaims' hreport').mpr hquiet)

omit [DecidableEq R] in
theorem entropy_not_reproducible (hsha : Function.Injective sha256) {call : Entropy.Call R}
    (hreturns : (Entropy.analyze N hash none call).1.isSome = true) :
    ¬ Reproducible sha256 floatRepr (entropyDump N hash call) := by
  intro hsame
  obtain ⟨r, hr⟩ := Option.isSome_iff_exists.mp hreturns
  have hd : entropyDump N hash call .asBuilt = some (dumpEntropyReport r) := by
    rw [entropyDump, hr, Option.map_some]
  have htime := timeless_of_reproducible hsha hsame hd
  rw [entropyReport_time] at htime
  cases htime

variable (floatRepr) in
/-- **Main theorem.** Which results have one address in all runs, of those that return one. -/
theorem reproducible_iff (hsha : Function.Injective sha256)
    (fsmBounds : Transitions.ValidationBounds) (authReport : Auth.AuthConsistencyReport R)
    (quorumBounds : Quorum.ValidationBounds) (artifacts : List (Quorum.SemanticArtifact N))
    (call : Entropy.Call R) :
    ((∃ order,
        (authDump N T minBindingConfidence executionId traces packets order).isSome = true) →
      (Reproducible sha256 floatRepr
          (authDump N T minBindingConfidence executionId traces packets) ↔
        Auth.extractEvidence T executionId traces packets = [])) ∧
    Reproducible sha256 floatRepr
      (fsmDump N hash executionId traces packets fsmBounds authReport) ∧
    Reproducible sha256 floatRepr
      (chainedFsmDump N hash T minBindingConfidence executionId traces packets fsmBounds) ∧
    ((∃ order, (quorumDump N hash executionId quorumBounds artifacts order).isSome = true) →
      (Reproducible sha256 floatRepr (quorumDump N hash executionId quorumBounds artifacts) ↔
        ∃ claims, Quorum.extractClaims N hash artifacts = some claims ∧
          Quiet N quorumBounds claims)) ∧
    ((Entropy.analyze N hash none call).1.isSome = true →
      ¬ Reproducible sha256 floatRepr (entropyDump N hash call)) :=
  ⟨auth_reproducible_iff hsha, fsm_reproducible fsmBounds authReport,
    chainedFsm_reproducible fsmBounds, quorum_reproducible_iff hsha, entropy_not_reproducible hsha⟩

end Reproducible

/-! ### One packet -/

/-- On ASCII texts without quotes. -/
def asciiTexts : Auth.Texts where
  lower s := String.ofList (s.toList.map Char.toLower)
  strip s := String.ofList (((s.toList.dropWhile (· = ' ')).reverse.dropWhile (· = ' ')).reverse)
  reprPair p := "('" ++ p.1 ++ "', '" ++ p.2 ++ "')"
  hash := id

/-- Six digits behind the point, and no zeros at the end but one. -/
def decimalRepr (q : ℚ) : Fl Literal :=
  let millionths := ⌊|q| * 1000000⌋.toNat
  let digits := (Nat.toDigits 10 (1000000 + millionths % 1000000)).tail
  let fraction := (digits.reverse.dropWhile (· = '0')).reverse
  let text := (if q < 0 then ['-'] else []) ++ Nat.toDigits 10 (millionths / 1000000) ++
    '.' :: if fraction = [] then ['0'] else fraction
  if h : isFloatLiteral text = true then .finite ⟨text, h⟩ else .nan

def bearerPacket : Auth.NormalizedTrafficPacket :=
  { timestamp := 0
    method := "GET"
    uri := "/users"
    rawHeaders := [("Authorization", "Bearer a"), ("Cookie", "session=1")]
    responseStatus := 200
    responseHeaders := []
    packetHash := "p" }

/-- Of one packet with a bearer token. -/
def bearerDump : SetOrder → Option (List (String × Datum ℚ)) :=
  authDump exact asciiTexts (4 / 5) "run" [] [bearerPacket]

theorem bearerDump_returns : (bearerDump .asBuilt).isSome = true := by decide +kernel

theorem bearer_evidence : Auth.extractEvidence asciiTexts "run" [] [bearerPacket] ≠ [] := by
  have hsome : (Auth.extractEvidence asciiTexts "run" [] [bearerPacket]).length ≠ 0 := by
    decide +kernel
  exact fun hnone => hsome (List.length_eq_zero_iff.mpr hnone)

/-- There is evidence in the packet, and there are no artifacts. -/
theorem reproducible_iff_bearer :
    ¬ Reproducible id decimalRepr bearerDump ∧
    Reproducible id decimalRepr (fsmDump exact id "run" [] [bearerPacket] ⟨64, 256, 8, 6⟩
      ⟨"auth", [], [], [], [], 0, 0⟩) ∧
    Reproducible id decimalRepr (chainedFsmDump exact id asciiTexts (4 / 5) "run" []
      [bearerPacket] ⟨64, 256, 8, 6⟩) ∧
    Reproducible id decimalRepr (quorumDump exact id "run" ⟨512, 256, 128⟩ []) ∧
    ¬ Reproducible id decimalRepr (entropyDump exact id (Entropy.callOfOne 0)) := by
  have hquorum : (quorumDump exact id "run" ⟨512, 256, 128⟩ [] .asBuilt).isSome = true := by
    decide +kernel
  have hentropy : (Entropy.analyze exact id none (Entropy.callOfOne 0)).1.isSome = true := by
    decide +kernel
  obtain ⟨hauth, hfsm, hchained, hquiet, hnever⟩ := @reproducible_iff ℚ _ exact id id decimalRepr
    asciiTexts (4 / 5) "run" [] [bearerPacket] Function.injective_id ⟨64, 256, 8, 6⟩
    ⟨"auth", [], [], [], [], 0, 0⟩ ⟨512, 256, 128⟩ [] (Entropy.callOfOne 0)
  have hnoClaims : Quiet exact ⟨512, 256, 128⟩ [] :=
    ⟨by decide, .inl rfl, List.forall_mem_nil _, by decide +kernel⟩
  exact ⟨fun hsame => bearer_evidence ((hauth ⟨.asBuilt, bearerDump_returns⟩).mp hsame), hfsm,
    hchained, (hquiet ⟨.asBuilt, hquorum⟩).mpr ⟨[], rfl, hnoClaims⟩, hnever hentropy⟩

/-- Two runs of it a second apart have two addresses. -/
theorem not_reproducible : ¬ Reproducible id decimalRepr bearerDump := by
  intro hsame
  exact bearer_evidence ((auth_reproducible_iff Function.injective_id
    ⟨.asBuilt, bearerDump_returns⟩).mp hsame)

end PiPlatform.AgentChain.ContentAddress
