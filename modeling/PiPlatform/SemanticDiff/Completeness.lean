import PiPlatform.SemanticDiff.Changes

/-! What a diff without deltas says of two snapshots.

The comparisons see texts of keys and numbers of endpoints, and without traces on either side
nothing is compared. `Exposed` says when all the same a clean diff means that nothing changed. -/
namespace PiPlatform.SemanticDiff

open Library

/-- A snapshot with a graph and auth invariants. -/
structure FullSnapshot (R : Type) where
  traces : List (SemanticIRTrace R)
  graph : DependencyGraph
  auth : List AuthInvariant
  executionId : String
  distinct : (traces.map fun t => (t.method, t.endpointTemplate)).Nodup
  paths : ∀ t ∈ traces, (t.fields.map (·.path)).Nodup

def FullSnapshot.snapshot {R : Type} (s : FullSnapshot R) : Snapshot R :=
  ⟨s.traces, some s.graph, some s.auth, s.executionId⟩

/-! ### What the comparisons see -/

section Seen
variable {R : Type} [Floats R] {b m : SemanticIRTrace R}

/-- No change of the field is reported. -/
def FieldAlike (b m : SemanticField R) : Prop :=
  b.inferredType = m.inferredType ∧ ¬ far b.confidence m.confidence = true

/-- No change of the trace is reported. -/
structure TraceAlike (b m : SemanticIRTrace R) : Prop where
  fields : (fieldMap b.fields).Agrees FieldAlike (fieldMap m.fields)
  mutationClass : b.mutationClass = m.mutationClass
  replayClass : b.replayClass = m.replayClass
  sandboxRequired : b.sandboxRequired = m.sandboxRequired
  productionReplayProhibited : b.productionReplayProhibited = m.productionReplayProhibited

/-- No change of the invariant is reported. -/
structure InvariantAlike (b m : AuthInvariant) : Prop where
  rotationClass : b.rotationClass = m.rotationClass
  affected : b.affectedEndpoints.length = m.affectedEndpoints.length

/-- Alike under the texts of their keys. -/
structure Alike (b m : FullSnapshot R) : Prop where
  traces : (traceMap b.traces).Agrees TraceAlike (traceMap m.traces)
  edges : ∀ k, k ∈ b.graph.edges.map edgeKey ↔ k ∈ m.graph.edges.map edgeKey
  nodes : ∀ n, n ∈ b.graph.nodes ↔ n ∈ m.graph.nodes
  auth : (invariantMap b.auth).Agrees InvariantAlike (invariantMap m.auth)

theorem fieldChanges_eq_nil {b m : List (SemanticField R)} :
    fieldChanges b m = [] ↔ (fieldMap b).Agrees FieldAlike (fieldMap m) := by
  rw [fieldChanges, List.append_eq_nil_iff]
  refine comparedWith_eq_nil fun key bf mf => ?_
  rw [comparedField, List.append_eq_nil_iff, FieldAlike]
  exact and_congr (ite_singleton_eq_nil.trans not_not) ite_singleton_eq_nil

omit [Floats R] in
theorem mutationTransition_iff :
    mutationTransition b m = true ↔ b.mutationClass ≠ m.mutationClass := by
  rw [mutationTransition]
  split_ifs with h
  · exact iff_of_true rfl h.1
  · exact decide_eq_true_iff

omit [Floats R] in
theorem replayTransition_iff :
    replayTransition b m = true ↔ b.replayClass ≠ m.replayClass := by
  rw [replayTransition]
  split_ifs with h
  · exact iff_of_true rfl h.1
  · exact decide_eq_true_iff

theorem comparedEndpoint_eq_nil :
    comparedEndpoint b m = [] ↔ (fieldMap b.fields).Agrees FieldAlike (fieldMap m.fields) ∧
      b.mutationClass = m.mutationClass ∧ b.replayClass = m.replayClass := by
  rw [comparedEndpoint]
  refine ite_singleton_eq_nil.trans ?_
  rw [mutationTransition_iff, replayTransition_iff, not_or, not_or, not_not, not_not, not_not,
    fieldChanges_eq_nil]

omit [Floats R] in
theorem comparedReplay_eq_nil :
    comparedReplay b m = [] ↔ b.replayClass = m.replayClass ∧
      b.sandboxRequired = m.sandboxRequired ∧
      b.productionReplayProhibited = m.productionReplayProhibited := by
  rw [comparedReplay]
  refine ite_singleton_eq_nil.trans ?_
  simp [and_assoc]

theorem endpointChanges_eq_nil {b m : List (SemanticIRTrace R)} :
    endpointChanges b m = [] ∧ replayChanges b m = [] ↔
      (traceMap b).Agrees TraceAlike (traceMap m) := by
  have hendpoints : endpointChanges b m = [] ↔ (traceMap m).Agrees
      (fun mod base => comparedEndpoint base mod = []) (traceMap b) := by
    rw [endpointChanges, List.append_eq_nil_iff, and_comm]
    refine comparedWith_eq_nil ?_
    exact fun _ _ _ => Iff.rfl
  rw [hendpoints]
  constructor
  · intro ⟨hagrees, hreplay⟩
    refine ⟨hagrees.swap.keys, fun k base mod hbase hmod => ?_⟩
    obtain ⟨hfields, hmutation, hclass⟩ :=
      comparedEndpoint_eq_nil.mp (hagrees.values k mod base hmod hbase)
    have hnil := List.flatMap_eq_nil_iff.mp hreplay (k, mod) ((traceMap m).mem_items.mpr hmod)
    rw [hbase] at hnil
    obtain ⟨-, hsandbox, hprohibited⟩ := comparedReplay_eq_nil.mp hnil
    exact ⟨hfields, hmutation, hclass, hsandbox, hprohibited⟩
  · intro h
    refine ⟨⟨h.swap.keys, fun k mod base hmod hbase => ?_⟩,
      List.flatMap_eq_nil_iff.mpr fun p hp => ?_⟩
    · have halike := h.values k base mod hbase hmod
      exact comparedEndpoint_eq_nil.mpr ⟨halike.fields, halike.mutationClass, halike.replayClass⟩
    · obtain ⟨base, hbase, halike⟩ := h.swap.get? ((traceMap m).mem_items.mp hp)
      rw [hbase]
      exact comparedReplay_eq_nil.mpr
        ⟨halike.replayClass, halike.sandboxRequired, halike.productionReplayProhibited⟩

end Seen

theorem nodesWithout_eq_nil {nodes others : List String} :
    nodesWithout nodes others = [] ↔ ∀ n ∈ nodes, n ∈ others := by
  rw [nodesWithout, List.eq_nil_iff_forall_not_mem]
  refine forall_congr' fun n => ?_
  rw [mem_sorted, Finset.mem_sdiff, List.mem_toFinset, List.mem_toFinset, not_and, not_not]

theorem dependencyChanges_eq_nil {b m : DependencyGraph} :
    dependencyChanges b m = [] ↔
      (∀ k, k ∈ b.edges.map edgeKey ↔ k ∈ m.edges.map edgeKey) ∧
        ∀ n, n ∈ b.nodes ↔ n ∈ m.nodes := by
  have hkeys : ∀ (edges : List StateEdge) k,
      (edgeMap edges).contains k = true ↔ k ∈ edges.map edgeKey :=
    fun edges k => Dict.contains_ofList_keyed
  rw [dependencyChanges, List.append_eq_nil_iff, List.append_eq_nil_iff, List.append_eq_nil_iff,
    onlyIn_eq_nil, onlyIn_eq_nil, List.map_eq_nil_iff, List.map_eq_nil_iff, nodesWithout_eq_nil,
    nodesWithout_eq_nil]
  simp only [hkeys]
  constructor
  · rintro ⟨⟨⟨hremoved, hadded⟩, hgone⟩, hnew⟩
    exact ⟨fun k => ⟨hremoved k, hadded k⟩, fun n => ⟨hgone n, hnew n⟩⟩
  · rintro ⟨hedges, hnodes⟩
    exact ⟨⟨⟨fun k => (hedges k).mp, fun k => (hedges k).mpr⟩, fun n => (hnodes n).mp⟩,
      fun n => (hnodes n).mpr⟩

theorem authChanges_eq_nil {b m : List AuthInvariant} :
    authChanges b m = [] ↔ (invariantMap b).Agrees InvariantAlike (invariantMap m) := by
  rw [authChanges, List.append_eq_nil_iff]
  refine comparedWith_eq_nil fun id b m => ?_
  rw [comparedInvariant]
  split_ifs with hrotation hbinding
  · exact iff_of_false (by simp) fun h => hrotation h.rotationClass
  · exact iff_of_false (by simp) fun h => hbinding h.affected
  · exact iff_of_true rfl ⟨not_not.mp hrotation, not_not.mp hbinding⟩

/-! ### Without a bound in the way -/

/-- Bounds at least as large. -/
structure DiffBounds.Within (bounds larger : DiffBounds) : Prop where
  endpoint : bounds.maxEndpointDeltas ≤ larger.maxEndpointDeltas
  dependency : bounds.maxDependencyDeltas ≤ larger.maxDependencyDeltas
  auth : bounds.maxAuthDeltas ≤ larger.maxAuthDeltas
  replay : bounds.maxReplayDeltas ≤ larger.maxReplayDeltas

section Report
variable {R : Type} [Floats R]

/-- Larger bounds find nothing more. -/
def Untruncated (round : R → R) (bounds : DiffBounds) (reportId : String) (b m : Snapshot R) :
    Prop :=
  ∀ larger, bounds.Within larger → diff round larger reportId b m = diff round bounds reportId b m

/-- Room for everything there is to find. -/
def roomFor (b m : FullSnapshot R) : DiffBounds where
  maxEndpointDeltas := endpointRoom b.traces m.traces
  maxDependencyDeltas := dependencyRoom b.graph m.graph
  maxAuthDeltas := authRoom b.auth m.auth
  maxReplayDeltas := (traceMap m.traces).items.length

/-- The deltas of a report are all there are. -/
structure FindsAll (r : SemanticDiffReport R) (b m : FullSnapshot R) : Prop where
  endpoints : r.endpointDeltas = endpointChanges b.traces m.traces
  dependencies : r.dependencyDeltas = dependencyChanges b.graph m.graph
  auth : r.authDeltas = authChanges b.auth m.auth
  replay : r.replaySurfaceDeltas = replayChanges b.traces m.traces

variable {round : R → R} {bounds : DiffBounds} {reportId : String} {b m : FullSnapshot R}

theorem assembleReport_findsAll (h : (roomFor b m).Within bounds) :
    FindsAll (assembleReport round bounds reportId b.snapshot m.snapshot) b m where
  endpoints := computeEndpointDeltas_eq _ _ h.endpoint
  dependencies := computeDependencyDeltas_eq _ _ h.dependency
  auth := computeAuthDeltas_eq _ _ h.auth
  replay := computeReplaySurfaceDeltas_eq _ _ h.replay

theorem diff_of_traces (h : ¬ (b.traces = [] ∧ m.traces = [])) :
    diff round bounds reportId b.snapshot m.snapshot =
      assembleReport round bounds reportId b.snapshot m.snapshot := if_neg h

theorem diff_of_no_traces (h : b.traces = [] ∧ m.traces = []) :
    diff round bounds reportId b.snapshot m.snapshot =
      assembleEmptyReport reportId b.snapshot m.snapshot := if_pos h

theorem Untruncated.findsAll (h : Untruncated round bounds reportId b.snapshot m.snapshot)
    (htraces : ¬ (b.traces = [] ∧ m.traces = [])) :
    FindsAll (diff round bounds reportId b.snapshot m.snapshot) b m := by
  let larger : DiffBounds :=
    ⟨max bounds.maxEndpointDeltas (roomFor b m).maxEndpointDeltas,
      max bounds.maxDependencyDeltas (roomFor b m).maxDependencyDeltas,
      max bounds.maxAuthDeltas (roomFor b m).maxAuthDeltas,
      max bounds.maxReplayDeltas (roomFor b m).maxReplayDeltas⟩
  rw [← h larger ⟨le_max_left .., le_max_left .., le_max_left .., le_max_left ..⟩,
    diff_of_traces htraces]
  exact assembleReport_findsAll
    ⟨le_max_right .., le_max_right .., le_max_right .., le_max_right ..⟩

/-- No delta of any kind. -/
structure Clean (r : SemanticDiffReport R) : Prop where
  endpoints : r.endpointDeltas = []
  dependencies : r.dependencyDeltas = []
  auth : r.authDeltas = []
  replay : r.replaySurfaceDeltas = []

theorem FindsAll.clean_iff {r : SemanticDiffReport R} (h : FindsAll r b m) :
    Clean r ↔ Alike b m := by
  constructor
  · intro hclean
    obtain ⟨hedges, hnodes⟩ :=
      dependencyChanges_eq_nil.mp (h.dependencies.symm.trans hclean.dependencies)
    exact ⟨endpointChanges_eq_nil.mp ⟨h.endpoints.symm.trans hclean.endpoints,
      h.replay.symm.trans hclean.replay⟩, hedges, hnodes,
      authChanges_eq_nil.mp (h.auth.symm.trans hclean.auth)⟩
  · intro halike
    obtain ⟨hendpoints, hreplay⟩ := endpointChanges_eq_nil.mpr halike.traces
    exact ⟨h.endpoints.trans hendpoints,
      h.dependencies.trans (dependencyChanges_eq_nil.mpr ⟨halike.edges, halike.nodes⟩),
      h.auth.trans (authChanges_eq_nil.mpr halike.auth), h.replay.trans hreplay⟩

/-- A clean diff had no traces to compare, or found nothing. -/
theorem clean_diff_iff (h : Untruncated round bounds reportId b.snapshot m.snapshot) :
    Clean (diff round bounds reportId b.snapshot m.snapshot) ↔
      (b.traces = [] ∧ m.traces = []) ∨ Alike b m := by
  by_cases htraces : b.traces = [] ∧ m.traces = []
  · rw [diff_of_no_traces htraces]
    exact iff_of_true ⟨rfl, rfl, rfl, rfl⟩ (Or.inl htraces)
  · rw [(h.findsAll htraces).clean_iff, or_iff_right htraces]

end Report

end PiPlatform.SemanticDiff
