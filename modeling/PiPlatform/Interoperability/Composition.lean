import PiPlatform.Interoperability.CompositionPhases
import PiPlatform.Interoperability.Manifest

/-! Composing a graph of capabilities from an explicit request.

A request is composed or rejected. One that is composed is executable, but for cycles: the
phases leave out what is on a cycle or behind one, and nothing looks whether they left
anything out. -/
namespace PiPlatform.Interoperability.Composition

open Library Relation

inductive TrustTier where
  | untrusted | basic | verified | certified | core
  deriving DecidableEq

def TrustTier.value : TrustTier → String
  | untrusted => "untrusted"
  | basic => "basic"
  | verified => "verified"
  | certified => "certified"
  | core => "core"

structure CompositionNode where
  nodeId : String
  manifestId : String
  trustTierMinimum : TrustTier
  deriving DecidableEq

structure CompositionRequest where
  requestId : String
  nodes : List CompositionNode
  edges : List CompositionEdge
  maxDepth : Int
  maxNodes : Int
  failOnConflict : Bool

inductive CapabilityLifecycleState where
  | published | underReview | verified | admitted | available | deprecated | revoked
  deriving DecidableEq

structure MarketCapabilityListing where
  listingId : String
  manifestId : String
  name : String
  version : String
  capabilityClass : CapabilityClass
  trustTier : TrustTier
  trustScore : Int
  lifecycleState : CapabilityLifecycleState
  dependencies : List String
  reviewReceiptHash : String
  publisherTenantId : String

structure CompositionResult where
  requestId : String
  valid : Bool
  resolvedManifests : List ExtensionManifest
  resolvedEdges : List CompositionEdge
  missingDependencies : List String
  conflictEvidence : List String
  compositionHash : String
  rejectionReason : String
  phaseCount : Nat

/-- `compute_hash` of a listing and of a result. -/
structure Hashes where
  listing : MarketCapabilityListing → String
  result : CompositionResult → String

structure CompositionEngine where
  catalog : Dict String MarketCapabilityListing
  compositionHistory : List CompositionResult

/-! ### Nodes -/

/-- The place in `tier_order`. -/
def TrustTier.rank : TrustTier → Nat
  | untrusted => 0
  | basic => 1
  | verified => 2
  | certified => 3
  | core => 4

def trustTierSatisfies (available minimum : TrustTier) : Bool := minimum.rank ≤ available.rank

def tierToZone : TrustTier → TrustZone
  | .untrusted => .sandboxExperimental
  | .basic => .sandboxExperimental
  | .verified => .governedExtension
  | .certified => .governedExtension
  | .core => .coreTrusted

variable (H : Hashes)

/-- The first listing of the catalog with the manifest of the node. -/
def CompositionEngine.listing (engine : CompositionEngine) (node : CompositionNode) :
    Option MarketCapabilityListing :=
  (engine.catalog.items.map Prod.snd).find? fun listing => listing.manifestId = node.manifestId

def MarketCapabilityListing.manifest (listing : MarketCapabilityListing) : ExtensionManifest where
  extensionId := listing.manifestId
  packageName := listing.name
  packageVersion := listing.version
  packageHash := H.listing listing
  capabilityClass := listing.capabilityClass
  trustZone := tierToZone listing.trustTier
  status := .admitted

def CompositionEngine.resolveNode (engine : CompositionEngine) (node : CompositionNode) :
    Option ExtensionManifest :=
  (engine.listing node).map (·.manifest H)

/-- What the loop over the nodes has gathered. -/
structure Resolution where
  resolvedManifests : List ExtensionManifest
  missingDeps : List String
  conflictEvidence : List String

def trustMismatch (node : CompositionNode) (listing : MarketCapabilityListing) : String :=
  "Trust tier mismatch for " ++ node.nodeId ++ ": available=" ++ listing.trustTier.value ++
    ", required=" ++ node.trustTierMinimum.value

def CompositionRequest.targets (request : CompositionRequest) : List String :=
  request.edges.map (·.targetNodeId)

/-- The loop over the nodes; an error is the reason of a rejection. -/
def CompositionEngine.resolveNodes (engine : CompositionEngine) (request : CompositionRequest) :
    List CompositionNode → Resolution → Except String Resolution
  | [], found => .ok found
  | node :: nodes, found =>
    match engine.resolveNode H node with
    | none =>
      if node.nodeId ∈ request.targets then
        engine.resolveNodes request nodes
          { found with missingDeps := found.missingDeps ++ [node.nodeId] }
      else .error ("Node not found in catalog: " ++ node.nodeId ++ " (manifest_id=" ++
        node.manifestId ++ ")")
    | some manifest =>
      let resolved : Resolution :=
        { found with resolvedManifests := found.resolvedManifests ++ [manifest] }
      match engine.listing node with
      | none => engine.resolveNodes request nodes resolved
      | some listing =>
        if trustTierSatisfies listing.trustTier node.trustTierMinimum then
          engine.resolveNodes request nodes resolved
        else
          let evidence := found.conflictEvidence ++ [trustMismatch node listing]
          if request.failOnConflict then .error (trustMismatch node listing)
          else engine.resolveNodes request nodes { resolved with conflictEvidence := evidence }

/-! ### The request -/

def CompositionRequest.nodeIds (request : CompositionRequest) : List String :=
  request.nodes.map (·.nodeId)

/-- One message for each id that came before. -/
def duplicates : List String → List String → List String
  | _, [] => []
  | seen, id :: ids =>
    (if id ∈ seen then ["Duplicate node_id: " ++ id] else []) ++ duplicates (id :: seen) ids

/-- No nodes, too many, duplicates, and edges to unknown ones. -/
def validateRequest (request : CompositionRequest) : List String :=
  (if request.nodes = [] then ["At least one node required"] else []) ++
  (if request.maxNodes < request.nodes.length then
    ["Nodes " ++ toString request.nodes.length ++ " > max_nodes " ++ toString request.maxNodes]
  else []) ++
  duplicates [] request.nodeIds ++
  request.edges.flatMap fun edge =>
    (if edge.sourceNodeId ∈ request.nodeIds then []
      else ["Edge references unknown source: " ++ edge.sourceNodeId]) ++
    if edge.targetNodeId ∈ request.nodeIds then []
      else ["Edge references unknown target: " ++ edge.targetNodeId]

/-- Required edges with an end outside of the request. -/
def edgeConflicts (request : CompositionRequest) : List String :=
  request.edges.flatMap fun edge =>
    if edge.required then
      (if edge.sourceNodeId ∈ request.nodeIds then []
        else ["Required edge source not in request: " ++ edge.sourceNodeId]) ++
      if edge.targetNodeId ∈ request.nodeIds then []
        else ["Required edge target not in request: " ++ edge.targetNodeId]
    else []

/-! ### Composition -/

def withComputedHash (result : CompositionResult) : CompositionResult :=
  { result with compositionHash := H.result result }

def CompositionEngine.record (engine : CompositionEngine) (result : CompositionResult) :
    CompositionResult × CompositionEngine :=
  let finalResult := withComputedHash H result
  (finalResult, { engine with compositionHistory := engine.compositionHistory ++ [finalResult] })

def CompositionEngine.reject (engine : CompositionEngine) (request : CompositionRequest)
    (reason : String) : CompositionResult × CompositionEngine :=
  engine.record H
    { requestId := request.requestId
      valid := false
      resolvedManifests := []
      resolvedEdges := []
      missingDependencies := []
      conflictEvidence := []
      compositionHash := ""
      rejectionReason := reason
      phaseCount := 0 }

/-- Validation, resolution, conflicts and phases, each of which may reject. -/
def CompositionEngine.compose (engine : CompositionEngine) (request : CompositionRequest) :
    CompositionResult × CompositionEngine :=
  let errors := validateRequest request
  if errors ≠ [] then
    engine.reject H request ("Validation failed: " ++ "; ".intercalate errors)
  else
    match engine.resolveNodes H request request.nodes ⟨[], [], []⟩ with
    | .error reason => engine.reject H request reason
    | .ok found =>
      if request.maxNodes < found.resolvedManifests.length then
        engine.reject H request ("Node count " ++ toString found.resolvedManifests.length ++
          " exceeds max " ++ toString request.maxNodes)
      else
        let conflictEvidence := found.conflictEvidence ++ edgeConflicts request
        if conflictEvidence ≠ [] ∧ request.failOnConflict then
          engine.reject H request ("Conflicts detected: " ++ "; ".intercalate conflictEvidence)
        else
          match (composed request.nodeIds request.edges).phases request.maxDepth with
          | none => engine.reject H request ("Exceeds max depth " ++ toString request.maxDepth)
          | some phases =>
            engine.record H
              { requestId := request.requestId
                valid := true
                resolvedManifests := found.resolvedManifests
                resolvedEdges := request.edges
                missingDependencies := found.missingDeps
                conflictEvidence := conflictEvidence
                compositionHash := ""
                rejectionReason := ""
                phaseCount := phases }

/-! ### What a composition is for -/

/-- `n` is the number of nodes on a longest path. -/
def CompositionRequest.Longest (request : CompositionRequest) (n : Nat) : Prop :=
  (∃ path ⊆ request.nodeIds, path.IsChain (DependsOn request.edges) ∧ path.length = n) ∧
    ∀ path ⊆ request.nodeIds, path.IsChain (DependsOn request.edges) → path.length ≤ n

/-- What a composition that is accepted can be relied on for. -/
structure Executable (engine : CompositionEngine) (request : CompositionRequest)
    (result : CompositionResult) : Prop where
  acyclic : ∀ u, ¬ TransGen (DependsOn request.edges) u u
  longest : request.Longest result.phaseCount
  depth : result.phaseCount ≤ request.maxDepth
  /-- Every node has a manifest, of a listing that is trusted enough, or it is missing. -/
  resolved : ∀ node ∈ request.nodes,
    (∃ id listing, engine.catalog.get? id = some listing ∧
      listing.manifestId = node.manifestId ∧ listing.manifest H ∈ result.resolvedManifests ∧
      (request.failOnConflict = true →
        trustTierSatisfies listing.trustTier node.trustTierMinimum)) ∨
    node.nodeId ∈ result.missingDependencies

/-- The request is sound, but for cycles. -/
structure WellFormed (request : CompositionRequest) : Prop where
  nodes : request.nodes ≠ []
  room : request.nodes.length ≤ request.maxNodes
  distinct : request.nodeIds.Nodup
  edges : EdgesIn request.nodeIds request.edges

/-- A node that has no listing is the target of an edge; one that has is trusted enough, if
conflicts are to fail. -/
def Resolvable (engine : CompositionEngine) (request : CompositionRequest)
    (node : CompositionNode) : Prop :=
  (engine.listing node = none → node.nodeId ∈ request.targets) ∧
    ∀ listing ∈ engine.listing node, request.failOnConflict = true →
      trustTierSatisfies listing.trustTier node.trustTierMinimum

/-- Nothing but a cycle speaks against the request. -/
structure Admissible (engine : CompositionEngine) (request : CompositionRequest) : Prop where
  wellFormed : WellFormed request
  resolvable : ∀ node ∈ request.nodes, Resolvable engine request node
  /-- Paths to nodes with no cycle behind them are not too long. -/
  shallow : ∀ path v, v ∈ request.nodeIds → Grounded (DependsOn request.edges) v →
    (path ++ [v]).IsChain (DependsOn request.edges) →
    ((path ++ [v]).length : Int) ≤ request.maxDepth

/-! ### Requests and nodes -/

section Requests
variable {H} {engine : CompositionEngine} {request : CompositionRequest}

theorem duplicates_eq_nil_iff {seen ids : List String} :
    duplicates seen ids = [] ↔ ids.Nodup ∧ ∀ id ∈ ids, id ∉ seen := by
  induction ids generalizing seen with
  | nil => simp [duplicates]
  | cons id ids ih =>
    by_cases hseen : id ∈ seen
    · simp [duplicates, hseen]
    · rw [duplicates, if_neg hseen, List.nil_append, ih, List.nodup_cons]
      constructor
      · rintro ⟨hnodup, hnew⟩
        refine ⟨⟨fun hmem => hnew id hmem (List.mem_cons_self ..), hnodup⟩, ?_⟩
        rw [List.forall_mem_cons]
        exact ⟨hseen, fun other hother hmem => hnew other hother (List.mem_cons_of_mem _ hmem)⟩
      · rintro ⟨⟨hnew, hnodup⟩, hall⟩
        rw [List.forall_mem_cons] at hall
        refine ⟨hnodup, fun other hother hmem => ?_⟩
        rcases List.mem_cons.mp hmem with rfl | hmem
        · exact hnew hother
        · exact hall.2 other hother hmem

theorem validateRequest_eq_nil_iff : validateRequest request = [] ↔ WellFormed request := by
  simp only [validateRequest, List.append_eq_nil_iff, duplicates_eq_nil_iff,
    List.flatMap_eq_nil_iff, ite_eq_left_iff, ite_eq_right_iff, List.cons_ne_nil,
    imp_false, not_not, Int.not_lt]
  constructor
  · rintro ⟨⟨⟨hnodes, hroom⟩, hdistinct, -⟩, hedges⟩
    exact ⟨hnodes, hroom, hdistinct, hedges⟩
  · rintro ⟨hnodes, hroom, hdistinct, hedges⟩
    exact ⟨⟨⟨hnodes, hroom⟩, hdistinct, fun _ _ => List.not_mem_nil⟩, hedges⟩

theorem WellFormed.edgeConflicts (h : WellFormed request) : edgeConflicts request = [] := by
  refine List.flatMap_eq_nil_iff.mpr fun edge hedge => ?_
  obtain ⟨hsource, htarget⟩ := h.edges edge hedge
  rw [if_pos hsource, if_pos htarget]
  exact ite_self _

/-- What the loop over the nodes adds. -/
structure Resolves (H : Hashes) (engine : CompositionEngine) (request : CompositionRequest)
    (nodes : List CompositionNode) (found found' : Resolution) : Prop where
  length : found'.resolvedManifests.length ≤ found.resolvedManifests.length + nodes.length
  manifests : found.resolvedManifests ⊆ found'.resolvedManifests
  missing : found.missingDeps ⊆ found'.missingDeps
  evidence : request.failOnConflict = true → found'.conflictEvidence = found.conflictEvidence
  nodes : ∀ node ∈ nodes, (∃ listing ∈ engine.listing node,
    listing.manifest H ∈ found'.resolvedManifests) ∨ node.nodeId ∈ found'.missingDeps

/-- The loop goes on past a node that can be resolved. -/
theorem resolveNodes_next {node : CompositionNode} (h : Resolvable engine request node)
    (nodes : List CompositionNode) (found : Resolution) :
    ∃ found', engine.resolveNodes H request (node :: nodes) found =
        engine.resolveNodes H request nodes found' ∧
      Resolves H engine request [node] found found' := by
  obtain ⟨hmissing, htrusted⟩ := h
  cases hlisting : engine.listing node with
  | none =>
    have hnone : engine.resolveNode H node = none := by
      rw [CompositionEngine.resolveNode, hlisting]
      rfl
    refine ⟨{ found with missingDeps := found.missingDeps ++ [node.nodeId] }, ?_, ?_⟩
    · rw [CompositionEngine.resolveNodes, hnone]
      exact if_pos (hmissing hlisting)
    · refine ⟨Nat.le_add_right _ _, fun _ => id, List.subset_append_left .., fun _ => rfl, ?_⟩
      rw [List.forall_mem_singleton]
      exact .inr (List.mem_append_right _ (List.mem_singleton_self _))
  | some listing =>
    have hsome : engine.resolveNode H node = some (listing.manifest H) := by
      rw [CompositionEngine.resolveNode, hlisting]
      rfl
    have hresolved : ∀ evidence : List String,
        (request.failOnConflict = true → evidence = found.conflictEvidence) →
        Resolves H engine request [node] found
          ⟨found.resolvedManifests ++ [listing.manifest H], found.missingDeps, evidence⟩ := by
      intro evidence hevidence
      refine ⟨by simp, List.subset_append_left .., fun _ => id, hevidence, ?_⟩
      rw [List.forall_mem_singleton]
      exact .inl ⟨listing, hlisting, List.mem_append_right _ (List.mem_singleton_self _)⟩
    by_cases hsatisfies : trustTierSatisfies listing.trustTier node.trustTierMinimum = true
    · refine ⟨_, ?_, hresolved found.conflictEvidence fun _ => rfl⟩
      rw [CompositionEngine.resolveNodes, hsome]
      simp only [hlisting, if_pos hsatisfies]
    · have hlenient : ¬ request.failOnConflict = true := fun hfail =>
        hsatisfies (htrusted listing hlisting hfail)
      refine ⟨_, ?_, hresolved (found.conflictEvidence ++ [trustMismatch node listing])
        fun hfail => absurd hfail hlenient⟩
      rw [CompositionEngine.resolveNodes, hsome]
      simp only [hlisting, if_neg hsatisfies, if_neg hlenient]

/-- It stops at any other. -/
theorem resolveNodes_stop {node : CompositionNode} (h : ¬ Resolvable engine request node)
    (nodes : List CompositionNode) (found : Resolution) :
    ∃ reason, engine.resolveNodes H request (node :: nodes) found = .error reason := by
  cases hlisting : engine.listing node with
  | none =>
    have hnone : engine.resolveNode H node = none := by
      rw [CompositionEngine.resolveNode, hlisting]
      rfl
    have huntargeted : ¬ node.nodeId ∈ request.targets := fun htarget =>
      h ⟨fun _ => htarget, by simp [hlisting]⟩
    rw [CompositionEngine.resolveNodes, hnone]
    exact ⟨_, if_neg huntargeted⟩
  | some listing =>
    have hsome : engine.resolveNode H node = some (listing.manifest H) := by
      rw [CompositionEngine.resolveNode, hlisting]
      rfl
    have huntrusted : request.failOnConflict = true ∧
        ¬ trustTierSatisfies listing.trustTier node.trustTierMinimum = true := by
      by_contra htrusted
      refine h ⟨by simp [hlisting], fun listing' hlisting' hfail => ?_⟩
      obtain rfl := Option.some.inj (hlisting.symm.trans hlisting')
      by_contra hsatisfies
      exact htrusted ⟨hfail, hsatisfies⟩
    rw [CompositionEngine.resolveNodes, hsome]
    simp only [hlisting, if_neg huntrusted.2, if_pos huntrusted.1]
    exact ⟨_, rfl⟩

theorem Resolves.trans {nodes nodes' : List CompositionNode} {found found' found'' : Resolution}
    (h : Resolves H engine request nodes found found')
    (h' : Resolves H engine request nodes' found' found'') :
    Resolves H engine request (nodes ++ nodes') found found'' where
  length := by
    have hlength := h.length
    have hlength' := h'.length
    rw [List.length_append]
    omega
  manifests := fun _ hm => h'.manifests (h.manifests hm)
  missing := fun _ hm => h'.missing (h.missing hm)
  evidence hfail := (h'.evidence hfail).trans (h.evidence hfail)
  nodes node hnode := by
    rcases List.mem_append.mp hnode with hnode | hnode
    · refine (h.nodes node hnode).imp ?_ fun hm => h'.missing hm
      rintro ⟨listing, hlisting, hm⟩
      exact ⟨listing, hlisting, h'.manifests hm⟩
    · exact h'.nodes node hnode

theorem resolveNodes_ok {nodes : List CompositionNode}
    (h : ∀ node ∈ nodes, Resolvable engine request node) (found : Resolution) :
    ∃ found', engine.resolveNodes H request nodes found = .ok found' ∧
      Resolves H engine request nodes found found' := by
  induction nodes generalizing found with
  | nil => exact ⟨found, rfl, ⟨Nat.le_refl _, fun _ => id, fun _ => id, fun _ => rfl, nofun⟩⟩
  | cons node nodes ih =>
    obtain ⟨hnode, hnodes⟩ := List.forall_mem_cons.mp h
    obtain ⟨next, hnext, hresolves⟩ := resolveNodes_next (H := H) hnode nodes found
    obtain ⟨found', hfound, hresolves'⟩ := ih hnodes next
    exact ⟨found', hnext.trans hfound, hresolves.trans hresolves'⟩

theorem resolveNodes_error {nodes : List CompositionNode}
    (h : ¬ ∀ node ∈ nodes, Resolvable engine request node) (found : Resolution) :
    ∃ reason, engine.resolveNodes H request nodes found = .error reason := by
  induction nodes generalizing found with
  | nil => exact absurd nofun h
  | cons node nodes ih =>
    by_cases hnode : Resolvable engine request node
    · obtain ⟨next, hnext, -⟩ := resolveNodes_next (H := H) hnode nodes found
      rw [hnext]
      exact ih (fun hnodes => h (List.forall_mem_cons.mpr ⟨hnode, hnodes⟩)) next
    · exact resolveNodes_stop hnode nodes found

/-! ### Composition -/

theorem sources_mem (h : EdgesIn request.nodeIds request.edges) (u v : String)
    (huv : DependsOn request.edges u v) : u ∈ request.nodeIds := (huv.mem h).1

/-- Paths that are not too long get phases. -/
theorem phases_isSome_iff (hedges : EdgesIn request.nodeIds request.edges) :
    ((composed request.nodeIds request.edges).phases request.maxDepth).isSome = true ↔
      ∀ path v, v ∈ request.nodeIds → Grounded (DependsOn request.edges) v →
        (path ++ [v]).IsChain (DependsOn request.edges) →
        ((path ++ [v]).length : Int) ≤ request.maxDepth := by
  have hends := phases_ends hedges request.maxDepth
  cases hphases : (composed request.nodeIds request.edges).phases request.maxDepth with
  | none =>
    refine iff_of_false Bool.false_ne_true fun hshallow => ?_
    rw [hphases] at hends
    obtain ⟨v, hv, hwithin, hdeep⟩ := hends
    obtain ⟨path, hlong⟩ := not_forall.mp hdeep
    obtain ⟨hpath, hlong⟩ := Classical.not_imp.mp hlong
    have hlength := hshallow path v hv hwithin.grounded hpath
    rw [List.length_append, List.length_singleton] at hlength
    omega
  | some last =>
    refine iff_of_true rfl fun path v hv hgrounded hpath => ?_
    rw [hphases] at hends
    obtain ⟨-, hdepth, hsaturated, -⟩ := hends
    have hwithin := hgrounded.within (sources_mem hedges) hv
    have hlength := Within.of_saturated (sources_mem hedges) hsaturated _ hv hwithin path hpath
    rw [List.length_append, List.length_singleton]
    omega

/-- Without a cycle the phases are the nodes of a longest path. -/
theorem WellFormed.longest (h : WellFormed request)
    (hacyclic : ∀ u, ¬ TransGen (DependsOn request.edges) u u) {last : Nat}
    (hphases : (composed request.nodeIds request.edges).phases request.maxDepth = some last) :
    request.Longest last ∧ last ≤ request.maxDepth := by
  have hends := phases_ends h.edges request.maxDepth
  rw [hphases] at hends
  obtain ⟨-, hdepth, hsaturated, hreached⟩ := hends
  have hall : ∀ v ∈ request.nodeIds, Within (DependsOn request.edges) last v := by
    intro v hv
    have hgrounded : Grounded (DependsOn request.edges) v := fun u hcycle =>
      absurd hcycle (hacyclic u)
    exact Within.of_saturated (sources_mem h.edges) hsaturated _ hv
      (hgrounded.within (sources_mem h.edges) hv)
  have hpos : 0 < last := by
    obtain ⟨node, hnode⟩ := List.exists_mem_of_ne_nil _ h.nodes
    refine Nat.pos_of_ne_zero fun hzero => ?_
    subst hzero
    exact not_within_zero _ (hall node.nodeId (List.mem_map_of_mem hnode))
  refine ⟨⟨?_, fun path hsubset hpath => ?_⟩, by omega⟩
  · obtain ⟨v, hv, hwithin, hdeep⟩ := hreached hpos
    obtain ⟨path, hlong⟩ := not_forall.mp hdeep
    obtain ⟨hpath, hlong⟩ := Classical.not_imp.mp hlong
    refine ⟨path ++ [v], subset_of_isChain (sources_mem h.edges) hv hpath, hpath, ?_⟩
    have hlength := hwithin path hpath
    rw [List.length_append, List.length_singleton]
    omega
  · rcases List.eq_nil_or_concat path with rfl | ⟨path, v, rfl⟩
    · exact Nat.zero_le _
    · rw [List.concat_eq_append] at hsubset hpath ⊢
      have hlength := hall v (hsubset (by simp)) path hpath
      rw [List.length_append, List.length_singleton]
      omega

/-- What an admissible request is composed to. -/
theorem Admissible.compose (h : Admissible engine request) :
    ∃ found last, Resolves H engine request request.nodes ⟨[], [], []⟩ found ∧
      (composed request.nodeIds request.edges).phases request.maxDepth = some last ∧
      (engine.compose H request).1 = withComputedHash H
        { requestId := request.requestId
          valid := true
          resolvedManifests := found.resolvedManifests
          resolvedEdges := request.edges
          missingDependencies := found.missingDeps
          conflictEvidence := found.conflictEvidence ++ edgeConflicts request
          compositionHash := ""
          rejectionReason := ""
          phaseCount := last } := by
  obtain ⟨found, hfound, hresolves⟩ := resolveNodes_ok (H := H) h.resolvable ⟨[], [], []⟩
  obtain ⟨last, hphases⟩ := Option.isSome_iff_exists.mp
    ((phases_isSome_iff h.wellFormed.edges).mpr h.shallow)
  refine ⟨found, last, hresolves, hphases, ?_⟩
  have herrors := validateRequest_eq_nil_iff.mpr h.wellFormed
  have hroom : ¬ request.maxNodes < found.resolvedManifests.length := by
    have hlength := hresolves.length
    have hnodes := h.wellFormed.room
    simp only [List.length_nil] at hlength
    omega
  have hconflicts : ¬ (found.conflictEvidence ++ edgeConflicts request ≠ [] ∧
      request.failOnConflict = true) := by
    rintro ⟨hsome, hfail⟩
    rw [hresolves.evidence hfail, h.wellFormed.edgeConflicts] at hsome
    exact hsome rfl
  simp only [CompositionEngine.compose, herrors, hfound, if_neg hroom, if_neg hconflicts, hphases]
  rfl

theorem valid_iff : (engine.compose H request).1.valid = true ↔ Admissible engine request := by
  constructor
  · intro hvalid
    simp only [CompositionEngine.compose] at hvalid
    split at hvalid
    · cases hvalid
    · next herrors =>
      have hwellFormed := validateRequest_eq_nil_iff.mp (not_not.mp herrors)
      by_cases hresolvable : ∀ node ∈ request.nodes, Resolvable engine request node
      · refine ⟨hwellFormed, hresolvable, (phases_isSome_iff hwellFormed.edges).mp ?_⟩
        obtain ⟨found, hfound, -⟩ := resolveNodes_ok (H := H) hresolvable ⟨[], [], []⟩
        rw [hfound] at hvalid
        simp only at hvalid
        split_ifs at hvalid
        · cases hvalid
        · cases hvalid
        · cases hphases : (composed request.nodeIds request.edges).phases request.maxDepth with
          | none =>
            rw [hphases] at hvalid
            cases hvalid
          | some last => rfl
      · obtain ⟨reason, hreason⟩ := resolveNodes_error (H := H) hresolvable ⟨[], [], []⟩
        rw [hreason] at hvalid
        cases hvalid
  · intro h
    obtain ⟨found, last, -, -, hresult⟩ := h.compose (H := H)
    rw [hresult]
    rfl

end Requests

/-- Composed graphs are executable exactly for requests that have no cycle or are rejected
for another reason. -/
theorem composed_executable_iff (engine : CompositionEngine) (request : CompositionRequest) :
    ((engine.compose H request).1.valid = true →
      Executable H engine request (engine.compose H request).1) ↔
    (Admissible engine request → ∀ u, ¬ TransGen (DependsOn request.edges) u u) := by
  rw [valid_iff]
  refine forall_congr' fun hadmissible => ⟨Executable.acyclic, fun hacyclic => ?_⟩
  obtain ⟨found, last, hresolves, hphases, hresult⟩ := hadmissible.compose (H := H)
  obtain ⟨hlongest, hdepth⟩ := hadmissible.wellFormed.longest hacyclic hphases
  rw [hresult]
  refine ⟨hacyclic, hlongest, hdepth, fun node hnode => ?_⟩
  refine (hresolves.nodes node hnode).imp ?_ id
  rintro ⟨listing, hlisting, hmanifest⟩
  have hfound : (engine.catalog.items.map Prod.snd).find?
      (fun listing => decide (listing.manifestId = node.manifestId)) = some listing := hlisting
  obtain ⟨p, hp, rfl⟩ := List.mem_map.mp (List.mem_of_find?_eq_some hfound)
  exact ⟨p.1, p.2, engine.catalog.mem_items.mp hp, by simpa using List.find?_some hfound,
    hmanifest, (hadmissible.resolvable node hnode).2 p.2 hlisting⟩

/-! ### Two nodes that depend on each other -/

def plainHashes : Hashes := ⟨fun listing => listing.listingId, fun result => result.requestId⟩

def linter : MarketCapabilityListing where
  listingId := "l1"
  manifestId := "linter"
  name := "linter"
  version := "1.0.0"
  capabilityClass := .staticAnalyzer
  trustTier := .verified
  trustScore := 0
  lifecycleState := .available
  dependencies := []
  reviewReceiptHash := ""
  publisherTenantId := "acme"

def marketplace : CompositionEngine := ⟨Dict.empty.set "l1" linter, []⟩

def circular : CompositionRequest where
  requestId := "r1"
  nodes := [⟨"a", "linter", .basic⟩, ⟨"b", "linter", .basic⟩]
  edges := [⟨"a", "b", "depends_on", true⟩, ⟨"b", "a", "depends_on", true⟩]
  maxDepth := 5
  maxNodes := 50
  failOnConflict := true

/-- The request is composed, in no phase at all. -/
theorem circular_composed :
    ¬ ((marketplace.compose plainHashes circular).1.valid = true →
      Executable plainHashes marketplace circular
        (marketplace.compose plainHashes circular).1) := by
  intro h
  have hexecutable := h (by decide +kernel)
  have hab : DependsOn circular.edges "a" "b" := ⟨⟨"a", "b", "depends_on", true⟩, by decide⟩
  have hba : DependsOn circular.edges "b" "a" := ⟨⟨"b", "a", "depends_on", true⟩, by decide⟩
  exact hexecutable.acyclic "a" ((TransGen.single hab).tail hba)

end PiPlatform.Interoperability.Composition
