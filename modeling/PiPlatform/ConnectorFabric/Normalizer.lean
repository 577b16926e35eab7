import PiPlatform.Library.Python.Canonical
import PiPlatform.Library.StableSort

/-! The artifact normalizer, and the order of what it is given.

Each list is sorted by the text of one field, equal texts in the order they came, and every record
read back from its canonical JSON. So a listing in another order gives the same artifact exactly
when records with one such text are the same (`order_hidden_iff`). -/
namespace PiPlatform.ConnectorFabric.Normalizer

open Library Library.Json Library.Python

variable {F : Type}

/-- A raw record: a JSON dictionary. -/
structure Record (F : Type) where
  items : List (Key × PyValue F)
  json : (PyValue.dict items).json = true

def Record.value (r : Record F) : PyValue F := .dict r.items

structure NormalizedArtifact (F : Type) where
  artifactId : String
  artifactFamily : String
  artifactSchemaVersion : String
  sourceSystem : String
  connectorId : String
  connectorVersion : String
  tenantId : String
  correlationId : String
  payload : PyValue F
  provenance : List (PyValue F)
  artifactHash : String

/-- The arguments of a normalizer besides its lists. -/
structure Args where
  sourceSystem : String
  connectorId : String
  connectorVersion : String
  tenantId : String
  correlationId : String

/-- A list of an artifact: where its length and itself stand in the payload, and the field it is
sorted by. -/
structure Section (F : Type) where
  countName : String
  listName : String
  sortField : String
  records : List (Record F)

def text (s : String) : PyValue F := .str (ofString s)

def dict (items : List (String × PyValue F)) : PyValue F :=
  .dict (items.map fun p => (.str (ofString p.1), p.2))

section Model
variable [FloatCodec F] [SetText F] (sha256 : String → String) (str : PyValue F → Text)

/-- The text a record is sorted by; `str` is Python's, of values that are not strings. -/
def sortKey (key : String) (r : Record F) : Text :=
  match lookupItem (.str (ofString key)) r.items with
  | none => []
  | some .none => []
  | some (.str s) => s
  | some v => str v

/-- `json.loads(json.dumps(item, sort_keys=True, separators=(",", ":"), default=str))` -/
def reread (v : PyValue F) : Except PyError (PyValue F) := do loads (← dumps .compact v)

def canonicalizeList (items : List (Record F)) (key : String) : Except PyError (List (PyValue F)) :=
  (sortBy (sortKey str key) items).mapM fun item => reread item.value

def canonicalizeId (system nmspace name tenant : String) : String :=
  String.ofList
    ((sha256 (tenant ++ "/" ++ system ++ "/" ++ nmspace ++ "/" ++ name)).toList.take 32)

/-- `NormalizedArtifact.__post_init__`, of an artifact that has no hash yet. -/
def computeHash (a : NormalizedArtifact F) : Except PyError String := do
  let payload ← dumps .compact a.payload
  let provenance ← a.provenance.mapM (dumps .compact)
  let canonical := dict
    [("artifact_id", text a.artifactId), ("artifact_family", text a.artifactFamily),
      ("artifact_schema_version", text a.artifactSchemaVersion),
      ("source_system", text a.sourceSystem), ("connector_id", text a.connectorId),
      ("connector_version", text a.connectorVersion), ("tenant_id", text a.tenantId),
      ("payload", text payload), ("provenance", .list (provenance.map text))]
  return sha256 (← dumps .compact (canonical : PyValue F))

/-- What the normalizers have in common. -/
def normalize (nmspace artifactFamily : String) (provenance : List (PyValue F))
    (sections : List (Section F)) (args : Args) : Except PyError (NormalizedArtifact F) := do
  let lists ← sections.mapM fun s => canonicalizeList str s.records s.sortField
  let payload := dict
    ((sections.zip lists).map (fun p => (p.1.countName, .int p.2.length)) ++
      (sections.zip lists).map fun p => (p.1.listName, .list p.2))
  let artifact : NormalizedArtifact F :=
    { artifactId := canonicalizeId sha256 args.sourceSystem nmspace args.correlationId args.tenantId
      artifactFamily := artifactFamily
      artifactSchemaVersion := "1.0.0"
      sourceSystem := args.sourceSystem
      connectorId := args.connectorId
      connectorVersion := args.connectorVersion
      tenantId := args.tenantId
      correlationId := args.correlationId
      payload := payload
      provenance := provenance
      artifactHash := "" }
  return { artifact with artifactHash := ← computeHash sha256 artifact }

def normalizeTopology (nodes edges : List (Record F)) (args : Args) :
    Except PyError (NormalizedArtifact F) :=
  normalize sha256 str "topology" "TopologyArtifact"
    [dict [("step", text "ingestion"), ("source", text args.sourceSystem),
        ("connector", text args.connectorId)],
      dict [("step", text "normalization"), ("nodes_raw", .int nodes.length),
        ("edges_raw", .int edges.length)]]
    [⟨"node_count", "nodes", "id", nodes⟩, ⟨"edge_count", "edges", "from", edges⟩] args

def normalizeIdentityGraph (identities relationships : List (Record F)) (args : Args) :
    Except PyError (NormalizedArtifact F) :=
  normalize sha256 str "identity" "IdentityGraphArtifact"
    [dict [("step", text "ingestion"), ("source", text args.sourceSystem)],
      dict [("step", text "normalization")]]
    [⟨"identity_count", "identities", "arn", identities⟩,
      ⟨"relationship_count", "relationships", "from", relationships⟩] args

/-- The provenance of the normalizers of one list. -/
def steps : List (PyValue F) :=
  [dict [("step", text "ingestion")], dict [("step", text "normalization")]]

def normalizeDependencyGraph (dependencies : List (Record F)) (args : Args) :
    Except PyError (NormalizedArtifact F) :=
  normalize sha256 str "dependency" "DependencyGraphArtifact" steps
    [⟨"dependency_count", "dependencies", "from", dependencies⟩] args

def normalizeTraceTopology (spans : List (Record F)) (args : Args) :
    Except PyError (NormalizedArtifact F) :=
  normalize sha256 str "trace" "TraceTopologyArtifact" steps
    [⟨"span_count", "spans", "span_id", spans⟩] args

def normalizeInfrastructureState (resources : List (Record F)) (args : Args) :
    Except PyError (NormalizedArtifact F) :=
  normalize sha256 str "state" "InfrastructureStateArtifact" steps
    [⟨"resource_count", "resources", "id", resources⟩] args

def normalizeDeploymentLineage (deployments : List (Record F)) (args : Args) :
    Except PyError (NormalizedArtifact F) :=
  normalize sha256 str "lineage" "DeploymentLineageArtifact" steps
    [⟨"deployment_count", "deployments", "id", deployments⟩] args

def normalizeSecurityEvent (events : List (Record F)) (args : Args) :
    Except PyError (NormalizedArtifact F) :=
  normalize sha256 str "security" "SecurityEventArtifact" steps
    [⟨"event_count", "events", "event_id", events⟩] args

/-! ### Listings -/

/-- The lists a normalizer is called with. -/
inductive Listing (F : Type) where
  | topology (nodes edges : List (Record F))
  | identityGraph (identities relationships : List (Record F))
  | dependencyGraph (dependencies : List (Record F))
  | traceTopology (spans : List (Record F))
  | infrastructureState (resources : List (Record F))
  | deploymentLineage (deployments : List (Record F))
  | securityEvent (events : List (Record F))

def Listing.normalize : Listing F → Args → Except PyError (NormalizedArtifact F)
  | topology nodes edges => normalizeTopology sha256 str nodes edges
  | identityGraph identities relationships =>
    normalizeIdentityGraph sha256 str identities relationships
  | dependencyGraph dependencies => normalizeDependencyGraph sha256 str dependencies
  | traceTopology spans => normalizeTraceTopology sha256 str spans
  | infrastructureState resources => normalizeInfrastructureState sha256 str resources
  | deploymentLineage deployments => normalizeDeploymentLineage sha256 str deployments
  | securityEvent events => normalizeSecurityEvent sha256 str events

/-- The same records in another order. -/
inductive Listing.Rearranges : Listing F → Listing F → Prop where
  | topology {nodes edges nodes' edges' : List (Record F)} :
    nodes.Perm nodes' ∧ edges.Perm edges' →
    Rearranges (.topology nodes edges) (.topology nodes' edges')
  | identityGraph {identities relationships identities' relationships' : List (Record F)} :
    identities.Perm identities' ∧ relationships.Perm relationships' →
    Rearranges (.identityGraph identities relationships)
      (.identityGraph identities' relationships')
  | dependencyGraph {dependencies dependencies' : List (Record F)} :
    dependencies.Perm dependencies' →
    Rearranges (.dependencyGraph dependencies) (.dependencyGraph dependencies')
  | traceTopology {spans spans' : List (Record F)} : spans.Perm spans' →
    Rearranges (.traceTopology spans) (.traceTopology spans')
  | infrastructureState {resources resources' : List (Record F)} : resources.Perm resources' →
    Rearranges (.infrastructureState resources) (.infrastructureState resources')
  | deploymentLineage {deployments deployments' : List (Record F)} :
    deployments.Perm deployments' →
    Rearranges (.deploymentLineage deployments) (.deploymentLineage deployments')
  | securityEvent {events events' : List (Record F)} : events.Perm events' →
    Rearranges (.securityEvent events) (.securityEvent events')

/-- Records with one text in the field they are sorted by are the same. -/
def Tied (key : String) (records : List (Record F)) : Prop :=
  ∀ r ∈ records, ∀ r' ∈ records, sortKey str key r = sortKey str key r' → r.value.same r'.value

def Listing.Unordered : Listing F → Prop
  | topology nodes edges => Tied str "id" nodes ∧ Tied str "from" edges
  | identityGraph identities relationships =>
    Tied str "arn" identities ∧ Tied str "from" relationships
  | dependencyGraph dependencies => Tied str "from" dependencies
  | traceTopology spans => Tied str "span_id" spans
  | infrastructureState resources => Tied str "id" resources
  | deploymentLineage deployments => Tied str "id" deployments
  | securityEvent events => Tied str "event_id" events

/-- Payload and hash, or the error. -/
def outcome (result : Except PyError (NormalizedArtifact F)) :
    Except PyError (PyValue F × String) :=
  result.map fun a => (a.payload, a.artifactHash)

end Model

/-! ### Records read back -/

section Rereading
variable [FloatCodec F] [SetText F] {r r' : Record F}

/-- A record as it stands in the payload. -/
def Record.canonical (r : Record F) : PyValue F :=
  match reread r.value with
  | .ok v => v
  | .error _ => r.value

theorem reread_eq (r : Record F) :
    reread r.value = .ok r.canonical ∧ r.canonical.json = true ∧ r.value.same r.canonical := by
  obtain ⟨t, ht, hsame⟩ := same_reread r.value r.json
  have hloads : loads (String.ofList (t.render .compact)) = .ok (load t.join) := by
    rw [loads, String.toList_ofList, parse_render]
  have hreread : reread r.value = .ok (load t.join) := by
    rw [reread, dumps, ht]
    exact hloads
  have hcanonical : r.canonical = load t.join := by rw [Record.canonical, hreread]
  rw [hcanonical]
  exact ⟨hreread, json_of_loads hloads, hsame⟩

/-- Records stand in the payload alike exactly when they are the same. -/
theorem canonical_eq_iff : r.canonical = r'.canonical ↔ r.value.same r'.value := by
  obtain ⟨hreread, hjson, hsame⟩ := reread_eq r
  obtain ⟨hreread', hjson', hsame'⟩ := reread_eq r'
  rw [← dumps_eq_iff (v := r.value) (w := r'.value) r.json r'.json .compact]
  constructor
  · intro heq
    have hdumps := (dumps_eq_iff (v := r.value) r.json hjson .compact).mpr hsame
    have hdumps' := (dumps_eq_iff (v := r'.value) r'.json hjson' .compact).mpr hsame'
    exact hdumps.trans (heq ▸ hdumps'.symm)
  · intro hdumps
    have hsameread : reread r.value = reread r'.value := by
      rw [reread, reread]
      exact congrArg (· >>= loads) hdumps
    rw [hreread, hreread', Except.ok.injEq] at hsameread
    exact hsameread

variable (str : PyValue F → Text)

theorem canonicalizeList_eq (items : List (Record F)) (key : String) :
    canonicalizeList str items key =
      .ok ((sortBy (sortKey str key) items).map Record.canonical) :=
  mapM_ok fun item _ => (reread_eq item).1

end Rereading

/-! ### Sorted lists -/

section Sorting
variable {α β γ : Type} [LinearOrder β] {key : α → β} {f : α → γ} {xs ys : List α}

theorem keys_sortBy (h : xs.Perm ys) : (sortBy key xs).map key = (sortBy key ys).map key := by
  have hxs := stableSort_sortBy key xs
  have hys := stableSort_sortBy key ys
  exact List.Perm.eq_of_pairwise (fun a b _ _ hab hba => le_antisymm hab hba)
    (List.pairwise_map.mpr hxs.sorted) (List.pairwise_map.mpr hys.sorted)
    ((hxs.perm.trans (h.trans hys.perm.symm)).map key)

omit [LinearOrder β] in
theorem map_eq_of_keys (hkeys : xs.map key = ys.map key)
    (h : ∀ x ∈ xs, ∀ y ∈ ys, key x = key y → f x = f y) : xs.map f = ys.map f := by
  induction xs generalizing ys with
  | nil =>
    rw [List.map_eq_nil_iff.mp hkeys.symm]
  | cons x xs ih =>
    cases ys with
    | nil => cases hkeys
    | cons y ys =>
      obtain ⟨hkey, hrest⟩ := List.cons.inj hkeys
      rw [List.map_cons, List.map_cons,
        h x (List.mem_cons_self ..) y (List.mem_cons_self ..) hkey,
        ih hrest fun a ha b hb => h a (List.mem_cons_of_mem _ ha) b (List.mem_cons_of_mem _ hb)]

/-- What has one key stands side by side, in the order it came. -/
theorem filter_map_sortBy (k : β) :
    ((sortBy key xs).filter fun x => key x = k).map f = (xs.filter fun x => key x = k).map f := by
  rw [(stableSort_sortBy key xs).stable]

theorem map_filter_congr (hkeys : xs.map key = ys.map key) (hf : xs.map f = ys.map f) (k : β) :
    (xs.filter fun x => key x = k).map f = (ys.filter fun x => key x = k).map f := by
  induction xs generalizing ys with
  | nil => rw [List.map_eq_nil_iff.mp hkeys.symm]
  | cons x xs ih =>
    cases ys with
    | nil => cases hkeys
    | cons y ys =>
      obtain ⟨hkey, hrest⟩ := List.cons.inj hkeys
      obtain ⟨hxy, hfrest⟩ := List.cons.inj hf
      by_cases hk : key x = k
      · rw [List.filter_cons_of_pos (by simpa using hk),
          List.filter_cons_of_pos (by simpa using hkey ▸ hk), List.map_cons, List.map_cons, hxy,
          ih hrest hfrest]
      · rw [List.filter_cons_of_neg (by simpa using hk),
          List.filter_cons_of_neg (by simpa using hkey ▸ hk), ih hrest hfrest]

/-- A stable sort hides the order of a list exactly when what has one key looks alike. -/
theorem sortBy_hides_iff : (∀ ys, xs.Perm ys → (sortBy key ys).map f = (sortBy key xs).map f) ↔
    ∀ x ∈ xs, ∀ y ∈ xs, key x = key y → f x = f y := by
  constructor
  · intro hhidden x hx y hy hkey
    by_cases heq : x = y
    · rw [heq]
    obtain ⟨before, behind, rfl⟩ := List.append_of_mem hx
    have hfront : (before ++ x :: behind).Perm (x :: (before ++ behind)) := List.perm_middle
    have hy' : y ∈ before ++ behind := by
      rcases List.mem_cons.mp (hfront.mem_iff.mp hy) with hyx | hmem
      · exact absurd hyx.symm heq
      · exact hmem
    obtain ⟨before', behind', hsplit⟩ := List.append_of_mem hy'
    have hboth : (before ++ behind).Perm (y :: (before' ++ behind')) :=
      hsplit ▸ List.perm_middle
    have hxy := hfront.trans (hboth.cons x)
    have hyx := hxy.trans (.swap y x (before' ++ behind'))
    have hsame := (hhidden _ hxy).trans (hhidden _ hyx).symm
    have hkeys : (sortBy key _).map key = (sortBy key _).map key :=
      keys_sortBy (hxy.symm.trans hyx)
    have hfilter := map_filter_congr hkeys hsame (key x)
    rw [filter_map_sortBy, filter_map_sortBy] at hfilter
    simp only [List.filter_cons, hkey, decide_true, if_true, List.map_cons, List.cons.injEq]
      at hfilter
    exact hfilter.1
  · intro htied ys hperm
    refine map_eq_of_keys (keys_sortBy hperm.symm) fun y hy x hx hkey => ?_
    refine htied y ?_ x ((stableSort_sortBy key xs).mem_iff.mp hx) hkey
    exact hperm.mem_iff.mpr ((stableSort_sortBy key ys).mem_iff.mp hy)

end Sorting

/-! ### What a normalizer returns -/

section Json

theorem json_text (s : String) : (text s : PyValue F).json = true :=
  decide_eq_true (joinSurrogates_ofString s)

theorem json_list {xs : List (PyValue F)} (h : ∀ x ∈ xs, x.json = true) :
    (PyValue.list xs).json = true := by
  rw [PyValue.json]
  induction xs with
  | nil => rfl
  | cons x xs ih =>
    obtain ⟨hx, hxs⟩ := List.forall_mem_cons.mp h
    rw [jsonElems, hx, ih hxs]
    rfl

theorem json_dict {items : List (String × PyValue F)} (hnames : (items.map Prod.fst).Nodup)
    (h : ∀ p ∈ items, p.2.json = true) : (dict items).json = true := by
  have hkeys : ((items.map fun p => (Key.str (ofString p.1), p.2)).map Prod.fst).Nodup := by
    have hinj : Function.Injective fun s => Key.str (ofString s) := fun a b hab =>
      ofString_injective (Key.str.inj hab)
    have hmapped := hnames.map hinj
    rwa [List.map_map] at hmapped ⊢
  simp only [dict, PyValue.json, Bool.and_eq_true, decide_eq_true_eq, List.all_eq_true,
    jsonItems_iff]
  refine ⟨⟨hkeys, fun p hp => ?_⟩, fun p hp => ?_⟩
  · obtain ⟨q, -, rfl⟩ := List.mem_map.mp hp
    exact decide_eq_true (joinSurrogates_ofString q.1)
  · obtain ⟨q, hq, rfl⟩ := List.mem_map.mp hp
    exact h q hq

end Json

theorem json_steps : ∀ p ∈ (steps : List (PyValue F)), p.json = true := by
  refine List.forall_mem_cons.mpr ⟨json_dict (List.nodup_singleton _) ?_,
    List.forall_mem_cons.mpr ⟨json_dict (List.nodup_singleton _) ?_, List.forall_mem_nil _⟩⟩
  · simp [json_text]
  · simp [json_text]

section Outcomes
variable [FloatCodec F] [SetText F] {sha256 : String → String} {str : PyValue F → Text}

theorem exists_hash (sha256 : String → String) (a : NormalizedArtifact F)
    (hpayload : a.payload.json = true) (hprovenance : ∀ p ∈ a.provenance, p.json = true) :
    ∃ h, computeHash sha256 a = .ok h := by
  obtain ⟨payload, hp⟩ := exists_dumps hpayload .compact
  have hexists : ∀ p, ∃ s : String, p ∈ a.provenance → dumps .compact p = .ok s := by
    intro p
    by_cases hmem : p ∈ a.provenance
    · obtain ⟨s, hs⟩ := exists_dumps (hprovenance p hmem) .compact
      exact ⟨s, fun _ => hs⟩
    · exact ⟨"", fun h => absurd h hmem⟩
  choose written hwritten using hexists
  have hps : a.provenance.mapM (dumps .compact) = .ok (a.provenance.map written) :=
    mapM_ok hwritten
  have hcanonical : (dict
      [("artifact_id", text a.artifactId), ("artifact_family", text a.artifactFamily),
        ("artifact_schema_version", text a.artifactSchemaVersion),
        ("source_system", text a.sourceSystem), ("connector_id", text a.connectorId),
        ("connector_version", text a.connectorVersion), ("tenant_id", text a.tenantId),
        ("payload", text payload),
        ("provenance", .list ((a.provenance.map written).map text))] :
        PyValue F).json = true := by
    have hnames : ["artifact_id", "artifact_family", "artifact_schema_version", "source_system",
        "connector_id", "connector_version", "tenant_id", "payload", "provenance"].Nodup := by
      decide +kernel
    refine json_dict hnames ?_
    simp only [List.forall_mem_cons, json_text, true_and]
    exact ⟨json_list (List.forall_mem_map.mpr fun s _ => json_text s), List.forall_mem_nil _⟩
  obtain ⟨canonical, hc⟩ := exists_dumps hcanonical .compact
  refine ⟨sha256 canonical, ?_⟩
  rw [computeHash, hp, hps]
  exact congrArg (· >>= fun t => pure (sha256 t)) hc

/-- The payload of an artifact with these lists. -/
def payloadOf (str : PyValue F → Text) (sections : List (Section F)) : PyValue F :=
  let lists := sections.map fun s =>
    (s, (sortBy (sortKey str s.sortField) s.records).map Record.canonical)
  dict (lists.map (fun p => (p.1.countName, .int p.2.length)) ++
    lists.map fun p => (p.1.listName, .list p.2))

theorem json_payloadOf {sections : List (Section F)}
    (hnames : (sections.map Section.countName ++ sections.map Section.listName).Nodup) :
    (payloadOf str sections).json = true := by
  refine json_dict ?_ fun p hp => ?_
  · simpa [List.map_map, Function.comp_def] using hnames
  · rcases List.mem_append.mp hp with hp | hp
    · obtain ⟨q, -, rfl⟩ := List.mem_map.mp hp
      rfl
    · obtain ⟨q, hq, rfl⟩ := List.mem_map.mp hp
      obtain ⟨s, -, rfl⟩ := List.mem_map.mp hq
      refine json_list (List.forall_mem_map.mpr fun r _ => ?_)
      exact (reread_eq r).2.1

/-- Of its lists an artifact's payload and hash depend on the payload only. -/
theorem outcome_normalize (sha256 : String → String) (str : PyValue F → Text)
    (nmspace artifactFamily : String) {provenance : List (PyValue F)}
    (hprovenance : ∀ p ∈ provenance, p.json = true) (args : Args) :
    ∃ hash : PyValue F → String, ∀ sections : List (Section F),
      (sections.map Section.countName ++ sections.map Section.listName).Nodup →
      outcome (normalize sha256 str nmspace artifactFamily provenance sections args) =
        .ok (payloadOf str sections, hash (payloadOf str sections)) := by
  have hashed : ∀ payload : PyValue F, ∃ h : String, payload.json = true →
      computeHash sha256
        { artifactId :=
            canonicalizeId sha256 args.sourceSystem nmspace args.correlationId args.tenantId
          artifactFamily := artifactFamily
          artifactSchemaVersion := "1.0.0"
          sourceSystem := args.sourceSystem
          connectorId := args.connectorId
          connectorVersion := args.connectorVersion
          tenantId := args.tenantId
          correlationId := args.correlationId
          payload := payload
          provenance := provenance
          artifactHash := "" } = .ok h := by
    intro payload
    by_cases hjson : payload.json = true
    · obtain ⟨h, hh⟩ := exists_hash sha256 ⟨canonicalizeId sha256 args.sourceSystem
        nmspace args.correlationId args.tenantId, artifactFamily, "1.0.0", args.sourceSystem,
        args.connectorId, args.connectorVersion, args.tenantId, args.correlationId, payload,
        provenance, ""⟩ hjson hprovenance
      exact ⟨h, fun _ => hh⟩
    · exact ⟨"", fun h => absurd h hjson⟩
  choose hash hhash using hashed
  refine ⟨hash, fun sections hnames => ?_⟩
  have hlists : sections.mapM (fun s => canonicalizeList str s.records s.sortField) =
      .ok (sections.map fun s =>
        (sortBy (sortKey str s.sortField) s.records).map Record.canonical) :=
    mapM_ok fun s _ => canonicalizeList_eq str s.records s.sortField
  have hartifact := hhash (payloadOf str sections) (json_payloadOf hnames)
  rw [payloadOf, List.map_prod_left_eq_zip] at hartifact ⊢
  rw [normalize, hlists]
  dsimp only [bind, Except.bind]
  rw [hartifact]
  rfl

/-- A list as it stands in the payload. -/
def listed (str : PyValue F → Text) (sortField : String) (records : List (Record F)) :
    List (PyValue F) := (sortBy (sortKey str sortField) records).map Record.canonical

theorem listed_hides_iff (sortField : String) (records : List (Record F)) :
    (∀ records', records.Perm records' →
      listed str sortField records' = listed str sortField records) ↔
      Tied str sortField records := by
  refine sortBy_hides_iff.trans ?_
  simp only [canonical_eq_iff]
  rfl

/-- A normalizer of one list hides its order exactly when the list is tied. -/
theorem one_list_iff (nmspace artifactFamily : String) {provenance : List (PyValue F)}
    (hprovenance : ∀ p ∈ provenance, p.json = true) (args : Args)
    {countName listName : String} (hnames : [countName, listName].Nodup) (sortField : String)
    (records : List (Record F)) :
    (∀ records', records.Perm records' →
      outcome (normalize sha256 str nmspace artifactFamily provenance
          [⟨countName, listName, sortField, records'⟩] args) =
        outcome (normalize sha256 str nmspace artifactFamily provenance
          [⟨countName, listName, sortField, records⟩] args)) ↔ Tied str sortField records := by
  obtain ⟨hash, hhash⟩ := outcome_normalize sha256 str nmspace
    artifactFamily hprovenance args
  have hashed := fun rs => hhash [⟨countName, listName, sortField, rs⟩] hnames
  rw [← listed_hides_iff]
  refine forall₂_congr fun records' _ => ?_
  rw [hashed, hashed, Except.ok.injEq, Prod.mk.injEq, and_iff_left_of_imp (congrArg hash)]
  simp only [payloadOf, dict, List.map_cons, List.map_nil, List.cons_append, List.nil_append,
    PyValue.dict.injEq, List.cons.injEq, Prod.mk.injEq, PyValue.int.injEq, PyValue.list.injEq,
    true_and, and_true]
  exact and_iff_right_of_imp fun h => congrArg (fun xs => (List.length xs : Int)) h

/-- One of two lists hides its order when each of them is tied. -/
theorem two_lists_iff (nmspace artifactFamily : String)
    (provenance : List (Record F) → List (Record F) → List (PyValue F))
    (hprovenance : ∀ first second, ∀ p ∈ provenance first second, p.json = true)
    (hperm : ∀ {first second first' second' : List (Record F)}, first.Perm first' →
      second.Perm second' → provenance first' second' = provenance first second) (args : Args)
    {countName listName countName' listName' : String}
    (hnames : [countName, countName', listName, listName'].Nodup) (sortField sortField' : String)
    (first second : List (Record F)) :
    (∀ first' second', first.Perm first' ∧ second.Perm second' →
      outcome (normalize sha256 str nmspace artifactFamily (provenance first' second')
          [⟨countName, listName, sortField, first'⟩,
            ⟨countName', listName', sortField', second'⟩] args) =
        outcome (normalize sha256 str nmspace artifactFamily (provenance first second)
          [⟨countName, listName, sortField, first⟩,
            ⟨countName', listName', sortField', second⟩] args)) ↔
      Tied str sortField first ∧ Tied str sortField' second := by
  obtain ⟨hash, hhash⟩ := outcome_normalize sha256 str nmspace
    artifactFamily (hprovenance first second) args
  have hashed := fun rs rs' => hhash [⟨countName, listName, sortField, rs⟩,
    ⟨countName', listName', sortField', rs'⟩] hnames
  have hlisted : ∀ first' second', first.Perm first' ∧ second.Perm second' →
      (outcome (normalize sha256 str nmspace artifactFamily (provenance first' second')
          [⟨countName, listName, sortField, first'⟩,
            ⟨countName', listName', sortField', second'⟩] args) =
        outcome (normalize sha256 str nmspace artifactFamily (provenance first second)
          [⟨countName, listName, sortField, first⟩,
            ⟨countName', listName', sortField', second⟩] args) ↔
      listed str sortField first' = listed str sortField first ∧
        listed str sortField' second' = listed str sortField' second) := by
    intro first' second' hboth
    rw [hperm hboth.1 hboth.2, hashed, hashed, Except.ok.injEq, Prod.mk.injEq,
      and_iff_left_of_imp (congrArg hash)]
    simp only [payloadOf, dict, List.map_cons, List.map_nil, List.cons_append, List.nil_append,
      PyValue.dict.injEq, List.cons.injEq, Prod.mk.injEq, PyValue.int.injEq, PyValue.list.injEq,
      true_and, and_true]
    constructor
    · exact fun h => h.2.2
    · exact fun h => ⟨congrArg (fun xs => (List.length xs : Int)) h.1,
        congrArg (fun xs => (List.length xs : Int)) h.2, h⟩
  rw [← listed_hides_iff, ← listed_hides_iff]
  constructor
  · intro h
    refine ⟨fun first' hfirst => ?_, fun second' hsecond => ?_⟩
    · exact ((hlisted first' second ⟨hfirst, .refl _⟩).mp (h _ _ ⟨hfirst, .refl _⟩)).1
    · exact ((hlisted first second' ⟨.refl _, hsecond⟩).mp (h _ _ ⟨.refl _, hsecond⟩)).2
  · intro h first' second' hboth
    exact (hlisted first' second' hboth).mpr ⟨h.1 first' hboth.1, h.2 second' hboth.2⟩

end Outcomes

/-- The order of the raw lists is hidden exactly when, in each of them, records with one text in
the field they are sorted by are the same. -/
theorem order_hidden_iff [FloatCodec F] [SetText F] (sha256 : String → String)
    (str : PyValue F → Text) (listing : Listing F) (args : Args) :
    (∀ listing', listing.Rearranges listing' →
      outcome (listing'.normalize sha256 str args) = outcome (listing.normalize sha256 str args)) ↔
      listing.Unordered str := by
  cases listing with
  | topology nodes edges =>
    have hnames : ["node_count", "edge_count", "nodes", "edges"].Nodup := by decide +kernel
    refine Iff.trans ⟨fun h _ _ hperm => h _ (.topology hperm), fun h listing' hlisting => ?_⟩
      (two_lists_iff "topology" "TopologyArtifact" (fun nodes edges =>
        [dict [("step", text "ingestion"), ("source", text args.sourceSystem),
            ("connector", text args.connectorId)],
          dict [("step", text "normalization"), ("nodes_raw", .int nodes.length),
            ("edges_raw", .int edges.length)]])
        (fun nodes edges => ?_) (fun hnodes hedges => ?_) args hnames "id" "from" nodes edges)
    · cases hlisting with
      | topology hperm => exact h _ _ hperm
    · have hingestion : ["step", "source", "connector"].Nodup := by decide +kernel
      have hnormalization : ["step", "nodes_raw", "edges_raw"].Nodup := by decide +kernel
      refine List.forall_mem_cons.mpr ⟨json_dict hingestion ?_, List.forall_mem_cons.mpr
        ⟨json_dict hnormalization ?_, List.forall_mem_nil _⟩⟩
      · simp [json_text]
      · simp [json_text, PyValue.json]
    · rw [hnodes.length_eq, hedges.length_eq]
  | identityGraph identities relationships =>
    have hnames : ["identity_count", "relationship_count", "identities", "relationships"].Nodup :=
      by decide +kernel
    refine Iff.trans ⟨fun h _ _ hperm => h _ (.identityGraph hperm),
      fun h listing' hlisting => ?_⟩
      (two_lists_iff "identity" "IdentityGraphArtifact" (fun _ _ =>
        [dict [("step", text "ingestion"), ("source", text args.sourceSystem)],
          dict [("step", text "normalization")]])
        (fun _ _ => ?_) (fun _ _ => rfl) args hnames "arn" "from" identities relationships)
    · cases hlisting with
      | identityGraph hperm => exact h _ _ hperm
    · have hingestion : ["step", "source"].Nodup := by decide +kernel
      refine List.forall_mem_cons.mpr ⟨json_dict hingestion ?_, List.forall_mem_cons.mpr
        ⟨json_dict (List.nodup_singleton _) ?_, List.forall_mem_nil _⟩⟩
      · simp [json_text]
      · simp [json_text]
  | dependencyGraph dependencies =>
    have hnames : ["dependency_count", "dependencies"].Nodup := by decide +kernel
    refine Iff.trans ⟨fun h _ hperm => h _ (.dependencyGraph hperm),
      fun h listing' hlisting => ?_⟩
      (one_list_iff "dependency" "DependencyGraphArtifact" json_steps args hnames "from"
        dependencies)
    cases hlisting with
    | dependencyGraph hperm => exact h _ hperm
  | traceTopology spans =>
    have hnames : ["span_count", "spans"].Nodup := by decide +kernel
    refine Iff.trans ⟨fun h _ hperm => h _ (.traceTopology hperm),
      fun h listing' hlisting => ?_⟩
      (one_list_iff "trace" "TraceTopologyArtifact" json_steps args hnames "span_id" spans)
    cases hlisting with
    | traceTopology hperm => exact h _ hperm
  | infrastructureState resources =>
    have hnames : ["resource_count", "resources"].Nodup := by decide +kernel
    refine Iff.trans ⟨fun h _ hperm => h _ (.infrastructureState hperm),
      fun h listing' hlisting => ?_⟩
      (one_list_iff "state" "InfrastructureStateArtifact" json_steps args hnames "id" resources)
    cases hlisting with
    | infrastructureState hperm => exact h _ hperm
  | deploymentLineage deployments =>
    have hnames : ["deployment_count", "deployments"].Nodup := by decide +kernel
    refine Iff.trans ⟨fun h _ hperm => h _ (.deploymentLineage hperm),
      fun h listing' hlisting => ?_⟩
      (one_list_iff "lineage" "DeploymentLineageArtifact" json_steps args hnames "id" deployments)
    cases hlisting with
    | deploymentLineage hperm => exact h _ hperm
  | securityEvent events =>
    have hnames : ["event_count", "events"].Nodup := by decide +kernel
    refine Iff.trans ⟨fun h _ hperm => h _ (.securityEvent hperm),
      fun h listing' hlisting => ?_⟩
      (one_list_iff "security" "SecurityEventArtifact" json_steps args hnames "event_id" events)
    cases hlisting with
    | securityEvent hperm => exact h _ hperm

/-! ### Two dependencies of one service -/

def dependsOn (source target : String) : Record Literal where
  items := [(.str (ofString "from"), text source), (.str (ofString "to"), text target)]
  json := @json_dict Literal [("from", text source), ("to", text target)]
    (by decide +kernel : ["from", "to"].Nodup) (by simp [json_text])

/-- Their order shows. -/
theorem shared_source_unhidden : ¬ ∀ listing', (Listing.dependencyGraph
      [dependsOn "web" "db", dependsOn "web" "cache"]).Rearranges listing' →
    outcome (listing'.normalize id (fun _ => []) ⟨"aws", "c1", "1.0", "t1", "corr"⟩) =
      outcome ((Listing.dependencyGraph
        [dependsOn "web" "db", dependsOn "web" "cache"]).normalize id (fun _ => [])
          ⟨"aws", "c1", "1.0", "t1", "corr"⟩) := by
  intro h
  have hnames : ["dependency_count", "dependencies"].Nodup := by decide +kernel
  have htied := (one_list_iff "dependency" "DependencyGraphArtifact" json_steps
    ⟨"aws", "c1", "1.0", "t1", "corr"⟩ hnames "from"
    [dependsOn "web" "db", dependsOn "web" "cache"]).mp fun _ hperm => h _ (.dependencyGraph hperm)
  have hsame := htied (dependsOn "web" "db") (by simp) (dependsOn "web" "cache") (by simp) rfl
  obtain ⟨v, hv, hdb⟩ :=
    (sameItems_iff.mp hsame.2) (.str (ofString "to"), text "db") (by simp [dependsOn])
  have hcache : lookupItem (.str (ofString "to")) (dependsOn "web" "cache").items =
      some (text "cache") := rfl
  obtain rfl : text "cache" = v := Option.some.inj (hcache.symm.trans hv)
  exact absurd (ofString_injective hdb) (by decide)

end PiPlatform.ConnectorFabric.Normalizer
