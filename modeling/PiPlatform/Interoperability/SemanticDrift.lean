import PiPlatform.Interoperability.SnapshotIntegrity
import PiPlatform.Library.Python.Equality
import PiPlatform.Library.Python.Floats

/-! The semantic diff of two snapshots.

Each type of snapshot has its own comparer, and each looks at one part of the data.
`diff_faithful_iff`: what is added one way is removed the other way at the same path; but edges
and the attributes of nodes are not looked at, a null is taken for an absent key except in
configurations, and several nodes added to a topology come in the order in which a set is gone
through. -/
namespace PiPlatform.Interoperability.Drift

open Library Library.Json Library.Python Snapshot

/-! ### Deltas -/

inductive DeltaType where
  | nodeAdded | nodeRemoved | nodeModified | edgeAdded | edgeRemoved | edgeModified
  | configAdded | configRemoved | configChanged
  | stateChanged | stateIncreased | stateDecreased
  | authAdded | authRemoved | authChanged | permissionEscalated | permissionDeescalated
  | policyAdded | policyRemoved | policyChanged
  | topologyExpanded | topologyContracted | topologyRewired
  | capabilityAdded | capabilityRemoved | capabilityUpdated
  | trustZonePromoted | trustZoneDemoted
  | composite | unknown
  deriving DecidableEq

def DeltaType.value : DeltaType → String
  | nodeAdded => "node_added"
  | nodeRemoved => "node_removed"
  | nodeModified => "node_modified"
  | edgeAdded => "edge_added"
  | edgeRemoved => "edge_removed"
  | edgeModified => "edge_modified"
  | configAdded => "config_added"
  | configRemoved => "config_removed"
  | configChanged => "config_changed"
  | stateChanged => "state_changed"
  | stateIncreased => "state_increased"
  | stateDecreased => "state_decreased"
  | authAdded => "auth_added"
  | authRemoved => "auth_removed"
  | authChanged => "auth_changed"
  | permissionEscalated => "permission_escalated"
  | permissionDeescalated => "permission_deescalated"
  | policyAdded => "policy_added"
  | policyRemoved => "policy_removed"
  | policyChanged => "policy_changed"
  | topologyExpanded => "topology_expanded"
  | topologyContracted => "topology_contracted"
  | topologyRewired => "topology_rewired"
  | capabilityAdded => "capability_added"
  | capabilityRemoved => "capability_removed"
  | capabilityUpdated => "capability_updated"
  | trustZonePromoted => "trust_zone_promoted"
  | trustZoneDemoted => "trust_zone_demoted"
  | composite => "composite"
  | unknown => "unknown"

/-- `_SEVERITY_MAP.get(delta_type, "INFO")` -/
def DeltaType.severity : DeltaType → String
  | permissionEscalated => "CRITICAL"
  | permissionDeescalated => "HIGH"
  | authAdded => "MEDIUM"
  | authRemoved => "MEDIUM"
  | authChanged => "HIGH"
  | policyRemoved => "CRITICAL"
  | policyChanged => "HIGH"
  | trustZoneDemoted => "HIGH"
  | nodeRemoved => "MEDIUM"
  | topologyContracted => "MEDIUM"
  | _ => "INFO"

/-- A null stands for no value. -/
structure SemanticDelta where
  deltaId : String
  deltaType : DeltaType
  path : String
  description : String
  baselineValue : Plain
  modifiedValue : Plain
  severity : String
  deltaHash : String

/-- The digest, and how values are shown. -/
structure Runtime where
  sha256 : Sha256
  str : Plain → String

/-- The order in which a set is gone through. -/
structure SetOrder where
  order : {α : Type} → List α → List α
  perm : ∀ {α : Type} (xs : List α), (order xs).Perm xs

section Model
variable (R : Runtime) (S : SetOrder)

/-- `str(v) if v is not None else None` -/
def shown : Plain → Document Literal
  | .none => .null
  | v => .str (ofString (R.str v))

/-- What a delta's hash is of. No comparer gives evidence. -/
def hashed (deltaType : DeltaType) (path description : String) (baseline modified : Plain) :
    Document Literal :=
  .obj
    [(ofString "baseline_value", shown R baseline),
      (ofString "delta_type", .str (ofString deltaType.value)),
      (ofString "description", .str (ofString description)),
      (ofString "evidence", .obj []),
      (ofString "modified_value", shown R modified),
      (ofString "path", .str (ofString path)),
      (ofString "severity", .str (ofString deltaType.severity))]

def makeDelta (deltaType : DeltaType) (path description : String) (baseline modified : Plain) :
    SemanticDelta where
  deltaId := "delta_" ++ deltaType.value ++ "_" ++ first16 (R.sha256 path)
  deltaType := deltaType
  path := path
  description := description
  baselineValue := baseline
  modifiedValue := modified
  severity := deltaType.severity
  deltaHash := R.sha256
    (String.ofList ((hashed R deltaType path description baseline modified).render .compact))

/-! ### Parts of the data -/

inductive DiffError where
  | valueError (message : String)
  | typeError
  | attributeError
  deriving DecidableEq

abbrev Items := List (String × Plain)

/-- `data.get(key, default)` -/
def part (key : String) (absent : Plain) (data : Items) : Plain :=
  (lookupItem key data).getD absent

/-- `v.keys()`, with what it is that has the keys. -/
def keyed : Plain → Except DiffError Items
  | .dict items => .ok items
  | _ => .error .attributeError

/-- `v.get(key)` -/
def getOr (items : Items) (key : String) : Plain := (lookupItem key items).getD .none

/-- `for x in v` -/
def iterated : Plain → Except DiffError (List Plain)
  | .list xs => .ok xs
  | .dict items => .ok (items.map fun p => .str p.1)
  | .str s => .ok (s.toList.map fun c => .str (String.singleton c))
  | _ => .error .typeError

/-- `sorted(set(base.keys()) | set(mod.keys()))` -/
def allKeys (base mod : Items) : List String :=
  sortBy id (S.order ((base ++ mod).map Prod.fst).dedup)

/-- What is in the first dictionary alone: `set(xs.keys()) - set(ys.keys())` -/
def keysBut (xs ys : Items) : List String :=
  (xs.map Prod.fst).filter fun key => (lookupItem key ys).isNone

/-! ### The comparers -/

/-- `tuple(sorted((e.get("upstream", ""), e.get("downstream", ""))))`, put into a set. -/
def edgeTuple : Plain → Except DiffError (Plain × Plain)
  | .dict e =>
    let upstream := part "upstream" (.str "") e
    let downstream := part "downstream" (.str "") e
    match downstream.less upstream with
    | .error _ => .error .typeError
    | .ok before =>
      if upstream.hashable && downstream.hashable then
        .ok (if before then (downstream, upstream) else (upstream, downstream))
      else .error .typeError
  | _ => .error .attributeError

/-- The set of the edges is made and thrown away. -/
def edgesOf (data : Items) : Except DiffError (List Plain) := do
  let edges ← iterated (part "edges" (.list []) data)
  let _ ← edges.mapM edgeTuple
  return edges

def diffTopology (base mod : Items) : Except DiffError (List SemanticDelta) := do
  let baseNodes ← keyed (part "nodes" (.dict []) base)
  let modNodes ← keyed (part "nodes" (.dict []) mod)
  let _ ← edgesOf base
  let _ ← edgesOf mod
  return ((S.order (keysBut modNodes baseNodes)).map fun nodeId =>
      makeDelta R .nodeAdded ("nodes." ++ nodeId) "Node added to topology" .none (.str nodeId)) ++
    (S.order (keysBut baseNodes modNodes)).map fun nodeId =>
      makeDelta R .nodeRemoved ("nodes." ++ nodeId) "Node removed from topology" (.str nodeId) .none

/-- What a comparer makes of a key, from what the two dictionaries have there. -/
abbrev KeyDiff := String → Option Plain → Option Plain → Except DiffError (List SemanticDelta)

/-- The loop over the keys of a part that is a dictionary. -/
def diffKeys (name : String) (delta : KeyDiff) (base mod : Items) :
    Except DiffError (List SemanticDelta) := do
  let baseItems ← keyed (part name (.dict []) base)
  let modItems ← keyed (part name (.dict []) mod)
  let deltas ← (allKeys S baseItems modItems).mapM fun key =>
    delta key (lookupItem key baseItems) (lookupItem key modItems)
  return deltas.flatten

def configDelta : KeyDiff
  | key, none, some m => .ok [makeDelta R .configAdded ("config." ++ key)
      ("Configuration key '" ++ key ++ "' added") .none m]
  | key, some b, none => .ok [makeDelta R .configRemoved ("config." ++ key)
      ("Configuration key '" ++ key ++ "' removed") b .none]
  | key, some b, some m =>
    if b.eq m then .ok []
    else .ok [makeDelta R .configChanged ("config." ++ key)
      ("Configuration key '" ++ key ++ "' changed") b m]
  | _, none, none => .ok []

def diffConfiguration : Items → Items → Except DiffError (List SemanticDelta) :=
  diffKeys S "config" (configDelta R)

/-- Whether a number grew. -/
def stateChange (b m : Plain) : DeltaType :=
  match b.number?, m.number? with
  | some x, some y => if x < y then .stateIncreased else if y < x then .stateDecreased
      else .stateChanged
  | _, _ => .stateChanged

def stateDelta : KeyDiff := fun key b? m? =>
  let b := b?.getD .none
  let m := m?.getD .none
  if b.eq m then .ok []
  else .ok [makeDelta R (stateChange b m) ("state." ++ key) ("State '" ++ key ++ "' changed") b m]

def diffState : Items → Items → Except DiffError (List SemanticDelta) :=
  diffKeys S "state" (stateDelta R)

/-- `zone_rank.get(zone, -1)` -/
def zoneRank : Plain → Except DiffError Int
  | .str "SANDBOX_EXPERIMENTAL" => .ok 0
  | .str "GOVERNED_EXTENSION" => .ok 1
  | .str "CORE_TRUSTED" => .ok 2
  | zone => if zone.hashable then .ok (-1) else .error .typeError

/-- Promotion or demotion. -/
def zoneMove (entityId : String) (b m : Plain) : Except DiffError (List SemanticDelta) := do
  let bRank ← zoneRank b
  let mRank ← zoneRank m
  return [makeDelta R (if bRank < mRank then .trustZonePromoted else .trustZoneDemoted)
    ("trust_zones." ++ entityId)
    ("Entity '" ++ entityId ++ "' trust zone changed from " ++ R.str b ++ " to " ++ R.str m) b m]

def zoneDelta : KeyDiff := fun entityId b? m? =>
  let b := b?.getD .none
  let m := m?.getD .none
  if b.eq m then .ok []
  else
    match b, m with
    | .none, m => .ok [makeDelta R .nodeAdded ("trust_zones." ++ entityId)
        ("Entity '" ++ entityId ++ "' added to trust zone map") .none m]
    | b, .none => .ok [makeDelta R .nodeRemoved ("trust_zones." ++ entityId)
        ("Entity '" ++ entityId ++ "' removed from trust zone map") b .none]
    | b, m => zoneMove R entityId b m

def diffTrustZone : Items → Items → Except DiffError (List SemanticDelta) :=
  diffKeys S "trust_zones" (zoneDelta R)

def policyDelta : KeyDiff := fun pid b? m? =>
  match b?.getD .none, m?.getD .none with
  | .none, .none => .ok []
  | .none, m => .ok [makeDelta R .policyAdded ("policies." ++ pid)
      ("Policy '" ++ pid ++ "' added") .none m]
  | b, .none => .ok [makeDelta R .policyRemoved ("policies." ++ pid)
      ("Policy '" ++ pid ++ "' removed") b .none]
  | b, m =>
    if b.eq m then .ok []
    else .ok [makeDelta R .policyChanged ("policies." ++ pid) ("Policy '" ++ pid ++ "' modified")
      b m]

def diffPolicy : Items → Items → Except DiffError (List SemanticDelta) :=
  diffKeys S "policies" (policyDelta R)

/-- `set(xs)`: of equal elements the first stays. -/
def setOf : List Plain → List Plain
  | [] => []
  | x :: xs => x :: (setOf xs).filter fun y => !y.eq x

/-- `set(v)` -/
def capabilitySet (v : Plain) : Except DiffError (List Plain) := do
  let xs ← iterated v
  if xs.all Plain.hashable then return setOf xs else .error .typeError

def text? : Plain → Option String
  | .str s => some s
  | _ => none

/-- `s - t` -/
def but (s t : List Plain) : List Plain := s.filter fun x => !t.any fun y => y.eq x

/-- `sorted(xs)`: strings can be compared, numbers can, and a single element is not. -/
def sorted (xs : List Plain) : Except DiffError (List Plain) :=
  if xs.length ≤ 1 then .ok xs
  else if xs.all fun x => (text? x).isSome then .ok (sortBy (fun x => (text? x).getD "") xs)
  else if xs.all fun x => x.number?.isSome then
    .ok (sortBy (fun x => (x.number?.getD 0).toRat) xs)
  else .error .typeError

def diffCapabilityMesh (base mod : Items) : Except DiffError (List SemanticDelta) := do
  let baseCaps ← capabilitySet (part "capabilities" (.list []) base)
  let modCaps ← capabilitySet (part "capabilities" (.list []) mod)
  let added ← sorted (S.order (but modCaps baseCaps))
  let removed ← sorted (S.order (but baseCaps modCaps))
  return (added.map fun cap => makeDelta R .capabilityAdded ("capabilities." ++ R.str cap)
      ("Capability '" ++ R.str cap ++ "' added") .none cap) ++
    removed.map fun cap => makeDelta R .capabilityRemoved ("capabilities." ++ R.str cap)
      ("Capability '" ++ R.str cap ++ "' removed") cap .none

def diffGeneric (base mod : Items) : List SemanticDelta :=
  ((sortBy id (S.order (keysBut mod base))).map fun key =>
    makeDelta R .composite key ("Key '" ++ key ++ "' added") .none (getOr mod key)) ++
  ((sortBy id (S.order (keysBut base mod))).map fun key =>
    makeDelta R .composite key ("Key '" ++ key ++ "' removed") (getOr base key) .none) ++
  ((sortBy id (S.order ((base.map Prod.fst).filter fun key => (lookupItem key mod).isSome))).filter
      fun key => !(getOr base key).eq (getOr mod key)).map fun key =>
    makeDelta R .composite key ("Key '" ++ key ++ "' changed") (getOr base key) (getOr mod key)

/-! ### The report -/

def deltasOf (t : SnapshotType) (base mod : Items) : Except DiffError (List SemanticDelta) :=
  match t with
  | .topology => diffTopology R S base mod
  | .configuration => diffConfiguration R S base mod
  | .state => diffState R S base mod
  | .capabilityMesh => diffCapabilityMesh R S base mod
  | .trustZone => diffTrustZone R S base mod
  | .policyEvaluation => diffPolicy R S base mod
  | _ => .ok (diffGeneric R S base mod)

/-- `Q` is the type of floats. -/
structure SemanticDriftReport (Q : Type) where
  reportId : String
  baselineSnapshotId : String
  modifiedSnapshotId : String
  deltas : List SemanticDelta
  deltaCounts : Dict String Nat
  highSeverityDeltas : List String
  totalDriftScore : Q
  structuralDrift : Q
  semanticDrift : Q

def deltaCounts (deltas : List SemanticDelta) : Dict String Nat :=
  deltas.foldl (fun counts d =>
    counts.set d.deltaType.value ((counts.get? d.deltaType.value).getD 0 + 1)) .empty

def structuralTypes : List String :=
  ["node_added", "node_removed", "node_modified", "edge_added", "edge_removed", "edge_modified",
    "topology_expanded", "topology_contracted", "topology_rewired"]

def semanticTypes : List String :=
  ["config_added", "config_removed", "config_changed", "state_changed", "auth_added",
    "auth_removed", "auth_changed", "policy_added", "policy_removed", "policy_changed",
    "capability_added", "capability_removed", "capability_updated"]

def countOf (counts : Dict String Nat) (types : List String) : Nat :=
  (types.map fun t => (counts.get? t).getD 0).sum

/-- `round(min(count / max(total, 1), 1.0), 6)` -/
def drift {Q : Type} (N : Floats Q) (count total : Nat) : Q :=
  N.round (N.min (N.div (N.ofNat count) (N.ofNat (max total 1))) (N.ofNat 1)) 6

/-- `SemanticDiffEngine.diff` -/
def diff {Q : Type} (N : Floats Q) (baseline modified : SnapshotArtifact) :
    Except DiffError (SemanticDriftReport Q) :=
  if baseline.payload.tenantId ≠ modified.payload.tenantId then
    .error (.valueError "Cannot diff snapshots from different tenants")
  else if baseline.payload.snapshotType ≠ modified.payload.snapshotType then
    .error (.valueError "Cannot diff snapshots of different types")
  else do
    let deltas ← deltasOf R S baseline.payload.snapshotType baseline.payload.data
      modified.payload.data
    let counts := deltaCounts deltas
    let totalElements := max (max baseline.payload.data.length modified.payload.data.length) 1
    return {
      reportId := "drift_" ++ baseline.snapshotId ++ "_" ++ modified.snapshotId
      baselineSnapshotId := baseline.snapshotId
      modifiedSnapshotId := modified.snapshotId
      deltas := deltas
      deltaCounts := counts
      highSeverityDeltas :=
        (deltas.filter fun d => ["MEDIUM", "HIGH", "CRITICAL"].contains d.severity).map (·.deltaId)
      totalDriftScore := drift N deltas.length (totalElements * 2)
      structuralDrift := drift N (countOf counts structuralTypes) totalElements
      semanticDrift := drift N (countOf counts semanticTypes) totalElements }

end Model

/-! ### What is promised -/

/-- A snapshot of JSON data: no dictionary in it holds a key twice. -/
structure JsonSnapshot where
  artifact : SnapshotArtifact
  wellFormed : (Plain.dict artifact.payload.data).wellFormed = true

def JsonSnapshot.data (a : JsonSnapshot) : Items := a.artifact.payload.data

/-- Element by element equal in some order. -/
def SameMultiset (xs ys : List Plain) : Prop :=
  ∃ zs : List Plain, zs.Perm ys ∧ List.Forall₂ (fun x z => x.eq z = true) xs zs

/-- Each element has an equal one on the other side. -/
def SameSet (xs ys : List Plain) : Prop :=
  (∀ x ∈ xs, ∃ y ∈ ys, y.eq x = true) ∧ ∀ y ∈ ys, ∃ x ∈ xs, x.eq y = true

def elements (v : Plain) : List Plain :=
  match iterated v with
  | .ok xs => xs
  | .error _ => []

/-- The part that the type is about is the same; of the types without one, all the data. -/
def PartsEqual (t : SnapshotType) (base mod : Items) : Prop :=
  match t with
  | .topology =>
    (part "nodes" (.dict []) base).eq (part "nodes" (.dict []) mod) = true ∧
      SameMultiset (elements (part "edges" (.list []) base))
        (elements (part "edges" (.list []) mod))
  | .configuration => (part "config" (.dict []) base).eq (part "config" (.dict []) mod) = true
  | .state => (part "state" (.dict []) base).eq (part "state" (.dict []) mod) = true
  | .capabilityMesh => SameSet (elements (part "capabilities" (.list []) base))
      (elements (part "capabilities" (.list []) mod))
  | .trustZone =>
    (part "trust_zones" (.dict []) base).eq (part "trust_zones" (.dict []) mod) = true
  | .policyEvaluation =>
    (part "policies" (.dict []) base).eq (part "policies" (.dict []) mod) = true
  | _ => (Plain.dict base).eq (.dict mod) = true

def DeltaType.opposite : DeltaType → Option DeltaType
  | nodeAdded => some nodeRemoved
  | nodeRemoved => some nodeAdded
  | edgeAdded => some edgeRemoved
  | edgeRemoved => some edgeAdded
  | configAdded => some configRemoved
  | configRemoved => some configAdded
  | authAdded => some authRemoved
  | authRemoved => some authAdded
  | policyAdded => some policyRemoved
  | policyRemoved => some policyAdded
  | capabilityAdded => some capabilityRemoved
  | capabilityRemoved => some capabilityAdded
  | _ => none

/-- What adds or removes: its type, its path and the two values. -/
def SemanticDelta.entry (d : SemanticDelta) : Option (DeltaType × String × Plain × Plain) :=
  d.deltaType.opposite.map fun _ => (d.deltaType, d.path, d.baselineValue, d.modifiedValue)

def SemanticDelta.exchanged (d : SemanticDelta) : Option (DeltaType × String × Plain × Plain) :=
  d.deltaType.opposite.map fun t => (t, d.path, d.modifiedValue, d.baselineValue)

/-- What the first deltas add the second remove, and the other way round, path by path. -/
def Exchanged (ds ds' : List SemanticDelta) : Prop :=
  (ds.filterMap SemanticDelta.exchanged).Perm (ds'.filterMap SemanticDelta.entry)

/-- No difference without a delta, additions and removals exchanged by turning the two around,
and the same deltas in any order of sets. -/
structure Faithful {Q : Type} (R : Runtime) (N : Floats Q) (a b : JsonSnapshot) : Prop where
  complete : ∀ S report, diff R S N a.artifact b.artifact = .ok report → report.deltas = [] →
    PartsEqual a.artifact.payload.snapshotType a.data b.data
  swapped : ∀ S T report, diff R S N a.artifact b.artifact = .ok report →
    ∃ report', diff R T N b.artifact a.artifact = .ok report' ∧
      Exchanged report.deltas report'.deltas
  unordered : ∀ S T, (diff R S N a.artifact b.artifact).map (·.deltas) =
    (diff R T N a.artifact b.artifact).map (·.deltas)

/-! ### What is not looked at -/

/-- The nodes and the edges of two topologies that can be compared. -/
structure Topologies (base mod nodes nodes' : Items) (edges edges' : List Plain) : Prop where
  nodes : keyed (part "nodes" (.dict []) base) = .ok nodes
  nodes' : keyed (part "nodes" (.dict []) mod) = .ok nodes'
  edges : edgesOf base = .ok edges
  edges' : edgesOf mod = .ok edges'

/-- Where the values differ nowhere, a key is null in one and not in the other. -/
def NullKey (name : String) (base mod : Items) : Prop :=
  ∃ items items', keyed (part name (.dict []) base) = .ok items ∧
    keyed (part name (.dict []) mod) = .ok items' ∧
    (∀ key, (getOr items key).eq (getOr items' key) = true) ∧
    ∃ key, lookupItem key items = some .none ∧ lookupItem key items' = none ∨
      lookupItem key items = none ∧ lookupItem key items' = some .none

/-- What is different is not looked at. -/
def Blind (t : SnapshotType) (base mod : Items) : Prop :=
  match t with
  | .topology => ∃ nodes nodes' edges edges', Topologies base mod nodes nodes' edges edges' ∧
      (∀ id, (lookupItem id nodes).isSome = (lookupItem id nodes').isSome) ∧
      ¬ ((Plain.dict nodes).eq (.dict nodes') = true ∧ SameMultiset edges edges')
  | .state => NullKey "state" base mod
  | .trustZone => NullKey "trust_zones" base mod
  | .policyEvaluation => NullKey "policies" base mod
  | _ => False

/-- Two nodes are added to a topology, or two are removed. -/
def Scattered (t : SnapshotType) (base mod : Items) : Prop :=
  t = .topology ∧ ∃ nodes nodes' edges edges', Topologies base mod nodes nodes' edges edges' ∧
    (2 ≤ (keysBut nodes' nodes).length ∨ 2 ≤ (keysBut nodes nodes').length)

/-! ### The loops over keys -/

section Keys
variable {S T : SetOrder} {R : Runtime} {base mod items items' : Items} {name key : String}

theorem keyed_eq_ok {v : Plain} : keyed v = .ok items ↔ v = .dict items := by
  cases v <;> simp [keyed]

theorem mem_keys_iff {k : String} {xs : Items} :
    k ∈ xs.map Prod.fst ↔ (lookupItem k xs).isSome = true := by
  refine ⟨fun hmem => ?_, fun hsome => ?_⟩
  · by_contra hnot
    rw [Bool.not_eq_true, Option.isSome_eq_false_iff, Option.isNone_iff_eq_none] at hnot
    induction xs with
    | nil => cases hmem
    | cons p xs ih =>
      rw [lookupItem] at hnot
      split at hnot
      · cases hnot
      · rename_i hne
        exact ih ((List.mem_cons.mp hmem).resolve_left fun h => hne h.symm) hnot
  · obtain ⟨v, hv⟩ := Option.isSome_iff_exists.mp hsome
    exact List.mem_map_of_mem (f := Prod.fst) (mem_of_lookupItem hv)

theorem wellFormed_part {data : Items} {absent : Plain} (h : (Plain.dict data).wellFormed = true)
    (habsent : absent.wellFormed = true) : (part name absent data).wellFormed = true := by
  rw [part]
  cases hfound : lookupItem name data with
  | none => exact habsent
  | some v =>
    simp only [Plain.wellFormed, Bool.and_eq_true, Plain.wellFormedItems_iff] at h
    exact h.2 (name, v) (mem_of_lookupItem hfound)

/-- What a part's keys stand with, if the data is well formed. -/
theorem spec_keyed (h : (Plain.dict base).wellFormed = true)
    (hkeyed : keyed (part name (.dict []) base) = .ok items) :
    (items.map Prod.fst).Nodup ∧ ∀ key v, lookupItem key items = some v → v.wellFormed = true := by
  have hwf : (part name (.dict []) base).wellFormed = true := wellFormed_part h rfl
  rw [keyed_eq_ok.mp hkeyed] at hwf
  simp only [Plain.wellFormed, Bool.and_eq_true, decide_eq_true_eq,
    Plain.wellFormedItems_iff] at hwf
  exact ⟨hwf.1, fun key v hv => hwf.2 (key, v) (mem_of_lookupItem hv)⟩

theorem mem_allKeys : key ∈ allKeys S items items' ↔
    (lookupItem key items).isSome = true ∨ (lookupItem key items').isSome = true := by
  rw [allKeys, (stableSort_sortBy id _).mem_iff, (S.perm _).mem_iff, List.mem_dedup,
    List.map_append, List.mem_append, mem_keys_iff, mem_keys_iff]

/-- The keys come sorted, whatever the order of the set and of the two dictionaries. -/
theorem allKeys_eq (hperm : (items ++ items').Perm (base ++ mod)) :
    allKeys S items items' = allKeys T base mod := by
  have hnodup : (S.order ((items ++ items').map Prod.fst).dedup).Nodup :=
    (S.perm _).nodup_iff.mpr (List.nodup_dedup _)
  refine (sortBy_eq_iff (by rwa [List.map_id])).mpr ?_
  exact (S.perm _).trans ((hperm.map Prod.fst).dedup.trans (T.perm _).symm)

variable {delta : KeyDiff}

theorem diffKeys_eq (h : keyed (part name (.dict []) base) = .ok items)
    (h' : keyed (part name (.dict []) mod) = .ok items') :
    diffKeys S name delta base mod = ((allKeys S items items').mapM fun key =>
      delta key (lookupItem key items) (lookupItem key items')).map List.flatten := by
  rw [diffKeys, h, h']
  show ((allKeys S items items').mapM (fun key =>
    delta key (lookupItem key items) (lookupItem key items')) >>=
      fun deltas => Except.ok deltas.flatten) = _
  cases (allKeys S items items').mapM fun key =>
    delta key (lookupItem key items) (lookupItem key items') <;> rfl

theorem diffKeys_ok {ds : List SemanticDelta} (h : diffKeys S name delta base mod = .ok ds) :
    ∃ items items', keyed (part name (.dict []) base) = .ok items ∧
      keyed (part name (.dict []) mod) = .ok items' := by
  rw [diffKeys] at h
  obtain ⟨items, hbase, h⟩ := bind_ok h
  obtain ⟨items', hmod, -⟩ := bind_ok h
  exact ⟨items, items', hbase, hmod⟩

/-- No delta comes of a loop exactly if none comes of any key. -/
theorem diffKeys_eq_nil_iff (habsent : ∀ key, delta key none none = .ok []) :
    diffKeys S name delta base mod = .ok [] ↔ ∃ items items',
      keyed (part name (.dict []) base) = .ok items ∧
      keyed (part name (.dict []) mod) = .ok items' ∧
      ∀ key, delta key (lookupItem key items) (lookupItem key items') = .ok [] := by
  have hloop := fun items items' => mapM_flatten_eq_nil_iff (f := fun key =>
    delta key (lookupItem key items) (lookupItem key items')) (allKeys S items items')
  constructor
  · intro h
    obtain ⟨items, items', hbase, hmod⟩ := diffKeys_ok h
    rw [diffKeys_eq hbase hmod] at h
    refine ⟨items, items', hbase, hmod, fun key => ?_⟩
    by_cases hmem : key ∈ allKeys S items items'
    · exact (hloop items items').mp h key hmem
    · rw [mem_allKeys, not_or, Bool.not_eq_true, Bool.not_eq_true, Option.isSome_eq_false_iff,
        Option.isSome_eq_false_iff, Option.isNone_iff_eq_none, Option.isNone_iff_eq_none] at hmem
      rw [hmem.1, hmem.2]
      exact habsent key
  · rintro ⟨items, items', hbase, hmod, h⟩
    rw [diffKeys_eq hbase hmod]
    exact (hloop items items').mpr fun key _ => h key

/-- The deltas of a loop are the same in any order of the set. -/
theorem diffKeys_congr : diffKeys S name delta base mod = diffKeys T name delta base mod := by
  simp only [diffKeys, fun xs ys => allKeys_eq (S := S) (T := T) (List.Perm.refl (xs ++ ys))]

theorem Exchanged.append {ds ds' es es' : List SemanticDelta} (h : Exchanged ds es)
    (h' : Exchanged ds' es') : Exchanged (ds ++ ds') (es ++ es') := by
  rw [Exchanged, List.filterMap_append, List.filterMap_append]
  exact List.Perm.append h h'

/-- A loop whose keys are exchanged, is exchanged. -/
theorem diffKeys_exchanged (delta : KeyDiff) (hwf : (Plain.dict base).wellFormed = true)
    (hwf' : (Plain.dict mod).wellFormed = true)
    (hdelta : ∀ key b m ds, (∀ v, b = some v → v.wellFormed = true) →
      (∀ v, m = some v → v.wellFormed = true) → delta key b m = .ok ds →
        ∃ es, delta key m b = .ok es ∧ Exchanged ds es)
    {ds : List SemanticDelta} (h : diffKeys S name delta base mod = .ok ds) :
    ∃ es, diffKeys T name delta mod base = .ok es ∧ Exchanged ds es := by
  obtain ⟨items, items', hbase, hmod⟩ := diffKeys_ok h
  rw [diffKeys_eq hbase hmod] at h
  rw [diffKeys_eq hmod hbase, allKeys_eq (T := S) List.perm_append_comm]
  cases hall : (allKeys S items items').mapM fun key =>
      delta key (lookupItem key items) (lookupItem key items') with
  | error e =>
    rw [hall] at h
    cases h
  | ok dss =>
    rw [hall] at h
    cases h
    obtain ⟨ess, hess, hrel⟩ := forall₂_mapM (r := Exchanged) (g := fun key =>
      delta key (lookupItem key items') (lookupItem key items))
      (fun key _ ds hds => hdelta key _ _ ds ((spec_keyed hwf hbase).2 key)
        ((spec_keyed hwf' hmod).2 key) hds) hall
    refine ⟨ess.flatten, by rw [hess]; rfl, ?_⟩
    clear hall hess
    induction hrel with
    | nil => exact .nil
    | cons hhead _ ih => exact hhead.append ih

end Keys

/-! ### What the comparers make of a key -/

section Entries
variable {R : Runtime} {key : String} {b m : Option Plain} {ds : List SemanticDelta}

theorem eq_none_iff {v : Plain} : v.eq .none = true ↔ v = .none := by
  cases v <;> simp [Plain.eq, Plain.number?]

theorem none_eq_iff {v : Plain} : Plain.none.eq v = true ↔ v = .none := by
  cases v <;> simp [Plain.eq, Plain.number?]

theorem configDelta_eq_nil_iff : configDelta R key b m = .ok [] ↔ SameEntry b m := by
  cases b with
  | none => cases m <;> simp [configDelta, SameEntry]
  | some v =>
    cases m with
    | none => simp [configDelta, SameEntry]
    | some w =>
      rw [configDelta, SameEntry]
      split <;> simp_all

theorem stateDelta_eq_nil_iff : stateDelta R key b m = .ok [] ↔
    (b.getD .none).eq (m.getD .none) = true := by
  simp only [stateDelta]
  split <;> simp_all

/-- Zones that are ranked give one delta, which neither adds nor removes. -/
theorem zoneMove_ok {v w : Plain} (h : zoneMove R key v w = .ok ds) :
    (∃ d, ds = [d] ∧ d.deltaType.opposite = none) ∧ ∃ es, zoneMove R key w v = .ok es := by
  rw [zoneMove] at h ⊢
  cases hv : zoneRank v with
  | error e =>
    rw [hv] at h
    cases h
  | ok vRank =>
    cases hw : zoneRank w with
    | error e =>
      rw [hv, hw] at h
      cases h
    | ok wRank =>
      rw [hv, hw] at h
      cases h
      refine ⟨⟨_, rfl, ?_⟩, _, rfl⟩
      show DeltaType.opposite (if vRank < wRank then _ else _) = none
      split <;> rfl

theorem zoneDelta_eq_nil_iff : zoneDelta R key b m = .ok [] ↔
    (b.getD .none).eq (m.getD .none) = true := by
  simp only [zoneDelta]
  split
  · simp_all
  · rename_i hne
    refine iff_of_false ?_ hne
    split
    · simp
    · simp
    · intro h
      obtain ⟨⟨d, hd, -⟩, -⟩ := zoneMove_ok h
      cases hd

theorem policyDelta_eq_nil_iff : policyDelta R key b m = .ok [] ↔
    (b.getD .none).eq (m.getD .none) = true := by
  simp only [policyDelta]
  split
  · rename_i hb hm
    rw [hb, hm]
    exact iff_of_true rfl rfl
  · rename_i hb hm
    rw [hb, none_eq_iff]
    exact iff_of_false (by simp) hm
  · rename_i hm hb
    rw [hm, eq_none_iff]
    exact iff_of_false (by simp) hb
  · split <;> simp_all

theorem configDelta_exchanged (h : configDelta R key b m = .ok ds) :
    ∃ es, configDelta R key m b = .ok es ∧ Exchanged ds es := by
  cases b with
  | none =>
    cases m with
    | none =>
      cases h
      exact ⟨_, rfl, .nil⟩
    | some w =>
      cases h
      exact ⟨_, rfl, .refl _⟩
  | some v =>
    cases m with
    | none =>
      cases h
      exact ⟨_, rfl, .refl _⟩
    | some w =>
      rw [configDelta] at h ⊢
      split at h <;> split <;> cases h <;> exact ⟨_, rfl, .refl _⟩

/-- Lists of deltas that neither add nor remove. -/
theorem Exchanged.of_none {es : List SemanticDelta} (h : ∀ d ∈ ds, d.deltaType.opposite = none)
    (h' : ∀ d ∈ es, d.deltaType.opposite = none) : Exchanged ds es := by
  rw [Exchanged, List.filterMap_eq_nil_iff.mpr fun d hd => by
    rw [SemanticDelta.exchanged, h d hd]
    rfl, List.filterMap_eq_nil_iff.mpr fun d hd => by
    rw [SemanticDelta.entry, h' d hd]
    rfl]

theorem opposite_stateChange (v w : Plain) : (stateChange v w).opposite = none := by
  rw [stateChange]
  split
  · split
    · rfl
    · split <;> rfl
  · rfl

theorem stateDelta_ok (h : stateDelta R key b m = .ok ds) :
    ∀ d ∈ ds, d.deltaType.opposite = none := by
  simp only [stateDelta] at h
  split at h
  · cases h
    exact List.forall_mem_nil _
  · cases h
    exact List.forall_mem_singleton.mpr (opposite_stateChange _ _)

theorem stateDelta_exchanged (h : stateDelta R key b m = .ok ds) :
    ∃ es, stateDelta R key m b = .ok es ∧ Exchanged ds es := by
  obtain ⟨es, hes⟩ : ∃ es, stateDelta R key m b = .ok es := by
    simp only [stateDelta]
    split <;> exact ⟨_, rfl⟩
  exact ⟨es, hes, .of_none (stateDelta_ok h) (stateDelta_ok hes)⟩

theorem policyDelta_of_ne (key : String) (hb : b.getD .none ≠ .none) (hm : m.getD .none ≠ .none) :
    ∃ ds, policyDelta R key b m = .ok ds ∧ ∀ d ∈ ds, d.deltaType.opposite = none := by
  simp only [policyDelta]
  split
  · exact absurd ‹b.getD .none = .none› hb
  · exact absurd ‹b.getD .none = .none› hb
  · exact absurd ‹m.getD .none = .none› hm
  · split
    · exact ⟨_, rfl, List.forall_mem_nil _⟩
    · exact ⟨_, rfl, List.forall_mem_singleton.mpr rfl⟩

theorem policyDelta_exchanged (h : policyDelta R key b m = .ok ds) :
    ∃ es, policyDelta R key m b = .ok es ∧ Exchanged ds es := by
  by_cases hb : b.getD .none = .none
  · by_cases hm : m.getD .none = .none
    · rw [policyDelta, hb, hm] at h
      rw [policyDelta, hb, hm]
      cases h
      exact ⟨_, rfl, .nil⟩
    · simp only [policyDelta, hb] at h ⊢
      cases h
      exact ⟨_, rfl, .refl _⟩
  · by_cases hm : m.getD .none = .none
    · simp only [policyDelta, hm] at h ⊢
      cases h
      exact ⟨_, rfl, .refl _⟩
    · obtain ⟨ds', hds, hnone⟩ := policyDelta_of_ne (R := R) key hb hm
      obtain ⟨es, hes, hnone'⟩ := policyDelta_of_ne (R := R) key hm hb
      obtain rfl := Except.ok.inj (hds.symm.trans h)
      exact ⟨es, hes, .of_none hnone hnone'⟩

theorem zoneDelta_exchanged (hb : ∀ v, b = some v → v.wellFormed = true)
    (hm : ∀ v, m = some v → v.wellFormed = true) (h : zoneDelta R key b m = .ok ds) :
    ∃ es, zoneDelta R key m b = .ok es ∧ Exchanged ds es := by
  have hwf : ∀ o : Option Plain, (∀ v, o = some v → v.wellFormed = true) →
      (o.getD .none).wellFormed = true := by
    intro o ho
    cases o with
    | none => rfl
    | some v => exact ho v rfl
  by_cases heq : (b.getD .none).eq (m.getD .none) = true
  · have hback := Plain.eq_symm _ _ (hwf b hb) (hwf m hm) heq
    rw [zoneDelta_eq_nil_iff.mpr heq] at h
    cases h
    exact ⟨[], zoneDelta_eq_nil_iff.mpr hback, .nil⟩
  · have hback : ¬ (m.getD .none).eq (b.getD .none) = true := fun hback =>
      heq (Plain.eq_symm _ _ (hwf m hm) (hwf b hb) hback)
    simp only [zoneDelta, if_neg heq] at h
    simp only [zoneDelta, if_neg hback]
    split at h
    · rename_i hbnone
      cases h
      split
      · rename_i hmnone
        rw [hbnone, hmnone] at heq
        exact absurd rfl heq
      · exact ⟨_, rfl, .refl _⟩
      · rename_i hne
        exact absurd hbnone hne
    · rename_i hmnone hbne
      cases h
      split
      · exact ⟨_, rfl, .refl _⟩
      · exact absurd ‹b.getD .none = .none› hbne
      · rename_i hne _
        exact absurd hmnone hne
    · rename_i hbne hmne
      obtain ⟨⟨d, rfl, hd⟩, es, hes⟩ := zoneMove_ok h
      obtain ⟨⟨d', rfl, hd'⟩, -⟩ := zoneMove_ok hes
      exact ⟨_, hes, .of_none (List.forall_mem_singleton.mpr hd)
        (List.forall_mem_singleton.mpr hd')⟩

end Entries

/-! ### Topologies -/

section Topology
variable {R : Runtime} {S T : SetOrder} {base mod nodes nodes' : Items}
  {edges edges' : List Plain} {ds : List SemanticDelta}

def nodeAdded (R : Runtime) (nodeId : String) : SemanticDelta :=
  makeDelta R .nodeAdded ("nodes." ++ nodeId) "Node added to topology" .none (.str nodeId)

def nodeRemoved (R : Runtime) (nodeId : String) : SemanticDelta :=
  makeDelta R .nodeRemoved ("nodes." ++ nodeId) "Node removed from topology" (.str nodeId) .none

theorem diffTopology_eq (h : Topologies base mod nodes nodes' edges edges') :
    diffTopology R S base mod = .ok ((S.order (keysBut nodes' nodes)).map (nodeAdded R) ++
      (S.order (keysBut nodes nodes')).map (nodeRemoved R)) := by
  rw [diffTopology, h.nodes, h.nodes', h.edges, h.edges']
  rfl

theorem topologies_of_ok (h : diffTopology R S base mod = .ok ds) :
    ∃ nodes nodes' edges edges', Topologies base mod nodes nodes' edges edges' := by
  rw [diffTopology] at h
  obtain ⟨nodes, hnodes, h⟩ := bind_ok h
  obtain ⟨nodes', hnodes', h⟩ := bind_ok h
  obtain ⟨edges, hedges, h⟩ := bind_ok h
  obtain ⟨edges', hedges', -⟩ := bind_ok h
  exact ⟨nodes, nodes', edges, edges', hnodes, hnodes', hedges, hedges'⟩

theorem Topologies.symm (h : Topologies base mod nodes nodes' edges edges') :
    Topologies mod base nodes' nodes edges' edges := ⟨h.nodes', h.nodes, h.edges', h.edges⟩

theorem edgesOf_ok (h : edgesOf base = .ok edges) :
    iterated (part "edges" (.list []) base) = .ok edges := by
  rw [edgesOf] at h
  obtain ⟨xs, hread, h⟩ := bind_ok h
  obtain ⟨-, -, h⟩ := bind_ok h
  cases h
  exact hread

theorem partsEqual_topology (h : Topologies base mod nodes nodes' edges edges') :
    PartsEqual .topology base mod ↔
      (Plain.dict nodes).eq (.dict nodes') = true ∧ SameMultiset edges edges' := by
  rw [PartsEqual, keyed_eq_ok.mp h.nodes, keyed_eq_ok.mp h.nodes', elements, elements,
    edgesOf_ok h.edges, edgesOf_ok h.edges']

theorem order_eq_nil_iff {α : Type} {xs : List α} : S.order xs = [] ↔ xs = [] := by
  rw [← List.length_eq_zero_iff, (S.perm xs).length_eq, List.length_eq_zero_iff]

theorem keysBut_eq_nil_iff : keysBut nodes nodes' = [] ↔
    ∀ id, (lookupItem id nodes).isSome = true → (lookupItem id nodes').isSome = true := by
  rw [keysBut, List.filter_eq_nil_iff]
  refine forall_congr' fun id => ?_
  rw [mem_keys_iff, ← Option.not_isSome, Bool.not_eq_true', Bool.not_eq_false]

theorem diffTopology_eq_nil_iff (h : Topologies base mod nodes nodes' edges edges') :
    diffTopology R S base mod = .ok [] ↔
      ∀ id, (lookupItem id nodes).isSome = (lookupItem id nodes').isSome := by
  rw [diffTopology_eq h, Except.ok.injEq, List.append_eq_nil_iff, List.map_eq_nil_iff,
    List.map_eq_nil_iff, order_eq_nil_iff, order_eq_nil_iff, keysBut_eq_nil_iff, keysBut_eq_nil_iff,
    ← forall_and]
  refine forall_congr' fun id => ?_
  exact ⟨fun ⟨hback, hforth⟩ => Bool.eq_iff_iff.mpr ⟨hforth, hback⟩,
    fun heq => ⟨fun h => heq.trans h, fun h => heq.symm.trans h⟩⟩

/-- What is added in one order is removed in another. -/
theorem diffTopology_exchanged (h : diffTopology R S base mod = .ok ds) :
    ∃ es, diffTopology R T mod base = .ok es ∧ Exchanged ds es := by
  obtain ⟨nodes, nodes', edges, edges', htopologies⟩ := topologies_of_ok h
  rw [diffTopology_eq htopologies] at h
  cases h
  refine ⟨_, diffTopology_eq htopologies.symm, ?_⟩
  have hadded : ∀ ids : List String, (ids.map (nodeAdded R)).filterMap SemanticDelta.exchanged =
      (ids.map (nodeRemoved R)).filterMap SemanticDelta.entry := by
    intro ids
    rw [List.filterMap_map, List.filterMap_map]
    rfl
  have hremoved : ∀ ids : List String, (ids.map (nodeRemoved R)).filterMap
      SemanticDelta.exchanged = (ids.map (nodeAdded R)).filterMap SemanticDelta.entry := by
    intro ids
    rw [List.filterMap_map, List.filterMap_map]
    rfl
  rw [Exchanged, List.filterMap_append, List.filterMap_append, hadded, hremoved]
  have horder : ∀ ids : List String, (S.order ids).Perm (T.order ids) :=
    fun ids => (S.perm ids).trans (T.perm ids).symm
  exact List.perm_append_comm.trans ((((horder _).map _).filterMap _).append
    (((horder _).map _).filterMap _))

/-- A list without repetitions that is its own reverse has at most one element. -/
theorem length_le_one_of_reverse {α : Type} {xs : List α} (hnodup : xs.Nodup)
    (h : xs.reverse = xs) : xs.length ≤ 1 := by
  by_contra hlong
  have hlast : xs.length - 1 < xs.length := by omega
  have hzero : 0 < xs.length := by omega
  have hfirst : xs[xs.length - 1] = xs[0] := by
    have hreverse : xs.reverse[0]? = xs[0]? := by rw [h]
    rw [List.getElem?_reverse hzero, List.getElem?_eq_getElem hzero] at hreverse
    rw [List.getElem?_eq_getElem (by omega)] at hreverse
    simpa using hreverse
  rw [hnodup.getElem_inj_iff] at hfirst
  omega

theorem order_of_length_le_one {α : Type} {xs : List α} (h : xs.length ≤ 1) : S.order xs = xs := by
  rcases Nat.le_one_iff_eq_zero_or_eq_one.mp h with hzero | hone
  · rw [List.length_eq_zero_iff.mp hzero, List.perm_nil.mp (S.perm [])]
  · obtain ⟨x, rfl⟩ := List.length_eq_one_iff.mp hone
    exact List.perm_singleton.mp (S.perm [x])

def inOrder : SetOrder := ⟨fun xs => xs, fun xs => .refl xs⟩

def backwards : SetOrder := ⟨List.reverse, List.reverse_perm⟩

theorem nodup_keysBut (h : (nodes.map Prod.fst).Nodup) : (keysBut nodes nodes').Nodup :=
  h.filter _

/-- The order does not show exactly if at most one node is added and one removed. -/
theorem diffTopology_unordered_iff (h : Topologies base mod nodes nodes' edges edges')
    (hnodup : (nodes.map Prod.fst).Nodup) (hnodup' : (nodes'.map Prod.fst).Nodup) :
    (∀ S T, diffTopology R S base mod = diffTopology R T base mod) ↔
      (keysBut nodes' nodes).length ≤ 1 ∧ (keysBut nodes nodes').length ≤ 1 := by
  simp only [diffTopology_eq h, Except.ok.injEq]
  constructor
  · intro hall
    have hboth := List.append_inj (hall backwards inOrder) (by simp [inOrder, backwards])
    have hadded : Function.Injective (nodeAdded R) := fun a b hab =>
      Plain.str.inj (congrArg SemanticDelta.modifiedValue hab)
    have hremoved : Function.Injective (nodeRemoved R) := fun a b hab =>
      Plain.str.inj (congrArg SemanticDelta.baselineValue hab)
    exact ⟨length_le_one_of_reverse (nodup_keysBut hnodup')
        (List.map_injective_iff.mpr hadded hboth.1),
      length_le_one_of_reverse (nodup_keysBut hnodup)
        (List.map_injective_iff.mpr hremoved hboth.2)⟩
  · rintro ⟨hadded, hremoved⟩ S T
    have hone : ∀ {xs : List String}, xs.length ≤ 1 → S.order xs = T.order xs := by
      intro xs hxs
      rw [order_of_length_le_one hxs, order_of_length_le_one hxs]
    rw [hone hadded, hone hremoved]

end Topology

/-! ### Capabilities -/

section Capabilities
variable {R : Runtime} {S T : SetOrder} {base mod : Items} {xs ys s t : List Plain}
  {ds : List SemanticDelta}

theorem mem_setOf {x : Plain} (h : x ∈ setOf xs) : x ∈ xs := by
  induction xs with
  | nil => exact h
  | cons y xs ih =>
    rcases List.mem_cons.mp h with rfl | hrest
    · exact List.mem_cons_self ..
    · exact List.mem_cons_of_mem _ (ih (List.mem_filter.mp hrest).1)

/-- Every element is in the set, or one that is equal to it. -/
theorem exists_setOf (h : ∀ x ∈ xs, x.hashable = true) {x : Plain} (hx : x ∈ xs) :
    ∃ y ∈ setOf xs, y.eq x = true := by
  induction xs with
  | nil => cases hx
  | cons z xs ih =>
    have hrefl := Plain.eq_refl x (wellFormed_of_hashable (h x hx))
    rcases List.mem_cons.mp hx with rfl | hrest
    · exact ⟨x, List.mem_cons_self .., hrefl⟩
    · obtain ⟨y, hy, heq⟩ := ih (fun w hw => h w (List.mem_cons_of_mem _ hw)) hrest
      by_cases hz : y.eq z = true
      · have hback := Plain.eq_symm y z
          (wellFormed_of_hashable (h y (List.mem_cons_of_mem _ (mem_setOf hy))))
          (wellFormed_of_hashable (h z (List.mem_cons_self ..))) hz
        exact ⟨z, List.mem_cons_self .., Plain.eq_trans _ _ _ hback heq⟩
      · exact ⟨y, List.mem_cons_of_mem _ (List.mem_filter.mpr ⟨hy, by simpa using hz⟩), heq⟩

/-- No element is equal to another. -/
theorem pairwise_setOf (h : ∀ x ∈ xs, x.hashable = true) :
    (setOf xs).Pairwise fun x y => ¬ (x.eq y = true ∨ y.eq x = true) := by
  induction xs with
  | nil => exact .nil
  | cons x xs ih =>
    obtain ⟨hx, hxs⟩ := List.forall_mem_cons.mp h
    refine .cons (fun y hy => ?_) ((ih hxs).filter _)
    obtain ⟨hmem, hne⟩ := List.mem_filter.mp hy
    have hback := Plain.eq_symm x y (wellFormed_of_hashable hx)
      (wellFormed_of_hashable (hxs y (mem_setOf hmem)))
    rw [Bool.not_eq_true', ← Bool.not_eq_true] at hne
    exact fun heq => hne (heq.elim hback id)

theorem but_eq_nil_iff : but s t = [] ↔ ∀ x ∈ s, ∃ y ∈ t, y.eq x = true := by
  rw [but, List.filter_eq_nil_iff]
  refine forall_congr' fun x => imp_congr_right fun _ => ?_
  rw [Bool.not_eq_true', Bool.not_eq_false, List.any_eq_true]

theorem text?_eq_some {x : Plain} {a : String} : text? x = some a ↔ x = .str a := by
  cases x <;> simp [text?]

theorem sorted_perm (h : sorted xs = .ok ys) : ys.Perm xs := by
  rw [sorted] at h
  split at h
  · cases h
    exact .refl _
  · split at h
    · cases h
      exact (stableSort_sortBy _ _).perm
    · split at h
      · cases h
        exact (stableSort_sortBy _ _).perm
      · cases h

theorem sorted_eq_nil_iff : sorted xs = .ok [] ↔ xs = [] := by
  refine ⟨fun h => List.perm_nil.mp (sorted_perm h).symm, fun h => ?_⟩
  rw [h]
  rfl

/-- Different strings, or different numbers, come sorted in one way. -/
theorem sorted_congr (hdistinct : xs.Pairwise fun x y => ¬ x.eq y = true) (h : xs.Perm ys) :
    sorted xs = sorted ys := by
  rw [sorted, sorted, h.length_eq, h.all_eq, h.all_eq]
  split
  · rename_i hone
    rcases Nat.le_one_iff_eq_zero_or_eq_one.mp hone with hzero | hone
    · rw [List.length_eq_zero_iff.mp hzero] at h ⊢
      rw [List.perm_nil.mp h]
    · obtain ⟨y, rfl⟩ := List.length_eq_one_iff.mp hone
      rw [List.perm_singleton.mp h]
  · split
    · rename_i hall
      refine congrArg Except.ok ((sortBy_eq_iff (List.pairwise_map.mpr ?_)).mpr h)
      rw [← h.all_eq, List.all_eq_true] at hall
      refine hdistinct.imp_of_mem fun {x y} hx hy hne heq => hne ?_
      obtain ⟨a, ha⟩ := Option.isSome_iff_exists.mp (hall x hx)
      obtain ⟨b, hb⟩ := Option.isSome_iff_exists.mp (hall y hy)
      rw [ha, hb] at heq
      rw [text?_eq_some.mp ha, text?_eq_some.mp hb]
      simpa [Plain.eq] using heq
    · split
      · rename_i hall
        refine congrArg Except.ok ((sortBy_eq_iff (List.pairwise_map.mpr ?_)).mpr h)
        rw [← h.all_eq, List.all_eq_true] at hall
        refine hdistinct.imp_of_mem fun {x y} hx hy hne heq => hne ?_
        obtain ⟨a, ha⟩ := Option.isSome_iff_exists.mp (hall x hx)
        obtain ⟨b, hb⟩ := Option.isSome_iff_exists.mp (hall y hy)
        rw [ha, hb] at heq
        obtain rfl : a = b := Dyadic.toRat_inj.mp heq
        exact Plain.eq_of_number ha hb
      · rfl

theorem capabilitySet_ok {v : Plain} (h : capabilitySet v = .ok s) :
    (∀ x ∈ elements v, x.hashable = true) ∧ s = setOf (elements v) := by
  rw [capabilitySet] at h
  obtain ⟨xs, hread, h⟩ := bind_ok h
  rw [elements, hread]
  split at h
  · rename_i hall
    exact ⟨List.all_eq_true.mp hall, (Except.ok.inj h).symm⟩
  · cases h

def capabilityAdded (R : Runtime) (cap : Plain) : SemanticDelta :=
  makeDelta R .capabilityAdded ("capabilities." ++ R.str cap)
    ("Capability '" ++ R.str cap ++ "' added") .none cap

def capabilityRemoved (R : Runtime) (cap : Plain) : SemanticDelta :=
  makeDelta R .capabilityRemoved ("capabilities." ++ R.str cap)
    ("Capability '" ++ R.str cap ++ "' removed") cap .none

abbrev capabilities (data : Items) : Plain := part "capabilities" (.list []) data

theorem diffCapabilityMesh_ok_iff : diffCapabilityMesh R S base mod = .ok ds ↔
    ∃ s t added removed, capabilitySet (capabilities base) = .ok s ∧
      capabilitySet (capabilities mod) = .ok t ∧ sorted (S.order (but t s)) = .ok added ∧
      sorted (S.order (but s t)) = .ok removed ∧
      ds = added.map (capabilityAdded R) ++ removed.map (capabilityRemoved R) := by
  constructor
  · intro h
    rw [diffCapabilityMesh] at h
    obtain ⟨s, hs, h⟩ := bind_ok h
    obtain ⟨t, ht, h⟩ := bind_ok h
    obtain ⟨added, hadded, h⟩ := bind_ok h
    obtain ⟨removed, hremoved, h⟩ := bind_ok h
    exact ⟨s, t, added, removed, hs, ht, hadded, hremoved, (Except.ok.inj h).symm⟩
  · rintro ⟨s, t, added, removed, hs, ht, hadded, hremoved, rfl⟩
    rw [diffCapabilityMesh, hs, ht]
    show (sorted (S.order (but t s)) >>= fun _ => sorted (S.order (but s t)) >>= _) = _
    rw [hadded, hremoved]
    rfl

theorem partsEqual_capabilities (h : diffCapabilityMesh R S base mod = .ok []) :
    SameSet (elements (capabilities base)) (elements (capabilities mod)) := by
  obtain ⟨s, t, added, removed, hs, ht, hadded, hremoved, hnil⟩ := diffCapabilityMesh_ok_iff.mp h
  obtain ⟨haddedNil, hremovedNil⟩ := List.append_eq_nil_iff.mp hnil.symm
  rw [List.map_eq_nil_iff.mp haddedNil, sorted_eq_nil_iff, order_eq_nil_iff,
    but_eq_nil_iff] at hadded
  rw [List.map_eq_nil_iff.mp hremovedNil, sorted_eq_nil_iff, order_eq_nil_iff,
    but_eq_nil_iff] at hremoved
  obtain ⟨hhashable, rfl⟩ := capabilitySet_ok hs
  obtain ⟨hhashable', rfl⟩ := capabilitySet_ok ht
  have hcovered : ∀ {xs ys : List Plain}, (∀ x ∈ xs, x.hashable = true) →
      (∀ x ∈ setOf xs, ∃ y ∈ setOf ys, y.eq x = true) → ∀ x ∈ xs, ∃ y ∈ ys, y.eq x = true := by
    intro xs ys hxs hsets x hx
    obtain ⟨x', hx', heq⟩ := exists_setOf hxs hx
    obtain ⟨y, hy, heq'⟩ := hsets x' hx'
    exact ⟨y, mem_setOf hy, Plain.eq_trans _ _ _ heq' heq⟩
  exact ⟨hcovered hhashable hremoved, hcovered hhashable' hadded⟩

theorem sorted_order_congr (hs : ∀ x ∈ xs, x.hashable = true) :
    sorted (S.order (but (setOf xs) t)) = sorted (T.order (but (setOf xs) t)) := by
  have hpairwise : (but (setOf xs) t).Pairwise fun x y => ¬ (x.eq y = true ∨ y.eq x = true) :=
    (pairwise_setOf hs).filter _
  have hordered := (S.perm (but (setOf xs) t)).symm.pairwise hpairwise fun h => h ∘ Or.symm
  exact sorted_congr (hordered.imp fun h heq => h (.inl heq)) ((S.perm _).trans (T.perm _).symm)

theorem diffCapabilityMesh_congr :
    diffCapabilityMesh R S base mod = diffCapabilityMesh R T base mod := by
  rw [diffCapabilityMesh, diffCapabilityMesh]
  cases hs : capabilitySet (capabilities base) with
  | error e => rfl
  | ok s =>
    cases ht : capabilitySet (capabilities mod) with
    | error e => rfl
    | ok t =>
      obtain ⟨hhashable, rfl⟩ := capabilitySet_ok hs
      obtain ⟨hhashable', rfl⟩ := capabilitySet_ok ht
      show (sorted (S.order _) >>= fun added => sorted (S.order _) >>= fun removed => _) =
        (sorted (T.order _) >>= fun added => sorted (T.order _) >>= fun removed => _)
      rw [sorted_order_congr (T := T) hhashable', sorted_order_congr (T := T) hhashable]

theorem diffCapabilityMesh_exchanged (h : diffCapabilityMesh R S base mod = .ok ds) :
    ∃ es, diffCapabilityMesh R T mod base = .ok es ∧ Exchanged ds es := by
  obtain ⟨s, t, added, removed, hs, ht, hadded, hremoved, rfl⟩ :=
    diffCapabilityMesh_ok_iff.mp ((diffCapabilityMesh_congr (S := T)).trans h)
  refine ⟨_, diffCapabilityMesh_ok_iff.mpr ⟨t, s, removed, added, ht, hs, hremoved, hadded,
    rfl⟩, ?_⟩
  have hadds : (added.map (capabilityAdded R)).filterMap SemanticDelta.exchanged =
      (added.map (capabilityRemoved R)).filterMap SemanticDelta.entry := by
    rw [List.filterMap_map, List.filterMap_map]
    rfl
  have hremoves : (removed.map (capabilityRemoved R)).filterMap SemanticDelta.exchanged =
      (removed.map (capabilityAdded R)).filterMap SemanticDelta.entry := by
    rw [List.filterMap_map, List.filterMap_map]
    rfl
  rw [Exchanged, List.filterMap_append, List.filterMap_append, hadds, hremoves]
  exact List.perm_append_comm

end Capabilities

/-! ### Other types -/

section Generic
variable {R : Runtime} {S T : SetOrder} {base mod : Items}

theorem sortBy_order_congr {ids : List String} (h : ids.Nodup) :
    sortBy id (S.order ids) = sortBy id (T.order ids) := by
  refine (sortBy_eq_iff ?_).mpr ((S.perm ids).trans (T.perm ids).symm)
  rw [List.map_id]
  exact (S.perm ids).nodup_iff.mpr h

theorem diffGeneric_congr (h : (base.map Prod.fst).Nodup) (h' : (mod.map Prod.fst).Nodup) :
    diffGeneric R S base mod = diffGeneric R T base mod := by
  rw [diffGeneric, diffGeneric, sortBy_order_congr (T := T) (nodup_keysBut h'),
    sortBy_order_congr (T := T) (nodup_keysBut h), sortBy_order_congr (T := T) (h.filter _)]

/-- A delta of these types neither adds nor removes. -/
theorem diffGeneric_opposite : ∀ d ∈ diffGeneric R S base mod, d.deltaType.opposite = none := by
  simp only [diffGeneric, List.mem_append, List.mem_map]
  rintro d ((⟨key, -, rfl⟩ | ⟨key, -, rfl⟩) | ⟨key, -, rfl⟩) <;> rfl

theorem eq_of_diffGeneric (h : (base.map Prod.fst).Nodup) (h' : (mod.map Prod.fst).Nodup)
    (hnil : diffGeneric R S base mod = []) : (Plain.dict base).eq (.dict mod) = true := by
  have hsorted : ∀ {ids : List String}, sortBy id (S.order ids) = [] → ids = [] := by
    intro ids hids
    have hperm := (stableSort_sortBy id (S.order ids)).perm.trans (S.perm ids)
    rw [hids] at hperm
    exact List.nil_perm.mp hperm
  rw [diffGeneric, List.append_eq_nil_iff, List.append_eq_nil_iff, List.map_eq_nil_iff,
    List.map_eq_nil_iff, List.map_eq_nil_iff] at hnil
  obtain ⟨⟨hadded, hremoved⟩, hchanged⟩ := hnil
  have hin := keysBut_eq_nil_iff.mp (hsorted hremoved)
  have hback := keysBut_eq_nil_iff.mp (hsorted hadded)
  refine (eq_dict_iff h h').mpr fun key => ?_
  cases hfound : lookupItem key base with
  | none =>
    cases hfound' : lookupItem key mod with
    | none => trivial
    | some w =>
      have hsome := hback key (Option.isSome_of_eq_some hfound')
      rw [hfound] at hsome
      cases hsome
  | some v =>
    have hsome := hin key (Option.isSome_of_eq_some hfound)
    obtain ⟨w, hw⟩ := Option.isSome_iff_exists.mp hsome
    have hmem : key ∈ sortBy id (S.order ((base.map Prod.fst).filter fun key =>
        (lookupItem key mod).isSome)) := by
      rw [(stableSort_sortBy id _).mem_iff, (S.perm _).mem_iff, List.mem_filter, mem_keys_iff]
      exact ⟨Option.isSome_of_eq_some hfound, hsome⟩
    have hsame := List.filter_eq_nil_iff.mp hchanged key hmem
    rw [getOr, getOr, hfound, hw, Bool.not_eq_true', Bool.not_eq_false] at hsame
    rw [hw]
    exact hsame

end Generic

/-! ### The diff -/

section Diff
variable {R : Runtime} {S T : SetOrder} {base mod : Items} {t : SnapshotType}
  {ds : List SemanticDelta} {name : String}

theorem nodup_of_wellFormed (h : (Plain.dict base).wellFormed = true) :
    (base.map Prod.fst).Nodup := by
  simp only [Plain.wellFormed, Bool.and_eq_true, decide_eq_true_eq] at h
  exact h.1

theorem sameEntry_getD {b m : Option Plain} (h : (b.getD .none).eq (m.getD .none) = true)
    (hnull : ¬ (b = some .none ∧ m = none ∨ b = none ∧ m = some .none)) : SameEntry b m := by
  cases b with
  | none =>
    cases m with
    | none => trivial
    | some w => exact absurd (.inr ⟨rfl, congrArg some (none_eq_iff.mp h)⟩) hnull
  | some v =>
    cases m with
    | none => exact absurd (.inl ⟨congrArg some (eq_none_iff.mp h), rfl⟩) hnull
    | some w => exact h

/-- A comparer that takes a null for an absent key misses exactly what is different in that
alone. -/
theorem complete_keys_iff {delta : KeyDiff}
    (hdelta : ∀ key b m, delta key b m = .ok [] ↔ (b.getD .none).eq (m.getD .none) = true)
    (h : (Plain.dict base).wellFormed = true) (h' : (Plain.dict mod).wellFormed = true) :
    (diffKeys S name delta base mod = .ok [] →
      (part name (.dict []) base).eq (part name (.dict []) mod) = true) ↔
        ¬ NullKey name base mod := by
  have habsent : ∀ key, delta key none none = .ok [] := fun key => (hdelta key none none).mpr rfl
  constructor
  · rintro hcomplete ⟨items, items', hbase, hmod, hsame, key, hkey⟩
    have heq := hcomplete ((diffKeys_eq_nil_iff habsent).mpr ⟨items, items', hbase, hmod,
      fun key => (hdelta key _ _).mpr (hsame key)⟩)
    rw [keyed_eq_ok.mp hbase, keyed_eq_ok.mp hmod,
      eq_dict_iff (spec_keyed h hbase).1 (spec_keyed h' hmod).1] at heq
    have hentry := heq key
    rcases hkey with ⟨hnull, hnone⟩ | ⟨hnone, hnull⟩
    · rw [hnull, hnone] at hentry
      exact hentry
    · rw [hnull, hnone] at hentry
      exact hentry
  · intro hnull hnil
    obtain ⟨items, items', hbase, hmod, hkeys⟩ := (diffKeys_eq_nil_iff habsent).mp hnil
    rw [keyed_eq_ok.mp hbase, keyed_eq_ok.mp hmod,
      eq_dict_iff (spec_keyed h hbase).1 (spec_keyed h' hmod).1]
    have hsame := fun key => (hdelta key _ _).mp (hkeys key)
    exact fun key => sameEntry_getD (hsame key) fun hkey =>
      hnull ⟨items, items', hbase, hmod, hsame, key, hkey⟩

/-- What a comparer misses is what is not looked at. -/
theorem deltas_complete_iff (h : (Plain.dict base).wellFormed = true)
    (h' : (Plain.dict mod).wellFormed = true) :
    (∀ S, deltasOf R S t base mod = .ok [] → PartsEqual t base mod) ↔ ¬ Blind t base mod := by
  have hany : ∀ {p : Prop}, (SetOrder → p) ↔ p := ⟨fun hp => hp inOrder, fun hp _ => hp⟩
  cases t with
  | topology =>
    constructor
    · rintro hcomplete ⟨nodes, nodes', edges, edges', htopologies, hkeys, hdiffer⟩
      have hnil := (diffTopology_eq_nil_iff (R := R) (S := inOrder) htopologies).mpr hkeys
      exact hdiffer ((partsEqual_topology htopologies).mp (hcomplete inOrder hnil))
    · intro hseen S hnil
      obtain ⟨nodes, nodes', edges, edges', htopologies⟩ := topologies_of_ok hnil
      have hkeys := (diffTopology_eq_nil_iff htopologies).mp hnil
      refine (partsEqual_topology htopologies).mpr ?_
      by_contra hdiffer
      exact hseen ⟨nodes, nodes', edges, edges', htopologies, hkeys, hdiffer⟩
  | configuration =>
    refine iff_of_true (fun S hnil => ?_) not_false
    obtain ⟨items, items', hbase, hmod, hkeys⟩ := (diffKeys_eq_nil_iff fun _ => rfl).mp hnil
    rw [PartsEqual, keyed_eq_ok.mp hbase, keyed_eq_ok.mp hmod,
      eq_dict_iff (spec_keyed h hbase).1 (spec_keyed h' hmod).1]
    exact fun key => configDelta_eq_nil_iff.mp (hkeys key)
  | state =>
    refine (forall_congr' fun S => ?_).trans hany
    exact complete_keys_iff (fun _ _ _ => stateDelta_eq_nil_iff) h h'
  | trustZone =>
    refine (forall_congr' fun S => ?_).trans hany
    exact complete_keys_iff (fun _ _ _ => zoneDelta_eq_nil_iff) h h'
  | policyEvaluation =>
    refine (forall_congr' fun S => ?_).trans hany
    exact complete_keys_iff (fun _ _ _ => policyDelta_eq_nil_iff) h h'
  | capabilityMesh => exact iff_of_true (fun S hnil => partsEqual_capabilities hnil) not_false
  | eventLog | composite =>
    exact iff_of_true (fun S hnil => eq_of_diffGeneric (nodup_of_wellFormed h)
      (nodup_of_wellFormed h') (Except.ok.inj hnil)) not_false

theorem deltasOf_exchanged (h : (Plain.dict base).wellFormed = true)
    (h' : (Plain.dict mod).wellFormed = true) (hds : deltasOf R S t base mod = .ok ds) :
    ∃ es, deltasOf R T t mod base = .ok es ∧ Exchanged ds es := by
  cases t with
  | topology => exact diffTopology_exchanged hds
  | configuration =>
    exact diffKeys_exchanged (configDelta R) h h' (fun _ _ _ _ _ _ => configDelta_exchanged) hds
  | state =>
    exact diffKeys_exchanged (stateDelta R) h h' (fun _ _ _ _ _ _ => stateDelta_exchanged) hds
  | trustZone =>
    exact diffKeys_exchanged (zoneDelta R) h h' (fun _ _ _ _ => zoneDelta_exchanged) hds
  | policyEvaluation =>
    exact diffKeys_exchanged (policyDelta R) h h' (fun _ _ _ _ _ _ => policyDelta_exchanged) hds
  | capabilityMesh => exact diffCapabilityMesh_exchanged hds
  | eventLog | composite =>
    cases hds
    exact ⟨_, rfl, .of_none diffGeneric_opposite diffGeneric_opposite⟩

/-- The order shows in a topology with several nodes added or removed, and there alone. -/
theorem unordered_iff (h : (Plain.dict base).wellFormed = true)
    (h' : (Plain.dict mod).wellFormed = true) :
    (∀ S T, deltasOf R S t base mod = deltasOf R T t base mod) ↔ ¬ Scattered t base mod := by
  have hgeneric : ∀ {S T : SetOrder}, diffGeneric R S base mod = diffGeneric R T base mod :=
    diffGeneric_congr (nodup_of_wellFormed h) (nodup_of_wellFormed h')
  cases t with
  | topology =>
    constructor
    · rintro hall ⟨-, nodes, nodes', edges, edges', htopologies, hmany⟩
      have hone := (diffTopology_unordered_iff htopologies (spec_keyed h htopologies.nodes).1
        (spec_keyed h' htopologies.nodes').1).mp hall
      omega
    · intro hfew S T
      show diffTopology R S base mod = diffTopology R T base mod
      by_cases hread : ∃ nodes nodes' edges edges', Topologies base mod nodes nodes' edges edges'
      · obtain ⟨nodes, nodes', edges, edges', htopologies⟩ := hread
        refine (diffTopology_unordered_iff htopologies (spec_keyed h htopologies.nodes).1
          (spec_keyed h' htopologies.nodes').1).mpr ?_ S T
        by_contra hmany
        refine hfew ⟨rfl, nodes, nodes', edges, edges', htopologies, ?_⟩
        omega
      · -- What cannot be read raises before any set is gone through.
        rw [diffTopology, diffTopology]
        cases hnodes : keyed (part "nodes" (.dict []) base) with
        | error e => rfl
        | ok nodes =>
          cases hnodes' : keyed (part "nodes" (.dict []) mod) with
          | error e => rfl
          | ok nodes' =>
            cases hedges : edgesOf base with
            | error e => rfl
            | ok edges =>
              cases hedges' : edgesOf mod with
              | error e => rfl
              | ok edges' =>
                exact absurd ⟨nodes, nodes', edges, edges', hnodes, hnodes', hedges, hedges'⟩ hread
  | configuration | state | trustZone | policyEvaluation =>
    exact iff_of_true (fun S T => diffKeys_congr) fun hmany => by cases hmany.1
  | capabilityMesh =>
    exact iff_of_true (fun S T => diffCapabilityMesh_congr) fun hmany => by cases hmany.1
  | eventLog | composite =>
    exact iff_of_true (fun S T => congrArg Except.ok hgeneric) fun hmany => by cases hmany.1

variable {Q : Type} {N : Floats Q} {a b : JsonSnapshot}

theorem map_diff (htenant : a.artifact.payload.tenantId = b.artifact.payload.tenantId)
    (htype : a.artifact.payload.snapshotType = b.artifact.payload.snapshotType) :
    (diff R S N a.artifact b.artifact).map (·.deltas) =
      deltasOf R S a.artifact.payload.snapshotType a.data b.data := by
  rw [diff, if_neg (not_not.mpr htenant), if_neg (not_not.mpr htype)]
  show Except.map _ (deltasOf R S _ a.data b.data >>= _) = _
  cases deltasOf R S a.artifact.payload.snapshotType a.data b.data <;> rfl

theorem exists_report (htenant : a.artifact.payload.tenantId = b.artifact.payload.tenantId)
    (htype : a.artifact.payload.snapshotType = b.artifact.payload.snapshotType) :
    deltasOf R S a.artifact.payload.snapshotType a.data b.data = .ok ds ↔
      ∃ report, diff R S N a.artifact b.artifact = .ok report ∧ report.deltas = ds := by
  rw [← map_diff (N := N) htenant htype]
  cases diff R S N a.artifact b.artifact with
  | error e => exact iff_of_false (fun h => by cases h) fun ⟨_, h, _⟩ => by cases h
  | ok report =>
    refine ⟨fun h => ⟨report, rfl, Except.ok.inj h⟩, fun ⟨report', h, hds⟩ => ?_⟩
    cases h
    exact congrArg Except.ok hds

end Diff

/-- The diff misses nothing and does not depend on a set's order exactly if nothing that is
different is not looked at, and no two nodes are added or removed. -/
theorem diff_faithful_iff {Q : Type} (R : Runtime) (N : Floats Q) (a b : JsonSnapshot)
    (htenant : a.artifact.payload.tenantId = b.artifact.payload.tenantId)
    (htype : a.artifact.payload.snapshotType = b.artifact.payload.snapshotType) :
    Faithful R N a b ↔ ¬ Blind a.artifact.payload.snapshotType a.data b.data ∧
      ¬ Scattered a.artifact.payload.snapshotType a.data b.data := by
  have hblind : _ ↔ ¬ Blind a.artifact.payload.snapshotType a.data b.data :=
    deltas_complete_iff (R := R) a.wellFormed b.wellFormed
  have hscattered : _ ↔ ¬ Scattered a.artifact.payload.snapshotType a.data b.data :=
    unordered_iff (R := R) a.wellFormed b.wellFormed
  rw [← hblind, ← hscattered]
  constructor
  · intro h
    refine ⟨fun S hnil => ?_, fun S T => ?_⟩
    · obtain ⟨report, hreport, hdeltas⟩ := (exists_report (N := N) htenant htype).mp hnil
      exact h.complete S report hreport hdeltas
    · have hsame := h.unordered S T
      rwa [map_diff htenant htype, map_diff htenant htype] at hsame
  · rintro ⟨hcomplete, hunordered⟩
    refine ⟨fun S report hreport hnil => ?_, fun S T report hreport => ?_, fun S T => ?_⟩
    · exact hcomplete S ((exists_report (N := N) htenant htype).mpr ⟨report, hreport, hnil⟩)
    · have hds := (exists_report (N := N) htenant htype).mpr ⟨report, hreport, rfl⟩
      obtain ⟨es, hes, hexchanged⟩ := deltasOf_exchanged (T := T) a.wellFormed b.wellFormed hds
      rw [htype] at hes
      obtain ⟨report', hreport', rfl⟩ := (exists_report (N := N) htenant.symm htype.symm).mp hes
      exact ⟨report', hreport', hexchanged⟩
    · rw [map_diff htenant htype, map_diff htenant htype]
      exact hunordered S T

/-! ### A value changed, and an edge removed -/

def silent : Runtime := ⟨id, fun _ => ""⟩

def configured (count : Int) : JsonSnapshot where
  artifact :=
    { oneReplica with
      payload := ⟨.configuration, "acme", "k8s", "general",
        [("config", .dict [("replicas", .int count)])], []⟩ }
  wellFormed := rfl

theorem diff_configured : Faithful silent Python.exact (configured 1) (configured 2) :=
  (diff_faithful_iff silent Python.exact (configured 1) (configured 2) rfl rfl).mpr
    ⟨not_false, fun h => by cases h.1⟩

def connected (edges : List Plain) (h : Plain.wellFormedElems edges = true) : JsonSnapshot where
  artifact :=
    { oneReplica with
      payload := ⟨.topology, "acme", "k8s", "network",
        [("nodes", .dict [("a", .dict []), ("b", .dict [])]), ("edges", .list edges)], []⟩ }
  wellFormed := by simpa [Plain.wellFormed, Plain.wellFormedItems] using h

def edge : Plain := .dict [("upstream", .str "a"), ("downstream", .str "b")]

/-- The edge is gone, and the report has no deltas. -/
theorem not_faithful_edge :
    ¬ Faithful silent Python.exact (connected [edge] rfl) (connected [] rfl) := by
  intro h
  have hdeltas : deltasOf silent inOrder .topology (connected [edge] rfl).data
      (connected [] rfl).data = .ok [] := rfl
  obtain ⟨report, hreport, hnil⟩ := (exists_report (N := Python.exact)
    (a := connected [edge] rfl) (b := connected [] rfl) rfl rfl).mp hdeltas
  obtain ⟨-, zs, hperm, hsame⟩ := h.complete inOrder report hreport hnil
  have hnone : zs = [] := List.perm_nil.mp hperm
  rw [hnone] at hsame
  cases hsame

end PiPlatform.Interoperability.Drift
