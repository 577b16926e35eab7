import Mathlib.Data.String.Basic
import PiPlatform.Library.Python.Plain
import PiPlatform.Library.StableSort
import PiPlatform.Library.System

/-! The registry of infrastructure snapshots.

Chains stand under tenant, source and type, artifacts under their snapshot id alone, so an
id that comes a second time takes the first artifact's place whatever tenant it is of.
`faithful_iff`: a registry keeps what it was given, and lists to each tenant exactly its
own, as long as no call that passes the checks repeats an id. A call that raises leaves no
trace: it is only of a new chain that the record is there before the checks, and the first
artifact of a chain passes them all (`store_error`). -/
namespace PiPlatform.Interoperability.Snapshot

open Library Library.Python

inductive SnapshotType where
  | topology | configuration | state | eventLog | capabilityMesh | trustZone | policyEvaluation
  | composite
  deriving DecidableEq

def SnapshotType.value : SnapshotType → String
  | topology => "topology"
  | configuration => "configuration"
  | state => "state"
  | eventLog => "event_log"
  | capabilityMesh => "capability_mesh"
  | trustZone => "trust_zone"
  | policyEvaluation => "policy_evaluation"
  | composite => "composite"

structure TimestampMarker where
  /-- In microseconds. -/
  wallTime : Int
  sequenceNumber : Nat
  clockId : String
  orderingKey : String
  timestampHash : String

structure SnapshotPayload where
  snapshotType : SnapshotType
  tenantId : String
  sourceId : String
  domain : String
  data : List (String × Plain)
  captureMetadata : List (String × Plain)

inductive Compression where
  | none | gzip | zstd

inductive RetentionClass where
  | hot | warm | cold | archive

structure SnapshotArtifact where
  snapshotId : String
  baseSnapshotId : Option String
  timestampMarker : TimestampMarker
  payload : SnapshotPayload
  payloadHash : String
  artifactHash : String
  previousSnapshotHash : String
  compression : Compression
  retentionClass : RetentionClass

/-- Tenant, source and type: what a chain stands under. -/
structure ChainKey where
  tenantId : String
  sourceId : String
  snapshotType : SnapshotType
  deriving DecidableEq

def SnapshotArtifact.key (a : SnapshotArtifact) : ChainKey :=
  ⟨a.payload.tenantId, a.payload.sourceId, a.payload.snapshotType⟩

def SnapshotArtifact.orderingKey (a : SnapshotArtifact) : String := a.timestampMarker.orderingKey

structure SnapshotChain where
  chainId : String
  tenantId : String
  sourceId : String
  snapshotType : SnapshotType
  snapshotIds : List String
  snapshotHashes : List String
  headSnapshotId : Option String
  headSnapshotHash : String

def SnapshotChain.new (key : ChainKey) : SnapshotChain where
  chainId := "chain_" ++ key.tenantId ++ "_" ++ key.sourceId ++ "_" ++ key.snapshotType.value
  tenantId := key.tenantId
  sourceId := key.sourceId
  snapshotType := key.snapshotType
  snapshotIds := []
  snapshotHashes := []
  headSnapshotId := none
  headSnapshotHash := ""

/-- What `store` raises, with its message. -/
inductive StoreError where
  | keyError (snapshotId : String)
  | clockOrderViolation (message : String)
  | valueError (message : String)
  /-- A `ValueError` too; how its message shows a type is the interpreter's matter. -/
  | typeMismatch (snapshotType expected : SnapshotType)
  | hashChainBreak (message : String)

/-- `text[:16]` -/
def first16 (text : String) : String := String.ofList (text.toList.take 16)

/-- The artifact as the new head. -/
def SnapshotChain.extended (chain : SnapshotChain) (artifact : SnapshotArtifact) : SnapshotChain :=
  { chain with
    snapshotIds := chain.snapshotIds ++ [artifact.snapshotId]
    snapshotHashes := chain.snapshotHashes ++ [artifact.artifactHash]
    headSnapshotId := some artifact.snapshotId
    headSnapshotHash := artifact.artifactHash }

/-- An artifact of the chain at its end, if it links to the last. -/
def SnapshotChain.append (chain : SnapshotChain) (artifact : SnapshotArtifact) :
    Except StoreError SnapshotChain :=
  if artifact.payload.tenantId ≠ chain.tenantId then
    .error (.valueError ("Tenant mismatch: " ++ artifact.payload.tenantId ++ " != " ++
      chain.tenantId))
  else if artifact.payload.sourceId ≠ chain.sourceId then
    .error (.valueError ("Source mismatch: " ++ artifact.payload.sourceId ++ " != " ++
      chain.sourceId))
  else if artifact.payload.snapshotType ≠ chain.snapshotType then
    .error (.typeMismatch artifact.payload.snapshotType chain.snapshotType)
  else
    match chain.snapshotHashes.getLast? with
    | none => .ok (chain.extended artifact)
    | some expectedPrev =>
      if artifact.previousSnapshotHash ≠ expectedPrev then
        .error (.hashChainBreak ("Hash chain break: expected prev=" ++ first16 expectedPrev ++
          "... got " ++ first16 artifact.previousSnapshotHash ++ "..."))
      else .ok (chain.extended artifact)

structure SnapshotRegistry where
  chains : Dict ChainKey SnapshotChain
  artifacts : Dict String SnapshotArtifact
  sequenceCounter : Nat

/-- A new snapshot does not precede the head of its chain. -/
def SnapshotRegistry.checkOrder (r : SnapshotRegistry) (chain : SnapshotChain)
    (artifact : SnapshotArtifact) : Except StoreError Unit :=
  match chain.headSnapshotId with
  | none => .ok ()
  | some head =>
    -- an empty id is false
    if head = "" then .ok ()
    else
      match r.artifacts.get? head with
      | none => .error (.keyError head)
      | some headArtifact =>
        if artifact.orderingKey < headArtifact.orderingKey then
          .error (.clockOrderViolation ("Snapshot ordering violation: " ++ artifact.snapshotId ++
            " timestamp precedes chain head " ++ head))
        else .ok ()

/-- The chain of a key, recorded if it is new. -/
def SnapshotRegistry.openChain (r : SnapshotRegistry) (key : ChainKey) :
    SnapshotRegistry × SnapshotChain :=
  match r.chains.get? key with
  | some chain => (r, chain)
  | none => ({ r with chains := r.chains.set key (.new key) }, .new key)

/-- The order is checked, then the chain takes the artifact. -/
def SnapshotRegistry.store (r : SnapshotRegistry) (artifact : SnapshotArtifact) :
    Except StoreError SnapshotArtifact × SnapshotRegistry :=
  let (r, chain) := r.openChain artifact.key
  match (do r.checkOrder chain artifact; chain.append artifact) with
  | .error e => (.error e, r)
  | .ok chain =>
    (.ok artifact,
      { chains := r.chains.set artifact.key chain
        artifacts := r.artifacts.set artifact.snapshotId artifact
        sequenceCounter := r.sequenceCounter + 1 })

def SnapshotRegistry.get (r : SnapshotRegistry) (snapshotId : String) : Option SnapshotArtifact :=
  r.artifacts.get? snapshotId

/-- The optional arguments of `list_snapshots`. -/
structure Filters where
  sourceId : Option String
  snapshotType : Option SnapshotType
  domain : Option String
  afterMarker : Option TimestampMarker
  beforeMarker : Option TimestampMarker

def Filters.selects (filters : Filters) (tenantId : String) (key : ChainKey) : Bool :=
  key.tenantId = tenantId ∧ (∀ s ∈ filters.sourceId, key.sourceId = s) ∧
    ∀ t ∈ filters.snapshotType, key.snapshotType = t

def Filters.passes (filters : Filters) (artifact : SnapshotArtifact) : Bool :=
  (∀ domain ∈ filters.domain, artifact.payload.domain = domain) ∧
    (∀ marker ∈ filters.afterMarker, ¬ artifact.orderingKey ≤ marker.orderingKey) ∧
    ∀ marker ∈ filters.beforeMarker, ¬ marker.orderingKey ≤ artifact.orderingKey

/-- `results[:limit]` -/
def sliceTo {α : Type} (limit : Int) (results : List α) : List α :=
  if 0 ≤ limit then results.take limit.toNat else results.take (results.length - (-limit).toNat)

/-- None where an id has no artifact. -/
def SnapshotRegistry.listSnapshots (r : SnapshotRegistry) (tenantId : String) (filters : Filters)
    (limit : Int) : Option (List SnapshotArtifact) := do
  let chains := r.chains.items.filter fun p => filters.selects tenantId p.1
  let artifacts ← (chains.flatMap fun p => p.2.snapshotIds).mapM r.artifacts.get?
  some (sliceTo limit (sortBy (·.orderingKey) (artifacts.filter filters.passes)))

/-! ### What a registry keeps -/

/-- A registry, the registries it was before, and the artifacts `store` returned. -/
structure History where
  registry : SnapshotRegistry
  past : List SnapshotRegistry
  stored : List SnapshotArtifact

def histories : System History SnapshotArtifact where
  initial := ⟨⟨.empty, .empty, 0⟩, [], []⟩
  step h artifact :=
    { registry := (h.registry.store artifact).2
      past := h.past ++ [h.registry]
      stored := match (h.registry.store artifact).1 with
        | .ok artifact => h.stored ++ [artifact]
        | .error _ => h.stored }

/-- The stored artifacts of a tenant that pass the filters. -/
def History.passing (h : History) (tenantId : String) (filters : Filters) :
    List SnapshotArtifact :=
  h.stored.filter fun a => filters.selects tenantId a.key && filters.passes a

/-- What a registry can be relied on for after a history of calls. -/
structure Faithful (h : History) : Prop where
  /-- What `get` returned once it returns still. -/
  lasting : ∀ r ∈ h.past, ∀ id a, r.get id = some a → h.registry.get id = some a
  /-- A call that raises changes nothing. -/
  atomic : ∀ artifact e, (h.registry.store artifact).1 = .error e →
    (h.registry.store artifact).2.chains = h.registry.chains ∧
      (h.registry.store artifact).2.artifacts = h.registry.artifacts
  isolated : ∀ tenantId filters limit, ∃ results,
    h.registry.listSnapshots tenantId filters limit = some results ∧
      ∀ a ∈ results, a.payload.tenantId = tenantId
  /-- Each artifact that passes is listed, once, if the limit has room for all. -/
  complete : ∀ tenantId filters (limit : Int), (h.passing tenantId filters).length ≤ limit →
    ∃ results, h.registry.listSnapshots tenantId filters limit = some results ∧
      results.Nodup ∧ ∀ a, a ∈ results ↔ a ∈ h.passing tenantId filters

/-- The artifact passes the checks: it goes on with the chain it is of. -/
def Continues (r : SnapshotRegistry) (artifact : SnapshotArtifact) : Prop :=
  match r.chains.get? artifact.key with
  | none => True
  | some chain =>
    (∀ head ∈ chain.headSnapshotId, head ≠ "" → ∀ headArtifact ∈ r.artifacts.get? head,
      ¬ artifact.orderingKey < headArtifact.orderingKey) ∧
    ∀ expectedPrev ∈ chain.snapshotHashes.getLast?, artifact.previousSnapshotHash = expectedPrev

/-- An artifact that passes the checks has a new id. -/
def Fresh (h : History) (artifact : SnapshotArtifact) : Prop :=
  Continues h.registry artifact → h.registry.get artifact.snapshotId = none

/-! ### One call -/

section Calls
variable {r : SnapshotRegistry} {artifact : SnapshotArtifact} {chain : SnapshotChain}

/-- The chain stands under its own tenant, source and type. -/
def SnapshotChain.Of (chain : SnapshotChain) (key : ChainKey) : Prop :=
  chain.tenantId = key.tenantId ∧ chain.sourceId = key.sourceId ∧
    chain.snapshotType = key.snapshotType

theorem append_of (h : chain.Of artifact.key)
    (hlinked : ∀ expectedPrev ∈ chain.snapshotHashes.getLast?,
      artifact.previousSnapshotHash = expectedPrev) :
    chain.append artifact = .ok (chain.extended artifact) := by
  obtain ⟨htenant, hsource, htype⟩ := h
  have htenant' : ¬ artifact.payload.tenantId ≠ chain.tenantId := not_not.mpr htenant.symm
  have hsource' : ¬ artifact.payload.sourceId ≠ chain.sourceId := not_not.mpr hsource.symm
  have htype' : ¬ artifact.payload.snapshotType ≠ chain.snapshotType := not_not.mpr htype.symm
  rw [SnapshotChain.append, if_neg htenant', if_neg hsource', if_neg htype']
  cases hlast : chain.snapshotHashes.getLast? with
  | none => rfl
  | some expectedPrev => exact if_neg (not_not.mpr (hlinked expectedPrev hlast))

theorem append_ok {chain chain' : SnapshotChain} (h : chain.append artifact = .ok chain') :
    chain' = chain.extended artifact ∧ ∀ expectedPrev ∈ chain.snapshotHashes.getLast?,
      artifact.previousSnapshotHash = expectedPrev := by
  rw [SnapshotChain.append] at h
  split_ifs at h
  cases hlast : chain.snapshotHashes.getLast? with
  | none =>
    rw [hlast] at h
    cases h
    exact ⟨rfl, nofun⟩
  | some expectedPrev =>
    rw [hlast] at h
    simp only at h
    split_ifs at h with hlinked
    cases h
    refine ⟨rfl, fun prev hprev => ?_⟩
    obtain rfl := Option.some.inj hprev
    exact not_not.mp hlinked

/-- The first artifact of a chain passes all checks. -/
theorem store_new (h : r.chains.get? artifact.key = none) :
    r.store artifact = (.ok artifact,
      { chains := (r.chains.set artifact.key (.new artifact.key)).set artifact.key
          ((SnapshotChain.new artifact.key).extended artifact)
        artifacts := r.artifacts.set artifact.snapshotId artifact
        sequenceCounter := r.sequenceCounter + 1 }) := by
  have happend : (SnapshotChain.new artifact.key).append artifact =
      .ok ((SnapshotChain.new artifact.key).extended artifact) := append_of ⟨rfl, rfl, rfl⟩ nofun
  simp only [SnapshotRegistry.store, SnapshotRegistry.openChain, h]
  show (match (SnapshotChain.new artifact.key).append artifact with
    | .error e => _
    | .ok c => _) = _
  rw [happend]

/-- A call that raises leaves the registry as it was. -/
theorem store_error {e : StoreError} (h : (r.store artifact).1 = .error e) :
    (r.store artifact).2 = r := by
  cases hchain : r.chains.get? artifact.key with
  | none =>
    rw [store_new hchain] at h
    cases h
  | some chain =>
    simp only [SnapshotRegistry.store, SnapshotRegistry.openChain, hchain] at h ⊢
    split at h
    · rfl
    · cases h

/-- Chains stand under their keys, and their heads are there. -/
structure SnapshotRegistry.Sound (r : SnapshotRegistry) : Prop where
  keyed : ∀ key chain, r.chains.get? key = some chain → chain.Of key
  heads : ∀ key chain, r.chains.get? key = some chain → ∀ head ∈ chain.headSnapshotId,
    ∃ headArtifact, r.artifacts.get? head = some headArtifact

theorem checkOrder_of
    (h : ∀ head ∈ chain.headSnapshotId, ∃ headArtifact, r.artifacts.get? head = some headArtifact)
    (hordered : ∀ head ∈ chain.headSnapshotId, head ≠ "" → ∀ headArtifact ∈ r.artifacts.get? head,
      ¬ artifact.orderingKey < headArtifact.orderingKey) :
    r.checkOrder chain artifact = .ok () := by
  rw [SnapshotRegistry.checkOrder]
  split
  · rfl
  · next head hhead =>
    obtain ⟨headArtifact, hget⟩ := h head hhead
    split
    · rfl
    · next hne =>
      rw [hget]
      exact if_neg (hordered head hhead hne headArtifact hget)

theorem checkOrder_ok (h : r.checkOrder chain artifact = .ok ()) :
    ∀ head ∈ chain.headSnapshotId, head ≠ "" → ∀ headArtifact ∈ r.artifacts.get? head,
      ¬ artifact.orderingKey < headArtifact.orderingKey := by
  intro head hhead hne headArtifact hget hlt
  simp only [SnapshotRegistry.checkOrder, Option.mem_def.mp hhead, if_neg hne,
    Option.mem_def.mp hget, if_pos hlt] at h
  cases h

/-- An artifact that passes the checks goes to the end of its chain. -/
theorem SnapshotRegistry.Sound.store_ok (hr : r.Sound) (h : Continues r artifact) :
    ∃ r', r.store artifact = (.ok artifact, r') ∧
      r'.artifacts = r.artifacts.set artifact.snapshotId artifact ∧
      ∀ key, r'.chains.get? key = if artifact.key = key then
        some (((r.chains.get? key).getD (.new key)).extended artifact)
      else r.chains.get? key := by
  cases hchain : r.chains.get? artifact.key with
  | none =>
    refine ⟨_, store_new hchain, rfl, fun key => ?_⟩
    rw [Dict.get?_set, Dict.get?_set]
    split
    · next heq =>
      subst heq
      rw [hchain]
      rfl
    · rfl
  | some chain =>
    rw [Continues, hchain] at h
    have horder := checkOrder_of (hr.heads _ _ hchain) h.1
    have happend := append_of (hr.keyed _ _ hchain) h.2
    refine ⟨{ chains := r.chains.set artifact.key (chain.extended artifact)
              artifacts := r.artifacts.set artifact.snapshotId artifact
              sequenceCounter := r.sequenceCounter + 1 }, ?_, rfl, fun key => ?_⟩
    · simp only [SnapshotRegistry.store, SnapshotRegistry.openChain, hchain, horder, happend]
      rfl
    · rw [Dict.get?_set]
      split
      · next heq =>
        subst heq
        rw [hchain]
        rfl
      · rfl

/-- Any other is refused. -/
theorem store_refused (h : ¬ Continues r artifact) :
    ∃ e, r.store artifact = (.error e, r) := by
  cases hresult : (r.store artifact).1 with
  | error e => exact ⟨e, Prod.ext hresult (store_error hresult)⟩
  | ok stored =>
    refine absurd ?_ h
    cases hchain : r.chains.get? artifact.key with
    | none => simp [Continues, hchain]
    | some chain =>
      simp only [SnapshotRegistry.store, SnapshotRegistry.openChain, hchain] at hresult
      cases horder : r.checkOrder chain artifact with
      | error e =>
        rw [horder] at hresult
        cases hresult
      | ok _ =>
        cases happend : chain.append artifact with
        | error e =>
          rw [horder, happend] at hresult
          cases hresult
        | ok chain' =>
          simp only [Continues, hchain]
          exact ⟨checkOrder_ok horder, (append_ok happend).2⟩

end Calls

/-! ### Histories -/

/-- Everything stored is where it was put, and in its chain. -/
structure Held (h : History) : Prop where
  sound : h.registry.Sound
  held : ∀ a ∈ h.stored, h.registry.get a.snapshotId = some a
  known : ∀ id a, h.registry.get id = some a → a ∈ h.stored ∧ a.snapshotId = id
  listed : ∀ key chain, h.registry.chains.get? key = some chain →
    chain.snapshotIds = (h.stored.filter fun a => a.key = key).map (·.snapshotId)
  recorded : ∀ a ∈ h.stored, ∃ chain, h.registry.chains.get? a.key = some chain
  lasting : ∀ r ∈ h.past, ∀ id a, r.get id = some a → h.registry.get id = some a

section Histories
variable {h : History} {artifact : SnapshotArtifact}

theorem Held.refused (hheld : Held h) {e : StoreError}
    (hstore : h.registry.store artifact = (.error e, h.registry)) :
    Held (histories.step h artifact) := by
  have hstep : histories.step h artifact = ⟨h.registry, h.past ++ [h.registry], h.stored⟩ := by
    simp only [histories, hstore]
  rw [hstep]
  refine ⟨hheld.sound, hheld.held, hheld.known, hheld.listed, hheld.recorded, ?_⟩
  intro r hr id a hget
  rcases List.mem_append.mp hr with hr | hr
  · exact hheld.lasting r hr id a hget
  · obtain rfl := List.mem_singleton.mp hr
    exact hget

/-- An artifact that passes the checks takes no other's place. -/
theorem Held.accepted (hheld : Held h) (hcontinues : Continues h.registry artifact)
    (hfree : ∀ a, h.registry.get artifact.snapshotId = some a → a = artifact) :
    Held (histories.step h artifact) ∧
      (histories.step h artifact).stored = h.stored ++ [artifact] := by
  obtain ⟨r', hstore, hartifacts, hchains⟩ := hheld.sound.store_ok hcontinues
  have hstep : histories.step h artifact =
      ⟨r', h.past ++ [h.registry], h.stored ++ [artifact]⟩ := by
    simp only [histories, hstore]
  have hget : ∀ id, r'.get id =
      if artifact.snapshotId = id then some artifact else h.registry.get id := fun id => by
    rw [SnapshotRegistry.get, hartifacts, Dict.get?_set]
    rfl
  have hkept : ∀ id a, h.registry.get id = some a → r'.get id = some a := by
    intro id a hold
    rw [hget]
    split
    · next heq => rw [hfree a (heq ▸ hold)]
    · exact hold
  have hopen : ∀ key chain, r'.chains.get? key = some chain →
      (h.registry.chains.get? key = some chain ∧ artifact.key ≠ key) ∨
        (artifact.key = key ∧
          chain = ((h.registry.chains.get? key).getD (.new key)).extended artifact) := by
    intro key chain hchain
    rw [hchains] at hchain
    split at hchain
    · next heq => exact .inr ⟨heq, (Option.some.inj hchain).symm⟩
    · next hne => exact .inl ⟨hchain, hne⟩
  rw [hstep]
  refine ⟨⟨⟨?_, ?_⟩, ?_, ?_, ?_, ?_, ?_⟩, rfl⟩
  · intro key chain hchain
    rcases hopen key chain hchain with ⟨hold, -⟩ | ⟨rfl, rfl⟩
    · exact hheld.sound.keyed key chain hold
    · cases hold : h.registry.chains.get? artifact.key with
      | none => exact ⟨rfl, rfl, rfl⟩
      | some chain => exact hheld.sound.keyed _ chain hold
  · intro key chain hchain head hhead
    rcases hopen key chain hchain with ⟨hold, -⟩ | ⟨rfl, rfl⟩
    · obtain ⟨headArtifact, hheadArtifact⟩ := hheld.sound.heads key chain hold head hhead
      exact ⟨headArtifact, hkept head headArtifact hheadArtifact⟩
    · obtain rfl := Option.some.inj hhead
      exact ⟨artifact, (hget artifact.snapshotId).trans (if_pos rfl)⟩
  · intro a ha
    rcases List.mem_append.mp ha with ha | ha
    · exact hkept _ a (hheld.held a ha)
    · obtain rfl := List.mem_singleton.mp ha
      exact (hget a.snapshotId).trans (if_pos rfl)
  · intro id a hid
    rw [hget] at hid
    split at hid
    · next heq =>
      obtain rfl := Option.some.inj hid
      exact ⟨List.mem_append_right _ (List.mem_singleton_self _), heq⟩
    · exact (hheld.known id a hid).imp_left (List.mem_append_left _)
  · intro key chain hchain
    rw [List.filter_append, List.map_append]
    rcases hopen key chain hchain with ⟨hold, hne⟩ | ⟨rfl, rfl⟩
    · rw [hheld.listed key chain hold, List.filter_cons_of_neg (by simpa using hne),
        List.filter_nil, List.map_nil, List.append_nil]
    · rw [List.filter_cons_of_pos (by simp), List.filter_nil, List.map_singleton]
      show _ ++ [artifact.snapshotId] = _
      congr 1
      cases hold : h.registry.chains.get? artifact.key with
      | some chain => exact hheld.listed _ chain hold
      | none =>
        have hnone : (h.stored.filter fun a => a.key = artifact.key) = [] := by
          refine List.filter_eq_nil_iff.mpr fun a ha hkey => ?_
          obtain ⟨chain, hchain⟩ := hheld.recorded a ha
          rw [of_decide_eq_true hkey, hold] at hchain
          cases hchain
        rw [hnone]
        rfl
  · intro a ha
    simp only [hchains]
    split
    · exact ⟨_, rfl⟩
    · next hne =>
      rcases List.mem_append.mp ha with ha | ha
      · exact hheld.recorded a ha
      · exact absurd (by rw [List.mem_singleton.mp ha]) hne
  · intro r hr id a hid
    rcases List.mem_append.mp hr with hr | hr
    · exact hkept id a (hheld.lasting r hr id a hid)
    · obtain rfl := List.mem_singleton.mp hr
      exact hkept id a hid

/-! ### Listings -/

/-- What the chains of a tenant list, chain after chain. -/
def History.collected (h : History) (tenantId : String) (filters : Filters) :
    List SnapshotArtifact :=
  ((h.registry.chains.items.filter fun p => filters.selects tenantId p.1).flatMap fun p =>
    h.stored.filter fun a => a.key = p.1).filter filters.passes

theorem mapM_map {α β : Type} {f : α → Option β} {g : β → α} {xs : List β}
    (h : ∀ x ∈ xs, f (g x) = some x) : (xs.map g).mapM f = some xs := by
  induction xs with
  | nil => rfl
  | cons x xs ih =>
    rw [List.map_cons, List.mapM_cons, h x (List.mem_cons_self ..),
      ih fun y hy => h y (List.mem_cons_of_mem _ hy)]
    rfl

theorem Held.listSnapshots (hheld : Held h) (tenantId : String) (filters : Filters)
    (limit : Int) : h.registry.listSnapshots tenantId filters limit =
      some (sliceTo limit (sortBy (·.orderingKey) (h.collected tenantId filters))) := by
  let chains := h.registry.chains.items.filter fun p => filters.selects tenantId p.1
  have hids : (chains.flatMap fun p => p.2.snapshotIds) =
      (chains.flatMap fun p => h.stored.filter fun a => a.key = p.1).map (·.snapshotId) := by
    rw [List.map_flatMap]
    refine List.flatMap_congr fun p hp => ?_
    have hchain := h.registry.chains.mem_items.mp (List.mem_filter.mp hp).1
    exact hheld.listed p.1 p.2 hchain
  have hread : (chains.flatMap fun p => p.2.snapshotIds).mapM h.registry.artifacts.get? =
      some (chains.flatMap fun p => h.stored.filter fun a => a.key = p.1) := by
    rw [hids]
    refine mapM_map fun a ha => ?_
    obtain ⟨p, -, hmem⟩ := List.mem_flatMap.mp ha
    exact hheld.held a (List.mem_filter.mp hmem).1
  simp only [SnapshotRegistry.listSnapshots, chains] at hread ⊢
  rw [hread]
  rfl

theorem Held.mem_collected (hheld : Held h) {tenantId : String} {filters : Filters}
    {a : SnapshotArtifact} :
    a ∈ h.collected tenantId filters ↔ a ∈ h.passing tenantId filters := by
  simp only [History.collected, History.passing, List.mem_filter, List.mem_flatMap,
    Bool.and_eq_true, decide_eq_true_eq]
  constructor
  · rintro ⟨⟨p, ⟨-, hselects⟩, ha, hkey⟩, hpasses⟩
    exact ⟨ha, hkey ▸ hselects, hpasses⟩
  · rintro ⟨ha, hselects, hpasses⟩
    obtain ⟨chain, hchain⟩ := hheld.recorded a ha
    exact ⟨⟨(a.key, chain), ⟨h.registry.chains.mem_items.mpr hchain, hselects⟩, ha, rfl⟩, hpasses⟩

theorem nodup_collected (hnodup : h.stored.Nodup) (tenantId : String) (filters : Filters) :
    (h.collected tenantId filters).Nodup := by
  have hkeys := (h.registry.chains.nodup.sublist
    ((List.filter_sublist (p := fun p => filters.selects tenantId p.1)).map Prod.fst))
  refine List.Nodup.filter _ (List.nodup_flatMap.mpr ⟨fun p _ => hnodup.filter _, ?_⟩)
  refine (List.pairwise_map.mp hkeys).imp fun hne a hp hq => hne ?_
  exact (of_decide_eq_true (List.mem_filter.mp hp).2).symm.trans
    (of_decide_eq_true (List.mem_filter.mp hq).2)

theorem mem_of_mem_sliceTo {α : Type} {limit : Int} {xs : List α} {x : α}
    (hx : x ∈ sliceTo limit xs) : x ∈ xs := by
  rw [sliceTo] at hx
  split at hx <;> exact List.mem_of_mem_take hx

theorem sliceTo_of_length_le {α : Type} {limit : Int} {xs : List α} (hlimit : xs.length ≤ limit) :
    sliceTo limit xs = xs := by
  rw [sliceTo, if_pos (by omega)]
  exact List.take_of_length_le (by omega)

/-- With new ids only, the registry is what it says. -/
theorem Held.faithful (hheld : Held h) (hnodup : h.stored.Nodup) : Faithful h where
  lasting := hheld.lasting
  atomic artifact e herror := by
    rw [store_error herror]
    exact ⟨rfl, rfl⟩
  isolated tenantId filters limit := by
    refine ⟨_, hheld.listSnapshots tenantId filters limit, fun a ha => ?_⟩
    have hperm := (stableSort_sortBy SnapshotArtifact.orderingKey
      (h.collected tenantId filters)).perm
    have hpassing := hheld.mem_collected.mp (hperm.mem_iff.mp (mem_of_mem_sliceTo ha))
    have hselects := (Bool.and_eq_true _ _ ▸ (List.mem_filter.mp hpassing).2).1
    exact (of_decide_eq_true hselects).1
  complete tenantId filters limit hlimit := by
    have hcollected := nodup_collected hnodup tenantId filters
    have hpassing : (h.collected tenantId filters).Perm (h.passing tenantId filters) :=
      (List.perm_ext_iff_of_nodup hcollected (hnodup.filter _)).mpr fun a => hheld.mem_collected
    have hsorted := (stableSort_sortBy SnapshotArtifact.orderingKey
      (h.collected tenantId filters)).perm
    refine ⟨_, hheld.listSnapshots tenantId filters limit, ?_⟩
    rw [sliceTo_of_length_le (by rwa [(hsorted.trans hpassing).length_eq])]
    exact ⟨hsorted.nodup_iff.mpr hcollected, fun a => (hsorted.trans hpassing).mem_iff⟩

/-- An artifact that came twice is listed twice. -/
theorem Held.not_faithful (hheld : Held h) {a : SnapshotArtifact} {stored : List SnapshotArtifact}
    (hstored : h.stored = stored ++ [a]) (ha : a ∈ stored) : ¬ Faithful h := by
  intro hfaithful
  let all : Filters := ⟨none, none, none, none, none⟩
  let limit := (h.passing a.payload.tenantId all).length +
    (h.collected a.payload.tenantId all).length
  obtain ⟨results, hresults, hnodup, -⟩ :=
    hfaithful.complete a.payload.tenantId all (limit : Nat) (by simp [limit])
  have hsorted := (stableSort_sortBy SnapshotArtifact.orderingKey
    (h.collected a.payload.tenantId all)).perm
  rw [hheld.listSnapshots, sliceTo_of_length_le (by simp [limit, hsorted.length_eq])] at hresults
  obtain rfl := Option.some.inj hresults
  have hcollected := hsorted.nodup_iff.mp hnodup
  obtain ⟨chain, hchain⟩ := hheld.recorded a (hstored ▸ List.mem_append_left _ ha)
  have hall : ∀ b, all.passes b = true := fun b => by simp [all, Filters.passes]
  rw [History.collected, List.filter_eq_self.mpr fun b _ => hall b] at hcollected
  have hmem : (a.key, chain) ∈ h.registry.chains.items.filter fun p =>
      all.selects a.payload.tenantId p.1 :=
    List.mem_filter.mpr ⟨h.registry.chains.mem_items.mpr hchain, by
      simp [all, Filters.selects, SnapshotArtifact.key]⟩
  have hchain := (List.nodup_flatMap.mp hcollected).1 _ hmem
  rw [hstored, List.filter_append, List.filter_cons_of_pos (by simp), List.filter_nil] at hchain
  exact List.disjoint_of_nodup_append hchain (List.mem_filter.mpr ⟨ha, by simp⟩)
    (List.mem_singleton_self a)

end Histories

/-! ### Runs -/

theorem histories_initial : Held histories.initial ∧ histories.initial.stored.Nodup := by
  refine ⟨⟨⟨fun _ _ h => ?_, fun _ _ h => ?_⟩, fun _ h => ?_, fun _ _ h => ?_, fun _ _ h => ?_,
    fun _ h => ?_, fun _ h => ?_⟩, List.nodup_nil⟩ <;> cases h

theorem histories_fresh (h : History) (artifact : SnapshotArtifact) (hfresh : Fresh h artifact)
    (hheld : Held h ∧ h.stored.Nodup) :
    Held (histories.step h artifact) ∧ (histories.step h artifact).stored.Nodup := by
  by_cases hcontinues : Continues h.registry artifact
  · have hnone := hfresh hcontinues
    have hfree : ∀ a, h.registry.get artifact.snapshotId = some a → a = artifact := by
      intro a ha
      rw [hnone] at ha
      cases ha
    obtain ⟨haccepted, hstored⟩ := hheld.1.accepted hcontinues hfree
    refine ⟨haccepted, ?_⟩
    rw [hstored]
    refine hheld.2.append (List.nodup_singleton _) ?_
    rw [List.disjoint_singleton]
    intro hmem
    rw [hheld.1.held artifact hmem] at hnone
    cases hnone
  · obtain ⟨e, hstore⟩ := store_refused hcontinues
    refine ⟨hheld.1.refused hstore, ?_⟩
    simpa only [histories, hstore] using hheld.2

/-- An id that comes again takes the place of what stood under it, or lists it twice. -/
theorem histories_broken (h : History) (artifact : SnapshotArtifact)
    (hheld : Held h ∧ h.stored.Nodup) (hrepeated : ¬ Fresh h artifact) :
    ¬ Faithful (histories.step h artifact) := by
  obtain ⟨hcontinues, hsome⟩ := Classical.not_imp.mp hrepeated
  obtain ⟨a, ha⟩ := Option.ne_none_iff_exists'.mp hsome
  by_cases heq : a = artifact
  · subst heq
    have hfree : ∀ b, h.registry.get a.snapshotId = some b → b = a := fun b hb =>
      Option.some.inj (hb.symm.trans ha)
    obtain ⟨haccepted, hstored⟩ := hheld.1.accepted hcontinues hfree
    exact haccepted.not_faithful hstored (hheld.1.known _ a ha).1
  · intro hfaithful
    have hpast : h.registry ∈ (histories.step h artifact).past :=
      List.mem_append_right _ (List.mem_singleton_self _)
    have hstill := hfaithful.lasting _ hpast _ _ ha
    obtain ⟨r', hstore, hartifacts, -⟩ := hheld.1.sound.store_ok hcontinues
    simp only [histories, hstore, SnapshotRegistry.get, hartifacts, Dict.get?_set_self] at hstill
    exact heq (Option.some.inj hstill).symm

/-- The registry keeps what it was given and lists to each tenant exactly its own, all along
a run, exactly when no artifact that passes the checks comes with an id that is in use. -/
theorem faithful_iff (acts : List SnapshotArtifact) :
    histories.Always Faithful acts ↔ histories.Admits Fresh acts :=
  System.always_iff_admits _ Fresh (fun h => Held h ∧ h.stored.Nodup) Faithful histories_initial
    histories_fresh (fun _ hheld => hheld.1.faithful hheld.2) histories_broken acts

/-! ### Two tenants with one id -/

def nightly (tenantId : String) : SnapshotArtifact where
  snapshotId := "nightly"
  baseSnapshotId := none
  timestampMarker := ⟨0, 1, "clock", "1970-01-01T00:00:00.000000Z:000000000001:clock", ""⟩
  payload := ⟨.topology, tenantId, "k8s", "general", [], []⟩
  payloadHash := tenantId
  artifactHash := tenantId
  previousSnapshotHash := ""
  compression := .none
  retentionClass := .hot

/-- Both calls succeed; then the first tenant is listed the second's snapshot. -/
theorem nightly_listed :
    ((histories.after [nightly "acme", nightly "globex"]).registry.listSnapshots "acme"
      ⟨none, none, none, none, none⟩ 100).map (·.map (·.payload.tenantId)) = some ["globex"] := by
  decide +kernel

theorem not_always_faithful :
    ¬ histories.Always Faithful [nightly "acme", nightly "globex"] := by
  intro h
  have hfaithful := h [nightly "acme", nightly "globex"] [] rfl
  obtain ⟨results, hresults, hisolated⟩ :=
    hfaithful.isolated "acme" ⟨none, none, none, none, none⟩ 100
  have hlisted := nightly_listed
  rw [hresults, Option.map_some, Option.some.injEq] at hlisted
  obtain ⟨a, rest, rfl⟩ : ∃ a rest, results = a :: rest := by
    cases results with
    | nil => cases hlisted
    | cons a rest => exact ⟨a, rest, rfl⟩
  rw [List.map_cons, hisolated a (List.mem_cons_self ..)] at hlisted
  exact absurd hlisted (by simp)

end PiPlatform.Interoperability.Snapshot
