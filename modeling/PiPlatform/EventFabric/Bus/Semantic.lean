import PiPlatform.EventFabric.Bus.Reproducible
import PiPlatform.Library.Python.Reread

/-! The semantic fabric.

`append_semantic` checks the trust level and then, one connection each, that every event of
the causality chain is stored; only then does it append the payload with its metadata under
`_semantic`. `write_agent_snapshot` appends a snapshot without causes and without a check. -/
namespace PiPlatform.EventFabric

open Library Library.Json Library.Python

variable {P F : Type}

/-! ### Metadata -/

/-- A list of strings. -/
def stringList (xs : List String) : PyValue F := .list (xs.map fun s => .str (ofString s))

structure SemanticMetadata (F : Type) where
  semanticIntent : String
  executionLineage : List String
  trustLevel : Fl F
  causalityChain : List String
  reproducibilityHash : String
  schemaVersion : String
  policyClassification : String

def SemanticMetadata.items (m : SemanticMetadata F) : List (Key × PyValue F) :=
  [(.str (ofString "semantic_intent"), .str (ofString m.semanticIntent)),
    (.str (ofString "execution_lineage"), stringList m.executionLineage),
    (.str (ofString "trust_level"), .float m.trustLevel),
    (.str (ofString "causality_chain"), stringList m.causalityChain),
    (.str (ofString "reproducibility_hash"), .str (ofString m.reproducibilityHash)),
    (.str (ofString "schema_version"), .str (ofString m.schemaVersion)),
    (.str (ofString "policy_classification"), .str (ofString m.policyClassification))]

/-- `metadata.dict()` -/
def SemanticMetadata.dict (m : SemanticMetadata F) : PyValue F := .dict m.items

theorem jsonElems_strings (xs : List String) :
    jsonElems (F := F) (xs.map fun s => .str (ofString s)) = true := by
  induction xs with
  | nil => rfl
  | cons x xs ih => simp [jsonElems, PyValue.json, ih]

theorem json_metadata (m : SemanticMetadata F) : m.dict.json = true := by
  have hkeys : (m.items.map Prod.fst).Nodup := by
    show List.Nodup [Key.str (ofString "semantic_intent"), .str (ofString "execution_lineage"),
      .str (ofString "trust_level"), .str (ofString "causality_chain"),
      .str (ofString "reproducibility_hash"), .str (ofString "schema_version"),
      .str (ofString "policy_classification")]
    decide
  have hplain : m.items.all (fun p => p.1.plain) = true := by
    simp [SemanticMetadata.items, Key.plain]
  rw [SemanticMetadata.dict, PyValue.json, hplain, decide_eq_true hkeys]
  simp [SemanticMetadata.items, jsonItems, PyValue.json, stringList, jsonElems_strings]

/-! ### Reading -/

/-- What the fabric's readers raise. -/
inductive ReadError where
  | bus (error : PyError)
  /-- `.get` of what is no dictionary. -/
  | attributeError
  /-- A chain that is no list of texts, which no fabric writes, is not followed. -/
  | notHashes

def busError {α : Type} : Except PyError α → Except ReadError α
  | .ok a => .ok a
  | .error e => .error (.bus e)

/-- `v.get(key, default)` -/
def dictGet (v : PyValue F) (key : String) (default : PyValue F) :
    Except ReadError (PyValue F) :=
  match v with
  | .dict items => .ok ((lookupItem (.str (ofString key)) items).getD default)
  | _ => .error .attributeError

/-! ### What is read back of a payload -/

section Payload
variable [FloatCodec F] [SetText F]

theorem mem_canonicalItems {items cs : List (Key × PyValue F)}
    (h : canonicalItems items = .ok cs) {k : Key} {x : PyValue F} (hmem : (k, x) ∈ items) :
    ∃ c, canonical x = .ok c ∧ (k, c) ∈ cs := by
  obtain ⟨⟨j, c⟩, hmem', rfl, hc⟩ := exists_right (canonicalItems_ok_iff.mp h) hmem
  exact ⟨c, hc, hmem'⟩

theorem canonical_json (v : PyValue F) (h : v.json = true) : canonical v = .ok v := by
  induction v with
  | none | bool | int | float | str => rfl
  | tuple | set => cases h
  | list xs ih =>
    have hxs : canonicalElems xs = .ok xs := canonicalElems_ok_iff.mpr
      (List.forall₂_same.mpr fun x hx => ih x hx ((jsonElems_iff xs).mp h x hx))
    rw [canonical, hxs]
    rfl
  | dict items ih =>
    rw [canonical, canonicalItems_self fun p hp => ih p hp ((json_dict_iff.mp h).2.2 p hp)]
    rfl

/-- A value JSON gives back can be written. -/
theorem dumps_json {v : PyValue F} (h : v.json = true) (st : Style) :
    ∃ text, (canonical v >>= dumps st) = .ok text := by
  obtain ⟨t, ht, -⟩ := same_reread v h
  refine ⟨String.ofList (t.render st), ?_⟩
  rw [canonical_json v h]
  show dumps st v = _
  rw [dumps, ht]
  rfl

/-- A member that JSON gives back is found under its key in what is read back, when no
other key can join to it. -/
theorem lookup_payload {items : List (Key × PyValue F)} {text : String}
    (hnodup : (items.map Prod.fst).Nodup) (h : canonicalJson (.dict items) = .ok text) :
    ∃ items', loads text = .ok (.dict items') ∧
      ∀ key x, (.str (ofString key), x) ∈ items →
        ((ofString key).all fun c => c.val < 0x10000) = true → x.json = true →
        ∃ x', lookupItem (.str (ofString key)) items' = some x' ∧ x.same x' := by
  obtain ⟨c, t, hc, ht, rfl⟩ := canonicalJson_spec h
  obtain ⟨cs, hcs, hc⟩ := bind_ok hc
  cases hc
  obtain ⟨items', hload, hlookup⟩ := lookup_reread (keys_canonicalItems hcs ▸ hnodup) ht
  refine ⟨items', ?_, fun key x hmem hkey hx => ?_⟩
  · rw [loads, String.toList_ofList, parse_render, ← hload]
  · obtain ⟨c, hc, hmem'⟩ := mem_canonicalItems hcs hmem
    obtain rfl : x = c := Except.ok.inj ((canonical_json x hx).symm.trans hc)
    obtain ⟨tx, htx, hfound⟩ := hlookup (ofString key) x hmem' (joinSurrogates_ofString key)
      fun s y _ hjoin => eq_of_joinSurrogates hjoin (by simpa using hkey)
    obtain ⟨tx', htx', hsame⟩ := same_reread x hx
    obtain rfl : tx' = tx := Except.ok.inj (htx'.symm.trans htx)
    exact ⟨_, hfound, hsame⟩

end Payload

/-! ### Calls -/

/-- What the clocks say during a call. -/
structure Moment where
  timestamp : String
  orderingKey : String
  createdAt : String

/-- The arguments of `append_semantic`. -/
structure SemanticCall (F : Type) where
  eventType : EventType
  partitionKey : String
  payload : List (Key × PyValue F)
  wellFormed : (PyValue.dict payload).wellFormed = true
  semanticIntent : String
  executionLineage : List String
  trustLevel : Fl F
  causalityChain : List String
  schemaVersion : String
  policyClassification : String
  tenantId : String
  actorId : String
  correlationId : String
  moment : Moment
  bypassCausalCheck : Bool

/-- The arguments of `write_agent_snapshot`. -/
structure SnapshotCall (F : Type) where
  agentId : String
  state : List (Key × PyValue F)
  wellFormed : (PyValue.dict state).wellFormed = true
  correlationId : String
  tenantId : String
  actorId : String
  moment : Moment

def semanticKey : Key := .str (ofString "_semantic")

theorem wellFormed_setItem {items : List (Key × PyValue F)} {k : Key} {v : PyValue F}
    (h : (PyValue.dict items).wellFormed = true) (hv : v.wellFormed = true) :
    (PyValue.dict (setItem k v items)).wellFormed = true := by
  simp only [PyValue.wellFormed, Bool.and_eq_true, decide_eq_true_eq, wellFormedItems_iff] at h ⊢
  exact ⟨nodup_setItem k v h.1, forall_setItem h.2 hv⟩

/-- `{**payload, "_semantic": metadata.dict()}` -/
def semanticPayload (call : SemanticCall F) (metadata : SemanticMetadata F) : Payload F where
  value := .dict (setItem semanticKey metadata.dict call.payload)
  wellFormed := wellFormed_setItem call.wellFormed (wellFormed_of_json _ (json_metadata metadata))

variable [FloatCodec F] [SetText F] (H : Digest)

namespace SemanticCall
variable (call : SemanticCall F)

/-- What proves the inputs deterministic: payload, lineage, intent and schema version. -/
def reproInput : PyValue F :=
  .dict [(.str (ofString "payload"), .dict call.payload),
    (.str (ofString "execution_lineage"), stringList call.executionLineage),
    (.str (ofString "semantic_intent"), .str (ofString call.semanticIntent)),
    (.str (ofString "schema_version"), .str (ofString call.schemaVersion))]

def metadata : Except PyError (SemanticMetadata F) := do
  let reproJson ← dumps .spaced (← canonical call.reproInput)
  return {
    semanticIntent := call.semanticIntent
    executionLineage := call.executionLineage
    trustLevel := call.trustLevel
    causalityChain := call.causalityChain
    reproducibilityHash := H.hex reproJson
    schemaVersion := call.schemaVersion
    policyClassification := call.policyClassification }

/-- The call of `EventBusStorage.append` it ends in. -/
def appendCall : Except PyError (AppendCall F) := do
  let metadata ← call.metadata H
  return {
    eventType := call.eventType
    partitionKey := call.partitionKey
    payload := semanticPayload call metadata
    tenantId := call.tenantId
    actorId := call.actorId
    correlationId := call.correlationId
    timestamp := call.moment.timestamp
    orderingKey := call.moment.orderingKey
    createdAt := call.moment.createdAt }

/-- The parents whose existence is checked. -/
def parents : List String := if call.bypassCausalCheck then [] else call.causalityChain

end SemanticCall

def snapshotsKey : String := "snapshots"

namespace SnapshotCall
variable (call : SnapshotCall F)

def payload (stateSignature : String) : List (Key × PyValue F) :=
  [(.str (ofString "agent_id"), .str (ofString call.agentId)),
    (.str (ofString "agent_state"), .dict call.state),
    (.str (ofString "state_signature"), .str (ofString stateSignature))]

omit [FloatCodec F] [SetText F] in
theorem nodup_payload (stateSignature : String) :
    ((call.payload stateSignature).map Prod.fst).Nodup := by
  show List.Nodup [Key.str (ofString "agent_id"), .str (ofString "agent_state"),
    .str (ofString "state_signature")]
  decide

omit [FloatCodec F] [SetText F] in
theorem wellFormed_payload (stateSignature : String) :
    (PyValue.dict (call.payload stateSignature)).wellFormed = true := by
  rw [PyValue.wellFormed, decide_eq_true (call.nodup_payload stateSignature)]
  simp only [payload, wellFormedItems, call.wellFormed]
  rfl

/-- The call of `append_semantic` it makes: full trust, no causes, no causal check. -/
def semantic : Except PyError (SemanticCall F) := do
  let stateJson ← dumps .spaced (← canonical (.dict call.state))
  return {
    eventType := .snapshotStored
    partitionKey := snapshotsKey
    payload := call.payload (H.hex stateJson)
    wellFormed := call.wellFormed_payload _
    semanticIntent := "checkpoint_agent_state:" ++ call.agentId
    executionLineage := [call.agentId]
    trustLevel := FloatCodec.read ['1', '.', '0']
    causalityChain := []
    schemaVersion := "1.0.0"
    policyClassification := "governed"
    tenantId := call.tenantId
    actorId := call.actorId
    correlationId := call.correlationId
    moment := call.moment
    bypassCausalCheck := true }

end SnapshotCall

inductive FabricCall (F : Type) where
  | appendSemantic (call : SemanticCall F)
  | writeAgentSnapshot (call : SnapshotCall F)

def FabricCall.semantic : FabricCall F → Except PyError (SemanticCall F)
  | .appendSemantic call => .ok call
  | .writeAgentSnapshot call => call.semantic H

def FabricCall.appendCall (call : FabricCall F) : Except PyError (AppendCall F) := do
  (← call.semantic H).appendCall H

/-! ### The fabric -/

/-- A fabric over the common storage. `below` is `<` on floats. -/
structure PiSemanticEventFabric (F : Type) where
  minTrustThreshold : Fl F
  below : Fl F → Fl F → Bool

/-- `str(x)` -/
def floatStr : Fl F → String
  | .finite x => String.ofList (FloatCodec.repr x)
  | .nan => "nan"
  | .infinity false => "inf"
  | .infinity true => "-inf"

/-- `TrustEnforcementError`, a `ValueError`. -/
def trustEnforcementError (trustLevel minTrustThreshold : Fl F) : PyError :=
  .valueError ("Event trust level " ++ floatStr trustLevel ++
    " is below min required threshold " ++ floatStr minTrustThreshold)

/-- `CausalChainBreakError`, a `ValueError`. -/
def causalChainBreakError (parentHash : String) : PyError :=
  .valueError ("Causality chain broken: parent event hash " ++ parentHash ++
    " not found in database")

def checkEventHashExists (db : Database) (eventHash : String) : Bool :=
  db.events.rows.any fun r => r.eventHash = eventHash

/-- The loop over the parents. -/
def checkParents (db : Database) : List String → Except PyError Unit
  | [] => .ok ()
  | parentHash :: rest =>
    if checkEventHashExists db parentHash then checkParents db rest
    else .error (causalChainBreakError parentHash)

/-- A call, with nobody writing in between. -/
def PiSemanticEventFabric.run (fabric : PiSemanticEventFabric F) (db : Database)
    (call : FabricCall F) : Except PyError (DomainEvent F) × Database :=
  let checked : Except PyError (AppendCall F) := do
    let semantic ← call.semantic H
    if fabric.below semantic.trustLevel fabric.minTrustThreshold then
      .error (trustEnforcementError semantic.trustLevel fabric.minTrustThreshold)
    else
      checkParents db semantic.parents
      semantic.appendCall H
  match checked with
  | .error e => (.error e, db)
  | .ok append => EventFabric.append H db append

end PiPlatform.EventFabric
