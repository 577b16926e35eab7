import PiPlatform.EventFabric.Bus.Payload

/-! Events and their content hash.

An event's hash covers its identity, which is its type, its place, its authors, the
hash before it and the hash of its payload, and then the payload itself; the
wall-clock fields and the event id stay outside. The digest is a parameter `H`: the
hexadecimal SHA-256 of a text. -/
namespace PiPlatform.EventFabric

open Library Library.Json Library.Python

inductive EventType where
  | artifactCreated
  | artifactMutated
  | workerDispatched
  | workerCompleted
  | workerFailed
  | compositionAccepted
  | compositionRejected
  | compositionExecuted
  | stageTransition
  | policyEnforced
  | policyViolation
  | snapshotStored
  | snapshotChained
  | replayInitialized
  | replayReconstructed
  | tenantCreated
  | tenantDeactivated
  | governanceRuleApplied
  | schemaRegistered
  | schemaDeprecated
  | migrationExecuted
  | runtimeVersionChanged
  | checkpointWritten
  | orderingEpochEstablished
  deriving DecidableEq

namespace EventType

def value : EventType → String
  | artifactCreated => "artifact:created"
  | artifactMutated => "artifact:mutated"
  | workerDispatched => "worker:dispatched"
  | workerCompleted => "worker:completed"
  | workerFailed => "worker:failed"
  | compositionAccepted => "composition:accepted"
  | compositionRejected => "composition:rejected"
  | compositionExecuted => "composition:executed"
  | stageTransition => "stage:transition"
  | policyEnforced => "policy:enforced"
  | policyViolation => "policy:violation"
  | snapshotStored => "snapshot:stored"
  | snapshotChained => "snapshot:chained"
  | replayInitialized => "replay:initialized"
  | replayReconstructed => "replay:reconstructed"
  | tenantCreated => "tenant:created"
  | tenantDeactivated => "tenant:deactivated"
  | governanceRuleApplied => "governance:rule_applied"
  | schemaRegistered => "schema:registered"
  | schemaDeprecated => "schema:deprecated"
  | migrationExecuted => "migration:executed"
  | runtimeVersionChanged => "runtime:version_changed"
  | checkpointWritten => "checkpoint:written"
  | orderingEpochEstablished => "ordering:epoch_established"

def all : List EventType :=
  [artifactCreated, artifactMutated, workerDispatched, workerCompleted, workerFailed,
    compositionAccepted, compositionRejected, compositionExecuted, stageTransition,
    policyEnforced, policyViolation, snapshotStored, snapshotChained, replayInitialized,
    replayReconstructed, tenantCreated, tenantDeactivated, governanceRuleApplied,
    schemaRegistered, schemaDeprecated, migrationExecuted, runtimeVersionChanged,
    checkpointWritten, orderingEpochEstablished]

/-- `EventType(s)` -/
def ofValue (s : String) : Except PyError EventType :=
  match all.find? (·.value == s) with
  | some t => .ok t
  | none => .error (.valueError ("'" ++ s ++ "' is not a valid EventType"))

@[simp] theorem ofValue_value (t : EventType) : ofValue t.value = .ok t := by
  cases t <;> rfl

theorem value_injective : Function.Injective value := by
  intro a b h
  have hok : (Except.ok a : Except PyError EventType) = .ok b := by
    rw [← ofValue_value a, h, ofValue_value b]
  exact Except.ok.inj hok

end EventType

structure EventHeader where
  eventId : String
  eventType : EventType
  partitionKey : String
  partitionOffset : Int
  timestamp : String
  orderingKey : String
  authorTenantId : String
  authorActorId : String
  correlationId : String
  previousEventHash : String
  payloadHash : String

/-- The fields of a header that the hash covers. -/
structure Identity where
  eventType : EventType
  partitionKey : String
  partitionOffset : Int
  authorTenantId : String
  authorActorId : String
  correlationId : String
  previousEventHash : String
  payloadHash : String
  deriving DecidableEq

def EventHeader.identity (h : EventHeader) : Identity where
  eventType := h.eventType
  partitionKey := h.partitionKey
  partitionOffset := h.partitionOffset
  authorTenantId := h.authorTenantId
  authorActorId := h.authorActorId
  correlationId := h.correlationId
  previousEventHash := h.previousEventHash
  payloadHash := h.payloadHash

structure DomainEvent (F : Type) where
  header : EventHeader
  payload : PyValue F
  eventHash : String

variable {F : Type}

/-- The dictionary `identity` of `_compute_hash`. -/
def Identity.dict (i : Identity) : PyValue F :=
  .dict
    [(.str (ofString "event_type"), .str (ofString i.eventType.value)),
      (.str (ofString "partition_key"), .str (ofString i.partitionKey)),
      (.str (ofString "partition_offset"), .int i.partitionOffset),
      (.str (ofString "author_tenant_id"), .str (ofString i.authorTenantId)),
      (.str (ofString "author_actor_id"), .str (ofString i.authorActorId)),
      (.str (ofString "correlation_id"), .str (ofString i.correlationId)),
      (.str (ofString "previous_event_hash"), .str (ofString i.previousEventHash)),
      (.str (ofString "payload_hash"), .str (ofString i.payloadHash))]

/-- `hashlib.sha256(text.encode()).hexdigest()`, which is never empty. -/
structure Digest where
  hex : String → String
  hex_ne_empty : ∀ s, hex s ≠ ""

variable [FloatCodec F] [SetText F] (H : Digest)

/-- `DomainEvent._compute_hash` -/
def computeHash (header : EventHeader) (payload : PyValue F) : Except PyError String := do
  let headerJson ← dumps .compact (header.identity.dict (F := F))
  let payloadJson ← canonicalJson payload
  return H.hex (headerJson ++ payloadJson)

/-- `DomainEvent(header, payload, event_hash)`: an empty hash is computed. -/
def DomainEvent.make (header : EventHeader) (payload : PyValue F) (eventHash : String) :
    Except PyError (DomainEvent F) :=
  if eventHash = "" then do return ⟨header, payload, ← computeHash H header payload⟩
  else .ok ⟨header, payload, eventHash⟩

/-! ### What the hash covers -/

/-- The identity's members in the order their keys are written. -/
def Identity.members (i : Identity) : List (Text × Document F) :=
  [(ofString "author_actor_id", .str (ofString i.authorActorId)),
    (ofString "author_tenant_id", .str (ofString i.authorTenantId)),
    (ofString "correlation_id", .str (ofString i.correlationId)),
    (ofString "event_type", .str (ofString i.eventType.value)),
    (ofString "partition_key", .str (ofString i.partitionKey)),
    (ofString "partition_offset", .int i.partitionOffset),
    (ofString "payload_hash", .str (ofString i.payloadHash)),
    (ofString "previous_event_hash", .str (ofString i.previousEventHash))]

omit [FloatCodec F] in
theorem emit_dict (i : Identity) : emit (i.dict (F := F)) = .ok (.obj i.members) := rfl

/-- The text in front of the payload in what is hashed. -/
def Identity.text (F : Type) [FloatCodec F] (i : Identity) : String :=
  String.ofList ((Document.obj (i.members (F := F))).render .compact)

/-- The hash of an event is that of its identity's text and its payload's. -/
theorem computeHash_eq (header : EventHeader) (payload : PyValue F) :
    computeHash H header payload =
      (canonicalJson payload).map fun json => H.hex (header.identity.text F ++ json) := by
  simp only [computeHash, dumps]
  show ((emit (header.identity.dict (F := F)) >>= fun d =>
    .ok (String.ofList (d.render .compact))) >>= _) = _
  rw [emit_dict]
  cases canonicalJson payload <;> rfl

omit [FloatCodec F] [SetText F] in
theorem members_injective {i j : Identity}
    (h : joinMembers (i.members (F := F)) = joinMembers j.members) : i = j := by
  simp only [Identity.members, joinMembers, Document.join, List.cons.injEq, Prod.mk.injEq,
    Document.str.injEq, Document.int.injEq, joinSurrogates_ofString,
    ofString_inj, EventType.value_injective.eq_iff] at h
  obtain ⟨⟨-, hactor⟩, ⟨-, htenant⟩, ⟨-, hcorr⟩, ⟨-, htype⟩, ⟨-, hkey⟩, ⟨-, hoffset⟩,
    ⟨-, hpayload⟩, ⟨-, hprev⟩, -⟩ := h
  cases i
  cases j
  simp only [Identity.mk.injEq]
  exact ⟨htype, hkey, hoffset, htenant, hactor, hcorr, hprev, hpayload⟩

omit [SetText F] in
/-- The identity's text ends where it says it does: the hashed text determines the
identity and the payload's text. -/
theorem text_append_inj {i j : Identity} {s t : String}
    (h : i.text F ++ s = j.text F ++ t) : i = j ∧ s = t := by
  have hlist := congrArg String.toList h
  simp only [Identity.text, String.toList_append, String.toList_ofList] at hlist
  obtain ⟨hmembers, hrest⟩ := render_obj_append_inj .compact hlist
  exact ⟨members_injective (Document.obj.inj hmembers), String.toList_injective hrest⟩

end PiPlatform.EventFabric
