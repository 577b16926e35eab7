import PiPlatform.EventFabric.Bus.Storage
import PiPlatform.Library.AutoTable
import PiPlatform.Library.Python.JsonModule
import PiPlatform.Library.StableSort

/-! The production store.

Snapshots and audit rows stand in tables with AUTOINCREMENT ids that nothing is ever
removed from; snapshot ids and audit ids are unique over all tenants. Rate windows are
found by a text of tenant, actor and start, and counted up where one is there. The clock
is an argument of whatever reads it. -/
namespace PiPlatform.Production

open Library Library.Json Library.Python EventFabric

def intString (i : Int) : String := String.ofList (intText i)

/-! ### Snapshots -/

/-- What `persist` is called with. -/
structure SnapshotColumns where
  snapshotId : String
  tenantId : String
  sourceId : String
  snapshotType : String
  createdAt : String
  sequenceNumber : Int
  payloadHash : String
  payloadJson : String
  previousHash : String
  deriving DecidableEq

structure Snapshot extends SnapshotColumns where
  artifactHash : String
  deriving DecidableEq

/-- The text that an artifact hash covers. -/
def SnapshotColumns.text (c : SnapshotColumns) : String :=
  c.snapshotId ++ ":" ++ c.tenantId ++ ":" ++ c.sourceId ++ ":" ++ c.snapshotType ++ ":" ++
    c.createdAt ++ ":" ++ intString c.sequenceNumber ++ ":" ++ c.payloadHash ++ ":" ++
    c.previousHash

abbrev SnapshotsTable := AutoTable Snapshot fun s => s.snapshotId

section Persister
variable (H : Digest)

/-- `SnapshotPersister.persist`: nothing where the snapshot id is taken. -/
def persist (t : SnapshotsTable) (c : SnapshotColumns) : Option SnapshotsTable :=
  t.insert ⟨c, H.hex c.text⟩

/-- `WHERE tenant_id = ? AND source_id = ? AND snapshot_type = ?` -/
def ofSource (tenantId sourceId snapshotType : String) (r : Nat × Snapshot) : Bool :=
  r.2.tenantId = tenantId && r.2.sourceId = sourceId && r.2.snapshotType = snapshotType

/-- `SnapshotPersister.get_latest`: of several with the largest number, the first. -/
def getLatest (rows : List (Nat × Snapshot)) (tenantId sourceId snapshotType : String) :
    Option (Nat × Snapshot) :=
  (sortBy (fun r => -r.2.sequenceNumber)
    (rows.filter (ofSource tenantId sourceId snapshotType))).head?

/-- `SnapshotPersister.get_chain` -/
def getChain (rows : List (Nat × Snapshot)) (tenantId sourceId snapshotType : String) :
    List (Nat × Snapshot) :=
  sortBy (fun r => r.2.sequenceNumber) (rows.filter (ofSource tenantId sourceId snapshotType))

/-- The errors of `verify_chain`, from the hash that the next row has to repeat. -/
def chainErrors : String → List (Nat × Snapshot) → List String
  | _, [] => []
  | prevHash, (_, s) :: rows =>
    (if H.hex s.text ≠ s.artifactHash then ["hash_mismatch:snapshot_id=" ++ s.snapshotId]
      else []) ++
      (if s.previousHash ≠ prevHash then ["chain_break:snapshot_id=" ++ s.snapshotId] else []) ++
      chainErrors s.artifactHash rows

/-- `SnapshotPersister.verify_chain` -/
def verifyChain (rows : List (Nat × Snapshot)) (tenantId sourceId snapshotType : String) :
    Bool × List String :=
  let errors := chainErrors H "" (getChain rows tenantId sourceId snapshotType)
  (errors.isEmpty, errors)

end Persister

/-! ### The audit log -/

structure AuditRow where
  auditId : String
  tenantId : String
  actorId : String
  actorType : String
  action : String
  resourceType : String
  resourceId : String
  requestPayload : String
  responseSummary : String
  timestamp : String
  correlationId : String
  sessionId : String
  riskAssessment : String
  previousAuditHash : String
  auditHash : String
  deriving DecidableEq

abbrev AuditTable := AutoTable AuditRow AuditRow.auditId

/-- The arguments of `AuditLogger.log`. -/
structure AuditCall (F : Type) where
  tenantId : String
  actorId : String
  actorType : String
  action : String
  resourceType : String
  resourceId : String
  requestPayload : PyValue F
  responseSummary : PyValue F
  correlationId : String
  sessionId : Option String
  riskAssessment : Option (PyValue F)

/-- The `audit_id` of a call at a time in microseconds. -/
def auditIdAt (tenantId actorId : String) (micros : Int) : String :=
  "audit_" ++ tenantId ++ "_" ++ actorId ++ "_" ++ intString micros

namespace AuditCall
variable {F : Type} (call : AuditCall F)

/-- The logical event that the chained hash covers. -/
def payload : PyValue F :=
  .dict
    [(.str (ofString "tenant_id"), .str (ofString call.tenantId)),
      (.str (ofString "actor_id"), .str (ofString call.actorId)),
      (.str (ofString "actor_type"), .str (ofString call.actorType)),
      (.str (ofString "action"), .str (ofString call.action)),
      (.str (ofString "resource_type"), .str (ofString call.resourceType)),
      (.str (ofString "resource_id"), .str (ofString call.resourceId)),
      (.str (ofString "correlation_id"), .str (ofString call.correlationId))]

/-- The row that `log` inserts behind the hash it has read. -/
def row [FloatCodec F] [SetText F] (H : Digest) (prevHash auditId timestamp : String) :
    Except PyError AuditRow := do
  let payload ← dumps .compact call.payload
  let auditHash := H.hex (prevHash ++ ":" ++ payload)
  let requestPayload ← (valueJson F).dumps call.requestPayload
  let responseSummary ← (valueJson F).dumps call.responseSummary
  let riskAssessment ← (valueJson F).dumps (call.riskAssessment.getD (.dict []))
  return {
    auditId := auditId
    tenantId := call.tenantId
    actorId := call.actorId
    actorType := call.actorType
    action := call.action
    resourceType := call.resourceType
    resourceId := call.resourceId
    requestPayload := requestPayload
    responseSummary := responseSummary
    timestamp := timestamp
    correlationId := call.correlationId
    sessionId := call.sessionId.getD ""
    riskAssessment := riskAssessment
    previousAuditHash := prevHash
    auditHash := auditHash }

variable {call} in
/-- A row holds its id, its tenant and the hash that was read. -/
theorem row_spec [FloatCodec F] [SetText F] {H : Digest} {prevHash auditId timestamp : String}
    {r : AuditRow} (h : call.row H prevHash auditId timestamp = .ok r) :
    r.auditId = auditId ∧ r.tenantId = call.tenantId ∧ r.previousAuditHash = prevHash := by
  obtain ⟨payload, -, h⟩ := bind_ok h
  obtain ⟨requestPayload, -, h⟩ := bind_ok h
  obtain ⟨responseSummary, -, h⟩ := bind_ok h
  obtain ⟨riskAssessment, -, h⟩ := bind_ok h
  obtain rfl := Except.ok.inj h
  exact ⟨rfl, rfl, rfl⟩

end AuditCall

/-- `WHERE tenant_id = ?` -/
def tenantAudit (t : AuditTable) (tenantId : String) : List (Nat × AuditRow) :=
  t.rows.filter fun r => r.2.tenantId = tenantId

end PiPlatform.Production
