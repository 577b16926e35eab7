import PiPlatform.EventFabric.Bus.Event

/-! The event store.

Three tables, each with its constraints as fields: event ids and places
(partition, offset) are unique among events, keys among partitions, and
(consumer, partition) among checkpoints. A statement that would break one raises
`IntegrityError`. Statements run in `Sql`, which keeps what the statements before a
failure wrote; `atomically` is the `try` around them, which commits or rolls back.

`append` reads the head of its partition before its first `INSERT` opens the
transaction, so the head is an argument of `writes`: between the two, another
process may have written. -/
namespace PiPlatform.EventFabric

open Library Library.Json Library.Python

/-! ### Tables -/

/-- The columns an `INSERT INTO events` lists. -/
structure EventColumns where
  eventId : String
  eventType : String
  partitionKey : String
  partitionOffset : Int
  timestamp : String
  orderingKey : String
  authorTenantId : String
  authorActorId : String
  correlationId : String
  previousEventHash : String
  payloadHash : String
  eventHash : String
  payloadJson : String
  deriving DecidableEq

structure EventRow extends EventColumns where
  globalOffset : Nat
  deriving DecidableEq

def EventRow.place (r : EventRow) : String × Int := (r.partitionKey, r.partitionOffset)

structure EventsTable where
  rows : List EventRow
  /-- The last `global_offset` handed out. -/
  sequence : Nat
  ids_nodup : (rows.map fun r => r.eventId).Nodup
  places_nodup : (rows.map EventRow.place).Nodup
  ordered : (rows.map EventRow.globalOffset).Pairwise (· < ·)
  bounded : ∀ r ∈ rows, r.globalOffset ≤ sequence

def EventsTable.empty : EventsTable where
  rows := []
  sequence := 0
  ids_nodup := List.nodup_nil
  places_nodup := List.nodup_nil
  ordered := List.Pairwise.nil
  bounded := List.forall_mem_nil _

/-- Neither unique index holds the new row's entry. -/
def EventsTable.Fits (t : EventsTable) (c : EventColumns) : Prop :=
  c.eventId ∉ t.rows.map (fun r => r.eventId) ∧
    (c.partitionKey, c.partitionOffset) ∉ t.rows.map EventRow.place

instance (t : EventsTable) (c : EventColumns) : Decidable (t.Fits c) :=
  inferInstanceAs (Decidable (_ ∧ _))

/-- A row under the next sequence number. -/
def EventsTable.push (t : EventsTable) (c : EventColumns) (h : t.Fits c) : EventsTable where
  rows := t.rows ++ [⟨c, t.sequence + 1⟩]
  sequence := t.sequence + 1
  ids_nodup := by
    rw [List.map_append]
    exact nodup_snoc t.ids_nodup h.1
  places_nodup := by
    rw [List.map_append]
    exact nodup_snoc t.places_nodup h.2
  ordered := by
    rw [List.map_append, List.pairwise_append]
    refine ⟨t.ordered, List.pairwise_singleton _ _, fun a ha b hb => ?_⟩
    obtain ⟨r, hr, rfl⟩ := List.mem_map.mp ha
    obtain rfl := List.mem_singleton.mp hb
    exact Nat.lt_succ_of_le (t.bounded r hr)
  bounded := by
    intro r hr
    rcases List.mem_append.mp hr with hr | hr
    · exact Nat.le_succ_of_le (t.bounded r hr)
    · obtain rfl := List.mem_singleton.mp hr
      exact Nat.le_refl _

/-- The columns of a partition behind its primary key. -/
structure PartitionRow where
  currentOffset : Int
  lastEventId : String
  lastEventHash : String
  createdAt : String
  deriving DecidableEq

/-- The columns of a checkpoint behind its unique `(consumer_id, partition_key)`. -/
structure CheckpointRow where
  lastConsumedOffset : Int
  lastEventId : String
  checkpointHash : String
  checkpointedAt : String
  deriving DecidableEq

structure Database where
  events : EventsTable
  eventPartitions : Dict String PartitionRow
  checkpoints : Dict (String × String) CheckpointRow

/-- A store just created. -/
def Database.empty : Database := ⟨.empty, .empty, .empty⟩

/-! ### Statements -/

/-- Statements on a connection; what was written before an error is still there. -/
structure Sql (α : Type) where
  run : Database → Except PyError α × Database

instance : Monad Sql where
  pure a := ⟨fun db => (.ok a, db)⟩
  bind x f := ⟨fun db =>
    match x.run db with
    | (.ok a, db') => (f a).run db'
    | (.error e, db') => (.error e, db')⟩

def liftExcept {α : Type} (x : Except PyError α) : Sql α := ⟨fun db => (x, db)⟩

/-- `INSERT INTO event_partitions` -/
def insertPartition (key : String) (row : PartitionRow) : Sql Unit := ⟨fun db =>
  if (db.eventPartitions.get? key).isSome then (.error .integrityError, db)
  else (.ok (), { db with eventPartitions := db.eventPartitions.set key row })⟩

/-- `INSERT INTO events` -/
def insertEvent (c : EventColumns) : Sql Unit := ⟨fun db =>
  if h : db.events.Fits c then (.ok (), { db with events := db.events.push c h })
  else (.error .integrityError, db)⟩

/-- `UPDATE event_partitions SET … WHERE partition_key = ?` -/
def updatePartition (key : String) (offset : Int) (id hash : String) : Sql Unit := ⟨fun db =>
  match db.eventPartitions.get? key with
  | none => (.ok (), db)
  | some row =>
    (.ok (), { db with
      eventPartitions := db.eventPartitions.set key
        { row with currentOffset := offset, lastEventId := id, lastEventHash := hash } })⟩

/-- `try: …; conn.commit()` with `except: conn.rollback(); raise` -/
def atomically {α : Type} (body : Sql α) (db : Database) : Except PyError α × Database :=
  match body.run db with
  | (.ok a, db') => (.ok a, db')
  | (.error e, _) => (.error e, db)

/-! ### Event production -/

variable {F : Type}

/-- A call of `append`, with what its clock and the wall clock say during it. -/
structure AppendCall (F : Type) where
  eventType : EventType
  partitionKey : String
  payload : Payload F
  tenantId : String
  actorId : String
  correlationId : String
  timestamp : String
  orderingKey : String
  createdAt : String

/-- `SELECT current_offset, last_event_hash FROM event_partitions WHERE partition_key = ?` -/
def readHead (db : Database) (key : String) : Option (Int × String) :=
  (db.eventPartitions.get? key).map fun r => (r.currentOffset, r.lastEventHash)

/-- `f"evt_{tenant_id}_{partition_key}_{new_partition_offset}"` -/
def eventId (tenantId partitionKey : String) (offset : Int) : String :=
  "evt_" ++ tenantId ++ "_" ++ partitionKey ++ "_" ++ String.ofList (intText offset)

def AppendCall.header (call : AppendCall F) (currentOffset : Int)
    (lastEventHash payloadHash : String) : EventHeader where
  eventId := eventId call.tenantId call.partitionKey (currentOffset + 1)
  eventType := call.eventType
  partitionKey := call.partitionKey
  partitionOffset := currentOffset + 1
  timestamp := call.timestamp
  orderingKey := call.orderingKey
  authorTenantId := call.tenantId
  authorActorId := call.actorId
  correlationId := call.correlationId
  previousEventHash := lastEventHash
  payloadHash := payloadHash

def DomainEvent.columns (e : DomainEvent F) (payloadJson : String) : EventColumns where
  eventId := e.header.eventId
  eventType := e.header.eventType.value
  partitionKey := e.header.partitionKey
  partitionOffset := e.header.partitionOffset
  timestamp := e.header.timestamp
  orderingKey := e.header.orderingKey
  authorTenantId := e.header.authorTenantId
  authorActorId := e.header.authorActorId
  correlationId := e.header.correlationId
  previousEventHash := e.header.previousEventHash
  payloadHash := e.header.payloadHash
  eventHash := e.eventHash
  payloadJson := payloadJson

variable [FloatCodec F] [SetText F] (H : Digest)

/-- The partition row an `append` creates when it found none. -/
def createPartition (call : AppendCall F) : Option (Int × String) → Sql Unit
  | none => insertPartition call.partitionKey ⟨0, "", "", call.createdAt⟩
  | some _ => pure ()

/-- What `append` does between the `SELECT` and the end of its `try`. -/
def writes (call : AppendCall F) (payloadJson : String) (head : Option (Int × String)) :
    Sql (DomainEvent F) := do
  createPartition call head
  let currentOffset := (head.getD (0, "")).1
  let lastEventHash := (head.getD (0, "")).2
  let header := call.header currentOffset lastEventHash (H.hex payloadJson)
  let event ← liftExcept (DomainEvent.make H header call.payload.value "")
  insertEvent (event.columns payloadJson)
  updatePartition call.partitionKey (currentOffset + 1) header.eventId event.eventHash
  return event

/-- `append`, with nobody writing in between. -/
def append (db : Database) (call : AppendCall F) :
    Except PyError (DomainEvent F) × Database :=
  match canonicalJson call.payload.value with
  | .error e => (.error e, db)
  | .ok payloadJson => atomically (writes H call payloadJson (readHead db call.partitionKey)) db

/-! ### Event retrieval -/

/-- The row read back; an empty hash is computed again. -/
def rowToEvent (row : EventRow) : Except PyError (DomainEvent F) := do
  let eventType ← EventType.ofValue row.eventType
  let header : EventHeader :=
    { eventId := row.eventId, eventType, partitionKey := row.partitionKey,
      partitionOffset := row.partitionOffset, timestamp := row.timestamp,
      orderingKey := row.orderingKey, authorTenantId := row.authorTenantId,
      authorActorId := row.authorActorId, correlationId := row.correlationId,
      previousEventHash := row.previousEventHash, payloadHash := row.payloadHash }
  let payload ← loads row.payloadJson
  DomainEvent.make H header payload row.eventHash

/-- `LIMIT n`; a negative limit is none. -/
def limitRows {α : Type} (n : Int) (rows : List α) : List α :=
  if n < 0 then rows else rows.take n.toNat

/-- `if tenant_filter`: neither `None` nor the empty string filters. -/
def tenantAdmits (filter : Option String) (row : EventRow) : Bool :=
  match filter with
  | none => true
  | some t => t = "" || row.authorTenantId = t

/-- `WHERE partition_key = ?` -/
def partitionRows (db : Database) (key : String) : List EventRow :=
  db.events.rows.filter fun r => r.partitionKey = key

/-- The `SELECT` of `read_partition`. -/
def selectPartition (db : Database) (key : String) (startOffset limit : Int)
    (tenantFilter : Option String) : List EventRow :=
  limitRows limit
    (((partitionRows db key).filter fun r =>
      startOffset ≤ r.partitionOffset && tenantAdmits tenantFilter r).insertionSort fun a b =>
        a.partitionOffset ≤ b.partitionOffset)

def readPartition (db : Database) (key : String) (startOffset limit : Int)
    (tenantFilter : Option String) : Except PyError (List (DomainEvent F)) :=
  (selectPartition db key startOffset limit tenantFilter).mapM (rowToEvent H)

/-! ### Checkpoints -/

structure ConsumerCheckpoint where
  consumerId : String
  partitionKey : String
  lastConsumedOffset : Int
  lastEventId : String
  checkpointHash : String
  checkpointedAt : String
  deriving DecidableEq

def writeCheckpoint (db : Database) (c : ConsumerCheckpoint) : Database :=
  { db with
    checkpoints := db.checkpoints.set (c.consumerId, c.partitionKey)
      ⟨c.lastConsumedOffset, c.lastEventId, c.checkpointHash, c.checkpointedAt⟩ }

def readCheckpoint (db : Database) (consumerId key : String) : Option ConsumerCheckpoint :=
  (db.checkpoints.get? (consumerId, key)).map fun r =>
    ⟨consumerId, key, r.lastConsumedOffset, r.lastEventId, r.checkpointHash, r.checkpointedAt⟩

/-! ### Chain integrity -/

def hashMismatch (e : DomainEvent F) (recomputed : String) : String :=
  "hash_mismatch at offset " ++ String.ofList (intText e.header.partitionOffset) ++
    ": expected=" ++ e.eventHash ++ ", got=" ++ recomputed

def chainBreak (e : DomainEvent F) (prevHash : String) : String :=
  "chain_break at offset " ++ String.ofList (intText e.header.partitionOffset) ++
    ": expected_prev=" ++ prevHash ++ ", got=" ++ e.header.previousEventHash

/-- The errors the loop of `verify_partition_chain` adds for one event, the hash of
the event before it given unless it is the first. -/
def eventErrors (prev : Option String) (e : DomainEvent F) : Except PyError (List String) := do
  let recomputed ← computeHash H e.header e.payload
  let mismatch := if e.eventHash = recomputed then [] else [hashMismatch e recomputed]
  let break_ :=
    match prev with
    | none => []
    | some prevHash =>
      if e.header.previousEventHash = prevHash then [] else [chainBreak e prevHash]
  return mismatch ++ break_

def chainErrors (prev : Option String) : List (DomainEvent F) → Except PyError (List String)
  | [] => .ok []
  | e :: es => do return (← eventErrors H prev e) ++ (← chainErrors (some e.eventHash) es)

/-- `verify_partition_chain`; no event is no error. -/
def verifyPartitionChain (F : Type) [FloatCodec F] [SetText F] (db : Database) (key : String) :
    Except PyError (Bool × List String) := do
  let events ← readPartition (F := F) H db key 1 1000000 none
  let errors ← chainErrors H none events
  return (errors.length == 0, errors)

end PiPlatform.EventFabric
