import PiPlatform.EventFabric.Bus.Interleaving

/-! A partition's chain depends on its own calls only.

`chainOf` computes, from nothing but what the calls to one partition say, the
records their events leave: ids, offsets and hashes. No clock reading enters it and
no other partition. `chain_returned` shows that every run leaves exactly those
records, so two runs that make the same calls to each partition, however they
interleave them and whatever their clocks say, leave the same chains. -/
namespace PiPlatform.EventFabric

open Library Library.Json Library.Python

variable {P F : Type}

/-- What a call says that a clock does not, its payload as the text it is stored as. -/
structure LogicalCall where
  eventType : EventType
  partitionKey : String
  payloadJson : Except PyError String
  tenantId : String
  actorId : String
  correlationId : String

def AppendCall.logical [FloatCodec F] [SetText F] (call : AppendCall F) : LogicalCall where
  eventType := call.eventType
  partitionKey := call.partitionKey
  payloadJson := canonicalJson call.payload.value
  tenantId := call.tenantId
  actorId := call.actorId
  correlationId := call.correlationId

/-- What an event leaves in its partition's chain. -/
structure ChainRecord where
  eventId : String
  partitionOffset : Int
  previousEventHash : String
  payloadHash : String
  eventHash : String
  deriving DecidableEq

def DomainEvent.record (e : DomainEvent F) : ChainRecord :=
  ⟨e.header.eventId, e.header.partitionOffset, e.header.previousEventHash, e.header.payloadHash,
    e.eventHash⟩

def EventRow.record (r : EventRow) : ChainRecord :=
  ⟨r.eventId, r.partitionOffset, r.previousEventHash, r.payloadHash, r.eventHash⟩

variable [FloatCodec F] [SetText F] (H : Digest)

/-- The identity of the event a logical call makes behind a head. -/
def LogicalCall.identity (c : LogicalCall) (json : String) (head : Option (Int × String)) :
    Identity where
  eventType := c.eventType
  partitionKey := c.partitionKey
  partitionOffset := (head.getD (0, "")).1 + 1
  authorTenantId := c.tenantId
  authorActorId := c.actorId
  correlationId := c.correlationId
  previousEventHash := (head.getD (0, "")).2
  payloadHash := H.hex json

/-- The record of a logical call behind those of the calls before it. -/
def chainStep (F : Type) [FloatCodec F] (H : Digest) (records : List ChainRecord)
    (c : LogicalCall) : List ChainRecord :=
  match c.payloadJson with
  | .error _ => records
  | .ok json =>
    let head := records.getLast?.map fun r => (r.partitionOffset, r.eventHash)
    let identity := c.identity H json head
    records ++ [⟨eventId c.tenantId c.partitionKey identity.partitionOffset,
      identity.partitionOffset, identity.previousEventHash, identity.payloadHash,
      H.hex (identity.text F ++ json)⟩]

/-- The chain of one partition, from its own calls. -/
def chainOf (F : Type) [FloatCodec F] (H : Digest) (calls : List LogicalCall) : List ChainRecord :=
  calls.foldl (chainStep F H) []

def callsTo (key : String) (calls : List (AppendCall F)) : List LogicalCall :=
  (calls.filter fun c => c.partitionKey = key).map AppendCall.logical

theorem callsTo_snoc (key : String) (calls : List (AppendCall F)) (call : AppendCall F) :
    callsTo key (calls ++ [call]) =
      if call.partitionKey = key then callsTo key calls ++ [call.logical]
      else callsTo key calls := by
  rw [callsTo, List.filter_append]
  split <;> next h => simp [h, callsTo]

/-- The records of one more event: those of one more call. -/
theorem chain_logAppend {key : String} {calls : List (AppendCall F)} {es : List (DomainEvent F)}
    (h : (inPartition key es).map DomainEvent.record = chainOf F H (callsTo key calls))
    (call : AppendCall F) :
    (inPartition key (logAppend H es call)).map DomainEvent.record =
      chainOf F H (callsTo key (calls ++ [call])) := by
  rw [callsTo_snoc, logAppend]
  by_cases hkey : call.partitionKey = key
  · subst hkey
    rw [if_pos rfl, chainOf, List.foldl_append, ← chainOf, ← h]
    simp only [List.foldl_cons, List.foldl_nil, chainStep, AppendCall.logical]
    cases hjson : canonicalJson call.payload.value with
    | error e => rfl
    | ok json =>
      let es' := inPartition call.partitionKey es
      have hkey : (call.event H json (headOf es')).header.partitionKey = call.partitionKey := rfl
      have hhead : (es'.map DomainEvent.record).getLast?.map
          (fun r => (r.partitionOffset, r.eventHash)) = headOf es' := by
        rw [List.getLast?_map, Option.map_map]
        rfl
      simp only [inPartition_snoc]
      rw [if_pos hkey, List.map_append, hhead]
      rfl
  · rw [if_neg hkey, ← h]
    split
    · rfl
    · next json _ =>
      have hevent : (call.event H json
          (headOf (inPartition call.partitionKey es))).header.partitionKey ≠ key := hkey
      rw [inPartition_snoc, if_neg hevent]

/-- A sequential log's chain is that of the partition's own calls. -/
theorem chain_sequential (key : String) (calls : List (AppendCall F)) :
    (inPartition key ((sequential F H).after calls)).map DomainEvent.record =
      chainOf F H (callsTo key calls) := by
  induction calls using List.reverseRecOn with
  | nil => rfl
  | append_singleton calls call ih =>
    rw [(sequential F H).after_snoc]
    exact chain_logAppend H ih call

/-! ### Runs -/

/-- The calls that returned, in the order they ended. -/
def World.returnedCalls (w : World P F) : List (AppendCall F) :=
  w.ended.filterMap fun c => c.2.2.toOption.map fun _ => c.2.1

theorem committed_next [DecidableEq P] (w : World P F) (a : Step P F) :
    (World.next H w a).returnedCalls = w.returnedCalls ++ committed H w a := by
  cases a with
  | read p call =>
    simp only [World.next, committed, List.append_nil]
    split
    · rfl
    · split
      · simp [World.returnedCalls, World.finish, Except.toOption]
      · rfl
  | transact p =>
    cases hq : w.pending p with
    | none => simp only [World.next, committed, hq, List.append_nil]
    | some q =>
      simp only [World.next, committed, hq]
      cases hresult : (atomically (writes H q.call q.payloadJson q.head) w.db).1 with
      | ok e | error e => simp [World.returnedCalls, World.finish, Except.toOption]
  | abort p err =>
    cases hq : w.pending p with
    | none => simp only [World.next, committed, hq, List.append_nil]
    | some q => simp [World.next, committed, hq, World.returnedCalls, World.finish, Except.toOption]

/-- The sequential run behind an interleaved one makes the calls that returned. -/
theorem trace_eq [DecidableEq P] (steps : List (Step P F)) :
    (serialisation P F H).trace steps = ((appenders P F H).after steps).returnedCalls := by
  induction steps using List.reverseRecOn with
  | nil => rfl
  | append_singleton steps a ih =>
    rw [(serialisation P F H).trace_snoc, ih, (appenders P F H).after_snoc]
    exact (committed_next H _ a).symm

/-- What a run leaves of a partition is the chain of the calls to it that returned. -/
theorem chain_returned [DecidableEq P] (steps : List (Step P F)) (key : String) :
    (partitionRows ((appenders P F H).after steps).db key).map EventRow.record =
      chainOf F H (callsTo key ((appenders P F H).after steps).returnedCalls) := by
  have hsafe := safe_after H steps
  have hrecord : ∀ (row : EventRow) (e : DomainEvent F), RowHolds H row e →
      row.record = e.record := by
    intro row e hrow
    simp only [EventRow.record, DomainEvent.record, hrow.id_eq, hrow.offset_eq, hrow.previous_eq,
      hrow.hash_eq, hrow.payloadHash_eq]
  rw [map_eq_of_forall₂ (hsafe.stored.rows_hold key) hrecord, returned_serial, trace_eq]
  exact chain_sequential H key _

/-- Every call that ended so far returned. -/
def World.AllReturned (w : World P F) : Prop :=
  ∀ p call result, (p, call, result) ∈ w.ended → ∃ e, result = .ok e

/-- The calls that ended, in order. -/
def World.calls (w : World P F) : List (AppendCall F) := w.ended.map fun c => c.2.1

omit [FloatCodec F] [SetText F] in
theorem returnedCalls_eq {w : World P F} (h : w.AllReturned) : w.returnedCalls = w.calls := by
  rw [World.returnedCalls, World.calls, ← List.filterMap_eq_map]
  refine List.filterMap_congr fun c hc => ?_
  obtain ⟨e, he⟩ := h c.1 c.2.1 c.2.2 hc
  rw [he]
  rfl

/-- Two runs, of any processes on two fresh stores, in which no call raises and which
make the same calls to each partition in the same order, leave every partition the
same chain. -/
theorem chains_reproducible {P P' : Type} [DecidableEq P] [DecidableEq P']
    (steps : List (Step P F)) (steps' : List (Step P' F))
    (hall : ((appenders P F H).after steps).AllReturned)
    (hall' : ((appenders P' F H).after steps').AllReturned)
    (hcalls : ∀ key, callsTo key ((appenders P F H).after steps).calls =
      callsTo key ((appenders P' F H).after steps').calls) (key : String) :
    (partitionRows ((appenders P F H).after steps).db key).map EventRow.record =
      (partitionRows ((appenders P' F H).after steps').db key).map EventRow.record := by
  rw [chain_returned, chain_returned, returnedCalls_eq hall, returnedCalls_eq hall', hcalls key]

/-- A digest with no collisions, for runs on fixed calls. -/
def prefixDigest : Digest where
  hex := fun s => "h" ++ s
  hex_ne_empty := fun s => by simp

theorem prefixDigest_injective : Function.Injective prefixDigest.hex :=
  fun _ _ h => String.append_right_inj "h" |>.mp h

def onePayload : Payload Literal := ⟨.dict [(.str (ofString "n"), .int 1)], rfl⟩

def sampleCall (key time : String) (payload : Payload Literal) : AppendCall Literal where
  eventType := .artifactCreated
  partitionKey := key
  payload := payload
  tenantId := "t"
  actorId := "u"
  correlationId := "c"
  timestamp := time
  orderingKey := time
  createdAt := time

omit [FloatCodec F] [SetText F] in
theorem allReturned_of_all {w : World P F}
    (h : (w.ended.all fun c => c.2.2.toOption.isSome) = true) : w.AllReturned := by
  intro p call result hmem
  have hsome := List.all_eq_true.mp h _ hmem
  cases result with
  | ok e => exact ⟨e, rfl⟩
  | error e => cases hsome

/-- Two processes whose calls overlap, and one process an hour later. -/
theorem chains_reproducible_overlapping :
    let earlier := (appenders Bool Literal prefixDigest).after
      [.read true (sampleCall "a" "09:00" onePayload),
        .read false (sampleCall "b" "09:00" onePayload), .transact false, .transact true]
    let later := (appenders Unit Literal prefixDigest).after
      [.read () (sampleCall "a" "10:00" onePayload), .transact (),
        .read () (sampleCall "b" "10:00" onePayload), .transact ()]
    (partitionRows earlier.db "a").map EventRow.record =
      (partitionRows later.db "a").map EventRow.record := by
  intro earlier later
  have hcalls : ∀ key, callsTo key earlier.calls = callsTo key later.calls := by
    intro key
    have hearlier : earlier.calls =
        [sampleCall "b" "09:00" onePayload, sampleCall "a" "09:00" onePayload] := rfl
    have hlater : later.calls =
        [sampleCall "a" "10:00" onePayload, sampleCall "b" "10:00" onePayload] := rfl
    rw [hearlier, hlater]
    by_cases ha : "a" = key
    · subst ha
      rfl
    · by_cases hb : "b" = key
      · subst hb
        rfl
      · simp [callsTo, sampleCall, ha, hb]
  exact chains_reproducible prefixDigest _ _ (allReturned_of_all (by decide +kernel))
    (allReturned_of_all (by decide +kernel)) hcalls "a"

end PiPlatform.EventFabric
