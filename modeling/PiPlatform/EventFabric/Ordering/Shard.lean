import Mathlib.Data.String.Basic
import PiPlatform.EventFabric.Bus.Reading
import PiPlatform.Library.StableSort
import PiPlatform.Library.UniqueTable

/-! Shard sequences and ordering epochs.

A coordinator has a row for each shard that ever advanced and one for each epoch.
`advance_sequence` looks at the row twice, once for the frozen flag and once, in a
transaction of its own, for the number to count on from; `establish_epoch` sets the
flag and the epoch of the rows there are; `recover_shard` takes the number from the
last event another store has for the shard.

Callers on one coordinator take these steps in any order. A call that returns a
sequence reads it back in a last step of its own, so between any two steps of a call
the others may take any of theirs. -/
namespace PiPlatform.EventFabric.Ordering

open Library Library.Json Library.Python

structure ShardSequence where
  shardId : String
  currentSequence : Int
  lastEventId : String
  lastEventHash : String
  epochNumber : Int
  frozen : Bool
  deriving DecidableEq

/-- What a call raises; `overflow` is an integer that no INTEGER column can hold. -/
inductive ShardError where
  | sequenceFrozen (message : String)
  | overflow
  | storage (e : PyError)
  deriving DecidableEq

/-- The columns of a shard behind its primary key. -/
structure SequenceRow where
  currentSequence : Int
  lastEventId : String
  lastEventHash : String
  epochNumber : Int
  frozen : Bool
  updatedAt : String
  deriving DecidableEq

structure EpochRow where
  establishedAt : String
  participatingShards : String
  coordinationHash : String
  deriving DecidableEq

structure Coordinator where
  shardSequences : Dict String SequenceRow
  epochCoordinations : Dict Int EpochRow

/-- A coordinator just created. -/
def Coordinator.empty : Coordinator := ⟨.empty, .empty⟩

/-! ### Sequences -/

def Coordinator.getSequence (db : Coordinator) (shardId : String) : ShardSequence :=
  match db.shardSequences.get? shardId with
  | none => ⟨shardId, 0, "", "", 0, false⟩
  | some row =>
    ⟨shardId, row.currentSequence, row.lastEventId, row.lastEventHash, row.epochNumber, row.frozen⟩

def frozenMessage (shardId : String) : String := "Shard " ++ shardId ++ " is frozen"

/-- The row an `INSERT … ON CONFLICT(shard_id) DO UPDATE` leaves: epoch and flag are set
only where there was none. -/
def upserted (sequence : Int) (eventId eventHash updatedAt : String) :
    Option SequenceRow → SequenceRow
  | none => ⟨sequence, eventId, eventHash, 0, false, updatedAt⟩
  | some row =>
    { row with
      currentSequence := sequence
      lastEventId := eventId
      lastEventHash := eventHash
      updatedAt := updatedAt }

def Coordinator.upsert (db : Coordinator) (shardId : String) (sequence : Int)
    (eventId eventHash updatedAt : String) : Except ShardError Coordinator :=
  if Storable sequence then
    .ok { db with
      shardSequences := db.shardSequences.set shardId
        (upserted sequence eventId eventHash updatedAt (db.shardSequences.get? shardId)) }
  else .error .overflow

/-- `current_seq + 1`, with 0 for a shard that has no row. -/
def Coordinator.nextSequence (db : Coordinator) (shardId : String) : Int :=
  (db.shardSequences.get? shardId).elim 0 (fun row => row.currentSequence) + 1

/-! ### Epochs -/

/-- `UPDATE shard_sequences SET frozen = 1, epoch_number = ? WHERE shard_id = ?` -/
def freezeShard (epochNumber : Int) (rows : Dict String SequenceRow) (shardId : String) :
    Dict String SequenceRow :=
  match rows.get? shardId with
  | none => rows
  | some row => rows.set shardId { row with frozen := true, epochNumber := epochNumber }

def freezeShards (epochNumber : Int) (rows : Dict String SequenceRow) (shards : List String) :
    Dict String SequenceRow :=
  shards.foldl (freezeShard epochNumber) rows

/-- What `establish_epoch` returns. -/
structure EpochAnswer where
  epochNumber : Int
  establishedAt : String
  participatingShards : List String
  coordinationHash : String
  deriving DecidableEq

section Establish
variable (F : Type) [FloatCodec F] (H : Digest)

/-- `sorted(participating_shards)` as JSON. -/
def shardsDocument (shards : List String) : Document F :=
  .arr ((sortBy id shards).map fun s => .str (ofString s))

def coordData (epochNumber : Int) (establishedAt : String) (shards : List String) : String :=
  String.ofList ((Document.obj
    [(ofString "epoch_number", .int epochNumber),
      (ofString "established_at", .str (ofString establishedAt)),
      (ofString "participating_shards", shardsDocument F shards)]).render .spaced)

/-- `establish_epoch`, one transaction; an epoch that was recorded stays as it was. -/
def Coordinator.establishEpoch (db : Coordinator) (epochNumber : Int) (shards : List String)
    (establishedAt : String) : Except ShardError (EpochAnswer × Coordinator) :=
  if Storable epochNumber then
    let coordHash := H.hex (coordData F epochNumber establishedAt shards)
    .ok (⟨epochNumber, establishedAt, shards, coordHash⟩,
      { shardSequences := freezeShards epochNumber db.shardSequences shards
        epochCoordinations :=
          match db.epochCoordinations.get? epochNumber with
          | some _ => db.epochCoordinations
          | none => db.epochCoordinations.set epochNumber
            ⟨establishedAt, String.ofList ((shardsDocument F shards).render .spaced), coordHash⟩ })
  else .error .overflow

end Establish

theorem get?_freezeShards (epochNumber : Int) (shards : List String)
    (rows : Dict String SequenceRow) (s : String) :
    (freezeShards epochNumber rows shards).get? s = (rows.get? s).map fun row =>
      if s ∈ shards then { row with frozen := true, epochNumber := epochNumber } else row := by
  induction shards generalizing rows with
  | nil => simp [freezeShards]
  | cons t shards ih =>
    have hstep : (freezeShard epochNumber rows t).get? s = (rows.get? s).map fun row =>
        if s = t then { row with frozen := true, epochNumber := epochNumber } else row := by
      unfold freezeShard
      cases ht : rows.get? t with
      | none =>
        by_cases hst : s = t
        · rw [hst, ht, Option.map_none]
        · simp [hst]
      | some row =>
        rw [Dict.get?_set]
        by_cases hst : s = t
        · rw [hst, ht, if_pos rfl, Option.map_some, if_pos rfl]
        · simp [hst, Ne.symm hst]
    show (freezeShards epochNumber (freezeShard epochNumber rows t) shards).get? s = _
    rw [ih, hstep, Option.map_map]
    congr 1
    funext row
    by_cases hst : s = t <;> by_cases hmem : s ∈ shards <;> simp [hst, hmem]

/-! ### Recovery -/

variable {F : Type} [FloatCodec F] [SetText F]

/-- `get_partition_tail` -/
def getPartitionTail (H : Digest) (db : Database) (key : String) (n : Int) :
    Except PyError (List (DomainEvent F)) := do
  let events ← (limitRows n (sortBy (fun r => -r.partitionOffset) (partitionRows db key))).mapM
    (rowToEvent H)
  return events.reverse

/-- An event store some processes have appended to. -/
structure EventStorage (F : Type) [FloatCodec F] [SetText F] (H : Digest) where
  db : Database
  reachable : ∃ (Q : Type) (_ : DecidableEq Q) (steps : List (Step Q F)),
    ((appenders Q F H).after steps).db = db

variable {H : Digest} {db : Database} {es : List (DomainEvent F)}

theorem EventStorage.stored (store : EventStorage F H) :
    ∃ es : List (DomainEvent F), Stored H store.db es := by
  obtain ⟨Q, _, steps, hdb⟩ := store.reachable
  exact ⟨_, hdb ▸ (safe_after H steps).stored⟩

/-- Newest first is the partition backwards. -/
theorem sortBy_offset (h : Stored H db es) (key : String) :
    sortBy (fun r : EventRow => -r.partitionOffset) (partitionRows db key) =
      (partitionRows db key).reverse := by
  have hlinked := (h.rows_linked key).pairwise_place
  have hsort := stableSort_sortBy (fun r : EventRow => -r.partitionOffset) (partitionRows db key)
  have hnodup : ((partitionRows db key).map fun r => r.partitionOffset).Nodup :=
    List.pairwise_map.mpr (hlinked.imp fun hab => ne_of_lt hab)
  refine (hsort.perm.trans (List.reverse_perm _).symm).eq_of_pairwise ?_ hsort.sorted ?_
  · intro a b ha hb hab hba
    have hoffset : a.partitionOffset = b.partitionOffset := by omega
    exact List.inj_on_of_nodup_map hnodup (hsort.mem_iff.mp ha) (List.mem_reverse.mp hb) hoffset
  · exact List.pairwise_reverse.mpr (hlinked.imp fun hab => by
      show -_ ≤ -_
      exact neg_le_neg (le_of_lt hab))

/-- The tail is the end of the partition, read back. -/
theorem getPartitionTail_view (h : Stored H db es) (key : String) (n : Nat) :
    getPartitionTail H db key n =
      .ok ((partitionView (F := F) H db key).reverse.take n).reverse := by
  have hreads : Reads H ((partitionRows db key).reverse.take n)
      ((partitionView (F := F) H db key).reverse.take n) :=
    List.forall₂_take n (List.rel_reverse (h.reads_view key))
  rw [getPartitionTail, sortBy_offset h, limitRows, if_neg (by omega)]
  show ((((partitionRows db key).reverse.take n).mapM (rowToEvent H)) >>= _) = _
  rw [hreads.mapM]
  rfl

/-- The tail of one is the partition's last event, if it has any. -/
theorem getPartitionTail_one (h : Stored H db es) (key : String) :
    getPartitionTail H db key 1 = .ok (partitionView (F := F) H db key).getLast?.toList := by
  rw [show (1 : Int) = ((1 : Nat) : Int) from rfl, getPartitionTail_view h, ← List.head?_reverse]
  cases (partitionView (F := F) H db key).reverse <;> rfl

/-- The last event of a partition stands at the number of its events. -/
theorem getLast?_view (h : Stored H db es) (key : String) {e : DomainEvent F}
    (he : (partitionView (F := F) H db key).getLast? = some e) :
    e.header.partitionOffset = (partitionRows db key).length := by
  have hpos : 0 < (partitionView (F := F) H db key).length := by
    rw [List.length_pos_iff_ne_nil]
    rintro hnil
    rw [hnil] at he
    cases he
  rw [List.getLast?_eq_getElem?] at he
  have hoffset := h.view_offset key he
  have hlength := (h.reads_view key).length_eq
  omega

/-! ### Callers -/

/-- A call between two of its steps: found not frozen and about to write, with the last
event of its shard's partition and about to write, or about to read its answer. -/
inductive Pending where
  | advancing (shardId eventId eventHash : String)
  | recovering (shardId : String) (sequence : Int) (eventId eventHash : String)
  | reading (shardId : String)
  deriving DecidableEq

def Pending.shardId : Pending → String
  | .advancing shardId _ _ => shardId
  | .recovering shardId _ _ _ => shardId
  | .reading shardId => shardId

/-- A call that has ended, with what it returned or raised. -/
inductive Outcome where
  | sequence (shardId : String) (result : Except ShardError ShardSequence)
  | epoch (epochNumber : Int) (participatingShards : List String)
      (result : Except ShardError EpochAnswer)

/-- The coordinator's tables, the calls under way, and those that have ended. -/
structure Callers (P : Type) where
  db : Coordinator
  pending : P → Option Pending
  ended : List (P × Outcome)

/-- `advance`, `establish` and `recover` begin a call; `write`, `close` and `abort` go on
with the one a caller has under way. -/
inductive CallStep (P F : Type) [FloatCodec F] [SetText F] (H : Digest) : Type where
  | advance (p : P) (shardId eventId eventHash : String)
  | establish (p : P) (epochNumber : Int) (participatingShards : List String)
      (establishedAt : String)
  | recover (p : P) (shardId : String) (eventStorage : EventStorage F H)
  | write (p : P) (updatedAt : String)
  | close (p : P)
  | abort (p : P) (error : PyError)

namespace Callers
variable {P : Type}

def start : Callers P := ⟨.empty, fun _ => none, []⟩

variable [DecidableEq P] (w : Callers P)

def await (p : P) (q : Pending) : Callers P :=
  { w with pending := Function.update w.pending p (some q) }

/-- The call of `p` is over. -/
def finish (p : P) (outcome : Outcome) (db : Coordinator) : Callers P where
  db := db
  pending := Function.update w.pending p none
  ended := w.ended ++ [(p, outcome)]

/-- The write of an `advance_sequence` or a `recover_shard`. -/
def commit (p : P) (shardId : String) (sequence : Int) (eventId eventHash updatedAt : String) :
    Callers P :=
  match w.db.upsert shardId sequence eventId eventHash updatedAt with
  | .ok db => { w with db := db, pending := Function.update w.pending p (some (.reading shardId)) }
  | .error e => w.finish p (.sequence shardId (.error e)) w.db

def advance (p : P) (shardId eventId eventHash : String) : Callers P :=
  if (w.db.getSequence shardId).frozen then
    w.finish p (.sequence shardId (.error (.sequenceFrozen (frozenMessage shardId)))) w.db
  else w.await p (.advancing shardId eventId eventHash)

section Begin
variable {F : Type} [FloatCodec F] [SetText F] (H : Digest)

def establish (F : Type) [FloatCodec F] (p : P) (epochNumber : Int) (shards : List String)
    (establishedAt : String) : Callers P :=
  match w.db.establishEpoch F H epochNumber shards establishedAt with
  | .ok (answer, db) => w.finish p (.epoch epochNumber shards (.ok answer)) db
  | .error e => w.finish p (.epoch epochNumber shards (.error e)) w.db

def recover (p : P) (shardId : String) (eventStorage : EventStorage F H) : Callers P :=
  match getPartitionTail (F := F) H eventStorage.db shardId 1 with
  | .error e => w.finish p (.sequence shardId (.error (.storage e))) w.db
  | .ok [] => w.await p (.reading shardId)
  | .ok (e :: _) =>
    w.await p (.recovering shardId e.header.partitionOffset e.header.eventId e.eventHash)

/-- One step of one caller; a caller with a call under way begins no other. -/
def next : CallStep P F H → Callers P
  | .advance p shardId eventId eventHash =>
    if (w.pending p).isSome then w else w.advance p shardId eventId eventHash
  | .establish p epochNumber shards establishedAt =>
    if (w.pending p).isSome then w else w.establish H F p epochNumber shards establishedAt
  | .recover p shardId eventStorage =>
    if (w.pending p).isSome then w else w.recover H p shardId eventStorage
  | .write p updatedAt =>
    match w.pending p with
    | some (.advancing shardId eventId eventHash) =>
      w.commit p shardId (w.db.nextSequence shardId) eventId eventHash updatedAt
    | some (.recovering shardId sequence eventId eventHash) =>
      w.commit p shardId sequence eventId eventHash updatedAt
    | _ => w
  | .close p =>
    match w.pending p with
    | some (.reading shardId) =>
      w.finish p (.sequence shardId (.ok (w.db.getSequence shardId))) w.db
    | _ => w
  | .abort p error =>
    match w.pending p with
    | some q => w.finish p (.sequence q.shardId (.error (.storage error))) w.db
    | none => w

end Begin

end Callers

/-- Any number of callers on one coordinator. -/
def callers (P F : Type) [DecidableEq P] [FloatCodec F] [SetText F] (H : Digest) :
    System (Callers P) (CallStep P F H) where
  initial := .start
  step := fun w => w.next H

/-! ### What a step stores -/

variable {P : Type} [DecidableEq P] {w : Callers P}

theorem get?_commit (p : P) (shardId : String) (sequence : Int)
    (eventId eventHash updatedAt s : String) :
    (w.commit p shardId sequence eventId eventHash updatedAt).db.shardSequences.get? s =
      if Storable sequence ∧ shardId = s then
        some (upserted sequence eventId eventHash updatedAt (w.db.shardSequences.get? s))
      else w.db.shardSequences.get? s := by
  unfold Callers.commit Coordinator.upsert
  by_cases hq : Storable sequence
  · rw [if_pos hq]
    show (w.db.shardSequences.set shardId _).get? s = _
    rw [Dict.get?_set]
    by_cases hs : shardId = s
    · rw [if_pos hs, if_pos ⟨hq, hs⟩, hs]
    · rw [if_neg hs, if_neg fun h => hs h.2]
  · rw [if_neg hq, if_neg fun h => hq h.1]
    rfl

omit [SetText F] in
theorem get?_establish (p : P) (n : Int) (shards : List String) (establishedAt s : String) :
    (w.establish H F p n shards establishedAt).db.shardSequences.get? s =
      if Storable n ∧ s ∈ shards then
        (w.db.shardSequences.get? s).map fun row => { row with frozen := true, epochNumber := n }
      else w.db.shardSequences.get? s := by
  unfold Callers.establish Coordinator.establishEpoch
  by_cases hn : Storable n
  · rw [if_pos hn]
    show (freezeShards n w.db.shardSequences shards).get? s = _
    rw [get?_freezeShards]
    by_cases hs : s ∈ shards
    · simp only [hn, hs, and_self, if_true]
    · simp only [hs, and_false, if_false, Option.map_id']
  · rw [if_neg hn, if_neg fun h => hn h.1]
    rfl

/-- Recovery reads any store without an error, and what it is about to write is the number
of events in the shard's partition, unless that is empty. -/
theorem recover_eq (p : P) (s : String) (store : EventStorage F H) :
    w.recover H p s store =
      w.await p (match (partitionView (F := F) H store.db s).getLast? with
        | none => .reading s
        | some e => .recovering s (partitionRows store.db s).length e.header.eventId
            e.eventHash) := by
  obtain ⟨es, hstored⟩ := store.stored
  unfold Callers.recover
  rw [getPartitionTail_one hstored]
  cases hlast : (partitionView (F := F) H store.db s).getLast? with
  | none => rfl
  | some e =>
    rw [← getLast?_view hstored s hlast]
    rfl

/-! ### What a step does -/

/-- What one step can do: nothing, end a call without a write, let a call wait for its
next step, write for one, or establish an epoch. -/
inductive Effect (w : Callers P) : CallStep P F H → Callers P → Prop
  | idle (a : CallStep P F H) : Effect w a w
  | ended (a : CallStep P F H) (p : P) (s : String) (result : Except ShardError ShardSequence) :
    Effect w a (w.finish p (.sequence s result) w.db)
  | waiting (a : CallStep P F H) (p : P) (q : Pending)
    (unfrozen : ∀ s eventId eventHash, q = .advancing s eventId eventHash →
      (w.db.getSequence s).frozen = false) : Effect w a (w.await p q)
  | advanced (p : P) (updatedAt s eventId eventHash : String)
    (pending : w.pending p = some (.advancing s eventId eventHash)) :
    Effect w (.write p updatedAt)
      (w.commit p s (w.db.nextSequence s) eventId eventHash updatedAt)
  | recovered (p : P) (updatedAt s : String) (sequence : Int) (eventId eventHash : String)
    (pending : w.pending p = some (.recovering s sequence eventId eventHash)) :
    Effect w (.write p updatedAt) (w.commit p s sequence eventId eventHash updatedAt)
  | established (p : P) (n : Int) (shards : List String) (establishedAt : String)
    (idle : w.pending p = none) :
    Effect w (.establish p n shards establishedAt) (w.establish H F p n shards establishedAt)

theorem effect_next (w : Callers P) (a : CallStep P F H) : Effect w a (w.next H a) := by
  cases a with
  | advance p s eventId eventHash =>
    rw [Callers.next, Callers.advance]
    split
    · exact .idle _
    · split
      · exact .ended _ p s _
      · next hfrozen =>
        refine .waiting _ p _ fun s' _ _ heq => ?_
        obtain ⟨rfl, -⟩ := Pending.advancing.inj heq
        exact Bool.eq_false_iff.mpr hfrozen
  | establish p n shards establishedAt =>
    rw [Callers.next]
    split
    · exact .idle _
    · next hp => exact .established p n shards establishedAt (by simpa using hp)
  | recover p s store =>
    rw [Callers.next, recover_eq]
    split
    · exact .idle _
    · refine .waiting _ p _ fun _ _ _ heq => ?_
      split at heq <;> cases heq
  | write p updatedAt =>
    rw [Callers.next]
    split
    · next hp => exact .advanced p updatedAt _ _ _ hp
    · next hp => exact .recovered p updatedAt _ _ _ _ hp
    · exact .idle _
  | close p | abort p error =>
    rw [Callers.next]
    split
    · exact .ended _ p _ _
    · exact .idle _

end PiPlatform.EventFabric.Ordering
