import PiPlatform.EventFabric.Bus.Reading

/-! Deterministic consumers.

A call of `consume` reads its checkpoint, reads a batch behind it, hands the events to
its handler one after another, and then writes one checkpoint at the last event of the
batch. A handler that raises ends the call before the checkpoint is written.

`Position` says where a checkpoint stands in the partition as it reads back; a batch
is then a piece of the view behind that position (`Position.fetch`), and saving
progress moves the position to the end of the batch (`Position.save`). -/
namespace PiPlatform.EventFabric

open Library Library.Json Library.Python

variable {F σ : Type} [FloatCodec F] [SetText F]

/-! ### Checkpoint hashes -/

/-- The dictionary `_compute_hash` of a checkpoint writes: its logical position. -/
def ConsumerCheckpoint.dict (c : ConsumerCheckpoint) : PyValue F :=
  .dict
    [(.str (ofString "consumer_id"), .str (ofString c.consumerId)),
      (.str (ofString "partition_key"), .str (ofString c.partitionKey)),
      (.str (ofString "last_consumed_offset"), .int c.lastConsumedOffset),
      (.str (ofString "last_event_id"), .str (ofString c.lastEventId))]

variable (H : Digest) (F) in
/-- `ConsumerCheckpoint._compute_hash` -/
def ConsumerCheckpoint.computeHash (c : ConsumerCheckpoint) : Except PyError String := do
  return H.hex (← dumps .compact (c.dict (F := F)))

variable (H : Digest) (F) in
def ConsumerCheckpoint.verify (c : ConsumerCheckpoint) : Except PyError Bool := do
  return (← c.computeHash F H) == c.checkpointHash

/-! ### The consumer -/

structure DeterministicConsumer where
  consumerId : String
  tenantId : Option String
  deriving DecidableEq

/-- A handler raises or returns, and leaves its state either way. -/
abbrev Handler (F σ : Type) := DomainEvent F → σ → Except PyError Unit × σ

/-- `for event in events: handler(event); processed += 1` -/
def deliver (handler : Handler F σ) : List (DomainEvent F) → Nat → σ → Except PyError Nat × σ
  | [], processed, s => (.ok processed, s)
  | e :: events, processed, s =>
    match handler e s with
    | (.ok (), s') => deliver handler events (processed + 1) s'
    | (.error err, s') => (.error err, s')

namespace DeterministicConsumer

/-- `(checkpoint.last_consumed_offset + 1) if checkpoint else 1` -/
def startOffset (c : DeterministicConsumer) (db : Database) (key : String) : Int :=
  match readCheckpoint db c.consumerId key with
  | some checkpoint => checkpoint.lastConsumedOffset + 1
  | none => 1

variable (H : Digest) (c : DeterministicConsumer) (db : Database) (key : String)

def fetch (start batchSize : Int) : Except PyError (List (DomainEvent F)) :=
  readPartition H db key start batchSize c.tenantId

/-- The new checkpoint at the last event of a batch. -/
def checkpointAt (last : DomainEvent F) (now : String) : Except PyError ConsumerCheckpoint := do
  let new : ConsumerCheckpoint :=
    ⟨c.consumerId, key, last.header.partitionOffset, last.header.eventId, "", now⟩
  return { new with checkpointHash := ← new.computeHash F H }

/-- What follows the loop: with an event processed, a checkpoint at `events[-1]`. -/
def saveProgress (events : List (DomainEvent F)) (now : String) : Except PyError Database :=
  match events.getLast? with
  | none => .ok db
  | some last => do return writeCheckpoint db (← c.checkpointAt H key last now)

/-- `consume`, with nobody else writing in between. -/
def consume (handler : Handler F σ) (batchSize : Int) (now : String) (s : σ) :
    Except PyError Nat × σ × Database :=
  match c.fetch H db key (c.startOffset db key) batchSize with
  | .error e => (.error e, s, db)
  | .ok events =>
    match deliver handler events 0 s with
    | (.error e, s') => (.error e, s', db)
    | (.ok processed, s') =>
      match c.saveProgress H db key events now with
      | .error e => (.error e, s', db)
      | .ok db' => (.ok processed, s', db')

end DeterministicConsumer

/-! ### Positions -/

variable {H : Digest} {c : DeterministicConsumer} {db : Database} {key : String}
  {es : List (DomainEvent F)}

/-- The checkpoint of the consumer stands behind the first `n` events of the view. -/
structure Position (H : Digest) (F : Type) [FloatCodec F] [SetText F] (c : DeterministicConsumer)
    (db : Database) (key : String) (n : Nat) : Prop where
  start : c.startOffset db key = 1 + n
  within : n ≤ (partitionView (F := F) H db key).length

/-- A checkpoint as `saveProgress` writes it, and that it verifies. -/
theorem checkpointAt_verifies (c : DeterministicConsumer) (key : String) (last : DomainEvent F)
    (now : String) : ∃ new, c.checkpointAt H key last now = .ok new ∧
      new.verify F H = .ok true ∧ new.consumerId = c.consumerId ∧ new.partitionKey = key ∧
      new.lastConsumedOffset = last.header.partitionOffset := by
  refine ⟨_, rfl, ?_, rfl, rfl, rfl⟩
  simp only [ConsumerCheckpoint.verify]
  exact congrArg Except.ok (beq_self_eq_true _)

/-- Checkpoints are no part of what a store holds. -/
theorem Stored.checkpoints (h : Stored H db es)
    (checkpoints : Dict (String × String) CheckpointRow) :
    Stored H { db with checkpoints := checkpoints } es :=
  ⟨h.rows, h.linked, h.heads⟩

theorem startOffset_congr {db' : Database} (h : db'.checkpoints = db.checkpoints)
    (c : DeterministicConsumer) (key : String) : c.startOffset db' key = c.startOffset db key := by
  simp only [DeterministicConsumer.startOffset, readCheckpoint, h]

theorem startOffset_writeCheckpoint (db : Database) (c c' : DeterministicConsumer)
    (key key' : String) (new : ConsumerCheckpoint) (hid : new.consumerId = c'.consumerId)
    (hkey : new.partitionKey = key') :
    c.startOffset (writeCheckpoint db new) key =
      if c'.consumerId = c.consumerId ∧ key' = key then new.lastConsumedOffset + 1
      else c.startOffset db key := by
  subst hkey
  rw [← hid]
  simp only [DeterministicConsumer.startOffset, readCheckpoint, writeCheckpoint, Dict.get?_set,
    Prod.mk.injEq]
  by_cases h : new.consumerId = c.consumerId ∧ new.partitionKey = key
  · rw [if_pos h, if_pos h, Option.map_some]
  · rw [if_neg h, if_neg h]

/-- A batch is what the tenant filter leaves of the view behind the position, up to
the limit. -/
theorem Position.fetch {n : Nat} (h : Position H F c db key n) (hs : Stored H db es)
    (batchSize : Int) :
    c.fetch H db key (c.startOffset db key) batchSize = .ok (limitRows batchSize
      (((partitionView (F := F) H db key).drop n).filter (eventAdmits c.tenantId))) := by
  rw [DeterministicConsumer.fetch, h.start]
  exact hs.readPartition_view key n batchSize c.tenantId

/-- The checkpoint of the consumer in the partition is moved behind the last of the
events, if there is one, and no other is moved. -/
def Moves (c : DeterministicConsumer) (key : String) (events : List (DomainEvent F))
    (db db' : Database) : Prop :=
  ∀ (c' : DeterministicConsumer) (key' : String),
    c'.startOffset db' key' =
      match events.getLast? with
      | none => c'.startOffset db key'
      | some last =>
        if c.consumerId = c'.consumerId ∧ key = key' then last.header.partitionOffset + 1
        else c'.startOffset db key'

/-- Saving progress never fails, and changes nothing but the consumer's checkpoint. -/
theorem saveProgress_eq (c : DeterministicConsumer) (db : Database) (key : String)
    (events : List (DomainEvent F)) (now : String) :
    ∃ checkpoints,
      c.saveProgress H db key events now = .ok { db with checkpoints := checkpoints } ∧
      Moves c key events db { db with checkpoints := checkpoints } := by
  unfold Moves
  unfold DeterministicConsumer.saveProgress
  cases hlast : events.getLast? with
  | none => exact ⟨db.checkpoints, rfl, fun _ _ => rfl⟩
  | some last =>
    obtain ⟨new, hnew, -, hid, hkey, hoffset⟩ := checkpointAt_verifies (H := H) c key last now
    refine ⟨(writeCheckpoint db new).checkpoints, ?_, fun c' key' => ?_⟩
    · simp only [hnew]
      rfl
    · have hstart := startOffset_writeCheckpoint db c' c key' key new hid hkey
      rwa [hoffset] at hstart

theorem limitRows_eq_take {α : Type} (n : Int) (rows : List α) :
    ∃ k, limitRows n rows = rows.take k := by
  unfold limitRows
  split
  · exact ⟨rows.length, (List.take_length).symm⟩
  · exact ⟨n.toNat, rfl⟩

theorem limitRows_eq_nil {α : Type} {n : Int} {rows : List α} (hn : n ≠ 0)
    (h : limitRows n rows = []) : rows = [] := by
  unfold limitRows at h
  split at h
  · exact h
  · rcases List.take_eq_nil_iff.mp h with h | h
    · omega
    · exact h

/-- A batch that is not empty ends at a later place of the view, and is what the filter
leaves up to there. -/
theorem Stored.batch (hs : Stored H db es) {n : Nat} {batchSize : Int} {p : DomainEvent F → Bool}
    {last : DomainEvent F} (hlast : (limitRows batchSize
      (((partitionView (F := F) H db key).drop n).filter p)).getLast? = some last) :
    ∃ m : Nat, n < m ∧ m ≤ (partitionView (F := F) H db key).length ∧
      last.header.partitionOffset = m ∧
      ((partitionView H db key).take m).filter p =
        ((partitionView H db key).take n).filter p ++
          limitRows batchSize (((partitionView H db key).drop n).filter p) := by
  obtain ⟨k, hk⟩ := limitRows_eq_take batchSize
    (((partitionView (F := F) H db key).drop n).filter p)
  rw [hk] at hlast ⊢
  obtain ⟨q, hq, htake⟩ := filter_take_of_getLast hlast
  rw [List.getElem?_drop] at hq
  have hlt := (List.getElem?_eq_some_iff.mp hq).1
  have hoffset := hs.view_offset key hq
  refine ⟨n + (q + 1), by omega, by omega, by omega, ?_⟩
  rw [List.take_add, List.filter_append, htake]

/-- The last of the events right behind a place says how many they are. -/
theorem Stored.piece (hs : Stored H db es) {n : Nat} {events : List (DomainEvent F)}
    (hpiece : events <+: (partitionView H db key).drop n) {last : DomainEvent F}
    (hlast : events.getLast? = some last) :
    last.header.partitionOffset = n + events.length := by
  rw [List.getLast?_eq_getElem?] at hlast
  have hlt := (List.getElem?_eq_some_iff.mp hlast).1
  obtain ⟨rest, hrest⟩ := hpiece
  have hget : ((partitionView (F := F) H db key).drop n)[events.length - 1]? = some last := by
    rw [← hrest, List.getElem?_append_left hlt, hlast]
  rw [List.getElem?_drop] at hget
  have hoffset := hs.view_offset key hget
  omega

end PiPlatform.EventFabric
