import PiPlatform.EventFabric.Bus.Reproducible
import PiPlatform.EventFabric.Ordering.Shard

/-! Checkpoints of a shard.

A checkpoint made without a hash gets the digest of its fields, and `verify` compares the one it
has with that digest. `verify_monotonicity` makes the checkpoints again from the rows and looks
at each but the first, so the first row's hash is never compared, and a row stored without a hash
gets the right one on the way. `monotonicity_checked_iff` says exactly when its answer is right
all the same. -/
namespace PiPlatform.EventFabric.Ordering

open Library Library.Json

/-- The fields of a checkpoint, and the columns of its row. -/
structure MonotonicCheckpoint where
  checkpointId : String
  shardId : String
  sequence : Int
  lastEventHash : String
  epochNumber : Int
  timestamp : String
  checkpointHash : String
  deriving DecidableEq

/-- `shard_checkpoints`, in the order of the row ids. -/
structure CheckpointTable where
  rows : List MonotonicCheckpoint
  primaryKey : (rows.map fun row => row.checkpointId).Nodup
  uniqueSequence : (rows.map fun row => (row.shardId, row.sequence)).Nodup

section Verify
variable (F : Type) [FloatCodec F] (H : Digest)

namespace MonotonicCheckpoint

/-- What `__post_init__` hashes. -/
def data (c : MonotonicCheckpoint) : String :=
  String.ofList ((Document.obj (F := F)
    [(ofString "checkpoint_id", .str (ofString c.checkpointId)),
      (ofString "epoch_number", .int c.epochNumber),
      (ofString "last_event_hash", .str (ofString c.lastEventHash)),
      (ofString "sequence", .int c.sequence),
      (ofString "shard_id", .str (ofString c.shardId)),
      (ofString "timestamp", .str (ofString c.timestamp))]).render .compact)

/-- `__post_init__`: an empty hash is computed. -/
def postInit (c : MonotonicCheckpoint) : MonotonicCheckpoint :=
  if c.checkpointHash = "" then { c with checkpointHash := H.hex (c.data F) } else c

def verify (c : MonotonicCheckpoint) : Bool :=
  let expected := ({ c with checkpointHash := "" }.postInit F H).checkpointHash
  c.checkpointHash == expected

end MonotonicCheckpoint

def nonMonotonic (i : Nat) (prev curr : MonotonicCheckpoint) : String :=
  "non_monotonic at index " ++ toString i ++ ": " ++ toString prev.sequence ++ " -> " ++
    toString curr.sequence

def checkpointHashInvalid (i : Nat) (curr : MonotonicCheckpoint) : String :=
  "checkpoint_hash_invalid at index " ++ toString i ++ ": " ++ curr.checkpointId

/-- The loop of `verify_monotonicity`, from the index `i` of the second checkpoint on. -/
def monotonicityErrors : Nat → List MonotonicCheckpoint → List String
  | i, prev :: curr :: rest =>
    (if curr.sequence ≤ prev.sequence then [nonMonotonic i prev curr] else []) ++
      (if curr.verify F H then [] else [checkpointHashInvalid i curr]) ++
      monotonicityErrors (i + 1) (curr :: rest)
  | _, _ => []

/-- `SELECT * FROM shard_checkpoints WHERE shard_id = ? ORDER BY rowid ASC` -/
def CheckpointTable.ofShard (table : CheckpointTable) (shardId : String) :
    List MonotonicCheckpoint := table.rows.filter fun row => row.shardId = shardId

def CheckpointTable.verifyMonotonicity (table : CheckpointTable) (shardId : String) :
    Bool × List String :=
  let checkpoints := (table.ofShard shardId).map fun row => row.postInit F H
  let errors := monotonicityErrors F H 1 checkpoints
  (errors.length == 0, errors)

/-! ### Good histories -/

/-- Each sequence is above the one before. -/
def Rising (rows : List MonotonicCheckpoint) : Prop :=
  (rows.map fun row => row.sequence).Pairwise (· < ·)

instance (rows : List MonotonicCheckpoint) : Decidable (Rising rows) :=
  inferInstanceAs (Decidable (List.Pairwise _ _))

/-- The row has the hash of its fields. -/
def Hashed (row : MonotonicCheckpoint) : Prop := row.checkpointHash = H.hex (row.data F)

/-- The rows rise, and each has its hash. -/
def Good (rows : List MonotonicCheckpoint) : Prop := Rising rows ∧ ∀ row ∈ rows, Hashed F H row

/-- What the loop sees: the first row's hash is its own, and each later row has one. -/
def Shown (rows : List MonotonicCheckpoint) : Prop :=
  (∀ row ∈ rows.head?, Hashed F H row) ∧ ∀ row ∈ rows.tail, row.checkpointHash ≠ ""

/-- What the loop reports: a sequence that does not rise, or a later hash that is another one. -/
def Reported (rows : List MonotonicCheckpoint) : Prop :=
  ¬ Rising rows ∨ ∃ row ∈ rows.tail, row.checkpointHash ≠ "" ∧ ¬ Hashed F H row

end Verify

section Proofs
variable {F : Type} [FloatCodec F] {H : Digest}

theorem verify_postInit (row : MonotonicCheckpoint) :
    (row.postInit F H).verify F H = true ↔ row.checkpointHash = "" ∨ Hashed F H row := by
  by_cases hempty : row.checkpointHash = ""
  · simp [MonotonicCheckpoint.verify, MonotonicCheckpoint.postInit, hempty,
      MonotonicCheckpoint.data]
  · simp [MonotonicCheckpoint.verify, MonotonicCheckpoint.postInit, hempty,
      MonotonicCheckpoint.data, Hashed]

theorem sequence_postInit (row : MonotonicCheckpoint) :
    (row.postInit F H).sequence = row.sequence := by
  rw [MonotonicCheckpoint.postInit]
  split <;> rfl

theorem rising_cons (prev curr : MonotonicCheckpoint) (rest : List MonotonicCheckpoint) :
    Rising (prev :: curr :: rest) ↔ prev.sequence < curr.sequence ∧ Rising (curr :: rest) := by
  simp only [Rising, List.map_cons, ← List.isChain_iff_pairwise, List.isChain_cons_cons]

/-- The loop reports nothing when the sequences rise and every later row has its hash or none. -/
theorem monotonicityErrors_eq_nil (i : Nat) (rows : List MonotonicCheckpoint) :
    monotonicityErrors F H i (rows.map fun row => row.postInit F H) = [] ↔
      Rising rows ∧ ∀ row ∈ rows.tail, row.checkpointHash = "" ∨ Hashed F H row := by
  induction rows generalizing i with
  | nil => simp [monotonicityErrors, Rising]
  | cons prev rows ih =>
    cases rows with
    | nil => simp [monotonicityErrors, Rising]
    | cons curr rest =>
      have hrest := ih (i + 1)
      rw [List.map_cons, List.tail_cons] at hrest
      have hcurr : (if (curr.postInit F H).verify F H then []
          else [checkpointHashInvalid i (curr.postInit F H)]) = [] ↔
          curr.checkpointHash = "" ∨ Hashed F H curr := by
        rw [← verify_postInit]
        split <;> simp [*]
      rw [List.map_cons, List.map_cons, monotonicityErrors, List.append_eq_nil_iff,
        List.append_eq_nil_iff, ite_singleton_eq_nil, not_le, sequence_postInit, sequence_postInit,
        hcurr, hrest, rising_cons, List.tail_cons, List.forall_mem_cons]
      constructor
      · rintro ⟨⟨hlt, hc⟩, hrising, hrows⟩
        exact ⟨⟨hlt, hrising⟩, hc, hrows⟩
      · rintro ⟨⟨hlt, hrising⟩, hc, hrows⟩
        exact ⟨⟨hlt, hc⟩, hrising, hrows⟩

/-- The rows of a good history are accepted. -/
theorem Good.unreported {rows : List MonotonicCheckpoint} (h : Good F H rows) :
    Rising rows ∧ ∀ row ∈ rows.tail, row.checkpointHash = "" ∨ Hashed F H row :=
  ⟨h.1, fun row hrow => .inr (h.2 row (List.mem_of_mem_tail hrow))⟩

theorem verifyMonotonicity_accepts (table : CheckpointTable) (shardId : String) :
    table.verifyMonotonicity F H shardId = (true, []) ↔
      Rising (table.ofShard shardId) ∧
        ∀ row ∈ (table.ofShard shardId).tail, row.checkpointHash = "" ∨ Hashed F H row := by
  rw [← monotonicityErrors_eq_nil 1]
  simp only [CheckpointTable.verifyMonotonicity, Prod.mk.injEq, beq_iff_eq, List.length_eq_zero_iff,
    and_self]

/-- **`verify_monotonicity` accepts exactly the good histories when the loop sees every hash or
reports something anyway.** -/
theorem monotonicity_checked_iff (table : CheckpointTable) (shardId : String) :
    (table.verifyMonotonicity F H shardId = (true, []) ↔ Good F H (table.ofShard shardId)) ↔
      Shown F H (table.ofShard shardId) ∨ Reported F H (table.ofShard shardId) := by
  rw [verifyMonotonicity_accepts]
  generalize table.ofShard shardId = rows
  constructor
  · intro hexact
    by_cases hreported : Reported F H rows
    · exact .inr hreported
    · have haccepted : Rising rows ∧
          ∀ row ∈ rows.tail, row.checkpointHash = "" ∨ Hashed F H row := by
        obtain ⟨hrising, hrows⟩ := not_or.mp hreported
        refine ⟨not_not.mp hrising, fun row hrow => ?_⟩
        by_contra hrefused
        obtain ⟨hstored, hother⟩ := not_or.mp hrefused
        exact hrows ⟨row, hrow, hstored, hother⟩
      have hgood := (hexact.mp haccepted).2
      refine .inl ⟨fun row hrow => hgood row (List.mem_of_mem_head? hrow), fun row hrow => ?_⟩
      have hhashed : row.checkpointHash = H.hex (row.data F) :=
        hgood row (List.mem_of_mem_tail hrow)
      rw [hhashed]
      exact H.hex_ne_empty _
  · rintro (⟨hfirst, hlater⟩ | hreported)
    · refine ⟨fun ⟨hrising, hrows⟩ => ⟨hrising, fun row hrow => ?_⟩, Good.unreported⟩
      cases rows with
      | nil => cases hrow
      | cons first rest =>
        obtain rfl | hrest := List.mem_cons.mp hrow
        · exact hfirst row rfl
        · exact (hrows row hrest).resolve_left (hlater row hrest)
    · have hnot : ¬ (Rising rows ∧
          ∀ row ∈ rows.tail, row.checkpointHash = "" ∨ Hashed F H row) := by
        rintro ⟨hrising, hrows⟩
        obtain hfalls | ⟨row, hrow, hstored, hother⟩ := hreported
        · exact hfalls hrising
        · exact (hrows row hrow).elim hstored hother
      exact ⟨fun h => absurd h hnot, fun h => absurd h.unreported hnot⟩

/-- One row, altered after it was written. -/
def alteredTable : CheckpointTable where
  rows := [⟨"c1", "s1", 5, "", 0, "", "forged"⟩]
  primaryKey := List.nodup_singleton _
  uniqueSequence := List.nodup_singleton _

theorem altered_first_accepted :
    ¬ (alteredTable.verifyMonotonicity Literal prefixDigest "s1" = (true, []) ↔
      Good Literal prefixDigest (alteredTable.ofShard "s1")) := by
  rw [verifyMonotonicity_accepts]
  intro hexact
  have hgood : Good Literal prefixDigest (alteredTable.ofShard "s1") :=
    hexact.mp ⟨List.pairwise_singleton _ _, List.forall_mem_nil _⟩
  have hforged := hgood.2 _ (List.mem_singleton_self _)
  exact absurd (congrArg (fun s => s.toList.head?) hforged) (by decide +kernel)

end Proofs

end PiPlatform.EventFabric.Ordering
