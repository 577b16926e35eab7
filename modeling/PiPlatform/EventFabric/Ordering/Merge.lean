import Mathlib.Data.Prod.Lex
import Mathlib.Data.String.Basic
import PiPlatform.EventFabric.Bus.Event
import PiPlatform.Library.StableSort

/-! One order for the events of all shards.

The rule compares two events by epoch, then by the priority of their shards, then by offset and
last by hash. `merge_streams` does not compare: it sorts by a key of those four. The key of an
event in the stream of its own shard is ordered as `compare` orders the events (`compare_le_iff`),
so a merge is in the rule's order. -/
namespace PiPlatform.EventFabric.Ordering

open Library Library.Json Library.Python

variable {F : Type}

/-- `payload.get("epoch_number", 0)`, where that is an integer. -/
def payloadEpoch : PyValue F → Option Int
  | .dict items =>
    match lookupItem (.str (ofString "epoch_number")) items with
    | none => some 0
    | some (.int n) => some n
    | some _ => none
  | _ => none

/-- An event with an integer epoch. -/
structure EpochEvent (F : Type) extends DomainEvent F where
  epoch : Int
  epoch_eq : payloadEpoch payload = some epoch

namespace EpochEvent

def shard (e : EpochEvent F) : String := e.header.partitionKey

def offset (e : EpochEvent F) : Int := e.header.partitionOffset

end EpochEvent

structure CrossShardOrderingRule where
  shardPriorities : Dict String Int

/-- Streams by shard, each of the events of its shard. -/
structure ShardStreams (F : Type) where
  streams : Dict String (List (EpochEvent F))
  keyed : ∀ stream ∈ streams.items, ∀ e ∈ stream.2, e.shard = stream.1

namespace CrossShardOrderingRule

/-- `shard_priorities.get(shard_id, 9999)` -/
def priority (rule : CrossShardOrderingRule) (shardId : String) : Int :=
  (rule.shardPriorities.get? shardId).getD 9999

def compare (rule : CrossShardOrderingRule) (a b : EpochEvent F) : Int :=
  if a.epoch ≠ b.epoch then
    if a.epoch < b.epoch then -1 else 1
  else if rule.priority a.shard ≠ rule.priority b.shard then
    if rule.priority a.shard < rule.priority b.shard then -1 else 1
  else if a.offset ≠ b.offset then
    if a.offset < b.offset then -1 else 1
  else if a.eventHash < b.eventHash then -1
  else if a.eventHash > b.eventHash then 1
  else 0

/-- `sort_key` of an event and the shard whose stream it came in. -/
def sortKey (rule : CrossShardOrderingRule) (item : EpochEvent F × String) :
    Int ×ₗ Int ×ₗ Int ×ₗ String :=
  toLex (item.1.epoch, toLex (rule.priority item.2, toLex (item.1.offset, item.1.eventHash)))

/-- Every event with the shard of its stream. -/
def indexed (streams : ShardStreams F) : List (EpochEvent F × String) :=
  streams.streams.items.flatMap fun stream => stream.2.map fun event => (event, stream.1)

def mergeStreams (rule : CrossShardOrderingRule) (streams : ShardStreams F) :
    List (EpochEvent F) := (sortBy rule.sortKey (indexed streams)).map Prod.fst

end CrossShardOrderingRule

/-- The events of all streams. -/
def ShardStreams.events (streams : ShardStreams F) : List (EpochEvent F) :=
  streams.streams.items.flatMap Prod.snd

namespace CrossShardOrderingRule
variable (rule : CrossShardOrderingRule)

/-! ### The rule's order -/

/-- The key of an event in the stream of its shard. -/
def key (e : EpochEvent F) : Int ×ₗ Int ×ₗ Int ×ₗ String := rule.sortKey (e, e.shard)

theorem key_lt_iff (a b : EpochEvent F) : rule.key a < rule.key b ↔ a.epoch < b.epoch ∨
    a.epoch = b.epoch ∧ (rule.priority a.shard < rule.priority b.shard ∨
      rule.priority a.shard = rule.priority b.shard ∧ (a.offset < b.offset ∨
        a.offset = b.offset ∧ a.eventHash < b.eventHash)) := by
  simp only [key, sortKey, Prod.Lex.toLex_lt_toLex]

theorem key_eq_iff (a b : EpochEvent F) : rule.key a = rule.key b ↔ a.epoch = b.epoch ∧
    rule.priority a.shard = rule.priority b.shard ∧ a.offset = b.offset ∧
      a.eventHash = b.eventHash := by
  simp only [key, sortKey, EmbeddingLike.apply_eq_iff_eq, Prod.mk.injEq]

/-- The rule compares the keys. -/
theorem compare_eq (a b : EpochEvent F) : rule.compare a b =
    if rule.key a < rule.key b then -1 else if rule.key b < rule.key a then 1 else 0 := by
  simp only [compare, key_lt_iff]
  split_ifs <;> first | rfl | (exfalso; grind)

theorem compare_le_iff (a b : EpochEvent F) : rule.compare a b ≤ 0 ↔ rule.key a ≤ rule.key b := by
  rw [compare_eq]
  split_ifs with hlt hgt
  · simp [hlt.le]
  · simp [hgt]
  · simp [not_lt.mp hgt]

theorem compare_eq_zero_iff (a b : EpochEvent F) :
    rule.compare a b = 0 ↔ rule.key a = rule.key b := by
  rw [compare_eq]
  split_ifs with hlt hgt
  · simp [hlt.ne]
  · simp [hgt.ne']
  · simp [le_antisymm (not_lt.mp hgt) (not_lt.mp hlt)]

/-! ### The merge -/

theorem indexed_eq (streams : ShardStreams F) :
    indexed streams = streams.events.map fun e => (e, e.shard) := by
  rw [indexed, ShardStreams.events, List.map_flatMap]
  refine List.flatMap_congr fun stream hstream => List.map_congr_left fun e he => ?_
  rw [streams.keyed stream hstream e he]

/-- A merge sorts the events by their own keys. -/
theorem mergeStreams_eq (streams : ShardStreams F) :
    rule.mergeStreams streams = sortBy rule.key streams.events := by
  have hmap : (sortBy rule.key streams.events).map (fun e => (e, e.shard)) =
      sortBy rule.sortKey (streams.events.map fun e => (e, e.shard)) :=
    List.map_insertionSort _ _ _ _ fun a _ b _ => Iff.rfl
  rw [mergeStreams, indexed_eq, ← hmap, List.map_map]
  exact List.map_id _

theorem mergeStreams_perm (streams : ShardStreams F) :
    (rule.mergeStreams streams).Perm streams.events := by
  rw [mergeStreams_eq]
  exact (stableSort_sortBy rule.key streams.events).perm

theorem mergeStreams_sorted (streams : ShardStreams F) :
    (rule.mergeStreams streams).Pairwise fun a b => rule.key a ≤ rule.key b := by
  rw [mergeStreams_eq]
  exact (stableSort_sortBy rule.key streams.events).sorted

/-- Events with hashes of their own have one order. -/
theorem mergeStreams_congr {streams streams' : ShardStreams F}
    (hperm : streams.events.Perm streams'.events)
    (hdistinct : (streams.events.map fun e => e.eventHash).Nodup) :
    rule.mergeStreams streams = rule.mergeStreams streams' := by
  have hmerged := rule.mergeStreams_perm streams
  refine List.Perm.eq_of_pairwise (fun a b ha hb hab hba => ?_) (rule.mergeStreams_sorted streams)
    (rule.mergeStreams_sorted streams')
    (hmerged.trans (hperm.trans (rule.mergeStreams_perm streams').symm))
  have hhash := ((rule.key_eq_iff a b).mp (le_antisymm hab hba)).2.2.2
  have hb' := hperm.mem_iff.mpr ((rule.mergeStreams_perm streams').mem_iff.mp hb)
  exact List.inj_on_of_nodup_map hdistinct (hmerged.mem_iff.mp ha) hb' hhash

/-- A shard's epochs do not decrease with the offset. -/
def EpochsRise (shard : String) (events : List (EpochEvent F)) : Prop :=
  ∀ a ∈ events, ∀ b ∈ events, a.shard = shard → b.shard = shard → a.offset < b.offset →
    a.epoch ≤ b.epoch

theorem offsets_ascend (streams : ShardStreams F) {shard : String}
    (hrise : EpochsRise shard streams.events) :
    ((rule.mergeStreams streams).filter fun e => e.shard = shard).Pairwise
      fun a b => a.offset ≤ b.offset := by
  refine ((rule.mergeStreams_sorted streams).filter _).imp_of_mem fun {a b} ha hb hab => ?_
  obtain ⟨ha, hsa⟩ := List.mem_filter.mp ha
  obtain ⟨hb, hsb⟩ := List.mem_filter.mp hb
  have hpriority : rule.priority a.shard = rule.priority b.shard := by
    rw [of_decide_eq_true hsa, of_decide_eq_true hsb]
  by_contra hlt
  have hepoch := hrise b ((rule.mergeStreams_perm streams).mem_iff.mp hb) a
    ((rule.mergeStreams_perm streams).mem_iff.mp ha) (of_decide_eq_true hsb)
    (of_decide_eq_true hsa) (by omega)
  refine absurd ((rule.key_lt_iff b a).mpr ?_) (not_lt.mpr hab)
  obtain hless | hsame := hepoch.lt_or_eq
  · exact .inl hless
  · exact .inr ⟨hsame, .inr ⟨hpriority.symm, .inl (by omega)⟩⟩

/-- **A merge realises the rule**: it holds every event once, in the order of a total preorder
that ties only events with the same epoch, priority, offset and hash; the order the events come
in does not matter when no two have one hash; and a shard whose epochs do not fall keeps its
offsets in order. -/
theorem merge_realises_rule :
    (∀ streams : ShardStreams F, (rule.mergeStreams streams).Perm streams.events ∧
      (rule.mergeStreams streams).Pairwise fun a b => rule.compare a b ≤ 0) ∧
    (∀ a b : EpochEvent F, rule.compare a b ≤ 0 ∨ rule.compare b a ≤ 0) ∧
    (∀ a b c : EpochEvent F, rule.compare a b ≤ 0 → rule.compare b c ≤ 0 →
      rule.compare a c ≤ 0) ∧
    (∀ a b : EpochEvent F, rule.compare a b = 0 ↔ a.epoch = b.epoch ∧
      rule.priority a.shard = rule.priority b.shard ∧ a.offset = b.offset ∧
        a.eventHash = b.eventHash) ∧
    (∀ streams streams' : ShardStreams F, streams.events.Perm streams'.events →
      (streams.events.map fun e => e.eventHash).Nodup →
      rule.mergeStreams streams = rule.mergeStreams streams') ∧
    (∀ (streams : ShardStreams F) (shard : String), EpochsRise shard streams.events →
      ((rule.mergeStreams streams).filter fun e => e.shard = shard).Pairwise
        fun a b => a.offset ≤ b.offset) := by
  refine ⟨fun streams => ⟨rule.mergeStreams_perm streams, ?_⟩, ?_, ?_, ?_,
    fun _ _ => rule.mergeStreams_congr, fun streams _ => rule.offsets_ascend streams⟩
  · exact (rule.mergeStreams_sorted streams).imp fun h => (rule.compare_le_iff _ _).mpr h
  · intro a b
    rw [compare_le_iff, compare_le_iff]
    exact le_total _ _
  · intro a b c
    rw [compare_le_iff, compare_le_iff, compare_le_iff]
    exact le_trans
  · intro a b
    rw [compare_eq_zero_iff, key_eq_iff]

/-- One event, and its epoch. -/
def headed (shard : String) (offset : Int) (eventHash : String) (epoch : Int) :
    EpochEvent Literal where
  header := ⟨"", .artifactCreated, shard, offset, "", "", "", "", "", "", ""⟩
  payload := .dict [(.str (ofString "epoch_number"), .int epoch)]
  eventHash := eventHash
  epoch := epoch
  epoch_eq := by simp [payloadEpoch, lookupItem]

def pairStreams : ShardStreams Literal where
  streams := ⟨[("b", [headed "b" 1 "h1" 0]), ("a", [headed "a" 1 "h2" 1, headed "a" 2 "h3" 1])],
    by decide +kernel⟩
  keyed := by simp [headed, EpochEvent.shard]

/-- The same streams, the shards and the events the other way round. -/
def pairStreams' : ShardStreams Literal where
  streams := ⟨[("a", [headed "a" 2 "h3" 1, headed "a" 1 "h2" 1]), ("b", [headed "b" 1 "h1" 0])],
    by decide +kernel⟩
  keyed := by simp [headed, EpochEvent.shard]

theorem merge_realises_rule_pair :
    (⟨.empty⟩ : CrossShardOrderingRule).mergeStreams pairStreams =
        (⟨.empty⟩ : CrossShardOrderingRule).mergeStreams pairStreams' ∧
      (((⟨.empty⟩ : CrossShardOrderingRule).mergeStreams pairStreams).filter
        fun e => e.shard = "a").Pairwise fun a b => a.offset ≤ b.offset := by
  have hrule := merge_realises_rule (F := Literal) ⟨.empty⟩
  have hperm : pairStreams.events.Perm pairStreams'.events :=
    (List.Perm.swap _ _ _).trans (((List.Perm.swap _ _ _).cons _).trans (.swap _ _ _))
  have hfirst : ∀ e ∈ pairStreams.events, e.shard = "a" → e.epoch = 1 := by
    intro e he hshard
    rcases List.mem_cons.mp he with rfl | he
    · exact absurd hshard (by decide +kernel)
    · rcases List.mem_pair.mp he with rfl | rfl <;> rfl
  refine ⟨hrule.2.2.2.2.1 _ _ hperm (by decide +kernel), hrule.2.2.2.2.2 _ _ ?_⟩
  intro a ha b hb hsa hsb _
  rw [hfirst a ha hsa, hfirst b hb hsb]

end CrossShardOrderingRule

end PiPlatform.EventFabric.Ordering
