import PiPlatform.EventFabric.Bus.Reading
import PiPlatform.EventFabric.Bus.Reproducible

/-! Replaying a partition.

A replay is a pure reading: up to an offset that a partition has reached it is the same whatever
processes append afterwards, and it goes on where it stopped. So a state that was reconstructed
once needs only the events behind it (`reconstruct_continues`). -/
namespace PiPlatform.EventFabric

open Library Library.Json Library.Python

variable {P F S : Type} [FloatCodec F] [SetText F] (H : Digest)

/-- `if correlation_filter`: neither `None` nor the empty string filters. -/
def correlates (filter : Option String) (e : DomainEvent F) : Bool :=
  match filter with
  | none => true
  | some id => id = "" || e.header.correlationId = id

/-- Not behind the end of the range, where it has one. -/
def upTo (endOffset : Option Int) (e : DomainEvent F) : Bool :=
  match endOffset with
  | none => true
  | some last => e.header.partitionOffset ≤ last

def replayPartition (db : Database) (key : String) (startOffset : Int) (endOffset : Option Int)
    (correlationFilter : Option String) : Except PyError (List (DomainEvent F)) := do
  let events ← readPartition H db key startOffset 1000000 none
  -- the loop ends at the first event behind the range
  return (events.takeWhile (upTo endOffset)).filter (correlates correlationFilter)

omit [FloatCodec F] [SetText F] in
theorem correlates_of_header {filter : Option String} {e e' : DomainEvent F}
    (h : e'.header = e.header) : correlates filter e' = correlates filter e := by
  cases filter with
  | none => rfl
  | some id => simp only [correlates, h]

/-- `empty` is `{}`. -/
def reconstructState (db : Database) (key : String)
    (stateBuilder : S → DomainEvent F → Except PyError S) (empty : S) : Except PyError S := do
  let events ← replayPartition H db key 1 none none
  events.foldlM stateBuilder empty

/-! ### Replays of a store -/

section Store
variable {H : Digest} {db : Database} {es : List (DomainEvent F)}

/-- In a view the offsets up to a number are those of the first events. -/
theorem Stored.takeWhile_upTo (h : Stored H db es) (key : String) (n : Nat) :
    (partitionView (F := F) H db key).takeWhile (upTo (some (n : Int))) =
      (partitionView (F := F) H db key).take n := by
  have hfront : ∀ e ∈ (partitionView (F := F) H db key).take n, upTo (some (n : Int)) e = true :=
    fun e he => decide_eq_true ((h.mem_take_view key n).mp he).2
  have hrest :
      ((partitionView (F := F) H db key).drop n).takeWhile (upTo (some (n : Int))) = [] := by
    rw [List.takeWhile_eq_nil_iff]
    intro hne
    have hlt := ((h.mem_drop_view key n).mp (List.get_mem _ ⟨0, hne⟩)).2
    rw [upTo, decide_eq_true_iff]
    exact not_le.mpr hlt
  conv_lhs => rw [← List.take_append_drop n (partitionView (F := F) H db key)]
  rw [List.takeWhile_append_of_pos hfront, hrest, List.append_nil]

theorem Stored.length_view (h : Stored H db es) (key : String) :
    (partitionView (F := F) H db key).length = (inPartition key es).length :=
  (h.reads_view key).length_eq.symm.trans (h.rows_hold key).length_eq

/-- What is read is what was appended, event by event. -/
theorem Stored.view_reread (h : Stored H db es) (key : String) :
    List.Forall₂ (Reread (H := H)) (inPartition key es) (partitionView (F := F) H db key) := by
  obtain ⟨view, hview, hreread⟩ := exists_reads (h.rows_hold key)
  have heq := hview.mapM.symm.trans (h.reads_view (F := F) key).mapM
  cases heq
  exact hreread

/-- A partition that is not longer than the limit is read to its end. -/
theorem Stored.read_from (h : Stored H db es) (key : String) (n : Nat)
    (hsize : (inPartition key es).length ≤ 1000000) :
    readPartition H db key (1 + n) 1000000 none =
      .ok ((partitionView (F := F) H db key).drop n) := by
  have hall : ((partitionView (F := F) H db key).drop n).filter (eventAdmits none) =
      (partitionView (F := F) H db key).drop n := List.filter_eq_self.mpr fun _ _ => rfl
  have hlength : ((partitionView (F := F) H db key).drop n).length ≤ 1000000 := by
    rw [List.length_drop, h.length_view key]
    omega
  rw [h.readPartition_view key n 1000000 none, hall, limitRows, if_neg (by omega),
    List.take_of_length_le (by omega)]

/-- A replay without an end. -/
theorem Stored.replay_from (h : Stored H db es) (key : String) (n : Nat) (filter : Option String)
    (hsize : (inPartition key es).length ≤ 1000000) :
    replayPartition H db key (1 + n) none filter =
      .ok (((partitionView (F := F) H db key).drop n).filter (correlates filter)) := by
  have hall : ((partitionView (F := F) H db key).drop n).takeWhile (upTo none) =
      (partitionView (F := F) H db key).drop n := List.takeWhile_eq_self_iff.mpr fun _ _ => rfl
  rw [replayPartition, h.read_from key n hsize]
  show Except.ok _ = _
  rw [hall]

theorem Stored.replay_all (h : Stored H db es) (key : String) (filter : Option String)
    (hsize : (inPartition key es).length ≤ 1000000) :
    replayPartition H db key 1 none filter =
      .ok ((partitionView (F := F) H db key).filter (correlates filter)) :=
  h.replay_from key 0 filter hsize

theorem Stored.replay_upTo (h : Stored H db es) (key : String) (n : Nat) (filter : Option String)
    (hsize : (inPartition key es).length ≤ 1000000) :
    replayPartition H db key 1 (some n) filter =
      .ok (((partitionView (F := F) H db key).take n).filter (correlates filter)) := by
  have hread : readPartition H db key 1 1000000 none = .ok (partitionView (F := F) H db key) :=
    h.read_from key 0 hsize
  rw [replayPartition, hread]
  show Except.ok _ = _
  rw [h.takeWhile_upTo key n]

end Store

/-! ### Replays of a log that grows -/

section Growing
variable [DecidableEq P] {H : Digest}

theorem rows_grow (steps more : List (Step P F)) :
    ((appenders P F H).after steps).db.events.rows <+:
      ((appenders P F H).after (steps ++ more)).db.events.rows :=
  (appenders P F H).kept_under (fun _ _ => True) (Safe H)
    (fun w w' => w.db.events.rows <+: w'.db.events.rows) (safe_start H) (fun _ a _ h => h.next a)
    (fun _ => List.prefix_rfl) (fun _ _ _ => List.IsPrefix.trans)
    (fun _ a _ h => (h.next_grows a).1) steps more fun _ _ _ _ => trivial

/-- The later view is the earlier one and what was appended since. -/
theorem view_of_later (steps more : List (Step P F)) (key : String) :
    (partitionView (F := F) H ((appenders P F H).after (steps ++ more)).db key).take
        (inPartition key ((appenders P F H).after steps).returned).length =
      partitionView (F := F) H ((appenders P F H).after steps).db key := by
  have hstored := (safe_after H steps).stored
  have hgrows := hstored.view_grows (safe_after H (steps ++ more)).stored
    (rows_grow steps more) key
  rw [← hstored.length_view key]
  exact (List.prefix_iff_eq_take.mp hgrows).symm

/-- In every run of processes: a replay yields what was appended, event by event; what has been
replayed of a partition is replayed again whatever is appended, and a replay goes on behind it; and
the state of the whole partition is the state that was reconstructed before with the later events on
top. -/
theorem reconstruct_continues (steps more : List (Step P F)) (key : String)
    (stateBuilder : S → DomainEvent F → Except PyError S) (empty : S) (hsize :
      (inPartition key ((appenders P F H).after (steps ++ more)).returned).length ≤ 1000000) :
    let earlier := (appenders P F H).after steps
    let later := (appenders P F H).after (steps ++ more)
    let reached := (inPartition key earlier.returned).length
    (∀ filter : Option String, ∃ events since : List (DomainEvent F),
      List.Forall₂ (Reread (H := H))
        ((inPartition key earlier.returned).filter (correlates filter)) events ∧
      replayPartition H earlier.db key 1 none filter = .ok events ∧
      replayPartition H later.db key 1 (some reached) filter = .ok events ∧
      replayPartition H later.db key (1 + reached) none filter = .ok since ∧
      replayPartition H later.db key 1 none filter = .ok (events ++ since)) ∧
    reconstructState H later.db key stateBuilder empty = (do
      let state ← reconstructState H earlier.db key stateBuilder empty
      let since ← replayPartition H later.db key (1 + reached) none none
      since.foldlM stateBuilder state) := by
  intro earlier later reached
  have hstored : Stored H earlier.db earlier.returned := (safe_after H steps).stored
  have hstored' : Stored H later.db later.returned := (safe_after H (steps ++ more)).stored
  have hview : (partitionView (F := F) H later.db key).take reached =
      partitionView (F := F) H earlier.db key := view_of_later steps more key
  have hearlier : (inPartition key earlier.returned).length ≤ 1000000 := by
    have hlength := congrArg List.length hview
    rw [List.length_take, hstored.length_view key, hstored'.length_view key] at hlength
    exact (min_eq_left_iff.mp hlength).trans hsize
  have hjoin : partitionView (F := F) H later.db key = partitionView (F := F) H earlier.db key ++
      (partitionView (F := F) H later.db key).drop reached := by
    rw [← hview, List.take_append_drop]
  refine ⟨fun filter => ⟨_, _, ?_, hstored.replay_all key filter hearlier, ?_,
    hstored'.replay_from key reached filter hsize, ?_⟩, ?_⟩
  · refine List.rel_filter (fun e e' he => ?_) (hstored.view_reread key)
    exact (congrArg (· = true) (correlates_of_header he.header).symm).to_iff
  · rw [hstored'.replay_upTo key reached filter hsize, hview]
  · rw [hstored'.replay_all key filter hsize, ← List.filter_append, ← hjoin]
  · have hall (events : List (DomainEvent F)) : events.filter (correlates none) = events :=
      List.filter_eq_self.mpr fun _ _ => rfl
    rw [reconstructState, reconstructState, hstored'.replay_all key none hsize,
      hstored.replay_all key none hearlier, hstored'.replay_from key reached none hsize,
      hall, hall, hall, hjoin]
    show List.foldlM stateBuilder empty (_ ++ _) =
      List.foldlM stateBuilder empty _ >>= fun state => List.foldlM stateBuilder state _
    rw [List.foldlM_append, ← hjoin]

end Growing

/-! #### One event, and one behind it -/

def appendOne (timestamp : String) : List (Step Unit Literal) :=
  [.read () (sampleCall "p" timestamp onePayload), .transact ()]

/-- A builder that counts. -/
def countEvents (n : Nat) (_ : DomainEvent Literal) : Except PyError Nat := .ok (n + 1)

theorem reconstruct_continues_one :
    let earlier := (appenders Unit Literal prefixDigest).after (appendOne "09:00")
    let later :=
      (appenders Unit Literal prefixDigest).after (appendOne "09:00" ++ appendOne "09:01")
    let reached := (inPartition "p" earlier.returned).length
    (∀ filter : Option String, ∃ events since : List (DomainEvent Literal),
      List.Forall₂ (Reread (H := prefixDigest))
        ((inPartition "p" earlier.returned).filter (correlates filter)) events ∧
      replayPartition prefixDigest earlier.db "p" 1 none filter = .ok events ∧
      replayPartition prefixDigest later.db "p" 1 (some reached) filter = .ok events ∧
      replayPartition prefixDigest later.db "p" (1 + reached) none filter = .ok since ∧
      replayPartition prefixDigest later.db "p" 1 none filter = .ok (events ++ since)) ∧
    reconstructState prefixDigest later.db "p" countEvents 0 = (do
      let state ← reconstructState prefixDigest earlier.db "p" countEvents 0
      let since ← replayPartition prefixDigest later.db "p" (1 + reached) none none
      since.foldlM countEvents state) :=
  reconstruct_continues (appendOne "09:00") (appendOne "09:01") "p" countEvents 0
    (by decide +kernel)

end PiPlatform.EventFabric
