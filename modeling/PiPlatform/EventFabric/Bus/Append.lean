import PiPlatform.EventFabric.Bus.Storage
import PiPlatform.Library.HashChain

/-! What a store holds, and what one transaction does to it.

`Stored db es` says what the tables are for: row by row they hold the events `es`
in commit order, within each partition the events form a chain from place 1 and the
empty hash, and each partition row is the head of its chain.

A transaction works from the head its call read, which may be out of date. But it
was the head of the partition at some time, so it is the head of a prefix
(`HeadAt`): if the partition has grown since, the place behind that head is taken
and the transaction rolls back (`writes_stale`); only one with a current head and an
id nobody has commits, and it appends the event the chain asks for
(`writes_current`). -/
namespace PiPlatform.EventFabric

open Library Library.Json Library.Python

variable {F : Type}

/-! ### The log a store stands for -/

/-- How an event is read as an entry of its partition's chain. -/
def eventLinks : Links (DomainEvent F) String where
  place := fun e => e.header.partitionOffset
  previous := fun e => e.header.previousEventHash
  digest := fun e => e.eventHash

def inPartition (key : String) (es : List (DomainEvent F)) : List (DomainEvent F) :=
  es.filter fun e => e.header.partitionKey = key

theorem inPartition_snoc (key : String) (es : List (DomainEvent F)) (e : DomainEvent F) :
    inPartition key (es ++ [e]) =
      if e.header.partitionKey = key then inPartition key es ++ [e] else inPartition key es := by
  rw [inPartition, List.filter_append]
  split
  · next h => simp [h, inPartition]
  · next h => simp [h, inPartition]

theorem mem_inPartition {key : String} {es : List (DomainEvent F)} {e : DomainEvent F} :
    e ∈ inPartition key es ↔ e ∈ es ∧ e.header.partitionKey = key := by
  simp [inPartition]

/-- The offset and hash a call reads when the partition holds `es`. -/
def headOf (es : List (DomainEvent F)) : Option (Int × String) :=
  es.getLast?.map fun e => (e.header.partitionOffset, e.eventHash)

/-- The head of the partition now or earlier. -/
def HeadAt (es : List (DomainEvent F)) (head : Option (Int × String)) : Prop :=
  ∃ past, past <+: es ∧ head = headOf past

variable [FloatCodec F] [SetText F] (H : Digest)

/-- The event a call makes from a head and the text of its payload. -/
def AppendCall.event (call : AppendCall F) (json : String) (head : Option (Int × String)) :
    DomainEvent F :=
  let header := call.header (head.getD (0, "")).1 (head.getD (0, "")).2 (H.hex json)
  ⟨header, call.payload.value, H.hex (header.identity.text F ++ json)⟩

/-- A row holds an event: its columns, with hashes that are those of the text it
stores and an id that names its place. -/
structure RowHolds (row : EventRow) (e : DomainEvent F) : Prop where
  columns : row.toEventColumns = e.columns row.payloadJson
  json : canonicalJson e.payload = .ok row.payloadJson
  wellFormed : e.payload.wellFormed = true
  payloadHash : e.header.payloadHash = H.hex row.payloadJson
  eventHash : e.eventHash = H.hex (e.header.identity.text F ++ row.payloadJson)
  eventId : e.header.eventId =
    EventFabric.eventId e.header.authorTenantId e.header.partitionKey e.header.partitionOffset

section RowHolds
variable {H} {row : EventRow} {e : DomainEvent F}

theorem RowHolds.id_eq (h : RowHolds H row e) : row.eventId = e.header.eventId :=
  congrArg EventColumns.eventId h.columns

theorem RowHolds.key_eq (h : RowHolds H row e) : row.partitionKey = e.header.partitionKey :=
  congrArg EventColumns.partitionKey h.columns

theorem RowHolds.offset_eq (h : RowHolds H row e) :
    row.partitionOffset = e.header.partitionOffset :=
  congrArg EventColumns.partitionOffset h.columns

theorem RowHolds.previous_eq (h : RowHolds H row e) :
    row.previousEventHash = e.header.previousEventHash :=
  congrArg EventColumns.previousEventHash h.columns

theorem RowHolds.hash_eq (h : RowHolds H row e) : row.eventHash = e.eventHash :=
  congrArg EventColumns.eventHash h.columns

theorem RowHolds.payloadHash_eq (h : RowHolds H row e) :
    row.payloadHash = e.header.payloadHash :=
  congrArg EventColumns.payloadHash h.columns

theorem RowHolds.place_eq (h : RowHolds H row e) :
    row.place = (e.header.partitionKey, e.header.partitionOffset) :=
  Prod.ext h.key_eq h.offset_eq

end RowHolds

/-- A partition row is the head of the events that end in `e`. -/
def HeadRow (row : PartitionRow) (e : DomainEvent F) : Prop :=
  row.currentOffset = e.header.partitionOffset ∧ row.lastEventId = e.header.eventId ∧
    row.lastEventHash = e.eventHash

/-- The rows hold the events, each partition is chained, and its head is its last event. -/
structure Stored (db : Database) (es : List (DomainEvent F)) : Prop where
  rows : List.Forall₂ (RowHolds H) db.events.rows es
  linked : ∀ key, eventLinks.Linked 1 "" (inPartition key es)
  heads : ∀ key, Option.Rel HeadRow (db.eventPartitions.get? key) (inPartition key es).getLast?

theorem stored_empty : Stored (F := F) H Database.empty [] where
  rows := .nil
  linked := fun _ => trivial
  heads := fun _ => .none

variable {H} {db : Database} {es : List (DomainEvent F)}

/-- A partition row knows its partition's last event and counts the events. -/
theorem Stored.exists_head (h : Stored H db es) {key : String} {row : PartitionRow}
    (hrow : db.eventPartitions.get? key = some row) :
    ∃ e, (inPartition key es).getLast? = some e ∧ HeadRow row e ∧
      row.currentOffset = (inPartition key es).length := by
  have hrel := h.heads key
  rw [hrow] at hrel
  cases hlast : (inPartition key es).getLast? with
  | none =>
    rw [hlast] at hrel
    cases hrel
  | some e =>
    rw [hlast] at hrel
    have hhead : HeadRow row e := by
      cases hrel
      assumption
    have hplace : e.header.partitionOffset = 1 + (inPartition key es).length - 1 :=
      (h.linked key).place_last hlast
    exact ⟨e, rfl, hhead, by rw [hhead.1, hplace]; omega⟩

theorem Stored.readHead (h : Stored H db es) (key : String) :
    readHead db key = headOf (inPartition key es) := by
  rw [EventFabric.readHead, headOf]
  cases hrow : db.eventPartitions.get? key with
  | none =>
    have hrel := h.heads key
    rw [hrow] at hrel
    cases hlast : (inPartition key es).getLast? with
    | none => rfl
    | some e =>
      rw [hlast] at hrel
      cases hrel
  | some row =>
    obtain ⟨e, hlast, ⟨hoffset, -, hhash⟩, -⟩ := h.exists_head hrow
    rw [hlast, Option.map_some, Option.map_some, hoffset, hhash]

theorem Stored.get?_isNone (h : Stored H db es) (key : String) :
    db.eventPartitions.get? key = none ↔ inPartition key es = [] := by
  have hhead := h.readHead key
  rw [EventFabric.readHead, headOf] at hhead
  rw [← Option.map_eq_none_iff (f := fun r : PartitionRow => (r.currentOffset, r.lastEventHash)),
    hhead, Option.map_eq_none_iff, List.getLast?_eq_none_iff]

theorem Stored.ids (h : Stored H db es) :
    db.events.rows.map (fun r => r.eventId) = es.map fun e => e.header.eventId :=
  map_eq_of_forall₂ h.rows fun _ _ hrow => hrow.id_eq

theorem Stored.places (h : Stored H db es) :
    db.events.rows.map EventRow.place =
      es.map fun e => (e.header.partitionKey, e.header.partitionOffset) :=
  map_eq_of_forall₂ h.rows fun _ _ hrow => hrow.place_eq

/-! ### One transaction -/

theorem run_ok {α β : Type} {x : Sql α} {f : α → Sql β} {a : α} {db db' : Database}
    (h : x.run db = (.ok a, db')) : (x >>= f).run db = (f a).run db' := by
  simp only [Bind.bind, h]

theorem run_error {α β : Type} {x : Sql α} {f : α → Sql β} {e : PyError} {db db' : Database}
    (h : x.run db = (.error e, db')) : (x >>= f).run db = (.error e, db') := by
  simp only [Bind.bind, h]

theorem make_event {call : AppendCall F} {json : String}
    (hjson : canonicalJson call.payload.value = .ok json) (head : Option (Int × String)) :
    DomainEvent.make H
      (call.header (head.getD (0, "")).1 (head.getD (0, "")).2 (H.hex json))
      call.payload.value "" = .ok (call.event H json head) := by
  rw [DomainEvent.make, if_pos rfl, computeHash_eq, hjson]
  rfl

/-- The partitions after a call has created what it found missing. -/
def createdPartitions (d : Dict String PartitionRow) (call : AppendCall F) :
    Option (Int × String) → Dict String PartitionRow
  | none => d.set call.partitionKey ⟨0, "", "", call.createdAt⟩
  | some _ => d

/-- The partitions after `UPDATE` has moved one to the event `e`. -/
def movedPartitions (d : Dict String PartitionRow) (key : String) (e : DomainEvent F) :
    Dict String PartitionRow :=
  match d.get? key with
  | none => d
  | some row => d.set key
      { row with
        currentOffset := e.header.partitionOffset, lastEventId := e.header.eventId,
        lastEventHash := e.eventHash }

/-- What a transaction needs of the tables. -/
structure CanCommit (db : Database) (call : AppendCall F) (json : String)
    (head : Option (Int × String)) : Prop where
  created : head = none → db.eventPartitions.get? call.partitionKey = none
  fits : db.events.Fits ((call.event H json head).columns json)

section Writes
variable {call : AppendCall F} {json : String} {head : Option (Int × String)}
  {past : List (DomainEvent F)}

omit [FloatCodec F] [SetText F] in
theorem run_createPartition (h : head = none → db.eventPartitions.get? call.partitionKey = none) :
    (createPartition call head).run db =
      (.ok (), { db with
        eventPartitions := createdPartitions db.eventPartitions call head }) := by
  cases head with
  | none => simp [createPartition, insertPartition, createdPartitions, h rfl]
  | some p => rfl

omit [FloatCodec F] [SetText F] in
theorem run_createPartition_taken (hhead : head = none)
    (h : db.eventPartitions.get? call.partitionKey ≠ none) :
    (createPartition call head).run db = (.error .integrityError, db) := by
  subst hhead
  simp [createPartition, insertPartition, Option.isSome_iff_ne_none, h]

omit [FloatCodec F] [SetText F] in
theorem run_updatePartition (key : String) (e : DomainEvent F) :
    (updatePartition key e.header.partitionOffset e.header.eventId e.eventHash).run db =
      (.ok (), { db with eventPartitions := movedPartitions db.eventPartitions key e }) := by
  simp only [updatePartition, movedPartitions]
  cases db.eventPartitions.get? key <;> rfl

theorem run_liftExcept {α : Type} (a : α) : (liftExcept (.ok a)).run db = (.ok a, db) := rfl

/-- A transaction whose constraints hold commits its event and moves the partition. -/
theorem writes_commits (hjson : canonicalJson call.payload.value = .ok json)
    (h : CanCommit (H := H) db call json head) :
    atomically (writes H call json head) db = (.ok (call.event H json head),
      { db with
        events := db.events.push _ h.fits,
        eventPartitions := movedPartitions (createdPartitions db.eventPartitions call head)
          call.partitionKey (call.event H json head) }) := by
  have hwrites : (writes H call json head).run db = (.ok (call.event H json head),
      { db with
        events := db.events.push _ h.fits,
        eventPartitions := movedPartitions (createdPartitions db.eventPartitions call head)
          call.partitionKey (call.event H json head) }) := by
    simp only [writes]
    rw [run_ok (run_createPartition h.created), make_event hjson head, run_ok (run_liftExcept _)]
    have hinsert : (insertEvent ((call.event H json head).columns json)).run
        { db with eventPartitions := createdPartitions db.eventPartitions call head } =
          (.ok (), { db with
            events := db.events.push _ h.fits,
            eventPartitions := createdPartitions db.eventPartitions call head }) :=
      dif_pos h.fits
    rw [run_ok hinsert]
    exact run_ok (run_updatePartition call.partitionKey (call.event H json head))
  rw [atomically, hwrites]

/-- Any other leaves the database as it was. -/
theorem writes_rolls_back (hjson : canonicalJson call.payload.value = .ok json)
    (h : ¬ CanCommit (H := H) db call json head) :
    atomically (writes H call json head) db = (.error .integrityError, db) := by
  have hwrites : ∃ db', (writes H call json head).run db = (.error .integrityError, db') := by
    simp only [writes]
    by_cases hcreated : head = none → db.eventPartitions.get? call.partitionKey = none
    · have hfits : ¬ db.events.Fits ((call.event H json head).columns json) :=
        fun hfits => h ⟨hcreated, hfits⟩
      rw [run_ok (run_createPartition hcreated), make_event hjson head, run_ok (run_liftExcept _)]
      exact ⟨_, run_error (dif_neg hfits)⟩
    · push Not at hcreated
      exact ⟨db, run_error (run_createPartition_taken hcreated.1 hcreated.2)⟩
  obtain ⟨db', hwrites⟩ := hwrites
  rw [atomically, hwrites]

/-! ### The chain grows -/

omit [FloatCodec F] [SetText F] in
theorem headOf_getD (h : eventLinks.Linked 1 "" past) :
    (headOf past).getD (0, "") = ((past.length : Int), eventLinks.lastDigest "" past) := by
  cases past using List.reverseRecOn with
  | nil => rfl
  | append_singleton past e =>
    obtain ⟨-, hplace, -⟩ := (eventLinks.linked_snoc).mp h
    have hoffset : e.header.partitionOffset = 1 + (past.length : Int) := hplace
    simp only [headOf, Links.lastDigest, List.getLast?_concat, Option.map_some, Option.getD_some,
      hoffset, List.length_append, List.length_singleton, Nat.cast_add, Nat.cast_one,
      Prod.mk.injEq]
    exact ⟨by omega, rfl⟩

variable (H call json) in
omit [SetText F] in
/-- The event made from a head stands right behind it. -/
theorem offset_event (hpast : eventLinks.Linked 1 "" past) (hhead : head = headOf past) :
    (call.event H json head).header.partitionOffset = 1 + past.length := by
  subst hhead
  simp only [AppendCall.event, AppendCall.header, headOf_getD hpast]
  omega

/-- A head that has been overtaken finds its place taken. -/
theorem place_taken (hs : Stored H db es)
    (hpre : past <+: inPartition call.partitionKey es) (hhead : head = headOf past)
    (hlt : past.length < (inPartition call.partitionKey es).length) :
    ¬ db.events.Fits ((call.event H json head).columns json) := by
  have hlinked := hs.linked call.partitionKey
  obtain ⟨rest, hrest⟩ := hpre
  have hpast : eventLinks.Linked 1 "" past :=
    ((eventLinks.linked_append).mp (hrest ▸ hlinked)).1
  let e := (inPartition call.partitionKey es)[past.length]
  obtain ⟨hmem, hkey⟩ := mem_inPartition.mp (List.getElem_mem hlt)
  have hplace : e.header.partitionOffset = 1 + past.length := hlinked.place_getElem hlt
  intro hfits
  refine hfits.2 ?_
  rw [hs.places]
  refine List.mem_map.mpr ⟨e, hmem, ?_⟩
  exact Prod.ext hkey (hplace.trans (offset_event H call json hpast hhead).symm)

/-- So a transaction that commits had the current head. -/
theorem head_current (hs : Stored H db es) (hhead : HeadAt (inPartition call.partitionKey es) head)
    (h : CanCommit (H := H) db call json head) :
    head = headOf (inPartition call.partitionKey es) := by
  obtain ⟨past, hpre, rfl⟩ := hhead
  have hle := hpre.length_le
  by_cases hlt : past.length < (inPartition call.partitionKey es).length
  · exact absurd h.fits (place_taken hs hpre rfl hlt)
  · rw [hpre.eq_of_length (by omega)]

omit [FloatCodec F] [SetText F] in
/-- Moving a partition makes it the head of the event it was moved to, and leaves
the others alone. -/
theorem heads_moved {d : Dict String PartitionRow} {e : DomainEvent F} {key : String}
    {last : Option (DomainEvent F)} (hfound : head = none ∨ d.get? call.partitionKey ≠ none)
    (hlast : Option.Rel HeadRow (d.get? key) last) :
    Option.Rel HeadRow
      ((movedPartitions (createdPartitions d call head) call.partitionKey e).get? key)
      (if call.partitionKey = key then some e else last) := by
  have hcreated : (createdPartitions d call head).get? call.partitionKey ≠ none := by
    cases head with
    | none => simp [createdPartitions]
    | some p => exact hfound.resolve_left (by simp)
  obtain ⟨row, hrow⟩ := Option.ne_none_iff_exists'.mp hcreated
  rw [movedPartitions, hrow, Dict.get?_set]
  split
  · exact .some ⟨rfl, rfl, rfl⟩
  · next hne =>
    cases head with
    | none => rwa [createdPartitions, Dict.get?_set_ne hne]
    | some p => exact hlast

/-- The new row holds the event it was built from. -/
theorem rowHolds_event (hjson : canonicalJson call.payload.value = .ok json) (n : Nat) :
    RowHolds H ⟨(call.event H json head).columns json, n⟩ (call.event H json head) where
  columns := rfl
  json := hjson
  wellFormed := call.payload.wellFormed
  payloadHash := rfl
  eventHash := rfl
  eventId := rfl

/-- What a committed transaction leaves stored: one event more. -/
theorem Stored.commit (hs : Stored H db es) (hjson : canonicalJson call.payload.value = .ok json)
    (hhead : HeadAt (inPartition call.partitionKey es) head)
    (h : CanCommit (H := H) db call json head) :
    Stored H
      { db with
        events := db.events.push _ h.fits,
        eventPartitions := movedPartitions (createdPartitions db.eventPartitions call head)
          call.partitionKey (call.event H json head) }
      (es ++ [call.event H json head]) := by
  have hcurrent := head_current hs hhead h
  have hlinked := hs.linked call.partitionKey
  have hkey : (call.event H json head).header.partitionKey = call.partitionKey := rfl
  refine ⟨?_, fun key => ?_, fun key => ?_⟩
  · exact List.rel_append hs.rows (.cons (rowHolds_event hjson _) .nil)
  · rw [inPartition_snoc, hkey]
    split
    · next hk =>
      subst hk
      refine (eventLinks.linked_snoc).mpr ⟨hlinked, offset_event H call json hlinked hcurrent, ?_⟩
      show (head.getD (0, "")).2 = _
      rw [hcurrent, headOf_getD hlinked]
    · exact hs.linked key
  · have hfound : head = none ∨ db.eventPartitions.get? call.partitionKey ≠ none := by
      rw [hcurrent, ne_eq, hs.get?_isNone, headOf, Option.map_eq_none_iff,
        List.getLast?_eq_none_iff]
      exact em _
    have hmoved := heads_moved (e := call.event H json head) hfound (hs.heads key)
    rw [inPartition_snoc, hkey]
    split
    · next hk => rwa [if_pos hk, ← List.getLast?_concat (l := inPartition key es)] at hmoved
    · next hk => rwa [if_neg hk] at hmoved

end Writes

end PiPlatform.EventFabric
