import PiPlatform.EventFabric.Bus.Interleaving

/-! Reading a partition back.

On a store that holds `es`, a `SELECT` from offset `n + 1` gives the rows behind the
first `n`, in order, those of other tenants left out (`Stored.select`). Each row
reads back as the event it holds, hash and header unchanged; only its payload may
come back as another value, the one its JSON text stands for (`rowToEvent_holds`). -/
namespace PiPlatform.EventFabric

open Library Library.Json Library.Python

variable {F : Type} [FloatCodec F] [SetText F] {H : Digest} {db : Database} {e : DomainEvent F}
  {es : List (DomainEvent F)} {rows : List EventRow}

theorem insertionSort_offsets (h : rows.Pairwise fun a b => a.partitionOffset < b.partitionOffset) :
    (rows.insertionSort fun a b => a.partitionOffset ≤ b.partitionOffset) = rows :=
  (h.imp fun hab => le_of_lt hab).insertionSort_eq

/-- The `SELECT` behind `read_partition`, on a chain. -/
theorem Stored.select (h : Stored H db es) (key : String) (n : Nat) (limit : Int)
    (filter : Option String) :
    selectPartition db key (1 + n) limit filter =
      limitRows limit (((partitionRows db key).drop n).filter (tenantAdmits filter)) := by
  have hlinked := h.rows_linked key
  have hplace : ((partitionRows db key).filter fun r => decide (1 + (n : Int) ≤ r.partitionOffset))
      = (partitionRows db key).drop n := hlinked.filter_place n
  have hsorted : (((partitionRows db key).drop n).filter (tenantAdmits filter)).Pairwise
      fun a b => a.partitionOffset < b.partitionOffset :=
    (hlinked.pairwise_place.sublist (List.drop_sublist n _)).sublist List.filter_sublist
  rw [selectPartition, ← insertionSort_offsets hsorted, ← hplace, List.filter_filter]
  congr 2
  refine List.filter_congr fun r _ => ?_
  rw [Bool.and_comm]

/-- What a row that holds `e` reads back as: `e` itself but for its payload, which is
what its text stands for. -/
structure Reread (e e' : DomainEvent F) : Prop where
  header : e'.header = e.header
  eventHash : e'.eventHash = e.eventHash
  payload : ∃ json json',
    canonicalJson e.payload = .ok json ∧ canonicalJson e'.payload = .ok json' ∧
    e.eventHash = H.hex (e.header.identity.text F ++ json) ∧
    (json' = json ↔ e.payload.textOrdered = true)

/-- The header is read off the columns it was written to. -/
theorem rowToEvent_eq {row : EventRow} (hcolumns : row.toEventColumns = e.columns row.payloadJson) :
    rowToEvent H row = (loads row.payloadJson >>= fun v : PyValue F =>
      DomainEvent.make H e.header v e.eventHash) := by
  obtain ⟨⟨id, type, key, offset, timestamp, ordering, tenant, actor, correlation, previous,
    payloadHash, hash, json⟩, global⟩ := row
  simp only [DomainEvent.columns, EventColumns.mk.injEq, and_true] at hcolumns
  obtain ⟨rfl, rfl, rfl, rfl, rfl, rfl, rfl, rfl, rfl, rfl, rfl, rfl⟩ := hcolumns
  simp only [rowToEvent, EventType.ofValue_value]
  rfl

/-- Every row of a store reads back. -/
theorem rowToEvent_holds {row : EventRow} (h : RowHolds H row e) :
    ∃ e', rowToEvent H row = .ok e' ∧ Reread (H := H) e e' := by
  obtain ⟨v, json', hloads, hjson', hiff⟩ := reread_canonicalJson ⟨e.payload, h.wellFormed⟩ h.json
  have hhash : e.eventHash ≠ "" := by
    rw [h.eventHash]
    exact H.hex_ne_empty _
  refine ⟨⟨e.header, v, e.eventHash⟩, ?_, rfl, rfl, _, json', h.json, hjson', h.eventHash, hiff⟩
  rw [rowToEvent_eq h.columns, hloads]
  exact if_neg hhash

/-- The rows read back as the events, one by one. -/
def Reads (H : Digest) (rows : List EventRow) (view : List (DomainEvent F)) : Prop :=
  List.Forall₂ (fun row e => rowToEvent H row = .ok e) rows view

theorem Reads.mapM {view : List (DomainEvent F)} (h : Reads H rows view) :
    rows.mapM (rowToEvent H) = .ok view := by
  induction h with
  | nil => rfl
  | cons hrow _ ih =>
    rw [List.mapM_cons, hrow, ih]
    rfl

theorem exists_reads {es : List (DomainEvent F)} (h : List.Forall₂ (RowHolds H) rows es) :
    ∃ view, Reads H rows view ∧ List.Forall₂ (Reread (H := H)) es view := by
  induction h with
  | nil => exact ⟨[], .nil, .nil⟩
  | cons hrow _ ih =>
    obtain ⟨e', he', hread⟩ := rowToEvent_holds hrow
    obtain ⟨view, hview, hreads⟩ := ih
    exact ⟨e' :: view, .cons he' hview, .cons hread hreads⟩

/-- A partition no longer than the limit reads back whole. -/
theorem Stored.readPartition_all (h : Stored H db es) (key : String)
    (hlen : (inPartition key es).length ≤ 1000000) :
    ∃ es', readPartition H db key 1 1000000 none = .ok es' ∧
      List.Forall₂ (Reread (H := H)) (inPartition key es) es' := by
  have hselect : selectPartition db key 1 1000000 none = partitionRows db key := by
    have hlength := (h.rows_hold key).length_eq
    have hall : (partitionRows db key).filter (tenantAdmits none) = partitionRows db key :=
      List.filter_eq_self.mpr fun r _ => rfl
    rw [← add_zero (1 : Int), ← Nat.cast_zero, h.select key 0, List.drop_zero, hall, limitRows,
      if_neg (by omega), List.take_of_length_le (by omega)]
  obtain ⟨view, hview, hreads⟩ := exists_reads (h.rows_hold key)
  exact ⟨view, by rw [readPartition, hselect, hview.mapM], hreads⟩

/-! ### Views -/

theorem rowToEvent_header {row : EventRow} (h : rowToEvent H row = .ok e) :
    e.header.partitionOffset = row.partitionOffset ∧
      e.header.authorTenantId = row.authorTenantId ∧ e.header.eventId = row.eventId := by
  rw [rowToEvent] at h
  obtain ⟨type, -, h⟩ := bind_ok h
  obtain ⟨payload, -, h⟩ := bind_ok h
  rw [DomainEvent.make] at h
  split at h
  · obtain ⟨hash, -, h⟩ := bind_ok h
    cases h
    exact ⟨rfl, rfl, rfl⟩
  · cases h
    exact ⟨rfl, rfl, rfl⟩

/-- Whether a tenant filter lets an event through. -/
def eventAdmits (filter : Option String) (e : DomainEvent F) : Bool :=
  match filter with
  | none => true
  | some t => t = "" || e.header.authorTenantId = t

/-- A partition as it reads back, in offset order. -/
def partitionView (H : Digest) (db : Database) (key : String) : List (DomainEvent F) :=
  ((readPartition H db key 1 (-1) none).toOption).getD []

/-- Every row of a partition is in its view, read back. -/
theorem Stored.reads_view (h : Stored H db es) (key : String) :
    Reads H (partitionRows db key) (partitionView (F := F) H db key) := by
  have hselect : selectPartition db key 1 (-1) none = partitionRows db key := by
    have hall : (partitionRows db key).filter (tenantAdmits none) = partitionRows db key :=
      List.filter_eq_self.mpr fun r _ => rfl
    rw [← add_zero (1 : Int), ← Nat.cast_zero, h.select key 0, List.drop_zero, hall, limitRows,
      if_pos (by omega)]
  obtain ⟨view, hview, -⟩ := exists_reads (h.rows_hold key)
  rw [partitionView, readPartition, hselect, hview.mapM]
  exact hview

/-- `read_partition` on a store, in terms of the view. -/
theorem Stored.readPartition_view (h : Stored H db es) (key : String) (n : Nat) (limit : Int)
    (filter : Option String) :
    readPartition H db key (1 + n) limit filter =
      .ok (limitRows limit
        (((partitionView (F := F) H db key).drop n).filter (eventAdmits filter))) := by
  have hfilter : Reads H (((partitionRows db key).drop n).filter (tenantAdmits filter))
      (((partitionView (F := F) H db key).drop n).filter (eventAdmits filter)) := by
    refine List.rel_filter (fun row e hrow => ?_) (List.forall₂_drop n (h.reads_view key))
    have htenant := (rowToEvent_header hrow).2.1
    cases filter with
    | none => simp [tenantAdmits, eventAdmits]
    | some t => simp [tenantAdmits, eventAdmits, htenant]
  rw [readPartition, h.select key n]
  refine Reads.mapM ?_
  unfold limitRows
  split
  · exact hfilter
  · exact List.forall₂_take _ hfilter

theorem Stored.readPartition_whole (h : Stored H db es) (key : String) :
    readPartition H db key 1 (-1) none = .ok (partitionView (F := F) H db key) := by
  have hall : (partitionView (F := F) H db key).filter (eventAdmits none) =
      partitionView (F := F) H db key := List.filter_eq_self.mpr fun e _ => rfl
  have hread := h.readPartition_view key 0 (-1) none
  rwa [List.drop_zero, hall, limitRows, if_pos (by omega), Nat.cast_zero, add_zero] at hread

/-- The events of a view stand at offsets 1, 2, 3, … -/
theorem Stored.view_offsets (h : Stored H db es) (key : String) :
    (partitionView (F := F) H db key).map (fun e => e.header.partitionOffset) =
      (List.range (partitionView (F := F) H db key).length).map fun k : Nat => 1 + (k : Int) := by
  have hview := h.reads_view key
  have hoffsets : (partitionRows db key).map (fun r => r.partitionOffset) =
      (partitionView (F := F) H db key).map fun e => e.header.partitionOffset :=
    map_eq_of_forall₂ hview fun _ _ hrow => (rowToEvent_header hrow).1.symm
  rw [← hoffsets, ← hview.length_eq]
  exact (h.rows_linked key).places

theorem Stored.view_offset (h : Stored H db es) (key : String) {k : Nat}
    (he : (partitionView (F := F) H db key)[k]? = some e) : e.header.partitionOffset = 1 + k := by
  obtain ⟨hk, rfl⟩ := List.getElem?_eq_some_iff.mp he
  have hoffsets := congrArg (fun xs => xs[k]?) (h.view_offsets (F := F) key)
  simpa [List.getElem?_map, List.getElem?_range hk, hk] using hoffsets

theorem Stored.mem_take_view (h : Stored H db es) (key : String) (n : Nat) :
    e ∈ (partitionView (F := F) H db key).take n ↔
      e ∈ partitionView (F := F) H db key ∧ e.header.partitionOffset ≤ n := by
  constructor
  · intro he
    obtain ⟨k, hk⟩ := List.mem_iff_getElem?.mp he
    rw [List.getElem?_take] at hk
    split at hk
    · have hoffset := h.view_offset key hk
      exact ⟨List.mem_of_getElem? hk, by omega⟩
    · cases hk
  · rintro ⟨he, hle⟩
    obtain ⟨k, hk⟩ := List.mem_iff_getElem?.mp he
    have hoffset := h.view_offset key hk
    refine List.mem_iff_getElem?.mpr ⟨k, ?_⟩
    rw [List.getElem?_take_of_lt (by omega), hk]

theorem Stored.mem_drop_view (h : Stored H db es) (key : String) (n : Nat) :
    e ∈ (partitionView (F := F) H db key).drop n ↔
      e ∈ partitionView (F := F) H db key ∧ n < e.header.partitionOffset := by
  constructor
  · intro he
    obtain ⟨k, hk⟩ := List.mem_iff_getElem?.mp he
    rw [List.getElem?_drop] at hk
    have hoffset := h.view_offset key hk
    exact ⟨List.mem_of_getElem? hk, by omega⟩
  · rintro ⟨he, hlt⟩
    obtain ⟨k, hk⟩ := List.mem_iff_getElem?.mp he
    have hoffset := h.view_offset key hk
    refine List.mem_iff_getElem?.mpr ⟨k - n, ?_⟩
    rw [List.getElem?_drop, ← hk]
    congr 1
    omega

theorem Stored.view_pairwise (h : Stored H db es) (key : String) :
    (partitionView (F := F) H db key).Pairwise fun a b =>
      a.header.partitionOffset < b.header.partitionOffset := by
  rw [← List.pairwise_map (f := fun e : DomainEvent F => e.header.partitionOffset)
    (R := fun a b : Int => a < b), h.view_offsets key, List.pairwise_map]
  exact List.pairwise_lt_range.imp fun hab => by omega

/-- No event is in a view twice. -/
theorem Stored.view_nodup (h : Stored H db es) (key : String) :
    ((partitionView (F := F) H db key).map fun e => e.header.eventId).Nodup := by
  have hids : (partitionRows db key).map (fun r => r.eventId) =
      (partitionView (F := F) H db key).map fun e => e.header.eventId :=
    map_eq_of_forall₂ (h.reads_view key) fun _ _ hrow => (rowToEvent_header hrow).2.2.symm
  rw [← hids]
  exact db.events.ids_nodup.sublist (List.filter_sublist.map _)

theorem Reads.grows {rows rows' : List EventRow} {view view' : List (DomainEvent F)}
    (h : Reads H rows view) (h' : Reads H rows' view') (hrows : rows <+: rows') :
    view <+: view' := by
  obtain ⟨extra, rfl⟩ := hrows
  induction h generalizing view' with
  | nil => exact List.nil_prefix
  | cons hrow _ ih =>
    cases h' with
    | cons hrow' hrest =>
      cases hrow.symm.trans hrow'
      obtain ⟨more, rfl⟩ := ih hrest
      exact ⟨more, rfl⟩

/-- A view grows at its end when its table does. -/
theorem Stored.view_grows (h : Stored H db es) {db' : Database} {es' : List (DomainEvent F)}
    (h' : Stored H db' es') (hrows : db.events.rows <+: db'.events.rows) (key : String) :
    partitionView (F := F) H db key <+: partitionView (F := F) H db' key :=
  (h.reads_view key).grows (h'.reads_view key) (hrows.filter _)

/-- A step of a process adds rows at the end, if any, and touches no checkpoint. -/
theorem Safe.next_grows {P : Type} [DecidableEq P] {w : World P F} (hw : Safe H w) (a : Step P F) :
    w.db.events.rows <+: (World.next H w a).db.events.rows ∧
      (World.next H w a).db.checkpoints = w.db.checkpoints := by
  cases a with
  | read p call =>
    simp only [World.next]
    split
    · exact ⟨List.prefix_rfl, rfl⟩
    · split <;> exact ⟨List.prefix_rfl, rfl⟩
  | transact p =>
    cases hq : w.pending p with
    | none => simp only [World.next, hq, List.prefix_rfl, and_self]
    | some q =>
      obtain ⟨hjson, -⟩ := hw.pending p q hq
      simp only [World.next, hq]
      by_cases hcan : CanCommit (H := H) w.db q.call q.payloadJson q.head
      · rw [writes_commits hjson hcan]
        exact ⟨List.prefix_append _ _, rfl⟩
      · rw [writes_rolls_back hjson hcan]
        exact ⟨List.prefix_rfl, rfl⟩
  | abort p err =>
    cases hq : w.pending p with
    | none => simp only [World.next, hq, List.prefix_rfl, and_self]
    | some q => simp only [World.next, hq, World.finish, List.prefix_rfl, and_self]

end PiPlatform.EventFabric
