import PiPlatform.EventFabric.Bus.Append
import PiPlatform.Library.System

/-! Appends by any number of processes.

A call of `append` is two steps of its process: `read` writes the payload's text and
selects the head of the partition outside any transaction, `transact` runs the
writes as one transaction and commits or rolls back. Between the two any other
process may take any steps. A process can also be stopped before it commits, by a
locked database for example (`abort`).

No interleaving breaks a chain, because no head is ever wrong, only old: what a
process has read was the head of its partition when it read it, and partitions only
grow (`Safe.pending`). An old head then costs the call its transaction. -/
namespace PiPlatform.EventFabric

open Library Library.Json Library.Python

variable {P F : Type}

/-- A call between its `SELECT` and its transaction. -/
structure Pending (F : Type) where
  call : AppendCall F
  payloadJson : String
  head : Option (Int × String)

/-- The database, the calls under way, and every call that has ended with what it
returned or raised. -/
structure World (P F : Type) where
  db : Database
  pending : P → Option (Pending F)
  ended : List (P × AppendCall F × Except PyError (DomainEvent F))

def World.start : World P F := ⟨.empty, fun _ => none, []⟩

/-- The events returned, in the order their transactions committed. -/
def World.returned (w : World P F) : List (DomainEvent F) :=
  w.ended.filterMap fun call => call.2.2.toOption

inductive Step (P F : Type) where
  | read (p : P) (call : AppendCall F)
  | transact (p : P)
  | abort (p : P) (error : PyError)

variable [DecidableEq P] [FloatCodec F] [SetText F] (H : Digest)

/-- The call of `p` is over. -/
def World.finish (w : World P F) (p : P) (call : AppendCall F)
    (result : Except PyError (DomainEvent F)) (db : Database) : World P F where
  db := db
  pending := Function.update w.pending p none
  ended := w.ended ++ [(p, call, result)]

/-- One step of one process; a process with a call under way starts no other. -/
def World.next (w : World P F) : Step P F → World P F
  | .read p call =>
    match w.pending p with
    | some _ => w
    | none =>
      match canonicalJson call.payload.value with
      | .error e => w.finish p call (.error e) w.db
      | .ok json =>
        { w with
          pending :=
            Function.update w.pending p (some ⟨call, json, readHead w.db call.partitionKey⟩) }
  | .transact p =>
    match w.pending p with
    | none => w
    | some q =>
      let result := atomically (writes H q.call q.payloadJson q.head) w.db
      w.finish p q.call result.1 result.2
  | .abort p e =>
    match w.pending p with
    | none => w
    | some q => w.finish p q.call (.error e) w.db

/-- The processes on one database. -/
def appenders (P F : Type) [DecidableEq P] [FloatCodec F] [SetText F] (H : Digest) :
    System (World P F) (Step P F) where
  initial := World.start
  step := World.next H

/-! ### The invariant -/

/-- A pending call has the text of its payload and a head its partition has had. -/
structure Ready (es : List (DomainEvent F)) (q : Pending F) : Prop where
  json : canonicalJson q.call.payload.value = .ok q.payloadJson
  head : HeadAt (inPartition q.call.partitionKey es) q.head

/-- What was returned is stored, and what is pending was read at some point of it. -/
structure Safe (w : World P F) : Prop where
  stored : Stored H w.db w.returned
  pending : ∀ p q, w.pending p = some q → Ready w.returned q

omit [DecidableEq P] in
theorem safe_start : Safe (P := P) (F := F) H World.start where
  stored := stored_empty H
  pending := fun _ _ h => nomatch h

omit [DecidableEq P] [FloatCodec F] [SetText F] in
theorem HeadAt.grow {key : String} {es : List (DomainEvent F)} {head : Option (Int × String)}
    (h : HeadAt (inPartition key es) head) (e : DomainEvent F) :
    HeadAt (inPartition key (es ++ [e])) head := by
  obtain ⟨past, hpre, hhead⟩ := h
  refine ⟨past, ?_, hhead⟩
  rw [inPartition_snoc]
  split
  · exact hpre.trans (List.prefix_append _ _)
  · exact hpre

variable {H} {w : World P F} {db : Database} {es : List (DomainEvent F)} {call : AppendCall F}
  {result : Except PyError (DomainEvent F)}

omit [FloatCodec F] [SetText F] in
theorem returned_finish_ok (p : P) (call : AppendCall F) (e : DomainEvent F) (db : Database) :
    (w.finish p call (.ok e) db).returned = w.returned ++ [e] := by
  simp [World.returned, World.finish, Except.toOption]

omit [FloatCodec F] [SetText F] in
theorem returned_finish_error (p : P) (call : AppendCall F) (err : PyError) (db : Database) :
    (w.finish p call (.error err) db).returned = w.returned := by
  simp [World.returned, World.finish, Except.toOption]

omit [FloatCodec F] [SetText F] in
theorem pending_finish {p p' : P} {q : Pending F}
    (h : (w.finish p call result db).pending p' = some q) : w.pending p' = some q := by
  by_cases hp : p' = p
  · subst hp
    simp [World.finish] at h
  · simpa [World.finish, Function.update_of_ne hp] using h

/-- A call that raises changes nothing that is stored. -/
theorem Safe.raise (hw : Safe H w) (p : P) (call : AppendCall F) (err : PyError) :
    Safe H (w.finish p call (.error err) w.db) where
  stored := by
    rw [returned_finish_error]
    exact hw.stored
  pending := fun p' q h => by
    rw [returned_finish_error]
    exact hw.pending p' q (pending_finish h)

variable (H) in
/-- A call, its two steps taken together: what `append` does. -/
theorem next_append {p : P} (hidle : w.pending p = none) (call : AppendCall F) :
    World.next H (World.next H w (.read p call)) (.transact p) =
      w.finish p call (append H w.db call).1 (append H w.db call).2 := by
  cases hjson : canonicalJson call.payload.value with
  | error e | ok json => simp [World.next, hidle, hjson, append, World.finish]

/-- What one transaction can do: commit its event behind the chain, or raise. -/
theorem Safe.transact (hw : Safe H w) {p : P} {q : Pending F} (hq : w.pending p = some q) :
    Safe H (World.next H w (.transact p)) := by
  obtain ⟨hjson, hhead⟩ := hw.pending p q hq
  simp only [World.next, hq]
  by_cases hcan : CanCommit (H := H) w.db q.call q.payloadJson q.head
  · rw [writes_commits hjson hcan]
    refine ⟨?_, fun p' q' h => ?_⟩
    · rw [returned_finish_ok]
      exact hw.stored.commit hjson hhead hcan
    · obtain ⟨hjson', hhead'⟩ := hw.pending p' q' (pending_finish h)
      rw [returned_finish_ok]
      exact ⟨hjson', hhead'.grow _⟩
  · rw [writes_rolls_back hjson hcan]
    exact hw.raise p q.call _

theorem Safe.read (hw : Safe H w) (p : P) (call : AppendCall F) :
    Safe H (World.next H w (.read p call)) := by
  simp only [World.next]
  split
  · exact hw
  · split
    · exact hw.raise p call _
    · next json hjson =>
      refine ⟨hw.stored, fun p' q h => ?_⟩
      by_cases hp : p' = p
      · subst hp
        obtain rfl : _ = q := by simpa using h
        exact ⟨hjson, _, List.prefix_rfl, hw.stored.readHead call.partitionKey⟩
      · exact hw.pending p' q (by simpa [Function.update_of_ne hp] using h)

theorem Safe.next (hw : Safe H w) (a : Step P F) : Safe H (World.next H w a) := by
  cases a with
  | read p call => exact hw.read p call
  | transact p =>
    cases hq : w.pending p with
    | none => simpa only [World.next, hq] using hw
    | some q => exact hw.transact hq
  | abort p err =>
    cases hq : w.pending p with
    | none => simpa only [World.next, hq] using hw
    | some q =>
      simp only [World.next, hq]
      exact hw.raise p q.call err

variable (H) in
theorem safe_after (steps : List (Step P F)) : Safe H ((appenders P F H).after steps) :=
  (appenders P F H).invariant (Safe H) (safe_start H) (fun _ a hw => hw.next a) steps

/-- An event returned is the one its call makes from some head. -/
def Made (H : Digest) (w : World P F) : Prop :=
  ∀ p call e, (p, call, .ok e) ∈ w.ended →
    ∃ json head, canonicalJson call.payload.value = .ok json ∧ e = call.event H json head

theorem Made.finish (hw : Made H w) {p : P} (h : ∀ e, result = .ok e →
      ∃ json head, canonicalJson call.payload.value = .ok json ∧ e = call.event H json head) :
    Made H (w.finish p call result db) := by
  intro p' call' e he
  rcases List.mem_append.mp he with he | he
  · exact hw p' call' e he
  · simp only [List.mem_singleton, Prod.mk.injEq] at he
    obtain ⟨-, rfl, hresult⟩ := he
    exact h e hresult.symm

theorem Made.next (hsafe : Safe H w) (hw : Made H w) (a : Step P F) :
    Made H (World.next H w a) := by
  cases a with
  | read p call =>
    simp only [World.next]
    split
    · exact hw
    · split
      · exact hw.finish fun e h => nomatch h
      · exact hw
  | transact p =>
    cases hq : w.pending p with
    | none => simpa only [World.next, hq] using hw
    | some q =>
      obtain ⟨hjson, -⟩ := hsafe.pending p q hq
      simp only [World.next, hq]
      refine hw.finish fun e h => ?_
      by_cases hcan : CanCommit (H := H) w.db q.call q.payloadJson q.head
      · rw [writes_commits hjson hcan, Except.ok.injEq] at h
        subst h
        exact ⟨q.payloadJson, q.head, hjson, rfl⟩
      · rw [writes_rolls_back hjson hcan] at h
        cases h
  | abort p err =>
    cases hq : w.pending p with
    | none => simpa only [World.next, hq] using hw
    | some q =>
      simp only [World.next, hq]
      exact hw.finish fun e h => nomatch h

variable (H) in
theorem made_after (steps : List (Step P F)) : Made H ((appenders P F H).after steps) :=
  ((appenders P F H).invariant (fun w => Safe H w ∧ Made H w)
    ⟨safe_start H, fun _ _ _ h => nomatch h⟩
    (fun _ a hw => ⟨hw.1.next a, hw.2.next hw.1 a⟩) steps).2

/-- An event returned is made of what its call says. -/
def Origin (w : World P F) : Prop :=
  ∀ p call e, (p, call, .ok e) ∈ w.ended →
    e.payload = call.payload.value ∧ e.header.partitionKey = call.partitionKey

variable (H) in
theorem origin_after (steps : List (Step P F)) : Origin ((appenders P F H).after steps) := by
  intro p call e he
  obtain ⟨json, head, -, rfl⟩ := made_after H steps p call e he
  exact ⟨rfl, rfl⟩

/-- The calls to one partition that ended. -/
def World.endedAt (w : World P F) (key : String) :
    List (P × AppendCall F × Except PyError (DomainEvent F)) :=
  w.ended.filter fun c => c.2.1.partitionKey = key

omit [DecidableEq P] [FloatCodec F] [SetText F] in
/-- The events of a partition are those its own calls returned. -/
theorem inPartition_returned (hw : Origin w) (key : String) :
    inPartition key w.returned = (w.endedAt key).filterMap fun c => c.2.2.toOption := by
  have hlist : ∀ ended : List (P × AppendCall F × Except PyError (DomainEvent F)),
      (∀ p call e, (p, call, .ok e) ∈ ended → e.header.partitionKey = call.partitionKey) →
      inPartition key (ended.filterMap fun c => c.2.2.toOption) =
        (ended.filter fun c => c.2.1.partitionKey = key).filterMap fun c => c.2.2.toOption := by
    intro ended hended
    induction ended with
    | nil => rfl
    | cons c ended ih =>
      obtain ⟨p, call, result⟩ := c
      have hrest := ih fun p call e h => hended p call e (List.mem_cons_of_mem _ h)
      cases result with
      | error err =>
        by_cases hkey : call.partitionKey = key <;>
          simpa [hkey, Except.toOption, inPartition] using hrest
      | ok e =>
        have he := hended p call e (List.mem_cons_self ..)
        by_cases hkey : call.partitionKey = key <;>
          simpa [hkey, he, Except.toOption, inPartition] using hrest
  exact hlist w.ended fun p call e h => (hw p call e h).2

/-! ### What the tables show -/

def rowLinks : Links EventRow String where
  place := fun r => r.partitionOffset
  previous := fun r => r.previousEventHash
  digest := fun r => r.eventHash

omit [DecidableEq P] in
theorem Stored.rows_hold (h : Stored H db es) (key : String) :
    List.Forall₂ (RowHolds H) (partitionRows db key) (inPartition key es) := by
  refine List.rel_filter (fun row e hrow => ?_) h.rows
  simp only [decide_eq_true_eq, hrow.key_eq]

theorem Stored.rows_linked (h : Stored H db es) (key : String) :
    rowLinks.Linked 1 "" (partitionRows db key) := by
  refine (rowLinks.linked_congr ?_ 1 "").mpr (h.linked key)
  exact (h.rows_hold key).imp fun row e hrow =>
    ⟨hrow.offset_eq, hrow.previous_eq, hrow.hash_eq⟩

/-- A partition whose rows are its chain and whose metadata is its end. -/
structure PartitionSound (db : Database) (key : String) : Prop where
  offsets : (partitionRows db key).map (fun r => r.partitionOffset) =
    (List.range (partitionRows db key).length).map fun k : Nat => 1 + (k : Int)
  genesis : ∀ r ∈ (partitionRows db key).head?, r.previousEventHash = ""
  links : (partitionRows db key).IsChain fun a b => b.previousEventHash = a.eventHash
  current : match db.eventPartitions.get? key with
    | none => partitionRows db key = []
    | some m => m.currentOffset = (partitionRows db key).length ∧
      ∃ last, (partitionRows db key).getLast? = some last ∧
        m.lastEventId = last.eventId ∧ m.lastEventHash = last.eventHash

theorem Stored.partitionSound (h : Stored H db es) (key : String) : PartitionSound db key := by
  have hlinked := h.rows_linked key
  refine ⟨hlinked.places, fun r hr => ?_, hlinked.chained, ?_⟩
  · cases hrows : partitionRows db key with
    | nil =>
      rw [hrows] at hr
      cases hr
    | cons r' rest =>
      obtain rfl : r' = r := by simpa [hrows] using hr
      exact (hrows ▸ hlinked).2.1
  · have hends : (partitionRows db key).map (fun r => (r.eventId, r.eventHash)) =
        (inPartition key es).map fun e => (e.header.eventId, e.eventHash) :=
      map_eq_of_forall₂ (h.rows_hold key) fun _ _ hrow => Prod.ext hrow.id_eq hrow.hash_eq
    have hlength : (partitionRows db key).length = (inPartition key es).length :=
      (h.rows_hold key).length_eq
    split
    · next hnone =>
      rw [h.get?_isNone] at hnone
      rw [← List.length_eq_zero_iff, hlength, hnone, List.length_nil]
    · next m hm =>
      obtain ⟨e, hlast, ⟨-, hid, hhash⟩, hcount⟩ := h.exists_head hm
      refine ⟨by rw [hcount, hlength], ?_⟩
      have hlast' := congrArg List.getLast? hends
      rw [List.getLast?_map, List.getLast?_map, hlast, Option.map_some,
        Option.map_eq_some_iff] at hlast'
      obtain ⟨last, hrow, heq⟩ := hlast'
      obtain ⟨hid', hhash'⟩ := Prod.mk.inj heq
      exact ⟨last, hrow, hid.trans hid'.symm, hhash.trans hhash'.symm⟩

/-- Exactly one row has the id of an event, and it holds the event. -/
theorem Stored.stored_once (h : Stored H db es) {e : DomainEvent F} (he : e ∈ es) :
    ∃ row, (db.events.rows.filter fun r => r.eventId = e.header.eventId) = [row] ∧
      RowHolds H row e := by
  obtain ⟨row, hmem, hrow⟩ := exists_left h.rows he
  refine ⟨row, ?_, hrow⟩
  rw [← hrow.id_eq]
  exact filter_unique db.events.ids_nodup hmem

theorem atomically_error {α : Type} {body : Sql α} {e : PyError}
    (h : (atomically body db).1 = .error e) : (atomically body db).2 = db := by
  rw [atomically] at h ⊢
  split at h
  · cases h
  · rfl

omit [FloatCodec F] [SetText F] in
theorem ended_finish {p p' : P} {call call' : AppendCall F}
    {result result' : Except PyError (DomainEvent F)}
    (h : (w.finish p call result db).ended = w.ended ++ [(p', call', result')]) :
    result = result' := by
  simp only [World.finish, List.append_cancel_left_eq, List.cons.injEq, Prod.mk.injEq] at h
  exact h.1.2.2

/-- The step at which a call raises leaves the database as it was. -/
theorem db_of_raised {a : Step P F} {p : P} {err : PyError}
    (h : (World.next H w a).ended = w.ended ++ [(p, call, .error err)]) :
    (World.next H w a).db = w.db := by
  cases a with
  | read p' call' =>
    simp only [World.next]
    split
    · rfl
    · split <;> rfl
  | transact p' =>
    cases hq : w.pending p' with
    | none => simp only [World.next, hq]
    | some q =>
      simp only [World.next, hq] at h ⊢
      exact atomically_error (ended_finish h)
  | abort p' e =>
    cases hq : w.pending p' with
    | none => simp only [World.next, hq]
    | some q => simp only [World.next, hq, World.finish]

omit [DecidableEq P] [FloatCodec F] [SetText F] in
theorem mem_returned {p : P} {e : DomainEvent F}
    (h : (p, call, .ok e) ∈ w.ended) : e ∈ w.returned :=
  List.mem_filterMap.mpr ⟨_, h, rfl⟩

variable (H) in
/-- **Main theorem.** Whatever the processes do and in whatever order, every
partition's rows are its chain from offset 1 and its metadata is their end, each
event returned is stored exactly once, and a call that raises changes neither table. -/
theorem append_interleavings (steps : List (Step P F)) :
    (∀ key, PartitionSound ((appenders P F H).after steps).db key) ∧
    (∀ p call e, (p, call, .ok e) ∈ ((appenders P F H).after steps).ended →
      ∃ row, (((appenders P F H).after steps).db.events.rows.filter fun r =>
        r.eventId = e.header.eventId) = [row] ∧ RowHolds H row e) ∧
    (∀ a p call err, ((appenders P F H).after (steps ++ [a])).ended =
        ((appenders P F H).after steps).ended ++ [(p, call, .error err)] →
      ((appenders P F H).after (steps ++ [a])).db.events =
          ((appenders P F H).after steps).db.events ∧
        ((appenders P F H).after (steps ++ [a])).db.eventPartitions =
          ((appenders P F H).after steps).db.eventPartitions) := by
  have hsafe := safe_after H steps
  refine ⟨hsafe.stored.partitionSound, fun p call e he => ?_, fun a p call err h => ?_⟩
  · exact hsafe.stored.stored_once (mem_returned he)
  · rw [(appenders P F H).after_snoc] at h ⊢
    have hdb : (World.next H ((appenders P F H).after steps) a).db =
        ((appenders P F H).after steps).db := db_of_raised h
    exact ⟨congrArg Database.events hdb, congrArg Database.eventPartitions hdb⟩

/-! ### Serialisability -/

/-- The log one call after another writes. -/
def logAppend (H : Digest) (es : List (DomainEvent F)) (call : AppendCall F) :
    List (DomainEvent F) :=
  match canonicalJson call.payload.value with
  | .error _ => es
  | .ok json => es ++ [call.event H json (headOf (inPartition call.partitionKey es))]

def sequential (F : Type) [FloatCodec F] [SetText F] (H : Digest) :
    System (List (DomainEvent F)) (AppendCall F) where
  initial := []
  step := logAppend H

/-- The calls committed by a step, at most one. -/
def committed (H : Digest) (w : World P F) : Step P F → List (AppendCall F)
  | .transact p =>
    match w.pending p with
    | none => []
    | some q =>
      match (atomically (writes H q.call q.payloadJson q.head) w.db).1 with
      | .ok _ => [q.call]
      | .error _ => []
  | _ => []

theorem returned_next (hw : Safe H w) (a : Step P F) :
    (World.next H w a).returned = (committed H w a).foldl (logAppend H) w.returned := by
  cases a with
  | read p call =>
    simp only [World.next, committed, List.foldl_nil]
    split
    · rfl
    · split
      · exact returned_finish_error ..
      · rfl
  | transact p =>
    cases hq : w.pending p with
    | none => simp only [World.next, committed, hq, List.foldl_nil]
    | some q =>
      obtain ⟨hjson, hhead⟩ := hw.pending p q hq
      simp only [World.next, committed, hq]
      by_cases hcan : CanCommit (H := H) w.db q.call q.payloadJson q.head
      · rw [writes_commits hjson hcan, returned_finish_ok]
        simp only [List.foldl_cons, List.foldl_nil, logAppend, hjson]
        rw [← head_current hw.stored hhead hcan]
      · rw [writes_rolls_back hjson hcan]
        exact returned_finish_error ..
  | abort p err =>
    cases hq : w.pending p with
    | none => simp only [World.next, committed, hq, List.foldl_nil]
    | some q =>
      simp only [World.next, committed, hq, List.foldl_nil]
      exact returned_finish_error ..

/-- The processes on one database simulate one process that makes the committed
calls one after another, in the order they committed. -/
def serialisation (P F : Type) [DecidableEq P] [FloatCodec F] [SetText F] (H : Digest) :
    Simulation (appenders P F H) (sequential F H) where
  Rel := fun w es => Safe H w ∧ w.returned = es
  answer := committed H
  initial := ⟨safe_start H, rfl⟩
  step := by
    rintro w es a ⟨hw, rfl⟩
    exact ⟨hw.next a, returned_next hw a⟩

variable (H) in
/-- Every interleaved run returns the events of a sequential one. -/
theorem returned_serial (steps : List (Step P F)) :
    ((appenders P F H).after steps).returned =
      (sequential F H).after ((serialisation P F H).trace steps) :=
  ((serialisation P F H).related steps).2

end PiPlatform.EventFabric
