import PiPlatform.EventFabric.Bus.Verify

/-! What a tampered partition can look like and still verify.

The verifier reads the events of a partition and nothing else, so a suffix can be
cut off, and a whole log replaced by another that is consistent with itself. What
the verifier does not look at, the partition's metadata, closes the gap: when the
partition reads back with as many events as its `current_offset` and ends in its
`last_event_hash`, the chain commits to everything that was appended
(`tampering_is_evident`). -/
namespace PiPlatform.EventFabric

open Library Library.Json Library.Python

variable {P F : Type} [FloatCodec F] [SetText F] {H : Digest}

/-- The same event as far as its hash covers it: its identity, its payload as
canonical JSON, and the hash itself. -/
structure SameEvent (e e' : DomainEvent F) : Prop where
  identity : e'.header.identity = e.header.identity
  payload : canonicalJson e'.payload = canonicalJson e.payload
  eventHash : e'.eventHash = e.eventHash

/-- The events read are as many as the metadata says and end in its hash. -/
def MatchesMetadata (row : Option PartitionRow) (es : List (DomainEvent F)) : Prop :=
  match row with
  | none => es = []
  | some m => (es.length : Int) = m.currentOffset ∧
      es.getLast?.map (fun e => e.eventHash) = some m.lastEventHash

/-- A genuine event with the hash of a stored one is that event. -/
theorem sameEvent_of_hash (hinj : Function.Injective H.hex) {row : EventRow} {e e' : DomainEvent F}
    (he : RowHolds H row e) (he' : Genuine H e') (h : e.eventHash = e'.eventHash) :
    SameEvent e e' := by
  rw [Genuine, computeHash_eq] at he'
  cases hjson : canonicalJson e'.payload with
  | error err =>
    rw [hjson] at he'
    cases he'
  | ok json =>
    rw [hjson] at he'
    have hhash : H.hex (e'.header.identity.text F ++ json) = e'.eventHash := Except.ok.inj he'
    have htext : e'.header.identity.text F ++ json =
        e.header.identity.text F ++ row.payloadJson := by
      apply hinj
      rw [hhash, ← h, he.eventHash]
    obtain ⟨hidentity, rfl⟩ := text_append_inj htext
    exact ⟨hidentity, hjson.trans he.json.symm, h.symm⟩

/-- The metadata of a store counts its events and knows the last hash. -/
theorem Stored.metadata {db : Database} {es : List (DomainEvent F)} (h : Stored H db es)
    (key : String) {es' : List (DomainEvent F)}
    (hes' : MatchesMetadata (db.eventPartitions.get? key) es') :
    (inPartition key es).length = es'.length ∧
      (inPartition key es).getLast?.map eventLinks.digest = es'.getLast?.map eventLinks.digest := by
  unfold MatchesMetadata at hes'
  cases hrow : db.eventPartitions.get? key with
  | none =>
    rw [hrow] at hes'
    obtain rfl : es' = [] := hes'
    rw [(h.get?_isNone key).mp hrow]
    exact ⟨rfl, rfl⟩
  | some m =>
    rw [hrow] at hes'
    obtain ⟨hlength, hhash⟩ : (es'.length : Int) = m.currentOffset ∧
      es'.getLast?.map (fun e => e.eventHash) = some m.lastEventHash := hes'
    obtain ⟨e, hlast, ⟨-, -, hdigest⟩, hcount⟩ := h.exists_head hrow
    refine ⟨by omega, ?_⟩
    rw [hlast, Option.map_some]
    exact (congrArg some hdigest).symm.trans hhash.symm

variable (H) in
/-- **Main theorem.** Whatever the events table has become, if the partition verifies
and what is read of it matches the metadata `append` left, then event by event it is
what was appended. -/
theorem tampering_is_evident [DecidableEq P] (steps : List (Step P F)) (key : String)
    (db : Database) (es : List (DomainEvent F)) (hinj : Function.Injective H.hex)
    (hmetadata : db.eventPartitions.get? key =
      ((appenders P F H).after steps).db.eventPartitions.get? key)
    (hread : readPartition H db key 1 1000000 none = .ok es)
    (hmatches : MatchesMetadata (db.eventPartitions.get? key) es)
    (hverify : verifyPartitionChain H F db key = .ok (true, [])) :
    List.Forall₂ SameEvent (inPartition key ((appenders P F H).after steps).returned) es := by
  have hstored := (safe_after H steps).stored
  rw [hmetadata] at hmatches
  obtain ⟨hlength, hlast⟩ := hstored.metadata key hmatches
  obtain ⟨es', hread', hgenuine, hchain⟩ := verify_true_iff.mp hverify
  obtain rfl : es = es' := Except.ok.inj (hread.symm.trans hread')
  refine eventLinks.agree_of_last (fun a ha b hb h => ?_) (hstored.linked key).chained hchain
    hlength hlast
  obtain ⟨row, -, hrow⟩ := exists_left (hstored.rows_hold key) ha
  have hsame := sameEvent_of_hash hinj hrow (hgenuine b hb) h
  exact ⟨hsame, (congrArg Identity.previousEventHash hsame.identity).symm⟩

/-- A store nobody touched matches its metadata. -/
theorem Stored.matchesMetadata {db : Database} {es : List (DomainEvent F)} (h : Stored H db es)
    (key : String) {es' : List (DomainEvent F)}
    (hes' : List.Forall₂ (Reread (H := H)) (inPartition key es) es') :
    MatchesMetadata (db.eventPartitions.get? key) es' := by
  have hhashes : (inPartition key es).map (fun e => e.eventHash) = es'.map fun e => e.eventHash :=
    map_eq_of_forall₂ hes' fun _ _ hread => hread.eventHash.symm
  unfold MatchesMetadata
  cases hrow : db.eventPartitions.get? key with
  | none =>
    rw [(h.get?_isNone key).mp hrow] at hes'
    cases hes'
    rfl
  | some m =>
    obtain ⟨e, hlast, ⟨-, -, hdigest⟩, hcount⟩ := h.exists_head hrow
    have hlength := hes'.length_eq
    refine ⟨by omega, ?_⟩
    rw [← List.getLast?_map, ← hhashes, List.getLast?_map, hlast, Option.map_some, hdigest]

/-- One call to `"p"`, and two. -/
def oneCall : World Unit Literal :=
  (appenders Unit Literal prefixDigest).after
    [.read () (sampleCall "p" "1" onePayload), .transact ()]

def twoCalls : World Unit Literal :=
  (appenders Unit Literal prefixDigest).after
    [.read () (sampleCall "p" "1" onePayload), .transact (),
      .read () (sampleCall "p" "2" onePayload), .transact ()]

theorem oneCall_stored : Stored prefixDigest oneCall.db oneCall.returned :=
  (safe_after prefixDigest _).stored

theorem oneCall_verifies :
    verifyPartitionChain prefixDigest Literal oneCall.db "p" = .ok (true, []) := by
  refine (oneCall_stored.verify "p" (by decide +kernel)).1 ?_
  exact (textOrdered_events (origin_after prefixDigest _) "p").mp
    (textOrdered_of_all (by decide +kernel) "p")

/-- A log nobody touched. -/
theorem tampering_is_evident_untouched : ∃ es,
    readPartition prefixDigest oneCall.db "p" 1 1000000 none = .ok es ∧
      List.Forall₂ SameEvent (inPartition "p" oneCall.returned) es := by
  obtain ⟨es, hread, hes⟩ := oneCall_stored.readPartition_all "p" (by decide +kernel)
  exact ⟨es, hread, tampering_is_evident prefixDigest _ "p" oneCall.db es prefixDigest_injective
    rfl hread (oneCall_stored.matchesMetadata "p" hes) oneCall_verifies⟩

/-- The second event cut off: the metadata still counts two, the verifier is content. -/
theorem truncated_log_verifies :
    Function.Injective prefixDigest.hex ∧
      twoCalls.ended.map (fun c => c.2.2.toOption.isSome) = [true, true] ∧
      (partitionRows twoCalls.db "p").length = 2 ∧ (partitionRows oneCall.db "p").length = 1 ∧
      verifyPartitionChain prefixDigest Literal { twoCalls.db with events := oneCall.db.events } "p"
        = .ok (true, []) :=
  ⟨prefixDigest_injective, by decide +kernel, by decide +kernel, by decide +kernel,
    oneCall_verifies⟩

end PiPlatform.EventFabric
