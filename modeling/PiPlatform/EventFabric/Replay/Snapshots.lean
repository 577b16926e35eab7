import PiPlatform.EventFabric.Bus.Fabrics
import PiPlatform.EventFabric.Bus.Identifiers
import PiPlatform.EventFabric.Ordering.Shard

/-! Finding an agent's latest snapshot.

All snapshots are events of one partition, and `load_agent_latest_snapshot` searches its last
200 backwards. In a run that writes snapshots only, every event of the partition shows the
call it was written for (`Shows`), so the search finds the agent's latest snapshot exactly
when it is among the last 200 of all agents (`latest_found_iff`). -/
namespace PiPlatform.EventFabric

open Library Library.Json Library.Python

variable {P F : Type} [FloatCodec F] [SetText F]

/-! ### The search -/

/-- `v == s` -/
def equalsString (s : String) : PyValue F → Bool
  | .str t => t = ofString s
  | _ => false

/-- The loop over the events, the newest first. -/
def searchSnapshot (agentId : String) (correlationId : Option String) :
    List (DomainEvent F) → Except ReadError (PyValue F)
  | [] => .ok .none
  | event :: rest =>
    if event.header.eventType = .snapshotStored then do
      let agent ← dictGet event.payload "agent_id" .none
      if equalsString agentId agent && correlationId.all (· = event.header.correlationId) then
        dictGet event.payload "agent_state" .none
      else searchSnapshot agentId correlationId rest
    else searchSnapshot agentId correlationId rest

/-- `load_agent_latest_snapshot` -/
def loadAgentLatestSnapshot (H : Digest) (db : Database) (agentId : String)
    (correlationId : Option String) : Except ReadError (PyValue F) := do
  let events ← busError (Ordering.getPartitionTail H db snapshotsKey 200)
  searchSnapshot agentId correlationId events.reverse

/-! ### What a stored snapshot shows -/

/-- The event is a snapshot of the call's agent with its state. -/
structure Shows (call : SnapshotCall F) (e : DomainEvent F) : Prop where
  eventType : e.header.eventType = .snapshotStored
  payload : ∃ items state, e.payload = .dict items ∧
    lookupItem (.str (ofString "agent_id")) items = some (.str (ofString call.agentId)) ∧
    lookupItem (.str (ofString "agent_state")) items = some state ∧
    (PyValue.dict call.state).same state

/-- A call whose state JSON gives back. -/
def SnapshotCall.JsonState (call : SnapshotCall F) : Prop := (PyValue.dict call.state).json = true

variable {H : Digest} {call : SnapshotCall F} {calls : List (SnapshotCall F)}
  {events : List (DomainEvent F)} {e : DomainEvent F} {before after : List (SnapshotCall F)}
  {fabric : PiSemanticEventFabric F}

/-- The payload of a snapshot holds agent and state. -/
theorem SnapshotCall.appendCall_spec {append : AppendCall F}
    (h : (FabricCall.writeAgentSnapshot call).appendCall H = .ok append) :
    append.eventType = .snapshotStored ∧ append.partitionKey = snapshotsKey ∧
      ∃ items, append.payload.value = .dict items ∧ (items.map Prod.fst).Nodup ∧
        (.str (ofString "agent_id"), .str (ofString call.agentId)) ∈ items ∧
        (.str (ofString "agent_state"), .dict call.state) ∈ items := by
  obtain ⟨semantic, hsemantic, h⟩ := bind_ok h
  obtain ⟨c, -, hsemantic⟩ := bind_ok hsemantic
  obtain ⟨stateJson, -, hsemantic⟩ := bind_ok hsemantic
  cases hsemantic
  obtain ⟨m, -, h⟩ := bind_ok h
  cases h
  have hwell := (wellFormed_setItem (k := semanticKey) (call.wellFormed_payload (H.hex stateJson))
    (wellFormed_of_json _ (json_metadata m)))
  simp only [PyValue.wellFormed, Bool.and_eq_true, decide_eq_true_eq] at hwell
  have hfresh : semanticKey ∉ (call.payload (H.hex stateJson)).map Prod.fst := by
    show semanticKey ∉ [Key.str (ofString "agent_id"), .str (ofString "agent_state"),
      .str (ofString "state_signature")]
    decide
  have hitems := setItem_of_not_mem m.dict hfresh
  refine ⟨rfl, rfl, _, rfl, hwell.1, ?_, ?_⟩
  · rw [hitems]
    simp [SnapshotCall.payload]
  · rw [hitems]
    simp [SnapshotCall.payload]

/-- The event of a snapshot reads back as one that shows it. -/
theorem shows_reread (hjson : call.JsonState) {append : AppendCall F}
    (happend : (FabricCall.writeAgentSnapshot call).appendCall H = .ok append) {text : String}
    {head : Option (Int × String)} (htext : canonicalJson append.payload.value = .ok text)
    {row : EventRow} (hrow : RowHolds H row (append.event H text head))
    (he : rowToEvent H row = .ok e) : Shows call e := by
  obtain ⟨htype, -, items, hpayload, hnodup, hagent, hstate⟩ := SnapshotCall.appendCall_spec happend
  have hsame : row.payloadJson = text := by
    have hjson' : canonicalJson append.payload.value = .ok row.payloadJson := hrow.json
    exact (Except.ok.inj (htext.symm.trans hjson')).symm
  rw [hpayload] at htext
  obtain ⟨items', hloads, hlookup⟩ := lookup_payload hnodup htext
  rw [rowToEvent_eq hrow.columns, hsame, hloads] at he
  have hhash : (append.event H text head).eventHash ≠ "" := H.hex_ne_empty _
  have hmake : (⟨(append.event H text head).header, .dict items',
      (append.event H text head).eventHash⟩ : DomainEvent F) = e :=
    Except.ok.inj ((if_neg hhash).symm.trans he)
  subst hmake
  obtain ⟨agent, hagent, hagentSame⟩ := hlookup "agent_id" _ hagent (by decide)
    (by simp [PyValue.json])
  obtain ⟨state, hstate, hstateSame⟩ := hlookup "agent_state" _ hstate (by decide) hjson
  refine ⟨htype, items', state, rfl, ?_, hstate, hstateSame⟩
  cases agent with
  | str t => rw [hagent, show ofString call.agentId = t from hagentSame]
  | _ => cases hagentSame

/-! ### The search on snapshots -/

omit [FloatCodec F] [SetText F] in
theorem searchSnapshot_other {agentId : String}
    (h : Shows call e) (hne : call.agentId ≠ agentId) (rest : List (DomainEvent F)) :
    searchSnapshot agentId none (e :: rest) = searchSnapshot agentId none rest := by
  obtain ⟨htype, items, state, hpayload, hagent, -⟩ := h
  have hother : equalsString agentId (.str (ofString call.agentId) : PyValue F) = false := by
    simpa [equalsString] using hne
  rw [searchSnapshot, if_pos htype, hpayload]
  simp only [dictGet, hagent, Option.getD_some, bind, Except.bind, hother, Bool.false_and]
  rfl

omit [FloatCodec F] [SetText F] in
theorem searchSnapshot_found (h : Shows call e) (rest : List (DomainEvent F)) :
    ∃ state, searchSnapshot call.agentId none (e :: rest) = .ok state ∧
      (PyValue.dict call.state).same state := by
  obtain ⟨htype, items, state, hpayload, hagent, hstate, hsame⟩ := h
  refine ⟨state, ?_, hsame⟩
  have hthis : equalsString call.agentId (.str (ofString call.agentId) : PyValue F) = true := by
    simp [equalsString]
  rw [searchSnapshot, if_pos htype, hpayload]
  simp only [dictGet, hagent, hstate, Option.getD_some, bind, Except.bind, hthis, Option.all_none,
    Bool.and_self, if_true]

omit [FloatCodec F] [SetText F] in
/-- The search passes the snapshots of other agents. -/
theorem searchSnapshot_skip {agentId : String} (h : List.Forall₂ Shows calls events)
    (hne : ∀ d ∈ calls, d.agentId ≠ agentId) (rest : List (DomainEvent F)) :
    searchSnapshot agentId none (events ++ rest) = searchSnapshot agentId none rest := by
  induction h with
  | nil => rfl
  | cons hshows _ ih =>
    obtain ⟨hfirst, hothers⟩ := List.forall_mem_cons.mp hne
    rw [List.cons_append, searchSnapshot_other hshows hfirst, ih hothers]

omit [FloatCodec F] [SetText F] in
/-- Newest first: the snapshots behind an agent's latest, that one, and those before it. -/
theorem split_shows (h : List.Forall₂ Shows (before ++ call :: after) events) :
    ∃ late e older, events.reverse = late ++ e :: older ∧
      List.Forall₂ Shows after.reverse late ∧ Shows call e := by
  have hreverse : List.Forall₂ Shows (after.reverse ++ call :: before.reverse) events.reverse := by
    simpa using List.rel_reverse h
  have hlate := List.forall₂_take after.reverse.length hreverse
  have hrest := List.forall₂_drop after.reverse.length hreverse
  rw [List.take_left] at hlate
  rw [List.drop_left] at hrest
  cases hdrop : events.reverse.drop after.reverse.length with
  | nil =>
    rw [hdrop] at hrest
    cases hrest
  | cons e older =>
    rw [hdrop] at hrest
    refine ⟨_, e, older, ?_, hlate, (List.forall₂_cons.mp hrest).1⟩
    rw [← hdrop, List.take_append_drop]

omit [FloatCodec F] [SetText F] in
/-- Among the last `n` snapshots the latest of an agent is found exactly when fewer than
`n` stand behind it. -/
theorem searchSnapshot_iff (h : List.Forall₂ Shows (before ++ call :: after) events)
    (hlast : ∀ d ∈ after, d.agentId ≠ call.agentId) (n : Nat) :
    (∃ state, searchSnapshot call.agentId none (events.reverse.take n) = .ok state ∧
      (PyValue.dict call.state).same state) ↔ after.length < n := by
  obtain ⟨late, e, older, hevents, hlate, he⟩ := split_shows h
  have hlast' : ∀ d ∈ after.reverse, d.agentId ≠ call.agentId :=
    fun d hd => hlast d (List.mem_reverse.mp hd)
  have hlength : after.length = late.length := by simpa using hlate.length_eq
  rw [hevents, List.take_append]
  by_cases hlt : after.length < n
  · refine iff_of_true ?_ hlt
    obtain ⟨k, hk⟩ : ∃ k, n - late.length = k + 1 := ⟨n - late.length - 1, by omega⟩
    rw [List.take_of_length_le (by omega), hk, List.take_succ_cons,
      searchSnapshot_skip hlate hlast']
    exact searchSnapshot_found he _
  · refine iff_of_false ?_ hlt
    rw [show n - late.length = 0 by omega, List.take_zero,
      searchSnapshot_skip (List.forall₂_take n hlate) fun d hd =>
        hlast' d (List.mem_of_mem_take hd)]
    rintro ⟨state, hstate, hsame⟩
    cases hstate
    exact hsame

/-! ### Runs that write snapshots -/

section Runs
variable [DecidableEq P] {s : Fabrics P F}

/-- Only calls of `write_agent_snapshot` begin, with states JSON gives back. -/
def FabricStep.SnapshotsOnly : FabricStep P F → Prop
  | .begin _ _ (.appendSemantic _) => False
  | .begin _ _ (.writeAgentSnapshot call) => call.JsonState
  | _ => True

/-- A snapshot whose state is JSON. -/
def FabricCall.IsSnapshot (call : FabricCall F) : Prop :=
  ∃ d : SnapshotCall F, call = .writeAgentSnapshot d ∧ d.JsonState

/-- Nothing else is under way or was written. -/
structure OnlySnapshots (s : Fabrics P F) : Prop where
  underway : ∀ p u, s.underway p = some u → u.call.IsSnapshot
  written : ∀ call ∈ s.written, call.IsSnapshot

omit [FloatCodec F] [SetText F] in
theorem OnlySnapshots.drop (h : OnlySnapshots s) (p : P) : OnlySnapshots (s.drop p) where
  underway p' u hu := by
    by_cases hp : p' = p
    · subst hp
      simp [Fabrics.drop] at hu
    · exact h.underway p' u (by simpa [Fabrics.drop, Function.update_of_ne hp] using hu)
  written := h.written

omit [FloatCodec F] [SetText F] in
theorem OnlySnapshots.move (h : OnlySnapshots s) (p : P) {u : Underway F} (hu : u.call.IsSnapshot) :
    OnlySnapshots { s with underway := Function.update s.underway p (some u) } where
  underway p' v hv := by
    by_cases hp : p' = p
    · subst hp
      obtain rfl : u = v := by simpa using hv
      exact hu
    · exact h.underway p' v (by simpa [Function.update_of_ne hp] using hv)
  written := h.written

theorem OnlySnapshots.next (h : OnlySnapshots s) {a : FabricStep P F} (ha : a.SnapshotsOnly) :
    OnlySnapshots (s.next H a) := by
  cases a with
  | begin p fabric call =>
    simp only [Fabrics.next]
    split
    · exact h
    · split
      · exact h
      · split
        · exact h
        · refine h.move p ?_
          cases call with
          | appendSemantic call => exact absurd ha id
          | writeAgentSnapshot call => exact ⟨call, rfl, ha⟩
  | check p =>
    simp only [Fabrics.next]
    split
    next call semantic parentHash rest hu =>
      split
      · exact h.move p (h.underway p ⟨call, semantic, parentHash :: rest⟩ hu)
      · exact h.drop p
    · exact h
  | read p =>
    simp only [Fabrics.next]
    split
    · split
      · exact h.drop p
      · split
        · exact ⟨h.underway, h.written⟩
        · exact ⟨(h.drop p).underway, h.written⟩
    · exact h
  | transact p =>
    simp only [Fabrics.next]
    split
    next u q hu _ =>
      refine ⟨(h.drop p).underway, fun call hcall => ?_⟩
      rcases List.mem_append.mp hcall with hcall | hcall
      · exact h.written call hcall
      · obtain ⟨c, -, rfl⟩ := List.mem_map.mp hcall
        exact h.underway p u hu
    · exact h
  | abort p e => exact ⟨(h.drop p).underway, h.written⟩

variable (H) in
theorem onlySnapshots_after (run : List (FabricStep P F))
    (h : (fabrics P F H).Admits (fun _ a => a.SnapshotsOnly) run) :
    OnlySnapshots ((fabrics P F H).after run) := by
  have hstart : OnlySnapshots (Fabrics.start : Fabrics P F) :=
    ⟨fun _ _ h => (nomatch h), fun _ h => (nomatch h)⟩
  exact (fabrics P F H).invariant_under (fun _ a => a.SnapshotsOnly) OnlySnapshots hstart
    (fun _ _ ha hs => hs.next ha) run h

/-- What one event of the bus, its row and its reading have to do with the call. -/
theorem shows_of_wrote {call : FabricCall F} {d : SnapshotCall F}
    (hcall : call = .writeAgentSnapshot d) (hjson : d.JsonState) {e e' : DomainEvent F}
    {row : EventRow} (hwrote : Wrote H call e) (hrow : RowHolds H row e)
    (hread : rowToEvent H row = .ok e') : Shows d e' := by
  subst hcall
  obtain ⟨append, text, head, happend, htext, rfl⟩ := hwrote
  exact shows_reread hjson happend htext hrow hread

omit [DecidableEq P] [FloatCodec F] [SetText F] in
theorem exists_snapshots {written : List (FabricCall F)} (h : ∀ call ∈ written, call.IsSnapshot) :
    ∃ calls : List (SnapshotCall F), written = calls.map .writeAgentSnapshot ∧
      ∀ d ∈ calls, d.JsonState := by
  induction written with
  | nil => exact ⟨[], rfl, List.forall_mem_nil _⟩
  | cons call written ih =>
    obtain ⟨⟨d, rfl, hd⟩, hrest⟩ := List.forall_mem_cons.mp h
    obtain ⟨calls, rfl, hcalls⟩ := ih hrest
    exact ⟨d :: calls, rfl, List.forall_mem_cons.mpr ⟨hd, hcalls⟩⟩

/-- The partition of the snapshots reads back as the calls that were written. -/
theorem shows_view (hjson : ∀ d ∈ calls, d.JsonState)
    {db : Database} {es : List (DomainEvent F)} (hs : Stored H db es)
    (h : List.Forall₂ (Wrote H) (calls.map .writeAgentSnapshot) es) :
    List.Forall₂ Shows calls (partitionView (F := F) H db snapshotsKey) := by
  have hall : inPartition snapshotsKey es = es := by
    refine List.filter_eq_self.mpr fun e he => ?_
    obtain ⟨call, hcall, append, text, head, happend, -, rfl⟩ := exists_left h he
    obtain ⟨d, -, rfl⟩ := List.mem_map.mp hcall
    exact decide_eq_true (SnapshotCall.appendCall_spec happend).2.1
  have hrows := hs.rows_hold snapshotsKey
  rw [hall] at hrows
  have hchain := forall₂_comp (forall₂_comp h hrows.flip) (hs.reads_view snapshotsKey)
  rw [List.forall₂_map_left_iff] at hchain
  refine ((List.forall₂_and_left (p := SnapshotCall.JsonState) _ _).mpr ⟨hjson, hchain⟩).imp ?_
  rintro d e' ⟨hd, row, ⟨e, hwrote, hrow⟩, hread⟩
  exact shows_of_wrote rfl hd hwrote hrow hread

/-- What the search finds, in terms of the calls that were written. -/
theorem load_iff {calls before after : List (SnapshotCall F)}
    (hjson : ∀ d ∈ calls, d.JsonState) (hcalls : calls = before ++ call :: after)
    (hlast : ∀ d ∈ after, d.agentId ≠ call.agentId) {db : Database} {es : List (DomainEvent F)}
    (hs : Stored H db es) (h : List.Forall₂ (Wrote H) (calls.map .writeAgentSnapshot) es) :
    (∃ state, loadAgentLatestSnapshot H db call.agentId none = .ok state ∧
      (PyValue.dict call.state).same state) ↔ after.length < 200 := by
  have hshows := shows_view hjson hs h
  rw [hcalls] at hshows
  rw [← searchSnapshot_iff hshows hlast 200]
  have htail := Ordering.getPartitionTail_view (F := F) hs snapshotsKey 200
  rw [loadAgentLatestSnapshot, show (200 : Int) = ((200 : Nat) : Int) from rfl, htail]
  show (∃ state, searchSnapshot _ _ _ = _ ∧ _) ↔ _
  rw [List.reverse_reverse]

variable (P F H) in
/-- **Main theorem.** In a run that writes snapshots only, an agent's latest snapshot is
found exactly when fewer than 200 snapshots of others were written after it. -/
theorem latest_found_iff (run : List (FabricStep P F))
    (h : (fabrics P F H).Admits (fun _ a => a.SnapshotsOnly) run)
    (before after : List (FabricCall F)) (call : SnapshotCall F)
    (hwritten : ((fabrics P F H).after run).written =
      before ++ .writeAgentSnapshot call :: after)
    (hlast : ∀ d, FabricCall.writeAgentSnapshot d ∈ after → d.agentId ≠ call.agentId) :
    (∃ state, loadAgentLatestSnapshot H ((fabrics P F H).after run).world.db call.agentId none =
        .ok state ∧ (PyValue.dict call.state).same state) ↔ after.length < 200 := by
  obtain ⟨calls, hcalls, hjson⟩ := exists_snapshots (onlySnapshots_after H run h).written
  have hwrote := written_wrote H run
  rw [hcalls] at hwritten hwrote
  obtain ⟨before', rest, hsplit, rfl, hrest⟩ := List.map_eq_append_iff.mp hwritten
  obtain ⟨d, after', rfl, hd, rfl⟩ := List.map_eq_cons_iff.mp hrest
  obtain rfl : d = call := FabricCall.writeAgentSnapshot.inj hd
  rw [List.length_map]
  exact load_iff hjson hsplit (fun d hd => hlast d (List.mem_map_of_mem hd))
    (fabrics_safe H run).stored hwrote

end Runs

/-! ### One process that writes snapshots -/

/-- A fabric that takes snapshots: their trust level is not below its threshold. -/
def PiSemanticEventFabric.TakesSnapshots (fabric : PiSemanticEventFabric F) : Prop :=
  fabric.below (FloatCodec.read ['1', '.', '0']) fabric.minTrustThreshold = false

omit [FloatCodec F] [SetText F] in
theorem SnapshotCall.json_payload (h : call.JsonState)
    (stateSignature : String) : (PyValue.dict (call.payload stateSignature)).json = true := by
  have hplain : (call.payload stateSignature).all (fun p => p.1.plain) = true := by
    simp [SnapshotCall.payload, Key.plain]
  rw [PyValue.json, hplain, decide_eq_true (call.nodup_payload stateSignature)]
  simp only [SnapshotCall.payload, jsonItems, PyValue.json, joinSurrogates_ofString, decide_true,
    Bool.and_true, Bool.true_and]
  exact h

variable (H) in
/-- A snapshot of a JSON state can be written. -/
theorem SnapshotCall.exists_appendCall (h : call.JsonState) :
    ∃ semantic append text, call.semantic H = .ok semantic ∧ semantic.parents = [] ∧
      semantic.trustLevel = FloatCodec.read ['1', '.', '0'] ∧
      semantic.appendCall H = .ok append ∧ append.partitionKey = snapshotsKey ∧
      canonicalJson append.payload.value = .ok text := by
  obtain ⟨stateJson, hstate⟩ := dumps_json h .spaced
  obtain ⟨semantic, hsemantic, hparents, htrust, hstored, hstate⟩ : ∃ s, call.semantic H = .ok s ∧
      s.parents = [] ∧ s.trustLevel = FloatCodec.read ['1', '.', '0'] ∧
      s.partitionKey = snapshotsKey ∧ s.payload = call.payload (H.hex stateJson) := by
    obtain ⟨c, hc, htext⟩ := bind_ok hstate
    simp only [SnapshotCall.semantic, hc, htext, bind, Except.bind]
    exact ⟨_, rfl, rfl, rfl, rfl, rfl⟩
  have hpayload : (PyValue.dict semantic.payload).json = true := by
    rw [hstate]
    exact SnapshotCall.json_payload h (H.hex stateJson)
  have hrepro : (semantic.reproInput).json = true := by
    have hkeys : (decide ([Key.str (ofString "payload"), .str (ofString "execution_lineage"),
      .str (ofString "semantic_intent"), .str (ofString "schema_version")].Nodup)) = true := by
      decide
    simp only [SemanticCall.reproInput, PyValue.json, List.map_cons, List.map_nil, hkeys,
      List.all_cons, List.all_nil, Key.plain, joinSurrogates_ofString, decide_true, jsonItems,
      stringList, jsonElems_strings, Bool.and_true, Bool.true_and]
    exact hpayload
  obtain ⟨reproJson, hreproJson⟩ := dumps_json hrepro .spaced
  obtain ⟨m, hm⟩ : ∃ m, semantic.metadata H = .ok m := by
    obtain ⟨c, hc, htext⟩ := bind_ok hreproJson
    simp only [SemanticCall.metadata, hc, htext, bind, Except.bind]
    exact ⟨_, rfl⟩
  have hjson : (semanticPayload semantic m).value.json = true := by
    simp only [PyValue.json, Bool.and_eq_true, decide_eq_true_eq, List.all_eq_true,
      jsonItems_iff] at hpayload
    simp only [semanticPayload, PyValue.json, Bool.and_eq_true, decide_eq_true_eq,
      List.all_eq_true, jsonItems_iff]
    exact ⟨⟨nodup_setItem _ _ hpayload.1.1, forall_setItem hpayload.1.2 rfl⟩,
      forall_setItem hpayload.2 (json_metadata m)⟩
  obtain ⟨text, htext⟩ := dumps_json hjson .compact
  have happend : ∃ append, semantic.appendCall H = .ok append ∧
      append.partitionKey = snapshotsKey ∧ append.payload = semanticPayload semantic m := by
    simp only [SemanticCall.appendCall, hm, bind, Except.bind]
    exact ⟨_, rfl, hstored, rfl⟩
  obtain ⟨append, happend, hkey, hpay⟩ := happend
  exact ⟨semantic, append, text, hsemantic, hparents, htrust, happend, hkey,
    by rw [hpay]; exact htext⟩

/-- A store of snapshots refuses none for a constraint: a taken id would stand at the
place of the new event. -/
theorem append_snapshot {w : World Unit F} (hw : Safe H w)
    (hkeys : ∀ e ∈ w.returned, e.header.partitionKey = snapshotsKey) {call : AppendCall F}
    (hkey : call.partitionKey = snapshotsKey) {text : String}
    (htext : canonicalJson call.payload.value = .ok text) :
    ∃ e, (append H w.db call).1 = .ok e ∧ e.header.partitionKey = snapshotsKey := by
  rcases append_cases hw call with ⟨e, hjson, -⟩ | ⟨json, -, hresult⟩ | ⟨json, -, hid, -⟩
  · rw [htext] at hjson
    cases hjson
  · exact ⟨_, hresult, hkey⟩
  · exfalso
    obtain ⟨e, he, hsame⟩ := List.mem_map.mp hid
    rw [eventId_of_mem hw he] at hsame
    obtain ⟨-, hplace⟩ := eventId_inj.mp hsame
    have hlinked := hw.stored.linked call.partitionKey
    have hnew := offset_event H call json hlinked rfl
    have hmem := mem_inPartition.mpr ⟨he, (hkeys e he).trans hkey.symm⟩
    have hbound : e.header.partitionOffset < _ := (hlinked.place_mem hmem).2
    have hoffset : e.header.partitionOffset = (call.event H json (headOf (inPartition
        call.partitionKey w.returned))).header.partitionOffset := hplace
    omega

/-- The process has written these snapshots and is idle. -/
structure WrittenAlone (H : Digest) (calls : List (SnapshotCall F)) (s : Fabrics Unit F) :
    Prop where
  idle : s.underway () = none
  written : s.written = calls.map .writeAgentSnapshot
  wired : Wired H s
  safe : Safe H s.world
  keys : ∀ e ∈ s.world.returned, e.header.partitionKey = snapshotsKey

/-- One snapshot more. -/
theorem WrittenAlone.step {s : Fabrics Unit F} (h : WrittenAlone H calls s)
    (hfabric : fabric.TakesSnapshots) (hcall : call.JsonState) :
    WrittenAlone H (calls ++ [call])
      (((FabricCall.writeAgentSnapshot call).steps () fabric 0).foldl (Fabrics.next H) s) := by
  obtain ⟨semantic, append, text, hsemantic, hparents, htrust, happend, hkey, htext⟩ :=
    SnapshotCall.exists_appendCall H hcall
  obtain ⟨e, hresult, he⟩ := append_snapshot h.safe h.keys hkey htext
  have hpending := h.wired.idle h.idle
  have hbegin : s.next H (.begin () fabric (.writeAgentSnapshot call)) =
      { s with underway :=
          Function.update s.underway () (some ⟨.writeAgentSnapshot call, semantic, []⟩) } := by
    have hbelow : fabric.below semantic.trustLevel fabric.minTrustThreshold = false := by
      rw [htrust]
      exact hfabric
    simp [Fabrics.next, h.idle, FabricCall.semantic, hsemantic, hbelow, hparents]
  have hread : (World.next H s.world (.read () append)).pending () =
      some ⟨append, text, readHead s.world.db append.partitionKey⟩ := by
    simp [World.next, hpending, htext]
  have hcommitted : committed H (World.next H s.world (.read () append)) (.transact ()) =
      [append] := by
    have hwrites : (atomically (writes H append text (readHead s.world.db append.partitionKey))
        s.world.db).1 = .ok e := by
      rw [← hresult, EventFabric.append, htext]
    simp only [committed, hread]
    simp [World.next, hpending, htext, hwrites]
  have hsteps : ((FabricCall.writeAgentSnapshot call).steps () fabric 0).foldl (Fabrics.next H) s =
      { world := s.world.finish () append (EventFabric.append H s.world.db append).1
          (EventFabric.append H s.world.db append).2
        underway := Function.update s.underway () none
        written := s.written ++ [.writeAgentSnapshot call] } := by
    simp only [FabricCall.steps, List.replicate_zero, List.nil_append, List.foldl_cons,
      List.foldl_nil, hbegin]
    simp [Fabrics.next, happend, hread, hcommitted, next_append H hpending]
  have hkept : ∀ (acts : List (FabricStep Unit F)) (s : Fabrics Unit F), Wired H s →
      Safe H s.world → Wired H (acts.foldl (Fabrics.next H) s) ∧
        Safe H (acts.foldl (Fabrics.next H) s).world := by
    intro acts
    induction acts with
    | nil => exact fun s hwired hsafe => ⟨hwired, hsafe⟩
    | cons a acts ih => exact fun s hwired hsafe => ih _ (hwired.next a) (safe_next hsafe a)
  obtain ⟨hwired, hsafe⟩ := hkept _ s h.wired h.safe
  refine ⟨?_, ?_, hwired, hsafe, ?_⟩
  · rw [hsteps]
    exact Function.update_self () none s.underway
  · rw [hsteps, List.map_append, h.written]
    rfl
  · rw [hsteps, hresult]
    simp only [returned_finish_ok]
    exact List.forall_mem_append.mpr ⟨h.keys, List.forall_mem_singleton.mpr he⟩

variable (F) in
/-- The steps of one process that writes one snapshot after another. -/
def snapshotSteps (fabric : PiSemanticEventFabric F) (calls : List (SnapshotCall F)) :
    List (FabricStep Unit F) :=
  calls.flatMap fun call => (FabricCall.writeAgentSnapshot call).steps () fabric 0

variable (H) in
theorem written_alone (hfabric : fabric.TakesSnapshots) (hcalls : ∀ d ∈ calls, d.JsonState) :
    WrittenAlone H calls ((fabrics Unit F H).after (snapshotSteps F fabric calls)) := by
  induction calls using List.reverseRecOn with
  | nil => exact ⟨rfl, rfl, wired_start, safe_start H, fun _ h => nomatch h⟩
  | append_singleton calls call ih =>
    obtain ⟨hrest, hcall⟩ := List.forall_mem_append.mp hcalls
    have hstep := (ih hrest).step hfabric (List.forall_mem_singleton.mp hcall)
    rw [snapshotSteps, List.flatMap_append, System.after, List.foldl_append]
    rw [List.flatMap_singleton]
    exact hstep

/-! ### Two agents -/

def sampleSnapshot (agentId : String) : SnapshotCall Literal where
  agentId := agentId
  state := [(.str (ofString "step"), .int 1)]
  wellFormed := rfl
  correlationId := "c"
  tenantId := "t"
  actorId := "u"
  moment := ⟨"09:00", "09:00", "09:00"⟩

theorem sampleSnapshot_json (agentId : String) : (sampleSnapshot agentId).JsonState := by
  show (PyValue.dict [(.str (ofString "step"), .int 1)] : PyValue Literal).json = true
  decide

/-- A snapshot of one agent and so many of another behind it. -/
def twoAgents (others : Nat) : List (SnapshotCall Literal) :=
  sampleSnapshot "a" :: List.replicate others (sampleSnapshot "b")

theorem twoAgents_json {others : Nat} : ∀ d ∈ twoAgents others, d.JsonState := by
  refine List.forall_mem_cons.mpr ⟨sampleSnapshot_json "a", fun d hd => ?_⟩
  rw [List.eq_of_mem_replicate hd]
  exact sampleSnapshot_json "b"

theorem twoAgents_written (others : Nat) :
    WrittenAlone prefixDigest (twoAgents others) ((fabrics Unit Literal prefixDigest).after
      (snapshotSteps Literal openFabric (twoAgents others))) := by
  have hopen : openFabric.TakesSnapshots := rfl
  exact written_alone prefixDigest hopen twoAgents_json

/-- With one snapshot of another agent behind it, a snapshot is found. -/
theorem latest_found_iff_two :
    ∃ state, loadAgentLatestSnapshot prefixDigest ((fabrics Unit Literal prefixDigest).after
        (snapshotSteps Literal openFabric (twoAgents 1))).world.db "a" none = .ok state ∧
      (PyValue.dict (sampleSnapshot "a").state).same state := by
  have honly : ∀ a ∈ snapshotSteps Literal openFabric (twoAgents 1), a.SnapshotsOnly := by
    simp [twoAgents, snapshotSteps, FabricCall.steps, FabricStep.SnapshotsOnly,
      sampleSnapshot_json]
  refine (latest_found_iff Unit Literal prefixDigest _ ?_ []
    [.writeAgentSnapshot (sampleSnapshot "b")] (sampleSnapshot "a") (twoAgents_written 1).written
    ?_).mpr (by decide)
  · rintro before a behind heq
    exact honly a (by simp [heq])
  · intro d hd
    obtain rfl : d = sampleSnapshot "b" := by simpa using hd
    decide

/-- With 200 of them it is not. -/
theorem latest_not_found :
    ¬ ∃ state, loadAgentLatestSnapshot prefixDigest ((fabrics Unit Literal prefixDigest).after
        (snapshotSteps Literal openFabric (twoAgents 200))).world.db "a" none = .ok state ∧
      (PyValue.dict (sampleSnapshot "a").state).same state := by
  have hwrote := written_wrote prefixDigest (snapshotSteps Literal openFabric (twoAgents 200))
  rw [(twoAgents_written 200).written] at hwrote
  have hlast : ∀ d ∈ List.replicate 200 (sampleSnapshot "b"),
      d.agentId ≠ (sampleSnapshot "a").agentId := by
    intro d hd
    rw [List.eq_of_mem_replicate hd]
    decide
  have hsplit : twoAgents 200 =
      [] ++ sampleSnapshot "a" :: List.replicate 200 (sampleSnapshot "b") := rfl
  have hload := load_iff twoAgents_json hsplit hlast (fabrics_safe prefixDigest _).stored hwrote
  rw [List.length_replicate] at hload
  exact fun hfound => absurd (hload.mp hfound) (by decide)

end PiPlatform.EventFabric
