import PiPlatform.EventFabric.Bus.Reproducible

/-! The execution engine and its replay ledgers.

A ledger chains its events and numbers them from one; closing it moves it among the completed
ones, where it is replayed. Two things keep a closed ledger from being final. `open_ledger` looks
at the active ledgers only, so an id can be used again and the next close puts the new ledger in
the place of the old. And `to_sequence or self.last_sequence` takes the bound 0 for no bound at
all. So a run keeps its closed ledgers exactly when no id is closed again (unless both ledgers
are empty), and there a slice is exact but where it ends at 0 and an event lies behind its start
(`closed_ledgers_final_iff`). -/
namespace PiPlatform.Interoperability.Execution

open Library Library.Json Library.Python
open EventFabric (Digest prefixDigest)

variable {F : Type}

/-! ### Events -/

/-- The values `event_type` may have. -/
def eventTypes : List String :=
  ["ARTIFACT_RECEIVED", "VALIDATION_STARTED", "VALIDATION_PASSED", "VALIDATION_FAILED",
    "VIOLATION_DETECTED", "REPLAY_EXECUTED", "REPLAY_MISMATCH", "POLICY_LOADED",
    "POLICY_VIOLATION", "SCHEMA_REGISTERED", "SCHEMA_MIGRATION", "BLAST_RADIUS_COMPUTED",
    "MUTATION_AUTHORIZED", "MUTATION_REJECTED", "WORKER_SPAWNED", "WORKER_COMPLETED"]

structure EventRecord (F : Type) where
  eventId : String
  eventType : String
  payload : Dict Text (PyValue F)
  sequenceNumber : Int
  previousHash : String
  eventHash : String
  emittedBy : String
  emittedAt : String
  replayEvidence : List String

inductive ExecutionError where
  | valueError (message : String)
  /-- pydantic's, of an event type that is none. -/
  | validationError
  /-- A payload that JSON does not write. -/
  | payload (e : PyError)
  deriving DecidableEq

section Hashing
variable [FloatCodec F] [SetText F] (H : Digest)

def canonicalEventPayload (payload : Dict Text (PyValue F)) : Except PyError String :=
  dumps .compact (.dict (payload.items.map fun p => (.str p.1, p.2)))

/-- `EventRecord.compute_hash` -/
def EventRecord.computeHash (e : EventRecord F) : Except PyError String := do
  let payloadBytes ← canonicalEventPayload e.payload
  let data : PyValue F := .dict
    [(.str (ofString "event_type"), .str (ofString e.eventType)),
      (.str (ofString "sequence_number"), .int e.sequenceNumber),
      (.str (ofString "previous_hash"), .str (ofString e.previousHash)),
      (.str (ofString "payload"), .str (ofString payloadBytes)),
      (.str (ofString "emitted_by"), .str (ofString e.emittedBy))]
  return H.hex (← dumps .compact data)

/-! ### Ledgers -/

structure ReplayLedger (F : Type) where
  ledgerId : String
  events : List (EventRecord F)
  ledgerHash : String
  firstSequence : Int
  lastSequence : Int
  eventCount : Nat
  closedAt : Option String

namespace ReplayLedger

/-- `_rehash` -/
def rehash (ledger : ReplayLedger F) : ReplayLedger F :=
  { ledger with ledgerHash := H.hex (String.join (ledger.events.map EventRecord.eventHash)) }

/-- `append`: the ledger afterwards, and the event as it stands in it. -/
def append (ledger : ReplayLedger F) (event : EventRecord F) :
    Except PyError (ReplayLedger F × EventRecord F) := do
  let prevHash := (ledger.events.getLast?.map EventRecord.eventHash).getD ""
  let seq := ledger.lastSequence + 1
  let linkedEvent : EventRecord F :=
    { event with sequenceNumber := seq, previousHash := prevHash, eventHash := "" }
  let eventHash ← linkedEvent.computeHash H
  let linkedEvent := { linkedEvent with eventHash := eventHash }
  let events := ledger.events ++ [linkedEvent]
  let appended := { ledger with events, lastSequence := seq, eventCount := events.length }
  return (appended.rehash H, linkedEvent)

/-- The loop of `verify_integrity`. -/
def verifyFrom : Int → String → List (EventRecord F) → Except PyError Bool
  | _, _, [] => .ok true
  | expectedSeq, runningHash, e :: es =>
    if e.sequenceNumber ≠ expectedSeq then .ok false
    else if e.previousHash ≠ runningHash then .ok false
    else do
      let recomputed ← e.computeHash H
      if e.eventHash ≠ recomputed then return false
      verifyFrom (expectedSeq + 1) e.eventHash es

def verifyIntegrity (ledger : ReplayLedger F) : Except PyError Bool :=
  verifyFrom H ledger.firstSequence "" ledger.events

end ReplayLedger

end Hashing

/-- `bound or default` -/
def boundOr (bound : Option Int) (default : Int) : Int :=
  match bound with
  | some n => if n = 0 then default else n
  | none => default

def ReplayLedger.replayEvents (ledger : ReplayLedger F) (fromSequence toSequence : Option Int) :
    List (EventRecord F) :=
  let start := boundOr fromSequence ledger.firstSequence
  let finish := boundOr toSequence ledger.lastSequence
  ledger.events.filter fun e => start ≤ e.sequenceNumber ∧ e.sequenceNumber ≤ finish

/-! ### The engine -/

structure ExecutionEngine (F : Type) where
  activeLedgers : Dict String (ReplayLedger F)
  completedLedgers : Dict String (ReplayLedger F)
  maxEventsPerLedger : Nat
  maxLedgerCount : Nat

/-- The arguments of `emit`, and the clock. -/
structure Emission (F : Type) where
  ledgerId : String
  eventType : String
  payload : Dict Text (PyValue F)
  emittedBy : String
  replayEvidence : List String
  emittedAt : String

def notOpen (ledgerId : String) : ExecutionError :=
  .valueError ("Ledger " ++ ledgerId ++ " not open")

namespace ExecutionEngine

/-- An empty ledger, unless the id is open or there are too many. -/
def openLedger (engine : ExecutionEngine F) (ledgerId : String) :
    Except ExecutionError (ReplayLedger F × ExecutionEngine F) :=
  if (engine.activeLedgers.get? ledgerId).isSome then
    .error (.valueError ("Ledger " ++ ledgerId ++ " already open"))
  else if engine.maxLedgerCount ≤ engine.activeLedgers.items.length then
    .error (.valueError "Max ledger count exceeded")
  else
    let ledger : ReplayLedger F := ⟨ledgerId, [], "", 1, 0, 0, none⟩
    .ok (ledger, { engine with activeLedgers := engine.activeLedgers.set ledgerId ledger })

section Emit
variable [FloatCodec F] [SetText F] (H : Digest)

/-- The next event of an open ledger, within its bound. -/
def emit (engine : ExecutionEngine F) (e : Emission F) :
    Except ExecutionError (EventRecord F × ExecutionEngine F) :=
  match engine.activeLedgers.get? e.ledgerId with
  | none => .error (notOpen e.ledgerId)
  | some ledger =>
    if engine.maxEventsPerLedger ≤ ledger.eventCount then
      .error (.valueError ("Ledger " ++ e.ledgerId ++ " event limit exceeded"))
    else if e.eventType ∉ eventTypes then .error .validationError
    else
      let event : EventRecord F :=
        { eventId := "evt_" ++ e.ledgerId ++ "_" ++ toString (ledger.lastSequence + 1)
          eventType := e.eventType
          payload := e.payload
          sequenceNumber := 0
          previousHash := ""
          eventHash := ""
          emittedBy := e.emittedBy
          emittedAt := e.emittedAt
          replayEvidence := e.replayEvidence }
      match ledger.append H event with
      | .error e => .error (.payload e)
      | .ok (ledger', linkedEvent) =>
        .ok (linkedEvent,
          { engine with activeLedgers := engine.activeLedgers.set e.ledgerId ledger' })

def verifyLedger (engine : ExecutionEngine F) (ledgerId : String) : Except PyError Bool :=
  match engine.completedLedgers.get? ledgerId with
  | none => .ok false
  | some ledger => ledger.verifyIntegrity H

end Emit

/-- The ledger is stamped and moved to the completed ones. -/
def closeLedger (engine : ExecutionEngine F) (ledgerId closedAt : String) :
    Except ExecutionError (ReplayLedger F × ExecutionEngine F) :=
  match engine.activeLedgers.get? ledgerId with
  | none => .error (notOpen ledgerId)
  | some ledger =>
    let closed := { ledger with closedAt := some closedAt }
    .ok (closed,
      { engine with
        activeLedgers := engine.activeLedgers.erase ledgerId
        completedLedgers := engine.completedLedgers.set ledgerId closed })

def replayLedger (engine : ExecutionEngine F) (ledgerId : String)
    (fromSequence toSequence : Option Int) : Except ExecutionError (List (EventRecord F)) :=
  match engine.completedLedgers.get? ledgerId with
  | none => .error (.valueError ("Ledger " ++ ledgerId ++ " not found"))
  | some ledger => .ok (ledger.replayEvents fromSequence toSequence)

end ExecutionEngine

/-! ### Runs -/

inductive Call (F : Type) where
  | openLedger (ledgerId : String)
  | emit (emission : Emission F)
  | closeLedger (ledgerId closedAt : String)

/-- A close that returned, and what had been emitted into the ledger by then. -/
structure Closing (F : Type) where
  ledgerId : String
  emitted : List (EventRecord F)

/-- The engine, with what its calls have returned so far. -/
structure History (F : Type) where
  engine : ExecutionEngine F
  emitted : List (String × EventRecord F)
  closings : List (Closing F)

/-- The events emitted into a ledger, over all the times it was open. -/
def History.emittedTo (s : History F) (ledgerId : String) : List (EventRecord F) :=
  (s.emitted.filter fun p => p.1 = ledgerId).map Prod.snd

theorem emittedTo_snoc (s : History F) (engine : ExecutionEngine F) (ledgerId id : String)
    (event : EventRecord F) :
    History.emittedTo { s with engine, emitted := s.emitted ++ [(ledgerId, event)] } id =
      s.emittedTo id ++ if ledgerId = id then [event] else [] := by
  by_cases hid : ledgerId = id <;> simp [History.emittedTo, List.filter_append, hid]

section Runs
variable [FloatCodec F] [SetText F] (H : Digest) (maxEvents maxLedgers : Nat)

def History.step (s : History F) : Call F → History F
  | .openLedger ledgerId =>
    match s.engine.openLedger ledgerId with
    | .error _ => s
    | .ok (_, engine) => { s with engine }
  | .emit emission =>
    match s.engine.emit H emission with
    | .error _ => s
    | .ok (event, engine) =>
      { s with engine, emitted := s.emitted ++ [(emission.ledgerId, event)] }
  | .closeLedger ledgerId closedAt =>
    match s.engine.closeLedger ledgerId closedAt with
    | .error _ => s
    | .ok (_, engine) =>
      { s with engine, closings := s.closings ++ [⟨ledgerId, s.emittedTo ledgerId⟩] }

/-- An engine from its first call on. -/
def executions : System (History F) (Call F) where
  initial := ⟨⟨.empty, .empty, maxEvents, maxLedgers⟩, [], []⟩
  step := History.step H

end Runs

/-- The events of a list from `a` to `b`. -/
def slice (events : List (EventRecord F)) (a b : Int) : List (EventRecord F) :=
  events.filter fun e => a ≤ e.sequenceNumber ∧ e.sequenceNumber ≤ b

/-- A slice that ends at 0 has nothing to leave out. -/
def Told (events : List (EventRecord F)) (a b : Int) : Prop :=
  b ≠ 0 ∨ ∀ e ∈ events, e.sequenceNumber < a

/-- An id that was closed is not closed again; where both ledgers are empty it does not show. -/
def ClosedOnce (s : History F) : Call F → Prop
  | .closeLedger ledgerId _ =>
    ∀ ledger completed, s.engine.activeLedgers.get? ledgerId = some ledger →
      s.engine.completedLedgers.get? ledgerId = some completed →
        ledger.events = [] ∧ completed.events = []
  | _ => True

/-! ### Intact ledgers -/

/-- The events of a ledger as a chain. -/
def links (F : Type) : Links (EventRecord F) String where
  place := EventRecord.sequenceNumber
  previous := EventRecord.previousHash
  digest := EventRecord.eventHash

section Intact
variable [FloatCodec F] [SetText F] (H : Digest)

/-- The events are numbered from one, linked, and have their hashes. -/
structure Intact (ledger : ReplayLedger F) : Prop where
  first : ledger.firstSequence = 1
  last : ledger.lastSequence = ledger.events.length
  linked : (links F).Linked 1 "" ledger.events
  hashed : ∀ e ∈ ledger.events, e.computeHash H = .ok e.eventHash

variable {H} {ledger ledger' : ReplayLedger F} {event linkedEvent : EventRecord F}

theorem Intact.opened (ledgerId : String) :
    Intact H (⟨ledgerId, [], "", 1, 0, 0, none⟩ : ReplayLedger F) :=
  ⟨rfl, rfl, trivial, fun _ he => by cases he⟩

theorem Intact.closed (h : Intact H ledger) (closedAt : Option String) :
    Intact H { ledger with closedAt } :=
  ⟨h.first, h.last, h.linked, h.hashed⟩

/-- What `append` does: one event more, at the next place, with the hash of the last before. -/
theorem Intact.append (h : Intact H ledger)
    (happend : ledger.append H event = .ok (ledger', linkedEvent)) :
    Intact H ledger' ∧ ledger'.events = ledger.events ++ [linkedEvent] := by
  obtain ⟨eventHash, hhash, hresult⟩ := bind_ok happend
  obtain ⟨rfl, rfl⟩ := Prod.ext_iff.mp (Except.ok.inj hresult)
  refine ⟨⟨h.first, ?_, ?_, ?_⟩, rfl⟩
  · simp [ReplayLedger.rehash, h.last]
  · refine (links F).linked_snoc.mpr ⟨h.linked, ?_, rfl⟩
    simp [links, h.last]
    omega
  · intro e he
    rcases List.mem_append.mp he with he | he
    · exact h.hashed e he
    · obtain rfl := List.mem_singleton.mp he
      exact hhash

theorem verifyFrom_linked {n : Int} {d : String} {events : List (EventRecord F)}
    (hlinked : (links F).Linked n d events)
    (hhashed : ∀ e ∈ events, e.computeHash H = .ok e.eventHash) :
    ReplayLedger.verifyFrom H n d events = .ok true := by
  induction events generalizing n d with
  | nil => rfl
  | cons e es ih =>
    obtain ⟨hplace, hprevious, hrest⟩ := hlinked
    have hes : ReplayLedger.verifyFrom H (n + 1) e.eventHash es = .ok true :=
      ih hrest fun e' he' => hhashed e' (List.mem_cons_of_mem e he')
    have hseq : ¬ e.sequenceNumber ≠ n := not_not.mpr hplace
    have hprev : ¬ e.previousHash ≠ d := not_not.mpr hprevious
    rw [ReplayLedger.verifyFrom, if_neg hseq, if_neg hprev, hhashed e List.mem_cons_self]
    simpa [bind, Except.bind] using hes

theorem Intact.verifies (h : Intact H ledger) : ledger.verifyIntegrity H = .ok true := by
  rw [ReplayLedger.verifyIntegrity, h.first]
  exact verifyFrom_linked h.linked h.hashed

theorem Intact.place_mem (h : Intact H ledger) {e : EventRecord F} (he : e ∈ ledger.events) :
    1 ≤ e.sequenceNumber ∧ e.sequenceNumber ≤ ledger.events.length := by
  have hplace := h.linked.place_mem he
  exact ⟨hplace.1, by have := hplace.2; simp only [links] at this; omega⟩

theorem Intact.slice_all (h : Intact H ledger) {n : Int} (hn : ledger.events.length ≤ n) :
    slice ledger.events 1 n = ledger.events := by
  rw [slice, List.filter_eq_self]
  intro e he
  have hplace := h.place_mem he
  exact decide_eq_true ⟨hplace.1, by omega⟩

/-- A slice is replayed as it is, but where it ends at 0: then everything from `a` on is. -/
theorem Intact.replay_iff (h : Intact H ledger) (a b : Int) :
    ledger.replayEvents (some a) (some b) = slice ledger.events a b ↔ Told ledger.events a b := by
  have hstart : ∀ e ∈ ledger.events,
      boundOr (some a) ledger.firstSequence ≤ e.sequenceNumber ↔ a ≤ e.sequenceNumber := by
    intro e he
    have hplace := (h.place_mem he).1
    rw [h.first, boundOr]
    split <;> omega
  rw [ReplayLedger.replayEvents, slice]
  by_cases hb : b = 0
  · subst hb
    have hnone : ledger.events.filter (fun e => decide (a ≤ e.sequenceNumber ∧
        e.sequenceNumber ≤ 0)) = [] := by
      rw [List.filter_eq_nil_iff]
      intro e he hbounds
      have hplace := (h.place_mem he).1
      have := (of_decide_eq_true hbounds).2
      omega
    rw [hnone, List.filter_eq_nil_iff, Told, or_iff_right (not_not.mpr rfl)]
    refine forall₂_congr fun e he => ?_
    have hfinish : e.sequenceNumber ≤ boundOr (some 0) ledger.lastSequence := by
      rw [h.last]
      exact (h.place_mem he).2
    rw [decide_eq_true_eq, hstart e he, and_iff_left hfinish, not_le]
  · refine iff_of_true (List.filter_congr fun e he => decide_eq_decide.mpr ?_) (.inl hb)
    rw [hstart e he, boundOr, if_neg hb]

end Intact

/-! ### Final ledgers -/

section Finality
variable [FloatCodec F] [SetText F] (H : Digest) (maxEvents maxLedgers : Nat)

/-- A closed ledger verifies, and is replayed as it was closed but for the slices that end
at 0. -/
def Final (s : History F) (c : Closing F) : Prop :=
  s.engine.verifyLedger H c.ledgerId = .ok true ∧
    ∀ a b, s.engine.replayLedger c.ledgerId (some a) (some b) = .ok (slice c.emitted a b) ↔
      Told c.emitted a b

/-- Where no id is closed again: a ledger is what was emitted into it, the closed part of it
in `completed_ledgers`. -/
structure Sound (s : History F) : Prop where
  active : ∀ id ledger, s.engine.activeLedgers.get? id = some ledger → Intact H ledger
  completed : ∀ id ledger, s.engine.completedLedgers.get? id = some ledger → Intact H ledger
  emitted : ∀ id, s.emittedTo id =
    (s.engine.completedLedgers.get? id).elim [] ReplayLedger.events ++
      (s.engine.activeLedgers.get? id).elim [] ReplayLedger.events
  closings : ∀ c ∈ s.closings, ∃ ledger,
    s.engine.completedLedgers.get? c.ledgerId = some ledger ∧ c.emitted = ledger.events
  closed : ∀ id ledger, s.engine.completedLedgers.get? id = some ledger →
    ∃ c ∈ s.closings, c.ledgerId = id

variable {H} {s : History F}

theorem Sound.final (h : Sound H s) {c : Closing F} (hc : c ∈ s.closings) : Final H s c := by
  obtain ⟨ledger, hledger, hemitted⟩ := h.closings c hc
  have hintact := h.completed _ _ hledger
  refine ⟨?_, fun a b => ?_⟩
  · rw [ExecutionEngine.verifyLedger, hledger]
    exact hintact.verifies
  · rw [ExecutionEngine.replayLedger, hledger, hemitted, ← hintact.replay_iff]
    exact ⟨Except.ok.inj, congrArg Except.ok⟩

theorem Sound.initial :
    Sound H (executions (F := F) H maxEvents maxLedgers).initial where
  active _ _ h := by cases h
  completed _ _ h := by cases h
  emitted _ := rfl
  closings _ h := by cases h
  closed _ _ h := by cases h

theorem Sound.openLedger (h : Sound H s) (ledgerId : String) :
    Sound H (s.step H (.openLedger ledgerId)) := by
  simp only [History.step, ExecutionEngine.openLedger]
  split_ifs with hopen hcount
  · exact h
  · exact h
  · have hnone : s.engine.activeLedgers.get? ledgerId = none := by simpa using hopen
    refine ⟨fun id ledger hledger => ?_, h.completed, fun id => ?_, h.closings, h.closed⟩
    · rw [Dict.get?_set] at hledger
      split_ifs at hledger with hid
      · obtain rfl := Option.some.inj hledger
        exact .opened ledgerId
      · exact h.active id ledger hledger
    · have hemitted := h.emitted id
      rw [Dict.get?_set]
      split_ifs with hid
      · rw [← hid, hnone] at hemitted
        rw [← hid]
        exact hemitted
      · exact hemitted

theorem Sound.emit (h : Sound H s) (emission : Emission F) :
    Sound H (s.step H (.emit emission)) := by
  simp only [History.step]
  split
  · exact h
  next event engine hemit =>
    rw [ExecutionEngine.emit] at hemit
    cases hactive : s.engine.activeLedgers.get? emission.ledgerId with
    | none => simp [hactive] at hemit
    | some ledger =>
      simp only [hactive] at hemit
      split_ifs at hemit with hlimit htype
      split at hemit
      · cases hemit
      next ledger' linkedEvent happend =>
        obtain ⟨rfl, rfl⟩ := Prod.ext_iff.mp (Except.ok.inj hemit)
        obtain ⟨hintact, hevents⟩ := (h.active _ _ hactive).append happend
        refine ⟨fun id l hl => ?_, h.completed, fun id => ?_, h.closings, h.closed⟩
        · rw [Dict.get?_set] at hl
          split_ifs at hl with hid
          · obtain rfl := Option.some.inj hl
            exact hintact
          · exact h.active id l hl
        · rw [emittedTo_snoc, h.emitted id, Dict.get?_set]
          split_ifs with hid
          · subst hid
            rw [hactive, Option.elim_some, Option.elim_some, hevents, List.append_assoc]
          · rw [List.append_nil]

theorem closeLedger_closed {ledger : ReplayLedger F} {ledgerId closedAt : String}
    (hactive : s.engine.activeLedgers.get? ledgerId = some ledger) :
    s.step H (.closeLedger ledgerId closedAt) =
      { s with
        engine :=
          { s.engine with
            activeLedgers := s.engine.activeLedgers.erase ledgerId
            completedLedgers :=
              s.engine.completedLedgers.set ledgerId { ledger with closedAt := some closedAt } }
        closings := s.closings ++ [⟨ledgerId, s.emittedTo ledgerId⟩] } := by
  rw [History.step, ExecutionEngine.closeLedger, hactive]

theorem Sound.closeLedger (h : Sound H s) {ledgerId closedAt : String}
    (honce : ClosedOnce s (.closeLedger ledgerId closedAt)) :
    Sound H (s.step H (.closeLedger ledgerId closedAt)) := by
  cases hactive : s.engine.activeLedgers.get? ledgerId with
  | none =>
    rw [History.step, ExecutionEngine.closeLedger, hactive]
    exact h
  | some ledger =>
    rw [closeLedger_closed hactive]
    have hemptied : ∀ completed, s.engine.completedLedgers.get? ledgerId = some completed →
        ledger.events = [] ∧ completed.events = [] := fun completed =>
          honce ledger completed hactive
    -- whatever was closed under the id before was empty, and so is what replaces it
    have hemitted : s.emittedTo ledgerId = ledger.events := by
      rw [h.emitted ledgerId, hactive]
      cases hcompleted : s.engine.completedLedgers.get? ledgerId with
      | none => rfl
      | some completed => rw [Option.elim_some, (hemptied completed hcompleted).2]; rfl
    refine ⟨fun id l hl => ?_, fun id l hl => ?_, fun id => ?_, fun c hc => ?_, fun id l hl => ?_⟩
    · rw [Dict.get?_erase] at hl
      split_ifs at hl with hid
      exact h.active id l hl
    · rw [Dict.get?_set] at hl
      split_ifs at hl with hid
      · obtain rfl := Option.some.inj hl
        exact (h.active _ _ hactive).closed _
      · exact h.completed id l hl
    · rw [Dict.get?_set, Dict.get?_erase]
      split_ifs with hid
      · subst hid
        rw [Option.elim_some, Option.elim_none, List.append_nil]
        exact hemitted
      · exact h.emitted id
    · rw [Dict.get?_set]
      rcases List.mem_append.mp hc with hc | hc
      · obtain ⟨completed, hcompleted, hc⟩ := h.closings c hc
        split_ifs with hid
        · have hempty := hemptied completed (hid ▸ hcompleted)
          exact ⟨_, rfl, by rw [hc, hempty.2, hempty.1]⟩
        · exact ⟨completed, hcompleted, hc⟩
      · obtain rfl := List.mem_singleton.mp hc
        exact ⟨_, if_pos rfl, hemitted⟩
    · rw [Dict.get?_set] at hl
      split_ifs at hl with hid
      · exact ⟨_, List.mem_append_right _ (List.mem_singleton_self _), hid⟩
      · obtain ⟨c, hc, hcid⟩ := h.closed id l hl
        exact ⟨c, List.mem_append_left _ hc, hcid⟩

theorem Sound.step (h : Sound H s) {call : Call F} (honce : ClosedOnce s call) :
    Sound H (s.step H call) := by
  cases call with
  | openLedger ledgerId => exact h.openLedger ledgerId
  | emit emission => exact h.emit emission
  | closeLedger ledgerId closedAt => exact h.closeLedger honce

/-- After another close of an id there is a slice that one of the two closes did not have. -/
theorem Sound.not_final (h : Sound H s) {call : Call F} (honce : ¬ ClosedOnce s call) :
    ¬ ∀ c ∈ (s.step H call).closings, Final H (s.step H call) c := by
  cases call with
  | openLedger ledgerId | emit emission => exact absurd trivial honce
  | closeLedger ledgerId closedAt =>
    intro hfinal
    refine honce fun ledger completed hactive hcompleted => ?_
    rw [closeLedger_closed hactive] at hfinal
    have hledger := h.active _ _ hactive
    have hbefore := h.completed _ _ hcompleted
    obtain ⟨c, hc, hid⟩ := h.closed _ _ hcompleted
    have hemitted : c.emitted = completed.events := by
      obtain ⟨completed', hcompleted', hemitted⟩ := h.closings c hc
      rw [hid, hcompleted] at hcompleted'
      rw [hemitted, Option.some.inj hcompleted']
    let n : Int := completed.events.length + ledger.events.length + 1
    have hn : n ≠ 0 := by simp only [n]; omega
    have hreplayed : ledger.replayEvents (some 1) (some n) = ledger.events := by
      rw [(hledger.replay_iff 1 n).mpr (.inl hn)]
      exact hledger.slice_all (by simp only [n]; omega)
    -- what the earlier close would replay is what the later one does
    have hearlier : ledger.events = completed.events := by
      have hslice := ((hfinal c (List.mem_append_left _ hc)).2 1 n).mpr (.inl hn)
      rw [ExecutionEngine.replayLedger, hid, Dict.get?_set_self, hemitted] at hslice
      have hsame := Except.ok.inj hslice
      rw [hbefore.slice_all (by simp only [n]; omega)] at hsame
      exact hreplayed.symm.trans hsame
    have hlater : ledger.events = completed.events ++ ledger.events := by
      have hslice := ((hfinal ⟨ledgerId, s.emittedTo ledgerId⟩
        (List.mem_append_right _ (List.mem_singleton_self _))).2 1 n).mpr (.inl hn)
      rw [ExecutionEngine.replayLedger, Dict.get?_set_self, h.emitted ledgerId, hactive,
        hcompleted, Option.elim_some, Option.elim_some] at hslice
      have hsame := Except.ok.inj hslice
      have hboth : slice (completed.events ++ ledger.events) 1 n =
          completed.events ++ ledger.events := by
        have hfirst := hbefore.slice_all (n := n) (by simp only [n]; omega)
        have hsecond := hledger.slice_all (n := n) (by simp only [n]; omega)
        rw [slice] at hfirst hsecond ⊢
        rw [List.filter_append, hfirst, hsecond]
      rw [hboth] at hsame
      exact hreplayed.symm.trans hsame
    have hempty : completed.events = [] := by
      have hlength := congrArg List.length hlater
      rw [List.length_append] at hlength
      exact List.length_eq_zero_iff.mp (by omega)
    exact ⟨hearlier.trans hempty, hempty⟩

variable (H)

/-- In every state of a run each closed ledger is final, the slices that end at 0 apart,
exactly when no id is closed again. -/
theorem closed_ledgers_final_iff (calls : List (Call F)) :
    (executions H maxEvents maxLedgers).Always (fun s => ∀ c ∈ s.closings, Final H s c) calls ↔
      (executions H maxEvents maxLedgers).Admits ClosedOnce calls :=
  (executions H maxEvents maxLedgers).always_iff_admits ClosedOnce (Sound H) _
    (Sound.initial maxEvents maxLedgers) (fun _ _ honce h => h.step honce)
    (fun _ h _ hc => h.final hc) (fun _ _ h honce => h.not_final honce) calls

end Finality

/-! ### Slices that end at 0, and ids that are used again -/

def validation (ledgerId emittedAt : String) : Emission Literal :=
  ⟨ledgerId, "VALIDATION_STARTED", .empty, "validator", [], emittedAt⟩

/-- One event in a ledger that is then closed. -/
def closedWithOne : History Literal :=
  (executions prefixDigest 10000 128).after
    [.openLedger "run", .emit (validation "run" "09:00"), .closeLedger "run" "09:01"]

/-- No event has a number from 1 to 0, and one is replayed. -/
theorem replayed_past_zero :
    ¬ ∀ c ∈ closedWithOne.closings, ∀ a b,
      closedWithOne.engine.replayLedger c.ledgerId (some a) (some b) =
        .ok (slice c.emitted a b) := by
  have hevents : closedWithOne.closings.map (fun c =>
      ((closedWithOne.engine.replayLedger c.ledgerId (some 1) (some 0)).toOption.map List.length,
        (slice c.emitted 1 0).length)) = [(some 1, 0)] := by
    decide +kernel
  intro hexact
  obtain ⟨c, hc, hlengths⟩ := List.mem_map.mp (hevents ▸ List.mem_singleton_self _)
  rw [hexact c hc 1 0] at hlengths
  have hone := (Prod.ext_iff.mp hlengths).1
  have hnone := (Prod.ext_iff.mp hlengths).2
  rw [Except.toOption, Option.map_some] at hone
  exact absurd (hnone.symm.trans (Option.some.inj hone)) (by decide)

/-- The id used once more: of the event before the first close nothing is replayed. -/
example :
    let s := (executions prefixDigest 10000 128).after
      [.openLedger "run", .emit (validation "run" "09:00"), .closeLedger "run" "09:01",
        .openLedger "run", .closeLedger "run" "09:02"]
    s.closings.map (fun c =>
      ((s.engine.replayLedger c.ledgerId (some 1) (some 9)).toOption.map List.length,
        (slice c.emitted 1 9).length)) = [(some 0, 1), (some 0, 1)] := by
  decide +kernel

end PiPlatform.Interoperability.Execution
