import PiPlatform.EventFabric.Bus.Reproducible
import PiPlatform.Library.Python.Canonical

/-! The state hash of a trace.

The ledger is append-only. The hash of a trace leaves out the trace id and the clock, and
of each output that is JSON it takes the sorted text without the keys that are telemetry.

`state_hash_iff`: two traces, of two ledgers or of one, have one hash exactly when they
agree step by step (`StepsAgree`), where two outputs that are JSON agree as values, up to
telemetry and the order of their keys (`agree`). -/
namespace PiPlatform.AgentChain

open Library Library.Json Library.Python EventFabric

variable {F : Type}

/-! ### The ledger -/

structure ExecutionTrace (F : Type) where
  traceId : String
  nodeName : String
  inputPayloadHash : String
  llmSeed : Int
  llmTemperature : Fl F
  rawOutput : String
  isValidType : Bool
  isFinding : Bool
  /-- `timestamp.isoformat()` -/
  timestamp : String
  errorMessage : Option String
  tenantId : String

/-- A row of `execution_trace`. -/
structure TraceRow (F : Type) where
  id : Nat
  traceId : String
  nodeName : String
  inputPayloadHash : String
  llmSeed : Int
  llmTemperature : Fl F
  rawOutput : String
  isValidType : Int
  isFinding : Int
  timestamp : String
  errorMessage : Option String
  tenantId : String

/-- The rows, their ids ascending, and the last id handed out. -/
structure StateLedger (F : Type) where
  rows : List (TraceRow F)
  sequence : Nat
  ordered : (rows.map TraceRow.id).Pairwise (· < ·)
  bounded : ∀ r ∈ rows, r.id ≤ sequence

inductive AppendError where
  /-- An integer that SQLite has no place for. -/
  | overflowError
  | integrityError

/-- What an INTEGER column has a place for. -/
def fitsInteger (i : Int) : Bool := -2 ^ 63 ≤ i && i < 2 ^ 63

def toInt (b : Bool) : Int := if b then 1 else 0

/-- `trace.tenant_id or "default"` -/
def ownTenant (tenantId : String) : String := if tenantId = "" then "default" else tenantId

namespace StateLedger

theorem ascending_nil : ([] : List Nat).Pairwise (· < ·) := .nil

def empty : StateLedger F where
  rows := []
  sequence := 0
  ordered := ascending_nil
  bounded := List.forall_mem_nil _

/-- A row under the next id. -/
def push (ledger : StateLedger F) (trace : ExecutionTrace F) (temperature : Fl F) :
    StateLedger F where
  rows := ledger.rows ++
    [{ id := ledger.sequence + 1
       traceId := trace.traceId
       nodeName := trace.nodeName
       inputPayloadHash := trace.inputPayloadHash
       llmSeed := trace.llmSeed
       llmTemperature := temperature
       rawOutput := trace.rawOutput
       isValidType := toInt trace.isValidType
       isFinding := toInt trace.isFinding
       timestamp := trace.timestamp
       errorMessage := trace.errorMessage
       tenantId := ownTenant trace.tenantId }]
  sequence := ledger.sequence + 1
  ordered := by
    rw [List.map_append, List.pairwise_append]
    refine ⟨ledger.ordered, List.pairwise_singleton _ _, fun a ha b hb => ?_⟩
    obtain ⟨r, hr, rfl⟩ := List.mem_map.mp ha
    obtain rfl := List.mem_singleton.mp hb
    exact Nat.lt_succ_of_le (ledger.bounded r hr)
  bounded := by
    intro r hr
    rcases List.mem_append.mp hr with hr | hr
    · exact Nat.le_succ_of_le (ledger.bounded r hr)
    · obtain rfl := List.mem_singleton.mp hr
      exact Nat.le_refl _

/-- `append`. `real` is what a REAL column gives back of a float, none where that is NULL,
which the column refuses. -/
def append (real : Fl F → Option (Fl F)) (ledger : StateLedger F) (trace : ExecutionTrace F) :
    Except AppendError (StateLedger F) :=
  if fitsInteger trace.llmSeed then
    match real trace.llmTemperature with
    | none => .error .integrityError
    | some temperature => .ok (ledger.push trace temperature)
  else .error .overflowError

/-- `_row_to_trace` -/
def rowToTrace (row : TraceRow F) : ExecutionTrace F where
  traceId := row.traceId
  nodeName := row.nodeName
  inputPayloadHash := row.inputPayloadHash
  llmSeed := row.llmSeed
  llmTemperature := row.llmTemperature
  rawOutput := row.rawOutput
  isValidType := row.isValidType != 0
  isFinding := row.isFinding != 0
  timestamp := row.timestamp
  errorMessage := row.errorMessage
  tenantId := ownTenant row.tenantId

/-- `SELECT * ... WHERE trace_id = ? ORDER BY id` -/
def getTrace (ledger : StateLedger F) (traceId : String) : List (ExecutionTrace F) :=
  ((ledger.rows.filter fun r => r.traceId = traceId).insertionSort fun a b => a.id ≤ b.id).map
    rowToTrace

end StateLedger

/-- Appends one after another, by any number of processes: each is one statement. -/
def stateLedger (real : Fl F → Option (Fl F)) : System (StateLedger F) (ExecutionTrace F) where
  initial := .empty
  step ledger trace :=
    match ledger.append real trace with
    | .ok ledger' => ledger'
    | .error _ => ledger

/-! ### The state hash -/

/-- One entry of `steps`. -/
structure PacketStep (F : Type) where
  nodeName : String
  inputHash : String
  output : String
  seed : Int
  temperature : Fl F
  valid : Bool
  error : Option String
  timestamp : String

def ExecutionTrace.packetStep (t : ExecutionTrace F) : PacketStep F where
  nodeName := t.nodeName
  inputHash := t.inputPayloadHash
  output := t.rawOutput
  seed := t.llmSeed
  temperature := t.llmTemperature
  valid := t.isValidType
  error := t.errorMessage
  timestamp := t.timestamp

structure StatePacket (F : Type) where
  traceId : String
  totalSteps : Nat
  steps : List (PacketStep F)

def StateLedger.getStatePacket (ledger : StateLedger F) (traceId : String) : StatePacket F :=
  let traces := ledger.getTrace traceId
  { traceId
    totalSteps := traces.length
    steps := traces.map ExecutionTrace.packetStep }

/-- `k in ("_latency_metrics", "_cache_hit") or k.endswith("_ms")` -/
def volatile : Key → Bool
  | .str s =>
    s = ofString "_latency_metrics" || s = ofString "_cache_hit" || ofString "_ms" <:+ s
  | .int _ => false

mutual

/-- `_strip` -/
def strip : PyValue F → PyValue F
  | .dict items => .dict (stripItems items)
  | .list xs => .list (stripElems xs)
  | v => v

def stripElems : List (PyValue F) → List (PyValue F)
  | [] => []
  | x :: xs => strip x :: stripElems xs

def stripItems : List (Key × PyValue F) → List (Key × PyValue F)
  | [] => []
  | (k, v) :: items => if volatile k then stripItems items else (k, strip v) :: stripItems items

end

section Hash
variable [FloatCodec F] [SetText F] (H : Digest)

variable (F) in
/-- `_canonical_output` of a string. No set is ever loaded, so `dumps` needs no default. -/
def canonicalOutput (output : String) : Except PyError String :=
  match loads (F := F) output with
  | .error _ => .ok output
  | .ok parsed => dumps .compact (strip parsed)

/-- An entry without its timestamp, with the output in its place. -/
def PacketStep.value (step : PacketStep F) (output : String) : PyValue F :=
  .dict
    [(.str (ofString "node_name"), .str (ofString step.nodeName)),
      (.str (ofString "input_hash"), .str (ofString step.inputHash)),
      (.str (ofString "output"), .str (ofString output)),
      (.str (ofString "seed"), .int step.seed),
      (.str (ofString "temperature"), .float step.temperature),
      (.str (ofString "valid"), .bool step.valid),
      (.str (ofString "error"), step.error.elim .none fun e => .str (ofString e))]

def PacketStep.canonical (step : PacketStep F) : Except PyError (PyValue F) := do
  return step.value (← canonicalOutput F step.output)

def StatePacket.canonical (packet : StatePacket F) : Except PyError (PyValue F) := do
  let steps ← packet.steps.mapM PacketStep.canonical
  return .dict [(.str (ofString "total_steps"), .int packet.totalSteps),
    (.str (ofString "steps"), .list steps)]

def StateLedger.computeStateHash (ledger : StateLedger F) (traceId : String) :
    Except PyError String := do
  let canonicalPacket ← (ledger.getStatePacket traceId).canonical
  return H.hex (← dumps .compact canonicalPacket)

end Hash

/-! ### When two traces agree -/

mutual

/-- Two values agree when they are the same but for telemetry and the order of keys. -/
def agree : PyValue F → PyValue F → Prop
  | .none, .none => True
  | .bool b, .bool c => b = c
  | .int i, .int j => i = j
  | .float x, .float y => x = y
  | .str s, .str t => s = t
  | .list xs, .list ys => agreeElems xs ys
  | .dict items, .dict items' => agreeItems items items' ∧
      ∀ k ∈ items'.map Prod.fst, volatile k = false → k ∈ items.map Prod.fst
  | _, _ => False

def agreeElems : List (PyValue F) → List (PyValue F) → Prop
  | [], [] => True
  | x :: xs, y :: ys => agree x y ∧ agreeElems xs ys
  | _, _ => False

/-- Every item that is no telemetry has its counterpart in the other dictionary. -/
def agreeItems : List (Key × PyValue F) → List (Key × PyValue F) → Prop
  | [], _ => True
  | (k, v) :: items, items' =>
    (volatile k = false →
      match lookupItem k items' with
      | some v' => agree v v'
      | none => False) ∧ agreeItems items items'

end

variable (F) in
/-- Outputs that are JSON agree as values, others only as strings. -/
def OutputsAgree [FloatCodec F] (output output' : String) : Prop :=
  match loads (F := F) output, loads (F := F) output' with
  | .ok v, .ok v' => agree v v'
  | _, _ => output = output'

/-- Two steps that a replay cannot tell apart. -/
structure StepsAgree [FloatCodec F] (t t' : ExecutionTrace F) : Prop where
  nodeName : t.nodeName = t'.nodeName
  inputPayloadHash : t.inputPayloadHash = t'.inputPayloadHash
  output : OutputsAgree F t.rawOutput t'.rawOutput
  llmSeed : t.llmSeed = t'.llmSeed
  llmTemperature : t.llmTemperature = t'.llmTemperature
  isValidType : t.isValidType = t'.isValidType
  errorMessage : t.errorMessage = t'.errorMessage

/-- What the ledger keeps of a trace that is appended, none where `append` raises. -/
def kept (real : Fl F → Option (Fl F)) (trace : ExecutionTrace F) : Option (ExecutionTrace F) :=
  if fitsInteger trace.llmSeed then
    (real trace.llmTemperature).map fun temperature =>
      { trace with llmTemperature := temperature, tenantId := ownTenant trace.tenantId }
  else none

/-- The steps of a trace, in the order of a history that appended them. -/
def stepsOf (real : Fl F → Option (Fl F)) (history : List (ExecutionTrace F)) (traceId : String) :
    List (ExecutionTrace F) :=
  (history.filterMap (kept real)).filter fun t => t.traceId = traceId

/-! ### The traces of a ledger -/

theorem ownTenant_ownTenant (tenantId : String) :
    ownTenant (ownTenant tenantId) = ownTenant tenantId := by
  by_cases h : tenantId = ""
  · subst h
    rfl
  · simp [ownTenant, h]

theorem toInt_ne_zero (b : Bool) : (toInt b != 0) = b := by cases b <;> rfl

/-- An append keeps what `kept` says, behind what was there. -/
theorem step_rows (real : Fl F → Option (Fl F)) (ledger : StateLedger F)
    (trace : ExecutionTrace F) :
    (((stateLedger real).step ledger trace).rows.map StateLedger.rowToTrace) =
      ledger.rows.map StateLedger.rowToTrace ++ (kept real trace).toList := by
  simp only [stateLedger, StateLedger.append, kept]
  by_cases hseed : fitsInteger trace.llmSeed
  · cases real trace.llmTemperature with
    | none => simp [hseed]
    | some temperature =>
      simp [hseed, StateLedger.push, StateLedger.rowToTrace, toInt_ne_zero, ownTenant_ownTenant]
  · simp [hseed]

theorem rows_after (real : Fl F → Option (Fl F)) (history : List (ExecutionTrace F)) :
    ((stateLedger real).after history).rows.map StateLedger.rowToTrace =
      history.filterMap (kept real) := by
  induction history using List.reverseRecOn with
  | nil => rfl
  | append_singleton history trace ih =>
    rw [(stateLedger real).after_snoc, step_rows, ih, List.filterMap_append]
    cases h : kept real trace <;> simp [h]

/-- The ids ascend, so the steps of a trace come in the order they were appended. -/
theorem getTrace_after (real : Fl F → Option (Fl F)) (history : List (ExecutionTrace F))
    (traceId : String) :
    ((stateLedger real).after history).getTrace traceId = stepsOf real history traceId := by
  have hordered : ((stateLedger real).after history).rows.Pairwise fun a b => a.id ≤ b.id :=
    (List.pairwise_map.mp ((stateLedger real).after history).ordered).imp Nat.le_of_lt
  have hsorted := hordered.filter fun r => r.traceId = traceId
  rw [StateLedger.getTrace, hsorted.insertionSort_eq, stepsOf, ← rows_after, List.filter_map]
  rfl

/-! ### Stripping -/

theorem lookup_stripItems {k : Key} (hk : volatile k = false) (items : List (Key × PyValue F)) :
    lookupItem k (stripItems items) = (lookupItem k items).map strip := by
  induction items with
  | nil => rfl
  | cons p items ih =>
    obtain ⟨j, v⟩ := p
    rw [stripItems]
    split
    · next hj =>
      have hne : j ≠ k := by
        rintro rfl
        rw [hk] at hj
        cases hj
      rw [ih, lookupItem, if_neg hne]
    · rw [lookupItem, lookupItem, ih]
      split <;> rfl

theorem stripItems_eq (items : List (Key × PyValue F)) : stripItems items =
    (items.filter fun p => !volatile p.1).map fun p => (p.1, strip p.2) := by
  induction items with
  | nil => rfl
  | cons p items ih => by_cases hp : volatile p.1 = true <;> simp [stripItems, hp, ih]

theorem keys_stripItems (items : List (Key × PyValue F)) :
    (stripItems items).map Prod.fst = (items.map Prod.fst).filter fun k => !volatile k := by
  rw [stripItems_eq, List.map_map, List.filter_map]
  rfl

theorem json_strip (v : PyValue F) (h : v.json = true) : (strip v).json = true := by
  induction v with
  | none | bool | int | float => rfl
  | str s => exact h
  | tuple | set => cases h
  | list xs ih =>
    have hxs : stripElems xs = xs.map strip := eq_map rfl (fun _ _ => rfl) xs
    rw [strip, PyValue.json, jsonElems_iff, hxs]
    exact List.forall_mem_map.mpr fun x hx => ih x hx ((jsonElems_iff xs).mp h x hx)
  | dict items ih =>
    obtain ⟨hnodup, hplain, hvalues⟩ := json_dict_iff.mp h
    have hitems : ∀ p ∈ stripItems items, p.1.plain = true ∧ p.2.json = true := by
      intro p hp
      rw [stripItems_eq] at hp
      obtain ⟨q, hq, rfl⟩ := List.mem_map.mp hp
      have hq := (List.mem_filter.mp hq).1
      exact ⟨hplain q hq, ih q hq (hvalues q hq)⟩
    rw [strip, json_dict_iff, keys_stripItems]
    exact ⟨hnodup.filter _, fun p hp => (hitems p hp).1, fun p hp => (hitems p hp).2⟩

/-- The keys that stripping leaves, of one dictionary among those of another. -/
theorem keys_stripItems_subset {items items' : List (Key × PyValue F)} :
    (stripItems items').map Prod.fst ⊆ (stripItems items).map Prod.fst ↔
      ∀ k ∈ items'.map Prod.fst, volatile k = false → k ∈ items.map Prod.fst := by
  simp only [List.subset_def, keys_stripItems, List.mem_filter, Bool.not_eq_true',
    and_imp]
  exact forall₃_congr fun k _ hk => and_iff_left hk

mutual

/-- Stripped values are the same exactly when the values agree. -/
theorem same_strip_iff : ∀ v w : PyValue F, v.json = true → w.json = true →
    ((strip v).same (strip w) ↔ agree v w)
  | .none, w, _, _ => by cases w <;> simp [strip, PyValue.same, agree]
  | .bool _, w, _, _ => by cases w <;> simp [strip, PyValue.same, agree]
  | .int _, w, _, _ => by cases w <;> simp [strip, PyValue.same, agree]
  | .float _, w, _, _ => by cases w <;> simp [strip, PyValue.same, agree]
  | .str _, w, _, _ => by cases w <;> simp [strip, PyValue.same, agree]
  | .tuple _, _, hv, _ => nomatch hv
  | .set _, _, hv, _ => nomatch hv
  | .list xs, w, hv, hw => by
    cases w with
    | list ys => exact same_stripElems_iff xs ys hv hw
    | _ => simp [strip, PyValue.same, agree]
  | .dict items, w, hv, hw => by
    cases w with
    | dict items' =>
      have hstripped := json_strip _ hv
      have hstripped' := json_strip _ hw
      rw [strip, json_dict_iff] at hstripped hstripped'
      have hitems := (jsonItems_iff items).mpr (json_dict_iff.mp hv).2.2
      rw [strip, strip, same_dict_iff hstripped.1 hstripped'.1, agree, keys_stripItems_subset,
        sameItems_strip_iff items items' hitems hw]
    | _ => simp [strip, PyValue.same, agree]

theorem same_stripElems_iff : ∀ xs ys : List (PyValue F), jsonElems xs = true →
    jsonElems ys = true → (sameElems (stripElems xs) (stripElems ys) ↔ agreeElems xs ys)
  | [], [], _, _ => by simp [stripElems, sameElems, agreeElems]
  | [], _ :: _, _, _ => by simp [stripElems, sameElems, agreeElems]
  | _ :: _, [], _, _ => by simp [stripElems, sameElems, agreeElems]
  | x :: xs, y :: ys, hxs, hys => by
    simp only [jsonElems, Bool.and_eq_true] at hxs hys
    rw [stripElems, stripElems, sameElems, agreeElems, same_strip_iff x y hxs.1 hys.1,
      same_stripElems_iff xs ys hxs.2 hys.2]

theorem sameItems_strip_iff : ∀ items items' : List (Key × PyValue F), jsonItems items = true →
    (PyValue.dict items').json = true →
    (sameItems (stripItems items) (stripItems items') ↔ agreeItems items items')
  | [], _, _, _ => by simp [stripItems, sameItems, agreeItems]
  | (k, v) :: items, items', h, h' => by
    simp only [jsonItems, Bool.and_eq_true] at h
    rw [stripItems, agreeItems, ← sameItems_strip_iff items items' h.2 h']
    cases hk : volatile k with
    | true => simp
    | false =>
      rw [if_neg (by simp), sameItems, lookup_stripItems hk]
      refine and_congr_left' ?_
      cases hfound : lookupItem k items' with
      | none => simp
      | some w => simpa using same_strip_iff v w h.1 (json_of_lookup h' hfound)

end

/-! ### Outputs -/

section Hash
variable [FloatCodec F] [SetText F]

variable (F) in
theorem exists_canonicalOutput (output : String) :
    ∃ text, canonicalOutput F output = .ok text := by
  rw [canonicalOutput]
  cases h : loads (F := F) output with
  | error e => exact ⟨output, rfl⟩
  | ok v => exact exists_dumps (json_strip v (json_of_loads h)) .compact

/-- The canonical texts of JSON are JSON, so no other output is one. -/
theorem dumps_ne_of_error {v : PyValue F} {output : String} {e : PyError}
    (h : loads (F := F) output = .error e) : dumps .compact v ≠ .ok output := by
  intro htext
  obtain ⟨v', hv'⟩ := loads_dumps htext
  rw [h] at hv'
  cases hv'

variable (F) in
theorem canonicalOutput_eq_iff (output output' : String) :
    canonicalOutput F output = canonicalOutput F output' ↔ OutputsAgree F output output' := by
  rw [canonicalOutput, canonicalOutput, OutputsAgree]
  cases h : loads (F := F) output with
  | error e =>
    cases h' : loads (F := F) output' with
    | error e' => simp
    | ok v' =>
      have hne : output ≠ output' := by
        rintro rfl
        rw [h] at h'
        cases h'
      simpa [hne] using (dumps_ne_of_error h).symm
  | ok v =>
    cases h' : loads (F := F) output' with
    | error e' =>
      have hne : output ≠ output' := by
        rintro rfl
        rw [h] at h'
        cases h'
      simpa [hne] using dumps_ne_of_error h'
    | ok v' =>
      have hv := json_of_loads h
      have hv' := json_of_loads h'
      exact (dumps_eq_iff (json_strip v hv) (json_strip v' hv') .compact).trans
        (same_strip_iff v v' hv hv')

/-! ### Packets -/

omit [FloatCodec F] [SetText F] in
theorem PacketStep.json_value (step : PacketStep F) (output : String) :
    (step.value output).json = true := by
  have herror : (step.error.elim PyValue.none fun e => .str (ofString e) : PyValue F).json =
      true := by
    cases step.error <;> simp [PyValue.json]
  simp [PacketStep.value, PyValue.json, jsonItems, Key.plain, herror]

omit [FloatCodec F] [SetText F] in
theorem PacketStep.same_value_iff (a b : PacketStep F) (output output' : String) :
    (a.value output).same (b.value output') ↔ a.nodeName = b.nodeName ∧
      a.inputHash = b.inputHash ∧ output = output' ∧ a.seed = b.seed ∧
      a.temperature = b.temperature ∧ a.valid = b.valid ∧ a.error = b.error := by
  have herror : (a.error.elim PyValue.none fun e => .str (ofString e) : PyValue F).same
      (b.error.elim .none fun e => .str (ofString e)) ↔ a.error = b.error := by
    cases a.error <;> cases b.error <;> simp [PyValue.same]
  rw [← herror]
  simp [PacketStep.value, PyValue.same, sameItems, lookupItem]

/-- An entry as it is written for the hash. -/
def Written (t : ExecutionTrace F) (value : PyValue F) : Prop :=
  t.packetStep.canonical = .ok value

theorem Written.exists_output {t : ExecutionTrace F} {value : PyValue F} (h : Written t value) :
    ∃ output, canonicalOutput F t.rawOutput = .ok output ∧ value = t.packetStep.value output := by
  obtain ⟨output, houtput, h⟩ := bind_ok h
  cases h
  exact ⟨output, houtput, rfl⟩

theorem Written.json {t : ExecutionTrace F} {value : PyValue F} (h : Written t value) :
    value.json = true := by
  obtain ⟨output, -, rfl⟩ := h.exists_output
  exact PacketStep.json_value _ _

theorem stepsAgree_iff {t t' : ExecutionTrace F} {value value' : PyValue F}
    (h : Written t value) (h' : Written t' value') : StepsAgree t t' ↔ value.same value' := by
  obtain ⟨output, houtput, rfl⟩ := h.exists_output
  obtain ⟨output', houtput', rfl⟩ := h'.exists_output
  have hout : output = output' ↔ OutputsAgree F t.rawOutput t'.rawOutput := by
    rw [← canonicalOutput_eq_iff, houtput, houtput', Except.ok.injEq]
  rw [PacketStep.same_value_iff, hout]
  constructor
  · intro hagree
    exact ⟨hagree.nodeName, hagree.inputPayloadHash, hagree.output, hagree.llmSeed,
      hagree.llmTemperature, hagree.isValidType, hagree.errorMessage⟩
  · rintro ⟨hnode, hinput, houtput, hseed, htemperature, hvalid, herror⟩
    exact ⟨hnode, hinput, houtput, hseed, htemperature, hvalid, herror⟩

theorem exists_written (traces : List (ExecutionTrace F)) :
    ∃ values, (traces.map ExecutionTrace.packetStep).mapM PacketStep.canonical = .ok values ∧
      List.Forall₂ Written traces values := by
  induction traces with
  | nil => exact ⟨[], rfl, .nil⟩
  | cons t traces ih =>
    obtain ⟨values, hvalues, hwritten⟩ := ih
    obtain ⟨output, houtput⟩ := exists_canonicalOutput F t.rawOutput
    have ht : t.packetStep.canonical = .ok (t.packetStep.value output) := by
      rw [PacketStep.canonical, show t.packetStep.output = t.rawOutput from rfl, houtput]
      rfl
    refine ⟨_ :: values, ?_, .cons ht hwritten⟩
    rw [List.map_cons, List.mapM_cons, ht, hvalues]
    rfl

/-- What is written for the hash of a trace. -/
def packetValue (values : List (PyValue F)) : PyValue F :=
  .dict [(.str (ofString "total_steps"), .int values.length),
    (.str (ofString "steps"), .list values)]

omit [FloatCodec F] [SetText F] in
theorem json_packetValue {values : List (PyValue F)} (h : ∀ v ∈ values, v.json = true) :
    (packetValue values).json = true := by
  have helems : jsonElems values = true := by
    induction values with
    | nil => rfl
    | cons v values ih =>
      obtain ⟨hv, hvalues⟩ := List.forall_mem_cons.mp h
      rw [jsonElems, hv, ih hvalues, Bool.and_self]
  simp [packetValue, PyValue.json, jsonItems, Key.plain, helems]

omit [FloatCodec F] [SetText F] in
theorem same_packetValue_iff {values values' : List (PyValue F)} :
    (packetValue values).same (packetValue values') ↔ List.Forall₂ PyValue.same values values' := by
  have hlength : List.Forall₂ PyValue.same values values' → values.length = values'.length :=
    List.Forall₂.length_eq
  simpa [packetValue, PyValue.same, sameItems, lookupItem, sameElems_iff] using hlength

/-- The hash is that of what is written for the steps. -/
theorem computeStateHash_eq {H : Digest} {ledger : StateLedger F} {traceId : String}
    {traces : List (ExecutionTrace F)} (h : ledger.getTrace traceId = traces) :
    ∃ values text, List.Forall₂ Written traces values ∧
      dumps .compact (packetValue values) = .ok text ∧
      ledger.computeStateHash H traceId = .ok (H.hex text) := by
  obtain ⟨values, hvalues, hwritten⟩ := exists_written traces
  have hjson : ∀ v ∈ values, v.json = true := fun v hv => by
    obtain ⟨t, -, ht⟩ := exists_left hwritten hv
    exact ht.json
  obtain ⟨text, htext⟩ := exists_dumps (json_packetValue hjson) .compact
  refine ⟨values, text, hwritten, htext, ?_⟩
  have hcanonical : (ledger.getStatePacket traceId).canonical = .ok (packetValue values) := by
    simp only [StatePacket.canonical, StateLedger.getStatePacket, h, hvalues, bind, Except.bind,
      hwritten.length_eq]
    rfl
  rw [StateLedger.computeStateHash, hcanonical]
  show (do return H.hex (← dumps .compact (packetValue values))) = _
  rw [htext]
  rfl

variable (F) in
/-- **Main theorem.** With a digest without collisions, the state hash of a trace always
exists, and those of two traces are equal exactly when the traces agree step by step. -/
theorem state_hash_iff (H : Digest) (hinj : Function.Injective H.hex)
    (real : Fl F → Option (Fl F)) (history history' : List (ExecutionTrace F))
    (traceId traceId' : String) :
    ∃ hash hash',
      ((stateLedger real).after history).computeStateHash H traceId = .ok hash ∧
      ((stateLedger real).after history').computeStateHash H traceId' = .ok hash' ∧
      (hash = hash' ↔
        List.Forall₂ StepsAgree (stepsOf real history traceId)
          (stepsOf real history' traceId')) := by
  obtain ⟨values, text, hwritten, htext, hhash⟩ :=
    computeStateHash_eq (H := H) (getTrace_after real history traceId)
  obtain ⟨values', text', hwritten', htext', hhash'⟩ :=
    computeStateHash_eq (H := H) (getTrace_after real history' traceId')
  refine ⟨_, _, hhash, hhash', ?_⟩
  have hvalues : ∀ {traces : List (ExecutionTrace F)} {values : List (PyValue F)},
      List.Forall₂ Written traces values → (packetValue values).json = true := by
    intro traces values hwritten
    refine json_packetValue fun v hv => ?_
    obtain ⟨t, -, ht⟩ := exists_left hwritten hv
    exact ht.json
  have hsteps := forall₂_iff_of_forall₂ (fun _ _ _ _ => stepsAgree_iff) hwritten hwritten'
  have hdumps := dumps_eq_iff (hvalues hwritten) (hvalues hwritten') .compact
  rw [htext, htext', Except.ok.injEq] at hdumps
  rw [hinj.eq_iff, hdumps, same_packetValue_iff, hsteps]

end Hash

/-! ### Two runs of one step -/

/-- NaN is stored as NULL. -/
def realColumn : Fl Literal → Option (Fl Literal)
  | .nan => none
  | x => some x

/-- A step whose output has one result and one latency. -/
def sampleTrace (traceId timestamp : String) (members : List (Text × Document Literal)) :
    ExecutionTrace Literal where
  traceId := traceId
  nodeName := "n"
  inputPayloadHash := "h"
  llmSeed := 1337
  llmTemperature := FloatCodec.read ['0', '.', '0']
  rawOutput := String.ofList ((Document.obj members).render .spaced)
  isValidType := true
  isFinding := false
  timestamp := timestamp
  errorMessage := none
  tenantId := "default"

def earlierTrace : ExecutionTrace Literal :=
  sampleTrace "t1" "09:00" [(ofString "a", .int 1), (ofString "run_ms", .int 3)]

def laterTrace : ExecutionTrace Literal :=
  sampleTrace "t2" "10:00" [(ofString "run_ms", .int 4), (ofString "a", .int 1)]

theorem loads_sampleTrace (traceId timestamp : String) (members : List (Text × Document Literal)) :
    loads (sampleTrace traceId timestamp members).rawOutput =
      .ok (load (Document.obj members).join) := by
  rw [loads, sampleTrace, String.toList_ofList, parse_render]

theorem sampleTraces_agree : StepsAgree earlierTrace laterTrace := by
  have hrun : ofString "_ms" <:+ ofString "run_ms" := by decide
  refine ⟨rfl, rfl, ?_, rfl, rfl, rfl, rfl⟩
  rw [OutputsAgree, earlierTrace, laterTrace, loads_sampleTrace, loads_sampleTrace]
  simpa [Document.join, joinMembers, load, loadMembers, setItems, setItem, agree, agreeItems,
    lookupItem, volatile] using hrun

theorem stepsOf_sampleTrace (traceId timestamp : String)
    (members : List (Text × Document Literal)) :
    stepsOf realColumn [sampleTrace traceId timestamp members] traceId =
      [sampleTrace traceId timestamp members] := by
  have hkept : kept realColumn (sampleTrace traceId timestamp members) =
      some (sampleTrace traceId timestamp members) := rfl
  rw [stepsOf, List.filterMap_cons_some hkept, List.filterMap_nil]
  simp [sampleTrace]

theorem state_hash_iff_reruns :
    ∃ hash,
      ((stateLedger realColumn).after [earlierTrace]).computeStateHash prefixDigest "t1" =
        .ok hash ∧
      ((stateLedger realColumn).after [laterTrace]).computeStateHash prefixDigest "t2" =
        .ok hash := by
  obtain ⟨hash, hash', h, h', hiff⟩ := state_hash_iff Literal prefixDigest prefixDigest_injective
    realColumn [earlierTrace] [laterTrace] "t1" "t2"
  rw [earlierTrace, laterTrace, stepsOf_sampleTrace, stepsOf_sampleTrace] at hiff
  obtain rfl := hiff.mpr (.cons sampleTraces_agree .nil)
  exact ⟨hash, h, h'⟩

end PiPlatform.AgentChain
