import PiPlatform.AgentChain.GovernanceKernel

/-! A recon run over the kernel.

The driver calls the kernel once for each packet in each of three loops, towards one state a
loop. The table has no transition from a state to itself: the second packet is refused at the
acquisition gateway, and the run is halted there. So on traffic of which every worker makes
what it should, the run is accepted exactly when the traffic is one pair (`accepted_iff`). -/
namespace PiPlatform.AgentChain.Governance

open Library Library.Json Library.Python

variable {F : Type}

/-- How a run ends early. -/
inductive Ending where
  /-- The kernel's response was no success. -/
  | halted (stage : String) (status : WorkerStatus)
  /-- The response had no payload. -/
  | empty (stage : String)
  /-- An exception: of the response model, or of the model of a payload. -/
  | raised
  /-- A validator between the calls. -/
  | stopped (stage : String)
  deriving DecidableEq

/-- The kernel, and the calls that were made. -/
structure Driver (F : Type) where
  kernel : GovernanceKernel F
  executions : List (Execution F)

/-- A part of a run: its result or its end, and the driver afterwards. -/
def Run (F α : Type) : Type := Driver F → Except Ending α × Driver F

namespace Run
variable {α β : Type}

instance : Monad (Run F) where
  pure a d := (.ok a, d)
  bind x f d :=
    match x d with
    | (.ok a, d) => f a d
    | (.error e, d) => (.error e, d)

def stop (e : Ending) : Run F α := fun d => (.error e, d)

/-- A loop that appends to a list. -/
def forEach (f : α → Run F β) : List α → Run F (List β)
  | [] => pure []
  | a :: as => do
    let b ← f a
    let bs ← forEach f as
    pure (b :: bs)

section Bind
variable {x : Run F α} {f : α → Run F β} {d d' : Driver F}

theorem bind_ok {a : α} (h : x d = (.ok a, d')) : (x >>= f) d = f a d' := by
  show (match x d with | (.ok a, d) => f a d | (.error e, d) => (.error e, d)) = _
  rw [h]

theorem bind_error {e : Ending} (h : x d = (.error e, d')) : (x >>= f) d = (.error e, d') := by
  show (match x d with | (.ok a, d) => f a d | (.error e, d) => (.error e, d)) = _
  rw [h]

theorem forEach_one {f : α → Run F β} {a : α} {b : β} (h : f a d = (.ok b, d')) :
    forEach f [a] d = (.ok [b], d') := by
  rw [forEach, bind_ok h]
  rfl

/-- The second time round ends the loop. -/
theorem forEach_second {f : α → Run F β} {a a' : α} {b : β} {as : List α} {d'' : Driver F}
    {e : Ending} (h : f a d = (.ok b, d')) (h' : f a' d' = (.error e, d'')) :
    forEach f (a :: a' :: as) d = (.error e, d'') := by
  rw [forEach, bind_ok h, forEach]
  exact bind_error (bind_error h')

end Bind

variable [FloatCodec F] [SetText F] (I : Interpreter F)

def execute (call : ExecuteCall F) : Run F (WorkerResponse F) := fun d =>
  let execution := d.kernel.execute I call
  let d := ⟨execution.kernel, d.executions ++ [execution]⟩
  match execution.outcome with
  | .error () => (.error .raised, d)
  | .ok response => (.ok response, d)

end Run

/-- The workers and the validators of a run. Objects are the items of their dumps; a worker
answers with such a dump or an exception, and `valid` is whether a model accepts one. -/
structure Nodes (F : Type) where
  fromRawHttpPair : String × String → Except String (Items F)
  extract : Items F → Except String (Items F)
  analyze : Items F → Items F → Except String (Items F)
  mapFlow : List (Items F) → Except String (Items F)
  synthesize : List (Items F) → Items F → Except String (Items F)
  verify : Items F → List (Items F) → Except String (Items F)
  valid : String → Items F → Bool
  /-- The text that a call's input is hashed from. -/
  inputPayload : List (Items F) → String
  /-- The freezing check, auth consistency, state machine, quorum and entropy: the one that
  stops the run. -/
  checkpoint : List (Items F) → List (Items F) → Option String
  /-- Promotion and replay, after the last call. -/
  promotion : List (Items F) → Items F → Items F → Items F → Option String

/-- `{"payload": payload, "type": name}` -/
def wrapped (payload : PyValue F) (name : String) : PyValue F :=
  .dict [(keyOf "payload", payload), (keyOf "type", text name)]

namespace Run
variable [FloatCodec F] [SetText F] (I : Interpreter F)

/-- The two calls before the first packet. -/
def init (stage targetState inputPayload : String) : Run F Unit := do
  let response ← execute I
    { workerId := "runtime_orchestrator"
      targetState := targetState
      workerFn := fun _ => .ok (wrapped .none "Init")
      inputPayload := inputPayload
      provenance := []
      elapsedMs := 0 }
  if response.status ≠ .success then stop (.halted stage response.status)

/-- A call of a worker, and what the driver makes of the response. -/
def node (valid : String → Items F → Bool) (stage workerId targetState name inputPayload : String)
    (provenance : List String) (worker : Except String (Items F)) : Run F (Items F) := do
  let response ← execute I
    { workerId := workerId
      targetState := targetState
      workerFn := fun _ => worker.map fun payload => wrapped (.dict payload) name
      inputPayload := inputPayload
      provenance := provenance
      elapsedMs := 0 }
  if response.status ≠ .success then stop (.halted stage response.status)
  else
    match response.artifacts.head?.bind (lookupItem (keyOf "payload")) with
    | none | some .none => stop (.empty stage)
    | some (.dict payload) => if valid name payload then pure payload else stop .raised
    | some _ => stop .raised

variable (N : Nodes F) (traceId : String)

/-- Node 0: CAPTURE_READY to CAPTURING, for each pair. -/
def acquire (pair : String × String) : Run F (Items F) :=
  node I N.valid "acquisition" "acquisition_gateway" RuntimeState.capturing "GovernedPacket"
    (I.sha256 (pair.1 ++ pair.2)) [traceId] (N.fromRawHttpPair pair)

/-- Node 1: CAPTURING to NORMALIZING, for each packet. -/
def extract (packet : Items F) : Run F (Items F) :=
  node I N.valid "extraction" "structural_extractor" RuntimeState.normalizing
    "ExtractedProtocolSkeleton" (N.inputPayload [packet]) [traceId, N.inputPayload [packet]]
    (N.extract packet)

/-- Node 2: NORMALIZING to EXTRACTING, for each packet and its skeleton. -/
def typeTrace (p : Items F × Items F) : Run F (Items F) :=
  node I N.valid "typing" "semantic_typer" RuntimeState.extracting "SemanticIRTrace"
    (N.inputPayload [p.1, p.2]) [traceId, N.inputPayload [p.1]] (N.analyze p.1 p.2)

/-- Node 3: EXTRACTING to ASSEMBLING_IR. -/
def mapFlow (traces : List (Items F)) : Run F (Items F) :=
  node I N.valid "flow_mapping" "flow_mapper" RuntimeState.assemblingIr "DependencyGraph"
    (N.inputPayload traces) [traceId, "traces:" ++ toString traces.length] (N.mapFlow traces)

/-- Node 4: ASSEMBLING_IR to GENERATING_SPEC. -/
def synthesize (traces : List (Items F)) (graph : Items F) : Run F (Items F) :=
  node I N.valid "synthesis" "spec_synthesizer" RuntimeState.generatingSpec "SynthesizedSpec"
    (N.inputPayload (graph :: traces)) [traceId, N.inputPayload [graph]]
    (N.synthesize traces graph)

/-- Node 5: GENERATING_SPEC to COMPLETED. -/
def verify (spec : Items F) (packets : List (Items F)) : Run F (Items F) :=
  node I N.valid "verification" "verifier" RuntimeState.completed "VerificationReport"
    (N.inputPayload [spec]) [traceId, N.inputPayload [spec]] (N.verify spec packets)

/-- A validator that stops the run, or none. -/
def validators : Option String → Run F Unit
  | none => pure ()
  | some stage => stop (.stopped stage)

/-- From the first packet on. -/
def nodes (pairs : List (String × String)) : Run F Unit := do
  let packets ← forEach (acquire I N traceId) pairs
  let skeletons ← forEach (extract I N traceId) packets
  let traces ← forEach (typeTrace I N traceId) (packets.zip skeletons)
  validators (N.checkpoint traces packets)
  let graph ← mapFlow I N traceId traces
  let spec ← synthesize I N traceId traces graph
  let report ← verify I N traceId spec packets
  validators (N.promotion traces graph spec report)

/-- `PipelineDriver.run`, with a new kernel. -/
def pipeline (pairs : List (String × String)) : Run F Unit := do
  init I "init_scoped" RuntimeState.scopedState "init"
  init I "init_capture_ready" RuntimeState.captureReady "init2"
  nodes I N traceId pairs

end Run

/-- The scope of a run. -/
def pipelineScope (baseUrl traceId : String) : Dict String (PyValue F) :=
  .ofList [("domain", text baseUrl), ("mode", text "passive_protocol_analysis"),
    ("trace_id", text traceId)]

/-! ### What a faultless worker's call comes to -/

section Calls
variable [SetText F]

theorem emit_wrapped {v : PyValue F} {t : Document F} {name : String} (h : emit v = .ok t) :
    emit (wrapped v name) =
      .ok (.obj [(ofString "payload", t), (ofString "type", .str (ofString name))]) := by
  have hle : ofString "payload" ≤ ofString "type" := by decide +kernel
  simp only [wrapped, emit, emitItems, h, text, keyOf]
  show (do return Document.obj (← sortItems [(Key.str (ofString "payload"), t),
    (Key.str (ofString "type"), Document.str (ofString name))])) = _
  have hsort : sortItems [(Key.str (ofString "payload"), t),
      (Key.str (ofString "type"), Document.str (ofString name))] =
        .ok [(ofString "payload", t), (ofString "type", .str (ofString name))] := by
    simp [sortItems, Key.str?, List.insertionSort, hle]
  rw [hsort]
  rfl

/-- The items of a worker's output as they are read back. -/
def readBack (payload : PyValue F) (name : String) : Items F :=
  [(keyOf "payload", payload), (keyOf "type", .str (joinSurrogates (ofString name)))]

theorem payloadOf_wrapped [FloatCodec F] {v : PyValue F} {t : Document F} (name : String)
    (h : emit v = .ok t) :
    ∃ rawOutputJson, dumps .spaced (wrapped v name) = .ok rawOutputJson ∧
      GovernanceKernel.payloadOf rawOutputJson = .dict (readBack (load t.join) name) := by
  have hdumps : dumps .spaced (wrapped v name) = .ok (String.ofList ((Document.obj
      [(ofString "payload", t), (ofString "type", .str (ofString name))]).render .spaced)) := by
    rw [dumps, emit_wrapped h]
    rfl
  obtain ⟨t', ht', hpayload⟩ := payloadOf_dumps hdumps
  rw [emit_wrapped h] at ht'
  obtain rfl := Except.ok.inj ht'
  have hjoin : joinSurrogates (ofString "payload") = ofString "payload" := by decide +kernel
  have hjoin' : joinSurrogates (ofString "type") = ofString "type" := by decide +kernel
  have hne : ofString "payload" ≠ ofString "type" := by decide +kernel
  refine ⟨_, hdumps, ?_⟩
  rw [hpayload]
  simp [Document.join, joinMembers, load, loadMembers, setItems, setItem, hjoin, hjoin', hne,
    readBack, keyOf]

end Calls

theorem mem_pipelineScope {baseUrl traceId : String} {entry : String × PyValue F}
    (h : entry ∈ (pipelineScope baseUrl traceId).items) :
    entry.1 ∈ ["domain", "mode", "trace_id"] := by
  have hkeys : (pipelineScope (F := F) baseUrl traceId).items.map Prod.fst =
      ["domain", "mode", "trace_id"] := by
    rw [pipelineScope, Dict.keys_ofList]
    rfl
  rw [← hkeys]
  exact List.mem_map.mpr ⟨entry, h, rfl⟩

/-- Neither key is one of the scope. -/
theorem validateWorkerResponse_readBack (I : Interpreter F) (baseUrl traceId name : String)
    (payload : PyValue F) {response : WorkerResponse F}
    (hartifacts : response.artifacts = [readBack payload name]) :
    validateWorkerResponse I response.rootGoalId (pipelineScope baseUrl traceId)
      response = none := by
  have hforeign : ∀ key ∈ ["domain", "mode", "trace_id"],
      keyOf key ∉ [keyOf "payload", keyOf "type"] := by decide +kernel
  rw [validateWorkerResponse, if_neg (fun h => h rfl), hartifacts, List.findSome?_eq_none_iff]
  intro artifact hartifact
  obtain rfl := List.mem_singleton.mp hartifact
  rw [List.findSome?_eq_none_iff]
  intro entry hentry
  rw [lookupItem_of_not_mem (hforeign _ (mem_pipelineScope hentry))]
  rfl

theorem checkRequired_readBack (payload : PyValue F) (name : String) :
    checkRequired workerOutputSchema (readBack payload name) = none := by
  have hfound : workerOutputSchema.required.find? (fun key =>
      keyOf key ∉ [keyOf "payload", keyOf "type"]) = none := by decide +kernel
  show (workerOutputSchema.required.find? fun key =>
    keyOf key ∉ [keyOf "payload", keyOf "type"]).map _ = _
  rw [hfound]
  rfl

theorem checkTypes_readBack (items : Items F) (name : String) :
    checkTypes workerOutputSchema (readBack (.dict items) name) = none := by
  have hpayload : (workerOutputSchema.properties.find? fun property =>
      keyOf property.1 = keyOf "payload") = some ("payload", "object") := by decide +kernel
  have htype : (workerOutputSchema.properties.find? fun property =>
      keyOf property.1 = keyOf "type") = some ("type", "string") := by decide +kernel
  rw [checkTypes, List.findSome?_eq_none_iff]
  intro p hp
  rcases List.mem_pair.mp hp with rfl | rfl
  · rw [hpayload]
    rfl
  · rw [htype]
    rfl

theorem validateSchema_readBack {workerId rootGoalId name : String} {payload : PyValue F}
    (h : lookupItem workerId workerOutputSchemas = none ∨ isObject payload = true) :
    validateSchema workerId rootGoalId (readBack payload name) = none := by
  rw [validateSchema]
  cases hschema : lookupItem workerId workerOutputSchemas with
  | none => rfl
  | some schema =>
    have hobject := h.resolve_left (by simp [hschema])
    obtain rfl : schema = workerOutputSchema := by
      obtain ⟨_, -, heq⟩ := List.mem_map.mp (mem_of_lookupItem hschema)
      exact (congrArg Prod.snd heq).symm
    cases payload with
    | dict items =>
      rw [Option.bind_some, checkRequired_readBack, checkTypes_readBack]
      rfl
    | _ => cases hobject

/-! ### Runs -/

section Runs
variable [FloatCodec F] [SetText F] {I : Interpreter F} {baseUrl traceId : String}

/-- The transition gate refused the call. -/
def Rejected (e : Execution F) : Prop :=
  ∃ response, e.outcome = .ok response ∧ response.status = .branchOverflow

/-- The run has come to a state, and no call was refused so far. -/
structure At (baseUrl traceId state : String) (d : Driver F) : Prop where
  unnested : Unnested d.kernel
  scope : d.kernel.objectiveScope = pipelineScope baseUrl traceId
  state : d.kernel.currentState = state
  unrejected : ∀ e ∈ d.executions, ¬ Rejected e

variable {d : Driver F} {state : String} {call : ExecuteCall F}

theorem execute_answered {response : WorkerResponse F} {kernel : GovernanceKernel F}
    {invoked : Option (WorkerEnvelope F)}
    (h : d.kernel.execute I call = ⟨.ok response, kernel, invoked⟩) :
    Run.execute I call d =
      (.ok response, ⟨kernel, d.executions ++ [⟨.ok response, kernel, invoked⟩]⟩) := by
  simp only [Run.execute, h]

theorem execute_wrapped (h : At baseUrl traceId state d)
    (hauthorized : Authorized state call.targetState) {v : PyValue F} {t : Document F}
    {name : String} (hworker : ∀ envelope, call.workerFn envelope = .ok (wrapped v name))
    (hemit : emit v = .ok t) (hschema : lookupItem call.workerId workerOutputSchemas = none ∨
      isObject (load t.join) = true) :
    ∃ response d', Run.execute I call d = (.ok response, d') ∧
      At baseUrl traceId call.targetState d' ∧ response.status = .success ∧
      response.artifacts = [readBack (load t.join) name] := by
  obtain ⟨rawOutputJson, hdumps, hpayload⟩ := payloadOf_wrapped name hemit
  have hrun : GovernanceKernel.runWorker I call (d.kernel.counted.envelope I call) =
      .ok rawOutputJson := runWorker_ok_iff.mpr ⟨_, hworker _, hdumps⟩
  have hobjective : validateWorkerResponse I d.kernel.counted.rootGoalId
      d.kernel.counted.objectiveScope
      (d.kernel.counted.delivered I call rawOutputJson (readBack (load t.join) name)) = none := by
    show validateWorkerResponse I _ d.kernel.objectiveScope _ = none
    rw [h.scope]
    exact validateWorkerResponse_readBack I baseUrl traceId name (load t.join) rfl
  have hexecute := execute_authorized (I := I) h.unnested (h.state ▸ hauthorized)
  rw [work_eq hrun hpayload (validateSchema_readBack hschema) hobjective] at hexecute
  refine ⟨_, _, execute_answered hexecute, ?_, rfl, rfl⟩
  refine ⟨⟨h.unnested.depth, h.unnested.branchCount⟩, h.scope, rfl, fun e he => ?_⟩
  rcases List.mem_append.mp he with he | he
  · exact h.unrejected e he
  · obtain rfl := List.mem_singleton.mp he
    rintro ⟨response, hresponse, hstatus⟩
    obtain rfl := Except.ok.inj hresponse
    cases hstatus

/-- A call for which the table has no transition. -/
theorem execute_refused (h : At baseUrl traceId state d)
    (hnot : ¬ Authorized state call.targetState) :
    ∃ response d', Run.execute I call d = (.ok response, d') ∧ response.status = .branchOverflow ∧
      ∃ e ∈ d'.executions, Rejected e := by
  obtain ⟨violation, hexecute⟩ := execute_unauthorized (I := I) h.unnested (h.state.symm ▸ hnot)
  refine ⟨_, _, execute_answered hexecute, ?_, ?_⟩
  · rfl
  · exact ⟨_, List.mem_append_right _ (List.mem_singleton_self _), _, rfl, rfl⟩

theorem init_at (h : At baseUrl traceId state d) (stage targetState inputPayload : String)
    (hauthorized : Authorized state targetState) :
    ∃ d', Run.init I stage targetState inputPayload d = (.ok (), d') ∧
      At baseUrl traceId targetState d' := by
  have hschema : lookupItem "runtime_orchestrator" workerOutputSchemas = none := by decide +kernel
  let call : ExecuteCall F :=
    ⟨"runtime_orchestrator", targetState, fun _ => .ok (wrapped .none "Init"), inputPayload, [], 0⟩
  have hcall : Authorized state call.targetState := hauthorized
  obtain ⟨response, d', hexecute, hat, hstatus, -⟩ :=
    execute_wrapped (I := I) h hcall (fun _ => rfl) rfl (.inl hschema)
  refine ⟨d', ?_, hat⟩
  rw [Run.init, Run.bind_ok hexecute, if_neg (fun hne => hne hstatus)]
  rfl

/-- The worker returns a dump that comes back through JSON as the payload, which its model
accepts. -/
def Yields (valid : String → Items F → Bool) (name : String) (worker : Except String (Items F))
    (payload : Items F) : Prop :=
  ∃ dumped text, worker = .ok dumped ∧ dumps .spaced (.dict dumped) = .ok text ∧
    loads text = .ok (.dict payload) ∧ valid name payload = true

section Nodes
variable {valid : String → Items F → Bool} {stage workerId targetState name inputPayload : String}
  {provenance : List String} {worker : Except String (Items F)} {payload : Items F}

theorem node_at (h : At baseUrl traceId state d) (hauthorized : Authorized state targetState)
    (hworker : Yields valid name worker payload) :
    ∃ d', Run.node I valid stage workerId targetState name inputPayload provenance worker d =
      (.ok payload, d') ∧ At baseUrl traceId targetState d' := by
  obtain ⟨dumped, text, rfl, hdumps, hloads, hvalid⟩ := hworker
  obtain ⟨t, hemit, hpayload⟩ := payloadOf_dumps hdumps
  have hload : load t.join = .dict payload := by
    rw [← hpayload, GovernanceKernel.payloadOf, hloads]
  let call : ExecuteCall F :=
    ⟨workerId, targetState, fun _ => (Except.ok dumped).map fun payload =>
      wrapped (.dict payload) name, inputPayload, provenance, 0⟩
  have hcall : Authorized state call.targetState := hauthorized
  obtain ⟨response, d', hexecute, hat, hstatus, hartifacts⟩ :=
    execute_wrapped (I := I) h hcall (fun _ => rfl) hemit (.inr (hload ▸ rfl))
  refine ⟨d', ?_, hat⟩
  rw [Run.node, Run.bind_ok hexecute, if_neg (fun hne => hne hstatus), hartifacts, hload]
  simp [readBack, lookupItem, hvalid]
  rfl

theorem node_refused (h : At baseUrl traceId state d) (hnot : ¬ Authorized state targetState) :
    ∃ e d', Run.node I valid stage workerId targetState name inputPayload provenance worker d =
      (.error e, d') ∧ ∃ e ∈ d'.executions, Rejected e := by
  let call : ExecuteCall F :=
    ⟨workerId, targetState, fun _ => worker.map fun payload => wrapped (.dict payload) name,
      inputPayload, provenance, 0⟩
  have hcall : ¬ Authorized state call.targetState := hnot
  obtain ⟨response, d', hexecute, hstatus, hrejected⟩ := execute_refused (I := I) h hcall
  have hne : response.status ≠ .success := fun heq => by
    rw [hstatus] at heq
    cases heq
  refine ⟨.halted stage response.status, d', ?_, hrejected⟩
  rw [Run.node, Run.bind_ok hexecute, if_pos hne]
  rfl

end Nodes

end Runs

/-- All workers of a run return what is valid. -/
def Faultless [FloatCodec F] [SetText F] (N : Nodes F) (pairs : List (String × String)) : Prop :=
  ∃ packets skeletons traces graph spec report,
    List.Forall₂ (fun pair packet =>
      Yields N.valid "GovernedPacket" (N.fromRawHttpPair pair) packet) pairs packets ∧
    List.Forall₂ (fun packet skeleton =>
      Yields N.valid "ExtractedProtocolSkeleton" (N.extract packet) skeleton) packets skeletons ∧
    List.Forall₂ (fun p trace => Yields N.valid "SemanticIRTrace" (N.analyze p.1 p.2) trace)
      (packets.zip skeletons) traces ∧
    Yields N.valid "DependencyGraph" (N.mapFlow traces) graph ∧
    Yields N.valid "SynthesizedSpec" (N.synthesize traces graph) spec ∧
    Yields N.valid "VerificationReport" (N.verify spec packets) report

/-- No call of the run was refused, and it came to COMPLETED unless a validator stopped it. -/
structure Accepted (result : Except Ending Unit × Driver F) : Prop where
  unrejected : ∀ e ∈ result.2.executions, ¬ Rejected e
  completed : (∀ stage, result.1 ≠ .error (.stopped stage)) →
    result.2.kernel.currentState = RuntimeState.completed

/-- The driver at the start of `run`. -/
def startOf (baseUrl traceId : String) (config : GovernanceConfig) : Driver F :=
  ⟨.new traceId (pipelineScope baseUrl traceId) config, []⟩

/-- A validator may stop the run before the rest of it. -/
theorem accepted_validators {baseUrl traceId state : String} {d : Driver F}
    (h : At baseUrl traceId state d) (stage? : Option String) {rest : Unit → Run F Unit}
    (hrest : Accepted (rest () d)) : Accepted ((Run.validators stage? >>= rest) d) := by
  cases stage? with
  | none => exact hrest
  | some stage => exact ⟨h.unrejected, fun hnot => absurd rfl (hnot stage)⟩

theorem accepted_of_completed {baseUrl traceId : String} {d : Driver F}
    (h : At baseUrl traceId RuntimeState.completed d) (stage? : Option String) :
    Accepted (Run.validators stage? d) := by
  cases stage? with
  | none | some stage => exact ⟨h.unrejected, fun _ => h.state⟩

section Pipeline
variable [FloatCodec F] [SetText F] {I : Interpreter F} {N : Nodes F} {baseUrl traceId : String}
  {d : Driver F}

/-- The two calls before the first packet. -/
theorem pipeline_eq (I : Interpreter F) (N : Nodes F) (baseUrl traceId : String)
    (config : GovernanceConfig) (pairs : List (String × String)) :
    ∃ d, At baseUrl traceId RuntimeState.captureReady d ∧
      Run.pipeline I N traceId pairs (startOf baseUrl traceId config) =
        Run.nodes I N traceId pairs d := by
  have hstart : At baseUrl traceId RuntimeState.registered
      (startOf (F := F) baseUrl traceId config) :=
    ⟨unnested_new _ _ _, rfl, rfl, List.forall_mem_nil _⟩
  obtain ⟨d₁, hinit₁, hat₁⟩ := init_at (I := I) hstart "init_scoped" RuntimeState.scopedState "init"
    (by decide +kernel)
  obtain ⟨d₂, hinit₂, hat₂⟩ := init_at (I := I) hat₁ "init_capture_ready"
    RuntimeState.captureReady "init2" (by decide +kernel)
  exact ⟨d₂, hat₂, by rw [Run.pipeline, Run.bind_ok hinit₁, Run.bind_ok hinit₂]⟩

theorem accepted_of_one {pair : String × String} (hfaultless : Faultless N [pair])
    (h : At baseUrl traceId RuntimeState.captureReady d) :
    Accepted (Run.nodes I N traceId [pair] d) := by
  obtain ⟨packets, skeletons, traces, graph, spec, report, hpackets, hskeletons, htraces, hgraph,
    hspec, hreport⟩ := hfaultless
  obtain ⟨packet, _, hpacket, hnil, rfl⟩ := List.forall₂_cons_left_iff.mp hpackets
  cases hnil
  obtain ⟨skeleton, _, hskeleton, hnil, rfl⟩ := List.forall₂_cons_left_iff.mp hskeletons
  cases hnil
  obtain ⟨trace, _, htrace, hnil, rfl⟩ := List.forall₂_cons_left_iff.mp htraces
  cases hnil
  obtain ⟨d₁, hacquire, hat₁⟩ : ∃ d', Run.acquire I N traceId pair d = (.ok packet, d') ∧
      At baseUrl traceId RuntimeState.capturing d' := node_at h (by decide +kernel) hpacket
  obtain ⟨d₂, hextract, hat₂⟩ : ∃ d', Run.extract I N traceId packet d₁ = (.ok skeleton, d') ∧
      At baseUrl traceId RuntimeState.normalizing d' := node_at hat₁ (by decide +kernel) hskeleton
  obtain ⟨d₃, htype, hat₃⟩ : ∃ d', Run.typeTrace I N traceId (packet, skeleton) d₂ =
      (.ok trace, d') ∧ At baseUrl traceId RuntimeState.extracting d' :=
    node_at hat₂ (by decide +kernel) htrace
  obtain ⟨d₄, hmap, hat₄⟩ : ∃ d', Run.mapFlow I N traceId [trace] d₃ = (.ok graph, d') ∧
      At baseUrl traceId RuntimeState.assemblingIr d' := node_at hat₃ (by decide +kernel) hgraph
  obtain ⟨d₅, hsynthesize, hat₅⟩ : ∃ d', Run.synthesize I N traceId [trace] graph d₄ =
      (.ok spec, d') ∧ At baseUrl traceId RuntimeState.generatingSpec d' :=
    node_at hat₄ (by decide +kernel) hspec
  obtain ⟨d₆, hverify, hat₆⟩ : ∃ d', Run.verify I N traceId spec [packet] d₅ = (.ok report, d') ∧
      At baseUrl traceId RuntimeState.completed d' := node_at hat₅ (by decide +kernel) hreport
  have hzip : [packet].zip [skeleton] = [(packet, skeleton)] := rfl
  rw [Run.nodes, Run.bind_ok (Run.forEach_one hacquire), Run.bind_ok (Run.forEach_one hextract),
    hzip, Run.bind_ok (Run.forEach_one htype)]
  refine accepted_validators hat₃ _ ?_
  rw [Run.bind_ok hmap, Run.bind_ok hsynthesize, Run.bind_ok hverify]
  exact accepted_of_completed hat₆ _

/-- The acquisition of the second pair is refused. -/
theorem not_accepted_of_two {pair pair' : String × String} {pairs : List (String × String)}
    (hfaultless : Faultless N (pair :: pair' :: pairs))
    (h : At baseUrl traceId RuntimeState.captureReady d) :
    ¬ Accepted (Run.nodes I N traceId (pair :: pair' :: pairs) d) := by
  obtain ⟨packets, -, -, -, -, -, hpackets, -⟩ := hfaultless
  obtain ⟨packet, _, hpacket, -, -⟩ := List.forall₂_cons_left_iff.mp hpackets
  obtain ⟨d₁, hacquire, hat₁⟩ : ∃ d', Run.acquire I N traceId pair d = (.ok packet, d') ∧
      At baseUrl traceId RuntimeState.capturing d' := node_at h (by decide +kernel) hpacket
  obtain ⟨e, d₂, hrefused, rejected, hmem, hrejected⟩ : ∃ e d',
      Run.acquire I N traceId pair' d₁ = (.error e, d') ∧ ∃ e ∈ d'.executions, Rejected e :=
    node_refused hat₁ (by decide +kernel)
  intro haccepted
  rw [Run.nodes, Run.bind_error (Run.forEach_second hacquire hrefused)] at haccepted
  exact haccepted.unrejected rejected hmem hrejected

end Pipeline

/-! ### Workers that return empty dumps -/

def blank : Nodes Literal where
  fromRawHttpPair _ := .ok []
  extract _ := .ok []
  analyze _ _ := .ok []
  mapFlow _ := .ok []
  synthesize _ _ := .ok []
  verify _ _ := .ok []
  valid _ _ := true
  inputPayload _ := ""
  checkpoint _ _ := none
  promotion _ _ _ _ := none

theorem yields_blank (name : String) : Yields blank.valid name (.ok []) [] := by
  refine ⟨[], String.ofList ((Document.obj [] : Document Literal).render .spaced), rfl, rfl,
    ?_, rfl⟩
  rw [loads, String.toList_ofList, parse_render]
  rfl

theorem forall₂_blank {α : Type} (name : String) (inputs : List α) :
    List.Forall₂ (fun _ payload => Yields blank.valid name (.ok []) payload) inputs
      (inputs.map fun _ => []) := by
  induction inputs with
  | nil => exact .nil
  | cons _ inputs ih => exact .cons (yields_blank name) ih

theorem faultless_blank (pairs : List (String × String)) : Faultless blank pairs :=
  ⟨_, _, _, [], [], [], forall₂_blank _ _, forall₂_blank _ _, forall₂_blank _ _, yields_blank _,
    yields_blank _, yields_blank _⟩

def onePair : List (String × String) := [("GET / HTTP/1.1", "HTTP/1.1 200 OK")]

def twoPairs : List (String × String) := onePair ++ [("GET /health HTTP/1.1", "HTTP/1.1 200 OK")]

/-- A run over traffic of which every worker makes something valid is accepted exactly when the
traffic is one pair. -/
theorem accepted_iff [FloatCodec F] [SetText F] (I : Interpreter F) (N : Nodes F)
    (baseUrl traceId : String) (config : GovernanceConfig) (pairs : List (String × String))
    (hpairs : pairs ≠ []) (hfaultless : Faultless N pairs) :
    Accepted (Run.pipeline I N traceId pairs (startOf baseUrl traceId config)) ↔
      pairs.length = 1 := by
  obtain ⟨d, hat, heq⟩ := pipeline_eq I N baseUrl traceId config pairs
  rw [heq]
  rcases pairs with _ | ⟨pair, _ | ⟨pair', pairs⟩⟩
  · exact absurd rfl hpairs
  · exact iff_of_true (accepted_of_one hfaultless hat) rfl
  · exact iff_of_false (not_accepted_of_two hfaultless hat) (by simp)

theorem accepted_iff_one_pair :
    Accepted (Run.pipeline textual blank "t1" onePair (startOf "http://host" "t1" ⟨3, 12000⟩)) :=
  (accepted_iff textual blank "http://host" "t1" ⟨3, 12000⟩ onePair (by decide)
    (faultless_blank onePair)).mpr rfl

theorem two_pairs_not_accepted :
    twoPairs ≠ [] ∧ Faultless blank twoPairs ∧
      ¬ Accepted (Run.pipeline textual blank "t1" twoPairs
        (startOf "http://host" "t1" ⟨3, 12000⟩)) := by
  obtain ⟨d, hat, heq⟩ := pipeline_eq textual blank "http://host" "t1" ⟨3, 12000⟩ twoPairs
  rw [heq]
  exact ⟨by decide, faultless_blank twoPairs, not_accepted_of_two (faultless_blank twoPairs) hat⟩

end PiPlatform.AgentChain.Governance
