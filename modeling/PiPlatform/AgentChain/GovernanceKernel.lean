import PiPlatform.Library.Python.JsonModule
import PiPlatform.Library.System

/-! The governance kernel.

A call of `execute` goes through the transition gate, the worker, the trip of its output through
JSON, the response model, the schema gate and the objective tracker, and the state moves when
all of them let it pass. Two things do not hold together with what the kernel says of itself.

Nothing asks `is_halted`: after a critical violation a call that the table authorizes runs its
worker like any other. So a halt is final exactly in the runs that have no such call
(`halt_final_iff`). And `artifacts` takes objects only: an output that is a list, a text or null
raises from the response model, outside of the `try`. So the kernel contains a worker exactly
when the gate refuses the call, the worker raises, or its output is an object
(`contained_iff`). -/
namespace PiPlatform.AgentChain.Governance

open Library Library.Json Library.Python

variable {F : Type}

/-! ### Statuses, states and rules -/

inductive WorkerStatus where
  | success | failure | retryableFailure | invalidInput | timeout | insufficientEvidence
  | verificationMismatch | objectiveDriftDetected | branchOverflow | invalidOutput
  deriving DecidableEq

def WorkerStatus.value : WorkerStatus → String
  | success => "SUCCESS"
  | failure => "FAILURE"
  | retryableFailure => "RETRYABLE_FAILURE"
  | invalidInput => "INVALID_INPUT"
  | timeout => "TIMEOUT"
  | insufficientEvidence => "INSUFFICIENT_EVIDENCE"
  | verificationMismatch => "VERIFICATION_MISMATCH"
  | objectiveDriftDetected => "OBJECTIVE_DRIFT_DETECTED"
  | branchOverflow => "BRANCH_OVERFLOW"
  | invalidOutput => "INVALID_OUTPUT"

/-! States are texts, and a call may name any. -/
namespace RuntimeState

def registered : String := "REGISTERED"
def scopedState : String := "SCOPED"
def captureReady : String := "CAPTURE_READY"
def capturing : String := "CAPTURING"
def normalizing : String := "NORMALIZING"
def extracting : String := "EXTRACTING"
def verifying : String := "VERIFYING"
def assemblingIr : String := "ASSEMBLING_IR"
def generatingSpec : String := "GENERATING_SPEC"
def completed : String := "COMPLETED"
def failed : String := "FAILED"
def retryPending : String := "RETRY_PENDING"
def invalidEvidence : String := "INVALID_EVIDENCE"

end RuntimeState

structure TransitionRule where
  fromState : String
  toState : String
  requiredWorkerStatus : WorkerStatus
  maxDepth : Nat
  maxBranchCount : Nat
  deriving DecidableEq

/-- With the defaults of `TransitionRule`. -/
def ruleOn (status : WorkerStatus) (fromState toState : String) : TransitionRule :=
  ⟨fromState, toState, status, 3, 8⟩

open RuntimeState in
/-- `CANONICAL_TRANSITIONS` -/
def canonicalTransitions : List TransitionRule :=
  [ruleOn .success registered scopedState,
    ruleOn .success scopedState captureReady,
    ruleOn .success captureReady capturing,
    ruleOn .success capturing normalizing,
    ruleOn .success normalizing extracting,
    ruleOn .success extracting assemblingIr,
    ruleOn .success assemblingIr generatingSpec,
    ruleOn .success generatingSpec completed,
    ruleOn .failure registered failed,
    ruleOn .failure scopedState failed,
    ruleOn .failure captureReady failed,
    ruleOn .failure capturing failed,
    ruleOn .failure normalizing failed,
    ruleOn .failure extracting failed,
    ruleOn .failure verifying failed,
    ruleOn .failure assemblingIr failed,
    ruleOn .failure generatingSpec failed,
    ruleOn .retryableFailure failed retryPending,
    ruleOn .insufficientEvidence extracting invalidEvidence,
    ruleOn .verificationMismatch verifying invalidEvidence]

inductive Severity where
  | warning | error | critical
  deriving DecidableEq

structure GovernanceViolation (F : Type) where
  rule : String
  workerId : String
  rootGoalId : String
  severity : Severity
  context : List (String × PyValue F)
  actionTaken : String

def text (s : String) : PyValue F := .str (ofString s)

/-! ### The transition gate -/

/-- The rule for the two states: of several the last one would count. -/
def rule? (currentState proposedState : String) : Option TransitionRule :=
  (Dict.ofList (canonicalTransitions.map fun r => ((r.fromState, r.toState), r))).get?
    (currentState, proposedState)

/-- The gate takes any integers; the kernel gives it its own counters, which start from zero. -/
def TransitionGate.validate (currentState proposedState workerId rootGoalId : String)
    (status : WorkerStatus) (depth branchCount : Int) : Option (GovernanceViolation F) :=
  let violation (rule : String) (severity : Severity) (context : List (String × PyValue F)) :
      Option (GovernanceViolation F) :=
    some ⟨rule, workerId, rootGoalId, severity, context, "HALT"⟩
  match rule? currentState proposedState with
  | none =>
    violation "TRANSITION_NOT_ALLOWED" .critical
      [("from_state", text currentState), ("proposed_state", text proposedState),
        ("reason", text "No rule authorizes this transition")]
  | some rule =>
    if status ≠ rule.requiredWorkerStatus then
      violation "STATUS_MISMATCH" .error
        [("required_status", text rule.requiredWorkerStatus.value),
          ("actual_status", text status.value)]
    else if rule.maxDepth ≤ depth then
      violation "MAX_DEPTH_EXCEEDED" .critical
        [("depth", .int depth), ("max_depth", .int rule.maxDepth)]
    else if rule.maxBranchCount ≤ branchCount then
      violation "BRANCH_OVERFLOW" .critical
        [("branch_count", .int branchCount), ("max_branch_count", .int rule.maxBranchCount)]
    else none

/-! ### The schema gate -/

structure Schema where
  required : List String
  /-- The expected type of each property. -/
  properties : List (String × String)

/-- All workers have the same one. -/
def workerOutputSchema : Schema where
  required := ["payload", "type"]
  properties := [("payload", "object"), ("type", "string")]

/-- `WORKER_OUTPUT_SCHEMAS` -/
def workerOutputSchemas : List (String × Schema) :=
  ["acquisition_gateway", "structural_extractor", "semantic_typer", "flow_mapper",
    "spec_synthesizer", "verifier"].map fun workerId => (workerId, workerOutputSchema)

/-- `type(value).__name__` -/
def typeName : PyValue F → String
  | .none => "NoneType"
  | .bool _ => "bool"
  | .int _ => "int"
  | .float _ => "float"
  | .str _ => "str"
  | .list _ => "list"
  | .tuple _ => "tuple"
  | .set _ => "set"
  | .dict _ => "dict"

/-- The names of the types whose values are accepted, where the schema expects a type. -/
def acceptedTypes : String → Option (List String)
  | "array" => some ["list"]
  | "object" => some ["dict"]
  | "string" => some ["str"]
  | "integer" => some ["int", "bool"]
  | "boolean" => some ["bool"]
  | "number" => some ["int", "float", "bool"]
  | _ => none

/-- The items of an object. -/
abbrev Items (F : Type) := List (Key × PyValue F)

def keyOf (name : String) : Key := .str (ofString name)

/-- `_check_required`: the field and the reason. -/
def checkRequired (schema : Schema) (payload : Items F) : Option (String × String) :=
  (schema.required.find? fun key => keyOf key ∉ payload.map Prod.fst).map fun key =>
    (key, "Missing required field '" ++ key ++ "'")

/-- `_check_types` -/
def checkTypes (schema : Schema) (payload : Items F) : Option (String × String) :=
  payload.findSome? fun p =>
    (schema.properties.find? fun property => keyOf property.1 = p.1).bind fun property =>
      (acceptedTypes property.2).bind fun types =>
        if typeName p.2 ∈ types then none
        else some (property.1, "Expected " ++ property.2 ++ ", got " ++ typeName p.2)

/-- `SchemaGate.validate` -/
def validateSchema (workerId rootGoalId : String) (payload : Items F) :
    Option (GovernanceViolation F) :=
  (lookupItem workerId workerOutputSchemas).bind fun schema =>
    ((checkRequired schema payload).or (checkTypes schema payload)).map fun breach =>
      { rule := "INVALID_OUTPUT"
        workerId := workerId
        rootGoalId := rootGoalId
        severity := .error
        context := [("field", text breach.1), ("reason", text breach.2),
          ("payload_keys", .list (payload.map fun p => .str p.1.text))]
        actionTaken := "HALT" }

/-! ### Envelopes and responses -/

structure GovernanceConfig where
  maxInferenceIterations : Int
  boundedContextWindow : Int

structure WorkerEnvelope (F : Type) where
  rootGoalId : String
  workerId : String
  stateId : String
  inputRef : String
  inputPayload : String
  executionBudget : List (String × Int)
  objectiveScope : Dict String (PyValue F)
  allowedTransitions : List String
  allowedWorkers : List String
  depth : Nat
  branchCount : Nat
  provenance : List String
  executionId : String
  parentExecutionId : String
  promptHash : String
  inputHash : String
  modelIdentifier : String
  schemaVersion : String

structure WorkerResponse (F : Type) where
  rootGoalId : String
  workerId : String
  status : WorkerStatus
  artifacts : List (Items F)
  errors : List String
  nextState : Option String
  inputHash : String
  outputHash : String
  executionTimeMs : Int
  executionId : String

/-! ### The objective tracker -/

/-- What the kernel takes from the interpreter and its libraries. -/
structure Interpreter (F : Type) where
  sha256 : String → String
  /-- `==` -/
  equal : PyValue F → PyValue F → Bool
  /-- `str(exc)`, where `json.dumps` raises -/
  describe : PyError → String

/-- `ObjectiveTracker.validate_worker_response` -/
def validateWorkerResponse (I : Interpreter F) (rootGoalId : String)
    (objectiveScope : Dict String (PyValue F)) (response : WorkerResponse F) :
    Option (GovernanceViolation F) :=
  let violation (rule : String) (context : List (String × PyValue F)) :
      Option (GovernanceViolation F) :=
    some ⟨rule, response.workerId, response.rootGoalId, .critical, context, "HALT"⟩
  if response.rootGoalId ≠ rootGoalId then
    violation "OBJECTIVE_DRIFT_DETECTED"
      [("expected_goal_id", text rootGoalId), ("actual_goal_id", text response.rootGoalId),
        ("reason", text "Worker emitted a different root_goal_id than registered")]
  else
    response.artifacts.findSome? fun artifact =>
      objectiveScope.items.findSome? fun entry =>
        (lookupItem (keyOf entry.1) artifact).bind fun actual =>
          if I.equal actual entry.2 then none
          else violation "SCOPE_MUTATION"
            [("key", text entry.1), ("expected", entry.2), ("actual", actual)]

/-! ### The kernel -/

structure GovernanceKernel (F : Type) where
  rootGoalId : String
  objectiveScope : Dict String (PyValue F)
  config : GovernanceConfig
  violations : List (GovernanceViolation F)
  currentState : String
  depth : Nat
  branchCount : Nat
  executionCounter : Nat

/-- A call of `execute`. A worker answers an envelope with a value or an exception, of which
the kernel reads the text. -/
structure ExecuteCall (F : Type) where
  workerId : String
  targetState : String
  workerFn : WorkerEnvelope F → Except String (PyValue F)
  inputPayload : String
  provenance : List String
  elapsedMs : Int

/-- What a call comes to: the response or pydantic's `ValidationError`, the kernel afterwards,
and the envelope of the worker if it was invoked. -/
structure Execution (F : Type) where
  outcome : Except Unit (WorkerResponse F)
  kernel : GovernanceKernel F
  invoked : Option (WorkerEnvelope F)

/-- `f"{n:04d}"` -/
def padded (n : Nat) : String :=
  String.ofList (List.replicate (4 - (toString n).length) '0') ++ toString n

namespace GovernanceKernel

def new (rootGoalId : String) (objectiveScope : Dict String (PyValue F))
    (config : GovernanceConfig) : GovernanceKernel F :=
  ⟨rootGoalId, objectiveScope, config, [], RuntimeState.registered, 0, 0, 0⟩

def isHalted (k : GovernanceKernel F) : Bool := k.violations.any fun v => v.severity = .critical

def executionId (k : GovernanceKernel F) (n : Nat) : String :=
  "exec_" ++ k.rootGoalId ++ "_" ++ padded n

/-- `_allowed_transitions_from` -/
def allowedTransitionsFrom (state : String) : List String :=
  (canonicalTransitions.filter fun r => r.fromState = state).map TransitionRule.toState

variable (I : Interpreter F)

/-- The next execution id is taken. -/
def counted (k : GovernanceKernel F) : GovernanceKernel F :=
  { k with executionCounter := k.executionCounter + 1 }

/-- What the worker is told. -/
def envelope (k : GovernanceKernel F) (call : ExecuteCall F) : WorkerEnvelope F where
  rootGoalId := k.rootGoalId
  workerId := call.workerId
  stateId := k.currentState
  inputRef := k.executionId k.executionCounter
  inputPayload := call.inputPayload
  executionBudget := [("max_tokens", k.config.boundedContextWindow), ("max_seconds", 30),
    ("max_retries", k.config.maxInferenceIterations)]
  objectiveScope := k.objectiveScope
  allowedTransitions := allowedTransitionsFrom k.currentState
  allowedWorkers := [call.workerId]
  depth := k.depth
  branchCount := k.branchCount
  provenance := call.provenance
  executionId := k.executionId k.executionCounter
  parentExecutionId :=
    if k.executionCounter = 1 then k.executionId 1 else k.executionId (k.executionCounter - 1)
  promptHash := I.sha256 call.inputPayload
  inputHash := I.sha256 call.inputPayload
  modelIdentifier := "semantic-transformer-v1"
  schemaVersion := "1.0.0"

def record (k : GovernanceKernel F) (violation : GovernanceViolation F) : GovernanceKernel F :=
  { k with violations := k.violations ++ [violation] }

def reply (k : GovernanceKernel F) (call : ExecuteCall F) (status : WorkerStatus)
    (errors : List String) : WorkerResponse F where
  rootGoalId := k.rootGoalId
  workerId := call.workerId
  status := status
  artifacts := []
  errors := errors
  nextState := none
  inputHash := ""
  outputHash := ""
  executionTimeMs := 0
  executionId := k.executionId k.executionCounter

variable [FloatCodec F] [SetText F]

/-- The worker and the text of its output: what the `try` encloses. -/
def runWorker (call : ExecuteCall F) (envelope : WorkerEnvelope F) : Except String String :=
  match call.workerFn envelope with
  | .error message => .error message
  | .ok output =>
    match dumps .spaced output with
    | .error e => .error (I.describe e)
    | .ok rawOutputJson => .ok rawOutputJson

/-- The output as it is read back. -/
def payloadOf (rawOutputJson : String) : PyValue F :=
  match loads rawOutputJson with
  | .ok payload => payload
  | .error _ => .dict [(keyOf "raw", text rawOutputJson)]

/-- A response that names the hashes of input and output. -/
def hashed (call : ExecuteCall F) (rawOutputJson : String) (response : WorkerResponse F) :
    WorkerResponse F :=
  { response with
    inputHash := I.sha256 call.inputPayload
    outputHash := I.sha256 rawOutputJson
    executionTimeMs := call.elapsedMs }

/-- The response with the output as its artifact. -/
def delivered (k : GovernanceKernel F) (call : ExecuteCall F) (rawOutputJson : String)
    (payload : Items F) : WorkerResponse F :=
  hashed I call rawOutputJson { k.reply call .success [] with artifacts := [payload] }

/-- Steps 4 to 7, with an output that is an object. -/
def settle (k : GovernanceKernel F) (call : ExecuteCall F) (rawOutputJson : String)
    (payload : Items F) : WorkerResponse F × GovernanceKernel F :=
  match validateSchema call.workerId k.rootGoalId payload with
  | some violation =>
    (hashed I call rawOutputJson
      (k.reply call .invalidOutput ["Schema violation: " ++ violation.rule]), k.record violation)
  | none =>
    match validateWorkerResponse I k.rootGoalId k.objectiveScope
        (k.delivered I call rawOutputJson payload) with
    | some violation =>
      (hashed I call rawOutputJson
        (k.reply call .objectiveDriftDetected ["Objective violation: " ++ violation.rule]),
        k.record violation)
    | none =>
      ({ k.delivered I call rawOutputJson payload with nextState := some call.targetState },
        { k with currentState := call.targetState })

/-- Steps 2 to 7: the transition is authorized. -/
def work (k : GovernanceKernel F) (call : ExecuteCall F) : Execution F :=
  match runWorker I call (k.envelope I call) with
  | .error message =>
    ⟨.ok { k.reply call .failure [message] with executionTimeMs := call.elapsedMs },
      k.record
        { rule := "WORKER_EXECUTION_FAILURE"
          workerId := call.workerId
          rootGoalId := k.rootGoalId
          severity := .error
          context := [("error", text message)]
          actionTaken := "HALT" },
      some (k.envelope I call)⟩
  | .ok rawOutputJson =>
    match payloadOf rawOutputJson with
    | .dict payload =>
      ⟨.ok (k.settle I call rawOutputJson payload).1, (k.settle I call rawOutputJson payload).2,
        some (k.envelope I call)⟩
    -- `artifacts: List[dict]` refuses anything else.
    | _ => ⟨.error (), k, some (k.envelope I call)⟩

def execute (k : GovernanceKernel F) (call : ExecuteCall F) : Execution F :=
  -- The bounds of the envelope's counters.
  if k.depth ≤ 3 ∧ k.branchCount ≤ 8 then
    match TransitionGate.validate k.currentState call.targetState call.workerId k.rootGoalId
      .success
        k.depth k.branchCount with
    | some violation =>
      ⟨.ok (k.counted.reply call .branchOverflow ["Transition blocked: " ++ violation.rule]),
        k.counted.record violation, none⟩
    | none => k.counted.work I call
  else ⟨.error (), k.counted, none⟩

end GovernanceKernel

/-! ### What the gate lets pass -/

/-- The table has the transition, for workers that succeed. -/
def Authorized (currentState targetState : String) : Prop :=
  ruleOn .success currentState targetState ∈ canonicalTransitions

instance (currentState targetState : String) : Decidable (Authorized currentState targetState) :=
  inferInstanceAs (Decidable (_ ∈ _))

theorem rule?_eq_some_iff {currentState proposedState : String} {rule : TransitionRule} :
    rule? currentState proposedState = some rule ↔
      rule ∈ canonicalTransitions ∧ rule.fromState = currentState ∧
        rule.toState = proposedState := by
  have hnodup : ((canonicalTransitions.map fun r => ((r.fromState, r.toState), r)).map
      Prod.fst).Nodup := by decide +kernel
  have hitems : (Dict.ofList (canonicalTransitions.map fun r =>
      ((r.fromState, r.toState), r))).items =
        canonicalTransitions.map fun r => ((r.fromState, r.toState), r) :=
    setItems_of_nodup _ hnodup
  rw [rule?, ← Dict.mem_items, hitems, List.mem_map]
  constructor
  · rintro ⟨r, hr, heq⟩
    obtain ⟨hkey, rfl⟩ := Prod.ext_iff.mp heq
    obtain ⟨hfrom, hto⟩ := Prod.ext_iff.mp hkey
    exact ⟨hr, hfrom, hto⟩
  · rintro ⟨hr, rfl, rfl⟩
    exact ⟨rule, hr, rfl⟩

theorem mem_canonical {rule : TransitionRule} (h : rule ∈ canonicalTransitions) :
    rule = ruleOn rule.requiredWorkerStatus rule.fromState rule.toState := by
  revert rule
  decide +kernel

theorem validate_eq_none_iff {currentState targetState workerId rootGoalId : String} :
    (TransitionGate.validate currentState targetState workerId rootGoalId .success 0 0 :
      Option (GovernanceViolation F)) = none ↔ Authorized currentState targetState := by
  rw [TransitionGate.validate, Authorized]
  cases hrule : rule? currentState targetState with
  | none =>
    refine iff_of_false (fun h => by cases h) fun h => ?_
    have hsome := rule?_eq_some_iff.mpr ⟨h, rfl, rfl⟩
    exact absurd (hrule.symm.trans hsome) (by simp)
  | some rule =>
    obtain ⟨hmem, rfl, rfl⟩ := rule?_eq_some_iff.mp hrule
    have hcanonical := mem_canonical hmem
    have hdepth : rule.maxDepth ≠ 0 := by
      rw [hcanonical]
      exact Nat.succ_ne_zero _
    have hbranch : rule.maxBranchCount ≠ 0 := by
      rw [hcanonical]
      exact Nat.succ_ne_zero _
    by_cases hstatus : WorkerStatus.success = rule.requiredWorkerStatus
    · rw [hstatus, ← hcanonical]
      simp [hdepth, hbranch, hmem]
    · refine iff_of_false (by simp [hstatus]) fun h => hstatus ?_
      have hsome := rule?_eq_some_iff.mpr ⟨h, rfl, rfl⟩
      exact congrArg TransitionRule.requiredWorkerStatus (Option.some.inj (hsome.symm.trans hrule))

/-! ### Outputs that are objects -/

def isObject : PyValue F → Bool
  | .dict _ => true
  | _ => false

theorem isObject_load_join (t : Document F) : isObject (load t.join) = true ↔
    ∃ ms, t = .obj ms := by
  cases t <;> simp [Document.join, load, isObject]

section Outputs
variable [SetText F]

theorem isObject_of_emit {v : PyValue F} {t : Document F} (h : emit v = .ok t) :
    isObject v = true ↔ ∃ ms, t = .obj ms := by
  have harray : ∀ {xs : List (PyValue F)}, (do return .arr (← emitElems xs)) = Except.ok t →
      ¬ ∃ ms, t = .obj ms := by
    intro xs h
    obtain ⟨ts, -, ht⟩ := bind_ok h
    obtain rfl := Except.ok.inj ht
    simp
  have hatom : ∀ {t' : Document F}, (∀ ms, t' ≠ .obj ms) → Except.ok (ε := PyError) t' = .ok t →
      ¬ ∃ ms, t = .obj ms := by
    intro t' hnot h
    obtain rfl := Except.ok.inj h
    exact fun ⟨ms, hms⟩ => hnot ms hms
  cases v with
  | none | bool b | int i | float x | str s | set xs =>
    exact iff_of_false Bool.false_ne_true (hatom (by simp) h)
  | list xs | tuple xs => exact iff_of_false Bool.false_ne_true (harray h)
  | dict items =>
    obtain ⟨ts, -, h⟩ := bind_ok h
    obtain ⟨ms, -, h⟩ := bind_ok h
    exact iff_of_true rfl ⟨ms, (Except.ok.inj h).symm⟩

theorem payloadOf_dumps [FloatCodec F] {output : PyValue F} {rawOutputJson : String}
    (h : dumps .spaced output = .ok rawOutputJson) :
    ∃ t, emit output = .ok t ∧ GovernanceKernel.payloadOf rawOutputJson = load t.join := by
  obtain ⟨t, ht, htext⟩ := bind_ok h
  obtain rfl := Except.ok.inj htext
  exact ⟨t, ht, by rw [GovernanceKernel.payloadOf, loads, String.toList_ofList, parse_render]⟩

/-- What is read back is an object exactly when the output is one. -/
theorem isObject_payloadOf [FloatCodec F] {output : PyValue F} {rawOutputJson : String}
    (h : dumps .spaced output = .ok rawOutputJson) :
    isObject (GovernanceKernel.payloadOf rawOutputJson : PyValue F) = isObject output := by
  obtain ⟨t, ht, hpayload⟩ := payloadOf_dumps h
  rw [hpayload, Bool.eq_iff_iff, isObject_of_emit ht]
  exact isObject_load_join t

end Outputs

/-! ### What a call does -/

/-- Nothing ever counts these two up. -/
structure Unnested (k : GovernanceKernel F) : Prop where
  depth : k.depth = 0
  branchCount : k.branchCount = 0

theorem unnested_new (rootGoalId : String) (objectiveScope : Dict String (PyValue F))
    (config : GovernanceConfig) : Unnested (.new rootGoalId objectiveScope config) := ⟨rfl, rfl⟩

section Calls
variable [FloatCodec F] [SetText F] {I : Interpreter F} {k : GovernanceKernel F}
  {call : ExecuteCall F}

/-- The worker returns, and its output passes both checks. -/
def Delivers (I : Interpreter F) (k : GovernanceKernel F) (call : ExecuteCall F) : Prop :=
  ∃ rawOutputJson payload, GovernanceKernel.runWorker I call (k.envelope I call) =
      .ok rawOutputJson ∧
    GovernanceKernel.payloadOf rawOutputJson = .dict payload ∧
    validateSchema call.workerId k.rootGoalId payload = none ∧
    validateWorkerResponse I k.rootGoalId k.objectiveScope
      (k.delivered I call rawOutputJson payload) = none

/-- The worker raises, or returns an object, or what `json.dumps` refuses. -/
def RaisesOrObject (I : Interpreter F) (k : GovernanceKernel F) (call : ExecuteCall F) : Prop :=
  ∀ output, call.workerFn (k.envelope I call) = .ok output →
    isObject output = true ∨ ∃ e, dumps .spaced output = .error e

theorem runWorker_ok_iff {envelope : WorkerEnvelope F} {rawOutputJson : String} :
    GovernanceKernel.runWorker I call envelope = .ok rawOutputJson ↔
      ∃ output, call.workerFn envelope = .ok output ∧ dumps .spaced output = .ok rawOutputJson := by
  rw [GovernanceKernel.runWorker]
  cases call.workerFn envelope with
  | error message => simp
  | ok output => cases hdumps : dumps .spaced output <;> simp [hdumps]

theorem raisesOrObject_iff : RaisesOrObject I k call ↔ ∀ rawOutputJson,
    GovernanceKernel.runWorker I call (k.envelope I call) = .ok rawOutputJson →
      isObject (GovernanceKernel.payloadOf rawOutputJson : PyValue F) = true := by
  constructor
  · intro h rawOutputJson hrun
    obtain ⟨output, houtput, hdumps⟩ := runWorker_ok_iff.mp hrun
    rw [isObject_payloadOf hdumps]
    refine (h output houtput).resolve_right fun ⟨e, he⟩ => ?_
    rw [hdumps] at he
    cases he
  · intro h output houtput
    cases hdumps : dumps .spaced output with
    | error e => exact .inr ⟨e, rfl⟩
    | ok rawOutputJson =>
      rw [← isObject_payloadOf hdumps]
      exact .inl (h rawOutputJson (runWorker_ok_iff.mpr ⟨output, houtput, hdumps⟩))

theorem execute_unauthorized (h : Unnested k)
    (hnot : ¬ Authorized k.currentState call.targetState) :
    ∃ violation, k.execute I call =
      ⟨.ok (k.counted.reply call .branchOverflow ["Transition blocked: " ++ violation.rule]),
        k.counted.record violation, none⟩ := by
  cases hgate : (TransitionGate.validate k.currentState call.targetState call.workerId k.rootGoalId
      .success 0 0 : Option (GovernanceViolation F)) with
  | none => exact absurd (validate_eq_none_iff.mp hgate) hnot
  | some violation =>
    exact ⟨violation, by simp [GovernanceKernel.execute, h.depth, h.branchCount, hgate]⟩

theorem execute_authorized (h : Unnested k)
    (hauthorized : Authorized k.currentState call.targetState) :
    k.execute I call = k.counted.work I call := by
  have hgate : (TransitionGate.validate k.currentState call.targetState call.workerId k.rootGoalId
      .success 0 0 : Option (GovernanceViolation F)) = none :=
    validate_eq_none_iff.mpr hauthorized
  simp [GovernanceKernel.execute, h.depth, h.branchCount, hgate]

/-- An output that passes both checks. -/
theorem work_eq {rawOutputJson : String} {payload : Items F}
    (hrun : GovernanceKernel.runWorker I call (k.envelope I call) = .ok rawOutputJson)
    (hpayload : (GovernanceKernel.payloadOf rawOutputJson : PyValue F) = .dict payload)
    (hschema : validateSchema (F := F) call.workerId k.rootGoalId payload = none)
    (hobjective : validateWorkerResponse I k.rootGoalId k.objectiveScope
      (k.delivered I call rawOutputJson payload) = none) :
    k.work I call =
      ⟨.ok { k.delivered I call rawOutputJson payload with nextState := some call.targetState },
        { k with currentState := call.targetState }, some (k.envelope I call)⟩ := by
  simp only [GovernanceKernel.work, GovernanceKernel.settle, hrun, hpayload, hschema, hobjective]

/-- The three ways in which an authorized call ends. -/
theorem work_cases (I : Interpreter F) (k : GovernanceKernel F) (call : ExecuteCall F) :
    (RaisesOrObject I k call ∧ ¬ Delivers I k call ∧ ∃ response violation,
      k.work I call = ⟨.ok response, k.record violation, some (k.envelope I call)⟩ ∧
        response.status ≠ .success) ∨
    (RaisesOrObject I k call ∧ Delivers I k call ∧ ∃ response,
      k.work I call = ⟨.ok response, { k with currentState := call.targetState },
        some (k.envelope I call)⟩ ∧ response.status = .success) ∨
    (¬ RaisesOrObject I k call ∧
      k.work I call = ⟨.error (), k, some (k.envelope I call)⟩) := by
  rw [raisesOrObject_iff, GovernanceKernel.work, Delivers]
  cases hrun : GovernanceKernel.runWorker I call (k.envelope I call) with
  | error message =>
    refine .inl ⟨fun _ h => ?_, fun ⟨_, _, h, _⟩ => ?_, _, _, rfl, ?_⟩
    · cases h
    · cases h
    · exact fun h => by cases h
  | ok rawOutputJson =>
    dsimp only
    cases hpayload : (GovernanceKernel.payloadOf rawOutputJson : PyValue F) with
    | dict payload =>
      have hobject : ∀ rawOutputJson', Except.ok (ε := String) rawOutputJson = .ok rawOutputJson' →
          isObject (GovernanceKernel.payloadOf rawOutputJson' : PyValue F) = true := by
        intro rawOutputJson' h
        rw [← Except.ok.inj h, hpayload]
        rfl
      dsimp only
      rw [GovernanceKernel.settle]
      cases hschema : validateSchema call.workerId k.rootGoalId payload with
      | some violation =>
        refine .inl ⟨hobject, fun ⟨_, _, hrun, hdict, hnone, _⟩ => ?_, _, _, rfl, ?_⟩
        · obtain rfl := Except.ok.inj hrun
          rw [← PyValue.dict.inj (hpayload.symm.trans hdict), hschema] at hnone
          cases hnone
        · exact fun h => by cases h
      | none =>
        dsimp only
        cases hobjective : validateWorkerResponse I k.rootGoalId k.objectiveScope
            (k.delivered I call rawOutputJson payload) with
        | some violation =>
          refine .inl ⟨hobject, fun ⟨_, _, hrun, hdict, _, hnone⟩ => ?_, _, _, rfl, ?_⟩
          · obtain rfl := Except.ok.inj hrun
            rw [← PyValue.dict.inj (hpayload.symm.trans hdict), hobjective] at hnone
            cases hnone
          · exact fun h => by cases h
        | none =>
          exact .inr (.inl ⟨hobject, ⟨rawOutputJson, payload, rfl, hpayload, hschema, hobjective⟩,
            _,
            rfl, rfl⟩)
    | _ =>
      refine .inr (.inr ⟨fun h => ?_, rfl⟩)
      have hobject := h rawOutputJson rfl
      rw [hpayload] at hobject
      cases hobject

/-- What `execute` does, from a kernel whose counters are at rest. -/
theorem unnested_execute (h : Unnested k) : Unnested (k.execute I call).kernel := by
  by_cases hauthorized : Authorized k.currentState call.targetState
  · rw [execute_authorized h hauthorized]
    rcases work_cases I k.counted call with ⟨-, -, _, _, heq, -⟩ | ⟨-, -, _, heq, -⟩ | ⟨-, heq⟩
    all_goals
      rw [heq]
      exact ⟨h.depth, h.branchCount⟩
  · obtain ⟨violation, heq⟩ := execute_unauthorized (I := I) h hauthorized
    rw [heq]
    exact ⟨h.depth, h.branchCount⟩

end Calls

/-! ### Runs -/

section Runs
variable [FloatCodec F] [SetText F] (I : Interpreter F) (rootGoalId : String)
  (objectiveScope : Dict String (PyValue F)) (config : GovernanceConfig)

def executions : System (GovernanceKernel F) (ExecuteCall F) where
  initial := .new rootGoalId objectiveScope config
  step k call := (k.execute I call).kernel

theorem unnested_after (acts : List (ExecuteCall F)) :
    Unnested ((executions I rootGoalId objectiveScope config).after acts) :=
  (executions I rootGoalId objectiveScope config).invariant Unnested
    (unnested_new rootGoalId objectiveScope config) (fun _ _ h => unnested_execute h) acts

end Runs

variable [FloatCodec F] [SetText F] (I : Interpreter F)

/-! ### Containment -/

/-- The call answers, with success and the new state exactly when the transition is legal and
the worker delivers, and otherwise with one violation more. -/
structure Contained (k : GovernanceKernel F) (call : ExecuteCall F) : Prop where
  responds : ∃ response, (k.execute I call).outcome = .ok response
  success_iff : ∀ response, (k.execute I call).outcome = .ok response →
    (response.status = .success ∧ (k.execute I call).kernel.currentState = call.targetState ↔
      Authorized k.currentState call.targetState ∧ Delivers I k.counted call)
  otherwise : ¬ (Authorized k.currentState call.targetState ∧ Delivers I k.counted call) →
    (k.execute I call).kernel.currentState = k.currentState ∧
      ∃ violation, (k.execute I call).kernel.violations = k.violations ++ [violation]

/-- After any calls, the kernel contains the worker of a further one exactly when the transition
is illegal, or the worker raises or returns an object. -/
theorem contained_iff (rootGoalId : String) (objectiveScope : Dict String (PyValue F))
    (config : GovernanceConfig) (acts : List (ExecuteCall F)) (call : ExecuteCall F) :
    Contained I ((executions I rootGoalId objectiveScope config).after acts) call ↔
      ¬ Authorized ((executions I rootGoalId objectiveScope config).after acts).currentState
          call.targetState ∨
        RaisesOrObject I ((executions I rootGoalId objectiveScope config).after acts).counted
          call := by
  have h := unnested_after I rootGoalId objectiveScope config acts
  generalize (executions I rootGoalId objectiveScope config).after acts = k at *
  by_cases hauthorized : Authorized k.currentState call.targetState
  · have heq := execute_authorized (I := I) h hauthorized
    rcases work_cases I k.counted call with ⟨hobject, hnot, response, violation, hwork, hstatus⟩ |
      ⟨hobject, hdelivers, response, hwork, hstatus⟩ | ⟨hobject, hwork⟩
    · rw [hwork] at heq
      refine iff_of_true ⟨?_, ?_, ?_⟩ (.inr hobject)
      all_goals rw [heq]
      · exact ⟨response, rfl⟩
      · intro response' hresponse
        obtain rfl := Except.ok.inj hresponse
        exact iff_of_false (fun h => hstatus h.1) fun h => hnot h.2
      · exact fun _ => ⟨rfl, violation, rfl⟩
    · rw [hwork] at heq
      refine iff_of_true ⟨?_, ?_, ?_⟩ (.inr hobject)
      all_goals rw [heq]
      · exact ⟨response, rfl⟩
      · intro response' hresponse
        obtain rfl := Except.ok.inj hresponse
        exact iff_of_true ⟨hstatus, rfl⟩ ⟨hauthorized, hdelivers⟩
      · exact fun hnot => absurd ⟨hauthorized, hdelivers⟩ hnot
    · rw [hwork] at heq
      refine iff_of_false (fun hcontained => ?_) fun h => h.elim (fun h => h hauthorized) hobject
      obtain ⟨response, hresponse⟩ := hcontained.responds
      rw [heq] at hresponse
      cases hresponse
  · obtain ⟨violation, heq⟩ := execute_unauthorized (I := I) h hauthorized
    refine iff_of_true ⟨?_, ?_, ?_⟩ (.inl hauthorized)
    all_goals rw [heq]
    · exact ⟨_, rfl⟩
    · intro response hresponse
      obtain rfl := Except.ok.inj hresponse
      refine iff_of_false (fun h => ?_) fun h => hauthorized h.1
      cases h.1
    · exact fun _ => ⟨rfl, violation, rfl⟩

/-- `==` on values of JSON, of which the texts are compared. -/
def textual : Interpreter Literal where
  sha256 := id
  equal v w :=
    match dumps .compact v, dumps .compact w with
    | .ok s, .ok t => s = t
    | _, _ => false
  describe _ := "'<' not supported between instances of 'str' and 'int'"

/-- A worker that answers with a value, for the next state. -/
def answering (workerId targetState : String) (output : PyValue Literal) : ExecuteCall Literal :=
  ⟨workerId, targetState, fun _ => .ok output, "init", [], 0⟩

/-- A worker that returns null is not contained. -/
theorem null_not_contained :
    ¬ Contained textual (.new "goal" .empty ⟨3, 12000⟩)
      (answering "runtime_orchestrator" RuntimeState.scopedState .none) := by
  intro h
  obtain ⟨response, hresponse⟩ := h.responds
  rw [execute_authorized (unnested_new _ _ _) (by decide +kernel)] at hresponse
  have hnot : ∀ k, ¬ RaisesOrObject textual k
      (answering "runtime_orchestrator" RuntimeState.scopedState .none) := by
    intro k h
    rcases h .none rfl with h | ⟨e, h⟩
    · cases h
    · cases h
  rcases work_cases textual (GovernanceKernel.new "goal" .empty ⟨3, 12000⟩).counted
    (answering "runtime_orchestrator" RuntimeState.scopedState .none) with h | h | ⟨-, heq⟩
  · exact hnot _ h.1
  · exact hnot _ h.1
  · rw [heq] at hresponse
    cases hresponse

/-! ### Halts -/

/-- A halted kernel invokes no worker and stays where it is; and a kernel moves by the table
only, with success. -/
structure HaltsForGood (k : GovernanceKernel F) (call : ExecuteCall F) : Prop where
  halted : k.isHalted = true → (k.execute I call).invoked = none ∧
    (k.execute I call).kernel.currentState = k.currentState
  moves : (k.execute I call).kernel.currentState ≠ k.currentState →
    Authorized k.currentState (k.execute I call).kernel.currentState ∧
      ∃ response, (k.execute I call).outcome = .ok response ∧ response.status = .success

section Halts
variable {I} {k : GovernanceKernel F} {call : ExecuteCall F}

theorem invoked_of_authorized (h : Unnested k)
    (hauthorized : Authorized k.currentState call.targetState) :
    (k.execute I call).invoked ≠ none := by
  rw [execute_authorized h hauthorized]
  rcases work_cases I k.counted call with ⟨-, -, _, _, heq, -⟩ | ⟨-, -, _, heq, -⟩ | ⟨-, heq⟩
  all_goals
    rw [heq]
    exact Option.some_ne_none _

theorem moves_of_execute (h : Unnested k)
    (hmoves : (k.execute I call).kernel.currentState ≠ k.currentState) :
    Authorized k.currentState (k.execute I call).kernel.currentState ∧
      ∃ response, (k.execute I call).outcome = .ok response ∧ response.status = .success := by
  by_cases hauthorized : Authorized k.currentState call.targetState
  · rw [execute_authorized h hauthorized] at hmoves ⊢
    rcases work_cases I k.counted call with ⟨-, -, _, _, heq, -⟩ | ⟨-, -, response, heq, hstatus⟩ |
      ⟨-, heq⟩
    · exact absurd (congrArg (GovernanceKernel.currentState ∘ Execution.kernel) heq) hmoves
    · rw [heq]
      exact ⟨hauthorized, response, rfl, hstatus⟩
    · exact absurd (congrArg (GovernanceKernel.currentState ∘ Execution.kernel) heq) hmoves
  · obtain ⟨violation, heq⟩ := execute_unauthorized (I := I) h hauthorized
    exact absurd (congrArg (GovernanceKernel.currentState ∘ Execution.kernel) heq) hmoves

theorem haltsForGood_iff (h : Unnested k) : HaltsForGood I k call ↔
    (k.isHalted = true → ¬ Authorized k.currentState call.targetState) := by
  constructor
  · exact fun hgood hhalted hauthorized =>
      invoked_of_authorized h hauthorized (hgood.halted hhalted).1
  · refine fun hrule => ⟨fun hhalted => ?_, moves_of_execute h⟩
    obtain ⟨violation, heq⟩ := execute_unauthorized (I := I) h (hrule hhalted)
    rw [heq]
    exact ⟨rfl, rfl⟩

end Halts

/-- A halt is final in exactly the runs in which no call after a critical violation asks for a
transition of the table. -/
theorem halt_final_iff (rootGoalId : String) (objectiveScope : Dict String (PyValue F))
    (config : GovernanceConfig) (acts : List (ExecuteCall F)) :
    (executions I rootGoalId objectiveScope config).Admits (HaltsForGood I) acts ↔
      (executions I rootGoalId objectiveScope config).Admits
        (fun k call => k.isHalted = true → ¬ Authorized k.currentState call.targetState) acts :=
  (executions I rootGoalId objectiveScope config).admits_congr_of Unnested
    (unnested_new rootGoalId objectiveScope config) (fun _ _ h => unnested_execute h)
    (fun _ _ h => haltsForGood_iff h) acts

/-- A call out of turn halts the kernel, and the next call moves it all the same. -/
theorem halt_not_final :
    ¬ (executions textual "goal" .empty ⟨3, 12000⟩).Admits (HaltsForGood textual)
      [answering "runtime_orchestrator" RuntimeState.completed (.dict []),
        answering "runtime_orchestrator" RuntimeState.scopedState (.dict [])] := by
  intro h
  have hgood := h [_] _ [] rfl
  refine invoked_of_authorized ?_ ?_ (hgood.halted ?_).1
  · exact unnested_after textual "goal" .empty ⟨3, 12000⟩ [_]
  · decide +kernel
  · decide +kernel

end PiPlatform.AgentChain.Governance
