import PiPlatform.AgentChain.GovernanceKernel
import PiPlatform.Library.Serde

/-! The Rust port of the schema gate and the transition gate, against the Python they mirror.

The port writes out what Python computes from its tables: the six workers, the two fields of an
output, the rules in the order of `CANONICAL_TRANSITIONS` and the two caps they all have. What
it answers is the violation as JSON, or null. The two say the same of every call (`gates_agree`);
an integer beyond 64 bits would be read as a float, and so be named otherwise. -/
namespace PiPlatform.EventFabric.Port.Gates

open Library Library.Json Library.Python Library.Serde
open AgentChain.Governance

/-! ### The port -/

def Number.isF64 : Number → Bool
  | .float _ => true
  | _ => false

def pyTypeName : Value → String
  | .object _ => "dict"
  | .array _ => "list"
  | .string _ => "str"
  | .bool _ => "bool"
  | .number n => if Number.isF64 n then "float" else "int"
  | .null => "NoneType"

def violation (rule workerId rootGoalId severity : String) (context : List (String × Value)) :
    Value :=
  .object [("rule", .string rule), ("worker_id", .string workerId),
    ("root_goal_id", .string rootGoalId), ("severity", .string severity),
    ("context", .object context), ("action_taken", .string "HALT")]

def isKnownWorker (workerId : String) : Bool :=
  workerId ∈ ["acquisition_gateway", "structural_extractor", "semantic_typer", "flow_mapper",
    "spec_synthesizer", "verifier"]

/-- The first required field that is not there. -/
def missingField (obj : List (String × Value)) : Option String :=
  ["payload", "type"].find? fun key => key ∉ obj.map Prod.fst

/-- What the value of a declared property should be. -/
def expectedType (key : String) : Option String :=
  match key with
  | "payload" => some "object"
  | "type" => some "string"
  | _ => none

def hasType (expected : String) (value : Value) : Bool :=
  match expected, value with
  | "object", .object _ => true
  | "object", _ => false
  | "string", .string _ => true
  | "string", _ => false
  | _, _ => true

/-- The first entry of another type than declared, as a field and the reason. -/
def mistypedField (obj : List (String × Value)) : Option (String × String) :=
  obj.findSome? fun entry =>
    (expectedType entry.1).bind fun expected =>
      if hasType expected entry.2 then none
      else
        let label := if expected = "object" then "object" else "string"
        some (entry.1, "Expected " ++ label ++ ", got " ++ pyTypeName entry.2)

/-- The first field that a known worker's output lacks or mistypes. -/
def schemaGate (workerId : String) (payload : Value) (rootGoalId : String) : Value :=
  let invalidOutput (obj : List (String × Value)) (field reason : String) : Value :=
    violation "INVALID_OUTPUT" workerId rootGoalId "ERROR"
      [("field", .string field), ("reason", .string reason),
        ("payload_keys", .array (obj.map fun entry => .string entry.1))]
  if isKnownWorker workerId then
    match payload with
    | .object obj =>
      match missingField obj with
      | some key => invalidOutput obj key ("Missing required field '" ++ key ++ "'")
      | none =>
        match mistypedField obj with
        | some breach => invalidOutput obj breach.1 breach.2
        | none => .null
    | _ => .null
  else .null

structure Rule where
  fromState : String
  toState : String
  requiredStatus : String
  deriving DecidableEq

def linear : List (String × String) :=
  [("REGISTERED", "SCOPED"), ("SCOPED", "CAPTURE_READY"), ("CAPTURE_READY", "CAPTURING"),
    ("CAPTURING", "NORMALIZING"), ("NORMALIZING", "EXTRACTING"), ("EXTRACTING", "ASSEMBLING_IR"),
    ("ASSEMBLING_IR", "GENERATING_SPEC"), ("GENERATING_SPEC", "COMPLETED")]

def failFrom : List String :=
  ["REGISTERED", "SCOPED", "CAPTURE_READY", "CAPTURING", "NORMALIZING", "EXTRACTING", "VERIFYING",
    "ASSEMBLING_IR", "GENERATING_SPEC"]

def canonicalRules : List Rule :=
  (linear.map fun states => ⟨states.1, states.2, "SUCCESS"⟩) ++
    (failFrom.map fun state => ⟨state, "FAILED", "FAILURE"⟩) ++
    [⟨"FAILED", "RETRY_PENDING", "RETRYABLE_FAILURE"⟩,
      ⟨"EXTRACTING", "INVALID_EVIDENCE", "INSUFFICIENT_EVIDENCE"⟩,
      ⟨"VERIFYING", "INVALID_EVIDENCE", "VERIFICATION_MISMATCH"⟩]

def maxDepth : Int64 := 3

def maxBranch : Int64 := 8

/-- `json!(i)` -/
def Number.ofI64 (i : Int64) : Number :=
  if 0 ≤ i then .posInt i.toInt.toNat else .negInt i.toInt

/-- Of several rules for the two states the last one counts. -/
def ruleFor (current proposed : String) : Option Rule :=
  canonicalRules.reverse.find? fun r => r.fromState = current ∧ r.toState = proposed

/-- The rule of the transition, the status it asks for, then the bounds. -/
def transitionGate (current proposed status workerId rootGoalId : String)
    (depth branchCount : Int64) : Value :=
  match ruleFor current proposed with
  | none =>
    violation "TRANSITION_NOT_ALLOWED" workerId rootGoalId "CRITICAL"
      [("from_state", .string current), ("proposed_state", .string proposed),
        ("reason", .string "No rule authorizes this transition")]
  | some rule =>
    if status ≠ rule.requiredStatus then
      violation "STATUS_MISMATCH" workerId rootGoalId "ERROR"
        [("required_status", .string rule.requiredStatus), ("actual_status", .string status)]
    else if maxDepth ≤ depth then
      violation "MAX_DEPTH_EXCEEDED" workerId rootGoalId "CRITICAL"
        [("depth", .number (Number.ofI64 depth)), ("max_depth", .number (Number.ofI64 maxDepth))]
    else if maxBranch ≤ branchCount then
      violation "BRANCH_OVERFLOW" workerId rootGoalId "CRITICAL"
        [("branch_count", .number (Number.ofI64 branchCount)),
          ("max_branch_count", .number (Number.ofI64 maxBranch))]
    else .null

/-! ### What is compared -/

def severityValue : Severity → String
  | .warning => "WARNING"
  | .error => "ERROR"
  | .critical => "CRITICAL"

variable (R : Reader)

/-- The port answers what Python does: null for no violation, and otherwise the same rule,
ids, severity, context and action. -/
def SameVerdict (answer : Value) : Option (GovernanceViolation Dyadic) → Prop
  | none => answer = .null
  | some v => ∃ context : List (String × Plain),
    v.context = context.map (fun p => (p.1, p.2.toPyValue)) ∧
      answer = .object [("rule", .string v.rule), ("worker_id", .string v.workerId),
        ("root_goal_id", .string v.rootGoalId), ("severity", .string (severityValue v.severity)),
        ("context", .object (ofPlainItems R context)), ("action_taken", .string v.actionTaken)]

/-- An integer fits a `u64` or an `i64`. -/
def InRange : Plain → Prop
  | .int i => -2 ^ 63 ≤ i ∧ i < 2 ^ 64
  | _ => True

/-! ### The schema gate -/

theorem pyTypeName_ofPlain {v : Plain} (h : InRange v) :
    pyTypeName (Value.ofPlain R v) = typeName v.toPyValue := by
  cases v with
  | int i =>
    have hnumber : Number.isF64 (R.number i) = false := by
      unfold Reader.number
      split
      · rfl
      · rw [if_pos ⟨h.1, by have := h.2; omega⟩]
        rfl
    simp [Value.ofPlain, pyTypeName, hnumber, Plain.toPyValue, typeName]
  | _ => rfl

theorem lookupItem_const {V : Type} (keys : List String) (v : V) (key : String) :
    lookupItem key (keys.map fun k => (k, v)) = if key ∈ keys then some v else none := by
  induction keys with
  | nil => rfl
  | cons k keys ih =>
    rw [List.map_cons, lookupItem, ih]
    by_cases hk : k = key
    · simp [hk]
    · simp [hk, Ne.symm hk]

theorem lookupItem_schemas (workerId : String) :
    lookupItem workerId workerOutputSchemas =
      if isKnownWorker workerId then some workerOutputSchema else none := by
  simp only [workerOutputSchemas, lookupItem_const, isKnownWorker, decide_eq_true_eq]

/-- The payload as Python has it. -/
def payloadItems (payload : Dict String Plain) : Items Dyadic := Plain.toPyItems payload.items

theorem checkRequired_payload (payload : Dict String Plain) :
    checkRequired workerOutputSchema (payloadItems payload) =
      (missingField (ofPlainItems R payload.items)).map fun key =>
        (key, "Missing required field '" ++ key ++ "'") := by
  have hkeys : ∀ key, keyOf key ∈ (payloadItems payload).map Prod.fst ↔
      key ∈ (ofPlainItems R payload.items).map Prod.fst := by
    intro key
    simp [payloadItems, Plain.toPyItems_eq_map, ofPlainItems_eq_map, keyOf]
  simp only [checkRequired, missingField, workerOutputSchema, hkeys]

theorem hasType_object (v : Plain) :
    hasType "object" (Value.ofPlain R v) = decide (typeName v.toPyValue ∈ ["dict"]) := by
  cases v <;> rfl

theorem hasType_string (v : Plain) :
    hasType "string" (Value.ofPlain R v) = decide (typeName v.toPyValue ∈ ["str"]) := by
  cases v <;> rfl

theorem keyOf_inj {a b : String} : keyOf a = keyOf b ↔ a = b := by
  rw [keyOf, keyOf, Key.str.injEq, ofString_inj]

theorem find?_property (key : String) :
    (workerOutputSchema.properties.find? fun property => keyOf property.1 = keyOf key) =
      (expectedType key).map fun expected => (key, expected) := by
  simp only [keyOf_inj, workerOutputSchema]
  by_cases hpayload : key = "payload"
  · subst hpayload
    rfl
  by_cases htype : key = "type"
  · subst htype
    rfl
  simp [expectedType, Ne.symm hpayload, Ne.symm htype]

theorem expectedType_cases {key expected : String} (h : expectedType key = some expected) :
    expected = "object" ∨ expected = "string" := by
  unfold expectedType at h
  split at h
  · exact .inl (Option.some.inj h).symm
  · exact .inr (Option.some.inj h).symm
  · cases h

/-- What one turn of the loops finds. -/
theorem mistyped_entry (key : String) {v : Plain} (hrange : InRange v) :
    ((workerOutputSchema.properties.find? fun property => keyOf property.1 = keyOf key).bind
      fun property => (acceptedTypes property.2).bind fun types =>
        if typeName v.toPyValue ∈ types then none
        else some (property.1, "Expected " ++ property.2 ++ ", got " ++ typeName v.toPyValue)) =
      (expectedType key).bind fun expected =>
        if hasType expected (Value.ofPlain R v) then none
        else
          let label := if expected = "object" then "object" else "string"
          some (key, "Expected " ++ label ++ ", got " ++ pyTypeName (Value.ofPlain R v)) := by
  rw [pyTypeName_ofPlain R hrange, find?_property]
  cases hexpected : expectedType key with
  | none => rfl
  | some expected =>
    rcases expectedType_cases hexpected with rfl | rfl
    · simp only [Option.map_some, Option.bind_some, hasType_object, decide_eq_true_eq,
      acceptedTypes,
        if_pos]
    · simp only [Option.map_some, Option.bind_some, hasType_string, decide_eq_true_eq,
      acceptedTypes,
        String.reduceEq, if_false]

theorem checkTypes_items (items : List (String × Plain)) (hrange : ∀ p ∈ items, InRange p.2) :
    checkTypes workerOutputSchema (Plain.toPyItems items) =
      mistypedField (ofPlainItems R items) := by
  rw [checkTypes, mistypedField]
  induction items with
  | nil => rfl
  | cons p items ih =>
    have hentry := mistyped_entry R p.1 (hrange p List.mem_cons_self)
    have hrest := ih fun q hq => hrange q (List.mem_cons_of_mem p hq)
    rw [keyOf] at hentry
    rw [Plain.toPyItems, ofPlainItems, List.findSome?_cons, List.findSome?_cons, hrest, ← hentry]

theorem sameVerdict_violation {rule workerId rootGoalId : String} (severity : Severity)
    {context : List (String × Value)} {context' : List (String × PyValue Dyadic)}
    (told : List (String × Plain)) (hcontext : context = ofPlainItems R told)
    (hcontext' : context' = told.map fun p => (p.1, p.2.toPyValue)) :
    SameVerdict R (violation rule workerId rootGoalId (severityValue severity) context)
      (some ⟨rule, workerId, rootGoalId, severity, context', "HALT"⟩) :=
  ⟨told, hcontext', by rw [violation, hcontext]⟩

/-- The context of a breach of the schema. -/
def breachContext (payload : Dict String Plain) (breach : String × String) :
    List (String × Plain) :=
  [("field", .str breach.1), ("reason", .str breach.2),
    ("payload_keys", .list (payload.items.map fun p => .str p.1))]

theorem sameVerdict_breach (workerId rootGoalId : String) (payload : Dict String Plain)
    (breach : String × String) :
    SameVerdict R
      (violation "INVALID_OUTPUT" workerId rootGoalId "ERROR"
        [("field", .string breach.1), ("reason", .string breach.2),
          ("payload_keys",
            .array ((ofPlainItems R payload.items).map fun entry => .string entry.1))])
      (some
        { rule := "INVALID_OUTPUT", workerId, rootGoalId, severity := .error
          context := [("field", text breach.1), ("reason", text breach.2),
            ("payload_keys", .list ((payloadItems payload).map fun p => .str p.1.text))]
          actionTaken := "HALT" }) := by
  refine sameVerdict_violation R .error (breachContext payload breach) ?_ ?_
  · simp [breachContext, ofPlainItems_eq_map, Value.ofPlain, ofPlainElems_eq_map]
  · simp [breachContext, payloadItems, Plain.toPyItems_eq_map, Plain.toPyValue,
      Plain.toPyElems_eq_map, text, Key.text]

theorem schemaGate_agrees (workerId rootGoalId : String) (payload : Dict String Plain)
    (hrange : ∀ p ∈ payload.items, InRange p.2) :
    SameVerdict R (schemaGate workerId (Map.ofPlain R payload).toValue rootGoalId)
      (validateSchema workerId rootGoalId (payloadItems payload)) := by
  have hobject : (Map.ofPlain R payload).toValue = .object (ofPlainItems R payload.items) := rfl
  rw [validateSchema, lookupItem_schemas, hobject]
  unfold schemaGate
  cases hknown : isKnownWorker workerId with
  | false => simp [SameVerdict]
  | true =>
    simp only [if_true, Option.bind_some]
    rw [checkRequired_payload R, payloadItems, checkTypes_items R _ hrange]
    cases missingField (ofPlainItems R payload.items) with
    | some key => exact sameVerdict_breach R workerId rootGoalId payload _
    | none =>
      cases mistypedField (ofPlainItems R payload.items) with
      | some breach => exact sameVerdict_breach R workerId rootGoalId payload breach
      | none => rfl

/-! ### The transition gate -/

/-- A rule as the port has it. -/
def portRule (r : TransitionRule) : Rule :=
  ⟨r.fromState, r.toState, r.requiredWorkerStatus.value⟩

theorem canonicalRules_eq : canonicalRules = canonicalTransitions.map portRule := by
  decide +kernel

/-- No two rules are for the same states, so the last one is the one. -/
theorem ruleFor_eq (current proposed : String) :
    ruleFor current proposed = (rule? current proposed).map portRule := by
  rw [ruleFor, canonicalRules_eq]
  cases hrule : rule? current proposed with
  | none =>
    rw [Option.map_none, List.find?_eq_none]
    intro r hr hstates
    obtain ⟨rule, hmem, rfl⟩ := List.mem_map.mp (List.mem_reverse.mp hr)
    have hsome := rule?_eq_some_iff.mpr ⟨hmem, of_decide_eq_true hstates⟩
    exact absurd (hrule.symm.trans hsome) (by simp)
  | some rule =>
    obtain ⟨hmem, hstates⟩ := rule?_eq_some_iff.mp hrule
    have hthere : portRule rule ∈ (canonicalTransitions.map portRule).reverse :=
      List.mem_reverse.mpr (List.mem_map_of_mem hmem)
    have hsome : ((canonicalTransitions.map portRule).reverse.find? fun r =>
        r.fromState = current ∧ r.toState = proposed).isSome :=
      List.find?_isSome.mpr ⟨portRule rule, hthere, decide_eq_true hstates⟩
    obtain ⟨r, hfound⟩ := Option.isSome_iff_exists.mp hsome
    obtain ⟨rule', hmem', rfl⟩ :=
      List.mem_map.mp (List.mem_reverse.mp (List.mem_of_find?_eq_some hfound))
    have hstates' : rule'.fromState = current ∧ rule'.toState = proposed := by
      have hdecided := List.find?_some hfound
      exact of_decide_eq_true hdecided
    have hsame := hrule.symm.trans (rule?_eq_some_iff.mpr ⟨hmem', hstates'⟩)
    rw [hfound, Option.map_some, Option.some.inj hsame]

theorem value_inj {a b : WorkerStatus} : a.value = b.value ↔ a = b := by
  cases a <;> cases b <;> simp [WorkerStatus.value]

theorem ofI64_eq (i : Int64) : Number.ofI64 i = R.number i.toInt := by
  have hlow := i.le_toInt
  have hhigh := i.toInt_lt
  have hsign : 0 ≤ i ↔ 0 ≤ i.toInt := Int64.le_iff_toInt_le
  unfold Number.ofI64 Reader.number
  by_cases hi : 0 ≤ i
  · rw [if_pos hi, if_pos ⟨hsign.mp hi, by omega⟩]
  · have hneg := mt hsign.mpr hi
    rw [if_neg hi, if_neg fun h => hneg h.1, if_pos ⟨by omega, by omega⟩]

theorem transitionGate_agrees (current proposed workerId rootGoalId : String)
    (status : WorkerStatus) (depth branchCount : Int64) :
    SameVerdict R
      (transitionGate current proposed status.value workerId rootGoalId depth branchCount)
      (TransitionGate.validate current proposed workerId rootGoalId status depth.toInt
        branchCount.toInt) := by
  rw [transitionGate, TransitionGate.validate, ruleFor_eq]
  cases hrule : rule? current proposed with
  | none =>
    exact sameVerdict_violation R .critical
      [("from_state", .str current), ("proposed_state", .str proposed),
        ("reason", .str "No rule authorizes this transition")] rfl rfl
  | some rule =>
    obtain ⟨hmem, -⟩ := rule?_eq_some_iff.mp hrule
    have hcaps := mem_canonical hmem
    have hdepth : rule.maxDepth = 3 := by rw [hcaps, ruleOn]
    have hbranch : rule.maxBranchCount = 8 := by rw [hcaps, ruleOn]
    have hstatus : (status.value ≠ (portRule rule).requiredStatus) =
        (status ≠ rule.requiredWorkerStatus) := propext (not_congr value_inj)
    have hdeep : (maxDepth ≤ depth) = (((3 : Nat) : Int) ≤ depth.toInt) :=
      propext Int64.le_iff_toInt_le
    have hwide : (maxBranch ≤ branchCount) = (((8 : Nat) : Int) ≤ branchCount.toInt) :=
      propext Int64.le_iff_toInt_le
    simp only [Option.map_some, hdepth, hbranch, hstatus, hdeep, hwide]
    split_ifs
    · exact sameVerdict_violation R .error
        [("required_status", .str rule.requiredWorkerStatus.value),
          ("actual_status", .str status.value)] rfl rfl
    · refine sameVerdict_violation R .critical
        [("depth", .int depth.toInt), ("max_depth", .int 3)] ?_ rfl
      simp [ofI64_eq R, ofPlainItems, Value.ofPlain, maxDepth]
    · refine sameVerdict_violation R .critical
        [("branch_count", .int branchCount.toInt), ("max_branch_count", .int 8)] ?_ rfl
      simp [ofI64_eq R, ofPlainItems, Value.ofPlain, maxBranch]
    · rfl

/-! ### Agreement -/

/-- Every call of either gate: a violation in one place exactly when there is one in the
other, and the same one. -/
theorem gates_agree (workerId rootGoalId : String) (payload : Dict String Plain)
    (hrange : ∀ p ∈ payload.items, InRange p.2) (current proposed : String)
    (status : WorkerStatus) (depth branchCount : Int64) :
    SameVerdict R (schemaGate workerId (Map.ofPlain R payload).toValue rootGoalId)
        (validateSchema workerId rootGoalId (payloadItems payload)) ∧
      SameVerdict R
        (transitionGate current proposed status.value workerId rootGoalId depth branchCount)
        (TransitionGate.validate current proposed workerId rootGoalId status depth.toInt
          branchCount.toInt) :=
  ⟨schemaGate_agrees R workerId rootGoalId payload hrange,
    transitionGate_agrees R current proposed workerId rootGoalId status depth branchCount⟩

/-- A payload with a number where an object belongs. -/
def wrongPayload : Dict String Plain := .ofList [("type", .str "X"), ("payload", .int (-7))]

theorem gates_agree_wrong_payload :
    SameVerdict nearestReader
        (schemaGate "verifier" (Map.ofPlain nearestReader wrongPayload).toValue "g1")
        (validateSchema "verifier" "g1" (payloadItems wrongPayload)) ∧
      SameVerdict nearestReader
        (transitionGate "EXTRACTING" "FAILED" "FAILURE" "verifier" "g1" 3 (-1))
        (TransitionGate.validate "EXTRACTING" "FAILED" "verifier" "g1" .failure 3 (-1)) :=
  gates_agree nearestReader "verifier" "g1" wrongPayload
    (by simp [wrongPayload, Dict.ofList, setItems, setItem, InRange]) "EXTRACTING" "FAILED"
    .failure 3 (-1)

/-- An integer beyond 64 bits is a float to the port. -/
example :
    pyTypeName (Value.ofPlain nearestReader (.int (2 ^ 64))) = "float" ∧
      typeName (Plain.int (2 ^ 64)).toPyValue = "int" := by
  decide +kernel

end PiPlatform.EventFabric.Port.Gates
