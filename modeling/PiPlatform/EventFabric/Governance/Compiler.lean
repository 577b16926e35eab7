import PiPlatform.EventFabric.Governance.Engine
import PiPlatform.Library.Python.Plain

/-! The governance compiler.

A rule is validated and becomes a policy whose decision function puts the rule's
conditions to a context one by one. Contexts and the values of conditions are JSON, so
the comparisons are Python's over such values, and those it does not have are raised. -/
namespace PiPlatform.EventFabric.Governance

open Library Library.Python

inductive ConditionOperator where
  | equals
  | notEquals
  | greaterThan
  | lessThan
  | contains
  | startsWith
  | endsWith
  | inSet
  | notInSet
  | matchesRegex
  | existsField
  deriving DecidableEq

def ConditionOperator.value : ConditionOperator → String
  | .equals => "eq"
  | .notEquals => "ne"
  | .greaterThan => "gt"
  | .lessThan => "lt"
  | .contains => "contains"
  | .startsWith => "starts_with"
  | .endsWith => "ends_with"
  | .inSet => "in"
  | .notInSet => "not_in"
  | .matchesRegex => "matches"
  | .existsField => "exists"

structure Condition where
  field : String
  operator : ConditionOperator
  value : Plain

/-- Lower numbers have higher priority. -/
structure GovernanceRule where
  ruleId : String
  name : String
  description : String
  targetScope : String
  conditions : List Condition
  effect : Effect
  priority : Int
  version : String
  parentRuleId : Option String
  ruleHash : String

/-- The message of the first also lists the fields that are allowed. -/
inductive PolicyValidationError where
  | fieldNotAllowed (field : String)
  | regexNotAllowed
  deriving DecidableEq

abbrev Context := Dict String Plain

namespace PolicyCompiler

def allowedFields : List String :=
  ["tenant_id", "actor_id", "role", "action", "resource_type", "resource_id", "composition_id",
    "snapshot_id", "worker_id", "stage", "event_type", "partition_key", "epoch_number",
    "schema_name", "schema_version", "connector_id", "connector_trust_tier", "sandbox_policy"]

/-- `_validate_condition` -/
def validateCondition (condition : Condition) : Except PolicyValidationError Unit :=
  if condition.field ∉ allowedFields then .error (.fieldNotAllowed condition.field)
  else if condition.operator = .matchesRegex then .error .regexNotAllowed
  else .ok ()

/-- `_evaluate` -/
def evaluate (condition : Condition) (context : Context) : Except PyError Bool :=
  let fieldValue := (context.get? condition.field).getD .none
  let target := condition.value
  match condition.operator with
  | .equals => .ok (fieldValue == target)
  | .notEquals => .ok (fieldValue != target)
  | .greaterThan =>
    match fieldValue, target with
    | .none, _ => .ok false
    | _, .none => .ok false
    | _, _ => target.less fieldValue
  | .lessThan =>
    match fieldValue, target with
    | .none, _ => .ok false
    | _, .none => .ok false
    | _, _ => fieldValue.less target
  | .contains =>
    match fieldValue with
    | .str _ => target.isIn fieldValue
    | .list _ => target.isIn fieldValue
    | .dict _ => target.isIn fieldValue
    | _ => .ok false
  | .startsWith =>
    match fieldValue, target with
    | .str s, .str t => .ok (t.toList <+: s.toList)
    | _, _ => .ok false
  | .endsWith =>
    match fieldValue, target with
    | .str s, .str t => .ok (t.toList <:+ s.toList)
    | _, _ => .ok false
  | .inSet =>
    match target with
    | .list _ => fieldValue.isIn target
    | _ => .ok false
  | .notInSet =>
    match target with
    | .list _ => (fieldValue.isIn target).map not
    | _ => .ok false
  | .existsField =>
    match context.get? condition.field with
    | none => .ok false
    | some .none => .ok false
    | some _ => .ok true
  | .matchesRegex => .ok false

/-- The decision function of a rule with these conditions. -/
def decision : List Condition → Context → Except PyError Bool
  | [], _ => .ok true
  | condition :: conditions, context => do
    if ← evaluate condition context then decision conditions context else return false

def policyOf (compiledHash : GovernanceRule → String) (rule : GovernanceRule) :
    CompiledPolicy Context where
  policyId := "policy_" ++ rule.ruleId ++ "_" ++ rule.version
  ruleId := rule.ruleId
  decisionFunction := decision rule.conditions
  effect := rule.effect
  priority := rule.priority
  compiledHash := compiledHash rule

/-- `compile`; the digest of what is compiled is a parameter. -/
def compile (compiledHash : GovernanceRule → String) (rule : GovernanceRule) :
    Except PolicyValidationError (CompiledPolicy Context) := do
  rule.conditions.forM validateCondition
  return policyOf compiledHash rule

/-- Every condition of the rules passes static validation. -/
def Valid (rules : List GovernanceRule) : Prop :=
  ∀ rule ∈ rules, ∀ condition ∈ rule.conditions, validateCondition condition = .ok ()

theorem forM_ok {α ε : Type} {f : α → Except ε Unit} {xs : List α} (h : ∀ x ∈ xs, f x = .ok ()) :
    xs.forM f = .ok () := by
  induction xs with
  | nil => rfl
  | cons x xs ih =>
    obtain ⟨hx, hxs⟩ := List.forall_mem_cons.mp h
    rw [List.forM_eq_forM, List.forM_cons, hx]
    exact ih hxs

/-- Valid rules compile. -/
theorem compile_valid (compiledHash : GovernanceRule → String) {rules : List GovernanceRule}
    (h : Valid rules) :
    rules.mapM (compile compiledHash) = .ok (rules.map (policyOf compiledHash)) := by
  refine mapM_ok fun rule hrule => ?_
  rw [compile, forM_ok (h rule hrule)]
  rfl

end PolicyCompiler

end PiPlatform.EventFabric.Governance
