import PiPlatform.EventFabric.Governance.Compiler
import PiPlatform.Library.Python.JsonModule
import PiPlatform.Library.UniqueTable

/-! The governance registry.

A rule is a row under its id. Registering a rule whose id has a row changes nothing,
whatever its version, and says nothing. -/
namespace PiPlatform.EventFabric.Governance.Registry

open Library Library.Json Library.Python

variable {F : Type}

structure Condition (F : Type) where
  field : String
  operator : ConditionOperator
  value : PyValue F

def Condition.toDict (c : Condition F) : PyValue F :=
  .dict
    [(.str (ofString "field"), .str (ofString c.field)),
      (.str (ofString "operator"), .str (ofString c.operator.value)),
      (.str (ofString "value"), c.value)]

structure GovernanceRule (F : Type) where
  ruleId : String
  name : String
  description : String
  targetScope : String
  conditions : List (Condition F)
  effect : Effect
  priority : Int
  version : String
  parentRuleId : Option String
  ruleHash : String

/-- What is registered of a rule. -/
structure RuleContent where
  ruleId : String
  name : String
  description : String
  targetScope : String
  conditionsJson : String
  effect : String
  priority : Int
  version : String
  parentRuleId : Option String
  ruleHash : String
  deriving DecidableEq

/-- The columns of `governance_rules` that an `INSERT` lists. -/
structure RuleRow extends RuleContent where
  registeredBy : String
  deriving DecidableEq

/-- `rule_id TEXT PRIMARY KEY` -/
def RuleRow.clash (a b : RuleRow) : Bool := a.ruleId == b.ruleId

abbrev RuleTable := UniqueTable RuleRow.clash

/-- What `register_rule` raises: a condition JSON cannot write, or a priority no INTEGER
column can hold. -/
inductive RegisterError where
  | json (e : PyError)
  | overflow
  deriving DecidableEq

variable [FloatCodec F] [SetText F]

def GovernanceRule.content (rule : GovernanceRule F) : Except RegisterError RuleContent :=
  match (valueJson F).dumps (.list (rule.conditions.map Condition.toDict)) with
  | .error e => .error (.json e)
  | .ok conditionsJson =>
    if Storable rule.priority then
      .ok {
        ruleId := rule.ruleId
        name := rule.name
        description := rule.description
        targetScope := rule.targetScope
        conditionsJson := conditionsJson
        effect := rule.effect.value
        priority := rule.priority
        version := rule.version
        parentRuleId := rule.parentRuleId
        ruleHash := rule.ruleHash }
    else .error .overflow

/-- A call of `register_rule`. -/
structure RuleCall (F : Type) where
  rule : GovernanceRule F
  registeredBy : String

def RuleCall.row (call : RuleCall F) : Except RegisterError RuleRow :=
  call.rule.content.map fun content => ⟨content, call.registeredBy⟩

def registerRule (table : RuleTable) (call : RuleCall F) :
    Except RegisterError Unit × RuleTable :=
  match call.row with
  | .error e => (.error e, table)
  | .ok row => (.ok (), table.insertOrIgnore row)

def getRule (table : RuleTable) (ruleId : String) : Option RuleRow :=
  table.find? (fun row => row.ruleId) ruleId

/-! ### What stays registered -/

/-- Every rule that was registered is found under its id, with the content it had. -/
def RulesKept (j : Journal (RuleCall F) Unit RuleRow.clash) : Prop :=
  ∀ call answer, (call, answer) ∈ j.returned →
    ∃ row, getRule j.table call.rule.ruleId = some row ∧
      call.rule.content = .ok row.toRuleContent

/-- The rule cannot be written, or a row with its id has the same content. -/
def RuleRetained (table : RuleTable) (call : RuleCall F) : Prop :=
  ∀ content, call.rule.content = .ok content →
    ∀ old ∈ table.rows, old.ruleId = call.rule.ruleId → old.toRuleContent = content

theorem content_ruleId {rule : GovernanceRule F} {content : RuleContent}
    (h : rule.content = .ok content) : content.ruleId = rule.ruleId := by
  unfold GovernanceRule.content at h
  split at h
  · cases h
  · split at h
    · obtain rfl := Except.ok.inj h
      rfl
    · cases h

theorem row_eq {call : RuleCall F} {row : RuleRow} (h : call.row = .ok row) :
    call.rule.content = .ok row.toRuleContent := by
  unfold RuleCall.row at h
  cases hcontent : call.rule.content with
  | error e =>
    rw [hcontent] at h
    cases h
  | ok content =>
    rw [hcontent] at h
    obtain rfl := Except.ok.inj h
    rfl

theorem inserts_registerRule :
    Inserts (registerRule (F := F)) RuleCall.row fun _ => () := by
  intro table call
  unfold registerRule
  cases call.row <;> rfl

/-- A row that is found must have the same content; where none is, the rule's own goes in. -/
theorem retained_iff (table : RuleTable) (call : RuleCall F) :
    Retained RuleCall.row (fun _ => ()) (fun row : RuleRow => row.ruleId)
        (fun (c : RuleCall F) (_ : Unit) => c.rule.ruleId)
        (fun c row => c.rule.content = .ok row.toRuleContent) table call ↔
      RuleRetained table call := by
  have hclash : ∀ a b : RuleRow, a.ruleId = b.ruleId → a.clash b = true :=
    fun _ _ h => beq_iff_eq.mpr h
  constructor
  · intro h content hcontent old hold hid
    have hrow : call.row = .ok ⟨content, call.registeredBy⟩ := by
      rw [RuleCall.row, hcontent]
      rfl
    have hheld := h _ hrow
    rw [(UniqueTable.find?_eq_some hclash).mpr ⟨hold, hid⟩] at hheld
    exact Except.ok.inj (hheld.symm.trans hcontent)
  · intro h row hrow
    have hcontent := row_eq hrow
    cases hfind : table.find? (fun row : RuleRow => row.ruleId) call.rule.ruleId with
    | some old =>
      obtain ⟨hold, hid⟩ := (UniqueTable.find?_eq_some hclash).mp hfind
      show call.rule.content = .ok old.toRuleContent
      rw [hcontent, h row.toRuleContent hcontent old hold hid]
    | none =>
      refine ⟨fun r hr => ?_, hcontent⟩
      have hne := UniqueTable.find?_eq_none.mp hfind r hr
      rw [RuleRow.clash, beq_eq_false_iff_ne, content_ruleId hcontent]
      exact hne

/-- Rules stay registered if and only if no id is registered again with other content. -/
theorem rules_kept_iff (calls : List (RuleCall F)) :
    (journal registerRule).Always RulesKept calls ↔
      (journal registerRule).Admits (fun j => RuleRetained j.table) calls := by
  have hkeeps : (journal registerRule).Always RulesKept calls ↔ _ :=
    keeps_iff inserts_registerRule (fun _ _ hrow => content_ruleId (row_eq hrow)) calls
  exact hkeeps.trans ((journal registerRule).admits_congr
    (fun j call => retained_iff j.table call) calls)

end PiPlatform.EventFabric.Governance.Registry
