import PiPlatform.EventFabric.Governance.Compiler
import PiPlatform.Library.Serde

/-! The Rust port of governance, against the Python it mirrors.

Both sides put the rules to a context in the same order and conclude alike from the
rules that match (`evaluateRules_eq`). Which rules match is another matter: conditions
compare Python values on one side and `serde_json` values, numbers as doubles, on the
other. `Apart` says, operator by operator, for which values of the field and of the
condition that makes a difference, and the decisions agree where it makes none to the
rules up to the first `DENY` (`evaluate_agrees_iff`). -/
namespace PiPlatform.EventFabric.Port

open Library Library.Python Library.Serde
open Governance.PolicyCompiler (Valid compile compile_valid decision forM_ok policyOf)
open Governance (Condition ConditionOperator Context DecisionText Effect GovernanceDecision
  GovernanceEngine GovernanceRule Match)
open Value (ofPlain)
open Governance.Match (upToDeny denies)

/-! ### The port -/

structure ConditionIn where
  field : String
  operator : String
  value : Value

structure RuleIn where
  ruleId : String
  name : String
  description : String
  targetScope : String
  conditions : List ConditionIn
  effect : String
  priority : Int64
  version : String
  parentRuleId : Option String

structure Decision where
  decisionId : String
  contextId : String
  effect : String
  matchedRules : List String
  deniedBy : Option String
  decisionHash : String
  evaluatedAt : String

def allowedFields : List String :=
  ["tenant_id", "actor_id", "role", "action", "resource_type", "resource_id", "composition_id",
    "snapshot_id", "worker_id", "stage", "event_type", "partition_key", "epoch_number",
    "schema_name", "schema_version", "connector_id", "connector_trust_tier", "sandbox_policy"]

def validateCondition (c : ConditionIn) : Except String Unit :=
  if c.field ∉ allowedFields then .error ("Field '" ++ c.field ++ "' not in allowed fields")
  else if c.operator = "matches" then
    .error "Regex matching is not allowed in the deterministic policy DSL"
  else .ok ()

/-- Numbers as doubles, strings by their bytes, and nothing else. -/
def numOrStrCmp (a b : Value) : Option Ordering :=
  if a.isNull || b.isNull then none
  else
    match a.asF64, b.asF64 with
    | some x, some y => some (compareOfLessAndEq x y)
    | _, _ =>
      match a.asStr, b.asStr with
      | some x, some y => some (compareOfLessAndEq x y)
      | _, _ => none

/-- The ten operators over JSON values. -/
def evalCondition (c : ConditionIn) (ctx : Value) : Bool :=
  let fv := (ctx.get c.field).getD .null
  let t := c.value
  match c.operator with
  | "eq" => fv == t
  | "ne" => fv != t
  | "gt" => ((numOrStrCmp fv t).map Ordering.isGT).getD false
  | "lt" => ((numOrStrCmp fv t).map Ordering.isLT).getD false
  | "contains" =>
    match fv with
    | .string s => (t.asStr.map fun ts => decide (ts.toList <:+: s.toList)).getD false
    | .array a => a.any fun x => x == t
    | .object m => (t.asStr.map fun k => (lookupItem k m).isSome).getD false
    | _ => false
  | "starts_with" =>
    match fv.asStr, t.asStr with
    | some s, some p => decide (p.toList <+: s.toList)
    | _, _ => false
  | "ends_with" =>
    match fv.asStr, t.asStr with
    | some s, some p => decide (p.toList <:+ s.toList)
    | _, _ => false
  | "in" => (t.asArray.map fun arr => arr.any fun x => x == fv).getD false
  | "not_in" => (t.asArray.map fun arr => !arr.any fun x => x == fv).getD false
  | "exists" => ((ctx.get c.field).map fun v => !v.isNull).getD false
  | _ => false

/-- What the loop carries along. -/
structure Outcome where
  matched : List String
  deniedBy : Option String
  finalEffect : String

/-- `for &i in &order { … }`, over the rules in that order. -/
def evaluateRules (ctx : Value) : List RuleIn → Outcome → Outcome
  | [], out => out
  | r :: rules, out =>
    if r.conditions.all fun c => evalCondition c ctx then
      let matched := out.matched ++ [r.ruleId]
      match r.effect with
      | "deny" => ⟨matched, some r.ruleId, "deny"⟩
      | "allow" => evaluateRules ctx rules { out with matched, finalEffect := "allow" }
      | "require_approval" =>
        evaluateRules ctx rules { out with matched, finalEffect := "require_approval" }
      | _ => evaluateRules ctx rules { out with matched }
    else evaluateRules ctx rules out

/-- `evaluate`; the digest of what was decided is a parameter. -/
def evaluate (hash : String → String → List String → Option String → String)
    (rules : List RuleIn) (ctx : Value) : Except String Decision := do
  rules.forM fun r => r.conditions.forM validateCondition
  let out := evaluateRules ctx (sortBy (fun r => r.priority.toInt) rules) ⟨[], none, "deny"⟩
  let effect := if out.matched.isEmpty then "deny" else out.finalEffect
  let contextId := ((ctx.get "correlation_id").bind Value.asStr).getD "unknown"
  let decisionHash := hash contextId effect out.matched out.deniedBy
  return {
    decisionId := "dec_" ++ contextId ++ "_" ++ String.ofList (decisionHash.toList.take 16)
    contextId, effect
    matchedRules := out.matched
    deniedBy := out.deniedBy
    decisionHash
    evaluatedAt := ((ctx.get "timestamp").bind Value.asStr).getD "" }

/-! ### What the port is given -/

section Reading
variable (R : Reader)

/-- The condition as the port reads it. -/
structure ReadsCondition (c : Condition) (c' : ConditionIn) : Prop where
  field : c'.field = c.field
  operator : c'.operator = c.operator.value
  value : c'.value = ofPlain R c.value

/-- The rule as the port reads it. -/
structure ReadsRule (r : GovernanceRule) (r' : RuleIn) : Prop where
  ruleId : r'.ruleId = r.ruleId
  conditions : List.Forall₂ (ReadsCondition R) r.conditions r'.conditions
  effect : r'.effect = r.effect.value
  priority : r'.priority.toInt = r.priority

end Reading

/-- Which effect a text names; the loop tells apart these three. -/
def effectOf (effect : String) : Effect :=
  match effect with
  | "deny" => .deny
  | "allow" => .allow
  | "require_approval" => .requireApproval
  | "audit" => .audit
  | _ => .notify

theorem effectOf_value (effect : Effect) : effectOf effect.value = effect := by
  cases effect <;> rfl

/-- Whether the conditions of a rule hold. -/
def RuleIn.hits (r : RuleIn) (ctx : Value) : Bool := r.conditions.all fun c => evalCondition c ctx

def RuleIn.toMatch (r : RuleIn) : Match := ⟨r.ruleId, effectOf r.effect⟩

/-- Those of the rules that match. -/
def matchesIn (rules : List RuleIn) (ctx : Value) : List Match :=
  (rules.filter fun r => r.hits ctx).map RuleIn.toMatch

/-- The order in which the port evaluates rules. -/
def inOrderIn (rules : List RuleIn) : List RuleIn := sortBy (fun r => r.priority.toInt) rules

/-- Whether a rule matches in Python. -/
def hits (r : GovernanceRule) (context : Context) : Bool :=
  match decision r.conditions context with
  | .ok b => b
  | .error _ => false

def matchesOf (rules : List GovernanceRule) (context : Context) : List Match :=
  (rules.filter fun r => hits r context).map fun r => ⟨r.ruleId, r.effect⟩

/-- The order in which the engine evaluates rules. -/
def inOrder (rules : List GovernanceRule) : List GovernanceRule :=
  sortBy (fun r => r.priority) rules

/-- The effect that matches end in, if any of them decides. -/
def closing (ms : List Match) : Option Effect :=
  if ms.any denies then some .deny
  else (ms.filter Match.decides).getLast?.map fun m => m.effect

/-- Up to the first `DENY` the matches have the same ids, and they end in the same
effect. -/
structure SameMatches (ms ms' : List Match) : Prop where
  ids : (upToDeny ms').map (fun m => m.ruleId) =
    (upToDeny ms).map fun m => m.ruleId
  closing : closing ms' = closing ms

/-- Effect, rules and denial are the same. -/
structure SameDecision {V : Type} (d : GovernanceDecision V) (d' : Decision) : Prop where
  effect : d'.effect = d.effect.value
  matchedRules : d'.matchedRules = d.matchedRules
  deniedBy : d'.deniedBy = d.deniedBy

/-! ### Concluding from matches -/

section Matches
variable {ms ms' : List Match}

theorem verdict_eq_closing (ms : List Match) : Match.verdict ms = (closing ms).getD .deny := by
  unfold Match.verdict Match.standing closing
  split <;> rfl

theorem closing_eq_deny_iff : closing ms = some .deny ↔ ms.any denies = true := by
  unfold closing
  constructor
  · intro h
    split at h
    · assumption
    · obtain ⟨m, hm, heffect⟩ := Option.map_eq_some_iff.mp h
      have hdecides := (List.mem_filter.mp (List.mem_of_getLast? hm)).2
      simp [Match.decides, heffect] at hdecides
  · exact fun h => if_pos h

/-- The first `DENY` is the last match that counts. -/
theorem getLast?_upToDeny (h : ms.any denies = true) :
    (upToDeny ms).getLast? = ms.find? denies := by
  induction ms with
  | nil => cases h
  | cons m ms ih =>
    unfold upToDeny
    by_cases hm : m.denies = true
    · rw [if_pos hm, List.find?_cons_of_pos hm]
      rfl
    · rw [List.any_cons, Bool.eq_false_iff.mpr hm, Bool.false_or] at h
      obtain ⟨n, hn⟩ := Option.isSome_iff_exists.mp
        (List.find?_isSome.mpr (List.any_eq_true.mp h) : (ms.find? denies).isSome)
      rw [if_neg hm, List.find?_cons_of_neg hm, List.getLast?_cons, ih h, hn]
      rfl

theorem isSome_denied (ms : List Match) :
    ((ms.find? denies).map fun m => m.ruleId).isSome = ms.any denies := by
  rw [Option.isSome_map, Bool.eq_iff_iff, List.find?_isSome, List.any_eq_true]

/-- Who denies is the last id that counts. -/
theorem denied_eq (h : ms.any denies = true) :
    (ms.find? denies).map (fun m => m.ruleId) =
      ((upToDeny ms).map fun m => m.ruleId).getLast? := by
  rw [List.getLast?_map, getLast?_upToDeny h]

theorem sameMatches_iff :
    Match.verdict ms' = Match.verdict ms ∧
        (upToDeny ms').map (fun m => m.ruleId) =
          (upToDeny ms).map (fun m => m.ruleId) ∧
        (ms'.find? denies).map (fun m => m.ruleId) =
          (ms.find? denies).map (fun m => m.ruleId) ↔
      SameMatches ms ms' := by
  constructor
  · rintro ⟨hverdict, hids, hdenied⟩
    have hany : ms'.any denies = ms.any denies := by
      rw [← isSome_denied, ← isSome_denied, hdenied]
    refine ⟨hids, ?_⟩
    cases h : ms.any denies with
    | true => rw [closing_eq_deny_iff.mpr h, closing_eq_deny_iff.mpr (hany.trans h)]
    | false =>
      have hne : closing ms ≠ some .deny := fun heq => by
        rw [closing_eq_deny_iff, h] at heq
        cases heq
      have hne' : closing ms' ≠ some .deny := fun heq => by
        rw [closing_eq_deny_iff, hany, h] at heq
        cases heq
      rw [verdict_eq_closing, verdict_eq_closing] at hverdict
      cases hc : closing ms <;> cases hc' : closing ms' <;> simp_all
  · rintro ⟨hids, hclosing⟩
    have hany : ms'.any denies = ms.any denies := by
      rw [Bool.eq_iff_iff, ← closing_eq_deny_iff, ← closing_eq_deny_iff, hclosing]
    refine ⟨by rw [verdict_eq_closing, verdict_eq_closing, hclosing], hids, ?_⟩
    cases h : ms.any denies with
    | true => rw [denied_eq h, denied_eq (hany.trans h), hids]
    | false =>
      have hnone : ∀ {ms : List Match}, ms.any denies = false →
          (ms.find? denies).map (fun m => m.ruleId) = none := by
        intro ms h
        rw [← Option.not_isSome_iff_eq_none, isSome_denied, h]
        exact Bool.false_ne_true
      rw [hnone h, hnone (hany.trans h)]

end Matches

/-! ### The same conclusions -/

/-- The port's loop concludes from what matched. -/
theorem evaluateRules_eq (ctx : Value) {rules : List RuleIn}
    (heffects : ∀ r ∈ rules, ∃ e : Effect, r.effect = e.value) (matched : List String)
    (deniedBy : Option String) (effect : Effect) :
    evaluateRules ctx rules ⟨matched, deniedBy, effect.value⟩ =
      let concluded := Match.conclude ((rules.filter fun r => r.hits ctx).map RuleIn.toMatch)
        ⟨matched, deniedBy, effect⟩
      ⟨concluded.matched, concluded.deniedBy, concluded.finalEffect.value⟩ := by
  induction rules generalizing matched deniedBy effect with
  | nil => rfl
  | cons r rules ih =>
    obtain ⟨⟨e, he⟩, hrest⟩ := List.forall_mem_cons.mp heffects
    by_cases hhits : r.hits ctx = true
    · have hfilter := List.filter_cons_of_pos (p := fun r : RuleIn => r.hits ctx) (l := rules) hhits
      have hall : (r.conditions.all fun c => evalCondition c ctx) = true := hhits
      rw [hfilter, List.map_cons, evaluateRules, if_pos hall, he]
      dsimp only [Match.conclude, RuleIn.toMatch]
      rw [he, effectOf_value]
      cases e with
      | deny => rfl
      | allow => exact ih hrest _ _ .allow
      | requireApproval => exact ih hrest _ _ .requireApproval
      | audit | notify => exact ih hrest _ _ effect
    · have hfilter := List.filter_cons_of_neg (p := fun r : RuleIn => r.hits ctx) (l := rules) hhits
      have hall : ¬ (r.conditions.all fun c => evalCondition c ctx) = true := hhits
      rw [hfilter, evaluateRules, if_neg hall]
      exact ih hrest matched deniedBy effect

theorem validateCondition_reads {R : Reader} {c : Condition} {c' : ConditionIn}
    (h : ReadsCondition R c c') (hvalid : Governance.PolicyCompiler.validateCondition c = .ok ()) :
    validateCondition c' = .ok () := by
  unfold Governance.PolicyCompiler.validateCondition at hvalid
  have hvalue : ∀ op : Governance.ConditionOperator, op.value = "matches" → op = .matchesRegex := by
    intro op
    cases op <;> decide
  rw [validateCondition, h.field, h.operator]
  split at hvalid
  · cases hvalid
  · next hfield =>
    have hfield : ¬ c.field ∉ allowedFields := hfield
    rw [if_neg hfield]
    split at hvalid
    · cases hvalid
    · next hop => rw [if_neg fun heq => hop (hvalue _ heq)]

section Agreement
variable {R : Reader} {rules : List GovernanceRule} {rules' : List RuleIn}
  (hread : List.Forall₂ (ReadsRule R) rules rules')
include hread

theorem validated (hvalid : Valid rules) :
    (rules'.forM fun r => r.conditions.forM validateCondition) = .ok () := by
  refine forM_ok fun r' hr' => ?_
  obtain ⟨r, hr, hreads⟩ := exists_left hread hr'
  refine forM_ok fun c' hc' => ?_
  obtain ⟨c, hc, hreads⟩ := exists_left hreads.conditions hc'
  exact validateCondition_reads hreads (hvalid r hr c hc)

/-- What the port decides. -/
theorem evaluate_port (hash : String → String → List String → Option String → String)
    (hvalid : Valid rules) (ctx : Value) :
    ∃ d, evaluate hash rules' ctx = .ok d ∧
      d.effect = (Match.verdict (matchesIn (inOrderIn rules') ctx)).value ∧
      d.matchedRules =
        (upToDeny (matchesIn (inOrderIn rules') ctx)).map (fun m => m.ruleId) ∧
      d.deniedBy =
        ((matchesIn (inOrderIn rules') ctx).find? denies).map fun m => m.ruleId := by
  have heffects : ∀ r ∈ inOrderIn rules', ∃ e : Effect, r.effect = e.value := by
    intro r' hr'
    obtain ⟨r, -, hreads⟩ := exists_left hread ((stableSort_sortBy _ rules').mem_iff.mp hr')
    exact ⟨r.effect, hreads.effect⟩
  have hrun := evaluateRules_eq ctx heffects [] none .deny
  rw [Match.conclude_eq] at hrun
  have hrun : evaluateRules ctx (inOrderIn rules') ⟨[], none, "deny"⟩ =
      ⟨(upToDeny (matchesIn (inOrderIn rules') ctx)).map (fun m => m.ruleId),
        ((matchesIn (inOrderIn rules') ctx).find? denies).map fun m => m.ruleId,
        (Match.verdict (matchesIn (inOrderIn rules') ctx)).value⟩ := by
    refine hrun.trans ?_
    simp only [List.nil_append, Option.or_none]
    rfl
  unfold evaluate
  rw [validated hread hvalid]
  unfold inOrderIn at hrun ⊢
  rw [hrun]
  refine ⟨_, rfl, ?_, rfl, rfl⟩
  cases hms : matchesIn (sortBy (fun r => r.priority.toInt) rules') ctx with
  | nil => rfl
  | cons m ms =>
    have hne : (upToDeny (m :: ms)).isEmpty = false := by
      unfold upToDeny
      split <;> rfl
    simp [hne]

end Agreement

section Python
variable {V : Type} {rules : List GovernanceRule} {context : Context}
  (compiledHash : GovernanceRule → String)

theorem hitsOf_loadAll (rules : List GovernanceRule) (context : Context) :
    Governance.hitsOf (GovernanceEngine.loadAll
        (rules.map (policyOf compiledHash))).policies context =
      matchesOf (inOrder rules) context := by
  have hsorted : (GovernanceEngine.loadAll
        (rules.map (policyOf compiledHash))).policies =
      (inOrder rules).map (policyOf compiledHash) := by
    refine (Governance.stableSort_loadAll _).unique ?_
    have hsort := stableSort_sortBy (fun p : Governance.CompiledPolicy Context => p.priority)
      (rules.map (policyOf compiledHash))
    have hmap := List.map_insertionSort (fun a b : GovernanceRule => a.priority ≤ b.priority)
      (fun a b : Governance.CompiledPolicy Context => a.priority ≤ b.priority)
      (policyOf compiledHash) rules fun _ _ _ _ => Iff.rfl
    unfold inOrder sortBy at *
    rwa [hmap]
  rw [hsorted, Governance.hitsOf, List.filter_map, List.map_map]
  rfl

/-- What Python decides. -/
theorem evaluate_python (T : DecisionText Context V) (hraises : ∀ rule ∈ rules, ∃ b,
      decision rule.conditions context = .ok b) :
    ∃ d, GovernanceEngine.evaluate T (GovernanceEngine.loadAll
        (rules.map (policyOf compiledHash))) context = .ok d ∧
      d.effect = Match.verdict (matchesOf (inOrder rules) context) ∧
      d.matchedRules =
        (upToDeny (matchesOf (inOrder rules) context)).map (fun m => m.ruleId) ∧
      d.deniedBy =
        ((matchesOf (inOrder rules) context).find? denies).map fun m => m.ruleId := by
  have hloaded : Governance.NoneRaises
      (rules.map (policyOf compiledHash)) context := by
    intro p hp
    obtain ⟨rule, hrule, rfl⟩ := List.mem_map.mp hp
    exact hraises rule hrule
  rw [← hitsOf_loadAll compiledHash]
  exact Governance.evaluate_eq T hloaded.loadAll

end Python

section Decisions
variable {V : Type} (R : Reader) (T : DecisionText Context V)
  (compiledHash : GovernanceRule → String)
  (hash : String → String → List String → Option String → String)
  (rules : List GovernanceRule) (rules' : List RuleIn) (context : Context)

/-- The rules compile, and both sides come to the same decision. -/
def DecideAlike : Prop :=
  ∃ policies d d',
    rules.mapM (compile compiledHash) = .ok policies ∧
    GovernanceEngine.evaluate T (GovernanceEngine.loadAll policies) context = .ok d ∧
    evaluate hash rules' (Map.ofPlain R context).toValue = .ok d' ∧ SameDecision d d'

/-- The port decides as Python does exactly when what matches comes to the same. -/
theorem decideAlike_iff (hread : List.Forall₂ (ReadsRule R) rules rules') (hvalid : Valid rules)
    (hraises : ∀ rule ∈ rules, ∃ b,
      decision rule.conditions context = .ok b) :
    DecideAlike R T compiledHash hash rules rules' context ↔
      SameMatches (matchesOf (inOrder rules) context)
        (matchesIn (inOrderIn rules') (Map.ofPlain R context).toValue) := by
  have hvalue : ∀ e e' : Effect, e.value = e'.value ↔ e = e' := by
    intro e e'
    cases e <;> cases e' <;> decide
  have hcompile := compile_valid compiledHash hvalid
  obtain ⟨d, hd, heffect, hmatched, hdenied⟩ := evaluate_python compiledHash T hraises
  obtain ⟨d', hd', heffect', hmatched', hdenied'⟩ :=
    evaluate_port hread hash hvalid (Map.ofPlain R context).toValue
  rw [← sameMatches_iff, ← hmatched, ← hmatched', ← hdenied, ← hdenied', ← heffect]
  constructor
  · rintro ⟨policies, e, e', hpolicies, he, he', hsame⟩
    obtain rfl := Except.ok.inj (hcompile.symm.trans hpolicies)
    obtain rfl := Except.ok.inj (hd.symm.trans he)
    obtain rfl := Except.ok.inj (hd'.symm.trans he')
    refine ⟨?_, hsame.matchedRules, hsame.deniedBy⟩
    rw [← hvalue, ← heffect', hsame.effect]
  · rintro ⟨hverdict, hids, hdeny⟩
    exact ⟨_, d, d', hcompile, hd, hd', by rw [heffect', hverdict], hids, hdeny⟩

end Decisions

/-! ### Rule by rule -/

/-- The rules that are evaluated before any matching `DENY` match on both sides or on
neither. -/
def AlikeUpToDeny (rules : List GovernanceRule) (rules' : List RuleIn) (context : Context)
    (ctx : Value) : Prop :=
  ∀ (i : Nat) (r : GovernanceRule) (r' : RuleIn), rules[i]? = some r → rules'[i]? = some r' →
    (∀ (j : Nat) (q : GovernanceRule), j < i → rules[j]? = some q → q.effect = .deny →
      hits q context = false) →
    hits r context = r'.hits ctx

section Distinct
variable {R : Reader} {rules : List GovernanceRule} {rules' : List RuleIn} {context : Context}
  {ctx : Value} {r : GovernanceRule} {r' : RuleIn}

theorem alikeUpToDeny_cons (hr : hits r context = r'.hits ctx)
    (hdeny : ¬ (r.effect = .deny ∧ hits r context = true)) :
    AlikeUpToDeny (r :: rules) (r' :: rules') context ctx ↔
      AlikeUpToDeny rules rules' context ctx := by
  constructor
  · intro h i q q' hq hq' hbefore
    refine h (i + 1) q q' hq hq' fun j p hj hp heffect => ?_
    cases j with
    | zero =>
      obtain rfl : r = p := Option.some.inj hp
      simpa [heffect] using hdeny
    | succ j => exact hbefore j p (by omega) hp heffect
  · intro h i q q' hq hq' hbefore
    cases i with
    | zero =>
      obtain rfl : r = q := Option.some.inj hq
      obtain rfl : r' = q' := Option.some.inj hq'
      exact hr
    | succ i =>
      exact h i q q' hq hq' fun j p hj hp heffect => hbefore (j + 1) p (by omega) hp heffect

theorem alikeUpToDeny_deny (hr : hits r context = r'.hits ctx) (heffect : r.effect = .deny)
    (hhits : hits r context = true) : AlikeUpToDeny (r :: rules) (r' :: rules') context ctx := by
  intro i q q' hq hq' hbefore
  cases i with
  | zero =>
    obtain rfl : r = q := Option.some.inj hq
    obtain rfl : r' = q' := Option.some.inj hq'
    exact hr
  | succ i =>
    rw [hbefore 0 r (by omega) rfl heffect] at hhits
    cases hhits

theorem mem_upToDeny {m : Match} {ms : List Match} (h : m ∈ upToDeny ms) : m ∈ ms := by
  induction ms with
  | nil => cases h
  | cons n ms ih =>
    unfold upToDeny at h
    split at h
    · rw [List.mem_singleton.mp h]
      exact List.mem_cons_self ..
    · rcases List.mem_cons.mp h with rfl | h
      · exact List.mem_cons_self ..
      · exact List.mem_cons_of_mem _ (ih h)

/-- What one side matches and the other does not is missing there: no other rule has
its id. -/
theorem ids_ne (hmatch : Match) {ms ms' : List Match} {ids : List String}
    (hms' : ∀ m ∈ ms', m.ruleId ∈ ids) (hid : hmatch.ruleId ∉ ids) :
    (upToDeny ms').map (fun m => m.ruleId) ≠
      (upToDeny (hmatch :: ms)).map fun m => m.ruleId := by
  intro heq
  have hmem : hmatch.ruleId ∈ (upToDeny (hmatch :: ms)).map fun m => m.ruleId := by
    unfold upToDeny
    split <;> simp
  rw [← heq] at hmem
  obtain ⟨m, hm, hmid⟩ := List.mem_map.mp hmem
  exact hid (hmid ▸ hms' m (mem_upToDeny hm))

theorem matchesOf_ids : ∀ m ∈ matchesOf rules context, m.ruleId ∈ rules.map fun r => r.ruleId := by
  intro m hm
  obtain ⟨r, hr, rfl⟩ := List.mem_map.mp hm
  exact List.mem_map_of_mem (List.mem_of_mem_filter hr)

theorem matchesIn_ids (hread : List.Forall₂ (ReadsRule R) rules rules') :
    ∀ m ∈ matchesIn rules' ctx, m.ruleId ∈ rules.map fun r => r.ruleId := by
  intro m hm
  obtain ⟨r', hr', rfl⟩ := List.mem_map.mp hm
  obtain ⟨r, hr, hreads⟩ := exists_left hread (List.mem_of_mem_filter hr')
  exact List.mem_map.mpr ⟨r, hr, hreads.ruleId.symm⟩

theorem matchesOf_cons (r : GovernanceRule) (rules : List GovernanceRule) (context : Context) :
    matchesOf (r :: rules) context =
      if hits r context then ⟨r.ruleId, r.effect⟩ :: matchesOf rules context
      else matchesOf rules context := by
  unfold matchesOf
  rw [List.filter_cons]
  split <;> rfl

theorem matchesIn_cons (hreads : ReadsRule R r r') (rules' : List RuleIn) (ctx : Value) :
    matchesIn (r' :: rules') ctx =
      if r'.hits ctx then ⟨r.ruleId, r.effect⟩ :: matchesIn rules' ctx
      else matchesIn rules' ctx := by
  have hmatch : r'.toMatch = ⟨r.ruleId, r.effect⟩ := by
    rw [RuleIn.toMatch, hreads.ruleId, hreads.effect, effectOf_value]
  unfold matchesIn
  rw [List.filter_cons, ← hmatch]
  split <;> rfl

/-- The matches that count are the same if the rules that count match alike. -/
theorem upToDeny_eq (hread : List.Forall₂ (ReadsRule R) rules rules')
    (h : AlikeUpToDeny rules rules' context ctx) :
    upToDeny (matchesIn rules' ctx) = upToDeny (matchesOf rules context) := by
  induction hread with
  | nil => rfl
  | @cons r r' rules rules' hreads _ ih =>
    have hsame : hits r context = r'.hits ctx :=
      h 0 r r' rfl rfl fun j _ hj => absurd hj (Nat.not_lt_zero j)
    rw [matchesOf_cons, matchesIn_cons hreads, ← hsame]
    by_cases hhits : hits r context = true
    · rw [if_pos hhits, if_pos hhits, upToDeny, upToDeny]
      by_cases heffect : r.effect = .deny
      · have hdenies : denies ⟨r.ruleId, r.effect⟩ = true := decide_eq_true heffect
        rw [if_pos hdenies, if_pos hdenies]
      · rw [ih ((alikeUpToDeny_cons hsame fun hdeny => heffect hdeny.1).mp h)]
    · rw [if_neg hhits, if_neg hhits]
      exact ih ((alikeUpToDeny_cons hsame fun hdeny => hhits hdeny.2).mp h)

/-- And only then, where no id stands twice. -/
theorem alike_of_ids (hread : List.Forall₂ (ReadsRule R) rules rules')
    (hdistinct : (rules.map fun r => r.ruleId).Nodup)
    (hids : (upToDeny (matchesIn rules' ctx)).map (fun m => m.ruleId) =
      (upToDeny (matchesOf rules context)).map fun m => m.ruleId) :
    AlikeUpToDeny rules rules' context ctx := by
  induction hread with
  | nil => exact fun i r r' hr => nomatch hr
  | @cons r r' rules rules' hreads hread ih =>
    obtain ⟨hid, hdistinct⟩ := List.nodup_cons.mp hdistinct
    rw [matchesOf_cons, matchesIn_cons hreads] at hids
    by_cases hhits : hits r context = true
    · by_cases hhits' : r'.hits ctx = true
      · rw [if_pos hhits, if_pos hhits', upToDeny, upToDeny] at hids
        by_cases heffect : r.effect = .deny
        · exact alikeUpToDeny_deny (hhits.trans hhits'.symm) heffect hhits
        · have hdenies : ¬ denies ⟨r.ruleId, r.effect⟩ = true :=
            fun hd => heffect (of_decide_eq_true hd)
          rw [if_neg hdenies, if_neg hdenies, List.map_cons, List.map_cons] at hids
          exact (alikeUpToDeny_cons (hhits.trans hhits'.symm) fun hdeny => heffect hdeny.1).mpr
            (ih hdistinct (List.cons.inj hids).2)
      · rw [if_pos hhits, if_neg hhits'] at hids
        exact absurd hids (ids_ne _ (matchesIn_ids hread) hid)
    · by_cases hhits' : r'.hits ctx = true
      · rw [if_neg hhits, if_pos hhits'] at hids
        exact absurd hids.symm (ids_ne _ matchesOf_ids hid)
      · rw [if_neg hhits, if_neg hhits'] at hids
        have hsame : hits r context = r'.hits ctx :=
          (Bool.eq_false_iff.mpr hhits).trans (Bool.eq_false_iff.mpr hhits').symm
        exact (alikeUpToDeny_cons hsame fun hdeny => hhits hdeny.2).mpr (ih hdistinct hids)

theorem any_upToDeny (ms : List Match) :
    (upToDeny ms).any denies = ms.any denies := by
  induction ms with
  | nil => rfl
  | cons m ms ih =>
    unfold upToDeny
    by_cases hm : m.denies = true
    · simp [hm]
    · rw [if_neg hm, List.any_cons, List.any_cons, ih]

theorem upToDeny_of_none {ms : List Match} (h : ms.any denies = false) :
    upToDeny ms = ms := by
  induction ms with
  | nil => rfl
  | cons m ms ih =>
    obtain ⟨hm, hrest⟩ := Bool.or_eq_false_iff.mp (List.any_cons ▸ h)
    unfold upToDeny
    rw [hm, ih hrest]
    rfl

/-- What the matches end in is decided by those that count. -/
theorem closing_upToDeny {ms ms' : List Match} (h : upToDeny ms' = upToDeny ms) :
    closing ms' = closing ms := by
  have hany : ms'.any denies = ms.any denies := by
    rw [← any_upToDeny ms, ← any_upToDeny ms', h]
  cases hdeny : ms.any denies with
  | true => rw [closing_eq_deny_iff.mpr hdeny, closing_eq_deny_iff.mpr (hany.trans hdeny)]
  | false =>
    rw [upToDeny_of_none hdeny, upToDeny_of_none (hany.trans hdeny)] at h
    rw [h]

theorem reads_inOrder (hread : List.Forall₂ (ReadsRule R) rules rules') :
    List.Forall₂ (ReadsRule R) (inOrder rules) (inOrderIn rules') :=
  forall₂_sortBy (fun _ _ h => h.priority.symm) hread

theorem sameMatches_of_alike (hread : List.Forall₂ (ReadsRule R) rules rules')
    (h : AlikeUpToDeny (inOrder rules) (inOrderIn rules') context ctx) :
    SameMatches (matchesOf (inOrder rules) context) (matchesIn (inOrderIn rules') ctx) := by
  have heq := upToDeny_eq (reads_inOrder hread) h
  exact ⟨congrArg _ heq, closing_upToDeny heq⟩

/-- For rules with distinct ids the matches are the same exactly when, up to the first
`DENY`, the rules match alike. -/
theorem sameMatches_iff_alike (hread : List.Forall₂ (ReadsRule R) rules rules')
    (hdistinct : (rules.map fun r => r.ruleId).Nodup) :
    SameMatches (matchesOf (inOrder rules) context) (matchesIn (inOrderIn rules') ctx) ↔
      AlikeUpToDeny (inOrder rules) (inOrderIn rules') context ctx := by
  have hperm : (inOrder rules).Perm rules := (stableSort_sortBy _ rules).perm
  have hdistinct : ((inOrder rules).map fun r => r.ruleId).Nodup :=
    (hperm.map _).nodup_iff.mpr hdistinct
  exact ⟨fun h => alike_of_ids (reads_inOrder hread) hdistinct h.ids, sameMatches_of_alike hread⟩

end Distinct

/-! ### Where the comparisons come apart -/

/-- What an operator asks of the value of the field and that of the condition. -/
def Asks (operator : ConditionOperator) (v t : Plain) : Prop :=
  match operator with
  | .equals => (v == t) = true
  | .notEquals => (v == t) = false
  | .greaterThan => t.less v = .ok true
  | .lessThan => v.less t = .ok true
  | .contains =>
    match v with
    | .str s => ∃ u, t = .str u ∧ u.toList <:+: s.toList
    | .list xs => ∃ x ∈ xs, (x == t) = true
    | .dict items => ∃ k, t = .str k ∧ (lookupItem k items).isSome = true
    | _ => False
  | .startsWith => ∃ s u, v = .str s ∧ t = .str u ∧ u.toList <+: s.toList
  | .endsWith => ∃ s u, v = .str s ∧ t = .str u ∧ u.toList <:+ s.toList
  | .inSet => ∃ xs, t = .list xs ∧ ∃ x ∈ xs, (x == v) = true
  | .notInSet => ∃ xs, t = .list xs ∧ ¬ ∃ x ∈ xs, (x == v) = true
  | .existsField => v ≠ .none
  | .matchesRegex => False

section Apart
variable (R : Reader)

/-- Python finds two values equal and the port does not, or the other way round. -/
def EqualApart (x y : Plain) : Prop :=
  (ofPlain R x == ofPlain R y) ≠ (x == y)

/-- One side alone finds the value among those of a list. -/
def MemberApart (x : Plain) (ys : List Plain) : Prop :=
  ¬ ((∃ y ∈ ys, (ofPlain R y == ofPlain R x) = true) ↔ ∃ y ∈ ys, (y == x) = true)

/-- The double that a number is read as; a boolean is none. -/
def double : Plain → Option Dyadic
  | .int i => some (R.number i).asF64
  | .float x => some (R.float x)
  | _ => none

/-- Two numbers are ordered otherwise than the doubles they are read as; or Python has an
order where the port has none, between lists or booleans. -/
def OrderApart (x y : Plain) : Prop :=
  match double R x, double R y with
  | some a, some b => ¬ (a < b ↔ x.less y = .ok true)
  | _, _ => (∀ s, x ≠ .str s) ∧ x.less y = .ok true

/-- Where the two sides differ about an operator. About texts and presence they do not. -/
def Apart (operator : ConditionOperator) (v t : Plain) : Prop :=
  match operator with
  | .equals => EqualApart R v t
  | .notEquals => EqualApart R v t
  | .greaterThan => OrderApart R t v
  | .lessThan => OrderApart R v t
  | .contains => ∃ xs, v = .list xs ∧ MemberApart R t xs
  | .inSet => ∃ xs, t = .list xs ∧ MemberApart R v xs
  | .notInSet => ∃ xs, t = .list xs ∧ MemberApart R v xs
  | _ => False

/-- The value that a condition looks at. -/
def fieldOf (c : Condition) (context : Context) : Plain := (context.get? c.field).getD .none

/-- A rule whose conditions are all met has none on which the sides differ; and of any
other rule some condition fails for the port too, one that is not met and on which they do
not differ or one that is met and on which they do. -/
structure RuleAlike (r : GovernanceRule) (context : Context) : Prop where
  met : (∀ c ∈ r.conditions, Asks c.operator (fieldOf c context) c.value) →
    ∀ c ∈ r.conditions, ¬ Apart R c.operator (fieldOf c context) c.value
  unmet : (∃ c ∈ r.conditions, ¬ Asks c.operator (fieldOf c context) c.value) →
    ∃ c ∈ r.conditions, Asks c.operator (fieldOf c context) c.value ↔
      Apart R c.operator (fieldOf c context) c.value

/-- So it is with each rule that no `DENY` rule with all its conditions met comes before. -/
def ReachedAlike (rules : List GovernanceRule) (context : Context) : Prop :=
  ∀ (i : Nat) (r : GovernanceRule), rules[i]? = some r →
    (∀ (j : Nat) (q : GovernanceRule), j < i → rules[j]? = some q → q.effect = .deny →
      ∃ c ∈ q.conditions, ¬ Asks c.operator (fieldOf c context) c.value) →
    RuleAlike R r context

/-- Over integers of 64 bits: equal in Python, with a number of one kind where the other
value has one of another. -/
theorem equalApart_iff (hfloat : Function.Injective R.float) {x y : Plain}
    (hx : short x = true) (hy : short y = true) :
    EqualApart R x y ↔ (x == y) = true ∧ sameKinds x y = false := by
  have hread : (ofPlain R x == ofPlain R y) = (x == y && sameKinds x y) :=
    beq_ofPlain R hfloat hx hy
  rw [EqualApart, hread]
  cases (x == y) <;> cases sameKinds x y <;> simp

end Apart

section Told
variable {R : Reader} {context : Context} {v t : Plain} {b : Bool}

theorem less_none (x : Plain) : x.less .none ≠ .ok true ∧ Plain.none.less x ≠ .ok true := by
  cases x <;> simp [Plain.less, Plain.number?]

/-- Python's order, where neither side is `None`. -/
theorem comparison_iff {less : Except PyError Bool}
    (hnone : v = .none ∨ t = .none → less ≠ .ok true) (h : (match v, t with
      | .none, _ => .ok false
      | _, .none => .ok false
      | _, _ => less) = Except.ok b) :
    b = true ↔ less = .ok true := by
  split at h
  · obtain rfl := Except.ok.inj h
    simpa using hnone (.inl rfl)
  · obtain rfl := Except.ok.inj h
    simpa using hnone (.inr rfl)
  · rw [h]
    exact ⟨congrArg _, Except.ok.inj⟩

/-- Where Python does not raise it decides what the operator asks. -/
theorem evaluate_asks {c : Condition} (h : Governance.PolicyCompiler.evaluate c context = .ok b) :
    b = true ↔ Asks c.operator (fieldOf c context) c.value := by
  obtain ⟨field, operator, t⟩ := c
  unfold Governance.PolicyCompiler.evaluate at h
  unfold fieldOf
  dsimp only at h ⊢
  generalize hv : (context.get? field).getD .none = v at h ⊢
  cases operator with
  | equals =>
    obtain rfl := Except.ok.inj h
    exact Iff.rfl
  | notEquals =>
    obtain rfl := Except.ok.inj h
    exact Bool.not_eq_true' (v == t) ▸ Iff.rfl
  | greaterThan | lessThan => exact comparison_iff (by rintro (rfl | rfl) <;> simp [less_none]) h
  | contains =>
    cases v with
    | str s =>
      cases t with
      | str u =>
        obtain rfl := Except.ok.inj h
        simp [Asks]
      | _ => cases h
    | list xs =>
      obtain rfl := Except.ok.inj h
      simp [Asks]
    | dict items => cases t <;> cases h <;> simp [Asks]
    | _ =>
      obtain rfl := Except.ok.inj h
      simp [Asks]
  | startsWith | endsWith => cases v <;> cases t <;> cases h <;> simp [Asks]
  | inSet | notInSet => cases t <;> cases h <;> simp [Asks]
  | existsField =>
    subst hv
    cases hget : context.get? field with
    | none =>
      rw [hget] at h
      obtain rfl := Except.ok.inj h
      simp [Asks]
    | some v =>
      rw [hget] at h
      cases v <;> cases h <;> simp [Asks]
  | matchesRegex =>
    obtain rfl := Except.ok.inj h
    simp [Asks]

theorem numOrStrCmp_ofPlain (x y : Plain) :
    numOrStrCmp (ofPlain R x) (ofPlain R y) =
      match double R x, double R y with
      | some a, some b => some (compareOfLessAndEq a b)
      | _, _ =>
        match x, y with
        | .str s, .str u => some (compareOfLessAndEq s u)
        | _, _ => none := by
  cases x <;> cases y <;> rfl

theorem numOrStrCmp_swap (a b : Value) :
    numOrStrCmp b a = (numOrStrCmp a b).map Ordering.swap := by
  cases a with
  | number m =>
    cases b with
    | number n =>
      exact congrArg some
        (compareOfLessAndEq_eq_swap Dyadic.le_antisymm Dyadic.le_total Dyadic.not_lt)
    | _ => rfl
  | string s =>
    cases b with
    | string t =>
      exact congrArg some
        (compareOfLessAndEq_eq_swap String.le_antisymm String.le_total String.not_le)
    | _ => rfl
  | _ => cases b <;> rfl

/-- The port's order is Python's, apart from where the sides differ. -/
theorem numOrStrCmp_isLT (x y : Plain) :
    ((numOrStrCmp (ofPlain R x) (ofPlain R y)).map Ordering.isLT).getD false = true ↔
      ¬ (x.less y = .ok true ↔ OrderApart R x y) := by
  rw [numOrStrCmp_ofPlain]
  unfold OrderApart
  cases hx : double R x with
  | some a =>
    cases double R y with
    | some b =>
      simp only [Option.map_some, Option.getD_some, Ordering.isLT_iff_eq_lt,
        compareOfLessAndEq_eq_lt]
      tauto
    | none =>
      cases x with
      | str s => cases hx
      | _ => simp
  | none =>
    cases x with
    | str s =>
      cases y with
      | str u => simp [Plain.less, Ordering.isLT_iff_eq_lt]
      | _ => simp [Plain.less, Plain.number?]
    | _ => simp

/-- The port finds what Python finds in a list, apart from where the sides differ. -/
theorem any_ofPlain (x : Plain) (ys : List Plain) :
    ((ofPlainElems R ys).any fun y => y == ofPlain R x) = true ↔
      ¬ ((∃ y ∈ ys, (y == x) = true) ↔ MemberApart R x ys) := by
  rw [ofPlainElems_eq_map, List.any_map, List.any_eq_true, MemberApart]
  simp only [Function.comp_apply]
  by_cases h : ∃ y ∈ ys, (y == x) = true <;> simp [h]

/-- The port decides the same, apart from where the sides differ. -/
theorem evalCondition_reads {c : Condition} {c' : ConditionIn} (h : ReadsCondition R c c') :
    evalCondition c' (Map.ofPlain R context).toValue = true ↔
      ¬ (Asks c.operator (fieldOf c context) c.value ↔
        Apart R c.operator (fieldOf c context) c.value) := by
  obtain ⟨field, operator, t⟩ := c
  obtain ⟨field', operator', t'⟩ := c'
  obtain ⟨hfield, hoperator, ht⟩ := h
  obtain rfl : field' = field := hfield
  obtain rfl : operator' = operator.value := hoperator
  obtain rfl : t' = ofPlain R t := ht
  have hget : (Map.ofPlain R context).toValue.get field' =
      (context.get? field').map (ofPlain R) := Map.get?_ofPlain R context field'
  have hvalue : ((context.get? field').map (ofPlain R)).getD .null =
      ofPlain R ((context.get? field').getD .none) := by
    cases context.get? field' <;> rfl
  unfold evalCondition fieldOf
  dsimp only
  rw [hget, hvalue]
  generalize hv : (context.get? field').getD .none = v
  cases operator with
  | equals =>
    show (ofPlain R v == ofPlain R t) = true ↔ _
    rw [Asks, Apart, EqualApart]
    cases (v == t) <;> simp
  | notEquals =>
    show (!(ofPlain R v == ofPlain R t)) = true ↔ _
    rw [Asks, Apart, EqualApart]
    cases (v == t) <;> simp
  | greaterThan =>
    have hgreater : ∀ o : Option Ordering, (o.map Ordering.swap).map Ordering.isGT =
        o.map Ordering.isLT := by
      rintro (_ | o)
      · rfl
      · cases o <;> rfl
    have hless := numOrStrCmp_isLT (R := R) t v
    rw [← hgreater, ← numOrStrCmp_swap] at hless
    exact hless
  | lessThan => exact numOrStrCmp_isLT v t
  | contains =>
    cases v with
    | str s => cases t <;> simp [Asks, Apart, ConditionOperator.value, ofPlain, Value.asStr]
    | list xs =>
      show ((ofPlainElems R xs).any fun x => x == ofPlain R t) = true ↔ _
      rw [any_ofPlain]
      simp [Asks, Apart]
    | dict items =>
      cases t <;> simp [Asks, Apart, ConditionOperator.value, ofPlain, Value.asStr,
        lookupItem_ofPlainItems, Option.isSome_iff_ne_none]
    | _ => simp [Asks, Apart, ConditionOperator.value, ofPlain]
  | startsWith | endsWith =>
    cases v <;> cases t <;>
      simp [Asks, Apart, ConditionOperator.value, ofPlain, Value.asStr]
  | inSet =>
    cases t with
    | list xs =>
      show ((ofPlainElems R xs).any fun x => x == ofPlain R v) = true ↔ _
      rw [any_ofPlain]
      simp [Asks, Apart]
    | _ => simp [Asks, Apart, ConditionOperator.value, ofPlain, Value.asArray]
  | notInSet =>
    cases t with
    | list xs =>
      show (!(ofPlainElems R xs).any fun x => x == ofPlain R v) = true ↔ _
      rw [Bool.not_eq_true', ← Bool.not_eq_true, any_ofPlain]
      by_cases h : ∃ y ∈ xs, (y == v) = true <;>
        simp only [Asks, Apart, Plain.list.injEq, exists_eq_left', h] <;> tauto
    | _ => simp [Asks, Apart, ConditionOperator.value, ofPlain, Value.asArray]
  | existsField =>
    subst hv
    cases context.get? field' with
    | none => simp [Asks, Apart, ConditionOperator.value]
    | some v =>
      cases v <;> simp [Asks, Apart, ConditionOperator.value, ofPlain, Value.isNull]
  | matchesRegex => simp [Asks, Apart, ConditionOperator.value]

/-- A rule matches in Python where all its conditions are met. -/
theorem decision_iff {conditions : List Condition} (h : decision conditions context = .ok b) :
    b = true ↔ ∀ c ∈ conditions, Asks c.operator (fieldOf c context) c.value := by
  induction conditions with
  | nil =>
    obtain rfl := Except.ok.inj h
    simp
  | cons c conditions ih =>
    rw [List.forall_mem_cons]
    rw [decision] at h
    cases hc : Governance.PolicyCompiler.evaluate c context with
    | error e =>
      rw [hc] at h
      cases h
    | ok met =>
      rw [hc] at h
      rw [← evaluate_asks hc]
      cases met with
      | true => simpa using ih h
      | false =>
        obtain rfl := Except.ok.inj h
        simp

variable {rules : List GovernanceRule} {rules' : List RuleIn} {r : GovernanceRule} {r' : RuleIn}

theorem hits_asks (hdecision : ∃ b, decision r.conditions context = .ok b) :
    hits r context = true ↔
      ∀ c ∈ r.conditions, Asks c.operator (fieldOf c context) c.value := by
  obtain ⟨b, hb⟩ := hdecision
  rw [hits, hb]
  exact decision_iff hb

theorem hitsIn_asks (hreads : ReadsRule R r r') :
    r'.hits (Map.ofPlain R context).toValue = true ↔
      ∀ c ∈ r.conditions, ¬ (Asks c.operator (fieldOf c context) c.value ↔
        Apart R c.operator (fieldOf c context) c.value) := by
  rw [RuleIn.hits, List.all_eq_true]
  constructor
  · intro h c hc
    obtain ⟨c', hc', hread⟩ := exists_right hreads.conditions hc
    exact (evalCondition_reads hread).mp (h c' hc')
  · intro h c' hc'
    obtain ⟨c, hc, hread⟩ := exists_left hreads.conditions hc'
    exact (evalCondition_reads hread).mpr (h c hc)

theorem hits_eq_iff (hreads : ReadsRule R r r')
    (hdecision : ∃ b, decision r.conditions context = .ok b) :
    hits r context = r'.hits (Map.ofPlain R context).toValue ↔ RuleAlike R r context := by
  rw [Bool.eq_iff_iff, hits_asks hdecision, hitsIn_asks hreads]
  constructor
  · intro h
    refine ⟨fun hmet c hc hapart => h.mp hmet c hc ⟨fun _ => hapart, fun _ => hmet c hc⟩, ?_⟩
    rintro ⟨c, hc, hunmet⟩
    by_contra hnone
    exact hunmet (h.mpr (fun c hc hiff => hnone ⟨c, hc, hiff⟩) c hc)
  · intro h
    constructor
    · exact fun hmet c hc hiff => h.met hmet c hc (hiff.mp (hmet c hc))
    · intro hport
      by_contra hunmet
      push Not at hunmet
      obtain ⟨c, hc, hiff⟩ := h.unmet hunmet
      exact hport c hc hiff

/-- Which rules match is told by the values that are compared. -/
theorem alikeUpToDeny_iff (hread : List.Forall₂ (ReadsRule R) rules rules')
    (hraises : ∀ rule ∈ rules, ∃ b,
      decision rule.conditions context = .ok b) :
    AlikeUpToDeny rules rules' context (Map.ofPlain R context).toValue ↔
      ReachedAlike R rules context := by
  have hreads : ∀ {i : Nat} {r : GovernanceRule} {r' : RuleIn}, rules[i]? = some r →
      rules'[i]? = some r' → ReadsRule R r r' := by
    intro i r r' hr hr'
    obtain ⟨hi, rfl⟩ := List.getElem?_eq_some_iff.mp hr
    obtain ⟨hi', rfl⟩ := List.getElem?_eq_some_iff.mp hr'
    exact hread.get hi hi'
  have hunmet : ∀ {j : Nat} {q : GovernanceRule}, rules[j]? = some q →
      (hits q context = false ↔
        ∃ c ∈ q.conditions, ¬ Asks c.operator (fieldOf c context) c.value) := by
    intro j q hq
    rw [← Bool.not_eq_true, hits_asks (hraises q (List.mem_of_getElem? hq))]
    push Not
    rfl
  constructor
  · intro h i r hr hbefore
    obtain ⟨hi, -⟩ := List.getElem?_eq_some_iff.mp hr
    have hr' := List.getElem?_eq_getElem (l := rules') (hread.length_eq ▸ hi)
    refine (hits_eq_iff (hreads hr hr') (hraises r (List.mem_of_getElem? hr))).mp ?_
    exact h i r _ hr hr' fun j q hj hq hdeny => (hunmet hq).mpr (hbefore j q hj hq hdeny)
  · intro h i r r' hr hr' hbefore
    refine (hits_eq_iff (hreads hr hr') (hraises r (List.mem_of_getElem? hr))).mpr ?_
    exact h i r hr fun j q hj hq hdeny => (hunmet hq).mp (hbefore j q hj hq hdeny)

/-- So it is where no condition of any rule comes apart. -/
theorem reachedAlike_of_not_apart (h : ∀ r ∈ rules, ∀ c ∈ r.conditions,
    ¬ Apart R c.operator (fieldOf c context) c.value) :
    ReachedAlike R (inOrder rules) context := by
  intro i r hr _
  have hapart := h r ((stableSort_sortBy _ rules).mem_iff.mp (List.mem_of_getElem? hr))
  refine ⟨fun _ => hapart, ?_⟩
  rintro ⟨c, hc, hunmet⟩
  exact ⟨c, hc, iff_of_false hunmet (hapart c hc)⟩

end Told

/-- **Main theorem.** Over valid rules and a context on which nothing raises, the port
decides as Python does where the comparisons make no difference to the rules that are
reached; and only there, if no id stands twice. -/
theorem evaluate_agrees_iff {V : Type} (R : Reader) (T : DecisionText Context V)
    (compiledHash : GovernanceRule → String)
    (hash : String → String → List String → Option String → String)
    (rules : List GovernanceRule) (rules' : List RuleIn)
    (hread : List.Forall₂ (ReadsRule R) rules rules') (hvalid : Valid rules) (context : Context)
    (hraises : ∀ rule ∈ rules, ∃ b,
      decision rule.conditions context = .ok b) :
    (ReachedAlike R (inOrder rules) context →
      DecideAlike R T compiledHash hash rules rules' context) ∧
    ((rules.map fun r => r.ruleId).Nodup →
      (DecideAlike R T compiledHash hash rules rules' context ↔
        ReachedAlike R (inOrder rules) context)) := by
  have hdecide := decideAlike_iff R T compiledHash hash rules rules' context hread hvalid hraises
  have hperm : (inOrder rules).Perm rules := (stableSort_sortBy _ rules).perm
  have hreached := alikeUpToDeny_iff (reads_inOrder hread)
    fun rule hrule => hraises rule (hperm.mem_iff.mp hrule)
  constructor
  · intro h
    exact hdecide.mpr (sameMatches_of_alike hread (hreached.mpr h))
  · intro hdistinct
    rw [hdecide, sameMatches_iff_alike hread hdistinct, hreached]

def ruleOf (ruleId : String) (effect : Effect) (conditions : List Condition) :
    GovernanceRule where
  ruleId
  name := ruleId
  description := ""
  targetScope := "global"
  conditions
  effect
  priority := 1
  version := "1"
  parentRuleId := none
  ruleHash := ""

def ruleInOf (ruleId effect : String) (conditions : List ConditionIn) : RuleIn where
  ruleId
  name := ruleId
  description := ""
  targetScope := "global"
  conditions
  effect
  priority := 1
  version := "1"
  parentRuleId := none

/-- A rule with one condition on the role. -/
def roleRule (operator : ConditionOperator) (value : Plain) : GovernanceRule :=
  ruleOf "r1" .allow [⟨"role", operator, value⟩]

def roleRuleIn (operator : String) (value : Value) : RuleIn :=
  ruleInOf "r1" "allow" [⟨"role", operator, value⟩]

def roleContext (value : Plain) : Context := .ofList [("role", value)]

def plainText : DecisionText Context Plain :=
  ⟨fun context key => context.get? key, .str, fun _ => "", fun _ _ _ _ => ""⟩

/-- Guests are denied, and readers that are no guests allowed. -/
def readerRules : List GovernanceRule :=
  [ruleOf "guests" .deny [⟨"role", .inSet, .list [.str "guest", .str "anonymous"]⟩],
    ruleOf "readers" .allow [⟨"role", .notEquals, .str "guest"⟩,
      ⟨"action", .startsWith, .str "read"⟩]]

def readerRulesIn : List RuleIn :=
  [ruleInOf "guests" "deny" [⟨"role", "in", .array [.string "guest", .string "anonymous"]⟩],
    ruleInOf "readers" "allow" [⟨"role", "ne", .string "guest"⟩,
      ⟨"action", "starts_with", .string "read"⟩]]

def readerContext : Context := .ofList [("role", .str "ops"), ("action", .str "read_log")]

theorem readers_alike : ReachedAlike nearestReader (inOrder readerRules) readerContext := by
  have hrole : ¬ EqualApart nearestReader (.str "ops") (.str "guest") := fun hapart =>
    Bool.false_ne_true
      ((equalApart_iff nearestReader Function.injective_id rfl rfl).mp hapart).1
  refine reachedAlike_of_not_apart (List.forall_mem_cons.mpr ⟨?_, List.forall_mem_singleton.mpr ?_⟩)
  · refine List.forall_mem_singleton.mpr ?_
    rintro ⟨xs, hxs, hapart⟩
    obtain rfl := Plain.list.inj hxs
    refine hapart (iff_of_false ?_ ?_) <;> simp <;> exact ⟨rfl, rfl⟩
  · exact List.forall_mem_cons.mpr ⟨hrole, List.forall_mem_singleton.mpr id⟩

/-- An operator whose role is no guest's reads the log. -/
theorem evaluate_agrees_readers :
    DecideAlike nearestReader plainText (fun _ => "") (fun _ _ _ _ => "") readerRules readerRulesIn
      readerContext :=
  (evaluate_agrees_iff nearestReader plainText (fun _ => "") (fun _ _ _ _ => "") readerRules
    readerRulesIn
    (.cons ⟨rfl, .cons ⟨rfl, rfl, rfl⟩ .nil, rfl, rfl⟩
      (.cons ⟨rfl, .cons ⟨rfl, rfl, rfl⟩ (.cons ⟨rfl, rfl, rfl⟩ .nil), rfl, rfl⟩ .nil))
    (by simp [Valid, readerRules, ruleOf]; decide) readerContext
    (List.forall_mem_cons.mpr ⟨⟨false, rfl⟩, List.forall_mem_singleton.mpr ⟨true, rfl⟩⟩)).1
    readers_alike

/-- A role `true` against the condition that it equals `1`: Python matches and allows, the
port does not and denies. So it is with `2 ** 53 + 1` against "greater than `2 ** 53`". -/
theorem evaluate_apart :
    (ReadsRule nearestReader (roleRule .equals (.int 1)) (roleRuleIn "eq" (.number (.posInt 1))) ∧
      ∃ policies d d',
        [roleRule .equals (.int 1)].mapM (compile fun _ => "") =
          .ok policies ∧
        GovernanceEngine.evaluate plainText (GovernanceEngine.loadAll policies)
          (roleContext (.bool true)) = .ok d ∧
        evaluate (fun _ _ _ _ => "") [roleRuleIn "eq" (.number (.posInt 1))]
          (Map.ofPlain nearestReader (roleContext (.bool true))).toValue = .ok d' ∧
        d.effect = .allow ∧ d'.effect = "deny" ∧ ¬ SameDecision d d') ∧
    (ReadsRule nearestReader (roleRule .greaterThan (.int (2 ^ 53)))
        (roleRuleIn "gt" (.number (.posInt (2 ^ 53)))) ∧
      ∃ policies d d',
        [roleRule .greaterThan (.int (2 ^ 53))].mapM
          (compile fun _ => "") = .ok policies ∧
        GovernanceEngine.evaluate plainText (GovernanceEngine.loadAll policies)
          (roleContext (.int (2 ^ 53 + 1))) = .ok d ∧
        evaluate (fun _ _ _ _ => "") [roleRuleIn "gt" (.number (.posInt (2 ^ 53)))]
          (Map.ofPlain nearestReader (roleContext (.int (2 ^ 53 + 1)))).toValue = .ok d' ∧
        d.effect = .allow ∧ d'.effect = "deny" ∧ ¬ SameDecision d d') := by
  refine ⟨⟨⟨rfl, .cons ⟨rfl, rfl, ?_⟩ .nil, rfl, rfl⟩, _, _, _, rfl, rfl, rfl, rfl, rfl, ?_⟩,
    ⟨rfl, .cons ⟨rfl, rfl, ?_⟩ .nil, rfl, rfl⟩, _, _, _, rfl, rfl, rfl, rfl, rfl, ?_⟩
  · show Value.number (.posInt 1) = .number (nearestReader.number 1)
    simp [Reader.number]
  · rintro ⟨h, -, -⟩
    exact absurd h (by decide)
  · show Value.number (.posInt (2 ^ 53)) = .number (nearestReader.number (2 ^ 53))
    simp [Reader.number]
  · rintro ⟨h, -, -⟩
    exact absurd h (by decide)

end PiPlatform.EventFabric.Port
