import PiPlatform.Library.Python.Value
import PiPlatform.Library.StableSort

/-! The governance engine.

Policies are kept by priority, those of one priority in the order they were loaded. A
context is put to them in turn until a `DENY` matches; until then every `ALLOW` and
`REQUIRE_APPROVAL` that matches replaces the effect, so the last of them stands. What is
decided depends on the matches alone, in their order (`evaluate_eq`), and the policies
are the stable sort of what was loaded (`stableSort_loadAll`). -/
namespace PiPlatform.EventFabric.Governance

open Library Library.Python

inductive Effect where
  | allow
  | deny
  | audit
  | requireApproval
  | notify
  deriving DecidableEq

def Effect.value : Effect → String
  | .allow => "allow"
  | .deny => "deny"
  | .audit => "audit"
  | .requireApproval => "require_approval"
  | .notify => "notify"

/-- The decision function is true where the conditions match. -/
structure CompiledPolicy (C : Type) where
  policyId : String
  ruleId : String
  decisionFunction : C → Except PyError Bool
  effect : Effect
  priority : Int
  compiledHash : String

structure GovernanceDecision (V : Type) where
  decisionId : String
  contextId : V
  effect : Effect
  matchedRules : List String
  deniedBy : Option String
  decisionHash : String
  evaluatedAt : V

/-- How a decision names its context: `context.get(key)`, a string as a value, a value
as text, and the digest of what was decided. -/
structure DecisionText (C V : Type) where
  get : C → String → Option V
  str : String → V
  text : V → String
  hash : V → Effect → List String → Option String → String

variable {C V : Type}

structure GovernanceEngine (C : Type) where
  policies : List (CompiledPolicy C)

namespace GovernanceEngine

def empty : GovernanceEngine C := ⟨[]⟩

def loadPolicy (engine : GovernanceEngine C) (policy : CompiledPolicy C) : GovernanceEngine C :=
  ⟨sortBy (fun p => p.priority) (engine.policies ++ [policy])⟩

def loadAll (policies : List (CompiledPolicy C)) : GovernanceEngine C :=
  policies.foldl loadPolicy empty

/-- What the loop of `evaluate` carries along. -/
structure Progress where
  matched : List String
  deniedBy : Option String
  finalEffect : Effect

/-- `for policy in policies: …` -/
def evaluatePolicies (context : C) : List (CompiledPolicy C) → Progress → Except PyError Progress
  | [], progress => .ok progress
  | policy :: policies, progress =>
    match policy.decisionFunction context with
    | .error e => .error e
    | .ok false => evaluatePolicies context policies progress
    | .ok true =>
      let matched := progress.matched ++ [policy.ruleId]
      match policy.effect with
      | .deny => .ok ⟨matched, some policy.ruleId, .deny⟩
      | .allow => evaluatePolicies context policies { progress with matched, finalEffect := .allow }
      | .requireApproval =>
        evaluatePolicies context policies { progress with matched, finalEffect := .requireApproval }
      | _ => evaluatePolicies context policies { progress with matched }

/-- The policies in order up to a denial; where none matches the answer is a denial. -/
def evaluate (T : DecisionText C V) (engine : GovernanceEngine C) (context : C) :
    Except PyError (GovernanceDecision V) := do
  let progress ← evaluatePolicies context engine.policies ⟨[], none, .deny⟩
  let effect := if progress.matched.isEmpty then .deny else progress.finalEffect
  let contextId := (T.get context "correlation_id").getD (T.str "unknown")
  let decisionHash := T.hash contextId effect progress.matched progress.deniedBy
  return {
    decisionId := "dec_" ++ T.text contextId ++ "_" ++ String.ofList (decisionHash.toList.take 16)
    contextId, effect
    matchedRules := progress.matched
    deniedBy := progress.deniedBy
    decisionHash
    evaluatedAt := (T.get context "timestamp").getD (T.str "") }

end GovernanceEngine

open GovernanceEngine

/-! ### What was matched decides -/

/-- A rule that matched. -/
structure Match where
  ruleId : String
  effect : Effect
  deriving DecidableEq

namespace Match
variable {ms : List Match}

def denies (m : Match) : Bool := m.effect = .deny

/-- Whether the effect replaces the one before. -/
def decides (m : Match) : Bool := m.effect = .allow ∨ m.effect = .requireApproval

/-- A `DENY` ends the evaluation. -/
def upToDeny : List Match → List Match
  | [] => []
  | m :: ms => if m.denies then [m] else m :: upToDeny ms

/-- The effect that stands after the matches, whatever stood before. -/
def standing (before : Effect) (ms : List Match) : Effect :=
  if ms.any denies then .deny
  else ((ms.filter decides).getLast?.map fun m => m.effect).getD before

theorem standing_cons {before : Effect} {m : Match} (h : m.denies = false) :
    standing before (m :: ms) = standing (if m.decides then m.effect else before) ms := by
  unfold standing
  rw [List.any_cons, h, Bool.false_or]
  by_cases hm : m.decides = true
  · rw [List.filter_cons_of_pos hm, List.getLast?_cons, if_pos hm]
    cases (ms.filter decides).getLast? <;> rfl
  · rw [List.filter_cons_of_neg hm, if_neg hm]

/-- The loop, over what matched. -/
def conclude : List Match → Progress → Progress
  | [], progress => progress
  | m :: ms, progress =>
    let matched := progress.matched ++ [m.ruleId]
    match m.effect with
    | .deny => ⟨matched, some m.ruleId, .deny⟩
    | .allow => conclude ms { progress with matched, finalEffect := .allow }
    | .requireApproval => conclude ms { progress with matched, finalEffect := .requireApproval }
    | _ => conclude ms { progress with matched }

theorem conclude_eq (ms : List Match) (progress : Progress) :
    conclude ms progress =
      ⟨progress.matched ++ (upToDeny ms).map fun m => m.ruleId,
        ((ms.find? denies).map fun m => m.ruleId).or progress.deniedBy,
        standing progress.finalEffect ms⟩ := by
  induction ms generalizing progress with
  | nil => simp [conclude, upToDeny, standing]
  | cons m ms ih =>
    by_cases hdeny : m.effect = .deny
    · have hm : m.denies = true := decide_eq_true hdeny
      simp [conclude, hdeny, upToDeny, standing, hm]
    · have hm : m.denies = false := decide_eq_false hdeny
      rw [standing_cons hm, upToDeny, hm, List.find?_cons_of_neg (by simp [hm])]
      cases heffect : m.effect with
      | deny => exact absurd heffect hdeny
      | allow | requireApproval | audit | notify => simp [conclude, heffect, ih, decides]

/-- The last word. -/
def verdict (ms : List Match) : Effect := standing .deny ms

theorem verdict_of_denied (h : ∃ m ∈ ms, m.effect = .deny) :
    verdict ms = .deny := by
  obtain ⟨m, hm, hdeny⟩ := h
  exact if_pos (List.any_eq_true.mpr ⟨m, hm, decide_eq_true hdeny⟩)

/-- Unless denied, what the last deciding match says. -/
theorem verdict_of_last {m : Match} (h : ∀ m ∈ ms, m.effect ≠ .deny)
    (hm : (ms.filter decides).getLast? = some m) : verdict ms = m.effect := by
  have hnone : ms.any denies = false :=
    List.any_eq_false.mpr fun m hm => by simpa [denies] using h m hm
  rw [verdict, standing, hnone, hm]
  rfl

theorem verdict_of_undecided (h : ms.filter decides = []) :
    verdict ms = .deny := by
  rw [verdict, standing, h]
  split <;> rfl

/-- Any other effect than `DENY` is that of a match, and nothing was denied. -/
theorem of_verdict_ne (h : verdict ms ≠ .deny) :
    (∃ m ∈ ms, m.decides = true ∧ m.effect = verdict ms) ∧ ∀ m ∈ ms, m.effect ≠ .deny := by
  have hnone : ∀ m ∈ ms, m.effect ≠ .deny := fun m hm hdeny => h (verdict_of_denied ⟨m, hm, hdeny⟩)
  refine ⟨?_, hnone⟩
  cases hlast : (ms.filter decides).getLast? with
  | none => exact absurd (verdict_of_undecided (List.getLast?_eq_none_iff.mp hlast)) h
  | some m =>
    obtain ⟨hm, hdecides⟩ := List.mem_filter.mp (List.mem_of_getLast? hlast)
    exact ⟨m, hm, hdecides, (verdict_of_last hnone hlast).symm⟩

end Match

section Evaluation
variable {context : C} {loaded : List (CompiledPolicy C)}

/-- Whether a policy matches; one that raises does not. -/
def CompiledPolicy.hits (p : CompiledPolicy C) (context : C) : Bool :=
  match p.decisionFunction context with
  | .ok b => b
  | .error _ => false

/-- No condition raises. -/
def NoneRaises (policies : List (CompiledPolicy C)) (context : C) : Prop :=
  ∀ p ∈ policies, ∃ b, p.decisionFunction context = .ok b

def CompiledPolicy.toMatch (p : CompiledPolicy C) : Match := ⟨p.ruleId, p.effect⟩

/-- The matches among the policies, in their order. -/
def hitsOf (policies : List (CompiledPolicy C)) (context : C) : List Match :=
  (policies.filter fun p => p.hits context).map CompiledPolicy.toMatch

theorem evaluatePolicies_eq {policies : List (CompiledPolicy C)} (h : NoneRaises policies context)
    (progress : Progress) :
    evaluatePolicies context policies progress =
      .ok (Match.conclude (hitsOf policies context) progress) := by
  induction policies generalizing progress with
  | nil => rfl
  | cons p policies ih =>
    obtain ⟨⟨b, hb⟩, hrest⟩ := List.forall_mem_cons.mp h
    cases b with
    | false =>
      have hms : hitsOf (p :: policies) context = hitsOf policies context := by
        rw [hitsOf, List.filter_cons_of_neg (by simp [CompiledPolicy.hits, hb])]
        rfl
      simp only [evaluatePolicies, hb, hms]
      exact ih hrest progress
    | true =>
      have hms : hitsOf (p :: policies) context = p.toMatch :: hitsOf policies context := by
        rw [hitsOf, List.filter_cons_of_pos (by simp [CompiledPolicy.hits, hb])]
        rfl
      simp only [evaluatePolicies, hb, hms, Match.conclude, CompiledPolicy.toMatch]
      cases p.effect with
      | deny => rfl
      | allow | requireApproval | audit | notify => exact ih hrest _

/-- What the engine decides, and by whom. -/
theorem evaluate_eq (T : DecisionText C V) {engine : GovernanceEngine C}
    (h : NoneRaises engine.policies context) :
    ∃ d, evaluate T engine context = .ok d ∧
      d.effect = Match.verdict (hitsOf engine.policies context) ∧
      d.matchedRules = (Match.upToDeny (hitsOf engine.policies context)).map (fun m => m.ruleId) ∧
      d.deniedBy = ((hitsOf engine.policies context).find? Match.denies).map fun m => m.ruleId := by
  have hrun := evaluatePolicies_eq h ⟨[], none, .deny⟩
  rw [Match.conclude_eq] at hrun
  unfold evaluate
  rw [hrun]
  refine ⟨_, rfl, ?_, by simp, by simp⟩
  cases hms : hitsOf engine.policies context with
  | nil => rfl
  | cons m ms =>
    have hne : (Match.upToDeny (m :: ms)).isEmpty = false := by
      unfold Match.upToDeny
      split <;> rfl
    simp [hne, Match.verdict]

/-- The policies loaded, in the order they are evaluated. -/
theorem stableSort_loadAll (loaded : List (CompiledPolicy C)) :
    StableSort (fun p => p.priority) loaded (loadAll loaded).policies := by
  induction loaded using List.reverseRecOn with
  | nil => exact .nil
  | append_singleton loaded policy ih =>
    rw [loadAll, List.foldl_append]
    exact ih.snoc policy

theorem mem_loadAll {p : CompiledPolicy C} : p ∈ (loadAll loaded).policies ↔ p ∈ loaded :=
  (stableSort_loadAll loaded).mem_iff

theorem NoneRaises.loadAll (h : NoneRaises loaded context) :
    NoneRaises (loadAll loaded).policies context :=
  fun p hp => h p (mem_loadAll.mp hp)

end Evaluation

end PiPlatform.EventFabric.Governance
