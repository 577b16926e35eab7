import PiPlatform.Library.Dict
import PiPlatform.Library.Python.Split

/-! What the shield inspects and what the mapper hands on.

The mapper lays a step's context under the previous output, the shield lays it over, and
where several keys hold something the shield looks at the first only. `shield_inspects_iff`:
in every chain, whatever its steps return, the shield has looked at every string an agent
gets, and has passed it, exactly when no key hands on another string than the one that is
picked (`Covered`). -/
namespace PiPlatform.Orchestrator

open Library Library.Json Library.Python

/-! ### Python objects -/

/-- A Python object, as far as mapper and shield look at one. -/
class PyObject (V : Type) where
  truthy : V → Bool
  str? : V → Option Text

variable {V : Type} [PyObject V]

open PyObject

/-- `d.get(k₁) or d.get(k₂) or …`, none where that is falsy. -/
def firstTruthy (get : String → Option V) : List String → Option V
  | [] => none
  | k :: ks =>
    match get k with
    | some v => if truthy v then some v else firstTruthy get ks
    | none => firstTruthy get ks

/-! ### Commands -/

/-- `" ".join(s.split())` -/
def collapse (s : Text) : Text := (ofString " ").intercalate (split s)

/-- `s.lower()` on ASCII; no other letter becomes one of those that are looked for. -/
def lower (s : Text) : Text :=
  s.map fun c => if 65 ≤ c.val ∧ c.val ≤ 90 then Fin.ofNat 0x110000 (c.val + 32) else c

/-- `needle in s` -/
def contains (needle s : Text) : Bool := needle <:+: s

def criticalTriggers : List (String × Nat) :=
  [("sudo", 80), ("rm -rf", 95), ("chmod", 50), ("curl", 40), ("wget", 40), ("chown", 50),
    ("env", 30), ("export", 30)]

def chainingPatterns : List Text :=
  [ofString ";", ofString "&&", ofString "||", [0x60], [0x24, 0x28], [0x24, 0x7B]]

def analyzeCommandSensitivity (command : Text) : Nat :=
  let normalized := lower (collapse command)
  let score := criticalTriggers.foldl
    (fun score t => if contains (ofString t.1) normalized then max score t.2 else score) 0
  if chainingPatterns.any fun p => contains p command then max score 60 else score

/-! ### The shield -/

def commandKeys : List String := ["command", "cmd"]

def codeKeys : List String := ["content", "proposed_content", "source_code"]

def checkDefensiveOnly (context : Dict String V) : Bool :=
  (firstTruthy context.get? (commandKeys ++ codeKeys)).isSome

/-- The one command that is rated. -/
def cmdCandidate (context : Dict String V) : Option Text :=
  (firstTruthy context.get? commandKeys).bind str?

/-- The one text that goes to `inspect_ast`. -/
def codeCandidate (context : Dict String V) : Option Text :=
  (firstTruthy context.get? codeKeys).bind str?

/-- The rating and the command, where it is refused. -/
def checkCommandSafety (context : Dict String V) : Option (Nat × Text) :=
  (cmdCandidate context).bind fun command =>
    let risk := analyzeCommandSensitivity command
    if 80 ≤ risk then some (risk, command) else none

/-- `"syntax error" in v.lower()` -/
def isSyntaxError (violation : Text) : Bool := contains (ofString "syntax error") (lower violation)

variable (inspectAst : Text → Option (List Text))

/-- The violations, where the code is refused; none where `inspect_ast` raises, as
`ast.parse` may. -/
def checkAstSafety (context : Dict String V) : Option (Option (List Text)) :=
  match codeCandidate context with
  | none => some none
  | some code =>
    (inspectAst code).map fun violations =>
      let real := violations.filter fun v => !isSyntaxError v
      if real = [] then none else some (real.map (ofString "AST security violation: " ++ ·))

/-! ### The mapper -/

def synonyms : List (String × List String) :=
  [("file_path", ["filename", "path", "file"]),
    ("filename", ["file_path", "path", "file"]),
    ("source_code",
      ["content", "solidity_code", "vyper_code", "text", "text_payload", "code_content"]),
    ("solidity_code", ["content", "source_code", "text", "text_payload"]),
    ("vyper_code", ["content", "source_code", "text", "text_payload"]),
    ("vulnerability_type", ["vulnerability_id"]),
    ("vulnerability_id", ["vulnerability_type"])]

/-- A target that is missing or falsy takes the first truthy of its sources. -/
def fillSynonym (ctx : Dict String V) (entry : String × List String) : Dict String V :=
  match firstTruthy ctx.get? [entry.1] with
  | some _ => ctx
  | none =>
    match firstTruthy ctx.get? entry.2 with
    | some v => ctx.set entry.1 v
    | none => ctx

/-- The context that `map_output_to_input` passes to the input factory. `healing` is what
the findings say of lines and vulnerability type. -/
def mapOutputToInput (healing : Dict String V → V × V) (prevOutput : Option (Dict String V))
    (agentName : String) (globalContext : Dict String V) : Dict String V :=
  match prevOutput with
  | none => globalContext
  | some out =>
    let ctx := synonyms.foldl fillSynonym (globalContext.update out)
    if agentName = "PiSelfHealingPatchAgent" then
      (ctx.set "vulnerable_lines" (healing out).1).set "vulnerability_type" (healing out).2
    else ctx

/-! ### The chain -/

/-- The auditors of contract code that the tables of the chain and of the consensus share. -/
def contractAgents : List String :=
  ["PiReentrancySentry", "PiAccessControlVerifier", "PiFlashLoanDefender", "PiArithmeticAuditor",
    "PiDelegateCallGuard", "PiSignatureReplayScout", "PiBytecodeDecompiler", "PiVyperSecScanner",
    "PiSelfDestructHunter", "PiOracleDivergenceAudit", "PiTokenTaxDetector", "PiTxOriginSentry",
    "PiReadOnlyReentrancySentry", "PiUninitializedStateSentry", "PiShadowedVariableDetector",
    "PiBlockTimestampSentry", "PiCrossChainBridgeAuditor", "PiGasGuzzlerDetector",
    "PiAssemblyLethalWeapons", "PiLogicGatekeeper", "PiPhishingShield", "PiExternalContractGuard",
    "PiCentralizationSentry", "PiFloatingPragmaSentry", "PiUpgradeDefectDetector",
    "PiDoSGasLimitsSentry", "PiDeFiSlippageGuard", "PiConstantTimeAuditor",
    "PiMemoryZeroizeSentry", "PiDimensionalAnalysisSentry", "PiAgentToolExecutionGuard",
    "PiHotPathAllocationAuditor"]

/-- The agents whose code is not inspected. -/
def astExempt : List String :=
  ["PiGitSecScanner", "PiSelfHealingPatchAgent", "PiStorageLayoutDrift", "PiERC4626VaultGuard"] ++
    contractAgents

/-- The environment of `execute_chain` and of the shield, and what is outside of both. -/
structure Settings (V : Type) where
  strict : Bool
  defensiveOnly : Bool
  shieldDefensiveOnly : Bool
  inspectAst : Text → Option (List Text)
  healing : Dict String V → V × V

/-- What a step's agent comes to. -/
structure StepResult (V : Type) where
  success : Bool
  /-- `risk_score >= 80.0` -/
  highRisk : Bool
  output : Option (Dict String V)

/-- A step of a chain, with what happens in it. -/
structure ChainStep (V : Type) where
  agentName : String
  deadlineExceeded : Bool
  /-- The input factory raises. -/
  factoryRaises : Bool
  /-- None where the agents or what follows them raise. -/
  result : Option (StepResult V)

/-- A step that reached its agents, with the context its input was made from and the one
that the shield was shown. -/
structure Reached (V : Type) where
  agentName : String
  prevOutput : Option (Dict String V)
  input : Dict String V
  stepCtx : Dict String V

/-- Whether the safety checks raise. -/
def Settings.blocks (settings : Settings V) (agentName : String) (stepCtx : Dict String V) :
    Bool :=
  settings.defensiveOnly || (settings.shieldDefensiveOnly && checkDefensiveOnly stepCtx) ||
    ((checkCommandSafety stepCtx).isSome && settings.strict) ||
    (decide (agentName ∉ astExempt) &&
      match checkAstSafety settings.inspectAst stepCtx with
      | none => true
      | some violations => violations.isSome && settings.strict)

/-- The steps of `execute_chain` that reach `run_with_consensus`. -/
def executeChain (settings : Settings V) (context : Dict String V) :
    List (ChainStep V) → Option (Dict String V) → List (Reached V)
  | [], _ => []
  | step :: rest, prevOutput =>
    let prevOutDict := prevOutput.getD .empty
    let input := mapOutputToInput settings.healing prevOutput step.agentName
      (context.update prevOutDict)
    let stepCtx := prevOutDict.update context
    if step.deadlineExceeded || step.factoryRaises || settings.blocks step.agentName stepCtx then []
    else
      ⟨step.agentName, prevOutput, input, stepCtx⟩ ::
        match step.result with
        | none => []
        | some result =>
          if !result.success || (settings.strict && result.highRisk) then []
          else executeChain settings context rest result.output

/-! ### What the mapper hands on -/

theorem firstTruthy_cons (get : String → Option V) (k : String) (ks : List String) :
    firstTruthy get (k :: ks) = (firstTruthy get [k]).or (firstTruthy get ks) := by
  simp only [firstTruthy]
  cases get k with
  | none => rfl
  | some v => by_cases hv : truthy v = true <;> simp [hv]

theorem get_of_firstTruthy {get : String → Option V} {k : String} {v : V}
    (h : firstTruthy get [k] = some v) : get k = some v := by
  simp only [firstTruthy] at h
  cases hk : get k with
  | none => simp [hk] at h
  | some w => cases hw : truthy w <;> simp_all

theorem firstTruthy_congr {get get' : String → Option V} {ks : List String}
    (h : ∀ k ∈ ks, get k = get' k) : firstTruthy get ks = firstTruthy get' ks := by
  induction ks with
  | nil => rfl
  | cons k ks ih =>
    obtain ⟨hk, hks⟩ := List.forall_mem_cons.mp h
    rw [firstTruthy, firstTruthy, hk, ih hks]

/-- A target holds its first truthy source, itself before the others. -/
theorem get?_fillSynonym (ctx : Dict String V) (entry : String × List String) (k : String) :
    (fillSynonym ctx entry).get? k =
      if entry.1 = k then (firstTruthy ctx.get? (entry.1 :: entry.2)).or (ctx.get? k)
      else ctx.get? k := by
  rw [firstTruthy_cons, fillSynonym]
  by_cases hk : entry.1 = k
  · rw [if_pos hk]
    cases hself : firstTruthy ctx.get? [entry.1] with
    | some v => simpa [hk] using get_of_firstTruthy hself
    | none =>
      cases firstTruthy ctx.get? entry.2 with
      | some w => simp [hk]
      | none => rfl
  · rw [if_neg hk]
    split
    · rfl
    · split
      · exact ctx.get?_set_ne hk _
      · rfl

/-- A key that is nobody's target stays as it is. -/
theorem get?_foldl_fillSynonym {entries : List (String × List String)} {k : String}
    (h : k ∉ entries.map Prod.fst) (ctx : Dict String V) :
    (entries.foldl fillSynonym ctx).get? k = ctx.get? k := by
  induction entries generalizing ctx with
  | nil => rfl
  | cons entry entries ih =>
    obtain ⟨hentry, hentries⟩ := not_or.mp (List.mem_cons.not.mp h)
    rw [List.foldl_cons, ih hentries, get?_fillSynonym, if_neg (Ne.symm hentry)]

section Handed
variable (context : Dict String V) (prevOutput : Option (Dict String V))

/-- The previous output over the step's context. -/
def merged (k : String) : Option V :=
  ((prevOutput.getD .empty).get? k).or (context.get? k)

/-- The step's context over the previous output, as the shield has it. -/
def shown (k : String) : Option V :=
  (context.get? k).or ((prevOutput.getD .empty).get? k)

/-- What the agent finds under a key the shield looks at. -/
def handed (k : String) : Option V :=
  if k = "source_code" ∧ prevOutput.isSome = true then
    (firstTruthy (merged context prevOutput) ["source_code", "content", "solidity_code",
      "vyper_code", "text", "text_payload", "code_content"]).or (merged context prevOutput k)
  else merged context prevOutput k

theorem get?_synonyms (ctx : Dict String V) {k : String} (hk : k ∈ commandKeys ++ codeKeys) :
    (synonyms.foldl fillSynonym ctx).get? k =
      if k = "source_code" then
        (firstTruthy ctx.get? ["source_code", "content", "solidity_code", "vyper_code", "text",
          "text_payload", "code_content"]).or (ctx.get? k)
      else ctx.get? k := by
  by_cases hsource : k = "source_code"
  · subst hsource
    rw [if_pos rfl]
    -- only the third entry fills it, and the first two touch none of its sources
    show ((synonyms.drop 3).foldl fillSynonym (fillSynonym ((synonyms.take 2).foldl fillSynonym ctx)
      ("source_code", ["content", "solidity_code", "vyper_code", "text", "text_payload",
        "code_content"]))).get? "source_code" = _
    have hbefore : ∀ j ∉ (synonyms.take 2).map Prod.fst,
        ((synonyms.take 2).foldl fillSynonym ctx).get? j = ctx.get? j :=
      fun j hj => get?_foldl_fillSynonym hj ctx
    rw [get?_foldl_fillSynonym (by decide), get?_fillSynonym, if_pos rfl,
      hbefore "source_code" (by decide)]
    exact congrArg₂ _ (firstTruthy_congr fun j hj => hbefore j (by revert j; decide)) rfl
  · rw [if_neg hsource]
    refine get?_foldl_fillSynonym (fun htarget => hsource ?_) ctx
    revert k
    decide

theorem get?_mapOutputToInput (healing : Dict String V → V × V) (agentName : String) {k : String}
    (hk : k ∈ commandKeys ++ codeKeys) :
    (mapOutputToInput healing prevOutput agentName
      (context.update (prevOutput.getD .empty))).get? k = handed context prevOutput k := by
  cases prevOutput with
  | none =>
    rw [handed, if_neg fun h => nomatch h.2]
    exact context.get?_update .empty k
  | some out =>
    have hmerged : ((context.update out).update out).get? = merged context (some out) := by
      funext j
      rw [Dict.get?_update, Dict.get?_update, ← Option.or_assoc, Option.or_self]
      rfl
    have hsynonyms := get?_synonyms ((context.update out).update out) hk
    rw [hmerged] at hsynonyms
    simp only [handed, Option.isSome_some, and_true]
    rw [← hsynonyms]
    show (if agentName = "PiSelfHealingPatchAgent" then _ else _ : Dict String V).get? k = _
    split
    · have hkeys : ∀ j ∈ commandKeys ++ codeKeys,
          "vulnerable_lines" ≠ j ∧ "vulnerability_type" ≠ j := by decide
      rw [Dict.get?_set_ne (hkeys k hk).2, Dict.get?_set_ne (hkeys k hk).1]
      rfl
    · rfl

end Handed

/-! ### What the agent receives was inspected -/

/-- Every string under one of the keys passes. -/
def StringsUnder (keys : List String) (get : String → Option V) (Passes : Text → Prop) : Prop :=
  ∀ k ∈ keys, ∀ v s, get k = some v → str? v = some s → Passes s

/-- `inspect_ast` finds nothing but syntax errors. -/
def PassedAst (code : Text) : Prop :=
  ∃ violations, inspectAst code = some violations ∧ ∀ v ∈ violations, isSyntaxError v = true

/-- Every string the agent receives was looked at by the shield, and passed. -/
def Inspected (r : Reached V) : Prop :=
  StringsUnder commandKeys r.input.get? (fun s =>
      cmdCandidate r.stepCtx = some s ∧ analyzeCommandSensitivity s < 80) ∧
    StringsUnder codeKeys r.input.get? fun s =>
      codeCandidate r.stepCtx = some s ∧ PassedAst inspectAst s

/-- No key hands on another string than the one that is picked of the context laid over
the previous output. -/
def Covered (context : Dict String V) (prevOutput : Option (Dict String V)) : Prop :=
  StringsUnder commandKeys (handed context prevOutput) (fun s =>
      (firstTruthy (shown context prevOutput) commandKeys).bind str? = some s) ∧
    StringsUnder codeKeys (handed context prevOutput) fun s =>
      (firstTruthy (shown context prevOutput) codeKeys).bind str? = some s

section Reaching
variable {settings : Settings V} {context : Dict String V} {steps : List (ChainStep V)}
  {r : Reached V}

/-- A step that reaches its agents has the mapper's input and was not blocked. -/
theorem of_mem_executeChain {prevOutput : Option (Dict String V)}
    (h : r ∈ executeChain settings context steps prevOutput) :
    r.input = mapOutputToInput settings.healing r.prevOutput r.agentName
        (context.update (r.prevOutput.getD .empty)) ∧
      r.stepCtx = (r.prevOutput.getD .empty).update context ∧
      settings.blocks r.agentName r.stepCtx = false := by
  induction steps generalizing prevOutput with
  | nil => cases h
  | cons step rest ih =>
    rw [executeChain] at h
    split at h
    · cases h
    · next hreaches =>
      simp only [Bool.or_eq_true, not_or, Bool.not_eq_true] at hreaches
      rcases List.mem_cons.mp h with rfl | h
      · exact ⟨rfl, rfl, hreaches.2⟩
      · split at h
        · cases h
        · split at h
          · cases h
          · exact ih h

theorem handed_of_mem (h : r ∈ executeChain settings context steps none) {k : String}
    (hk : k ∈ commandKeys ++ codeKeys) : r.input.get? k = handed context r.prevOutput k := by
  rw [(of_mem_executeChain h).1]
  exact get?_mapOutputToInput context r.prevOutput settings.healing r.agentName hk

/-- The shield is shown the step's context over the previous output. -/
theorem stepCtx_of_mem (h : r ∈ executeChain settings context steps none) :
    r.stepCtx.get? = shown context r.prevOutput := by
  rw [(of_mem_executeChain h).2.1]
  exact funext fun k => Dict.get?_update _ _ k

/-- The command that is picked is rated, the code that is picked is inspected. -/
theorem picked_passes
    (h : r ∈ executeChain settings context steps none) (strict : settings.strict = true)
    (hexempt : r.agentName ∉ astExempt) (s : Text) :
    (cmdCandidate r.stepCtx = some s → analyzeCommandSensitivity s < 80) ∧
      (codeCandidate r.stepCtx = some s → PassedAst settings.inspectAst s) := by
  have hblocks := (of_mem_executeChain h).2.2
  simp only [Settings.blocks, Bool.or_eq_false_iff, strict, Bool.and_true, hexempt,
    not_false_eq_true, decide_true, Bool.true_and] at hblocks
  obtain ⟨⟨-, hcommand⟩, hcode⟩ := hblocks
  constructor
  · intro hs
    by_contra hrisk
    simp [checkCommandSafety, hs, Nat.le_of_not_lt hrisk] at hcommand
  · intro hs
    simp only [checkAstSafety, hs] at hcode
    cases hinspect : settings.inspectAst s with
    | none => simp [hinspect] at hcode
    | some violations =>
      refine ⟨violations, hinspect, ?_⟩
      simpa [hinspect] using hcode

end Reaching

theorem stringsUnder_congr {keys : List String} {get get' : String → Option V}
    {Passes Passes' : Text → Prop} (hget : ∀ k ∈ keys, get k = get' k)
    (h : ∀ s, Passes s ↔ Passes' s) :
    StringsUnder keys get Passes ↔ StringsUnder keys get' Passes' := by
  refine forall₂_congr fun k hk => ?_
  simp only [hget k hk, h]

/-- **Main theorem.** In strict mode, and where the code is not exempt, the shield has
looked at all that the agents get exactly when they are handed no string but those it
picks; and what it picks it has passed. -/
theorem shield_inspects_iff (settings : Settings V) (strict : settings.strict = true)
    (context : Dict String V) (steps : List (ChainStep V)) :
    (∀ r ∈ executeChain settings context steps none, r.agentName ∉ astExempt →
        Inspected settings.inspectAst r) ↔
      ∀ r ∈ executeChain settings context steps none, r.agentName ∉ astExempt →
        Covered context r.prevOutput := by
  refine forall₃_congr fun r hr hexempt => and_congr ?_ ?_
  · refine stringsUnder_congr (fun k hk => handed_of_mem hr (List.mem_append_left _ hk)) fun s => ?_
    rw [← stepCtx_of_mem hr]
    exact ⟨fun h => h.1, fun h => ⟨h, (picked_passes hr strict hexempt s).1 h⟩⟩
  · refine stringsUnder_congr (fun k hk => handed_of_mem hr (List.mem_append_right _ hk))
      fun s => ?_
    rw [← stepCtx_of_mem hr]
    exact ⟨fun h => h.1, fun h => ⟨h, (picked_passes hr strict hexempt s).2 h⟩⟩

/-! ### Two commands in one context -/

instance : PyObject Text := ⟨(· ≠ []), some⟩

/-- A harmless command before a dangerous one. -/
def twoCommands : Dict String Text :=
  .ofList [("command", ofString "ls"), ("cmd", ofString "rm -rf /")]

def strictSettings : Settings Text where
  strict := true
  defensiveOnly := false
  shieldDefensiveOnly := false
  inspectAst := fun _ => some []
  healing := fun _ => ([], ofString "UNPINNED_DEP")

def scanStep : ChainStep Text where
  agentName := "PiPromptLeakBuster"
  deadlineExceeded := false
  factoryRaises := false
  result := none

theorem executeChain_scanStep {context : Dict String Text}
    (h : strictSettings.blocks "PiPromptLeakBuster" (Dict.empty.update context) = false) :
    executeChain strictSettings context [scanStep] none =
      [⟨"PiPromptLeakBuster", none, context.update .empty, Dict.empty.update context⟩] := by
  simp only [executeChain, scanStep, Option.getD_none, h, Bool.or_false]
  rfl

/-- The shield rates `ls` and the agent gets `rm -rf /` as well. -/
theorem second_command_not_inspected :
    ∃ r ∈ executeChain strictSettings twoCommands [scanStep] none,
      r.agentName ∉ astExempt ∧ ¬ Inspected strictSettings.inspectAst r := by
  rw [executeChain_scanStep (by decide)]
  refine ⟨_, List.mem_singleton_self _, by decide, fun h => ?_⟩
  have hrated := h.1 "cmd" (by decide) (ofString "rm -rf /") (ofString "rm -rf /") rfl rfl
  exact absurd hrated.2 (by decide)

/-- With one command and one text the agent gets what was looked at. -/
theorem shield_inspects_one_command :
    strictSettings.strict = true ∧
      ∀ r ∈ executeChain strictSettings
          (.ofList [("command", ofString "ls"), ("content", ofString "x = 1")]) [scanStep] none,
        r.agentName ∉ astExempt → Inspected strictSettings.inspectAst r := by
  refine ⟨rfl, (shield_inspects_iff strictSettings rfl _ _).mpr ?_⟩
  rw [executeChain_scanStep (by decide)]
  refine List.forall_mem_singleton.mpr fun _ => ⟨?_, ?_⟩
  · intro k hk v s hv hs
    obtain rfl | rfl : k = "command" ∨ k = "cmd" := by simpa [commandKeys] using hk
    · obtain rfl : s = ofString "ls" := Option.some.inj (hs.symm.trans hv.symm)
      rfl
    · cases hv
  · intro k hk v s hv hs
    obtain rfl | rfl | rfl : k = "content" ∨ k = "proposed_content" ∨ k = "source_code" := by
      simpa [codeKeys] using hk
    · obtain rfl : s = ofString "x = 1" := Option.some.inj (hs.symm.trans hv.symm)
      rfl
    · cases hv
    · cases hv

end PiPlatform.Orchestrator
