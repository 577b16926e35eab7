import Mathlib.Data.List.FinRange
import Mathlib.Algebra.Order.Round
import Mathlib.Data.Fin.VecNotation
import Mathlib.Data.Fintype.Perm
import Mathlib.Data.Rat.Floor
import PiPlatform.Library.Python.Equality
import PiPlatform.Orchestrator.ConsensusBreaker
import PiPlatform.Orchestrator.Shield

/-! Three runs of an agent and the consensus between them.

The breaker's score and whether two runs agree do not depend on the order of the runs, but
the report is read off the first run of the majority. `consensus_order_iff`: the order does
not matter to the flag exactly when no two runs agree, or the breaker trips, or the runs
that agree would each give the same flag, and likewise for the risk. Outside strict mode
the flag is the verdict's, for all agents but one, and does not depend on the order. A
success always has two runs behind it that agree on a verdict that is true. -/
namespace PiPlatform.Orchestrator

open Library Library.Json Library.Python

/-! ### Verdicts -/

/-- An agent's output: its JSON text and its fields. -/
structure AgentOutput where
  content : Text
  dump : Dict String Plain
  wellFormed : ∀ k v, dump.get? k = some v → v.wellFormed = true

def getComparableDict (output : AgentOutput) : Dict String Plain :=
  (output.dump.erase "published_timestamp").erase "ledger_receipt_hash"

/-- The other agents whose verdict is `is_secure`, present or not. -/
def secureAgents : List String :=
  ["PiCavemanTokenCompressor", "PiGrillMeQuestionnaire", "PiHandoffCheckpointSentry",
    "PiToPrdValidator", "PiToIssuesBreakdown", "PiTriageBugLabels", "PiZoomOutSystemExplainer",
    "PiDesignAnInterfaceValidator", "PiRequestRefactorPlanVerifier", "PiTddTestFileVerifier",
    "PiTddAssertionCoverage", "PiTddMockingSanityChecker", "PiGitSafetyGuardrail",
    "PiTypeScriptWizardryCheck", "PiArchitectureImportBoundarySentry", "PiDepreciationScanner",
    "PiDeadCodePruner", "PiMockDataTaintingSentry", "PiReadmeValidator", "PiChangelogAuditor",
    "PiAstDepthGuard", "PiUncontrolledRecursionSentry", "PiMagicNumberScanner",
    "PiErrorHandlingCatchAllGuard", "PiSemanticCommitMessageLinter", "PiWebVulnScanner",
    "PiPipelineIntegrityAuditor", "PiDockerImageScanner", "PiContainerEscapeDetector",
    "PiHardcodedSecretDetector", "PiLLMOutputSanitizer", "PiDataFlowPrivacyMapper",
    "PiSensitiveDataScanner", "PiAutomatedAnonymizer", "PiSensitiveLogLeakSentry",
    "PiStructuredLoggingEnforcer", "PiIaCScanner", "PiDependencyVulnScanner",
    "PiCloudConfigAuditor", "PiRBACPermissionMapper", "PiEncryptionComplianceChecker",
    "PiSBOMValidator", "PiSupplyChainIntegrityChecker", "PiAPIOWASPScanner",
    "PiKubernetesSecurityAuditor", "PiZeroTrustVerifier", "PiCertificateRotationWatcher",
    "PiFirewallRuleAuditor", "PiBackupIntegrityChecker", "PiAuditLogTamperDetector",
    "PiMisconfigPatternMatcher", "PiThreatModelGenerator", "PiSecretsManagerCompletenessChecker",
    "PiCodeSigningEnforcer", "PiDataRetentionPolicyEnforcer", "PiRuntimeAnomalySentry"]

/-- The field of the verdict, for the agents that are mapped. -/
def verdictField (agentName : String) : Option String :=
  if agentName = "PiArbitrageGuard" then some "should_execute"
  else if agentName = "PiMempoolSentry" then some "is_admitted"
  else if agentName = "PiPublisherDispatch" then some "success"
  else if agentName = "PiSelfHealingPatchAgent" then some "patch_synthesized"
  else if agentName ∈ ["PiGitSecScanner", "PiOracleSentry"] ++ contractAgents then some "is_secure"
  else if agentName = "PiStorageLayoutDrift" then some "is_safe"
  else if agentName = "PiERC4626VaultGuard" then some "is_compliant"
  else if agentName ∈ secureAgents then some "is_secure"
  else if agentName = "PiDeploymentSafetyGuard" then some "deployment_allowed"
  else if agentName = "PiAutomatedRotationEngine" then some "rotation_completed"
  else none

def getVerdict (agentName : String) (d : Dict String Plain) : Plain :=
  match verdictField agentName with
  | some field => (d.get? field).getD .none
  | none => ((d.get? "is_secure").or (d.get? "success")).getD .none

/-! ### The report of one run -/

/-- Where a branch takes its risk from. -/
inductive Risk where
  /-- `d.get("risk_score", 0.0)` -/
  | score
  /-- No risk where the field is true. -/
  | unlessTrue (field : String) (risk : Nat)
  /-- 95 where there are alerts. -/
  | ofAlerts
  /-- What is missing to full compliance. -/
  | ofCompliance
  /-- 90, and no success, where the route was blocked. -/
  | ofRoute

/-- What an agent's branch reads: the fields its alerts come from and the attribute of the
input envelope that its summary names. -/
structure Branch where
  alerts : List String
  named : Option String
  risk : Risk

/-- The score of a scan, whose findings are under a key. -/
def Branch.ofScan (key : String) : Branch := ⟨[key], none, .score⟩

/-- The same of a file, which is named. -/
def Branch.ofFile (key : String) : Branch := ⟨[key], some "file_path", .score⟩

/-- The code auditors' findings. -/
def Branch.ofCode : Branch := .ofFile "flagged_findings"

/-- The first entry of an agent is its branch: the auditors last take what is not listed before. -/
def branches : List (String × Branch) :=
  [("PiArbitrageGuard", ⟨[], none, .ofRoute⟩), ("PiMempoolSentry", .ofScan "alerts"),
    ("PiGitSecScanner", ⟨["flagged_vulnerabilities"], some "filename", .score⟩),
    ("PiPublisherDispatch", ⟨["anomalies_detected"], none, .ofAlerts⟩),
    ("PiOracleSentry", ⟨["flagged_anomalies"], none, .unlessTrue "is_secure" 90⟩),
    ("PiSelfHealingPatchAgent", ⟨["remediations"], none, .unlessTrue "patch_synthesized" 60⟩),
    ("PiStorageLayoutDrift", ⟨["drifted_slots", "compliance_findings"], some "file_path", .score⟩),
    ("PiERC4626VaultGuard", .ofCode), ("PiConstantTimeAuditor", .ofFile "flagged_lines"),
    ("PiDimensionalAnalysisSentry", .ofFile "mismatches"),
    ("PiAgentToolExecutionGuard", .ofScan "blocked_patterns"),
    ("PiHotPathAllocationAuditor", .ofFile "flagged_hotspots"),
    ("PiDockerImageScanner", .ofFile "detected_vulnerabilities"),
    ("PiContainerEscapeDetector", .ofFile "escape_vectors"),
    ("PiHardcodedSecretDetector", .ofFile "flagged_secrets"),
    ("PiAutomatedRotationEngine", ⟨[], some "target_identifier",
      .unlessTrue "rotation_completed" 80⟩),
    ("PiLLMOutputSanitizer", .ofScan "detected_leaks"),
    ("PiDataFlowPrivacyMapper", .ofScan "unsecured_flows"),
    ("PiSensitiveDataScanner", ⟨["discovered_pii_elements"], some "data_label", .score⟩),
    ("PiAutomatedAnonymizer", ⟨[], none, .unlessTrue "is_secure" 80⟩),
    ("PiSensitiveLogLeakSentry", ⟨["flagged_leaks"], some "log_file_path", .score⟩),
    ("PiStructuredLoggingEnforcer", ⟨["unstructured_statements"], some "file_path", .ofCompliance⟩),
    ("PiIaCScanner", .ofFile "detected_misconfigs"),
    ("PiDependencyVulnScanner", ⟨["vulnerable_packages"], some "lockfile_path", .score⟩),
    ("PiCloudConfigAuditor", .ofFile "misconfigured_resources"),
    ("PiRBACPermissionMapper", ⟨["excessive_permissions"], some "policy_file_path", .score⟩),
    ("PiEncryptionComplianceChecker", ⟨["missing_encryption"], some "resource_type", .score⟩),
    ("PiSBOMValidator", ⟨["license_issues", "missing_attestations"], some "sbom_path", .score⟩),
    ("PiSupplyChainIntegrityChecker", ⟨["suspicious_packages"], some "manifest_path", .score⟩),
    ("PiAPIOWASPScanner", ⟨["owasp_violations"], some "api_path", .score⟩),
    ("PiKubernetesSecurityAuditor", .ofScan "violations"),
    ("PiZeroTrustVerifier", .ofScan "violations"),
    ("PiCertificateRotationWatcher", .ofScan "issues"),
    ("PiFirewallRuleAuditor", ⟨["open_ports", "issues"], none, .score⟩),
    ("PiBackupIntegrityChecker", .ofScan "issues"),
    ("PiAuditLogTamperDetector", .ofScan "anomalies"),
    ("PiMisconfigPatternMatcher", .ofScan "matched_patterns"),
    ("PiThreatModelGenerator", .ofScan "threats"),
    ("PiSecretsManagerCompletenessChecker", .ofScan "gaps"),
    ("PiCodeSigningEnforcer", .ofScan "issues"),
    ("PiDataRetentionPolicyEnforcer", .ofScan "issues"),
    ("PiRuntimeAnomalySentry", .ofScan "anomalies_detected")] ++
    contractAgents.map (·, .ofCode)

/-- What `alerts.extend` takes from a value, none where it cannot be iterated. -/
def elements : Plain → Option (List Plain)
  | .str s => some (s.toList.map fun c => .str (String.ofList [c]))
  | .list xs => some xs
  | .dict items => some (items.map fun p => .str p.1)
  | _ => none

def isStr : Plain → Bool
  | .str _ => true
  | _ => false

variable {R : Type} [Field R] [LinearOrder R]

/-- The number a field holds, none where it holds no number. -/
def number (d : Dict String Plain) (field : String) (default : Dyadic) : Option R :=
  (((d.get? field).getD (.float default)).number?).map fun x => (x.toRat : R)

/-- The risk, and whether the branch leaves the success standing. -/
def Risk.read (d : Dict String Plain) (alerts : List Plain) : Risk → Option (R × Bool)
  | .score => (number d "risk_score" 0).map (·, true)
  | .unlessTrue field risk => some (if ((d.get? field).getD .none).truthy then 0 else risk, true)
  | .ofAlerts => some (if alerts.isEmpty then 0 else 95, true)
  | .ofCompliance =>
    (number d "compliance_score" 100).map fun score => (((100 : Nat) : R) - score, true)
  | .ofRoute =>
    match Plain.isIn (.str "BLOCKED") ((d.get? "route_details").getD (.str "")) with
    | .error _ => none
    | .ok blocked => (number d "expected_profit" 0 : Option R).map fun _ =>
        if blocked then (90, false) else (0, true)

/-- No branch but that of a route takes the success back. -/
def Risk.stands : Risk → Bool
  | .ofRoute => false
  | _ => true

/-- Whether the summary of the branch can be written. -/
def summaryWritten (envelope : String → Bool) (agentName : String) (named : Option String)
    (d : Dict String Plain) : Bool :=
  named.all envelope &&
    (agentName ≠ "PiThreatModelGenerator" ||
      ((elements ((d.get? "STRIDE_categories").getD (.list []))).any (·.all isStr)))

/-- The risk that the agent's branch reads, and whether it leaves the success standing. -/
def readRisk (envelope : String → Bool) (agentName : String) (d : Dict String Plain) :
    Option (R × Bool) :=
  match lookupItem agentName branches with
  | none => Risk.score.read d []
  | some branch => do
    let alerts ← branch.alerts.mapM fun field => elements ((d.get? field).getD (.list []))
    let result ← branch.risk.read d alerts.flatten
    if summaryWritten envelope agentName branch.named d then some result else none

/-- The success flag and the risk score read off the majority's run. None where it raises. -/
def majorityReport (envelope : String → Bool) (strictMode : Bool) (agentName : String)
    (d : Dict String Plain) (verdict : Plain) : Option (Bool × R) :=
  (readRisk envelope agentName d).map fun (risk, stands) =>
    (verdict.truthy && stands && !(strictMode && decide (80 ≤ risk)), risk)

/-! ### Consensus -/

/-- `v is not None and v == w` -/
def agree (v w : Plain) : Bool :=
  match v with
  | .none => false
  | _ => v.eq w

/-- The first run of the majority. -/
def majorityIdx (v₁ v₂ v₃ : Plain) : Option (Fin 3) :=
  if agree v₁ v₂ then some 0
  else if agree v₁ v₃ then some 0
  else if agree v₂ v₃ then some 1
  else none

variable (N : Numerics R) (envelope : String → Bool) (strictMode : Bool) (agentName : String)

def AgentOutput.response (output : AgentOutput) : ModelResponse where
  content := output.content
  parsedJson := some (getComparableDict output)

def AgentOutput.verdict (output : AgentOutput) : Plain :=
  getVerdict agentName (getComparableDict output)

/-- What the success flag and the risk score come to if this run is the majority's first. -/
def AgentOutput.report (output : AgentOutput) : Option (Bool × R) :=
  majorityReport envelope strictMode agentName (getComparableDict output)
    (output.verdict agentName)

/-- The success flag and the risk score of `run_with_consensus`, once the three runs are done.
None where it raises. -/
def runWithConsensus (outputs : Fin 3 → AgentOutput) : Option (Bool × R) :=
  (evaluateConsensus N 60 (List.ofFn fun i => (outputs i).response)).bind fun report =>
    match majorityIdx ((outputs 0).verdict agentName) ((outputs 1).verdict agentName)
      ((outputs 2).verdict agentName) with
    | none => some (false, report.consensusDivergenceScore)
    | some i =>
      if report.isBroken then some (false, report.consensusDivergenceScore)
      else (outputs i).report envelope strictMode agentName

/-! ### Agreement -/

theorem agree_iff {v w : Plain} : agree v w = true ↔ v ≠ .none ∧ v.eq w = true := by
  cases v <;> simp [agree]

theorem agree_symm {v w : Plain} (hv : v.wellFormed = true) (hw : w.wellFormed = true)
    (h : agree v w = true) : agree w v = true := by
  obtain ⟨hnone, heq⟩ := agree_iff.mp h
  have hsymm := Plain.eq_symm v w hv hw heq
  refine agree_iff.mpr ⟨?_, hsymm⟩
  rintro rfl
  cases v <;> simp [Plain.eq, Plain.number?] at hsymm hnone

theorem agree_trans {u v w : Plain} (huv : agree u v = true) (hvw : agree v w = true) :
    agree u w = true :=
  agree_iff.mpr ⟨(agree_iff.mp huv).1,
    Plain.eq_trans u v w (agree_iff.mp huv).2 (agree_iff.mp hvw).2⟩

omit [LinearOrder R] [Field R] in
theorem AgentOutput.wellFormed_field (output : AgentOutput) (field : String) :
    (((getComparableDict output).get? field).getD .none).wellFormed = true := by
  rw [getComparableDict, Dict.get?_erase, Dict.get?_erase]
  split
  · rfl
  · split
    · rfl
    · cases h : output.dump.get? field with
      | none => rfl
      | some v => exact output.wellFormed field v h

theorem AgentOutput.wellFormed_verdict (output : AgentOutput) :
    (output.verdict agentName).wellFormed = true := by
  rw [verdict, getVerdict]
  split
  · exact output.wellFormed_field _
  · cases h : (getComparableDict output).get? "is_secure" with
    | none => exact output.wellFormed_field "success"
    | some v => simpa [h] using output.wellFormed_field "is_secure"

section Runs
variable (outputs : Fin 3 → AgentOutput)

/-- Two different runs whose verdicts are equal and not `None`. -/
def Agree (i j : Fin 3) : Prop :=
  i ≠ j ∧ agree ((outputs i).verdict agentName) ((outputs j).verdict agentName) = true

variable {agentName outputs}

theorem Agree.symm {i j : Fin 3} (h : Agree agentName outputs i j) :
    Agree agentName outputs j i :=
  ⟨h.1.symm, agree_symm ((outputs i).wellFormed_verdict agentName)
    ((outputs j).wellFormed_verdict agentName) h.2⟩

theorem Agree.trans {i j k : Fin 3} (hij : Agree agentName outputs i j)
    (hjk : Agree agentName outputs j k) (hik : i ≠ k) : Agree agentName outputs i k :=
  ⟨hik, agree_trans hij.2 hjk.2⟩

/-- Of three runs any two pairs that agree have a run in common. -/
theorem Agree.joined {i j m n : Fin 3} (hij : Agree agentName outputs i j)
    (hmn : Agree agentName outputs m n) (hmi : m ≠ i) : Agree agentName outputs m i := by
  by_cases hni : n = i
  · exact hni ▸ hmn
  by_cases hmj : m = j
  · exact hmj ▸ hij.symm
  obtain rfl : n = j := by
    have := hij.1
    have := hmn.1
    omega
  exact hmn.trans hij.symm hmi

theorem agree_of_majorityIdx {i : Fin 3}
    (h : majorityIdx ((outputs 0).verdict agentName) ((outputs 1).verdict agentName)
      ((outputs 2).verdict agentName) = some i) : ∃ j, Agree agentName outputs i j := by
  rw [majorityIdx] at h
  split at h
  · next h01 => exact Option.some.inj h ▸ ⟨1, by decide, h01⟩
  · split at h
    · next h02 => exact Option.some.inj h ▸ ⟨2, by decide, h02⟩
    · split at h
      · next h12 => exact Option.some.inj h ▸ ⟨2, by decide, h12⟩
      · cases h

theorem exists_majorityIdx {i j : Fin 3} (h : Agree agentName outputs i j) :
    ∃ m, majorityIdx ((outputs 0).verdict agentName) ((outputs 1).verdict agentName)
      ((outputs 2).verdict agentName) = some m := by
  by_contra hnone
  simp only [majorityIdx] at hnone
  split at hnone
  · exact hnone ⟨0, rfl⟩
  · next h01 =>
    split at hnone
    · exact hnone ⟨0, rfl⟩
    · next h02 =>
      split at hnone
      · exact hnone ⟨1, rfl⟩
      · next h12 =>
        have hno : ∀ m n : Fin 3, m < n → ¬ Agree agentName outputs m n := by
          intro m n hmn hagree
          obtain ⟨rfl, rfl⟩ | ⟨rfl, rfl⟩ | ⟨rfl, rfl⟩ :
              (m = 0 ∧ n = 1) ∨ (m = 0 ∧ n = 2) ∨ (m = 1 ∧ n = 2) := by omega
          · exact h01 hagree.2
          · exact h02 hagree.2
          · exact h12 hagree.2
        rcases lt_or_gt_of_ne h.1 with hlt | hlt
        · exact hno i j hlt h
        · exact hno j i hlt h.symm

end Runs

/-! ### The order of the runs -/

section Order
variable (outputs : Fin 3 → AgentOutput)

/-- The breaker's report on the three runs. -/
def evaluated : Option (DivergenceReport R) :=
  evaluateConsensus N 60 (List.ofFn fun i => (outputs i).response)

theorem exists_evaluated : ∃ report, evaluated N outputs = some report := by
  simp [evaluated, evaluateConsensus]

theorem evaluated_comp (π : Equiv.Perm (Fin 3)) :
    evaluated N (outputs ∘ π) = evaluated N outputs :=
  evaluateConsensus_perm N 60 (Equiv.Perm.ofFn_comp_perm π fun i => (outputs i).response)

/-- The divergence is at the threshold or over it. -/
def Broken : Prop := ∃ report, evaluated N outputs = some report ∧ report.isBroken = true

/-- Runs that agree would report the same, as far as `part` looks. -/
def SameReports {γ : Type} (part : Bool × R → γ) : Prop :=
  ∀ i j, Agree agentName outputs i j →
    ((outputs i).report envelope strictMode agentName).map part =
      ((outputs j).report envelope strictMode agentName).map part

/-- All six orders of the runs come to the same, as far as `part` looks. -/
def OrderFree {γ : Type} (part : Bool × R → γ) : Prop :=
  ∀ π : Equiv.Perm (Fin 3),
    (runWithConsensus N envelope strictMode agentName (outputs ∘ π)).map part =
      (runWithConsensus N envelope strictMode agentName outputs).map part

variable {N agentName outputs} {i j : Fin 3}

theorem run_of_not_agree {report : DivergenceReport R} (h : evaluated N outputs = some report)
    (hno : ∀ i j, ¬ Agree agentName outputs i j) :
    runWithConsensus N envelope strictMode agentName outputs =
      some (false, report.consensusDivergenceScore) := by
  have hnone : majorityIdx ((outputs 0).verdict agentName) ((outputs 1).verdict agentName)
      ((outputs 2).verdict agentName) = none := by
    refine Option.eq_none_iff_forall_ne_some.mpr fun i hi => ?_
    obtain ⟨j, hagree⟩ := agree_of_majorityIdx hi
    exact hno i j hagree
  rw [evaluated] at h
  simp only [runWithConsensus, h, hnone, Option.bind_some]

theorem run_of_broken {report : DivergenceReport R} (h : evaluated N outputs = some report)
    (hbroken : report.isBroken = true) :
    runWithConsensus N envelope strictMode agentName outputs =
      some (false, report.consensusDivergenceScore) := by
  rw [evaluated] at h
  simp only [runWithConsensus, h, Option.bind_some, hbroken, if_true]
  split <;> rfl

/-- With a majority the report is that of one of its runs. -/
theorem run_of_agree (hbroken : ¬ Broken N outputs) (h : Agree agentName outputs i j) :
    ∃ m, (m = i ∨ Agree agentName outputs m i) ∧
      runWithConsensus N envelope strictMode agentName outputs =
        (outputs m).report envelope strictMode agentName := by
  obtain ⟨report, hreport⟩ := exists_evaluated N outputs
  have hstands : report.isBroken = false :=
    Bool.eq_false_iff.mpr fun htrue => hbroken ⟨report, hreport, htrue⟩
  obtain ⟨m, hm⟩ := exists_majorityIdx h
  obtain ⟨n, hmn⟩ := agree_of_majorityIdx hm
  refine ⟨m, or_iff_not_imp_left.mpr (h.joined hmn), ?_⟩
  rw [evaluated] at hreport
  simp only [runWithConsensus, hreport, hm, hstands, Option.bind_some]
  rfl

theorem run_of_sameReports {γ : Type} {part : Bool × R → γ}
    (hbroken : ¬ Broken N outputs) (h : Agree agentName outputs i j)
    (hsame : SameReports envelope strictMode agentName outputs part) :
    (runWithConsensus N envelope strictMode agentName outputs).map part =
      ((outputs i).report envelope strictMode agentName).map part := by
  obtain ⟨m, rfl | hagree, hrun⟩ := run_of_agree envelope strictMode hbroken h
  · exact congrArg _ hrun
  · exact (congrArg _ hrun).trans (hsame m i hagree)

/-- Where the first two agree the report is that of the first. -/
theorem run_of_first (hbroken : ¬ Broken N outputs)
    (h : Agree agentName outputs i j) {π : Equiv.Perm (Fin 3)} (hi : π 0 = i) (hj : π 1 = j) :
    runWithConsensus N envelope strictMode agentName (outputs ∘ π) =
      (outputs i).report envelope strictMode agentName := by
  obtain ⟨report, hreport⟩ := exists_evaluated N outputs
  have hstands : report.isBroken = false :=
    Bool.eq_false_iff.mpr fun htrue => hbroken ⟨report, hreport, htrue⟩
  have hcomp : evaluateConsensus N 60 (List.ofFn fun i => (outputs (π i)).response) =
      some report := (evaluated_comp N outputs π).trans hreport
  subst hi hj
  have hfirst : majorityIdx ((outputs (π 0)).verdict agentName) ((outputs (π 1)).verdict agentName)
      ((outputs (π 2)).verdict agentName) = some 0 := if_pos h.2
  simp only [runWithConsensus, hcomp, Function.comp_apply, hfirst, hstands,
    Option.bind_some]
  rfl

theorem agree_comp {π : Equiv.Perm (Fin 3)} :
    Agree agentName (outputs ∘ π) i j ↔ Agree agentName outputs (π i) (π j) :=
  and_congr_left fun _ => π.injective.ne_iff.symm

theorem exists_perm : ∀ i j : Fin 3, i ≠ j → ∃ π : Equiv.Perm (Fin 3), π 0 = i ∧ π 1 = j := by
  decide

section Part
variable {γ : Type} {part : Bool × R → γ}

/-- Runs that would report differently show in some order. -/
theorem sameReports_of_order (hbroken : ¬ Broken N outputs)
    (h : OrderFree N envelope strictMode agentName outputs part) :
    SameReports envelope strictMode agentName outputs part := by
  intro i j hagree
  obtain ⟨π, hi, hj⟩ := exists_perm i j hagree.1
  obtain ⟨ρ, hj', hi'⟩ := exists_perm j i hagree.1.symm
  rw [← run_of_first envelope strictMode hbroken hagree hi hj,
    ← run_of_first envelope strictMode hbroken hagree.symm hj' hi']
  exact (h π).trans (h ρ).symm

theorem order_of_broken (hbroken : Broken N outputs) :
    OrderFree N envelope strictMode agentName outputs part := by
  intro π
  obtain ⟨report, hreport, htrue⟩ := hbroken
  rw [run_of_broken envelope strictMode hreport htrue,
    run_of_broken envelope strictMode ((evaluated_comp N outputs π).trans hreport) htrue]

/-- Without a majority the order does not matter. -/
theorem order_of_split (hno : ∀ i j, ¬ Agree agentName outputs i j) :
    OrderFree N envelope strictMode agentName outputs part := by
  intro π
  obtain ⟨report, hreport⟩ := exists_evaluated N outputs
  rw [run_of_not_agree envelope strictMode hreport hno,
    run_of_not_agree envelope strictMode ((evaluated_comp N outputs π).trans hreport)
      fun i j hagree => hno _ _ (agree_comp.mp hagree)]

theorem order_of_sameReports (hbroken : ¬ Broken N outputs)
    (hsame : SameReports envelope strictMode agentName outputs part) :
    OrderFree N envelope strictMode agentName outputs part := by
  by_cases hmajority : ∃ i j, Agree agentName outputs i j
  · intro π
    have hbroken' : ¬ Broken N (outputs ∘ π) := by rwa [Broken, evaluated_comp]
    have hsame' : SameReports envelope strictMode agentName (outputs ∘ π) part :=
      fun i j hagree => hsame (π i) (π j) (agree_comp.mp hagree)
    obtain ⟨i, j, hagree⟩ := hmajority
    have hagree' : Agree agentName (outputs ∘ π) (π.symm i) (π.symm j) :=
      agree_comp.mpr (by simpa using hagree)
    rw [run_of_sameReports envelope strictMode hbroken hagree hsame,
      run_of_sameReports envelope strictMode hbroken' hagree' hsame', Function.comp_apply,
      Equiv.apply_symm_apply]
  · exact order_of_split envelope strictMode fun i j hagree => hmajority ⟨i, j, hagree⟩

theorem orderFree_iff :
    OrderFree N envelope strictMode agentName outputs part ↔
      Broken N outputs ∨ SameReports envelope strictMode agentName outputs part := by
  constructor
  · intro h
    exact or_iff_not_imp_left.mpr fun hbroken =>
      sameReports_of_order envelope strictMode hbroken h
  · intro h
    by_cases hbroken : Broken N outputs
    · exact order_of_broken envelope strictMode hbroken
    · exact order_of_sameReports envelope strictMode hbroken (h.resolve_left hbroken)

end Part

end Order

/-! ### Success -/

theorem truthy_of_majorityReport {d : Dict String Plain} {verdict : Plain} {risk : R}
    (h : majorityReport envelope strictMode agentName d verdict = some (true, risk)) :
    verdict.truthy = true := by
  obtain ⟨⟨risk', stands⟩, -, hreport⟩ := Option.map_eq_some_iff.mp h
  have hflag := (Prod.mk.inj hreport).1
  simp only [Bool.and_eq_true] at hflag
  exact hflag.1.1

/-- A success has two runs behind it that agree on a true verdict. -/
theorem agree_of_success {outputs : Fin 3 → AgentOutput} {risk : R}
    (h : runWithConsensus N envelope strictMode agentName outputs = some (true, risk)) :
    ∃ i j, Agree agentName outputs i j ∧ ((outputs i).verdict agentName).truthy = true := by
  obtain ⟨report, -, hrun⟩ := Option.bind_eq_some_iff.mp h
  split at hrun
  · simp at hrun
  · next i hi =>
    split at hrun
    · simp at hrun
    · obtain ⟨j, hagree⟩ := agree_of_majorityIdx hi
      exact ⟨i, j, hagree, truthy_of_majorityReport envelope strictMode agentName hrun⟩

omit [LinearOrder R] in
/-- Only the arbitrage guard's branch takes the success back. -/
theorem stands_of_readRisk (hagent : agentName ≠ "PiArbitrageGuard") {d : Dict String Plain}
    {risk : R} {stands : Bool} (h : readRisk envelope agentName d = some (risk, stands)) :
    stands = true := by
  have hread : ∀ {r : Risk} {alerts : List Plain}, r.stands = true →
      r.read d alerts = some (risk, stands) → stands = true := by
    intro r alerts hstands hr
    cases r with
    | ofRoute => cases hstands
    | ofAlerts | unlessTrue field n => exact (Prod.mk.inj (Option.some.inj hr)).2.symm
    | score | ofCompliance =>
      obtain ⟨_, -, heq⟩ := Option.map_eq_some_iff.mp hr
      exact (Prod.mk.inj heq).2.symm
  have hbranches : ∀ p ∈ branches, p.1 = "PiArbitrageGuard" ∨ p.2.risk.stands = true := by decide
  unfold readRisk at h
  split at h
  · exact hread (r := .score) rfl h
  · next branch hbranch =>
    obtain ⟨alerts, -, h⟩ := Option.bind_eq_some_iff.mp h
    obtain ⟨result, hresult, h⟩ := Option.bind_eq_some_iff.mp h
    split at h
    · obtain rfl := Option.some.inj h
      refine hread ((hbranches _ (mem_of_lookupItem hbranch)).resolve_left hagent) hresult
    · cases h

/-- Outside strict mode the flag is the verdict's. -/
theorem flag_of_report (hstrict : strictMode = false) (hagent : agentName ≠ "PiArbitrageGuard")
    {output : AgentOutput} {flag : Bool} {risk : R}
    (h : output.report envelope strictMode agentName = some (flag, risk)) :
    flag = (output.verdict agentName).truthy := by
  obtain ⟨⟨risk', stands⟩, hread, hreport⟩ := Option.map_eq_some_iff.mp h
  obtain rfl := stands_of_readRisk envelope agentName hagent hread
  simpa [hstrict] using (Prod.mk.inj hreport).1.symm

/-- And so it is the same for all six orders. -/
theorem flag_of_order (hstrict : strictMode = false) (hagent : agentName ≠ "PiArbitrageGuard")
    {outputs : Fin 3 → AgentOutput} (π : Equiv.Perm (Fin 3)) {flag flag' : Bool} {risk risk' : R}
    (h : runWithConsensus N envelope strictMode agentName (outputs ∘ π) = some (flag, risk))
    (h' : runWithConsensus N envelope strictMode agentName outputs = some (flag', risk')) :
    flag = flag' := by
  by_cases hbroken : Broken N outputs
  · have horder : OrderFree N envelope strictMode agentName outputs Prod.fst :=
      order_of_broken envelope strictMode hbroken
    have horder := horder π
    simpa [h, h'] using horder
  by_cases hmajority : ∃ i j, Agree agentName outputs i j
  · obtain ⟨i, j, hagree⟩ := hmajority
    -- both reports are of runs whose verdict equals that of the `i`-th
    have hflag : ∀ {m : Fin 3} {flag : Bool} {risk : R}, m = i ∨ Agree agentName outputs m i →
        (outputs m).report envelope strictMode agentName = some (flag, risk) →
          flag = ((outputs i).verdict agentName).truthy := by
      rintro m flag risk (rfl | hm) hreport
      · exact flag_of_report envelope strictMode agentName hstrict hagent hreport
      · rw [flag_of_report envelope strictMode agentName hstrict hagent hreport]
        exact Plain.truthy_congr (agree_iff.mp hm.2).2
    have hagree' : Agree agentName (outputs ∘ π) (π.symm i) (π.symm j) :=
      agree_comp.mpr (by simpa using hagree)
    obtain ⟨m, hm, hrun⟩ := run_of_agree envelope strictMode hbroken hagree
    obtain ⟨n, hn, hrun'⟩ := run_of_agree envelope strictMode
      (by rwa [Broken, evaluated_comp] : ¬ Broken N (outputs ∘ π)) hagree'
    have hn : π n = i ∨ Agree agentName outputs (π n) i := by
      refine hn.imp (fun heq => by simp [heq]) fun hn => ?_
      simpa using agree_comp.mp hn
    exact (hflag hn (hrun'.symm.trans h)).trans (hflag hm (hrun.symm.trans h')).symm
  · have horder : OrderFree N envelope strictMode agentName outputs Prod.fst :=
      order_of_split envelope strictMode fun i j hagree => hmajority ⟨i, j, hagree⟩
    simpa [h, h'] using horder π

/-- **Main theorem.** The flag is the same for all six orders exactly when the divergence
trips the breaker or the runs that agree would each report the same flag, and so it is with
the risk; outside strict mode two orders that return give the same flag in any case, but
for the arbitrage guard; and a success has two runs behind it whose verdicts are equal, not
`None`, and true. -/
theorem consensus_order_iff (outputs : Fin 3 → AgentOutput) :
    (OrderFree N envelope strictMode agentName outputs Prod.fst ↔
      Broken N outputs ∨ SameReports (R := R) envelope strictMode agentName outputs Prod.fst) ∧
    (OrderFree N envelope strictMode agentName outputs Prod.snd ↔
      Broken N outputs ∨ SameReports (R := R) envelope strictMode agentName outputs Prod.snd) ∧
    (strictMode = false → agentName ≠ "PiArbitrageGuard" →
      ∀ (π : Equiv.Perm (Fin 3)) (flag flag' : Bool) (risk risk' : R),
        runWithConsensus N envelope strictMode agentName (outputs ∘ π) = some (flag, risk) →
          runWithConsensus N envelope strictMode agentName outputs = some (flag', risk') →
            flag = flag') ∧
    ∀ risk, runWithConsensus N envelope strictMode agentName outputs = some (true, risk) →
      ∃ i j, i ≠ j ∧
        ((outputs i).verdict agentName).eq ((outputs j).verdict agentName) = true ∧
        ∀ k, k = i ∨ k = j → (outputs k).verdict agentName ≠ .none ∧
          ((outputs k).verdict agentName).truthy = true := by
  refine ⟨orderFree_iff envelope strictMode, orderFree_iff envelope strictMode, ?_, ?_⟩
  · intro hstrict hagent π flag flag' risk risk' h h'
    exact flag_of_order N envelope strictMode agentName hstrict hagent π h h'
  · intro risk hrun
    obtain ⟨i, j, hagree, htruthy⟩ := agree_of_success N envelope strictMode agentName hrun
    have heq := (agree_iff.mp hagree.2).2
    refine ⟨i, j, hagree.1, heq, ?_⟩
    rintro k (rfl | rfl)
    · exact ⟨(agree_iff.mp hagree.2).1, htruthy⟩
    · exact ⟨(agree_iff.mp hagree.symm.2).1, (Plain.truthy_congr heq).symm.trans htruthy⟩

/-! ### Two secure runs with different risks -/

/-- Over the rationals, with the square root exact on squares. -/
def rationalNumerics : Numerics ℚ where
  sqrt x := Nat.sqrt x.num.toNat / Nat.sqrt x.den
  round x digits := round (x * 10 ^ digits) / 10 ^ digits
  lower := lower

/-- A scan that finds the file secure, at a risk. -/
def gitSecOutput (risk : Int) (content : String) : AgentOutput where
  content := ofString content
  dump := .ofList [("is_secure", .bool true), ("risk_score", .float (.ofInt risk)),
    ("status", .str "PASSED"), ("flagged_vulnerabilities", .list [])]
  wellFormed := by
    rw [← Dict.forall_items]
    exact (Plain.wellFormedItems_iff _).mp rfl

def lowRisk : AgentOutput := gitSecOutput 10
  ("\x7b\"is_secure\":true,\"risk_score\":10.0,\"status\":\"PASSED\"," ++
    "\"flagged_vulnerabilities\":[]\x7d")

def highRisk : AgentOutput := gitSecOutput 90
  ("\x7b\"is_secure\":true,\"risk_score\":90.0,\"status\":\"PASSED\"," ++
    "\"flagged_vulnerabilities\":[]\x7d")

/-- The verdicts agree all three, and the first run decides. -/
theorem risk_of_first_run :
    runWithConsensus rationalNumerics (fun _ => true) true "PiGitSecScanner"
        ![lowRisk, highRisk, highRisk] = some (true, 10) ∧
      runWithConsensus rationalNumerics (fun _ => true) true "PiGitSecScanner"
        (![lowRisk, highRisk, highRisk] ∘ Equiv.swap 0 1) = some (false, 90) := by
  decide +kernel

end PiPlatform.Orchestrator
