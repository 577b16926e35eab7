import Mathlib.Data.Rat.Defs
import PiPlatform.Extensions.ProvenanceLedger
import PiPlatform.Interoperability.Manifest

/-! Admission of extensions.

A bundle passes the scans of its source, an inspection, four test runs, the normalization of what
the last one brings, and the policy; the first that refuses it ends the matter. Only what passes
all of them is admitted (`admitted_iff`). The zone that the enforcer assigns refuses nothing: it
is never above the requested one, and below it only for a core extension that is not on the list
(`assigned_eq_iff`). -/
namespace PiPlatform.Extensions

open Library Library.Json Library.Python Library.Calendar EventFabric
open Interoperability (CapabilityClass TrustZone ExtensionStatus)

/-- The fields that are truth values. -/
inductive Flag where
  | networkAccess | filesystemAccess | subprocessAccess | dynamicEvalAccess
  | deterministicClaim | replayabilityClaim
  deriving DecidableEq

def Flag.name : Flag → String
  | networkAccess => "network_access"
  | filesystemAccess => "filesystem_access"
  | subprocessAccess => "subprocess_access"
  | dynamicEvalAccess => "dynamic_eval_access"
  | deterministicClaim => "deterministic_claim"
  | replayabilityClaim => "replayability_claim"

/-- The fields that are bounds on resources. -/
inductive Resource where
  | cpuMsMax | memoryMbMax
  deriving DecidableEq

def Resource.name : Resource → String
  | cpuMsMax => "resource_cpu_ms_max"
  | memoryMbMax => "resource_memory_mb_max"

/-- The manifest, with the fields that admission reads. -/
structure ExtensionManifest extends Interoperability.ExtensionManifest where
  declaredOutputs : List String
  flag : Flag → Bool
  resource : Resource → Int

/-! ### Trust zones -/

/-- Zones by what they are trusted with. -/
def level : TrustZone → Nat
  | .sandboxExperimental => 0
  | .governedExtension => 1
  | .coreTrusted => 2

structure TrustZoneDecision where
  manifestId : String
  requestedZone : TrustZone
  assignedZone : TrustZone
  allowed : Bool
  reason : String

/-- The set of packages is a list. -/
structure TrustZoneEnforcer where
  coreTrustedPackages : List String
  sandboxAlwaysExperimental : Bool

/-- The zone that is assigned, the core only to packages of its list. -/
def TrustZoneEnforcer.evaluate (enforcer : TrustZoneEnforcer) (m : ExtensionManifest) :
    TrustZoneDecision :=
  let requested := m.trustZone
  let decision (assigned : TrustZone) (reason : String) : TrustZoneDecision :=
    ⟨m.extensionId, requested, assigned, true, reason⟩
  if enforcer.sandboxAlwaysExperimental && requested = .sandboxExperimental then
    decision .sandboxExperimental
      "Experimental packages remain in sandbox; no governance authority granted"
  else if requested = .coreTrusted then
    if m.packageHash ∈ enforcer.coreTrustedPackages then
      decision .coreTrusted "Package in core trusted allowlist"
    else
      decision .governedExtension "Core trusted request denied; downgraded to governed extension"
  else if requested = .governedExtension then
    decision .governedExtension "Standard governed extension path"
  else decision .sandboxExperimental "Default sandbox assignment"

/-! ### The policy -/

inductive RuleAction where
  | allow | deny
  deriving DecidableEq

def RuleAction.value : RuleAction → String
  | allow => "ALLOW"
  | deny => "DENY"

inductive Severity where
  | critical | high
  deriving DecidableEq

def Severity.value : Severity → String
  | critical => "CRITICAL"
  | high => "HIGH"

/-- A rule's type and its condition. -/
inductive Condition where
  | capabilityClass (allowed : List CapabilityClass)
  | required (required : Bool) (field : Flag)
  | maxResource (max : Int) (field : Resource)
  | trustZone (allowed : List TrustZone)
  | banned (banned : Bool) (field : Flag)

def Condition.ruleType : Condition → String
  | capabilityClass _ => "required_capability"
  | required _ _ => "required_capability"
  | maxResource _ _ => "max_resource"
  | trustZone _ => "trust_zone_restriction"
  | banned _ _ => "banned_capability"

structure PolicyRule where
  ruleId : String
  condition : Condition
  action : RuleAction
  severity : Severity

/-- What `_evaluate_rule` returns. -/
structure RuleResult where
  rule : PolicyRule
  passed : Bool
  fieldValue : Document Literal
  detail : String

structure PolicyEvaluation where
  manifestId : String
  passed : Bool
  evaluations : List RuleResult
  policyHash : String

structure ExtensionGovernancePolicy where
  approvedCapabilityClasses : List CapabilityClass
  maxCpuMs : Int
  maxMemoryMb : Int
  requireReplaySafe : Bool
  requireDeterministic : Bool
  allowedTrustZones : List TrustZone

def boolText (b : Bool) : String := if b then "True" else "False"

/-- What one rule says of a manifest. -/
def evaluateRule (m : ExtensionManifest) (rule : PolicyRule) : RuleResult :=
  let result (passed : Bool) (fieldValue : Document Literal) (detail : String) : RuleResult :=
    ⟨rule, passed, fieldValue, if passed then "" else detail⟩
  match rule.condition with
  | .capabilityClass allowed =>
    let value := m.capabilityClass.value
    result (value ∈ allowed.map (·.value)) (.str (ofString value))
      ("Capability class '" ++ value ++ "' not in approved list")
  | .required required field =>
    result (m.flag field == required) (.bool (m.flag field))
      ("Field '" ++ field.name ++ "' required=" ++ boolText required ++ ", actual=" ++
        boolText (m.flag field))
  | .maxResource max field =>
    result (decide (m.resource field ≤ max)) (.int (m.resource field))
      ("Resource '" ++ field.name ++ "' value=" ++ toString (m.resource field) ++ " exceeds max=" ++
        toString max)
  | .trustZone allowed =>
    let value := m.trustZone.value
    result (value ∈ allowed.map (·.value)) (.str (ofString value))
      ("Trust zone '" ++ value ++ "' not in allowed zones")
  | .banned banned field =>
    result (!banned || !m.flag field) (.bool (m.flag field))
      ("Banned capability '" ++ field.name ++ "' is enabled")

def RuleResult.document (r : RuleResult) : Document Literal :=
  let text (s : String) : Document Literal := .str (ofString s)
  .obj [(ofString "action", text r.rule.action.value), (ofString "detail", text r.detail),
    (ofString "field_value", r.fieldValue), (ofString "passed", .bool r.passed),
    (ofString "rule_id", text r.rule.ruleId),
    (ofString "rule_type", text r.rule.condition.ruleType),
    (ofString "severity", text r.rule.severity.value)]

namespace ExtensionGovernancePolicy

/-- An empty set stands for the default one. -/
def new (approvedCapabilityClasses : List CapabilityClass) (maxCpuMs maxMemoryMb : Int)
    (requireReplaySafe requireDeterministic : Bool) (allowedTrustZones : List TrustZone) :
    ExtensionGovernancePolicy where
  approvedCapabilityClasses :=
    if approvedCapabilityClasses = [] then CapabilityClass.all else approvedCapabilityClasses
  maxCpuMs := maxCpuMs
  maxMemoryMb := maxMemoryMb
  requireReplaySafe := requireReplaySafe
  requireDeterministic := requireDeterministic
  allowedTrustZones :=
    if allowedTrustZones = [] then [.coreTrusted, .governedExtension] else allowedTrustZones

variable (policy : ExtensionGovernancePolicy)

/-- `_build_rules` -/
def rules : List PolicyRule :=
  [⟨"capability_class", .capabilityClass policy.approvedCapabilityClasses, .allow, .critical⟩,
    ⟨"resource_cpu", .maxResource policy.maxCpuMs .cpuMsMax, .deny, .critical⟩,
    ⟨"resource_memory", .maxResource policy.maxMemoryMb .memoryMbMax, .deny, .critical⟩,
    ⟨"replay_safe", .required policy.requireReplaySafe .replayabilityClaim, .deny, .high⟩,
    ⟨"deterministic", .required policy.requireDeterministic .deterministicClaim, .deny, .high⟩,
    ⟨"trust_zone", .trustZone policy.allowedTrustZones, .deny, .critical⟩,
    ⟨"network_access", .banned true .networkAccess, .deny, .high⟩,
    ⟨"filesystem_access", .banned true .filesystemAccess, .deny, .high⟩,
    ⟨"subprocess_access", .banned true .subprocessAccess, .deny, .critical⟩,
    ⟨"dynamic_eval", .banned true .dynamicEvalAccess, .deny, .critical⟩]

/-- A rule that allows does not fail the policy, whatever it finds. -/
def evaluate (H : Digest) (m : ExtensionManifest) : PolicyEvaluation :=
  let evaluations := policy.rules.map (evaluateRule m)
  { manifestId := m.extensionId
    passed := evaluations.all fun r => !(decide (r.rule.action = .deny) && !r.passed)
    evaluations := evaluations
    policyHash := H.hex (String.ofList
      ((Document.arr (evaluations.map RuleResult.document)).render .compact)) }

end ExtensionGovernancePolicy

/-! ### The sandbox and the normalizer -/

structure SandboxResult where
  status : String
  output : List (String × Plain)
  outputHash : String
  executionTimeMs : Int

def SandboxResult.succeeded (r : SandboxResult) : Bool := r.status = "SUCCESS"

/-- `verify_determinism`: up to so many executions from the `k`-th on, each with what it came to.
The number of the next one is returned as well. -/
def verifyDeterminism (execute : Nat → SandboxResult) : Nat → Nat → List String → Bool × Nat
  | k, 0, hashes => (decide (hashes.dedup.length = 1), k)
  | k, runs + 1, hashes =>
    if (execute k).succeeded then
      verifyDeterminism execute (k + 1) runs (hashes ++ [(execute k).outputHash])
    else (false, k + 1)

def canonicalTypes : List String :=
  ["SemanticIRTrace", "DependencyGraph", "ReplaySurfaceReport", "ComplianceArtifact",
    "TopologyGraph", "BoundaryValidationReport", "TelemetryExposureReport",
    "ObservabilityDriftReport", "SecuritySimulationReport", "SensitiveFlowReport"]

/-- Texts of Python's own: `str` of a value, of a dictionary and of an evaluation. -/
structure Texts where
  value : Plain → String
  dict : List (String × Plain) → String
  evaluation : PolicyEvaluation → String

/-- Why a bundle's admission raises. -/
inductive GovernorError where
  /-- From the inspection of the source. -/
  | inspection (typeName : String)
  /-- `TypeError`, of an artifact type that is no key of a set. -/
  | unhashable
  /-- `OSError`: the receipt's file cannot be written. -/
  | notWritten (receiptId : String)
  deriving DecidableEq

/-- `SemanticOutputNormalizer.normalize` -/
def normalize (T : Texts) (now : String) (m : ExtensionManifest) (raw : List (String × Plain)) :
    Except GovernorError (List (String × Plain)) :=
  let artifactType := (lookupItem "artifact_type" raw).getD (.str "UNKNOWN")
  let rejection : List (String × Plain) :=
    [("artifact_type", .str "NormalizationRejection"), ("extension_id", .str m.extensionId),
      ("reason", .str ("Unknown artifact_type: " ++ T.value artifactType)),
      ("allowed_types", .list ((sortBy id canonicalTypes).map .str))]
  match artifactType with
  | .str name =>
    if name ∈ canonicalTypes then
      .ok [("artifact_type", artifactType), ("extension_id", .str m.extensionId),
        ("package_hash", .str m.packageHash), ("capability_class", .str m.capabilityClass.value),
        ("normalized_at", .str now), ("payload", (lookupItem "payload" raw).getD (.dict [])),
        ("provenance", .dict [("manifest_id", .str m.extensionId),
          ("package_version", .str m.packageVersion),
          ("capability_class", .str m.capabilityClass.value)]),
        ("schema_validated", .bool true), ("mesh_compatible", .bool true)]
    else .ok rejection
  | other => if other.hashable then .ok rejection else .error .unhashable

/-! ### The governor -/

inductive CapabilityClassification where
  | deterministicSafe | nonDeterministic | replayUnsafe | telemetryRisk | policyViolation
  | rejected
  deriving DecidableEq

/-- What inspecting a source comes to. -/
inductive Inspection where
  | classified (classifications : List CapabilityClassification)
  | syntaxError
  | raised (typeName : String)

structure InspectionReport where
  packageHash : String
  classifications : List CapabilityClassification

/-- A risk, a float that is no other than a rational, and what was found. -/
abbrev Detector := String → ℚ × List String

structure ExtensionGovernor where
  policy : ExtensionGovernancePolicy
  trustEnforcer : TrustZoneEnforcer
  detectPromptInjection : Detector
  detectShadowParameters : Detector
  detectInvisibleGuardrails : Detector
  detectSurplusViolations : Detector
  detectSpendAnomalies : Detector
  inspect : String → Inspection

/-- A bundle with its source, and what is outside: what executing it comes to one time after the
other, the clock, and whether a receipt can be written. -/
structure Submission where
  manifest : ExtensionManifest
  manifestHash : String
  manifestSnapshot : String
  entrypointSource : String
  execute : Nat → SandboxResult
  now : String
  time : Instant
  receiptDisk : String → Bool
  registryDisk : String → Bool

structure ExtensionAdmissionResult where
  manifestId : String
  admitted : Bool
  status : ExtensionStatus
  inspectionReport : Option InspectionReport
  determinismVerified : Bool
  policyEvaluation : Option PolicyEvaluation
  trustZoneDecision : Option TrustZoneDecision
  normalizationResult : Option (List (String × Plain))
  provenanceReceiptId : Option String
  reason : String

namespace ExtensionGovernor
variable (governor : ExtensionGovernor)

/-- The scans in their order, each with what its rejection says before the findings. -/
def scans : List (String × Detector) :=
  [("", governor.detectPromptInjection),
    ("shadow parameters detected - ", governor.detectShadowParameters),
    ("invisible guardrail evasion signatures detected - ", governor.detectInvisibleGuardrails),
    ("surplus quota policy violations detected - ", governor.detectSurplusViolations),
    ("spend anomaly patterns detected - ", governor.detectSpendAnomalies)]

/-- A rejection before the policy is asked. -/
def rejection (m : ExtensionManifest) (report : Option InspectionReport) (verified : Bool)
    (normalized : Option (List (String × Plain))) (reason : String) : ExtensionAdmissionResult where
  manifestId := m.extensionId
  admitted := false
  status := .rejected
  inspectionReport := report
  determinismVerified := verified
  policyEvaluation := none
  trustZoneDecision := none
  normalizationResult := normalized
  provenanceReceiptId := none
  reason := reason

variable (T : Texts) (H : Digest)

/-- The receipt of an admission; its id is made of what was executed. -/
def receiptOf (b : Submission) (r : SandboxResult) : ExtensionExecutionReceipt :=
  let m := b.manifest
  let fingerprint := (H.hex ("|".intercalate [m.extensionId, m.packageHash, r.outputHash])).take 12
  { receiptId := "rcpt_" ++ m.extensionId ++ "_" ++ fingerprint.toString
    extensionId := m.extensionId
    packageHash := m.packageHash
    workerContractVersion := "1.0.0"
    executionTimestamp := b.time
    executionDurationMs := r.executionTimeMs
    outputHash := r.outputHash
    deterministicFingerprint := r.outputHash
    replayLineage := [m.extensionId]
    previousReceiptHash := ""
    receiptHash := "" }

/-- From the policy on. -/
def conclude (b : Submission) (report : InspectionReport) (verified : Bool) (r : SandboxResult)
    (normalized : Option (List (String × Plain))) (opens : Opens)
    (ledger : ExtensionProvenanceLedger) :
    Except GovernorError ExtensionAdmissionResult × ExtensionProvenanceLedger :=
  let m := b.manifest
  let policyEval := governor.policy.evaluate H m
  let trustDecision := governor.trustEnforcer.evaluate m
  let admitted := verified && policyEval.passed && trustDecision.allowed &&
    decide (.rejected ∉ report.classifications) && r.succeeded
  let result : ExtensionAdmissionResult :=
    { manifestId := m.extensionId
      admitted := admitted
      status := if admitted then .admitted else .rejected
      inspectionReport := report
      determinismVerified := verified
      policyEvaluation := policyEval
      trustZoneDecision := trustDecision
      normalizationResult := normalized
      provenanceReceiptId := none
      reason :=
        if verified = false then "Determinism verification failed: outputs varied across runs"
        else if policyEval.passed = false then
          "Policy evaluation failed: extension violates governance policy"
        else if r.succeeded = false then "Sandbox execution failed: " ++ r.status
        else if admitted then "Extension admitted to mesh"
        else "Extension failed admission criteria" }
  if admitted then
    let (receipt, ledger) := ledger.appendReceipt H opens (receiptOf H b r)
    if b.receiptDisk receipt.receiptId then
      (.ok { result with provenanceReceiptId := receipt.receiptId }, ledger)
    else (.error (.notWritten receipt.receiptId), ledger)
  else (.ok result, ledger)

/-- The test runs, and what comes after them. -/
def tryOut (b : Submission) (report : InspectionReport) (opens : Opens)
    (ledger : ExtensionProvenanceLedger) :
    Except GovernorError ExtensionAdmissionResult × ExtensionProvenanceLedger :=
  let m := b.manifest
  let (verified, next) := verifyDeterminism b.execute 0 3 []
  let r := b.execute next
  if r.succeeded && r.output ≠ [] then
    match normalize T b.now m r.output with
    | .error error => (.error error, ledger)
    | .ok normalized =>
      match lookupItem "artifact_type" normalized with
      | some (.str "NormalizationRejection") =>
        (.ok (rejection m (some report) verified (some normalized)
          ("Semantic normalization rejected: " ++
            T.value ((lookupItem "reason" normalized).getD .none))), ledger)
      | _ => governor.conclude H b report verified r (some normalized) opens ledger
  else governor.conclude H b report verified r none opens ledger

/-- Scans, inspection and sandbox in this order, each of which may reject the bundle. -/
def processBundle (b : Submission) (opens : Opens) (ledger : ExtensionProvenanceLedger) :
    Except GovernorError ExtensionAdmissionResult × ExtensionProvenanceLedger :=
  let m := b.manifest
  match governor.scans.find? fun scan => 71 ≤ (scan.2 b.entrypointSource).1 with
  | some (found, detect) =>
    (.ok (rejection m none false none ("Safety inspection rejected extension: " ++ found ++
      ", ".intercalate (detect b.entrypointSource).2)), ledger)
  | none =>
    match governor.inspect b.entrypointSource with
    | .raised typeName => (.error (.inspection typeName), ledger)
    | .syntaxError =>
      (.ok (rejection m none false none "Syntax error in extension entrypoint"), ledger)
    | .classified classifications =>
      let report : InspectionReport := ⟨m.packageHash, classifications⟩
      if .rejected ∈ classifications then
        (.ok (rejection m (some report) false none
          "Static inspection rejected extension: dangerous capabilities detected"), ledger)
      else governor.tryOut T H b report opens ledger

end ExtensionGovernor

/-! ### What the enforcer assigns -/

section Zones
variable (enforcer : TrustZoneEnforcer) (m : ExtensionManifest)

theorem evaluate_allowed : (enforcer.evaluate m).allowed = true := by
  rw [TrustZoneEnforcer.evaluate]
  split_ifs <;> rfl

/-- The requested zone, except for a core extension that is not on the list. -/
theorem evaluate_assigned : (enforcer.evaluate m).assignedZone =
    if m.trustZone = .coreTrusted ∧ m.packageHash ∉ enforcer.coreTrustedPackages then
      .governedExtension
    else m.trustZone := by
  rw [TrustZoneEnforcer.evaluate]
  cases hzone : m.trustZone with
  | coreTrusted =>
    by_cases hlisted : m.packageHash ∈ enforcer.coreTrustedPackages
    · simp [hlisted]
    · simp [hlisted]
  | governedExtension => simp
  | sandboxExperimental => cases enforcer.sandboxAlwaysExperimental <;> simp

/-- The requested zone is not above the assigned one unless a core request is denied. -/
theorem level_requested_le_iff : level m.trustZone ≤ level (enforcer.evaluate m).assignedZone ↔
    (m.trustZone = .coreTrusted → m.packageHash ∈ enforcer.coreTrustedPackages) := by
  rw [evaluate_assigned]
  split_ifs with hdenied
  · rw [hdenied.1]
    exact iff_of_false (by decide) fun hlisted => hdenied.2 (hlisted rfl)
  · refine iff_of_true le_rfl fun hzone => ?_
    by_contra hunlisted
    exact hdenied ⟨hzone, hunlisted⟩

end Zones

/-! ### What is admitted -/

section Admission
variable {execute : Nat → SandboxResult}

theorem verifyDeterminism_true (k runs : Nat) (hashes : List String) :
    (verifyDeterminism execute k runs hashes).1 = true ↔
      (∀ j < runs, (execute (k + j)).succeeded = true) ∧
        (hashes ++ (List.range' k runs).map fun j => (execute j).outputHash).dedup.length = 1 := by
  induction runs generalizing k hashes with
  | zero => simp [verifyDeterminism]
  | succ runs ih =>
    rw [verifyDeterminism, List.range'_succ, List.map_cons]
    split_ifs with hfirst
    · rw [ih, List.append_assoc, List.singleton_append, Nat.forall_lt_succ_left]
      simp only [Nat.add_zero, hfirst, true_and]
      simp only [Nat.add_assoc, Nat.add_comm 1]
    · exact iff_of_false (by simp) fun hall => hfirst (hall.1 0 (Nat.succ_pos runs))

theorem verifyDeterminism_next {k runs : Nat} (hashes : List String)
    (h : ∀ j < runs, (execute (k + j)).succeeded = true) :
    (verifyDeterminism execute k runs hashes).2 = k + runs := by
  induction runs generalizing k hashes with
  | zero => rfl
  | succ runs ih =>
    have hfirst : (execute k).succeeded = true := h 0 (Nat.succ_pos runs)
    rw [verifyDeterminism, if_pos hfirst, ih]
    · omega
    · intro j hj
      have hnext := h (j + 1) (Nat.succ_lt_succ hj)
      rwa [Nat.add_comm j, ← Nat.add_assoc] at hnext

theorem next_of_verified (h : (verifyDeterminism execute 0 3 []).1 = true) :
    (verifyDeterminism execute 0 3 []).2 = 3 := by
  have hsucceeded := ((verifyDeterminism_true 0 3 []).mp h).1
  rw [verifyDeterminism_next [] hsucceeded]

/-- Three executions with one result, and a fourth. -/
theorem tested_iff : (verifyDeterminism execute 0 3 []).1 = true ∧
      (execute (verifyDeterminism execute 0 3 []).2).succeeded = true ↔
    (∀ k < 4, (execute k).succeeded = true) ∧
      ((List.range 3).map fun k => (execute k).outputHash).dedup.length = 1 := by
  have hverified : (verifyDeterminism execute 0 3 []).1 = true ↔ _ :=
    verifyDeterminism_true 0 3 []
  simp only [Nat.zero_add, List.nil_append, ← List.range_eq_range'] at hverified
  rw [Nat.forall_lt_succ_right]
  constructor
  · rintro ⟨htrue, hlast⟩
    rw [next_of_verified htrue] at hlast
    exact ⟨⟨(hverified.mp htrue).1, hlast⟩, (hverified.mp htrue).2⟩
  · rintro ⟨⟨hfirst, hlast⟩, hrepeated⟩
    have htrue := hverified.mpr ⟨hfirst, hrepeated⟩
    rw [next_of_verified htrue]
    exact ⟨htrue, hlast⟩

/-- The artifact type is one of the canonical ones. -/
def Canonical (raw : List (String × Plain)) : Prop :=
  ∃ name ∈ canonicalTypes, lookupItem "artifact_type" raw = some (.str name)

/-- What is normalized has its artifact type; of all else nothing comes, or a rejection. -/
theorem normalize_cases (T : Texts) (now : String) (m : ExtensionManifest)
    (raw : List (String × Plain)) :
    (Canonical raw ∧ ∃ normalized name, normalize T now m raw = .ok normalized ∧
      lookupItem "artifact_type" normalized = some (.str name) ∧ name ∈ canonicalTypes) ∨
    (¬ Canonical raw ∧ (normalize T now m raw = .error .unhashable ∨
      ∃ normalized, normalize T now m raw = .ok normalized ∧
        lookupItem "artifact_type" normalized = some (.str "NormalizationRejection"))) := by
  have hnot : (∀ name ∈ canonicalTypes, lookupItem "artifact_type" raw ≠ some (.str name)) →
      ¬ Canonical raw := fun hnone ⟨name, hname, hfound⟩ => hnone name hname hfound
  have hunknown : "UNKNOWN" ∉ canonicalTypes := by decide
  rw [normalize]
  cases hfound : lookupItem "artifact_type" raw with
  | none =>
    refine .inr ⟨hnot fun name _ => by simp [hfound], .inr ?_⟩
    simp only [Option.getD_none, if_neg hunknown]
    exact ⟨_, rfl, rfl⟩
  | some value =>
    simp only [Option.getD_some]
    cases value with
    | str name =>
      by_cases hname : name ∈ canonicalTypes
      · simp only [if_pos hname]
        exact .inl ⟨⟨name, hname, hfound⟩, _, name, rfl, rfl, hname⟩
      · refine .inr ⟨hnot fun name' hname' hsame => hname ?_, .inr ?_⟩
        · rw [hfound] at hsame
          rwa [Plain.str.inj (Option.some.inj hsame)]
        · simp only [if_neg hname]
          exact ⟨_, rfl, rfl⟩
    | list xs | dict items => exact .inr ⟨hnot fun name _ => by simp [hfound], .inl rfl⟩
    | none | bool b | int i | float x =>
      exact .inr ⟨hnot fun name _ => by simp [hfound], .inr ⟨_, rfl, rfl⟩⟩

/-- A bundle that every gate lets pass, whatever zone it requests. -/
structure ExtensionGovernor.Admissible (governor : ExtensionGovernor) (H : Digest)
    (b : Submission) : Prop where
  unflagged : ∀ scan ∈ governor.scans, (scan.2 b.entrypointSource).1 < 71
  inspected : ∃ classifications, governor.inspect b.entrypointSource = .classified classifications ∧
    .rejected ∉ classifications
  executed : ∀ k < 4, (b.execute k).succeeded = true
  repeated : ((List.range 3).map fun k => (b.execute k).outputHash).dedup.length = 1
  canonical : (b.execute 3).output ≠ [] → Canonical (b.execute 3).output
  policy : (governor.policy.evaluate H b.manifest).passed = true
  written : b.receiptDisk (ExtensionGovernor.receiptOf H b (b.execute 3)).receiptId = true

/-- The bundle is admitted. -/
def Admits (outcome : Except GovernorError ExtensionAdmissionResult) : Prop :=
  ∃ result, outcome = .ok result ∧ result.admitted = true

variable (governor : ExtensionGovernor) (T : Texts) (H : Digest) (b : Submission) (opens : Opens)
  (ledger : ExtensionProvenanceLedger)

theorem not_admits_rejection {m : ExtensionManifest} {report : Option InspectionReport}
    {verified : Bool} {normalized : Option (List (String × Plain))} {reason : String} :
    ¬ Admits (.ok (ExtensionGovernor.rejection m report verified normalized reason)) := by
  rintro ⟨result, hok, hadmitted⟩
  rw [← Except.ok.inj hok] at hadmitted
  exact Bool.false_ne_true hadmitted

theorem not_admits_error {error : GovernorError} : ¬ Admits (.error error) :=
  fun ⟨_, hok, _⟩ => by cases hok

theorem conclude_admits_iff (report : InspectionReport) (verified : Bool) (r : SandboxResult)
    (normalized : Option (List (String × Plain))) :
    Admits (governor.conclude H b report verified r normalized opens ledger).1 ↔
      verified = true ∧ (governor.policy.evaluate H b.manifest).passed = true ∧
        .rejected ∉ report.classifications ∧ r.succeeded = true ∧
        b.receiptDisk (ExtensionGovernor.receiptOf H b r).receiptId = true := by
  rw [ExtensionGovernor.conclude]
  dsimp only
  rw [evaluate_allowed]
  cases hadmitted : verified && (governor.policy.evaluate H b.manifest).passed && true &&
      decide (.rejected ∉ report.classifications) && r.succeeded with
  | true =>
    simp only [Bool.and_eq_true, decide_eq_true_eq, Bool.and_true] at hadmitted
    obtain ⟨⟨⟨hverified, hpolicy⟩, hclean⟩, hsucceeded⟩ := hadmitted
    rw [if_pos rfl]
    by_cases hwritten : b.receiptDisk (ExtensionGovernor.receiptOf H b r).receiptId = true
    · exact iff_of_true ⟨_, congrArg Prod.fst (if_pos hwritten), rfl⟩
        ⟨hverified, hpolicy, hclean, hsucceeded, hwritten⟩
    · refine iff_of_false ?_ fun hall => hwritten hall.2.2.2.2
      rintro ⟨result, hok, -⟩
      cases (congrArg Prod.fst (if_neg hwritten)).symm.trans hok
  | false =>
    rw [if_neg Bool.false_ne_true]
    refine iff_of_false ?_ fun hall => ?_
    · rintro ⟨result, hok, hresult⟩
      rw [← Except.ok.inj hok] at hresult
      exact Bool.false_ne_true hresult
    · simp [hall.1, hall.2.1, hall.2.2.1, hall.2.2.2.1] at hadmitted

theorem tryOut_admits_iff (report : InspectionReport)
    (hclean : .rejected ∉ report.classifications) :
    Admits (governor.tryOut T H b report opens ledger).1 ↔
      (∀ k < 4, (b.execute k).succeeded = true) ∧
        ((List.range 3).map fun k => (b.execute k).outputHash).dedup.length = 1 ∧
        ((b.execute 3).output ≠ [] → Canonical (b.execute 3).output) ∧
        (governor.policy.evaluate H b.manifest).passed = true ∧
        b.receiptDisk (ExtensionGovernor.receiptOf H b (b.execute 3)).receiptId = true := by
  rw [ExtensionGovernor.tryOut]
  dsimp only
  rw [← and_assoc, ← tested_iff]
  by_cases htested : (verifyDeterminism b.execute 0 3 []).1 = true ∧
    (b.execute (verifyDeterminism b.execute 0 3 []).2).succeeded = true
  · rw [and_iff_right htested, next_of_verified htested.1]
    obtain ⟨hverified, hsucceeded⟩ := htested
    rw [next_of_verified hverified] at hsucceeded
    have hconclude : ∀ normalized, Admits (governor.conclude H b report
        (verifyDeterminism b.execute 0 3 []).1 (b.execute 3) normalized opens ledger).1 ↔
          (governor.policy.evaluate H b.manifest).passed = true ∧
          b.receiptDisk (ExtensionGovernor.receiptOf H b (b.execute 3)).receiptId = true := by
      intro normalized
      rw [conclude_admits_iff, and_iff_right hverified, and_iff_right hclean,
        and_iff_right hsucceeded]
    by_cases houtput : (b.execute 3).output = []
    · simp only [houtput, ne_eq, not_true_eq_false, decide_false, Bool.and_false,
        Bool.false_eq_true, if_false, hconclude, false_imp_iff, true_and]
    · simp only [hsucceeded, houtput, ne_eq, not_false_eq_true, decide_true, Bool.and_self,
        if_true, true_imp_iff]
      rcases normalize_cases T b.now b.manifest (b.execute 3).output with
        ⟨hcanonical, normalized, name, hok, htype, hname⟩ |
        ⟨hcanonical, herror | ⟨normalized, hok, htype⟩⟩
      · rw [hok, and_iff_right hcanonical]
        dsimp only
        split
        · next heq =>
          rw [htype, Option.some.injEq, Plain.str.injEq] at heq
          rw [heq] at hname
          exact absurd hname (by decide)
        · exact hconclude _
      · rw [herror]
        exact iff_of_false not_admits_error fun hall => hcanonical hall.1
      · rw [hok]
        dsimp only
        rw [htype]
        exact iff_of_false not_admits_rejection fun hall => hcanonical hall.1
  · refine iff_of_false ?_ fun hall => htested hall.1
    have hconclude : ∀ normalized, ¬ Admits (governor.conclude H b report
        (verifyDeterminism b.execute 0 3 []).1
        (b.execute (verifyDeterminism b.execute 0 3 []).2) normalized opens ledger).1 := by
      intro normalized hadmits
      obtain ⟨hverified, -, -, hsucceeded, -⟩ := (conclude_admits_iff ..).mp hadmits
      exact htested ⟨hverified, hsucceeded⟩
    split_ifs
    · split
      · exact not_admits_error
      · split
        · exact not_admits_rejection
        · exact hconclude _
    · exact hconclude _

/-- The governor admits exactly the bundles that every gate lets pass. -/
theorem admitted_iff :
    Admits (governor.processBundle T H b opens ledger).1 ↔ governor.Admissible H b := by
  rw [ExtensionGovernor.processBundle]
  dsimp only
  cases hfound : governor.scans.find? fun scan => 71 ≤ (scan.2 b.entrypointSource).1 with
  | some scan =>
    have hflagged : 71 ≤ (scan.2 b.entrypointSource).1 := by simpa using List.find?_some hfound
    refine iff_of_false not_admits_rejection fun hadmissible => ?_
    have hlow := hadmissible.unflagged scan (List.mem_of_find?_eq_some hfound)
    exact absurd hflagged (not_le.mpr hlow)
  | none =>
    have hunflagged : ∀ scan ∈ governor.scans, (scan.2 b.entrypointSource).1 < 71 := by
      intro scan hscan
      simpa using List.find?_eq_none.mp hfound scan hscan
    dsimp only
    cases hinspected : governor.inspect b.entrypointSource with
    | raised typeName =>
      refine iff_of_false not_admits_error fun hadmissible => ?_
      obtain ⟨classifications, hclassified, -⟩ := hadmissible.inspected
      rw [hinspected] at hclassified
      cases hclassified
    | syntaxError =>
      refine iff_of_false not_admits_rejection fun hadmissible => ?_
      obtain ⟨classifications, hclassified, -⟩ := hadmissible.inspected
      rw [hinspected] at hclassified
      cases hclassified
    | classified classifications =>
      dsimp only
      by_cases hrejected : .rejected ∈ classifications
      · rw [if_pos hrejected]
        refine iff_of_false not_admits_rejection fun hadmissible => ?_
        obtain ⟨classifications', hclassified, hclean⟩ := hadmissible.inspected
        rw [hinspected] at hclassified
        obtain rfl := Inspection.classified.inj hclassified
        exact hclean hrejected
      · rw [if_neg hrejected]
        rw [tryOut_admits_iff _ _ _ _ _ _ _ hrejected]
        constructor
        · rintro ⟨hexecuted, hrepeated, hcanonical, hpolicy, hwritten⟩
          exact ⟨hunflagged, ⟨classifications, hinspected, hrejected⟩, hexecuted, hrepeated,
            hcanonical, hpolicy, hwritten⟩
        · intro h
          exact ⟨h.executed, h.repeated, h.canonical, h.policy, h.written⟩

end Admission

end PiPlatform.Extensions
