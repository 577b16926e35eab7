import PiPlatform.Extensions.Governor

/-! What the extension policy promises, and what its rules enforce.

A rule that allows never refuses, and the one on capability classes is such a rule; on the size
of outputs there is no rule; and a requirement that is dropped becomes the requirement not to
make the claim. `passed_iff` says what is enforced, `lawful_iff` when that is enough: for what
the other rules let through the class and the size have to be right, and a policy that permits
at least as much has to make the same two requirements. -/
namespace PiPlatform.Extensions

open EventFabric
open Interoperability (CapabilityClass TrustZone)

/-- The manifest with its bound on outputs, which no rule reads. -/
structure SizedManifest extends toGoverned : ExtensionManifest where
  resourceOutputSizeMax : Int

/-- The policy with its bound on outputs, of which no rule is built. -/
structure SizedPolicy extends ExtensionGovernancePolicy where
  maxOutputSize : Int

def SizedPolicy.evaluate (policy : SizedPolicy) (H : Digest) (m : SizedManifest) :
    PolicyEvaluation :=
  policy.toExtensionGovernancePolicy.evaluate H m.toGoverned

/-- The four accesses that are banned. -/
def bannedAccesses : List Flag :=
  [.networkAccess, .filesystemAccess, .subprocessAccess, .dynamicEvalAccess]

/-! ### What is promised -/

/-- What holds of a manifest that the policy should pass. -/
structure Observes (policy : SizedPolicy) (m : SizedManifest) : Prop where
  capabilityClass : m.capabilityClass ∈ policy.approvedCapabilityClasses
  cpu : m.resource .cpuMsMax ≤ policy.maxCpuMs
  memory : m.resource .memoryMbMax ≤ policy.maxMemoryMb
  outputSize : m.resourceOutputSizeMax ≤ policy.maxOutputSize
  trustZone : m.trustZone ∈ policy.allowedTrustZones
  accesses : ∀ access ∈ bannedAccesses, m.flag access = false
  replaySafe : policy.requireReplaySafe = true → m.flag .replayabilityClaim = true
  deterministic : policy.requireDeterministic = true → m.flag .deterministicClaim = true

/-- Larger sets and limits, and requirements dropped. -/
structure Permits (p q : SizedPolicy) : Prop where
  capabilityClasses : p.approvedCapabilityClasses ⊆ q.approvedCapabilityClasses
  cpu : p.maxCpuMs ≤ q.maxCpuMs
  memory : p.maxMemoryMb ≤ q.maxMemoryMb
  outputSize : p.maxOutputSize ≤ q.maxOutputSize
  trustZones : p.allowedTrustZones ⊆ q.allowedTrustZones
  replaySafe : q.requireReplaySafe = true → p.requireReplaySafe = true
  deterministic : q.requireDeterministic = true → p.requireDeterministic = true

/-- Soundness of the one policy, and monotonicity towards the other. -/
structure Lawful (H : Digest) (p q : SizedPolicy) (m : SizedManifest) : Prop where
  sound : (p.evaluate H m).passed = true → Observes p m
  monotone : Permits p q → (p.evaluate H m).passed = true → (q.evaluate H m).passed = true

/-! ### What is enforced -/

/-- The field has a value that the condition accepts. -/
def Condition.Holds (m : ExtensionManifest) : Condition → Prop
  | .capabilityClass allowed => m.capabilityClass ∈ allowed
  | .required value field => m.flag field = value
  | .maxResource max field => m.resource field ≤ max
  | .trustZone allowed => m.trustZone ∈ allowed
  | .banned value field => value = true → m.flag field = false

/-- A requirement is met by the claim that equals it. -/
structure Met (policy : ExtensionGovernancePolicy) (m : ExtensionManifest) : Prop where
  cpu : m.resource .cpuMsMax ≤ policy.maxCpuMs
  memory : m.resource .memoryMbMax ≤ policy.maxMemoryMb
  trustZone : m.trustZone ∈ policy.allowedTrustZones
  accesses : ∀ access ∈ bannedAccesses, m.flag access = false
  replaySafe : m.flag .replayabilityClaim = policy.requireReplaySafe
  deterministic : m.flag .deterministicClaim = policy.requireDeterministic

/-- The class and the size are right. -/
structure Classed (policy : SizedPolicy) (m : SizedManifest) : Prop where
  capabilityClass : m.capabilityClass ∈ policy.approvedCapabilityClasses
  outputSize : m.resourceOutputSizeMax ≤ policy.maxOutputSize

/-- The two ask for the same flags. -/
structure SameRequirements (p q : SizedPolicy) : Prop where
  replaySafe : q.requireReplaySafe = p.requireReplaySafe
  deterministic : q.requireDeterministic = p.requireDeterministic

section Evaluation
variable {H : Digest} {policy : ExtensionGovernancePolicy} {m : ExtensionManifest}

theorem capabilityClass_value_injective : Function.Injective CapabilityClass.value := by
  intro c d h
  cases c <;> cases d <;> first | rfl | exact absurd h (by decide)

theorem trustZone_value_injective : Function.Injective TrustZone.value := by
  intro z w h
  cases z <;> cases w <;> first | rfl | exact absurd h (by decide)

/-- The verdict on a rule is whether its condition holds. -/
theorem evaluateRule_passed (rule : PolicyRule) :
    (evaluateRule m rule).passed = true ↔ rule.condition.Holds m := by
  obtain ⟨ruleId, condition, action, severity⟩ := rule
  cases condition with
  | capabilityClass allowed =>
    simp only [evaluateRule, Condition.Holds, decide_eq_true_eq]
    exact List.mem_map_of_injective capabilityClass_value_injective
  | required value field | maxResource max field => simp [evaluateRule, Condition.Holds]
  | trustZone allowed =>
    simp only [evaluateRule, Condition.Holds, decide_eq_true_eq]
    exact List.mem_map_of_injective trustZone_value_injective
  | banned value field => cases value <;> simp [evaluateRule, Condition.Holds]

theorem evaluateRule_rule (rule : PolicyRule) : (evaluateRule m rule).rule = rule := by
  obtain ⟨ruleId, condition, action, severity⟩ := rule
  cases condition <;> rfl

/-- Only the rules that deny count. -/
theorem evaluate_passed : (policy.evaluate H m).passed = true ↔
    ∀ rule ∈ policy.rules, rule.action = .deny → rule.condition.Holds m := by
  rw [ExtensionGovernancePolicy.evaluate, List.all_map, List.all_eq_true]
  refine forall₂_congr fun rule _ => ?_
  rw [← evaluateRule_passed rule, Function.comp_apply, evaluateRule_rule]
  simp [imp_iff_not_or]

theorem passed_iff : (policy.evaluate H m).passed = true ↔ Met policy m := by
  have hrules : (policy.evaluate H m).passed = true ↔
      m.resource .cpuMsMax ≤ policy.maxCpuMs ∧ m.resource .memoryMbMax ≤ policy.maxMemoryMb ∧
        m.flag .replayabilityClaim = policy.requireReplaySafe ∧
        m.flag .deterministicClaim = policy.requireDeterministic ∧
        m.trustZone ∈ policy.allowedTrustZones ∧
        ∀ access ∈ bannedAccesses, m.flag access = false := by
    rw [evaluate_passed]
    simp [ExtensionGovernancePolicy.rules, Condition.Holds, bannedAccesses]
  rw [hrules]
  constructor
  · rintro ⟨hcpu, hmemory, hreplay, hdeterministic, hzone, haccesses⟩
    exact ⟨hcpu, hmemory, hzone, haccesses, hreplay, hdeterministic⟩
  · intro h
    exact ⟨h.cpu, h.memory, h.replaySafe, h.deterministic, h.trustZone, h.accesses⟩

end Evaluation

/-! ### When the promise is kept -/

section Laws
variable {H : Digest} {p q : SizedPolicy} {m : SizedManifest}

theorem sized_passed_iff : (p.evaluate H m).passed = true ↔
    Met p.toExtensionGovernancePolicy m.toGoverned := passed_iff

theorem observes_iff (h : Met p.toExtensionGovernancePolicy m.toGoverned) :
    Observes p m ↔ Classed p m := by
  constructor
  · exact fun ho => ⟨ho.capabilityClass, ho.outputSize⟩
  · exact fun hc => ⟨hc.capabilityClass, h.cpu, h.memory, hc.outputSize, h.trustZone, h.accesses,
      fun hrequired => h.replaySafe.trans hrequired,
      fun hrequired => h.deterministic.trans hrequired⟩

/-- The claims equal one requirement, so they equal the other only if both are the same. -/
theorem met_iff_of_permits (h : Met p.toExtensionGovernancePolicy m.toGoverned)
    (hpermits : Permits p q) :
    Met q.toExtensionGovernancePolicy m.toGoverned ↔ SameRequirements p q := by
  constructor
  · intro hq
    exact ⟨hq.replaySafe.symm.trans h.replaySafe, hq.deterministic.symm.trans h.deterministic⟩
  · intro hsame
    exact ⟨h.cpu.trans hpermits.cpu, h.memory.trans hpermits.memory,
      hpermits.trustZones h.trustZone, h.accesses, h.replaySafe.trans hsame.replaySafe.symm,
      h.deterministic.trans hsame.deterministic.symm⟩

end Laws

/-- The promise is kept exactly where what the rules let through has an approved class and an
output size within the bound, and the policy that permits more has the same requirements. -/
theorem lawful_iff (H : Digest) (p q : SizedPolicy) (m : SizedManifest) :
    Lawful H p q m ↔ (Met p.toExtensionGovernancePolicy m.toGoverned →
      Classed p m ∧ (Permits p q → SameRequirements p q)) := by
  constructor
  · intro h hmet
    refine ⟨(observes_iff hmet).mp (h.sound (sized_passed_iff.mpr hmet)), fun hpermits => ?_⟩
    have hq := h.monotone hpermits (sized_passed_iff.mpr hmet)
    exact (met_iff_of_permits hmet hpermits).mp (sized_passed_iff.mp hq)
  · intro h
    refine ⟨fun hpassed => ?_, fun hpermits hpassed => ?_⟩
    · have hmet := sized_passed_iff.mp hpassed
      exact (observes_iff hmet).mpr (h hmet).1
    · have hmet := sized_passed_iff.mp hpassed
      exact sized_passed_iff.mpr ((met_iff_of_permits hmet hpermits).mpr ((h hmet).2 hpermits))

/-- The default policy, with one class approved. -/
def visualOnly (requireReplaySafe : Bool) : SizedPolicy where
  toExtensionGovernancePolicy := .new [.visualization] 5000 512 requireReplaySafe true []
  maxOutputSize := 10485760

/-- A governed extension that makes both claims. -/
def claimant (capabilityClass : CapabilityClass) (outputSize : Int) : SizedManifest where
  extensionId := "charts"
  packageName := "charts"
  packageVersion := "1.0"
  packageHash := ""
  capabilityClass := capabilityClass
  trustZone := .governedExtension
  status := .pendingInspection
  declaredOutputs := []
  flag := fun field => field = .replayabilityClaim || field = .deterministicClaim
  resource := fun _ => 128
  resourceOutputSizeMax := outputSize

/-- A class that is not approved passes, and so does a larger output; and without the requirement
the claim is refused. -/
theorem not_lawful_visualOnly :
    ¬ Lawful prefixDigest (visualOnly true) (visualOnly true) (claimant .staticAnalyzer 1048576) ∧
      ¬ Lawful prefixDigest (visualOnly true) (visualOnly true)
        (claimant .visualization 1073741824) ∧
      ¬ Lawful prefixDigest (visualOnly true) (visualOnly false)
        (claimant .visualization 1048576) := by
  have hmet (c : CapabilityClass) (size : Int) :
      ((visualOnly true).evaluate prefixDigest (claimant c size)).passed = true :=
    sized_passed_iff.mpr
      { cpu := show (128 : Int) ≤ 5000 by decide
        memory := show (128 : Int) ≤ 512 by decide
        trustZone := show TrustZone.governedExtension ∈ [.coreTrusted, .governedExtension] by decide
        accesses := show ∀ access ∈ bannedAccesses,
          (decide (access = .replayabilityClaim) || decide (access = .deterministicClaim)) = false
          by decide
        replaySafe := rfl
        deterministic := rfl }
  refine ⟨fun h => ?_, fun h => ?_, fun h => ?_⟩
  · exact absurd (h.sound (hmet _ _)).capabilityClass (by decide)
  · exact absurd (h.sound (hmet _ _)).outputSize (by decide)
  · have hpermits : Permits (visualOnly true) (visualOnly false) :=
      ⟨fun _ => id, le_rfl, le_rfl, le_rfl, fun _ => id, nofun, id⟩
    have hpassed := sized_passed_iff.mp (h.monotone hpermits (hmet _ _))
    exact absurd hpassed.replaySafe (by decide)

end PiPlatform.Extensions
