import PiPlatform.Extensions.Governor
import PiPlatform.Interoperability.Ingestion

/-! Ingestion behind the governor, and who is core trusted.

The enforcer's decision stays in the governor's result. The registry takes the zone from the
manifest, so the zone of an entry is the one that was requested. `earned_iff`: all along a run
the active core entries come from packages on the list, and no zone is above the assigned one,
exactly when each core request of a package that is not on it is refused, or rolled back. -/
namespace PiPlatform.Interoperability.Ingestion

open Library EventFabric
open Extensions (ExtensionGovernor ExtensionProvenanceLedger ExtensionAdmissionResult Submission
  TrustZoneEnforcer Texts Opens Admits level admitted_iff level_requested_le_iff)
open Compatibility (ExtensionCompatibilityGraph Lower)
open Capability

/-- What ingestion reads of the governor's result. -/
def governorResult (T : Texts) (r : ExtensionAdmissionResult) : GovernorResult where
  admitted := r.admitted
  reason := r.reason
  determinismVerified := r.determinismVerified
  normalizationResult := r.normalizationResult.map T.dict
  policyEvaluation := r.policyEvaluation.map T.evaluation
  provenanceReceiptId := r.provenanceReceiptId

def ingestCall (T : Texts) (b : Submission) (r : ExtensionAdmissionResult) : IngestCall where
  manifest := b.manifest.toExtensionManifest
  declaredOutputs := b.manifest.declaredOutputs
  manifestHash := b.manifestHash
  manifestSnapshot := b.manifestSnapshot
  entrypointSource := b.entrypointSource
  governorResult := governorResult T r
  now := b.now
  disk := b.registryDisk

/-- The governor's ledger, the pipeline's state and, of each id, the submission that was
registered last. -/
structure IngestionHistory where
  ledger : ExtensionProvenanceLedger
  state : State
  origins : Dict String Submission

section Runs
variable (lower : Lower) (T : Texts) (H : Digest) (opens : Opens) (governor : ExtensionGovernor)

/-- A call of `ingest`; what the governor raises goes through. -/
def IngestionHistory.step (h : IngestionHistory) (b : Submission) : IngestionHistory :=
  match governor.processBundle T H b opens h.ledger with
  | (.error _, ledger) => { h with ledger := ledger }
  | (.ok result, ledger) =>
    { ledger := ledger
      state := ((ingestCall T b result).ingest lower H.hex h.state).2
      origins :=
        if result.admitted then h.origins.set b.manifest.extensionId b else h.origins }

def governedIngestions (graph : ExtensionCompatibilityGraph) :
    System IngestionHistory Submission where
  initial := ⟨⟨[], .empty⟩, ⟨.empty, graph, []⟩, .empty⟩
  step := IngestionHistory.step lower T H opens governor

/-- Active entries come from submissions whose package is on the list, if they are core, and to
whom the enforcer assigns no lower zone. -/
def Earned (enforcer : TrustZoneEnforcer) (h : IngestionHistory) : Prop :=
  ∀ id entry, h.state.registry.lookup id = some entry → entry.status = .active →
    ∃ b, h.origins.get? id = some b ∧
      (entry.trustZone = .coreTrusted → b.manifest.packageHash ∈ enforcer.coreTrustedPackages) ∧
      level entry.trustZone ≤ level (enforcer.evaluate b.manifest).assignedZone

/-- A core extension is saved in the registry, and what the graph is asked then speaks against
it. -/
def RolledBack (s : State) (b : Submission) : Prop :=
  b.registryDisk (fileOf b.manifest.extensionId) = true ∧
    ∃ checks, s.graph.checkInstall lower b.manifest.extensionId b.manifest.toExtensionManifest
        (fun _ => none) = some checks ∧ ∃ c ∈ checks, c.verdict ≠ .compatible

/-- A core request is of a package on the list, or comes to nothing. -/
def Deserved (h : IngestionHistory) (b : Submission) : Prop :=
  b.manifest.trustZone = .coreTrusted →
    b.manifest.packageHash ∈ governor.trustEnforcer.coreTrustedPackages ∨
      ¬ governor.Admissible H b ∨ RolledBack lower h.state b

end Runs

/-! ### What a registration leaves -/

section Steps
variable {lower : Lower} {sha256 : Sha256} {s : State} {i : IngestCall}

/-- Of a core extension nothing is looked up. -/
theorem checkInstall_core {g : ExtensionCompatibilityGraph} {extensionId : String}
    {manifest : ExtensionManifest} (hcore : manifest.trustZone = .coreTrusted)
    (lookup lookup' : String → Option Compatibility.RegistryEntry) :
    g.checkInstall lower extensionId manifest lookup =
      g.checkInstall lower extensionId manifest lookup' := by
  have hzones : ∀ lookup, g.checkZones extensionId manifest lookup = [] := by
    intro lookup
    rw [ExtensionCompatibilityGraph.checkZones, hcore, if_neg (by decide)]
  rw [ExtensionCompatibilityGraph.checkInstall, ExtensionCompatibilityGraph.checkInstall, hzones,
    hzones]

theorem ingest_refused (h : i.governorResult.admitted = false) :
    (i.ingest lower sha256 s).2.registry = s.registry := by
  simp only [IngestCall.ingest, if_pos h]

variable (lower sha256) in
/-- What is registered has the zone of its manifest, and is active or rolled back. -/
theorem ingest_admitted (h : Indexed s.registry) (hadmitted : i.governorResult.admitted = true) :
    ∃ entry lookup, entry.trustZone = i.manifest.trustZone ∧
      (entry.status = .active ↔ ¬ (i.disk (fileOf i.manifest.extensionId) = true ∧
        ∃ checks, s.graph.checkInstall lower i.manifest.extensionId i.manifest lookup =
          some checks ∧ ∃ c ∈ checks, c.verdict ≠ .compatible)) ∧
      ∀ id, (i.ingest lower sha256 s).2.registry.lookup id =
        if i.manifest.extensionId = id then some entry else s.registry.lookup id := by
  have hnot : ¬ i.governorResult.admitted = false := by rw [hadmitted]; simp
  simp only [IngestCall.ingest, if_neg hnot]
  rcases hregister : i.register sha256 s.registry with ⟨outcome, registry⟩
  obtain ⟨registered, rfl, hid, hactive, hzone, hlookup⟩ := lookup_register hregister
  have hregistry := indexed_register h hregister
  let lookup := fun id => (registry.lookup id).map checked
  rw [saveEntry, hid]
  by_cases hsaved : i.disk (fileOf i.manifest.extensionId) = true
  swap
  · rw [if_neg hsaved]
    exact ⟨registered, lookup, hzone, iff_of_true hactive fun hback => hsaved hback.1, hlookup⟩
  rw [if_pos hsaved]
  dsimp only
  rcases hchecks : s.graph.checkInstall lower i.manifest.extensionId i.manifest lookup with
    _ | checks
  · refine ⟨registered, lookup, hzone, iff_of_true hactive ?_, hlookup⟩
    rintro ⟨-, checks, hsome, -⟩
    rw [hchecks] at hsome
    cases hsome
  have hpassed_iff : (checks.all fun c => decide (c.verdict = .compatible)) = true ↔
      ¬ ∃ c ∈ checks, c.verdict ≠ .compatible := by
    simp
  have hback_iff : (¬ (i.disk (fileOf i.manifest.extensionId) = true ∧
      ∃ checks, s.graph.checkInstall lower i.manifest.extensionId i.manifest lookup =
        some checks ∧ ∃ c ∈ checks, c.verdict ≠ .compatible)) ↔
      (checks.all fun c => decide (c.verdict = .compatible)) = true := by
    rw [hpassed_iff, and_iff_right hsaved, hchecks]
    simp only [Option.some.injEq, exists_eq_left']
  dsimp only
  by_cases hpassed : (checks.all fun c => decide (c.verdict = .compatible)) = true
  · rw [if_pos hpassed]
    exact ⟨registered, lookup, hzone, iff_of_true hactive (hback_iff.mpr hpassed), hlookup⟩
  · rw [if_neg hpassed]
    have hold : registry.lookup i.manifest.extensionId = some registered := by
      rw [hlookup, if_pos rfl]
    rcases hupdate : registry.updateStatus sha256 i.disk i.manifest.extensionId .revoked none with
      ⟨outcome, registry'⟩
    obtain ⟨entry, hrevoked, hsame, hlookup'⟩ := lookup_updateStatus hregistry hold hupdate
    have hstatus : entry.status = .active ↔ ¬ (i.disk (fileOf i.manifest.extensionId) = true ∧
        ∃ checks, s.graph.checkInstall lower i.manifest.extensionId i.manifest lookup =
          some checks ∧ ∃ c ∈ checks, c.verdict ≠ .compatible) := by
      rw [hback_iff, hrevoked]
      exact iff_of_false (by decide) hpassed
    refine ⟨entry, lookup, hsame.trans hzone, hstatus, fun id => ?_⟩
    have hafter : registry'.lookup id =
        if i.manifest.extensionId = id then some entry else s.registry.lookup id := by
      rw [hlookup', hlookup]
      split <;> rfl
    cases outcome <;> exact hafter

end Steps

/-! ### Runs -/

section Histories
variable {lower : Lower} {T : Texts} {H : Digest} {opens : Opens} {governor : ExtensionGovernor}
  {h : IngestionHistory} {b : Submission}

variable (lower T opens) in
/-- A bundle that is not admissible changes no entry. -/
theorem step_refused (hrefused : ¬ governor.Admissible H b) :
    (h.step lower T H opens governor b).state.registry = h.state.registry ∧
      (h.step lower T H opens governor b).origins = h.origins := by
  have hadmits := (admitted_iff governor T H b opens h.ledger).not.mpr hrefused
  rw [IngestionHistory.step]
  rcases hprocess : governor.processBundle T H b opens h.ledger with ⟨_ | result, ledger⟩
  · exact ⟨rfl, rfl⟩
  · rw [hprocess] at hadmits
    have hresult : result.admitted = false :=
      Bool.eq_false_iff.mpr fun hadmitted => hadmits ⟨result, rfl, hadmitted⟩
    exact ⟨ingest_refused (i := ingestCall T b result) hresult, if_neg (by rw [hresult]; simp)⟩

variable (lower T opens) in
/-- An admissible one is registered with its zone. -/
theorem step_admitted (hindexed : Indexed h.state.registry)
    (hadmissible : governor.Admissible H b) :
    (h.step lower T H opens governor b).origins = h.origins.set b.manifest.extensionId b ∧
      ∃ entry, entry.trustZone = b.manifest.trustZone ∧
        (b.manifest.trustZone = .coreTrusted →
          (entry.status = .active ↔ ¬ RolledBack lower h.state b)) ∧
        ∀ id, (h.step lower T H opens governor b).state.registry.lookup id =
          if b.manifest.extensionId = id then some entry else h.state.registry.lookup id := by
  obtain ⟨result, hok, hadmitted⟩ := (admitted_iff governor T H b opens h.ledger).mpr hadmissible
  rw [IngestionHistory.step]
  rcases hprocess : governor.processBundle T H b opens h.ledger with ⟨outcome, ledger⟩
  rw [hprocess] at hok
  obtain rfl : outcome = .ok result := hok
  obtain ⟨entry, lookup, hzone, hactive, hlookup⟩ :=
    ingest_admitted lower H.hex (i := ingestCall T b result) hindexed hadmitted
  refine ⟨if_pos hadmitted, entry, hzone, fun hcore => hactive.trans (not_congr ?_), hlookup⟩
  rw [RolledBack, checkInstall_core hcore (fun _ => none) lookup]
  rfl

theorem step_indexed (hindexed : Indexed h.state.registry) :
    Indexed (h.step lower T H opens governor b).state.registry := by
  rw [IngestionHistory.step]
  rcases governor.processBundle T H b opens h.ledger with ⟨_ | result, ledger⟩
  · exact hindexed
  · exact (ingest_cases hindexed).1

/-- Every entry has the zone that was requested in the submission it comes from. -/
structure Requested (h : IngestionHistory) : Prop where
  indexed : Indexed h.state.registry
  origin : ∀ id entry, h.state.registry.lookup id = some entry →
    ∃ b, h.origins.get? id = some b ∧ entry.trustZone = b.manifest.trustZone

theorem lookup_initial (graph : ExtensionCompatibilityGraph) (id : String) :
    (governedIngestions lower T H opens governor graph).initial.state.registry.lookup id = none :=
  rfl

theorem requested_initial (graph : ExtensionCompatibilityGraph) :
    Requested (governedIngestions lower T H opens governor graph).initial :=
  ⟨.empty, fun id entry hentry => by rw [lookup_initial] at hentry; cases hentry⟩

theorem Requested.step (hrequested : Requested h) :
    Requested (h.step lower T H opens governor b) := by
  refine ⟨step_indexed hrequested.indexed, fun id entry hentry => ?_⟩
  by_cases hadmissible : governor.Admissible H b
  · obtain ⟨horigins, registered, hzone, -, hlookup⟩ :=
      step_admitted lower T opens hrequested.indexed hadmissible
    rw [hlookup] at hentry
    rw [horigins, Dict.get?_set]
    split_ifs at hentry ⊢ with hid
    · obtain rfl := Option.some.inj hentry
      exact ⟨b, rfl, hzone⟩
    · exact hrequested.origin id entry hentry
  · obtain ⟨hregistry, horigins⟩ :=
      step_refused lower T opens hadmissible
    rw [hregistry] at hentry
    rw [horigins]
    exact hrequested.origin id entry hentry

theorem Earned.step (hrequested : Requested h) (hearned : Earned governor.trustEnforcer h)
    (hdeserved : Deserved lower H governor h b) :
    Earned governor.trustEnforcer (h.step lower T H opens governor b) := by
  intro id entry hentry hactive
  by_cases hadmissible : governor.Admissible H b
  · obtain ⟨horigins, registered, hzone, hstatus, hlookup⟩ :=
      step_admitted lower T opens hrequested.indexed hadmissible
    rw [hlookup] at hentry
    rw [horigins, Dict.get?_set]
    split_ifs at hentry ⊢ with hid
    · obtain rfl := Option.some.inj hentry
      have hlisted : b.manifest.trustZone = .coreTrusted →
          b.manifest.packageHash ∈ governor.trustEnforcer.coreTrustedPackages := by
        intro hcore
        rcases hdeserved hcore with hlisted | hnot | hback
        · exact hlisted
        · exact absurd hadmissible hnot
        · exact absurd hback ((hstatus hcore).mp hactive)
      rw [hzone]
      exact ⟨b, rfl, hlisted, (level_requested_le_iff ..).mpr hlisted⟩
    · exact hearned id entry hentry hactive
  · obtain ⟨hregistry, horigins⟩ :=
      step_refused lower T opens hadmissible
    rw [hregistry] at hentry
    rw [horigins]
    exact hearned id entry hentry hactive

variable (T opens) in
/-- A request that does not deserve the zone gets it. -/
theorem not_earned_step (hrequested : Requested h) (hnot : ¬ Deserved lower H governor h b) :
    ¬ Earned governor.trustEnforcer (h.step lower T H opens governor b) := by
  intro hearned
  simp only [Deserved, Classical.not_imp, not_or, not_not] at hnot
  obtain ⟨hcore, hunlisted, hadmissible, hback⟩ := hnot
  obtain ⟨horigins, entry, hzone, hstatus, hlookup⟩ :=
    step_admitted lower T opens hrequested.indexed hadmissible
  have hentry := hlookup b.manifest.extensionId
  rw [if_pos rfl] at hentry
  obtain ⟨b', horigin, hlisted, -⟩ := hearned _ entry hentry ((hstatus hcore).mpr hback)
  rw [horigins, Dict.get?_set, if_pos rfl] at horigin
  obtain rfl := Option.some.inj horigin
  exact hunlisted (hlisted (hzone.trans hcore))

end Histories

/-- Nothing is found in a source, and no package is on the list. -/
def lenient : ExtensionGovernor where
  policy := .new [] 5000 512 true true []
  trustEnforcer := ⟨[], true⟩
  detectPromptInjection := fun _ => (0, [])
  detectShadowParameters := fun _ => (0, [])
  detectInvisibleGuardrails := fun _ => (0, [])
  detectSurplusViolations := fun _ => (0, [])
  detectSpendAnomalies := fun _ => (0, [])
  inspect := fun _ => .classified [.deterministicSafe]

def plainTexts : Texts := ⟨fun _ => "", fun _ => "{...}", fun _ => "PolicyEvaluation"⟩

/-- Charts that keep every rule, and ask to be core. -/
def coreCharts : Submission where
  manifest :=
    { Compatibility.extension "charts" .coreTrusted with
      packageHash := "deadbeef"
      declaredOutputs := []
      flag := fun field => field = .deterministicClaim || field = .replayabilityClaim
      resource := fun _ => 128 }
  manifestHash := ""
  manifestSnapshot := ""
  entrypointSource := "OUTPUT = \x7b'artifact_type': 'TopologyGraph'\x7d"
  execute := fun _ => ⟨"SUCCESS", [("artifact_type", .str "TopologyGraph")], "f00d", 1⟩
  now := "2026-01-01T00:00:00Z"
  time := ⟨0, Library.Calendar.maxInstant_pos⟩
  receiptDisk := fun _ => true
  registryDisk := fun _ => true

theorem coreCharts_admissible : lenient.Admissible prefixDigest coreCharts where
  unflagged := by simp [ExtensionGovernor.scans, lenient]
  inspected := ⟨_, rfl, by decide⟩
  executed _ _ := rfl
  repeated := by decide
  canonical _ := ⟨"TopologyGraph", by decide, rfl⟩
  policy := by decide +kernel
  written := rfl

end PiPlatform.Interoperability.Ingestion
