import PiPlatform.Interoperability.CapabilityRegistry

/-! Ingestion, and what a rejection leaves behind.

A bundle that the governor admits is registered first and checked against the graph then; when
the check fails its entry is revoked. What was registered under the id before is not put back.
So a rejection changes nothing exactly when the governor refuses the bundle, or its id has no
active entry (`rejection_unchanged_iff`). -/
namespace PiPlatform.Interoperability.Ingestion

open Library
open Compatibility (ExtensionCompatibilityGraph CompatibilityCheck CompatibilityEdge Lower)
open Capability

inductive IngestionPhase where
  | inspect | determinism | normalize | policy | register | compatibility | admission
  deriving DecidableEq

def IngestionPhase.value : IngestionPhase → String
  | inspect => "inspect"
  | determinism => "determinism"
  | normalize => "normalize"
  | policy => "policy"
  | register => "register"
  | compatibility => "compatibility"
  | admission => "admit"

structure IngestionStep where
  phase : IngestionPhase
  passed : Bool
  evidence : String
  deriving DecidableEq

inductive Verdict where
  | admitted | rejected
  deriving DecidableEq

def Verdict.value : Verdict → String
  | admitted => "ADMITTED"
  | rejected => "REJECTED"

structure IngestionReceipt where
  bundleId : String
  steps : List IngestionStep
  finalVerdict : Verdict
  entryId : Option String
  compatibilityChecks : List CompatibilityCheck
  receiptHash : String
  previousReceiptHash : String
  deriving DecidableEq

def IngestionReceipt.computeHash (sha256 : Sha256) (r : IngestionReceipt) : String :=
  sha256 (r.bundleId ++ ":" ++
    String.join (r.steps.map fun s => s.phase.value ++ if s.passed then "1" else "0") ++ ":" ++
    r.finalVerdict.value ++ ":" ++ r.previousReceiptHash)

/-- What ingestion reads of an `ExtensionAdmissionResult`, objects by their texts. A
normalization result is a dictionary, and the text of the empty one is `{}`. -/
structure GovernorResult where
  admitted : Bool
  reason : String
  determinismVerified : Bool
  normalizationResult : Option String
  policyEvaluation : Option String
  provenanceReceiptId : Option String

namespace GovernorResult

/-- The normalization result, if it is true. -/
def normalized? (g : GovernorResult) : Option String :=
  g.normalizationResult.filter fun text => text ≠ "{}"

def receiptId? (g : GovernorResult) : Option String :=
  g.provenanceReceiptId.filter fun id => id ≠ ""

end GovernorResult

/-- A call of `ingest`: the bundle, what the governor makes of it, and what is outside. -/
structure IngestCall where
  manifest : ExtensionManifest
  declaredOutputs : List String
  manifestHash : String
  manifestSnapshot : String
  entrypointSource : String
  governorResult : GovernorResult
  now : String
  disk : Disk

structure State where
  registry : SemanticCapabilityRegistry
  graph : ExtensionCompatibilityGraph
  receipts : List IngestionReceipt

inductive IngestionFault where
  | registry (fault : Fault)
  /-- `AttributeError`, from `check_install` -/
  | noCapability

/-- An entry as `check_install` reads it. -/
def checked (e : RegistryEntry) : Compatibility.RegistryEntry where
  extensionId := e.extensionId
  name := e.name
  version := e.version
  capabilityClass := e.capabilityClass
  trustZone := e.trustZone

namespace IngestCall
variable (lower : Lower) (sha256 : Sha256)

/-- The steps of the first phase. -/
def governorSteps (i : IngestCall) : List IngestionStep :=
  let g := i.governorResult
  [⟨.inspect, g.admitted || !decide ("inspection rejected".toList <:+: (lower g.reason).toList),
      g.reason⟩,
    ⟨.determinism, g.determinismVerified,
      if g.determinismVerified then "determinism verified"
      else "determinism check failed or skipped"⟩,
    ⟨.normalize, g.normalizationResult.isSome,
      if g.normalized?.isSome then "normalized" else "normalization failed or skipped"⟩,
    ⟨.policy, g.policyEvaluation.isSome,
      if g.policyEvaluation.isSome then "policy evaluated" else "policy rejected or skipped"⟩]

def fingerprints (i : IngestCall) : RegistryFingerprints where
  manifestHash := i.manifestHash
  sourceHash := sha256 i.entrypointSource
  determinismFingerprint :=
    sha256 (if i.governorResult.determinismVerified then "deterministic" else "non_deterministic")
  policyHash := i.governorResult.policyEvaluation.elim "" sha256
  normalizationHash := i.governorResult.normalized?.elim "" sha256
  provenanceChainHash := i.governorResult.receiptId?.elim "" sha256

def trustScore (i : IngestCall) : TrustScore :=
  let verified : Int := if i.governorResult.determinismVerified then 25 else 0
  ((TrustScore.none.withEvidence .policyEvidence 25).withEvidence .determinismProof
    verified).withEvidence .staticAnalysis 25

/-- `_build_receipt` -/
def buildReceipt (i : IngestCall) (receipts : List IngestionReceipt) (steps : List IngestionStep)
    (finalVerdict : Verdict) (entryId : Option String) (checks : List CompatibilityCheck) :
    IngestionReceipt :=
  let receipt : IngestionReceipt :=
    { bundleId := i.manifest.extensionId
      steps := steps
      finalVerdict := finalVerdict
      entryId := entryId
      compatibilityChecks := checks
      receiptHash := ""
      previousReceiptHash := receipts.getLast?.elim "" IngestionReceipt.receiptHash }
  { receipt with receiptHash := receipt.computeHash sha256 }

/-- The registration of the bundle. -/
def register (i : IngestCall) (registry : SemanticCapabilityRegistry) :
    Except Fault RegistryEntry × SemanticCapabilityRegistry :=
  registry.register sha256 i.disk i.now i.manifestSnapshot i.manifest (i.fingerprints sha256)
    i.trustScore .active
    ((registry.lookup i.manifest.extensionId).elim "" RegistryEntry.entryHash)

/-- The extension is installed, with its outputs as capabilities. -/
def install (i : IngestCall) (graph : ExtensionCompatibilityGraph) : ExtensionCompatibilityGraph :=
  i.declaredOutputs.foldl
    (fun g output => g.declareEdge lower
      ⟨i.manifest.extensionId, output, .providesCapability, output⟩)
    (graph.registerInstalled i.manifest.extensionId)

/-- The receipt, and the state afterwards. -/
def ingest (i : IngestCall) (s : State) : Except IngestionFault IngestionReceipt × State :=
  let steps := i.governorSteps lower
  if i.governorResult.admitted = false then
    let receipt := i.buildReceipt sha256 s.receipts steps .rejected none []
    (.ok receipt, { s with receipts := s.receipts ++ [receipt] })
  else
    match i.register sha256 s.registry with
    | (.error fault, registry) => (.error (.registry fault), { s with registry := registry })
    | (.ok entry, registry) =>
      let steps := steps ++ [⟨.register, true, entry.entryHash⟩]
      match s.graph.checkInstall lower i.manifest.extensionId i.manifest
          fun id => (registry.lookup id).map checked with
      | none => (.error .noCapability, { s with registry := registry })
      | some checks =>
        let passed := checks.all fun c => c.verdict = .compatible
        let steps := steps ++ [⟨.compatibility, passed, toString checks.length ++ " checks"⟩]
        if passed then
          let receipt := i.buildReceipt sha256 s.receipts steps .admitted entry.extensionId checks
          (.ok receipt,
            { registry := registry
              graph := i.install lower s.graph
              receipts := s.receipts ++ [receipt] })
        else
          -- Called a rollback, but the entry that was replaced is gone.
          match registry.updateStatus sha256 i.disk i.manifest.extensionId .revoked none with
          | (.error fault, registry) => (.error (.registry fault), { s with registry := registry })
          | (.ok _, registry) =>
            let receipt :=
              i.buildReceipt sha256 s.receipts steps .rejected entry.extensionId checks
            (.ok receipt,
              { s with registry := registry, receipts := s.receipts ++ [receipt] })

end IngestCall

variable (lower : Lower) (sha256 : Sha256)

def ingestions (graph : ExtensionCompatibilityGraph) : System State IngestCall where
  initial := ⟨.empty, graph, []⟩
  step s i := (i.ingest lower sha256 s).2

/-- The extension has an active entry. -/
def Active (s : State) (extensionId : String) : Prop :=
  ∃ entry, s.registry.lookup extensionId = some entry ∧ entry.status = .active

/-- For the extensions that were active, lookups and queries answer as before, and the graph is
the same. -/
structure Unchanged (listing : List String → List String) (s s' : State) : Prop where
  lookup : ∀ id, Active s id → s'.registry.lookup id = s.registry.lookup id
  query : ∀ q, ∃ entries entries', s.registry.query listing q = some entries ∧
    s'.registry.query listing q = some entries' ∧
    ∀ id, Active s id → ∀ e, e.extensionId = id → (e ∈ entries ↔ e ∈ entries')
  graph : s'.graph = s.graph

section Steps
variable {lower} {sha256} {s s' : State} {i : IngestCall} {listing : List String → List String}
  {outcome : Except Fault RegistryEntry} {registry registry' : SemanticCapabilityRegistry}

/-- The id of a registration has the new entry then, and the others what they had. -/
theorem lookup_register (h : i.register sha256 registry = (outcome, registry')) :
    ∃ entry, outcome = saveEntry i.disk entry ∧ entry.extensionId = i.manifest.extensionId ∧
      entry.status = .active ∧ entry.trustZone = i.manifest.trustZone ∧ ∀ id, registry'.lookup id =
        if i.manifest.extensionId = id then some entry else registry.lookup id := by
  obtain ⟨rfl, rfl⟩ := Prod.ext_iff.mp h
  exact ⟨_, rfl, rfl, rfl, rfl, fun id => Dict.get?_set ..⟩

theorem lookup_updateStatus
    (hindexed : Indexed registry) {disk : Disk} {extensionId : String} {old : RegistryEntry}
    (hold : registry.lookup extensionId = some old) {newStatus : RegistryEntryStatus}
    (h : registry.updateStatus sha256 disk extensionId newStatus none = (outcome, registry')) :
    ∃ entry, entry.status = newStatus ∧ entry.trustZone = old.trustZone ∧
      ∀ id, registry'.lookup id =
        if extensionId = id then some entry else registry.lookup id := by
  obtain ⟨ids, -, heq⟩ := updateStatus_eq hindexed hold disk newStatus none
  rw [heq] at h
  obtain ⟨-, rfl⟩ := Prod.ext_iff.mp h
  exact ⟨old.updated sha256 newStatus none, rfl, rfl, fun id => Dict.get?_set ..⟩

theorem indexed_register (h : Indexed s.registry)
    {registry : SemanticCapabilityRegistry} (hregister : i.register sha256 s.registry =
      (outcome, registry)) : Indexed registry := by
  obtain ⟨-, rfl⟩ := Prod.ext_iff.mp hregister
  exact h.register ..

/-- What ingestion does to the registry and, where it rejects, to the graph. -/
theorem ingest_cases (h : Indexed s.registry) :
    Indexed (i.ingest lower sha256 s).2.registry ∧
    ∀ receipt, (i.ingest lower sha256 s).1 = .ok receipt → receipt.finalVerdict = .rejected →
      (i.ingest lower sha256 s).2.graph = s.graph ∧
      if i.governorResult.admitted = false then (i.ingest lower sha256 s).2.registry = s.registry
      else ∃ entry, entry.status = .revoked ∧ ∀ id,
        (i.ingest lower sha256 s).2.registry.lookup id =
          if i.manifest.extensionId = id then some entry else s.registry.lookup id := by
  by_cases hadmitted : i.governorResult.admitted = false
  · simp [IngestCall.ingest, hadmitted, h]
  simp only [IngestCall.ingest, if_neg hadmitted]
  rcases hregister : i.register sha256 s.registry with ⟨_ | entry, registry⟩
  · exact ⟨indexed_register h hregister, fun _ hok => by cases hok⟩
  have hregistry := indexed_register h hregister
  dsimp only
  rcases s.graph.checkInstall lower i.manifest.extensionId i.manifest
    (fun id => (registry.lookup id).map checked) with _ | checks
  · exact ⟨hregistry, fun _ hok => by cases hok⟩
  dsimp only
  by_cases hpassed : (checks.all fun c => decide (c.verdict = .compatible)) = true
  · simp only [if_pos hpassed]
    refine ⟨hregistry, fun receipt hok hverdict => ?_⟩
    obtain rfl := Except.ok.inj hok
    cases hverdict
  simp only [if_neg hpassed]
  obtain ⟨registered, -, -, -, -, hlookup⟩ := lookup_register hregister
  have hold : registry.lookup i.manifest.extensionId = some registered := by
    rw [hlookup, if_pos rfl]
  have hupdated : Indexed (registry.updateStatus sha256 i.disk i.manifest.extensionId .revoked
      none).2 := hregistry.updateStatus hold i.disk .revoked none
  rcases hupdate : registry.updateStatus sha256 i.disk i.manifest.extensionId .revoked none with
    ⟨_ | revoked, registry'⟩
  · rw [hupdate] at hupdated
    exact ⟨hupdated, fun _ hok => by cases hok⟩
  · rw [hupdate] at hupdated
    obtain ⟨entry, hrevoked, -, hlookup'⟩ := lookup_updateStatus hregistry hold hupdate
    refine ⟨hupdated, fun _ _ _ => ⟨rfl, entry, hrevoked, fun id => ?_⟩⟩
    rw [hlookup', hlookup]
    split <;> rfl

/-- Where the active extensions keep their entries, and the graph stays. -/
theorem unchanged_of_lookup (h : Indexed s.registry) (h' : Indexed s'.registry)
    (hlisting : ∀ ids, (listing ids).Perm ids) (hgraph : s'.graph = s.graph)
    (hlookup : ∀ id, Active s id → s'.registry.lookup id = s.registry.lookup id) :
    Unchanged listing s s' where
  lookup := hlookup
  query q := by
    obtain ⟨entries, hentries, hperm, -⟩ := query_scan (q := q) h hlisting
    obtain ⟨entries', hentries', hperm', -⟩ := query_scan (q := q) h' hlisting
    refine ⟨entries, entries', hentries, hentries', ?_⟩
    rintro id hactive e rfl
    rw [hperm.mem_iff, hperm'.mem_iff, mem_scan h, mem_scan h']
    refine and_congr_left fun _ => ?_
    rw [← SemanticCapabilityRegistry.lookup, ← SemanticCapabilityRegistry.lookup,
      hlookup _ hactive]
  graph := hgraph

end Steps

/-- Wherever ingestions have led to, a further one that is rejected changes nothing exactly when
the governor refuses the bundle, or there is no active entry under its id. -/
theorem rejection_unchanged_iff (listing : List String → List String)
    (hlisting : ∀ ids, (listing ids).Perm ids) (graph : ExtensionCompatibilityGraph)
    (acts : List IngestCall) (i : IngestCall) (receipt : IngestionReceipt)
    (hok : (i.ingest lower sha256 ((ingestions lower sha256 graph).after acts)).1 = .ok receipt)
    (hverdict : receipt.finalVerdict = .rejected) :
    Unchanged listing ((ingestions lower sha256 graph).after acts)
        (i.ingest lower sha256 ((ingestions lower sha256 graph).after acts)).2 ↔
      i.governorResult.admitted = false ∨
        ¬ Active ((ingestions lower sha256 graph).after acts) i.manifest.extensionId := by
  have hindexed : Indexed ((ingestions lower sha256 graph).after acts).registry :=
    (ingestions lower sha256 graph).invariant (fun s => Indexed s.registry) .empty
      (fun s i h => (ingest_cases h).1) acts
  generalize (ingestions lower sha256 graph).after acts = s at *
  obtain ⟨hindexed', hrejected⟩ : Indexed (i.ingest lower sha256 s).2.registry ∧ _ :=
    ingest_cases hindexed
  obtain ⟨hgraph, hcases⟩ := hrejected receipt hok hverdict
  constructor
  · refine fun hunchanged => or_iff_not_imp_left.mpr fun hadmitted hactive => ?_
    rw [if_neg hadmitted] at hcases
    obtain ⟨entry, hrevoked, hlookup⟩ := hcases
    have hkept := hunchanged.lookup _ hactive
    obtain ⟨old, hold, hstatus⟩ := hactive
    rw [hlookup, if_pos rfl, hold] at hkept
    rw [← Option.some.inj hkept, hrevoked] at hstatus
    cases hstatus
  · intro hcondition
    refine unchanged_of_lookup hindexed hindexed' hlisting hgraph fun id hactive => ?_
    split at hcases
    · rw [hcases]
    · next hadmitted =>
      obtain ⟨entry, -, hlookup⟩ := hcases
      rw [hlookup, if_neg]
      rintro rfl
      exact hcondition.elim hadmitted fun hinactive => hinactive hactive

/-! ### An extension that is delivered again -/

/-- What the governor says of a bundle that it admits. -/
def admission : GovernorResult :=
  ⟨true, "Extension admitted to mesh", true, none, some "PolicyEvaluation(passed=True)",
    some "rcpt_charts"⟩

def delivery (version : String) (governorResult : GovernorResult) : IngestCall where
  manifest := { Compatibility.extension "charts" .governedExtension with packageVersion := version }
  declaredOutputs := []
  manifestHash := ""
  manifestSnapshot := "{}"
  entrypointSource := "def run(inputs): return {}"
  governorResult := governorResult
  now := "2026-01-01T00:00:00Z"
  disk := fun _ => true

/-- The second delivery of charts is rejected: they are installed. Their entry is the one of the
second delivery, and revoked. -/
theorem second_delivery_revokes :
    (∃ receipt, ((delivery "1.1.0" admission).ingest id id
        ((ingestions id id ⟨.empty, .empty, []⟩).after [delivery "1.0.0" admission])).1 =
          .ok receipt ∧
      receipt.finalVerdict = .rejected) ∧
    ¬ Unchanged id ((ingestions id id ⟨.empty, .empty, []⟩).after [delivery "1.0.0" admission])
      ((delivery "1.1.0" admission).ingest id id
        ((ingestions id id ⟨.empty, .empty, []⟩).after [delivery "1.0.0" admission])).2 := by
  refine ⟨⟨_, rfl, rfl⟩, fun h => ?_⟩
  have hkept := h.lookup "charts" ⟨_, rfl, rfl⟩
  revert hkept
  decide +kernel

theorem rejection_unchanged_iff_refused :
    Unchanged id ((ingestions id id ⟨.empty, .empty, []⟩).after [delivery "1.0.0" admission])
        ((delivery "1.1.0" { admission with admitted := false }).ingest id id
          ((ingestions id id ⟨.empty, .empty, []⟩).after [delivery "1.0.0" admission])).2 :=
  (rejection_unchanged_iff id id id (fun ids => .refl ids) ⟨.empty, .empty, []⟩
    [delivery "1.0.0" admission] (delivery "1.1.0" { admission with admitted := false }) _ rfl
    rfl).mpr (.inl rfl)

end PiPlatform.Interoperability.Ingestion
