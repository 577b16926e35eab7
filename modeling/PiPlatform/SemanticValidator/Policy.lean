import PiPlatform.SemanticValidator.EndpointPatterns

/-! Architecture policies, and what a first match finds in them. -/
namespace PiPlatform.SemanticValidator

open Library.Json (Text)

/-! ### Patterns -/

section Globs
variable (value pattern : Text)

/-- What is left to scan. -/
def Patterns.Scan.left (s : Patterns.Scan) : Nat :=
  (value.length - s.matchIdx) * (pattern.length + value.length + 2) +
    ((value.length - s.vi) + (pattern.length - s.pi))

/-- A turn leaves less to scan. -/
theorem left_turn {s next : Patterns.Scan} (hle : s.matchIdx ≤ s.vi)
    (h : Patterns.turn value pattern s = .inl next) :
    next.left value pattern < s.left value pattern ∧ next.matchIdx ≤ next.vi := by
  rw [Patterns.turn] at h
  split_ifs at h with hvalue hletter hstar
  · cases h
    refine ⟨?_, Nat.le_succ_of_le hle⟩
    simp only [Patterns.Scan.left]
    omega
  · cases h
    refine ⟨?_, Nat.le_refl _⟩
    have hmul := Nat.mul_le_mul_right (pattern.length + value.length + 2)
      (Nat.sub_le_sub_left hle value.length)
    simp only [Patterns.Scan.left]
    omega
  · split at h
    · cases h
      refine ⟨?_, Nat.le_refl _⟩
      have hsub : value.length - s.matchIdx = value.length - (s.matchIdx + 1) + 1 := by omega
      simp only [Patterns.Scan.left]
      rw [hsub, Nat.succ_mul]
      omega
    · cases h

theorem exists_globLoop_left {fuel : Nat} {s : Patterns.Scan} (hle : s.matchIdx ≤ s.vi)
    (hfuel : s.left value pattern < fuel) :
    ∃ result, Patterns.globLoop value pattern fuel s = some result := by
  induction fuel generalizing s with
  | zero => exact absurd hfuel (Nat.not_lt_zero _)
  | succ fuel ih =>
    rw [Patterns.globLoop]
    cases hturn : Patterns.turn value pattern s with
    | inr result => exact ⟨result, rfl⟩
    | inl next =>
      obtain ⟨hleft, hnext⟩ := left_turn value pattern hle hturn
      exact ih hnext (by omega)

/-- `_glob_match(value, pattern)` -/
def globMatches : Bool :=
  (Patterns.globMatch value pattern
    ((Patterns.Scan.mk 0 0 none 0).left value pattern + 1)).getD false

theorem globMatch_globMatches : ∃ fuel,
    Patterns.globMatch value pattern fuel = some (globMatches value pattern) := by
  obtain ⟨result, hresult⟩ := exists_globLoop_left value pattern (s := ⟨0, 0, none, 0⟩)
    (Nat.le_refl _) (Nat.lt_succ_self _)
  refine ⟨(Patterns.Scan.mk 0 0 none 0).left value pattern + 1, ?_⟩
  rw [globMatches, Patterns.globMatch]
  split_ifs
  · rfl
  · rfl
  · rw [hresult]
    rfl

end Globs

/-! ### Policies -/

/-- `x in xs` -/
def among (x : Text) (xs : List Text) : Bool := xs.any fun y => decide (y = x)

@[simp] theorem among_iff {x : Text} {xs : List Text} : among x xs = true ↔ x ∈ xs := by
  simp [among]

theorem not_among_iff {x : Text} {xs : List Text} : (!among x xs) = true ↔ x ∉ xs := by
  rw [Bool.not_eq_true', ← Bool.not_eq_true, among_iff]

structure TrustZone where
  zoneId : Text
  endpointPatterns : List Text
  deriving DecidableEq

inductive BoundaryAction where
  | forbidden | requiresAuth | requiresAudit | allowed
  deriving DecidableEq

structure TrustBoundaryRule where
  ruleId : Text
  fromZone : Text
  toZone : Text
  action : BoundaryAction
  deriving DecidableEq

structure LayerDefinition where
  layerId : Text
  endpointPatterns : List Text
  forbiddenImporters : List Text
  deriving DecidableEq

inductive LayerAction where
  | forbidden | requiresGateway | allowed
  deriving DecidableEq

structure LayerRule where
  ruleId : Text
  fromLayer : Text
  toLayer : Text
  action : LayerAction
  gatewayModules : List Text
  deriving DecidableEq

structure MutationRule where
  ruleId : Text
  endpointPattern : Text
  methods : List Text
  allowedMutationClasses : List Text
  requiresAuthForMutation : Bool
  requiresReplayUnsafeForDestructive : Bool

structure ReplayRule where
  ruleId : Text
  endpointPattern : Text
  methods : List Text
  requiredReplayClass : Text
  sandboxRequired : Bool
  productionReplayProhibited : Bool
  sandboxReplayableMutations : List Text

/-- The limits that a pass compares with, those of scores in `R`. -/
structure BlastRadiusLimit (R : Type) where
  maxDependenciesPerEndpoint : Nat
  maxCrossServiceEdges : Nat
  maxFanoutPerEndpoint : Nat
  maxTopologyComplexityScore : R
  maxAuthFieldsPerEndpoint : Nat
  maxAuthInvariantsPerGraph : Nat
  maxUnconfirmedAuthBindings : Nat
  maxReplayScopeNodes : Nat
  maxReplayPropagationDepth : Nat
  maxSideEffectBoundEndpoints : Nat
  maxStructuralDeltaScore : R
  maxSemanticDeltaScore : R
  maxDriftScore : R
  maxAuthMutationCount : Nat

structure StateWriterRule where
  layerId : Text
  allowedWriters : List Text
  failClosed : Bool
  deriving DecidableEq

structure ForbiddenImportRule where
  layerId : Text

structure ArchitecturePolicy (R : Type) where
  trustZones : List TrustZone
  trustBoundaryRules : List TrustBoundaryRule
  layers : List LayerDefinition
  layerRules : List LayerRule
  mutationRules : List MutationRule
  replayRules : List ReplayRule
  blastRadiusLimits : BlastRadiusLimit R
  stateWriterRules : List StateWriterRule
  forbiddenImportRules : List ForbiddenImportRule
  globalFailClosed : Bool
  unique_zone_ids : (trustZones.map TrustZone.zoneId).Nodup
  unique_layer_ids : (layers.map LayerDefinition.layerId).Nodup

namespace ArchitecturePolicy
variable {R : Type} (policy : ArchitecturePolicy R)

def getZoneForEndpoint (endpoint : Text) : Option TrustZone :=
  policy.trustZones.find? fun zone => zone.endpointPatterns.any (globMatches endpoint)

def getLayerForEndpoint (endpoint : Text) : Option LayerDefinition :=
  policy.layers.find? fun layer => layer.endpointPatterns.any (globMatches endpoint)

/-- No methods are all methods. -/
def covers (upper : Text → Text) (methods : List Text) (method : Text) : Bool :=
  methods.isEmpty || among (upper method) (methods.map upper)

def getMutationRuleForEndpoint (upper : Text → Text) (endpoint method : Text) :
    Option MutationRule :=
  policy.mutationRules.find? fun rule =>
    globMatches endpoint rule.endpointPattern && covers upper rule.methods method

def getReplayRuleForEndpoint (upper : Text → Text) (endpoint method : Text) : Option ReplayRule :=
  policy.replayRules.find? fun rule =>
    globMatches endpoint rule.endpointPattern && covers upper rule.methods method

def findBoundaryRule (fromZone toZone : Text) : Option TrustBoundaryRule :=
  policy.trustBoundaryRules.find? fun rule => rule.fromZone = fromZone ∧ rule.toZone = toZone

def findLayerRule (fromLayer toLayer : Text) : Option LayerRule :=
  policy.layerRules.find? fun rule => rule.fromLayer = fromLayer ∧ rule.toLayer = toLayer

def findStateWriterRule (layerId : Text) : Option StateWriterRule :=
  policy.stateWriterRules.find? fun rule => rule.layerId = layerId

end ArchitecturePolicy

end PiPlatform.SemanticValidator
