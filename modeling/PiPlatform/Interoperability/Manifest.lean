/-! What an extension says of itself. -/
namespace PiPlatform.Interoperability

inductive CapabilityClass where
  | openapiTooling | graphqlTooling | kubernetesManifest | terraformAnalysis | cicdIntegration
  | visualization | observabilityAdapter | staticAnalyzer
  deriving DecidableEq

namespace CapabilityClass

def value : CapabilityClass → String
  | openapiTooling => "openapi_tooling"
  | graphqlTooling => "graphql_tooling"
  | kubernetesManifest => "kubernetes_manifest"
  | terraformAnalysis => "terraform_analysis"
  | cicdIntegration => "cicd_integration"
  | visualization => "visualization"
  | observabilityAdapter => "observability_adapter"
  | staticAnalyzer => "static_analyzer"

/-- In the order of the enumeration. -/
def all : List CapabilityClass :=
  [openapiTooling, graphqlTooling, kubernetesManifest, terraformAnalysis, cicdIntegration,
    visualization, observabilityAdapter, staticAnalyzer]

end CapabilityClass

inductive TrustZone where
  | coreTrusted | governedExtension | sandboxExperimental
  deriving DecidableEq

def TrustZone.value : TrustZone → String
  | coreTrusted => "core_trusted"
  | governedExtension => "governed_extension"
  | sandboxExperimental => "sandbox_experimental"

inductive ExtensionStatus where
  | pendingInspection | staticAnalyzed | determinismVerified | semanticNormalized | policyApproved
  | admitted | rejected | quarantined
  deriving DecidableEq

structure ExtensionManifest where
  extensionId : String
  packageName : String
  packageVersion : String
  packageHash : String
  capabilityClass : CapabilityClass
  trustZone : TrustZone
  status : ExtensionStatus
  deriving DecidableEq

end PiPlatform.Interoperability
