import PiPlatform.EventFabric.Bus.Reproducible
import PiPlatform.EventFabric.Governance.Registry
import PiPlatform.EventFabric.Schema.Registry

/-! What the two registries keep.

Both insert a row unless it clashes with one that is there, and both return as if it had
been inserted. So what a call registered can be found again when nothing older stood in
its way, or when what stood there says the same. -/
namespace PiPlatform.EventFabric

open Library Library.Json Library.Python Schema.Registry Governance.Registry

/-- The schema `X`, version 1, of one field. -/
def schemaOf (fieldName : String) : ArtifactSchema Literal where
  schemaName := "X"
  version := "1"
  fields := [⟨fieldName, "string", true, .none, "", none⟩]
  compatibility := .backward
  previousFingerprint := none
  fingerprint := ⟨"", ""⟩

def fingerprinted (s : ArtifactSchema Literal) : ArtifactSchema Literal :=
  (s.make prefixDigest).toOption.getD s

theorem make_fingerprinted {s : ArtifactSchema Literal}
    (h : (s.make prefixDigest).toOption.isSome) : s.make prefixDigest = .ok (fingerprinted s) := by
  rw [fingerprinted]
  cases hmake : s.make prefixDigest with
  | error e =>
    rw [hmake] at h
    cases h
  | ok made => rfl

/-- Two schemas under one name and version. -/
def sameVersion : List (SchemaCall Literal prefixDigest) :=
  [⟨⟨fingerprinted (schemaOf "a"), _, make_fingerprinted (s := schemaOf "a") (by decide +kernel)⟩,
      "system"⟩,
    ⟨⟨fingerprinted (schemaOf "b"), _, make_fingerprinted (s := schemaOf "b") (by decide +kernel)⟩,
      "system"⟩]

/-- The rule `r1`, in some version. -/
def ruleOf (version : String) : RuleCall Literal where
  rule := {
    ruleId := "r1"
    name := "rule"
    description := ""
    targetScope := "global"
    conditions := []
    effect := .deny
    priority := 100
    version := version
    parentRuleId := none
    ruleHash := "h" ++ version }
  registeredBy := "system"

def twoVersions : List (RuleCall Literal) := [ruleOf "1", ruleOf "2"]

end PiPlatform.EventFabric
