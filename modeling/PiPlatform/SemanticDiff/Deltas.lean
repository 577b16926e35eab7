import Mathlib.Algebra.Group.Defs
import Mathlib.Data.String.Basic
import PiPlatform.Library.Collected
import PiPlatform.Library.Dict

/-! The deltas between two snapshots.

Traces are compared under the text of their method and endpoint, edges under the text of their
ends, fields by their paths, and auth invariants by their ids. Each comparison stops when it has
found so many deltas. -/
namespace PiPlatform.SemanticDiff

open Library

/-- The type of confidences and scores, floats in the code. They are computed with, but no law of
the operations is relied on. -/
class Floats (R : Type) extends Zero R, One R, NatCast R, Add R, Sub R, Mul R, Div R, Min R,
    LT R where
  decLT : DecidableLT R

attribute [reducible, instance] Floats.decLT

/-- The constants `0.01` and its multiples. -/
def hundredths {R : Type} [Floats R] (n : Nat) : R := n / (100 : Nat)

/-! ### Snapshots -/

structure SemanticField (R : Type) where
  path : String
  inferredType : String
  confidence : R

structure SemanticIRTrace (R : Type) where
  endpointTemplate : String
  method : String
  fields : List (SemanticField R)
  mutationClass : String
  replayClass : String
  sandboxRequired : Bool
  productionReplayProhibited : Bool

inductive CarrierMechanism where
  | header | cookie | query | body
  deriving DecidableEq

structure StateEdge where
  upstreamEndpoint : String
  upstreamField : String
  downstreamEndpoint : String
  downstreamField : String
  carrierMechanism : CarrierMechanism
  deriving DecidableEq

structure DependencyGraph where
  edges : List StateEdge
  nodes : List String

structure AuthInvariant where
  invariantId : String
  rotationClass : String
  affectedEndpoints : List String

/-! ### Deltas -/

inductive FieldDeltaType where
  | added | removed | typeChanged | confidenceChanged
  deriving DecidableEq

inductive Severity where
  | info | warning | critical
  deriving DecidableEq

/-- What a field delta shows of either side. -/
inductive FieldValue (R : Type) where
  | type (name : String)
  | confidence (x : R)

structure FieldDelta (R : Type) where
  fieldPath : String
  deltaType : FieldDeltaType
  baselineValue : Option (FieldValue R)
  modifiedValue : Option (FieldValue R)
  severity : Severity

inductive Presence where
  | unchanged | added | removed
  deriving DecidableEq

structure EndpointDelta (R : Type) where
  endpointTemplate : String
  method : String
  presence : Presence
  fieldDeltas : List (FieldDelta R)
  baselineMutationClass : String
  modifiedMutationClass : String
  mutationClassTransition : Bool
  baselineReplayClass : String
  modifiedReplayClass : String
  replayClassTransition : Bool
  provenance : List String

inductive DependencyDelta where
  | edgeAdded (edge : StateEdge)
  | edgeRemoved (edge : StateEdge)
  | nodeAdded (node : String)
  | nodeRemoved (node : String)
  deriving DecidableEq

inductive AuthDeltaType where
  | added | removed | rotationClassChanged | bindingChanged
  deriving DecidableEq

structure AuthDelta where
  invariantId : String
  deltaType : AuthDeltaType
  affectedEndpointsDelta : Int
  deriving DecidableEq

structure ReplaySurfaceDelta where
  endpointTemplate : String
  method : String
  replayableDelta : Bool
  sandboxRequiredDelta : Bool
  productionReplayProhibitedDelta : Bool
  deriving DecidableEq

/-! ### Endpoints -/

section Endpoints
variable {R : Type} [Floats R]

def traceKey (t : SemanticIRTrace R) : String := t.method ++ ":" ++ t.endpointTemplate

/-- `{_trace_key(t): t for t in traces}` -/
def traceMap (traces : List (SemanticIRTrace R)) : Dict String (SemanticIRTrace R) :=
  .ofList (traces.map fun t => (traceKey t, t))

def fieldMap (fields : List (SemanticField R)) : Dict String (SemanticField R) :=
  .ofList (fields.map fun f => (f.path, f))

def removedField (key : String) : FieldDelta R := ⟨key, .removed, none, none, .warning⟩

def addedField (key : String) : FieldDelta R := ⟨key, .added, none, none, .info⟩

def typeChanged (key : String) (bf mf : SemanticField R) : FieldDelta R :=
  ⟨key, .typeChanged, some (.type bf.inferredType), some (.type mf.inferredType), .critical⟩

def confidenceChanged (key : String) (bf mf : SemanticField R) : FieldDelta R :=
  ⟨key, .confidenceChanged, some (.confidence bf.confidence), some (.confidence mf.confidence),
    .info⟩

/-- `abs(a - b) > 0.1`, sign by sign. -/
def far (a b : R) : Bool := decide (hundredths 10 < a - b) || decide (hundredths 10 < b - a)

/-- `_compute_field_deltas` -/
def computeFieldDeltas (baseFields modFields : List (SemanticField R)) (maxCount : Int) :
    List (FieldDelta R) :=
  let baseMap := fieldMap baseFields
  let modMap := fieldMap modFields
  let deltas := baseMap.items.foldl (fun deltas p =>
    match modMap.get? p.1 with
    | none => deltas.push maxCount (removedField p.1)
    | some mf =>
      let deltas := if p.2.inferredType ≠ mf.inferredType then
        deltas.push maxCount (typeChanged p.1 p.2 mf) else deltas
      if far p.2.confidence mf.confidence then
        deltas.push maxCount (confidenceChanged p.1 p.2 mf) else deltas) Collected.nothing
  let deltas := modMap.items.foldl (fun deltas p =>
    if baseMap.contains p.1 then deltas else deltas.push maxCount (addedField p.1)) deltas
  deltas.items

def mutationTransition (base mod : SemanticIRTrace R) : Bool :=
  if base.mutationClass ≠ mod.mutationClass ∧ (base.mutationClass = "IDEMPOTENT_READ" ∨
      mod.mutationClass ∈ ["STATEFUL_MUTATION", "DESTRUCTIVE_MUTATION"]) then true
  else base.mutationClass ≠ mod.mutationClass

def replayTransition (base mod : SemanticIRTrace R) : Bool :=
  if base.replayClass ≠ mod.replayClass ∧ base.replayClass ∈ ["PURE_REPLAYABLE", "IDEMPOTENT"] ∧
      mod.replayClass ∈ ["NON_REPLAYABLE", "SIDE_EFFECT_RISK"] then true
  else base.replayClass ≠ mod.replayClass

def removedEndpoint (t : SemanticIRTrace R) : EndpointDelta R where
  endpointTemplate := t.endpointTemplate
  method := t.method
  presence := .removed
  fieldDeltas := []
  baselineMutationClass := t.mutationClass
  modifiedMutationClass := "UNKNOWN"
  mutationClassTransition := false
  baselineReplayClass := "UNKNOWN"
  modifiedReplayClass := "UNKNOWN"
  replayClassTransition := false
  provenance := ["baseline_snapshot"]

def addedEndpoint (t : SemanticIRTrace R) : EndpointDelta R where
  endpointTemplate := t.endpointTemplate
  method := t.method
  presence := .added
  fieldDeltas := []
  baselineMutationClass := "UNKNOWN"
  modifiedMutationClass := t.mutationClass
  mutationClassTransition := false
  baselineReplayClass := "UNKNOWN"
  modifiedReplayClass := "UNKNOWN"
  replayClassTransition := false
  provenance := ["modified_snapshot"]

def changedEndpoint (base mod : SemanticIRTrace R) (fieldDeltas : List (FieldDelta R)) :
    EndpointDelta R where
  endpointTemplate := mod.endpointTemplate
  method := mod.method
  presence := .unchanged
  fieldDeltas := fieldDeltas
  baselineMutationClass := base.mutationClass
  modifiedMutationClass := mod.mutationClass
  mutationClassTransition := mutationTransition base mod
  baselineReplayClass := base.replayClass
  modifiedReplayClass := mod.replayClass
  replayClassTransition := replayTransition base mod
  provenance := ["baseline_snapshot", "modified_snapshot"]

/-- Endpoints added, removed or changed. -/
def computeEndpointDeltas (baseline modified : List (SemanticIRTrace R)) (maxDeltas : Int) :
    List (EndpointDelta R) :=
  let baseMap := traceMap baseline
  let modMap := traceMap modified
  let deltas := baseMap.items.foldl (fun deltas p =>
    if modMap.contains p.1 then deltas else deltas.push maxDeltas (removedEndpoint p.2))
    Collected.nothing
  let deltas := modMap.items.foldl (fun deltas p =>
    match baseMap.get? p.1 with
    | none => deltas.push maxDeltas (addedEndpoint p.2)
    | some base =>
      let fieldDeltas := computeFieldDeltas base.fields p.2.fields (maxDeltas - deltas.items.length)
      if fieldDeltas ≠ [] ∨ mutationTransition base p.2 = true ∨
          replayTransition base p.2 = true then
        deltas.push maxDeltas (changedEndpoint base p.2 fieldDeltas) else deltas) deltas
  deltas.items

end Endpoints

/-! ### Dependencies -/

def edgeKey (e : StateEdge) : String :=
  e.upstreamEndpoint ++ ":" ++ e.upstreamField ++ "->" ++ e.downstreamEndpoint ++ ":" ++
    e.downstreamField

def edgeMap (edges : List StateEdge) : Dict String StateEdge :=
  .ofList (edges.map fun e => (edgeKey e, e))

/-- `sorted(set(nodes) - set(others))` -/
def nodesWithout (nodes others : List String) : List String :=
  sorted (nodes.toFinset \ others.toFinset)

/-- Edges added and removed. -/
def computeDependencyDeltas (baseline modified : DependencyGraph) (maxDeltas : Int) :
    List DependencyDelta :=
  let baseEdges := edgeMap baseline.edges
  let modEdges := edgeMap modified.edges
  let deltas := baseEdges.items.foldl (fun deltas p =>
    if modEdges.contains p.1 then deltas else deltas.push maxDeltas (.edgeRemoved p.2))
    Collected.nothing
  let deltas := modEdges.items.foldl (fun deltas p =>
    if baseEdges.contains p.1 then deltas else deltas.push maxDeltas (.edgeAdded p.2)) deltas
  let deltas := (nodesWithout baseline.nodes modified.nodes).foldl
    (fun deltas node => deltas.push maxDeltas (.nodeRemoved node)) deltas
  let deltas := (nodesWithout modified.nodes baseline.nodes).foldl
    (fun deltas node => deltas.push maxDeltas (.nodeAdded node)) deltas
  deltas.items

/-! ### Auth invariants -/

def invariantMap (invariants : List AuthInvariant) : Dict String AuthInvariant :=
  .ofList (invariants.map fun inv => (inv.invariantId, inv))

/-- How many more endpoints are affected. -/
def affectedDelta (b m : AuthInvariant) : Int :=
  m.affectedEndpoints.length - b.affectedEndpoints.length

/-- Invariants added, removed or changed. -/
def computeAuthDeltas (baseline modified : List AuthInvariant) (maxDeltas : Int) :
    List AuthDelta :=
  let baseMap := invariantMap baseline
  let modMap := invariantMap modified
  let deltas := baseMap.items.foldl (fun (deltas : Collected AuthDelta) p =>
    let deltas := match modMap.get? p.1 with
      | none => deltas.append ⟨p.1, .removed, -p.2.affectedEndpoints.length⟩
      | some m =>
        if p.2.rotationClass ≠ m.rotationClass then
          deltas.append ⟨p.1, .rotationClassChanged, affectedDelta p.2 m⟩
        else if p.2.affectedEndpoints.length ≠ m.affectedEndpoints.length then
          deltas.append ⟨p.1, .bindingChanged, affectedDelta p.2 m⟩
        else deltas
    deltas.check maxDeltas) Collected.nothing
  let deltas := modMap.items.foldl (fun deltas p =>
    if baseMap.contains p.1 then deltas
    else deltas.push maxDeltas ⟨p.1, .added, p.2.affectedEndpoints.length⟩) deltas
  deltas.items

/-! ### Replay surface -/

/-- New endpoints that are not safe, and those whose class or flags changed. -/
def computeReplaySurfaceDeltas {R : Type} (baseline modified : List (SemanticIRTrace R))
    (maxDeltas : Int) : List ReplaySurfaceDelta :=
  let baseMap := traceMap baseline
  let deltas := (traceMap modified).items.foldl (fun deltas p =>
    match baseMap.get? p.1 with
    | none =>
      -- without a look at the number of deltas
      if p.2.replayClass ∈ ["NON_REPLAYABLE", "SIDE_EFFECT_RISK"] then
        deltas.append ⟨p.2.endpointTemplate, p.2.method, true, false, false⟩ else deltas
    | some b =>
      let replay := decide (b.replayClass ≠ p.2.replayClass)
      let sandbox := decide (b.sandboxRequired ≠ p.2.sandboxRequired)
      let prohibited := decide (b.productionReplayProhibited ≠ p.2.productionReplayProhibited)
      if replay || sandbox || prohibited then
        deltas.push maxDeltas
          ⟨p.2.endpointTemplate, p.2.method, replay, sandbox, prohibited⟩ else deltas)
    Collected.nothing
  deltas.items

end PiPlatform.SemanticDiff
