import PiPlatform.AgentChain.Models
import PiPlatform.Library.StableSort
import Mathlib.Data.String.Basic

/-! The auth consistency report.

Headers that carry authentication are the evidence. Pairs of carriers that occur together are
bindings, and from both the invariants are inferred. Where a list is made from a set, its
order is the set's (`SetOrder`).

The times a record holds are never read, and stand with the dump of the report. -/
namespace PiPlatform.AgentChain.Auth

open Library Library.Python

/-! ### Traffic -/

structure SemanticField where
  path : String
  inferredType : String

structure SemanticIRTrace where
  endpointTemplate : String
  method : String
  fields : List SemanticField

/-- `packetHash` is what `compute_hash` gives: it does not read the time. -/
structure NormalizedTrafficPacket where
  timestamp : Int
  method : String
  uri : String
  rawHeaders : List (String × String)
  responseStatus : Int
  responseHeaders : List (String × String)
  packetHash : String

/-- `uri.split("?")[0]` -/
def NormalizedTrafficPacket.endpointPathTemplate (pkt : NormalizedTrafficPacket) : String :=
  String.ofList (pkt.uri.toList.takeWhile (· ≠ '?'))

/-- What is taken of the language: `str.lower`, `str.strip`, `repr` of a pair, and the front of
the hash of a text. -/
structure Texts where
  lower : String → String
  strip : String → String
  reprPair : String × String → String
  hash : String → String

def startsWith (start s : String) : Bool := start.toList.isPrefixOf s.toList
def endsWith (stop s : String) : Bool := stop.toList.isSuffixOf s.toList

/-- `word in s` -/
def contains (word s : String) : Bool := decide (word.toList <:+: s.toList)

/-! ### Evidence -/

inductive AuthEvidenceType where
  | bearerHeader | basicHeader | apiKeyHeader | cookieToken | csrfToken | sessionCookie | jwtHeader
  | oauthFlow | unknownAuth
  deriving DecidableEq

def AuthEvidenceType.value : AuthEvidenceType → String
  | .bearerHeader => "BEARER_HEADER"
  | .basicHeader => "BASIC_HEADER"
  | .apiKeyHeader => "API_KEY_HEADER"
  | .cookieToken => "COOKIE_TOKEN"
  | .csrfToken => "CSRF_TOKEN"
  | .sessionCookie => "SESSION_COOKIE"
  | .jwtHeader => "JWT_HEADER"
  | .oauthFlow => "OAUTH_FLOW"
  | .unknownAuth => "UNKNOWN_AUTH"

inductive Carrier where
  | header | cookie
  deriving DecidableEq

def Carrier.value : Carrier → String
  | .header => "HEADER"
  | .cookie => "COOKIE"

structure AuthEvidence where
  evidenceId : String
  traceId : String
  packetId : String
  evidenceType : AuthEvidenceType
  fieldPath : String
  carrier : Carrier
  observedValueHash : String
  endpointTemplate : String
  method : String
  statusCode : Int

/-- `AUTH_TYPES` -/
def authTypes : List String := ["JWT", "JWT_Payload", "Base64", "HexDigest", "UNKNOWN_HEX"]

section Evidence
variable (T : Texts) (executionId : String)

/-- The type by the header's name and value; `traced` is the type of the traced field. -/
def evidenceType? (hkl headerValue : String) (traced : Option String) : Option AuthEvidenceType :=
  if hkl = "authorization" then
    if startsWith "bearer " (T.lower (T.strip headerValue)) then some .bearerHeader
    else if startsWith "basic " (T.lower (T.strip headerValue)) then some .basicHeader
    else if traced = some "JWT" then some .jwtHeader
    else some .unknownAuth
  else if hkl = "cookie" then
    if contains "session" (T.lower headerValue) then some .sessionCookie else some .cookieToken
  else if contains "csrf" hkl ∨ contains "xsrf" hkl then some .csrfToken
  else if contains "api-key" hkl ∨ contains "auth-token" hkl then
    if traced.any (· ∈ authTypes) then some .apiKeyHeader else some .unknownAuth
  else none

def classifyHeaderEvidence (headerKey headerValue : String) (pkt : NormalizedTrafficPacket)
    (trace : Option SemanticIRTrace) (isResponse : Bool) : Option AuthEvidence :=
  let hkl := T.lower headerKey
  let start := if isResponse then "response_header." else "header."
  let traced := trace.bind fun trace =>
    (trace.fields.find? fun f => startsWith start f.path && endsWith hkl (T.lower f.path)).map
      (·.inferredType)
  (evidenceType? T hkl headerValue traced).map fun evType =>
    { evidenceId := T.hash (executionId ++ ":" ++ pkt.packetHash ++ ":" ++ hkl)
      traceId := executionId
      packetId := pkt.packetHash
      evidenceType := evType
      fieldPath := start ++ headerKey
      carrier := if isResponse ∧ hkl = "cookie" then .cookie else .header
      observedValueHash := T.hash headerValue
      endpointTemplate := pkt.endpointPathTemplate
      method := pkt.method
      statusCode := pkt.responseStatus }

/-- Of several traces of an endpoint the last one counts. -/
def extractEvidence (traces : List SemanticIRTrace) (packets : List NormalizedTrafficPacket) :
    List AuthEvidence :=
  packets.flatMap fun pkt =>
    let trace := traces.reverse.find? fun t =>
      t.endpointTemplate = pkt.endpointPathTemplate ∧ t.method = pkt.method
    (pkt.rawHeaders.filterMap fun h =>
      classifyHeaderEvidence T executionId h.1 h.2 pkt trace false) ++
    if pkt.responseStatus = 401 ∨ pkt.responseStatus = 403 then
      pkt.responseHeaders.filterMap fun h =>
        classifyHeaderEvidence T executionId h.1 h.2 pkt trace true
    else []

end Evidence

/-! ### Records -/

section Records
variable (R : Type)

structure AuthBinding where
  bindingId : String
  carrierA : String
  fieldPathA : String
  carrierB : String
  fieldPathB : String
  coOccurrenceCount : Nat
  disjointCount : Nat
  confidence : R
  evidenceRefs : List String
  epistemicState : String

structure AuthInvariant where
  invariantId : String
  invariantType : String
  description : String
  rotationClass : String := "UNKNOWN"
  evidenceRefs : List String
  affectedEndpoints : List String
  confidence : R
  epistemicState : String

structure AuthConsistencyReport where
  reportId : String
  invariants : List (AuthInvariant R)
  evidence : List AuthEvidence
  bindings : List (AuthBinding R)
  violations : List (Violation R)
  authFieldCount : Nat
  tokenEntropy : R

end Records

variable {R : Type} (N : Floats R)

/-- None is a `ValidationError`. -/
def AuthBinding.valid? (b : AuthBinding R) : Option (AuthBinding R) :=
  if N.InUnit b.confidence then some b else none

def AuthInvariant.valid? (inv : AuthInvariant R) : Option (AuthInvariant R) :=
  if N.InUnit inv.confidence then some inv else none

def AuthConsistencyReport.valid? (r : AuthConsistencyReport R) :
    Option (AuthConsistencyReport R) :=
  if N.InUnit r.tokenEntropy then some r else none

/-- `n / m` -/
def ratio (n m : Nat) : R := N.div (N.ofNat n) (N.ofNat m)

/-- `min(n / m, 1.0)` -/
def cappedRatio (n m : Nat) : R := N.min (ratio N n m) (N.dec 10 1)

/-! ### Bindings -/

/-- Two of a list, the first before the second. -/
def pairsOf {α : Type} : List α → List (α × α)
  | [] => []
  | x :: xs => xs.map (fun y => (x, y)) ++ pairsOf xs

section Bindings
variable (order : SetOrder) (T : Texts) (minBindingConfidence : R) (executionId : String)

def AuthEvidence.place (ev : AuthEvidence) : Carrier × String := (ev.carrier, ev.fieldPath)

/-- A pair of carriers, counted over the packets. -/
def bindingOf (byPacket : List (List AuthEvidence)) (a b : Carrier × String) :
    Option (Option (AuthBinding R)) :=
  let together := byPacket.filter fun evs =>
    a ∈ evs.map AuthEvidence.place ∧ b ∈ evs.map AuthEvidence.place
  let co := together.length
  let disjoint := byPacket.length - co
  let evidence := together.flatMap fun evs =>
    (evs.filter fun e => e.place = a ∨ e.place = b).map (·.evidenceId)
  if co + disjoint = 0 then some none
  else
    let confidence := ratio N co (co + disjoint)
    if N.le minBindingConfidence confidence then
      (AuthBinding.valid? N
        { bindingId := T.hash ("bind:" ++ executionId ++ ":" ++
            T.reprPair (a.1.value ++ ":" ++ a.2, b.1.value ++ ":" ++ b.2))
          carrierA := a.1.value
          fieldPathA := a.2
          carrierB := b.1.value
          fieldPathB := b.2
          coOccurrenceCount := co
          disjointCount := disjoint
          confidence := N.round confidence 4
          evidenceRefs := order.iterate evidence
          epistemicState := EpistemicState.observed }).map some
    else some none

def detectBindings (evidence : List AuthEvidence) : Option (List (AuthBinding R)) :=
  let byPacket := (groupBy (·.packetId) evidence).map (·.2)
  let clist := order.iterate (evidence.map AuthEvidence.place)
  ((pairsOf clist).mapM fun pair =>
    bindingOf N order T minBindingConfidence executionId byPacket pair.1 pair.2).map
      (·.filterMap id)

/-! ### Invariants -/

/-- Bearer, JWT and API-key headers. -/
def isToken (ev : AuthEvidence) : Bool :=
  ev.evidenceType ∈ [.bearerHeader, .jwtHeader, .apiKeyHeader]

/-- `TOKEN_REUSE` -/
def tokenReuse (evidence : List AuthEvidence) : List (AuthInvariant R) :=
  ((groupBy (·.observedValueHash) (evidence.filter isToken)).filter fun g =>
    1 < g.2.length).map fun (valHash, evs) =>
      { invariantId := T.hash ("reuse:" ++ executionId ++ ":" ++ valHash)
        invariantType := "TOKEN_REUSE"
        description := "Token hash " ++ valHash ++ " reused across " ++ toString evs.length ++
          " packets"
        evidenceRefs := evs.map (·.evidenceId)
        affectedEndpoints := order.iterate (evs.map (·.endpointTemplate))
        confidence := N.round (cappedRatio N evs.length 10) 4
        epistemicState := EpistemicState.observed }

/-- `CSRF_COUPLING` -/
def csrfCoupling (evidence : List AuthEvidence) : List (AuthInvariant R) :=
  let csrfEv := evidence.filter fun e => e.evidenceType = .csrfToken
  let cookieEv := evidence.filter fun e => e.evidenceType = .sessionCookie
  if csrfEv = [] ∨ cookieEv = [] then []
  else
    let csrfPackets := order.iterate (csrfEv.map (·.packetId))
    let cookiePackets := order.iterate (cookieEv.map (·.packetId))
    let overlap := (csrfPackets.filter (· ∈ cookiePackets)).length
    let total := csrfPackets.length + cookiePackets.length - overlap
    let conf := ratio N overlap total
    [{ invariantId := T.hash ("csrf:" ++ executionId)
       invariantType := "CSRF_COUPLING"
       description := "CSRF token observed with session cookie"
       evidenceRefs := (csrfEv ++ cookieEv).map (·.evidenceId)
       affectedEndpoints := order.iterate ((csrfEv ++ cookieEv).map (·.endpointTemplate))
       confidence := N.round conf 4
       epistemicState := if N.le minBindingConfidence conf then EpistemicState.observed
         else EpistemicState.inferred }]

/-- `SESSION_ROTATION` -/
def sessionRotation (evidence : List AuthEvidence) : List (AuthInvariant R) :=
  let carriers := evidence.filter fun e =>
    e.evidenceType ∈ [.bearerHeader, .jwtHeader, .sessionCookie]
  ((groupBy (·.endpointTemplate) carriers).filter fun g => 2 ≤ g.2.length).map
    fun (endpoint, evs) =>
      let uniqueHashes := (order.iterate (evs.map (·.observedValueHash))).length
      let total := evs.length
      let statusChanges := 1 < (order.iterate (evs.map (·.statusCode))).length
      { invariantId := T.hash ("rotation:" ++ executionId ++ ":" ++ endpoint)
        invariantType := "SESSION_ROTATION"
        description := "Auth material changed " ++ toString uniqueHashes ++ " times across " ++
          toString total ++ " requests to " ++ endpoint
        rotationClass :=
          if statusChanges ∧ 1 < uniqueHashes then "STATE_BOUND"
          else if uniqueHashes = 1 then "STATIC"
          else if uniqueHashes = total then "PER_REQUEST"
          else if uniqueHashes < total then "PER_SESSION"
          else "UNKNOWN"
        evidenceRefs := evs.map (·.evidenceId)
        affectedEndpoints := [endpoint]
        confidence := N.round (cappedRatio N uniqueHashes total) 4
        epistemicState := EpistemicState.observed }

/-- `AUTH_TRANSITION` -/
def authTransition (evidence : List AuthEvidence) : List (AuthInvariant R) :=
  let authThenFail := evidence.filter fun e => e.statusCode = 401 ∨ e.statusCode = 403
  if authThenFail = [] then []
  else
    [{ invariantId := T.hash ("trans:" ++ executionId)
       invariantType := "AUTH_TRANSITION"
       description := "Auth material observed with 401/403 response"
       evidenceRefs := authThenFail.map (·.evidenceId)
       affectedEndpoints := order.iterate (authThenFail.map (·.endpointTemplate))
       confidence := N.round (cappedRatio N authThenFail.length 5) 4
       epistemicState := EpistemicState.observed }]

/-- `REPLAY_SURVIVABILITY` -/
def replaySurvivability (evidence : List AuthEvidence) : List (AuthInvariant R) :=
  let replayableAuth := evidence.filter isToken
  if replayableAuth = [] then []
  else
    [{ invariantId := T.hash ("replay:" ++ executionId)
       invariantType := "REPLAY_SURVIVABILITY"
       description := "Bearer/JWT/API-key auth observed in " ++
         toString (order.iterate (replayableAuth.map (·.packetId))).length ++ " packets"
       evidenceRefs := replayableAuth.map (·.evidenceId)
       affectedEndpoints := order.iterate (replayableAuth.map (·.endpointTemplate))
       confidence := N.dec 95 2
       epistemicState := EpistemicState.observed }]

/-- `DEPENDENCY_ORDERING` -/
def dependencyOrdering (evidence : List AuthEvidence) : List (AuthInvariant R) :=
  let authedEndpoints := order.iterate (evidence.map (·.endpointTemplate))
  if authedEndpoints.length ≤ 1 then []
  else
    [{ invariantId := T.hash ("order:" ++ executionId)
       invariantType := "DEPENDENCY_ORDERING"
       description := "Auth evidence observed across " ++ toString authedEndpoints.length ++
         " distinct endpoints. TEMPORAL ONLY. Replay confirmation required for VALID transition."
       evidenceRefs := evidence.map (·.evidenceId)
       affectedEndpoints := sortBy id authedEndpoints
       confidence := N.round (cappedRatio N authedEndpoints.length 10) 4
       epistemicState := EpistemicState.contested }]

/-- The six inferences in their order. -/
def inferInvariants (evidence : List AuthEvidence) : Option (List (AuthInvariant R)) :=
  (tokenReuse N order T executionId evidence ++
    csrfCoupling N order T minBindingConfidence executionId evidence ++
    sessionRotation N order T executionId evidence ++
    authTransition N order T executionId evidence ++
    replaySurvivability N order T executionId evidence ++
    dependencyOrdering N order T executionId evidence).mapM (AuthInvariant.valid? N)

/-! ### The report -/

/-- A transition of enough confidence is a violation. -/
def evaluateGovernance (invariants : List (AuthInvariant R)) : List (Violation R) :=
  (invariants.filter fun inv => inv.invariantType = "AUTH_TRANSITION" ∧
    N.le minBindingConfidence inv.confidence).map fun inv =>
      { violationId := T.hash ("auth_trans:" ++ executionId)
        rule := "AUTH_TRANSITION_INVALIDATION"
        workerId := "auth_consistency_validator"
        rootGoalId := executionId
        severity := .error
        context := [("affected_endpoints", .list (inv.affectedEndpoints.map .text)),
          ("confidence", .float inv.confidence),
          ("evidence_count", .int inv.evidenceRefs.length)]
        actionTaken := "HALT" }

/-- How evenly the token values are spread. -/
def computeTokenEntropy (evidence : List AuthEvidence) : R :=
  let hashes := (evidence.filter isToken).map (·.observedValueHash)
  if hashes = [] then N.ofNat 0
  else
    let freq := (groupBy id hashes).map (·.2.length)
    let maxE := if 1 < freq.length then N.log2 (N.ofNat freq.length) else N.dec 10 1
    if N.lt (N.ofNat 0) maxE then N.div (N.entropyOf freq hashes.length) maxE else N.ofNat 0

/-- Evidence, bindings and invariants of the packets, in a report. -/
def validate (traces : List SemanticIRTrace) (packets : List NormalizedTrafficPacket) :
    Option (AuthConsistencyReport R) := do
  let evidence := extractEvidence T executionId traces packets
  let bindings ← detectBindings N order T minBindingConfidence executionId evidence
  let invariants ← inferInvariants N order T minBindingConfidence executionId evidence
  AuthConsistencyReport.valid? N
    { reportId := T.hash ("auth_report:" ++ executionId)
      invariants := invariants
      evidence := evidence
      bindings := bindings
      violations := evaluateGovernance N T minBindingConfidence executionId invariants
      authFieldCount := evidence.length
      tokenEntropy := N.round (computeTokenEntropy N evidence) 4 }

end Bindings

end PiPlatform.AgentChain.Auth
