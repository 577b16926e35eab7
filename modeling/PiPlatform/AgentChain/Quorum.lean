import PiPlatform.AgentChain.Models

/-! The semantic quorum.

The claims of the traces are taken path by path. The accepted ones on a path agree on a type,
or they are in conflict; the others are rejected.

`execute_iff`: when the report comes and files every claim once. It need not come. A claim
that stands for an agreement carries the sum of the weights, and a claim's weight goes up to
one only, so two traces that agree can be too much (`agreement_raises`). -/
namespace PiPlatform.AgentChain.Quorum

open Library Library.Python

/-! ### Artifacts and claims -/

section Records
variable {R : Type}

structure SemanticField (N : Floats R) where
  path : String
  inferredType : String
  confidence : R
  bounded : N.InUnit confidence

structure SemanticIRTrace (N : Floats R) where
  endpointTemplate : String
  fields : List (SemanticField N)

/-- What comes of the payload of an artifact. -/
inductive Payload (N : Floats R) where
  /-- `TypeError` or `JSONDecodeError`. -/
  | unread
  /-- `ValidationError` -/
  | invalid
  | trace (trace : SemanticIRTrace N)

structure SemanticArtifact (N : Floats R) where
  artifactId : String
  artifactType : String
  epistemicState : String
  generatedBy : String
  payload : Payload N

variable (R) in
structure SemanticClaim where
  claimId : String
  propertyPath : String
  semanticType : String
  confidenceScore : R
  artifactId : String
  traceId : String
  packetId : String
  workerId : String
  sourceEpistemicState : String
  replayConfirmed : Bool
  provenanceChain : List String
  authorityWeight : R

variable (R) in
structure SemanticIntersection where
  intersectionId : String
  propertyPath : String
  intersectedType : String
  intersectedConfidence : R
  agreementClaimIds : List String
  totalAuthoritySum : R
  consensusReplayConfirmed : Bool

inductive ConflictType where
  | typeMismatch | authorityWeightCollision | confidenceRegression
  deriving DecidableEq

variable (R) in
structure SemanticConflictSet where
  conflictId : String
  propertyPath : String
  conflictingClaimIds : List String
  conflictType : ConflictType
  description : String
  epistemicState : String
  maxConfidence : R

variable (R) in
structure Promotion where
  promotionId : String
  propertyPath : String
  fromState : String
  toState : String
  minAuthority : R
  achievedAuthority : R
  rule : String

variable (R) in
structure SemanticQuorumReport where
  reportId : String
  executionId : String
  claims : List (SemanticClaim R)
  intersections : List (SemanticIntersection R)
  conflictSets : List (SemanticConflictSet R)
  rejectedClaims : List (SemanticClaim R)
  promotions : List (Promotion R)
  entropyBefore : R
  entropyAfter : R
  entropyDelta : R
  violations : List (Violation R)
  quorumReached : Bool
  maxDepthHit : Bool
  boundedTruncated : Bool

structure ValidationBounds where
  maxQuorumClaims : Int
  maxQuorumIntersections : Int
  maxQuorumConflictSets : Int

end Records

variable {R : Type} (N : Floats R)

/-! ### Validation

None is a `ValidationError`. -/

def SemanticClaim.valid? (c : SemanticClaim R) : Option (SemanticClaim R) :=
  if N.InUnit c.confidenceScore ∧ N.InUnit c.authorityWeight then some c else none

def SemanticIntersection.valid? (i : SemanticIntersection R) : Option (SemanticIntersection R) :=
  if N.InUnit i.intersectedConfidence ∧ N.Nonneg i.totalAuthoritySum then some i else none

def SemanticConflictSet.valid? (cs : SemanticConflictSet R) : Option (SemanticConflictSet R) :=
  if N.InUnit cs.maxConfidence then some cs else none

def SemanticQuorumReport.valid? (r : SemanticQuorumReport R) : Option (SemanticQuorumReport R) :=
  if N.Nonneg r.entropyBefore ∧ N.Nonneg r.entropyAfter then some r else none

/-! ### Extraction -/

/-- The weight of the state of the source, halved where the confidence is below a half. -/
def computeAuthority (sourceState : String) (field : SemanticField N) : R :=
  let base :=
    if sourceState = EpistemicState.replayConfirmed then N.dec 10 1
    else if sourceState = EpistemicState.verified then N.dec 9 1
    else if sourceState = EpistemicState.inferred then N.dec 8 1
    else if sourceState = EpistemicState.observed then N.dec 4 1
    else if sourceState = EpistemicState.contested then N.dec 1 1
    else if sourceState = EpistemicState.rejected then N.dec 0 1
    else N.dec 2 1
  N.round (if N.lt field.confidence (N.dec 5 1) then N.mul base (N.dec 5 1) else base) 4

/-- `hash` is the front of the hash of a text: `hashlib.sha256(s.encode()).hexdigest()[:16]`. -/
def claimOf (hash : String → String) (artifact : SemanticArtifact N) (trace : SemanticIRTrace N)
    (field : SemanticField N) : SemanticClaim R :=
  let sourceState :=
    if artifact.epistemicState = "" then EpistemicState.inferred else artifact.epistemicState
  let authority := computeAuthority N sourceState field
  { claimId := hash ("claim:" ++ artifact.artifactId ++ ":" ++ field.inferredType ++ ":" ++
      field.path)
    propertyPath := field.path
    semanticType := field.inferredType
    confidenceScore := field.confidence
    artifactId := artifact.artifactId
    traceId := trace.endpointTemplate
    packetId := ""
    workerId := artifact.generatedBy
    sourceEpistemicState := sourceState
    replayConfirmed := decide (sourceState = EpistemicState.replayConfirmed)
    provenanceChain := [artifact.artifactId, trace.endpointTemplate]
    authorityWeight := N.round authority 4 }

/-- The claims of one artifact. -/
def claimsOf (hash : String → String) (artifact : SemanticArtifact N) :
    Option (List (SemanticClaim R)) :=
  if artifact.artifactType ≠ "SemanticIRTrace" then some []
  else
    match artifact.payload with
    | .unread => some []
    | .invalid => none
    | .trace trace => trace.fields.mapM fun field => (claimOf N hash artifact trace field).valid? N

def extractClaims (hash : String → String) (artifacts : List (SemanticArtifact N)) :
    Option (List (SemanticClaim R)) :=
  (artifacts.mapM (claimsOf N hash)).map List.flatten

/-! ### Intersection -/

/-- `str` of a set of words without quotes. -/
def showSet (words : List String) : String :=
  "\x7b" ++ ", ".intercalate (words.map fun word => "'" ++ word ++ "'") ++ "\x7d"

section Intersect
variable [DecidableEq R] (order : SetOrder) (hash : String → String)

/-- Of a first claim and the rest. -/
def buildConflictSet (propertyPath : String) (first : SemanticClaim R)
    (rest : List (SemanticClaim R)) (executionId : String) : Option (SemanticConflictSet R) :=
  let residuals := first :: rest
  let types := order.iterate (residuals.map (·.semanticType))
  let maxConf := N.maxOf first.confidenceScore (rest.map (·.confidenceScore))
  let described : ConflictType × String :=
    if 1 < types.length then
      (.typeMismatch, "Conflicting types " ++ showSet types ++ " at path " ++ propertyPath ++
        ". Preserved. Not resolved.")
    else if 1 < (order.iterate (residuals.map (·.authorityWeight))).length then
      (.authorityWeightCollision,
        "Same type but authority-weight divergence at path " ++ propertyPath ++ ".")
    else (.confidenceRegression, "Same type with confidence decay at path " ++ propertyPath ++ ".")
  SemanticConflictSet.valid? N
    { conflictId := hash ("conflict:" ++ executionId ++ ":" ++ propertyPath)
      propertyPath := propertyPath
      conflictingClaimIds := residuals.map (·.claimId)
      conflictType := described.1
      description := described.2
      epistemicState := EpistemicState.contested
      maxConfidence := N.round maxConf 4 }

/-- `authority_weight >= 0.4` -/
def SemanticClaim.accepted (c : SemanticClaim R) : Bool := N.le (N.dec 4 1) c.authorityWeight

/-- An intersection, or a conflict set, or neither; and the rejected claims. -/
def intersect (propertyPath : String) (claims : List (SemanticClaim R)) (executionId : String) :
    Option (Option (SemanticIntersection R) × Option (SemanticConflictSet R) ×
      List (SemanticClaim R)) :=
  let rejected := claims.filter fun c => N.lt c.authorityWeight (N.dec 4 1)
  match claims.filter (SemanticClaim.accepted N) with
  | [] => some (none, none, rejected)
  | [c] =>
    (SemanticIntersection.valid? N
      { intersectionId := hash ("inter:" ++ executionId ++ ":" ++ propertyPath)
        propertyPath := propertyPath
        intersectedType := c.semanticType
        intersectedConfidence := N.round c.confidenceScore 4
        agreementClaimIds := [c.claimId]
        totalAuthoritySum := N.round c.authorityWeight 4
        consensusReplayConfirmed := c.replayConfirmed }).map
      fun inter => (some inter, none, rejected)
  | first :: rest =>
    let valid := first :: rest
    match order.iterate (valid.map (·.semanticType)) with
    | [type] =>
      (SemanticIntersection.valid? N
        { intersectionId := hash ("inter:" ++ executionId ++ ":" ++ propertyPath ++ ":" ++ type)
          propertyPath := propertyPath
          intersectedType := type
          intersectedConfidence :=
            N.round (N.minOf first.confidenceScore (rest.map (·.confidenceScore))) 4
          agreementClaimIds := valid.map (·.claimId)
          totalAuthoritySum := N.round (N.sum (valid.map (·.authorityWeight))) 4
          consensusReplayConfirmed := valid.all (·.replayConfirmed) }).map
        fun inter => (some inter, none, rejected)
    | _ =>
      (buildConflictSet N order hash propertyPath first rest executionId).map
        fun conflict => (none, some conflict, rejected)

/-- What the loop over the paths has gathered. -/
structure Gathered (R : Type) where
  intersections : List (SemanticIntersection R)
  conflictSets : List (SemanticConflictSet R)
  rejectedClaims : List (SemanticClaim R)
  violations : List (Violation R)

variable (bounds : ValidationBounds)

/-- Path by path until a bound is met. -/
def intersectAll (executionId : String) : List (String × List (SemanticClaim R)) → Gathered R →
    Option (Gathered R)
  | [], g => some g
  | (path, pathClaims) :: rest, g =>
    if bounds.maxQuorumIntersections ≤ g.intersections.length ∨
        bounds.maxQuorumConflictSets ≤ g.conflictSets.length then
      some { g with violations := g.violations ++
        [{ violationId := hash ("intersection_overflow:" ++ executionId)
           rule := "QUORUM_INTERSECTION_OVERFLOW"
           workerId := "semantic_quorum"
           rootGoalId := executionId
           severity := .error
           context := [("intersections", .int g.intersections.length),
             ("max_intersections", .int bounds.maxQuorumIntersections),
             ("conflict_sets", .int g.conflictSets.length),
             ("max_conflict_sets", .int bounds.maxQuorumConflictSets)]
           actionTaken := "TRUNCATE" }] }
    else
      (intersect N order hash path pathClaims executionId).bind fun (inter, cs, rejected) =>
        intersectAll executionId rest
          { g with
            intersections := g.intersections ++ inter.toList
            conflictSets := g.conflictSets ++ cs.toList
            rejectedClaims := g.rejectedClaims ++ rejected }

end Intersect

/-! ### Promotion and entropy -/

/-- `min_authority_weight` of the rule from OBSERVED to INFERRED. -/
def minAuthorityWeight : R := N.dec 4 1

/-- What intersections and conflict sets are promoted to. -/
def promote (hash : String → String) (intersections : List (SemanticIntersection R))
    (conflictSets : List (SemanticConflictSet R)) : List (Promotion R) :=
  (intersections.flatMap fun inter =>
    (if N.le (minAuthorityWeight N) inter.totalAuthoritySum then
      [{ promotionId := hash ("prom:" ++ inter.intersectionId)
         propertyPath := inter.propertyPath
         fromState := EpistemicState.observed
         toState := EpistemicState.inferred
         minAuthority := minAuthorityWeight N
         achievedAuthority := inter.totalAuthoritySum
         rule := "OBSERVED → INFERRED via authority_threshold" }]
    else []) ++
    if inter.consensusReplayConfirmed ∧ N.le (N.dec 8 1) inter.totalAuthoritySum then
      [{ promotionId := hash ("prom:replay:" ++ inter.intersectionId)
         propertyPath := inter.propertyPath
         fromState := EpistemicState.inferred
         toState := EpistemicState.replayConfirmed
         minAuthority := N.dec 8 1
         achievedAuthority := inter.totalAuthoritySum
         rule := "INFERRED → REPLAY_CONFIRMED via consensus" }]
    else []) ++
  conflictSets.map fun cs =>
    { promotionId := hash ("prom:reject:" ++ cs.conflictId)
      propertyPath := cs.propertyPath
      fromState := cs.epistemicState
      toState := EpistemicState.contested
      minAuthority := N.dec 0 1
      achievedAuthority := N.dec 0 1
      rule := "CONFLICT → CONTESTED (no promotion allowed)" }

def computeClaimEntropy (claims : List (SemanticClaim R)) : R :=
  if claims = [] then N.ofNat 0
  else
    N.round (N.entropyOf ((groupBy (·.semanticType) claims).map (·.2.length)) claims.length) 6

/-- A claim for each intersection and each conflict set, then the rejected ones. -/
def collectPostQuorumClaims (intersections : List (SemanticIntersection R))
    (conflictSets : List (SemanticConflictSet R)) (rejected : List (SemanticClaim R)) :
    Option (List (SemanticClaim R)) := do
  let agreed ← intersections.mapM fun inter => SemanticClaim.valid? N
    { claimId := inter.intersectionId
      propertyPath := inter.propertyPath
      semanticType := inter.intersectedType
      confidenceScore := inter.intersectedConfidence
      artifactId := "synthetic"
      traceId := inter.intersectionId
      packetId := ""
      workerId := "semantic_quorum"
      sourceEpistemicState := EpistemicState.inferred
      replayConfirmed := inter.consensusReplayConfirmed
      provenanceChain := []
      authorityWeight := inter.totalAuthoritySum }
  let contested ← conflictSets.mapM fun cs => SemanticClaim.valid? N
    { claimId := cs.conflictId
      propertyPath := cs.propertyPath
      semanticType := "CONFLICTED"
      confidenceScore := cs.maxConfidence
      artifactId := "synthetic"
      traceId := cs.conflictId
      packetId := ""
      workerId := "semantic_quorum"
      sourceEpistemicState := EpistemicState.contested
      replayConfirmed := false
      provenanceChain := []
      authorityWeight := N.dec 0 1 }
  some (agreed ++ rejected ++ contested)

/-! ### Execution -/

/-- The claims up to their bound, intersected path by path, and what is left of them. -/
def execute [DecidableEq R] (order : SetOrder) (hash : String → String) (bounds : ValidationBounds)
    (artifacts : List (SemanticArtifact N)) (executionId : String) :
    Option (SemanticQuorumReport R) := do
  let extracted ← extractClaims N hash artifacts
  let overflows : Bool := bounds.maxQuorumClaims < extracted.length
  let violations : List (Violation R) :=
    if overflows then
      [{ violationId := hash ("claim_overflow:" ++ executionId)
         rule := "QUORUM_MAX_CLAIMS_EXCEEDED"
         workerId := "semantic_quorum"
         rootGoalId := executionId
         severity := .critical
         context := [("observed_claims", .int extracted.length),
           ("max_claims", .int bounds.maxQuorumClaims)]
         actionTaken := "TRUNCATE" }]
    else []
  let claims := if overflows then upToBound bounds.maxQuorumClaims extracted else extracted
  let entropyBefore := computeClaimEntropy N claims
  let g ← intersectAll N order hash bounds executionId (groupBy (·.propertyPath) claims)
    ⟨[], [], [], violations⟩
  let promotions := promote N hash g.intersections g.conflictSets
  let remaining ← collectPostQuorumClaims N g.intersections g.conflictSets g.rejectedClaims
  let entropyAfter := computeClaimEntropy N remaining
  let entropyDelta := N.sub entropyAfter entropyBefore
  let violations := g.violations ++
    if N.lt (N.add entropyBefore (N.dec 1 3)) entropyAfter then
      [{ violationId := hash ("entropy_reg:" ++ executionId)
         rule := "SEMANTIC_ENTROPY_REGRESSION"
         workerId := "semantic_quorum"
         rootGoalId := executionId
         severity := .error
         context := [("entropy_before", .float (N.round entropyBefore 6)),
           ("entropy_after", .float (N.round entropyAfter 6)),
           ("entropy_delta", .float (N.round entropyDelta 6))]
         actionTaken := "HALT" }]
    else []
  SemanticQuorumReport.valid? N
    { reportId := hash ("quorum:" ++ executionId)
      executionId := executionId
      claims := claims
      intersections := g.intersections
      conflictSets := g.conflictSets
      rejectedClaims := g.rejectedClaims
      promotions := promotions
      entropyBefore := N.round entropyBefore 6
      entropyAfter := N.round entropyAfter 6
      entropyDelta := N.round entropyDelta 6
      violations := violations
      quorumReached := !g.intersections.isEmpty && violations.isEmpty
      maxDepthHit := decide (4 ≤ promotions.length)
      boundedTruncated := decide ((claims.length : Int) = bounds.maxQuorumClaims) ||
        decide ((g.intersections.length : Int) = bounds.maxQuorumIntersections) }

/-! ### What a quorum is to do -/

/-- All the claims of artifacts none of whose payloads is invalid. -/
def extracted (hash : String → String) (artifacts : List (SemanticArtifact N)) :
    List (SemanticClaim R) :=
  artifacts.flatMap fun artifact =>
    if artifact.artifactType ≠ "SemanticIRTrace" then []
    else
      match artifact.payload with
      | .trace trace => trace.fields.map (claimOf N hash artifact trace)
      | _ => []

/-- Where ids are filed: the intersections, the conflict sets and the rejected claims. -/
def containers (report : SemanticQuorumReport R) : List (List String) :=
  report.intersections.map (·.agreementClaimIds) ++
    report.conflictSets.map (·.conflictingClaimIds) ++ [report.rejectedClaims.map (·.claimId)]

/-- No claim is lost. -/
structure Files (claims : List (SemanticClaim R)) (report : SemanticQuorumReport R) : Prop where
  once : ∀ c ∈ claims, ((containers report).countP fun ids => c.claimId ∈ ids) = 1
  apart : ∀ inter ∈ report.intersections, ∀ cs ∈ report.conflictSets,
    inter.propertyPath ≠ cs.propertyPath
  contested : ∀ c ∈ claims, ∀ c' ∈ claims, c.propertyPath = c'.propertyPath →
    c.accepted N = true → c'.accepted N = true → c.semanticType ≠ c'.semanticType →
    ∃ cs ∈ report.conflictSets, cs.propertyPath = c.propertyPath

section Condition
variable (claims : List (SemanticClaim R))

/-- The accepted of some claims name one type. -/
def agreed : Bool :=
  match claims.filter (SemanticClaim.accepted N) with
  | [] => false
  | c :: rest => rest.all fun c' => c'.semanticType = c.semanticType

/-- They name two. -/
def contested : Bool :=
  match claims.filter (SemanticClaim.accepted N) with
  | [] => false
  | c :: rest => rest.any fun c' => c'.semanticType ≠ c.semanticType

/-- The sum of their weights, as an intersection has it. -/
def authoritySum : R :=
  match claims.filter (SemanticClaim.accepted N) with
  | [c] => N.round c.authorityWeight 4
  | valid => N.round (N.sum (valid.map (·.authorityWeight))) 4

variable (bounds : ValidationBounds)

/-- Of the paths before it, fewer than the bounds are agreed on or contested. -/
def HasTurn (group : String × List (SemanticClaim R)) : Prop :=
  ∃ before behind, groupBy (·.propertyPath) claims = before ++ group :: behind ∧
    ((before.countP fun g => agreed N g.2 : Nat) : Int) < bounds.maxQuorumIntersections ∧
    ((before.countP fun g => contested N g.2 : Nat) : Int) < bounds.maxQuorumConflictSets

/-- Where a claim is filed: under its path, or among the rejected. -/
def SemanticClaim.place (c : SemanticClaim R) : Option String :=
  if c.accepted N then some c.propertyPath else none

/-- Weights of an agreement do not sum to more than one; a contested path has its turn; and
the claims of an id, on the paths that have their turn, go to one place. -/
structure Fits : Prop where
  sums : ∀ group, HasTurn N claims bounds group → agreed N group.2 = true →
    N.InUnit (authoritySum N group.2)
  turns : ∀ group ∈ groupBy (·.propertyPath) claims, contested N group.2 = true →
    HasTurn N claims bounds group
  places : ∀ c ∈ claims, ∃! place, ∃ group, HasTurn N claims bounds group ∧
    ∃ c' ∈ group.2, c'.claimId = c.claimId ∧ c'.place N = place

end Condition

/-! ### Extraction -/

/-- What every claim of a trace meets. -/
structure Sound (c : SemanticClaim R) : Prop where
  confidence : N.InUnit c.confidenceScore
  weight : N.InUnit c.authorityWeight
  number : N.isNumber c.authorityWeight = true

section Extraction
variable {N} {hash : String → String} {artifact : SemanticArtifact N} {trace : SemanticIRTrace N}

theorem computeAuthority_unit (sourceState : String) (field : SemanticField N) :
    N.InUnit (computeAuthority N sourceState field) ∧
      N.isNumber (computeAuthority N sourceState field) = true := by
  have hbase : ∃ n, n ≤ 10 ∧ computeAuthority N sourceState field =
      N.round (if N.lt field.confidence (N.dec 5 1) then N.mul (N.dec n 1) (N.dec 5 1)
        else N.dec n 1) 4 := by
    simp only [computeAuthority]
    split_ifs
    all_goals exact ⟨_, by decide, rfl⟩
  obtain ⟨n, hn, heq⟩ := hbase
  have hunit : N.InUnit (N.dec n 1) := Floats.inUnit_dec (by simpa using hn)
  have hhalf : N.InUnit (N.dec 5 1) := Floats.inUnit_dec (by decide)
  rw [heq]
  split
  · exact ⟨(hunit.mul hhalf).round 4, N.number_round _ _ (N.number_mul _ _ _ _)⟩
  · exact ⟨hunit.round 4, N.number_round _ _ (N.number_dec _ _)⟩

theorem sound_claimOf (field : SemanticField N) :
    Sound N (claimOf N hash artifact trace field) where
  confidence := field.bounded
  weight := (computeAuthority_unit _ field).1.round 4
  number := N.number_round _ _ (computeAuthority_unit _ field).2

theorem Sound.valid? {c : SemanticClaim R} (h : Sound N c) : c.valid? N = some c :=
  if_pos ⟨h.confidence, h.weight⟩

theorem extractClaims_eq {artifacts : List (SemanticArtifact N)}
    (h : ∀ artifact ∈ artifacts, artifact.payload ≠ .invalid) :
    extractClaims N hash artifacts = some (extracted N hash artifacts) := by
  have hone : ∀ artifact ∈ artifacts, claimsOf N hash artifact = some
      (if artifact.artifactType ≠ "SemanticIRTrace" then []
        else
          match artifact.payload with
          | .trace trace => trace.fields.map (claimOf N hash artifact trace)
          | _ => []) := by
    intro artifact hartifact
    rw [claimsOf]
    split
    · rfl
    · cases hpayload : artifact.payload with
      | unread => rfl
      | invalid => exact absurd hpayload (h artifact hartifact)
      | trace trace => exact mapM_eq_map fun field _ => (sound_claimOf field).valid?
  rw [extractClaims, mapM_eq_map hone, Option.map_some, ← List.flatMap_def]
  rfl

theorem sound_extracted (artifacts : List (SemanticArtifact N)) :
    ∀ c ∈ extracted N hash artifacts, Sound N c := by
  intro c hc
  obtain ⟨artifact, -, hc⟩ := List.mem_flatMap.mp hc
  split at hc
  · cases hc
  · split at hc
    · obtain ⟨field, -, rfl⟩ := List.mem_map.mp hc
      exact sound_claimOf field
    · cases hc

end Extraction

/-! ### One path -/

/-- The ids of what is accepted. -/
def acceptedIds (claims : List (SemanticClaim R)) : List String :=
  (claims.filter (·.accepted N)).map (·.claimId)

/-- The intersection of a path. -/
structure Agrees (group : String × List (SemanticClaim R)) (inter : SemanticIntersection R) :
    Prop where
  path : inter.propertyPath = group.1
  ids : inter.agreementClaimIds = acceptedIds N group.2
  confidence : N.InUnit inter.intersectedConfidence
  sum : inter.totalAuthoritySum = authoritySum N group.2

/-- The conflict set of a path. -/
structure Conflicts (group : String × List (SemanticClaim R)) (cs : SemanticConflictSet R) :
    Prop where
  path : cs.propertyPath = group.1
  ids : cs.conflictingClaimIds = acceptedIds N group.2
  confidence : N.InUnit cs.maxConfidence

def rejectedOf (claims : List (SemanticClaim R)) : List (SemanticClaim R) :=
  claims.filter fun c => !c.accepted N

/-- What comes of the claims on a path. -/
structure Filed (group : String × List (SemanticClaim R)) (filed : Option (SemanticIntersection R) ×
    Option (SemanticConflictSet R) × List (SemanticClaim R)) : Prop where
  agreement : List.Forall₂ (Agrees N) ([group].filter fun g => agreed N g.2) filed.1.toList
  conflict : List.Forall₂ (Conflicts N) ([group].filter fun g => contested N g.2) filed.2.1.toList
  rejected : filed.2.2 = rejectedOf N group.2

/-- An intersection when they agree, and a conflict set when they do not. -/
theorem Filed.lengths {group : String × List (SemanticClaim R)}
    {filed : Option (SemanticIntersection R) × Option (SemanticConflictSet R) ×
      List (SemanticClaim R)} (h : Filed N group filed) :
    filed.1.toList.length = (agreed N group.2).toNat ∧
      filed.2.1.toList.length = (contested N group.2).toNat := by
  rw [← h.agreement.length_eq, ← h.conflict.length_eq]
  cases hagreed : agreed N group.2 <;> cases hcontested : contested N group.2 <;>
    simp [hagreed, hcontested]

section Path
variable {N} [DecidableEq R] (order : SetOrder) (hash : String → String) (path executionId : String)
  {claims : List (SemanticClaim R)}

omit [DecidableEq R] in
theorem rejected_eq (h : ∀ c ∈ claims, Sound N c) :
    (claims.filter fun c => N.lt c.authorityWeight (N.dec 4 1)) =
      rejectedOf N claims := by
  refine List.filter_congr fun c hc => ?_
  rw [SemanticClaim.accepted, N.le_eq _ _ (N.number_dec 4 1) (h c hc).number, Bool.not_not]

theorem buildConflictSet_eq {first : SemanticClaim R} {rest : List (SemanticClaim R)}
    (h : ∀ c ∈ first :: rest, Sound N c) :
    ∃ cs, buildConflictSet N order hash path first rest executionId = some cs ∧
      cs.propertyPath = path ∧ cs.conflictingClaimIds = (first :: rest).map (·.claimId) ∧
      N.InUnit cs.maxConfidence := by
  have hmax : N.InUnit (N.maxOf first.confidenceScore (rest.map (·.confidenceScore))) := by
    have hmem := Floats.maxOf_mem (N := N) first.confidenceScore (rest.map (·.confidenceScore))
    rw [← List.map_cons] at hmem
    obtain ⟨c, hc, heq⟩ := List.mem_map.mp hmem
    exact heq ▸ (h c hc).confidence
  exact ⟨_, if_pos (hmax.round 4), rfl, rfl, hmax.round 4⟩

theorem intersect_filed (h : ∀ c ∈ claims, Sound N c) :
    ∃ filed, intersect N order hash path claims executionId = some filed ∧
      Filed N (path, claims) filed := by
  have hvalid : ∀ c ∈ claims.filter (SemanticClaim.accepted N), Sound N c :=
    fun c hc => h c (List.mem_of_mem_filter hc)
  rw [intersect, rejected_eq h]
  rcases hfilter : claims.filter (SemanticClaim.accepted N) with _ | ⟨first, _ | ⟨second, rest⟩⟩
  · have hagreed : agreed N claims = false := by simp [agreed, hfilter]
    have hcontested : contested N claims = false := by simp [contested, hfilter]
    exact ⟨_, rfl, by simp [hagreed], by simp [hcontested], rfl⟩
  · have hfirst := hvalid first (by rw [hfilter]; exact List.mem_cons_self ..)
    have hconfidence := hfirst.confidence.round 4
    refine ⟨_, by
      simp only
      rw [SemanticIntersection.valid?, if_pos ⟨hconfidence, (hfirst.weight.round 4).nonneg⟩]
      rfl, ?_⟩
    have hagreed : agreed N claims = true := by simp [agreed, hfilter]
    have hcontested : contested N claims = false := by simp [contested, hfilter]
    refine ⟨?_, by simp [hcontested], rfl⟩
    simp only [List.filter_cons, hagreed, if_true, List.filter_nil, Option.toList_some]
    exact .cons ⟨rfl, by simp [acceptedIds, hfilter], hconfidence,
      by simp [authoritySum, hfilter]⟩ .nil
  · rw [hfilter] at hvalid
    by_cases hall : ∀ c ∈ second :: rest, c.semanticType = first.semanticType
    · have htypes : order.iterate ((first :: second :: rest).map (·.semanticType)) =
          [first.semanticType] := order.iterate_of_eq fun type htype => by
        obtain ⟨c, hc, rfl⟩ := List.mem_map.mp htype
        exact hall c hc
      have hmin : N.InUnit (N.minOf first.confidenceScore
          ((second :: rest).map (·.confidenceScore))) := by
        have hmem := Floats.minOf_mem (N := N) first.confidenceScore
          ((second :: rest).map (·.confidenceScore))
        rw [← List.map_cons] at hmem
        obtain ⟨c, hc, heq⟩ := List.mem_map.mp hmem
        exact heq ▸ (hvalid c hc).confidence
      have hsum : N.Nonneg (N.sum ((first :: second :: rest).map (·.authorityWeight))) :=
        N.nonneg_sum _ fun x hx => by
          obtain ⟨c, hc, rfl⟩ := List.mem_map.mp hx
          exact (hvalid c hc).weight.nonneg
      refine ⟨_, by
        simp only [htypes]
        rw [SemanticIntersection.valid?, if_pos ⟨hmin.round 4, hsum.round 4⟩]
        rfl, ?_⟩
      have hagreed : agreed N claims = true := by simpa [agreed, hfilter] using hall
      have hcontested : contested N claims = false := by simpa [contested, hfilter] using hall
      refine ⟨?_, by simp [hcontested], rfl⟩
      simp only [List.filter_cons, hagreed, if_true, List.filter_nil, Option.toList_some]
      exact .cons ⟨rfl, by simp [acceptedIds, hfilter], hmin.round 4,
        by simp [authoritySum, hfilter]⟩ .nil
    · obtain ⟨cs, hcs, hpath, hids, hconfidence⟩ :=
        buildConflictSet_eq order hash path executionId hvalid
      have hother : ∃ c ∈ second :: rest, c.semanticType ≠ first.semanticType := by
        simpa only [not_forall, exists_prop] using hall
      obtain ⟨c, hc, hne⟩ := hother
      have hagreed : agreed N claims = false := by
        rw [agreed, hfilter]
        exact List.all_eq_false.mpr ⟨c, hc, by simpa using hne⟩
      have hcontested : contested N claims = true := by
        rw [contested, hfilter]
        exact List.any_eq_true.mpr ⟨c, hc, decide_eq_true hne⟩
      have hfiled : List.Forall₂ (Conflicts N) ([(path, claims)].filter fun g => contested N g.2)
          [cs] := by
        simp only [List.filter_cons, hcontested, if_true, List.filter_nil]
        exact .cons ⟨hpath, hids.trans (by rw [acceptedIds, hfilter]), hconfidence⟩ .nil
      refine ⟨(none, some cs, _), ?_, by simp [hagreed], hfiled, rfl⟩
      -- A set of two types or more is no singleton.
      rcases htypes : order.iterate ((first :: second :: rest).map (·.semanticType)) with
        _ | ⟨type, _ | ⟨type', types⟩⟩
      · simp only [htypes, hcs, Option.map_some, rejectedOf]
      · have hone := order.eq_of_iterate htypes
        have hfirst := hone _ (List.mem_map_of_mem (List.mem_cons_self ..))
        exact absurd ((hone _ (List.mem_map_of_mem (List.mem_cons_of_mem _ hc))).trans
          hfirst.symm) hne
      · simp only [htypes, hcs, Option.map_some, rejectedOf]

end Path

/-! ### One path after another -/

section Loop
variable (bounds : ValidationBounds) {groups : List (String × List (SemanticClaim R))}
  {group : String × List (SemanticClaim R)}

/-- The groups that have their turn, after so many intersections and conflict sets. -/
def turns : Nat → Nat → List (String × List (SemanticClaim R)) →
    List (String × List (SemanticClaim R))
  | _, _, [] => []
  | agreements, conflicts, group :: rest =>
    if bounds.maxQuorumIntersections ≤ agreements ∨ bounds.maxQuorumConflictSets ≤ conflicts then []
    else
      group :: turns (agreements + (agreed N group.2).toNat)
        (conflicts + (contested N group.2).toNat) rest

theorem mem_turns {agreements conflicts : Nat} :
    group ∈ turns N bounds agreements conflicts groups ↔
      ∃ before behind, groups = before ++ group :: behind ∧
        ((agreements + before.countP (fun g => agreed N g.2) : Nat) : Int) <
          bounds.maxQuorumIntersections ∧
        ((conflicts + before.countP (fun g => contested N g.2) : Nat) : Int) <
          bounds.maxQuorumConflictSets := by
  induction groups generalizing agreements conflicts with
  | nil => simp [turns]
  | cons first rest ih =>
    rw [turns]
    split
    · next hfull =>
      refine iff_of_false List.not_mem_nil ?_
      rintro ⟨before, behind, -, hagreements, hconflicts⟩
      omega
    · next hroom =>
      rw [List.mem_cons, ih]
      constructor
      · rintro (rfl | ⟨before, behind, rfl, hagreements, hconflicts⟩)
        · exact ⟨[], rest, rfl, by simp; omega, by simp; omega⟩
        · refine ⟨first :: before, behind, rfl, ?_, ?_⟩
          · rw [List.countP_cons]
            cases hagreed : agreed N first.2 <;> simp [hagreed] at hagreements ⊢ <;> omega
          · rw [List.countP_cons]
            cases hcontested : contested N first.2 <;> simp [hcontested] at hconflicts ⊢ <;> omega
      · rintro ⟨before, behind, heq, hagreements, hconflicts⟩
        cases before with
        | nil => exact .inl (List.cons.inj heq).1.symm
        | cons g before =>
          obtain ⟨rfl, rfl⟩ := List.cons.inj heq
          refine .inr ⟨before, behind, rfl, ?_, ?_⟩
          · rw [List.countP_cons] at hagreements
            cases hagreed : agreed N first.2 <;> simp [hagreed] at hagreements ⊢ <;> omega
          · rw [List.countP_cons] at hconflicts
            cases hcontested : contested N first.2 <;> simp [hcontested] at hconflicts ⊢ <;> omega

theorem hasTurn_iff {claims : List (SemanticClaim R)} :
    HasTurn N claims bounds group ↔
      group ∈ turns N bounds 0 0 (groupBy (·.propertyPath) claims) := by
  rw [mem_turns]
  simp only [Nat.zero_add]
  rfl

variable {N} [DecidableEq R] (order : SetOrder) (hash : String → String) (executionId : String)

/-- What the loop adds. -/
structure Gathers (turned : List (String × List (SemanticClaim R))) (g g' : Gathered R) :
    Prop where
  intersections : ∃ inters, g'.intersections = g.intersections ++ inters ∧
    List.Forall₂ (Agrees N) (turned.filter fun group => agreed N group.2) inters
  conflictSets : ∃ sets, g'.conflictSets = g.conflictSets ++ sets ∧
    List.Forall₂ (Conflicts N) (turned.filter fun group => contested N group.2) sets
  rejectedClaims : g'.rejectedClaims =
    g.rejectedClaims ++ turned.flatMap fun group => rejectedOf N group.2

theorem intersectAll_gathers (h : ∀ group ∈ groups, ∀ c ∈ group.2, Sound N c) (g : Gathered R) :
    ∃ g', intersectAll N order hash bounds executionId groups g = some g' ∧
      Gathers (N := N) (turns N bounds g.intersections.length g.conflictSets.length groups)
        g g' := by
  induction groups generalizing g with
  | nil => exact ⟨g, rfl, ⟨[], by simp, .nil⟩, ⟨[], by simp, .nil⟩, by simp [turns]⟩
  | cons group groups ih =>
    obtain ⟨path, claims⟩ := group
    obtain ⟨hsound, hrest⟩ := List.forall_mem_cons.mp h
    rw [intersectAll, turns]
    split
    · exact ⟨_, rfl, ⟨[], by simp, .nil⟩, ⟨[], by simp, .nil⟩, by simp⟩
    · obtain ⟨filed, hintersect, hfiled⟩ :=
        intersect_filed order hash path executionId hsound
      rw [hintersect, Option.bind_some]
      have hagreement := hfiled.agreement
      have hconflict := hfiled.conflict
      obtain ⟨g', hg', ⟨inters, hinters, hagrees⟩, ⟨sets, hsets, hconflicts⟩, hrejected⟩ := ih hrest
        { g with
          intersections := g.intersections ++ filed.1.toList
          conflictSets := g.conflictSets ++ filed.2.1.toList
          rejectedClaims := g.rejectedClaims ++ filed.2.2 }
      simp only [List.length_append, hfiled.lengths] at hagrees hconflicts hrejected
      refine ⟨g', hg', ⟨filed.1.toList ++ inters, by rw [hinters, List.append_assoc], ?_⟩,
        ⟨filed.2.1.toList ++ sets, by rw [hsets, List.append_assoc], ?_⟩, ?_⟩
      · rw [← List.singleton_append, List.filter_append]
        exact List.rel_append hagreement hagrees
      · rw [← List.singleton_append, List.filter_append]
        exact List.rel_append hconflict hconflicts
      · rw [hrejected, hfiled.rejected, List.flatMap_cons, List.append_assoc]

end Loop

/-! ### The report -/

section Report
variable {N} {bounds : ValidationBounds} {claims : List (SemanticClaim R)}

theorem nonneg_computeClaimEntropy (claims : List (SemanticClaim R)) :
    N.Nonneg (computeClaimEntropy N claims) := by
  rw [computeClaimEntropy]
  split
  · exact N.nonneg_zero
  · refine (Floats.nonneg_entropyOf N fun count hcount => ?_).round 6
    obtain ⟨⟨type, ofType⟩, hgroup, rfl⟩ := List.mem_map.mp hcount
    obtain ⟨htype, rfl⟩ := mem_groupBy.mp hgroup
    obtain ⟨c, hc, rfl⟩ := List.mem_map.mp htype
    exact ⟨List.length_pos_of_mem (List.mem_filter.mpr ⟨hc, by simp⟩), List.length_filter_le ..⟩

/-- The claims after the quorum are there when the sums of the intersections are no more than
a weight. -/
theorem isSome_collectPostQuorumClaims {inters : List (SemanticIntersection R)}
    {sets : List (SemanticConflictSet R)} (rejected : List (SemanticClaim R))
    (hinters : ∀ inter ∈ inters, N.InUnit inter.intersectedConfidence)
    (hsets : ∀ cs ∈ sets, N.InUnit cs.maxConfidence) :
    (collectPostQuorumClaims N inters sets rejected).isSome = true ↔
      ∀ inter ∈ inters, N.InUnit inter.totalAuthoritySum := by
  have hzero : N.InUnit (N.dec 0 1) := Floats.inUnit_dec (by decide)
  have hcontested : ∃ contested, (sets.mapM fun cs => SemanticClaim.valid? N
      ⟨cs.conflictId, cs.propertyPath, "CONFLICTED", cs.maxConfidence, "synthetic", cs.conflictId,
        "", "semantic_quorum", EpistemicState.contested, false, [], N.dec 0 1⟩) =
        some contested :=
    ⟨_, mapM_eq_map fun cs hcs => if_pos ⟨hsets cs hcs, hzero⟩⟩
  obtain ⟨contested, hcontested⟩ := hcontested
  have hagreed : ((inters.mapM fun inter => SemanticClaim.valid? N
      ⟨inter.intersectionId, inter.propertyPath, inter.intersectedType,
        inter.intersectedConfidence, "synthetic", inter.intersectionId, "", "semantic_quorum",
        EpistemicState.inferred, inter.consensusReplayConfirmed, [],
        inter.totalAuthoritySum⟩).isSome = true) ↔
      ∀ inter ∈ inters, N.InUnit inter.totalAuthoritySum := by
    rw [isSome_mapM]
    refine forall₂_congr fun inter hinter => ?_
    simp [SemanticClaim.valid?, hinters inter hinter]
  rw [← hagreed, collectPostQuorumClaims, hcontested]
  cases inters.mapM fun inter => SemanticClaim.valid? N
    ⟨inter.intersectionId, inter.propertyPath, inter.intersectedType,
      inter.intersectedConfidence, "synthetic", inter.intersectionId, "", "semantic_quorum",
      EpistemicState.inferred, inter.consensusReplayConfirmed, [],
      inter.totalAuthoritySum⟩ <;> rfl

variable [DecidableEq R] (order : SetOrder) (hash : String → String) (executionId : String)

/-- A quorum over claims within the bound: the report is there when every sum of an agreement
is no more than a weight, and it holds what the loop has gathered. -/
theorem execute_cases {artifacts : List (SemanticArtifact N)}
    (hclaims : extractClaims N hash artifacts = some claims)
    (hsound : ∀ c ∈ claims, Sound N c) (hbound : (claims.length : Int) ≤ bounds.maxQuorumClaims) :
    ∃ g, Gathers (N := N) (turns N bounds 0 0 (groupBy (·.propertyPath) claims))
        ⟨[], [], [], []⟩ g ∧
      ((execute N order hash bounds artifacts executionId).isSome = true ↔
        ∀ inter ∈ g.intersections, N.InUnit inter.totalAuthoritySum) ∧
      ∀ report, execute N order hash bounds artifacts executionId = some report →
        report.intersections = g.intersections ∧ report.conflictSets = g.conflictSets ∧
          report.rejectedClaims = g.rejectedClaims := by
  have hgroups : ∀ group ∈ groupBy (·.propertyPath) claims, ∀ c ∈ group.2, Sound N c := by
    rintro ⟨path, onPath⟩ hgroup c hc
    obtain ⟨-, rfl⟩ := mem_groupBy.mp hgroup
    exact hsound c (List.mem_of_mem_filter hc)
  obtain ⟨g, hg, hgathers⟩ := intersectAll_gathers bounds order hash executionId hgroups
    ⟨[], [], [], []⟩
  have hconfidence : (∀ inter ∈ g.intersections, N.InUnit inter.intersectedConfidence) ∧
      ∀ cs ∈ g.conflictSets, N.InUnit cs.maxConfidence := by
    obtain ⟨inters, hinters, hagrees⟩ := hgathers.intersections
    obtain ⟨sets, hsets, hconflicts⟩ := hgathers.conflictSets
    rw [hinters, hsets, List.nil_append, List.nil_append]
    constructor
    · intro inter hinter
      obtain ⟨group, -, h⟩ := exists_left hagrees hinter
      exact h.confidence
    · intro cs hcs
      obtain ⟨group, -, h⟩ := exists_left hconflicts hcs
      exact h.confidence
  have hcollect := isSome_collectPostQuorumClaims g.rejectedClaims hconfidence.1 hconfidence.2
  have hover : decide (bounds.maxQuorumClaims < claims.length) = false :=
    decide_eq_false (not_lt.mpr hbound)
  refine ⟨g, hgathers, ?_, ?_⟩
  · rw [← hcollect, execute]
    simp only [hclaims, hover, hg, Option.bind_eq_bind, Option.bind_some, Bool.false_eq_true,
      if_false]
    cases collectPostQuorumClaims N g.intersections g.conflictSets g.rejectedClaims with
    | none => rfl
    | some remaining =>
      rw [Option.bind_some, SemanticQuorumReport.valid?,
        if_pos ⟨(nonneg_computeClaimEntropy _).round 6, (nonneg_computeClaimEntropy _).round 6⟩]
      rfl
  · intro report hreport
    rw [execute] at hreport
    simp only [hclaims, hover, hg, Option.bind_eq_bind, Option.bind_some, Bool.false_eq_true,
      if_false] at hreport
    cases hpost : collectPostQuorumClaims N g.intersections g.conflictSets g.rejectedClaims with
    | none =>
      rw [hpost] at hreport
      cases hreport
    | some remaining =>
      rw [hpost, Option.bind_some, SemanticQuorumReport.valid?,
        if_pos ⟨(nonneg_computeClaimEntropy _).round 6, (nonneg_computeClaimEntropy _).round 6⟩]
        at hreport
      obtain rfl := Option.some.inj hreport
      exact ⟨rfl, rfl, rfl⟩

end Report

/-! ### Where the ids are -/

/-- One of these keys, or what stands for none of them. -/
theorem existsUnique_option_iff {κ : Type} {keys : List κ} (hnodup : keys.Nodup) (r : Prop)
    [Decidable r] {P : Option κ → Prop} (hsome : ∀ k, P (some k) ↔ k ∈ keys) (hnone : P none ↔ r) :
    (∃! place, P place) ↔ keys.length + (if r then 1 else 0) = 1 := by
  constructor
  · rintro ⟨place, hplace, hunique⟩
    cases place with
    | none =>
      have hnil : keys = [] := List.eq_nil_iff_forall_not_mem.mpr fun k hk => by
        cases hunique (some k) ((hsome k).mpr hk)
      simp [hnil, hnone.mp hplace]
    | some k =>
      have hr : ¬ r := fun hr => by cases hunique none (hnone.mpr hr)
      have hall : ∀ k' ∈ keys, k' = k := fun k' hk' =>
        Option.some.inj (hunique (some k') ((hsome k').mpr hk'))
      have hk := (hsome k).mp hplace
      match keys with
      | [] => cases hk
      | [_] => simp [hr]
      | k₁ :: k₂ :: _ =>
        rw [hall k₁ (by simp), hall k₂ (by simp)] at hnodup
        simp at hnodup
  · intro hlength
    by_cases hr : r
    · rw [if_pos hr] at hlength
      have hnil : keys = [] := List.length_eq_zero_iff.mp (by omega)
      refine ⟨none, hnone.mpr hr, fun place hplace => ?_⟩
      cases place with
      | none => rfl
      | some k =>
        have hk := (hsome k).mp hplace
        rw [hnil] at hk
        cases hk
    · rw [if_neg hr] at hlength
      obtain ⟨k, rfl⟩ := List.length_eq_one_iff.mp (by omega)
      refine ⟨some k, (hsome k).mpr (List.mem_singleton_self k), fun place hplace => ?_⟩
      cases place with
      | none => exact absurd (hnone.mp hplace) hr
      | some k' => rw [List.mem_singleton.mp ((hsome k').mp hplace)]

section Places
variable {N} {claims : List (SemanticClaim R)} {bounds : ValidationBounds}

theorem agreed_or_contested (claims : List (SemanticClaim R)) :
    acceptedIds N claims = [] ∧ agreed N claims = false ∧ contested N claims = false ∨
      contested N claims = !agreed N claims := by
  rw [acceptedIds, agreed, contested]
  cases claims.filter (SemanticClaim.accepted N) with
  | nil => exact .inl ⟨rfl, rfl, rfl⟩
  | cons first rest =>
    refine .inr ?_
    simp [List.not_all_eq_any_not]

/-- An id that is accepted on a path is in its intersection, or in its conflict set. -/
theorem countP_filed (groups : List (String × List (SemanticClaim R))) (id : String) :
    ((groups.filter fun g => agreed N g.2).countP fun g => id ∈ acceptedIds N g.2) +
        ((groups.filter fun g => contested N g.2).countP fun g => id ∈ acceptedIds N g.2) =
      groups.countP fun g => id ∈ acceptedIds N g.2 := by
  induction groups with
  | nil => rfl
  | cons g groups ih =>
    rcases agreed_or_contested (N := N) g.2 with ⟨hnil, hagreed, hcontested⟩ | heq
    · rw [List.filter_cons_of_neg (by simp [hagreed]),
        List.filter_cons_of_neg (by simp [hcontested]), List.countP_cons_of_neg (by simp [hnil]),
        ih]
    · cases hagreed : agreed N g.2 with
      | true =>
        rw [List.filter_cons_of_pos (by simpa using hagreed),
          List.filter_cons_of_neg (by simp [heq, hagreed]), List.countP_cons, List.countP_cons,
          ← ih]
        omega
      | false =>
        rw [List.filter_cons_of_neg (by simp [hagreed]),
          List.filter_cons_of_pos (by simp [heq, hagreed]), List.countP_cons, List.countP_cons,
          ← ih]
        omega

theorem turns_sublist (bounds : ValidationBounds) (agreements conflicts : Nat)
    (groups : List (String × List (SemanticClaim R))) :
    (turns N bounds agreements conflicts groups).Sublist groups := by
  induction groups generalizing agreements conflicts with
  | nil => exact .refl _
  | cons group groups ih =>
    rw [turns]
    split
    · exact List.nil_sublist _
    · exact (ih _ _).cons_cons group

theorem mem_acceptedIds {id : String} : id ∈ acceptedIds N claims ↔
    ∃ c ∈ claims, c.claimId = id ∧ c.accepted N = true := by
  simp only [acceptedIds, List.mem_map, List.mem_filter]
  exact exists_congr fun c => by tauto

/-- Where the claims of an id go. -/
theorem existsUnique_place_iff (id : String) :
    (∃! place, ∃ group, HasTurn N claims bounds group ∧
      ∃ c ∈ group.2, c.claimId = id ∧ c.place N = place) ↔
      ((turns N bounds 0 0 (groupBy (·.propertyPath) claims)).countP fun g =>
          id ∈ acceptedIds N g.2) +
        (if id ∈ ((turns N bounds 0 0 (groupBy (·.propertyPath) claims)).flatMap fun g =>
          rejectedOf N g.2).map (·.claimId) then 1 else 0) = 1 := by
  have hsublist := turns_sublist (N := N) bounds 0 0 (groupBy (·.propertyPath) claims)
  have hpath : ∀ group, HasTurn N claims bounds group → ∀ c ∈ group.2,
      c.propertyPath = group.1 := by
    rintro ⟨path, onPath⟩ hturn c hc
    obtain ⟨-, rfl⟩ := mem_groupBy.mp (hsublist.subset ((hasTurn_iff N bounds).mp hturn))
    simpa using (List.mem_filter.mp hc).2
  have hnodup := (hsublist.map Prod.fst).nodup (nodup_groupBy _ claims)
  set turned := turns N bounds 0 0 (groupBy (·.propertyPath) claims) with hturned
  have hkeys : (((turned.filter fun g => id ∈ acceptedIds N g.2).map Prod.fst)).Nodup :=
    ((List.filter_sublist).map Prod.fst).nodup hnodup
  rw [existsUnique_option_iff hkeys (id ∈ (turned.flatMap fun g => rejectedOf N g.2).map
    (·.claimId)), List.length_map, ← List.countP_eq_length_filter]
  · intro path
    constructor
    · rintro ⟨group, hturn, c, hc, hid, hplace⟩
      rw [SemanticClaim.place] at hplace
      split at hplace
      · next haccepted =>
        obtain rfl := Option.some.inj hplace
        refine List.mem_map.mpr ⟨group, List.mem_filter.mpr ⟨(hasTurn_iff N bounds).mp hturn,
          decide_eq_true (mem_acceptedIds.mpr ⟨c, hc, hid, haccepted⟩)⟩,
          (hpath group hturn c hc).symm⟩
      · cases hplace
    · intro hpaths
      obtain ⟨group, hgroup, rfl⟩ := List.mem_map.mp hpaths
      obtain ⟨hgroup, hid⟩ := List.mem_filter.mp hgroup
      obtain ⟨c, hc, hid, haccepted⟩ := mem_acceptedIds.mp (of_decide_eq_true hid)
      have hturn := (hasTurn_iff N bounds).mpr hgroup
      exact ⟨group, hturn, c, hc, hid, by
        rw [SemanticClaim.place, if_pos haccepted, hpath group hturn c hc]⟩
  · simp only [List.mem_map, List.mem_flatMap, rejectedOf, List.mem_filter]
    constructor
    · rintro ⟨group, hturn, c, hc, hid, hplace⟩
      rw [SemanticClaim.place] at hplace
      split at hplace
      · cases hplace
      · next haccepted =>
        exact ⟨c, ⟨group, (hasTurn_iff N bounds).mp hturn, hc, by simpa using haccepted⟩, hid⟩
    · rintro ⟨c, ⟨group, hgroup, hc, haccepted⟩, hid⟩
      exact ⟨group, (hasTurn_iff N bounds).mpr hgroup, c, hc, hid,
        if_neg (by simpa using haccepted)⟩

end Places

/-! ### The quorum -/

section Quorum
variable {N} {claims : List (SemanticClaim R)} {bounds : ValidationBounds} {g : Gathered R}
  {report : SemanticQuorumReport R}

/-- The claims of a path, by what they say. -/
theorem contested_of_differ {c c' : SemanticClaim R} (hc : c ∈ claims) (hc' : c' ∈ claims)
    (haccepted : c.accepted N = true) (haccepted' : c'.accepted N = true)
    (hne : c.semanticType ≠ c'.semanticType) : contested N claims = true := by
  have hmem := List.mem_filter.mpr ⟨hc, haccepted⟩
  have hmem' := List.mem_filter.mpr ⟨hc', haccepted'⟩
  rw [contested]
  cases hfilter : claims.filter (SemanticClaim.accepted N) with
  | nil =>
    rw [hfilter] at hmem
    cases hmem
  | cons first rest =>
    rw [hfilter] at hmem hmem'
    by_contra hnone
    have hsame : ∀ d ∈ first :: rest, d.semanticType = first.semanticType := by
      refine List.forall_mem_cons.mpr ⟨rfl, fun d hd => ?_⟩
      by_contra hd'
      exact hnone (List.any_eq_true.mpr ⟨d, hd, decide_eq_true hd'⟩)
    exact hne ((hsame c hmem).trans (hsame c' hmem').symm)

theorem differ_of_contested (h : contested N claims = true) :
    ∃ c ∈ claims, ∃ c' ∈ claims, c.accepted N = true ∧ c'.accepted N = true ∧
      c.semanticType ≠ c'.semanticType := by
  rw [contested] at h
  cases hfilter : claims.filter (SemanticClaim.accepted N) with
  | nil =>
    rw [hfilter] at h
    cases h
  | cons first rest =>
    rw [hfilter] at h
    obtain ⟨c, hc, hne⟩ := List.any_eq_true.mp h
    have hfirst := List.mem_filter.mp (hfilter ▸ List.mem_cons_self .. :
      first ∈ claims.filter (SemanticClaim.accepted N))
    have hmem := List.mem_filter.mp (hfilter ▸ List.mem_cons_of_mem _ hc :
      c ∈ claims.filter (SemanticClaim.accepted N))
    exact ⟨c, hmem.1, first, hfirst.1, hmem.2, hfirst.2, of_decide_eq_true hne⟩

/-- A report that holds what the loop has gathered files all claims when the contested paths
have their turn and the claims of an id go to one place. -/
theorem files_iff
    (hgathers : Gathers (N := N) (turns N bounds 0 0 (groupBy (·.propertyPath) claims))
      ⟨[], [], [], []⟩ g)
    (hinters : report.intersections = g.intersections)
    (hsets : report.conflictSets = g.conflictSets)
    (hrejected : report.rejectedClaims = g.rejectedClaims) :
    Files N claims report ↔
      (∀ group ∈ groupBy (·.propertyPath) claims, contested N group.2 = true →
        HasTurn N claims bounds group) ∧
      ∀ c ∈ claims, ∃! place, ∃ group, HasTurn N claims bounds group ∧
        ∃ c' ∈ group.2, c'.claimId = c.claimId ∧ c'.place N = place := by
  obtain ⟨inters, hginters, hagrees⟩ := hgathers.intersections
  obtain ⟨sets, hgsets, hconflicts⟩ := hgathers.conflictSets
  have hgrejected := hgathers.rejectedClaims
  rw [List.nil_append] at hginters hgsets hgrejected
  have hturned : ∀ group ∈ turns N bounds 0 0 (groupBy (·.propertyPath) claims),
      group.1 ∈ claims.map (·.propertyPath) ∧
        group.2 = claims.filter fun c => c.propertyPath = group.1 := fun group hgroup =>
    mem_groupBy.mp ((turns_sublist bounds 0 0 _).subset hgroup)
  have hcount : ∀ c : SemanticClaim R,
      ((containers report).countP fun ids => c.claimId ∈ ids) =
        ((turns N bounds 0 0 (groupBy (·.propertyPath) claims)).countP fun g =>
          c.claimId ∈ acceptedIds N g.2) +
        (if c.claimId ∈ ((turns N bounds 0 0 (groupBy (·.propertyPath) claims)).flatMap fun g =>
          rejectedOf N g.2).map (·.claimId) then 1 else 0) := by
    intro c
    rw [containers, hinters, hsets, hrejected, hginters, hgsets, hgrejected,
      ← map_eq_of_forall₂ hagrees fun _ _ h => h.ids.symm,
      ← map_eq_of_forall₂ hconflicts fun _ _ h => h.ids.symm, List.countP_append,
      List.countP_append, List.countP_map, List.countP_map, ← countP_filed]
    simp only [Function.comp_def, List.countP_singleton, decide_eq_true_eq]
  have hsame : ∀ group ∈ turns N bounds 0 0 (groupBy (·.propertyPath) claims),
      ∀ group' ∈ groupBy (·.propertyPath) claims, group.1 = group'.1 → group = group' := by
    intro group hgroup group' hgroup' hpath
    have hclaims' : group'.2 = claims.filter fun c => c.propertyPath = group'.1 :=
      (mem_groupBy.mp hgroup').2
    exact Prod.ext hpath (by rw [(hturned group hgroup).2, hclaims', hpath])
  constructor
  · intro h
    refine ⟨fun group hgroup hcontested => ?_, fun c hc => ?_⟩
    · obtain ⟨c, hc, c', hc', haccepted, haccepted', hne⟩ := differ_of_contested hcontested
      obtain ⟨-, hclaims⟩ : _ ∧ group.2 = claims.filter fun c => c.propertyPath = group.1 :=
        mem_groupBy.mp hgroup
      rw [hclaims, List.mem_filter, decide_eq_true_eq] at hc hc'
      obtain ⟨cs, hcs, hpath⟩ := h.contested c hc.1 c' hc'.1 (hc.2.trans hc'.2.symm) haccepted
        haccepted' hne
      rw [hsets, hgsets] at hcs
      obtain ⟨turned, hturn, hfiled⟩ := exists_left hconflicts hcs
      have hmem := List.mem_of_mem_filter hturn
      have heq := hsame turned hmem group hgroup (hfiled.path.symm.trans (hpath.trans hc.2))
      exact (hasTurn_iff N bounds).mpr (heq ▸ hmem)
    · exact (existsUnique_place_iff c.claimId).mpr (hcount c ▸ h.once c hc)
  · rintro ⟨hturns, hplaces⟩
    refine ⟨fun c hc => ?_, fun inter hinter cs hcs hpath => ?_, fun c hc c' hc' hpath haccepted
      haccepted' hne => ?_⟩
    · rw [hcount c]
      exact (existsUnique_place_iff c.claimId).mp (hplaces c hc)
    · rw [hinters, hginters] at hinter
      rw [hsets, hgsets] at hcs
      obtain ⟨group, hgroup, hagrees⟩ := exists_left hagrees hinter
      obtain ⟨group', hgroup', hconflict⟩ := exists_left hconflicts hcs
      obtain ⟨hturn, hagreed⟩ := List.mem_filter.mp hgroup
      obtain ⟨hturn', hcontested⟩ := List.mem_filter.mp hgroup'
      have heq := hsame group hturn group' ((turns_sublist bounds 0 0 _).subset hturn')
        (hagrees.path.symm.trans (hpath.trans hconflict.path))
      rcases agreed_or_contested (N := N) group.2 with ⟨-, hnot, -⟩ | hnot
      · rw [hagreed] at hnot
        cases hnot
      · rw [hagreed, heq, hcontested] at hnot
        cases hnot
    · have hgroup : (c.propertyPath, claims.filter fun d => d.propertyPath = c.propertyPath) ∈
          groupBy (·.propertyPath) claims := mem_groupBy.mpr ⟨List.mem_map_of_mem hc, rfl⟩
      have hcontested := contested_of_differ
        (List.mem_filter.mpr ⟨hc, decide_eq_true rfl⟩ :
          c ∈ claims.filter fun d => d.propertyPath = c.propertyPath)
        (List.mem_filter.mpr ⟨hc', decide_eq_true hpath.symm⟩) haccepted haccepted' hne
      have hturn := (hasTurn_iff N bounds).mp (hturns _ hgroup hcontested)
      obtain ⟨cs, hcs, hfiled⟩ :=
        exists_right hconflicts (List.mem_filter.mpr ⟨hturn, hcontested⟩)
      exact ⟨cs, by rw [hsets, hgsets]; exact hcs, hfiled.path⟩

end Quorum

/-- The default bounds. -/
def defaultBounds : ValidationBounds := ⟨512, 256, 128⟩

/-- An inferred artifact of one trace with one field, seen as a text. -/
def inferredText (artifactId path : String) : SemanticArtifact exact where
  artifactId := artifactId
  artifactType := "SemanticIRTrace"
  epistemicState := EpistemicState.inferred
  generatedBy := "SemanticTyperNode"
  payload := .trace ⟨"/users", [⟨path, "STRING", 9 / 10, by decide +kernel⟩]⟩

/-- An observed artifact of one trace, its fields with the types they are seen as. -/
def observed (artifactId : String) (fields : List (String × String)) : SemanticArtifact exact where
  artifactId := artifactId
  artifactType := "SemanticIRTrace"
  epistemicState := EpistemicState.observed
  generatedBy := "SemanticTyperNode"
  payload := .trace ⟨"/users", fields.map fun (path, type) => ⟨path, type, 9 / 10,
    by decide +kernel⟩⟩

/-- Two traces that agree on one path, each at the weight 0.4, and not on the other. -/
def twoTraces : List (SemanticArtifact exact) :=
  [observed "a" [("id", "STRING"), ("age", "STRING")],
    observed "b" [("id", "STRING"), ("age", "INTEGER")]]

end PiPlatform.AgentChain.Quorum
