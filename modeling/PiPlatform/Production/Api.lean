import PiPlatform.Library.UniqueTable
import PiPlatform.Production.Storage

/-! The v1 API over the production store.

Every route but the health and metrics ones goes through `getSecurityContext`: the
header names a tenant that has to be active, the token is decoded, and the tenant of the
context is the token's claim, or the header's tenant where the token has none. What a
request reads of the clock comes with it. The module that decodes tokens is an argument
of the router, as it is in the source.

Next to the tables the state keeps by whose request each row was written. -/
namespace PiPlatform.Production

open Library Library.Json Library.Python EventFabric

variable {F : Type}

/-! ### Requests -/

/-- The claims of a verified token that the routes look at. -/
structure Claims where
  tenantId : Option String
  sub : Option String
  role : Option String
  deriving DecidableEq

/-- The module's `decode`, if it has one: the claims of a token at a time, or it raises. -/
structure AuthModule where
  decode : Option (Int → String → Option Claims)

structure Headers where
  authorization : Option String
  tenantId : Option String
  correlationId : Option String

/-- What a request reads of the clock. -/
structure Clock where
  seconds : Int
  correlationMicros : Int
  idMicros : Int
  createdAt : String
  auditMicros : Int
  auditTimestamp : String
  answeredSeconds : Int
  answeredAt : String

structure SubmitCompositionRequest (F : Type) where
  tenantId : String
  compositionId : String
  nodes : List (PyValue F)
  edges : List (PyValue F)
  userConfirmation : Bool
  metadata : PyValue F

structure SimulationRequest (F : Type) where
  tenantId : String
  compositionId : String
  nodes : List (PyValue F)
  edges : List (PyValue F)

structure SnapshotStoreRequest (F : Type) where
  tenantId : String
  sourceId : String
  snapshotType : String
  data : PyValue F

structure ReplayRequest where
  tenantId : String
  sourceId : String
  snapshotType : String
  targetTimestamp : String

def textItem (key value : String) : Key × PyValue F := (.str (ofString key), .str (ofString value))

def SubmitCompositionRequest.modelDump (req : SubmitCompositionRequest F) : PyValue F :=
  .dict
    [textItem "tenant_id" req.tenantId, textItem "composition_id" req.compositionId,
      (.str (ofString "nodes"), .list req.nodes), (.str (ofString "edges"), .list req.edges),
      (.str (ofString "user_confirmation"), .bool req.userConfirmation),
      (.str (ofString "metadata"), req.metadata)]

def SimulationRequest.modelDump (req : SimulationRequest F) : PyValue F :=
  .dict
    [textItem "tenant_id" req.tenantId, textItem "composition_id" req.compositionId,
      (.str (ofString "nodes"), .list req.nodes), (.str (ofString "edges"), .list req.edges)]

def SnapshotStoreRequest.modelDump (req : SnapshotStoreRequest F) : PyValue F :=
  .dict
    [textItem "tenant_id" req.tenantId, textItem "source_id" req.sourceId,
      textItem "snapshot_type" req.snapshotType, (.str (ofString "data"), req.data)]

def ReplayRequest.modelDump (req : ReplayRequest) : PyValue F :=
  .dict
    [textItem "tenant_id" req.tenantId, textItem "source_id" req.sourceId,
      textItem "snapshot_type" req.snapshotType, textItem "target_timestamp" req.targetTimestamp]

inductive Route (F : Type) where
  | submitComposition (req : SubmitCompositionRequest F)
  | simulateComposition (req : SimulationRequest F)
  | storeSnapshot (req : SnapshotStoreRequest F)
  | getSnapshotChain (tenantId sourceId snapshotType : String)
  | replayReconstruct (req : ReplayRequest)
  | queryAudit (limit offset : Int)

structure Request (F : Type) where
  headers : Headers
  clock : Clock
  route : Route F

inductive Response where
  /-- An `HTTPException` of the route or of its dependency. -/
  | rejected (status : Nat) (detail : String)
  /-- Any other exception. -/
  | serverError
  | submitted (receiptId determinismProof submittedAt : String)
  | simulated (reportId tenantId simulationHash : String)
  | stored (snapshotId artifactHash persistedAt : String)
  | chain (tenantId sourceId snapshotType : String) (chainLength : Nat) (integrityVerified : Bool)
      (errors : List String) (head : Option (Nat × Snapshot))
  | replayed (checkpointId reconstructedAt tenant : String)
  | auditLog (tenantId : String) (total : Nat) (entries : List (Nat × AuditRow))
  deriving DecidableEq

/-! ### The service -/

structure RateWindow where
  tenantId : String
  actorId : String
  windowStart : String
  requestCount : Int
  rejectedCount : Int
  deriving DecidableEq

structure RateLimiter where
  defaultMax : Int
  windowSeconds : Int

/-- The tables, the hashes in the audit logger's memory, and for each row the tenant named in
the token of the request that inserted it. -/
structure Service where
  snapshots : SnapshotsTable
  audit : AuditTable
  rateWindows : Dict String RateWindow
  tenants : Dict String Bool
  lastAuditHash : Dict String String
  snapshotsBy : Nat → Option String
  auditBy : Nat → Option String
  windowsBy : String → Option String

/-- `RateLimiter._window_key` -/
def RateLimiter.windowKey (limiter : RateLimiter) (tenantId actorId : String) (now : Int) :
    String × String :=
  let windowStart := now.fdiv limiter.windowSeconds * limiter.windowSeconds
  (tenantId ++ ":" ++ actorId ++ ":" ++ intString windowStart, intString windowStart)

/-- The window after one more request: the row under the key, whoever's it is. -/
def RateLimiter.counted (limiter : RateLimiter) (windows : Dict String RateWindow)
    (tenantId actorId : String) (now : Int) : RateWindow :=
  let (key, windowStart) := limiter.windowKey tenantId actorId now
  match windows.get? key with
  | some row => { row with requestCount := row.requestCount + 1 }
  | none => ⟨tenantId, actorId, windowStart, 1, 0⟩

/-- Whether the request is allowed, and the window with the rejection if it is not. -/
def RateLimiter.verdict (limiter : RateLimiter) (windows : Dict String RateWindow)
    (tenantId actorId : String) (now : Int) : Bool × RateWindow :=
  let row := limiter.counted windows tenantId actorId now
  if row.requestCount ≤ limiter.defaultMax then (true, row)
  else (false, { row with rejectedCount := row.rejectedCount + 1 })

/-- `TenantRegistry.is_active` -/
def Service.isActive (s : Service) (tenantId : String) : Bool :=
  (s.tenants.get? tenantId).getD false

/-- What `get_security_context` returns. -/
structure Context where
  tenantId : String
  actorId : String
  role : String
  correlationId : String

/-- `str.replace(pattern, "")`; the count is of characters still to drop. -/
def removeAll (pattern : List Char) : Nat → List Char → List Char
  | _, [] => []
  | n + 1, _ :: cs => removeAll pattern n cs
  | 0, c :: cs =>
    if pattern.isPrefixOf (c :: cs) then removeAll pattern (pattern.length - 1) cs
    else c :: removeAll pattern 0 cs

def bearer : List Char := "Bearer ".toList

/-- The claims of the request's token, if it has one that verifies. -/
def AuthModule.claims (auth : AuthModule) (r : Request F) : Option Claims :=
  let authHeader := r.headers.authorization.getD ""
  if bearer.isPrefixOf authHeader.toList then
    match auth.decode with
    | some decode => decode r.clock.seconds (String.ofList (removeAll bearer 0 authHeader.toList))
    | none => some ⟨none, none, none⟩
  else none

/-- The tenant named in the verified claims of the request's token. -/
def AuthModule.namedTenant (auth : AuthModule) (r : Request F) : Option String :=
  (auth.claims r).bind Claims.tenantId

/-- `get_security_context` -/
def getSecurityContext (auth : AuthModule) (s : Service) (r : Request F) :
    Except (Nat × String) Context :=
  let authHeader := r.headers.authorization.getD ""
  let tenantId := r.headers.tenantId.getD ""
  if tenantId = "" then .error (400, "tenant_id_required")
  else if s.isActive tenantId = false then .error (403, "tenant_inactive")
  else if bearer.isPrefixOf authHeader.toList = false then .error (401, "token_required")
  else
    match auth.claims r with
    | none => .error (401, "token_invalid")
    | some claims =>
      .ok {
        tenantId := claims.tenantId.getD tenantId
        actorId := claims.sub.getD "anonymous"
        role := claims.role.getD "api_key"
        correlationId :=
          r.headers.correlationId.getD ("corr-" ++ intString r.clock.correlationMicros) }

/-! ### The routes -/

/-- `json.dumps(v, sort_keys=True, separators=(",", ":"))` -/
def dumpsCompact [FloatCodec F] [SetText F] (v : PyValue F) : Except PyError String :=
  if v.serialisable then dumps .compact v else .error .typeError

section Routes
variable [FloatCodec F] [SetText F] (H : Digest) (limiter : RateLimiter) (named : Option String)

/-- `rate_limiter.check`, for a request whose token names the tenant `named`. -/
def Service.check (s : Service) (ctx : Context) (now : Int) : Bool × Service :=
  let key := (limiter.windowKey ctx.tenantId ctx.actorId now).1
  let (allowed, row) := limiter.verdict s.rateWindows ctx.tenantId ctx.actorId now
  (allowed,
    { s with
      rateWindows := s.rateWindows.set key row
      windowsBy :=
        if s.rateWindows.contains key then s.windowsBy
        else Function.update s.windowsBy key named })

/-- The row that a call of `log` makes, behind the hash in memory. -/
def Service.auditRow (s : Service) (clock : Clock) (call : AuditCall F) :
    Except PyError AuditRow :=
  let prevHash := (s.lastAuditHash.get? call.tenantId).getD ""
  call.row H prevHash (auditIdAt call.tenantId call.actorId clock.auditMicros) clock.auditTimestamp

/-- `audit_logger.log`: nothing where it raises. -/
def Service.log (s : Service) (clock : Clock) (call : AuditCall F) : Option Service :=
  match s.auditRow H clock call with
  | .error _ => none
  | .ok row =>
    (s.audit.insert row).map fun table =>
      { s with
        audit := table
        auditBy := Function.update s.auditBy (s.audit.sequence + 1) named
        lastAuditHash := s.lastAuditHash.set call.tenantId row.auditHash }

/-- `storage_engine.persist` -/
def Service.persist (s : Service) (c : SnapshotColumns) : Option Service :=
  (Production.persist H s.snapshots c).map fun table =>
    { s with
      snapshots := table
      snapshotsBy := Function.update s.snapshotsBy (s.snapshots.sequence + 1) named }

/-- The call of `audit_logger.log` that a route makes. -/
def Context.auditCall (ctx : Context) (action resourceType resourceId : String)
    (requestPayload : PyValue F) (responseSummary : List (Key × PyValue F)) : AuditCall F where
  tenantId := ctx.tenantId
  actorId := ctx.actorId
  actorType := "API"
  action := action
  resourceType := resourceType
  resourceId := resourceId
  requestPayload := requestPayload
  responseSummary := .dict responseSummary
  correlationId := ctx.correlationId
  sessionId := none
  riskAssessment := none

/-- Logs, and answers where that does not raise. -/
def Service.logAndAnswer (s : Service) (clock : Clock) (call : AuditCall F)
    (answer : Service → Response) : Response × Service :=
  match s.log H named clock call with
  | none => (.serverError, s)
  | some s => (answer s, s)

def rateLimited : Response := .rejected 429 "rate_limit_exceeded"

/-- Limit, confirmation and audit, in this order. -/
def submitComposition (s : Service) (clock : Clock) (ctx : Context)
    (req : SubmitCompositionRequest F) : Response × Service :=
  let (allowed, s) := s.check limiter named ctx clock.seconds
  let call := ctx.auditCall "composition:submit" "composition" req.compositionId req.modelDump
  if allowed = false then
    s.logAndAnswer H named clock (call [(.str (ofString "rate_limited"), .bool true)])
      fun _ => rateLimited
  else if req.userConfirmation = false then
    (.rejected 400 "user_confirmation_required", s)
  else
    let receiptId := "rcpt_" ++ req.compositionId ++ "_" ++ intString clock.idMicros
    match (valueJson F).dumps req.modelDump with
    | .error _ => (.serverError, s)
    | .ok text =>
      s.logAndAnswer H named clock (call [textItem "receipt_id" receiptId])
        fun _ => .submitted receiptId (H.hex text) clock.answeredAt

def simulateComposition (s : Service) (clock : Clock) (ctx : Context)
    (req : SimulationRequest F) : Response × Service :=
  let (allowed, s) := s.check limiter named ctx clock.seconds
  if allowed = false then (rateLimited, s)
  else
    let reportId := "sim_" ++ req.compositionId ++ "_" ++ intString clock.idMicros
    match (valueJson F).dumps req.modelDump with
    | .error _ => (.serverError, s)
    | .ok text =>
      s.logAndAnswer H named clock
        (ctx.auditCall "composition:simulate" "composition" req.compositionId req.modelDump
          [textItem "report_id" reportId])
        fun _ => .simulated reportId ctx.tenantId (H.hex text)

def SnapshotStoreRequest.snapshotId (req : SnapshotStoreRequest F) (clock : Clock) : String :=
  "snap_" ++ req.sourceId ++ "_" ++ intString clock.idMicros

/-- The snapshot's columns: every snapshot is the first of its chain. -/
def SnapshotStoreRequest.columns (req : SnapshotStoreRequest F) (clock : Clock)
    (payloadJson : String) : SnapshotColumns where
  snapshotId := req.snapshotId clock
  tenantId := req.tenantId
  sourceId := req.sourceId
  snapshotType := req.snapshotType
  createdAt := clock.createdAt
  sequenceNumber := 1
  payloadHash := H.hex payloadJson
  payloadJson := payloadJson
  previousHash := ""

/-- Limit, row and audit, in this order. -/
def storeSnapshot (s : Service) (clock : Clock) (ctx : Context) (req : SnapshotStoreRequest F) :
    Response × Service :=
  let (allowed, s) := s.check limiter named ctx clock.seconds
  if allowed = false then (rateLimited, s)
  else
    match dumpsCompact req.data with
    | .error _ => (.serverError, s)
    | .ok payloadJson =>
      let columns := req.columns H clock payloadJson
      match s.persist H named columns with
      | none => (.serverError, s)
      | some s =>
        s.logAndAnswer H named clock
          (ctx.auditCall "snapshot:store" "snapshot" columns.snapshotId req.modelDump
            [textItem "snapshot_id" columns.snapshotId])
          fun s =>
            let latest := getLatest s.snapshots.rows req.tenantId req.sourceId req.snapshotType
            .stored columns.snapshotId ((latest.map fun r => r.2.artifactHash).getD "")
              clock.answeredAt

def getSnapshotChain (s : Service) (ctx : Context) (tenantId sourceId snapshotType : String) :
    Response :=
  if ctx.tenantId ≠ tenantId then .rejected 403 "tenant_mismatch"
  else
    let chain := getChain s.snapshots.rows tenantId sourceId snapshotType
    let (ok, errors) := verifyChain H s.snapshots.rows tenantId sourceId snapshotType
    .chain tenantId sourceId snapshotType chain.length ok errors chain.getLast?

def replayReconstruct (s : Service) (clock : Clock) (ctx : Context) (req : ReplayRequest) :
    Response × Service :=
  let (allowed, s) := s.check limiter named ctx clock.seconds
  if allowed = false then (rateLimited, s)
  else
    s.logAndAnswer H named clock
      (ctx.auditCall "replay:view" "snapshot" req.sourceId (req.modelDump (F := F)) [])
      fun _ => .replayed ("cp_" ++ req.sourceId ++ "_" ++ intString clock.answeredSeconds)
        clock.answeredAt req.tenantId

/-- `AuditLogger.query`: the newest first; numbers no INTEGER holds raise. -/
def queryAudit (s : Service) (ctx : Context) (limit offset : Int) : Response :=
  if Storable limit ∧ Storable offset then
    let entries := limitRows limit ((tenantAudit s.audit ctx.tenantId).reverse.drop offset.toNat)
    .auditLog ctx.tenantId entries.length entries
  else .serverError

end Routes

variable [FloatCodec F] [SetText F] (H : Digest) (limiter : RateLimiter) (auth : AuthModule)

/-- A request: its security context, then its route. -/
def Service.handle (s : Service) (r : Request F) : Response × Service :=
  match getSecurityContext auth s r with
  | .error (status, detail) => (.rejected status detail, s)
  | .ok ctx =>
    let named := auth.namedTenant r
    match r.route with
    | .submitComposition req => submitComposition H limiter named s r.clock ctx req
    | .simulateComposition req => simulateComposition H limiter named s r.clock ctx req
    | .storeSnapshot req => storeSnapshot H limiter named s r.clock ctx req
    | .getSnapshotChain tenantId sourceId snapshotType =>
      (getSnapshotChain H s ctx tenantId sourceId snapshotType, s)
    | .replayReconstruct req => replayReconstruct (F := F) H limiter named s r.clock ctx req
    | .queryAudit limit offset => (queryAudit s ctx limit offset, s)

/-! ### What the parts of a route do -/

section Parts
variable {H limiter auth} {named : Option String} {s s' : Service} {clock : Clock} {ctx : Context}

theorem log_spec {call : AuditCall F} (h : s.log H named clock call = some s') :
    ∃ row table, s.auditRow H clock call = .ok row ∧ s.audit.insert row = some table ∧
      s' = { s with
        audit := table
        auditBy := Function.update s.auditBy (s.audit.sequence + 1) named
        lastAuditHash := s.lastAuditHash.set call.tenantId row.auditHash } := by
  unfold Service.log at h
  split at h
  · cases h
  · next row hrow =>
    obtain ⟨table, htable, rfl⟩ := Option.map_eq_some_iff.mp h
    exact ⟨row, table, hrow, htable, rfl⟩

omit [FloatCodec F] [SetText F] in
theorem persist_spec {c : SnapshotColumns} (h : s.persist H named c = some s') :
    ∃ table, s.snapshots.insert ⟨c, H.hex c.text⟩ = some table ∧
      s' = { s with
        snapshots := table
        snapshotsBy := Function.update s.snapshotsBy (s.snapshots.sequence + 1) named } := by
  obtain ⟨table, htable, rfl⟩ := Option.map_eq_some_iff.mp h
  exact ⟨table, htable, rfl⟩

variable (H named) in
theorem logAndAnswer_cases (s : Service) (clock : Clock) (call : AuditCall F)
    (answer : Service → Response) :
    (s.log H named clock call = none ∧
      s.logAndAnswer H named clock call answer = (.serverError, s)) ∨
    ∃ s', s.log H named clock call = some s' ∧
      s.logAndAnswer H named clock call answer = (answer s', s') := by
  unfold Service.logAndAnswer
  cases hlog : s.log H named clock call with
  | none => exact .inl ⟨rfl, rfl⟩
  | some s' => exact .inr ⟨s', rfl, rfl⟩

variable (H limiter named) in
/-- Storing a snapshot fails before the row, or after it, or it goes through. -/
theorem storeSnapshot_cases (s : Service) (clock : Clock) (ctx : Context)
    (req : SnapshotStoreRequest F) :
    (∃ answer, storeSnapshot H limiter named s clock ctx req =
        (answer, (s.check limiter named ctx clock.seconds).2) ∧
      (answer = rateLimited ∨ answer = .serverError)) ∨
    ∃ payloadJson s', (s.check limiter named ctx clock.seconds).1 = true ∧
      (s.check limiter named ctx clock.seconds).2.persist H named
        (req.columns H clock payloadJson) = some s' ∧
      (storeSnapshot H limiter named s clock ctx req = (.serverError, s') ∨
        ∃ s'' snapshotId artifactHash persistedAt,
          s'.log H named clock (ctx.auditCall "snapshot:store" "snapshot" (req.snapshotId clock)
            req.modelDump [textItem "snapshot_id" (req.snapshotId clock)]) = some s'' ∧
          storeSnapshot H limiter named s clock ctx req =
            (.stored snapshotId artifactHash persistedAt, s'')) := by
  unfold storeSnapshot
  cases hcheck : s.check limiter named ctx clock.seconds with
  | mk allowed s1 =>
    cases allowed with
    | false => exact .inl ⟨_, rfl, .inl rfl⟩
    | true =>
      cases hjson : dumpsCompact req.data with
      | error e => exact .inl ⟨_, rfl, .inr rfl⟩
      | ok payloadJson =>
        cases hpersist : s1.persist H named (req.columns H clock payloadJson) with
        | none =>
          refine .inl ⟨_, ?_, .inr rfl⟩
          simp only [hpersist]
          rfl
        | some s' =>
          refine .inr ⟨payloadJson, s', rfl, hpersist, ?_⟩
          simp only [hpersist]
          rcases logAndAnswer_cases H named s' clock
            (ctx.auditCall "snapshot:store" "snapshot" (req.snapshotId clock) req.modelDump
              [textItem "snapshot_id" (req.snapshotId clock)]) _ with
            ⟨-, h⟩ | ⟨s'', hlog, h⟩
          · exact .inl h
          · exact .inr ⟨s'', _, _, _, hlog, h⟩

end Parts

inductive ApiStep (F : Type) where
  | request (r : Request F)
  /-- A tenant is registered, disabled or enabled. -/
  | administer (tenantId : String) (active : Bool)

def Service.step (s : Service) : ApiStep F → Service
  | .request r => (s.handle H limiter auth r).2
  | .administer tenantId active => { s with tenants := s.tenants.set tenantId active }

/-- A service with its tenants and empty tables. -/
def Service.fresh (tenants : Dict String Bool) : Service where
  snapshots := .empty
  audit := .empty
  rateWindows := .empty
  tenants := tenants
  lastAuditHash := .empty
  snapshotsBy := fun _ => none
  auditBy := fun _ => none
  windowsBy := fun _ => none

variable (F) in
def api (tenants : Dict String Bool) : System Service (ApiStep F) where
  initial := .fresh tenants
  step := Service.step H limiter auth

/-! ### A tenant to make requests for -/

def acmeHeaders : Headers where
  authorization := some "Bearer t"
  tenantId := some "acme"
  correlationId := some "corr-1"

def clockAt (micros : Int) : Clock where
  seconds := 60
  correlationMicros := micros
  idMicros := micros
  createdAt := "09:00"
  auditMicros := micros
  auditTimestamp := "09:00"
  answeredSeconds := 60
  answeredAt := "09:00"

def acmeTenants : Dict String Bool := Dict.empty.set "acme" true

/-- A module whose every token is valid and names `acme`. -/
def acmeAuth : AuthModule where
  decode := some fun _ _ => some ⟨some "acme", some "ops", none⟩

def defaultLimiter : RateLimiter := ⟨1000, 60⟩

end PiPlatform.Production
