import PiPlatform.EventFabric.Bus.Reproducible
import PiPlatform.Production.Api

/-! Whether the API keeps tenants apart.

The tenant whose rows a request writes is the one of its context, and for snapshots the
one in its body; the tenant that is checked is the one in a header. So a request may write
for another tenant than its token names, and for a disabled one. And snapshot ids, audit
ids and rate windows are shared by all tenants.

`requests_isolated`: in a run whose requests are all `Confined`, every request writes for
the tenant its token names, which is active, and is answered as if the rows of the other
tenants' requests were not there. Writing and reading are followed separately: what a part
of a route writes is `WritesFor` its tenant, and two services of which one has only a
tenant's rows stay in step (`Sees`). -/
namespace PiPlatform.Production

open Library Library.Json Library.Python EventFabric

variable {F : Type} {H : Digest} {limiter : RateLimiter} {auth : AuthModule}

/-! ### What a part of a route writes -/

/-- Every row was inserted by a request whose token names the row's tenant. -/
structure Owned (s : Service) : Prop where
  snapshots : ∀ r ∈ s.snapshots.rows, s.snapshotsBy r.1 = some r.2.tenantId
  audit : ∀ r ∈ s.audit.rows, s.auditBy r.1 = some r.2.tenantId
  windows : ∀ key row, s.rateWindows.get? key = some row → s.windowsBy key = some row.tenantId

/-- The second service has grown from the first by rows of one tenant. -/
structure WritesFor (tenantId : String) (s s' : Service) : Prop where
  snapshots : ∀ r ∈ s'.snapshots.rows, r ∉ s.snapshots.rows → r.2.tenantId = tenantId
  audit : ∀ r ∈ s'.audit.rows, r ∉ s.audit.rows → r.2.tenantId = tenantId
  owned : Owned s → Owned s'

/-- The window under the key stays whose it is, and a new one is the tenant's. -/
theorem verdict_tenant (limiter : RateLimiter) (windows : Dict String RateWindow)
    (tenantId actorId : String) (now : Int) :
    (limiter.verdict windows tenantId actorId now).2.tenantId =
      ((windows.get? (limiter.windowKey tenantId actorId now).1).map RateWindow.tenantId).getD
        tenantId := by
  have hcounted : (limiter.counted windows tenantId actorId now).tenantId =
      ((windows.get? (limiter.windowKey tenantId actorId now).1).map RateWindow.tenantId).getD
        tenantId := by
    unfold RateLimiter.counted
    simp only
    cases windows.get? (limiter.windowKey tenantId actorId now).1 <;> rfl
  rw [← hcounted, RateLimiter.verdict]
  split <;> rfl

theorem check_allowed (limiter : RateLimiter) (named : Option String) (s : Service) (ctx : Context)
    (now : Int) :
    (s.check limiter named ctx now).1 =
      (limiter.verdict s.rateWindows ctx.tenantId ctx.actorId now).1 := rfl

theorem check_windows (limiter : RateLimiter) (named : Option String) (s : Service) (ctx : Context)
    (now : Int) :
    (s.check limiter named ctx now).2.rateWindows =
      s.rateWindows.set (limiter.windowKey ctx.tenantId ctx.actorId now).1
        (limiter.verdict s.rateWindows ctx.tenantId ctx.actorId now).2 := rfl

namespace WritesFor
variable {tenantId : String} {s s' s'' : Service} {ctx : Context}

theorem refl (tenantId : String) (s : Service) : WritesFor tenantId s s :=
  ⟨fun _ hr hnot => absurd hr hnot, fun _ hr hnot => absurd hr hnot, id⟩

theorem trans (h : WritesFor tenantId s s') (h' : WritesFor tenantId s' s'') :
    WritesFor tenantId s s'' where
  snapshots r hr hnot := by
    by_cases hmid : r ∈ s'.snapshots.rows
    · exact h.snapshots r hmid hnot
    · exact h'.snapshots r hr hmid
  audit r hr hnot := by
    by_cases hmid : r ∈ s'.audit.rows
    · exact h.audit r hmid hnot
    · exact h'.audit r hr hmid
  owned := h'.owned ∘ h.owned

/-- The window stays with whose it was, and a new one is the tenant's. -/
theorem check (limiter : RateLimiter) (s : Service) (ctx : Context) (now : Int) :
    WritesFor ctx.tenantId s (s.check limiter (some ctx.tenantId) ctx now).2 where
  snapshots r hr hnot := absurd hr hnot
  audit r hr hnot := absurd hr hnot
  owned h := by
    refine ⟨h.snapshots, h.audit, fun key row hrow => ?_⟩
    have htenant := verdict_tenant limiter s.rateWindows ctx.tenantId ctx.actorId now
    rw [check_windows, Dict.get?_set] at hrow
    show (if s.rateWindows.contains _ then s.windowsBy else Function.update s.windowsBy _ _) key = _
    by_cases hkey : (limiter.windowKey ctx.tenantId ctx.actorId now).1 = key
    · rw [if_pos hkey] at hrow
      obtain rfl := Option.some.inj hrow
      rw [hkey] at htenant ⊢
      cases hold : s.rateWindows.get? key with
      | some old =>
        rw [Dict.contains, hold, Option.isSome_some, if_pos rfl, h.windows key old hold, htenant,
          hold]
        rfl
      | none =>
        rw [Dict.contains, hold, Option.isSome_none, if_neg (by simp), Function.update_self,
          htenant, hold]
        rfl
    · rw [if_neg hkey] at hrow
      have hold := h.windows key row hrow
      split
      · exact hold
      · rwa [Function.update_of_ne (Ne.symm hkey)]

theorem persist {c : SnapshotColumns} (hc : c.tenantId = tenantId)
    (h : s.persist H (some tenantId) c = some s') : WritesFor tenantId s s' := by
  obtain ⟨table, hinsert, rfl⟩ := persist_spec h
  obtain ⟨hrows, -, -⟩ := AutoTable.rows_insert hinsert
  refine ⟨fun r hr hnot => ?_, fun r hr hnot => absurd hr hnot, fun howned => ⟨?_, howned.audit,
    howned.windows⟩⟩
  · rw [hrows] at hr
    rcases List.mem_append.mp hr with hr | hr
    · exact absurd hr hnot
    · rw [List.mem_singleton.mp hr]
      exact hc
  · intro r hr
    rw [hrows] at hr
    rcases List.mem_append.mp hr with hr | hr
    · have hle := s.snapshots.bounded r hr
      show Function.update s.snapshotsBy (s.snapshots.sequence + 1) (some tenantId) r.1 = _
      rw [Function.update_of_ne (by omega)]
      exact howned.snapshots r hr
    · rw [List.mem_singleton.mp hr]
      show Function.update s.snapshotsBy (s.snapshots.sequence + 1) (some tenantId) _ = _
      rw [Function.update_self]
      exact congrArg some hc.symm

variable [FloatCodec F] [SetText F]

theorem log {clock : Clock} {call : AuditCall F} (hcall : call.tenantId = tenantId)
    (h : s.log H (some tenantId) clock call = some s') : WritesFor tenantId s s' := by
  obtain ⟨row, table, hrow, hinsert, rfl⟩ := log_spec h
  obtain ⟨-, htenant, -⟩ := AuditCall.row_spec hrow
  obtain ⟨hrows, -, -⟩ := AutoTable.rows_insert hinsert
  refine ⟨fun r hr hnot => absurd hr hnot, fun r hr hnot => ?_, fun howned => ⟨howned.snapshots,
    ?_, howned.windows⟩⟩
  · rw [hrows] at hr
    rcases List.mem_append.mp hr with hr | hr
    · exact absurd hr hnot
    · rw [List.mem_singleton.mp hr]
      exact htenant.trans hcall
  · intro r hr
    rw [hrows] at hr
    rcases List.mem_append.mp hr with hr | hr
    · have hle := s.audit.bounded r hr
      show Function.update s.auditBy (s.audit.sequence + 1) (some tenantId) r.1 = _
      rw [Function.update_of_ne (by omega)]
      exact howned.audit r hr
    · rw [List.mem_singleton.mp hr]
      show Function.update s.auditBy (s.audit.sequence + 1) (some tenantId) _ = _
      rw [Function.update_self]
      exact congrArg some (htenant.trans hcall).symm

theorem logAndAnswer (s : Service) (clock : Clock) (ctx : Context)
    {action resourceType resourceId : String} {requestPayload : PyValue F}
    {responseSummary : List (Key × PyValue F)} (answer : Service → Response) :
    WritesFor ctx.tenantId s (s.logAndAnswer H (some ctx.tenantId) clock
      (ctx.auditCall action resourceType resourceId requestPayload responseSummary) answer).2 := by
  rcases logAndAnswer_cases H (some ctx.tenantId) s clock
    (ctx.auditCall action resourceType resourceId requestPayload responseSummary) answer with
    ⟨-, heq⟩ | ⟨s', hlog, heq⟩
  · rw [heq]
    exact refl ctx.tenantId s
  · rw [heq]
    exact log rfl hlog

end WritesFor

/-! ### What a tenant sees -/

/-- The second service has the first one's rows of one tenant, and all else. -/
structure Sees (tenantId : String) (s t : Service) : Prop where
  snapshots : t.snapshots = s.snapshots.keep fun r => r.2.tenantId = tenantId
  audit : t.audit = s.audit.keep fun r => r.2.tenantId = tenantId
  windows : ∀ key, t.rateWindows.get? key =
    (s.rateWindows.get? key).filter fun row => row.tenantId = tenantId
  tenants : t.tenants = s.tenants
  memory : t.lastAuditHash = s.lastAuditHash

/-- The window that a check counts is not another tenant's. -/
def CountsOwn (limiter : RateLimiter) (s : Service) (clock : Clock) (ctx : Context) : Prop :=
  ∀ row, s.rateWindows.get? (limiter.windowKey ctx.tenantId ctx.actorId clock.seconds).1 =
    some row → row.tenantId = ctx.tenantId

/-- The rate limiter's verdict on the next request of a context. -/
def Allowed (limiter : RateLimiter) (s : Service) (clock : Clock) (ctx : Context) : Bool :=
  (limiter.verdict s.rateWindows ctx.tenantId ctx.actorId clock.seconds).1

/-- The audit id that a call gets is not that of another tenant's row. -/
def LogsOwn (s : Service) (clock : Clock) (ctx : Context) : Prop :=
  ∀ r ∈ s.audit.rows, r.2.auditId = auditIdAt ctx.tenantId ctx.actorId clock.auditMicros →
    r.2.tenantId = ctx.tenantId

theorem LogsOwn.of_audit {s s' : Service} {clock : Clock} {ctx : Context}
    (h : LogsOwn s clock ctx) (haudit : s'.audit = s.audit) : LogsOwn s' clock ctx := by
  rw [LogsOwn, haudit]
  exact h

/-- The snapshot is the tenant's, and its id not that of another tenant's row. -/
def StoresOwn (s : Service) (clock : Clock) (ctx : Context) (req : SnapshotStoreRequest F) : Prop :=
  req.tenantId = ctx.tenantId ∧
    ∀ r ∈ s.snapshots.rows, r.2.snapshotId = req.snapshotId clock → r.2.tenantId = ctx.tenantId

namespace Sees
variable {s t s' t' : Service} {clock : Clock} {ctx : Context} {named : Option String}

/-- Both checks have one verdict. -/
theorem check (h : Sees ctx.tenantId s t) (hcounts : CountsOwn limiter s clock ctx)
    (named : Option String) :
    ∃ s' t', s.check limiter named ctx clock.seconds = (Allowed limiter s clock ctx, s') ∧
      t.check limiter named ctx clock.seconds = (Allowed limiter s clock ctx, t') ∧
      Sees ctx.tenantId s' t' ∧ s'.audit = s.audit ∧ s'.snapshots = s.snapshots := by
  have hget : t.rateWindows.get? (limiter.windowKey ctx.tenantId ctx.actorId clock.seconds).1 =
      s.rateWindows.get? (limiter.windowKey ctx.tenantId ctx.actorId clock.seconds).1 := by
    rw [h.windows]
    cases hrow :
        s.rateWindows.get? (limiter.windowKey ctx.tenantId ctx.actorId clock.seconds).1 with
    | none => rfl
    | some row => simp [hcounts row hrow]
  have hverdict : limiter.verdict t.rateWindows ctx.tenantId ctx.actorId clock.seconds =
      limiter.verdict s.rateWindows ctx.tenantId ctx.actorId clock.seconds := by
    have hcounted : limiter.counted t.rateWindows ctx.tenantId ctx.actorId clock.seconds =
        limiter.counted s.rateWindows ctx.tenantId ctx.actorId clock.seconds := by
      simp only [RateLimiter.counted, hget]
    rw [RateLimiter.verdict, RateLimiter.verdict, hcounted]
  have htenant : (limiter.verdict s.rateWindows ctx.tenantId ctx.actorId clock.seconds).2.tenantId =
      ctx.tenantId := by
    rw [verdict_tenant]
    cases hrow :
        s.rateWindows.get? (limiter.windowKey ctx.tenantId ctx.actorId clock.seconds).1 with
    | none => rfl
    | some row => exact hcounts row hrow
  have hallowed : (t.check limiter named ctx clock.seconds).1 = Allowed limiter s clock ctx := by
    rw [check_allowed, hverdict, Allowed]
  refine ⟨(s.check limiter named ctx clock.seconds).2, (t.check limiter named ctx clock.seconds).2,
    rfl, Prod.ext hallowed rfl, ⟨h.snapshots, h.audit, fun key => ?_, h.tenants, h.memory⟩, rfl,
    rfl⟩
  rw [check_windows, check_windows, hverdict, Dict.get?_set, Dict.get?_set]
  split
  · rw [Option.filter_some, if_pos (by simpa using htenant)]
  · exact h.windows key

theorem persist (h : Sees ctx.tenantId s t) {c : SnapshotColumns} (named : Option String)
    (hc : c.tenantId = ctx.tenantId)
    (hids : ∀ r ∈ s.snapshots.rows, r.2.snapshotId = c.snapshotId → r.2.tenantId = ctx.tenantId) :
    (s.persist H named c = none ∧ t.persist H named c = none) ∨
      ∃ s' t', s.persist H named c = some s' ∧ t.persist H named c = some t' ∧
        Sees ctx.tenantId s' t' := by
  have hinsert : t.snapshots.insert ⟨c, H.hex c.text⟩ =
      (s.snapshots.insert ⟨c, H.hex c.text⟩).map
        (AutoTable.keep fun r => r.2.tenantId = ctx.tenantId) := by
    rw [h.snapshots]
    refine AutoTable.insert_keep (by simpa using hc) fun r hr hkey => ?_
    simpa using hids r hr hkey
  cases htable : s.snapshots.insert ⟨c, H.hex c.text⟩ with
  | none =>
    rw [htable] at hinsert
    refine .inl ⟨?_, ?_⟩
    · rw [Service.persist, Production.persist, htable]
      rfl
    · rw [Service.persist, Production.persist, hinsert]
      rfl
  | some table =>
    rw [htable] at hinsert
    have hs : s.persist H named c = some { s with
        snapshots := table
        snapshotsBy := Function.update s.snapshotsBy (s.snapshots.sequence + 1) named } := by
      rw [Service.persist, Production.persist, htable]
      rfl
    have ht : t.persist H named c = some { t with
        snapshots := table.keep fun r => r.2.tenantId = ctx.tenantId
        snapshotsBy := Function.update t.snapshotsBy (t.snapshots.sequence + 1) named } := by
      rw [Service.persist, Production.persist, hinsert]
      rfl
    exact .inr ⟨_, _, hs, ht, rfl, h.audit, h.windows, h.tenants, h.memory⟩

variable [FloatCodec F] [SetText F]

theorem log (h : Sees ctx.tenantId s t) (hids : LogsOwn s clock ctx) {call : AuditCall F}
    (htenant : call.tenantId = ctx.tenantId) (hactor : call.actorId = ctx.actorId) :
    (s.log H named clock call = none ∧ t.log H named clock call = none) ∨
      ∃ s' t', s.log H named clock call = some s' ∧ t.log H named clock call = some t' ∧
        Sees ctx.tenantId s' t' := by
  have hrow : t.auditRow H clock call = s.auditRow H clock call := by
    rw [Service.auditRow, Service.auditRow, h.memory]
  cases hmade : s.auditRow H clock call with
  | error e =>
    refine .inl ⟨by rw [Service.log, hmade], by rw [Service.log, hrow, hmade]⟩
  | ok row =>
    obtain ⟨hid, hrowTenant, -⟩ := AuditCall.row_spec hmade
    have hinsert : t.audit.insert row = (s.audit.insert row).map
        (AutoTable.keep fun r => r.2.tenantId = ctx.tenantId) := by
      rw [h.audit]
      refine AutoTable.insert_keep (by simpa using hrowTenant.trans htenant) fun r hr hkey => ?_
      rw [hid, htenant, hactor] at hkey
      simpa using hids r hr hkey
    cases htable : s.audit.insert row with
    | none =>
      rw [htable] at hinsert
      refine .inl ⟨?_, ?_⟩
      · simp only [Service.log, hmade, htable]
        rfl
      · simp only [Service.log, hrow, hmade, hinsert]
        rfl
    | some table =>
      rw [htable] at hinsert
      have hs : s.log H named clock call = some { s with
          audit := table
          auditBy := Function.update s.auditBy (s.audit.sequence + 1) named
          lastAuditHash := s.lastAuditHash.set call.tenantId row.auditHash } := by
        simp only [Service.log, hmade, htable]
        rfl
      have ht : t.log H named clock call = some { t with
          audit := table.keep fun r => r.2.tenantId = ctx.tenantId
          auditBy := Function.update t.auditBy (t.audit.sequence + 1) named
          lastAuditHash := t.lastAuditHash.set call.tenantId row.auditHash } := by
        simp only [Service.log, hrow, hmade, hinsert]
        rfl
      refine .inr ⟨_, _, hs, ht, h.snapshots, rfl, h.windows, h.tenants, ?_⟩
      show t.lastAuditHash.set _ _ = s.lastAuditHash.set _ _
      rw [h.memory]

/-- Both log or neither does, so both answer alike where the answers are. -/
theorem logAndAnswer (h : Sees ctx.tenantId s t) (hids : LogsOwn s clock ctx)
    {call : AuditCall F} (htenant : call.tenantId = ctx.tenantId)
    (hactor : call.actorId = ctx.actorId) {answer : Service → Response}
    (hanswer : ∀ s' t', Sees ctx.tenantId s' t' → answer t' = answer s') :
    (t.logAndAnswer H named clock call answer).1 =
      (s.logAndAnswer H named clock call answer).1 := by
  unfold Service.logAndAnswer
  rcases h.log hids htenant hactor with ⟨hs, ht⟩ | ⟨s', t', hs, ht, hsees⟩
  · rw [hs, ht]
  · rw [hs, ht]
    exact hanswer s' t' hsees

end Sees

/-! ### The routes -/

section Routes
variable [FloatCodec F] [SetText F] {s t : Service} {clock : Clock} {ctx : Context}
  {named : Option String}

theorem submitComposition_sees (h : Sees ctx.tenantId s t) (hcounts : CountsOwn limiter s clock ctx)
    (req : SubmitCompositionRequest F)
    (hids : (!Allowed limiter s clock ctx || req.userConfirmation) = true → LogsOwn s clock ctx) :
    (submitComposition H limiter named t clock ctx req).1 =
      (submitComposition H limiter named s clock ctx req).1 := by
  obtain ⟨s', t', hs, ht, hsees, haudit, -⟩ := h.check hcounts named
  simp only [submitComposition, hs, ht]
  cases hallowed : Allowed limiter s clock ctx with
  | false =>
    exact hsees.logAndAnswer ((hids (by rw [hallowed]; rfl)).of_audit haudit) rfl rfl
      fun _ _ _ => rfl
  | true =>
    cases hconfirmed : req.userConfirmation with
    | false => rfl
    | true =>
      cases (valueJson F).dumps req.modelDump with
      | error e => rfl
      | ok text =>
        exact hsees.logAndAnswer ((hids (by rw [hconfirmed, Bool.or_true])).of_audit haudit) rfl rfl
          fun _ _ _ => rfl

theorem simulateComposition_sees (h : Sees ctx.tenantId s t)
    (hcounts : CountsOwn limiter s clock ctx) (req : SimulationRequest F)
    (hids : Allowed limiter s clock ctx = true → LogsOwn s clock ctx) :
    (simulateComposition H limiter named t clock ctx req).1 =
      (simulateComposition H limiter named s clock ctx req).1 := by
  obtain ⟨s', t', hs, ht, hsees, haudit, -⟩ := h.check hcounts named
  simp only [simulateComposition, hs, ht]
  cases hallowed : Allowed limiter s clock ctx with
  | false => rfl
  | true =>
    cases (valueJson F).dumps req.modelDump with
    | error e => rfl
    | ok text =>
      exact hsees.logAndAnswer ((hids hallowed).of_audit haudit) rfl rfl fun _ _ _ => rfl

theorem replayReconstruct_sees (h : Sees ctx.tenantId s t)
    (hcounts : CountsOwn limiter s clock ctx) (req : ReplayRequest)
    (hids : Allowed limiter s clock ctx = true → LogsOwn s clock ctx) :
    (replayReconstruct (F := F) H limiter named t clock ctx req).1 =
      (replayReconstruct (F := F) H limiter named s clock ctx req).1 := by
  obtain ⟨s', t', hs, ht, hsees, haudit, -⟩ := h.check hcounts named
  simp only [replayReconstruct, hs, ht]
  cases hallowed : Allowed limiter s clock ctx with
  | false => rfl
  | true =>
    exact hsees.logAndAnswer ((hids hallowed).of_audit haudit) rfl rfl fun _ _ _ => rfl

omit [FloatCodec F] [SetText F] in
/-- The rows of a source are among those of its tenant. -/
theorem filter_ofSource_keep (table : SnapshotsTable) (tenantId sourceId snapshotType : String) :
    (table.keep fun r => r.2.tenantId = tenantId).rows.filter
        (ofSource tenantId sourceId snapshotType) =
      table.rows.filter (ofSource tenantId sourceId snapshotType) := by
  show (table.rows.filter _).filter _ = _
  rw [List.filter_filter]
  refine List.filter_congr fun r _ => ?_
  rw [ofSource]
  by_cases htenant : r.2.tenantId = tenantId <;> simp [htenant]

theorem storeSnapshot_sees (h : Sees ctx.tenantId s t) (hcounts : CountsOwn limiter s clock ctx)
    (req : SnapshotStoreRequest F)
    (hids : Allowed limiter s clock ctx = true → LogsOwn s clock ctx ∧ StoresOwn s clock ctx req) :
    (storeSnapshot H limiter named t clock ctx req).1 =
      (storeSnapshot H limiter named s clock ctx req).1 := by
  obtain ⟨s', t', hs, ht, hsees, haudit, hsnapshots⟩ := h.check hcounts named
  simp only [storeSnapshot, hs, ht]
  cases hallowed : Allowed limiter s clock ctx with
  | false => rfl
  | true =>
    obtain ⟨hlogs, htenant, hfree⟩ := hids hallowed
    cases dumpsCompact req.data with
    | error e => rfl
    | ok payloadJson =>
      simp only [Bool.true_eq_false, if_false]
      rcases hsees.persist (H := H) (c := req.columns H clock payloadJson) named htenant
        (by rw [hsnapshots]; exact hfree) with ⟨hp, hp'⟩ | ⟨s'', t'', hp, hp', hsees'⟩
      · rw [hp, hp']
      · rw [hp, hp']
        have hids' : LogsOwn s'' clock ctx := by
          obtain ⟨_, -, rfl⟩ := persist_spec hp
          exact hlogs.of_audit haudit
        refine hsees'.logAndAnswer hids' rfl rfl fun s₃ t₃ hsees₃ => ?_
        rw [getLatest, getLatest, hsees₃.snapshots, htenant, filter_ofSource_keep]

omit [FloatCodec F] [SetText F] in
theorem getSnapshotChain_sees (h : Sees ctx.tenantId s t)
    (tenantId sourceId snapshotType : String) :
    getSnapshotChain H t ctx tenantId sourceId snapshotType =
      getSnapshotChain H s ctx tenantId sourceId snapshotType := by
  unfold getSnapshotChain
  by_cases htenant : ctx.tenantId = tenantId
  · subst htenant
    have hchain : getChain t.snapshots.rows ctx.tenantId sourceId snapshotType =
        getChain s.snapshots.rows ctx.tenantId sourceId snapshotType := by
      rw [getChain, getChain, h.snapshots, filter_ofSource_keep]
    simp only [verifyChain, hchain]
  · rw [if_pos htenant, if_pos htenant]

omit [FloatCodec F] [SetText F] in
theorem queryAudit_sees (h : Sees ctx.tenantId s t) (limit offset : Int) :
    queryAudit t ctx limit offset = queryAudit s ctx limit offset := by
  have hrows : tenantAudit t.audit ctx.tenantId = tenantAudit s.audit ctx.tenantId := by
    rw [h.audit]
    show (s.audit.rows.filter _).filter _ = s.audit.rows.filter _
    rw [List.filter_filter]
    exact List.filter_congr fun r _ => by simp
  rw [queryAudit, queryAudit, hrows]

theorem submitComposition_writes (s : Service) (clock : Clock) (ctx : Context)
    (req : SubmitCompositionRequest F) :
    WritesFor ctx.tenantId s
      (submitComposition H limiter (some ctx.tenantId) s clock ctx req).2 := by
  have hcheck := WritesFor.check limiter s ctx clock.seconds
  unfold submitComposition
  generalize s.check limiter (some ctx.tenantId) ctx clock.seconds = checked at hcheck ⊢
  obtain ⟨allowed, s'⟩ := checked
  cases allowed with
  | false => exact hcheck.trans (WritesFor.logAndAnswer s' clock ctx _)
  | true =>
    cases req.userConfirmation with
    | false => exact hcheck
    | true =>
      cases (valueJson F).dumps req.modelDump with
      | error e => exact hcheck
      | ok text => exact hcheck.trans (WritesFor.logAndAnswer s' clock ctx _)

theorem simulateComposition_writes (s : Service) (clock : Clock) (ctx : Context)
    (req : SimulationRequest F) :
    WritesFor ctx.tenantId s
      (simulateComposition H limiter (some ctx.tenantId) s clock ctx req).2 := by
  have hcheck := WritesFor.check limiter s ctx clock.seconds
  unfold simulateComposition
  generalize s.check limiter (some ctx.tenantId) ctx clock.seconds = checked at hcheck ⊢
  obtain ⟨allowed, s'⟩ := checked
  cases allowed with
  | false => exact hcheck
  | true =>
    cases (valueJson F).dumps req.modelDump with
    | error e => exact hcheck
    | ok text => exact hcheck.trans (WritesFor.logAndAnswer s' clock ctx _)

theorem replayReconstruct_writes (s : Service) (clock : Clock) (ctx : Context)
    (req : ReplayRequest) :
    WritesFor ctx.tenantId s
      (replayReconstruct (F := F) H limiter (some ctx.tenantId) s clock ctx req).2 := by
  have hcheck := WritesFor.check limiter s ctx clock.seconds
  unfold replayReconstruct
  generalize s.check limiter (some ctx.tenantId) ctx clock.seconds = checked at hcheck ⊢
  obtain ⟨allowed, s'⟩ := checked
  cases allowed with
  | false => exact hcheck
  | true => exact hcheck.trans (WritesFor.logAndAnswer s' clock ctx _)

theorem storeSnapshot_writes (s : Service) (clock : Clock) (ctx : Context)
    (req : SnapshotStoreRequest F)
    (hown : Allowed limiter s clock ctx = true → req.tenantId = ctx.tenantId) :
    WritesFor ctx.tenantId s
      (storeSnapshot H limiter (some ctx.tenantId) s clock ctx req).2 := by
  have hcheck := WritesFor.check limiter s ctx clock.seconds
  rcases storeSnapshot_cases H limiter (some ctx.tenantId) s clock ctx req with
    ⟨answer, heq, -⟩ | ⟨payloadJson, s', hallowed, hpersist, heq | ⟨s'', _, _, _, hlog, heq⟩⟩
  · rw [heq]
    exact hcheck
  · rw [heq]
    exact hcheck.trans (WritesFor.persist (hown hallowed) hpersist)
  · rw [heq]
    exact (hcheck.trans (WritesFor.persist (hown hallowed) hpersist)).trans (WritesFor.log rfl hlog)

/-- Whether a route asks the rate limiter at all. -/
def Route.checked : Route F → Bool
  | .getSnapshotChain _ _ _ => false
  | .queryAudit _ _ => false
  | _ => true

/-- Whether a route that is allowed, or is not, goes on to write. -/
def Route.proceeds (allowed : Bool) : Route F → Bool
  | .submitComposition req => !allowed || req.userConfirmation
  | .getSnapshotChain _ _ _ => false
  | .queryAudit _ _ => false
  | _ => allowed

end Routes

/-! ### Requests -/

section Requests
variable [FloatCodec F] [SetText F] {s : Service} {r : Request F} {ctx : Context}

/-- What the request may do in its context: a route that asks the rate limiter has a token
that names the tenant and shares its window with no other tenant, and one that goes on to
write does so for an active tenant, under ids that are no other tenant's. -/
structure Own (limiter : RateLimiter) (auth : AuthModule) (s : Service) (r : Request F)
    (ctx : Context) : Prop where
  named : r.route.checked = true → auth.namedTenant r = some ctx.tenantId
  counts : r.route.checked = true → CountsOwn limiter s r.clock ctx
  active : r.route.proceeds (Allowed limiter s r.clock ctx) = true →
    s.isActive ctx.tenantId = true
  logs : r.route.proceeds (Allowed limiter s r.clock ctx) = true → LogsOwn s r.clock ctx
  stores : ∀ req, r.route = .storeSnapshot req → Allowed limiter s r.clock ctx = true →
    StoresOwn s r.clock ctx req

/-- A step that keeps tenants apart: a request does what it may, if it gets a context. -/
def Confined (limiter : RateLimiter) (auth : AuthModule) (s : Service) : ApiStep F → Prop
  | .administer _ _ => True
  | .request r => ∀ ctx, getSecurityContext auth s r = .ok ctx → Own limiter auth s r ctx

theorem handle_writes (hctx : getSecurityContext auth s r = .ok ctx)
    (hown : Own limiter auth s r ctx) : WritesFor ctx.tenantId s (s.handle H limiter auth r).2 := by
  unfold Service.handle
  rw [hctx]
  have hnamed := hown.named
  have hstores := hown.stores
  obtain ⟨headers, clock, route⟩ := r
  cases route with
  | submitComposition req =>
    rw [hnamed rfl]
    exact submitComposition_writes s clock ctx req
  | simulateComposition req =>
    rw [hnamed rfl]
    exact simulateComposition_writes s clock ctx req
  | storeSnapshot req =>
    rw [hnamed rfl]
    exact storeSnapshot_writes s clock ctx req fun hallowed => (hstores req rfl hallowed).1
  | getSnapshotChain tenantId sourceId snapshotType => exact WritesFor.refl ctx.tenantId s
  | replayReconstruct req =>
    rw [hnamed rfl]
    exact replayReconstruct_writes s clock ctx req
  | queryAudit limit offset => exact WritesFor.refl ctx.tenantId s

/-- A route that does not go on to write leaves the rows alone. -/
theorem handle_idle (hctx : getSecurityContext auth s r = .ok ctx)
    (hidle : r.route.proceeds (Allowed limiter s r.clock ctx) = false) :
    (s.handle H limiter auth r).2.snapshots = s.snapshots ∧
      (s.handle H limiter auth r).2.audit = s.audit := by
  unfold Service.handle
  rw [hctx]
  obtain ⟨headers, clock, route⟩ := r
  have hcheck : ∀ named, s.check limiter named ctx clock.seconds =
      (Allowed limiter s clock ctx, (s.check limiter named ctx clock.seconds).2) := fun _ => rfl
  cases route with
  | submitComposition req =>
    obtain ⟨hallowed, hconfirmed⟩ := Bool.or_eq_false_iff.mp hidle
    have hallowed : Allowed limiter s clock ctx = true := by simpa using hallowed
    simp only [submitComposition]
    rw [hcheck, hallowed, hconfirmed]
    exact ⟨rfl, rfl⟩
  | simulateComposition req =>
    have hallowed : Allowed limiter s clock ctx = false := hidle
    simp only [simulateComposition]
    rw [hcheck, hallowed]
    exact ⟨rfl, rfl⟩
  | storeSnapshot req =>
    have hallowed : Allowed limiter s clock ctx = false := hidle
    simp only [storeSnapshot]
    rw [hcheck, hallowed]
    exact ⟨rfl, rfl⟩
  | getSnapshotChain tenantId sourceId snapshotType => exact ⟨rfl, rfl⟩
  | replayReconstruct req =>
    have hallowed : Allowed limiter s clock ctx = false := hidle
    simp only [replayReconstruct]
    rw [hcheck, hallowed]
    exact ⟨rfl, rfl⟩
  | queryAudit limit offset => exact ⟨rfl, rfl⟩

/-- The service without the rows that requests of other tenants' tokens inserted. -/
def Service.only (s : Service) (tenantId : String) : Service :=
  { s with
    snapshots := s.snapshots.keep fun r => s.snapshotsBy r.1 = some tenantId
    audit := s.audit.keep fun r => s.auditBy r.1 = some tenantId
    rateWindows := s.rateWindows.keep fun key => s.windowsBy key = some tenantId }

omit [FloatCodec F] [SetText F] in
/-- Where rows are written for the tenant of the token, what is left of them is the tenant's. -/
theorem Owned.sees_only (h : Owned s) (tenantId : String) : Sees tenantId s (s.only tenantId) where
  snapshots := by
    refine AutoTable.ext (List.filter_congr fun r hr => ?_) rfl
    simp [h.snapshots r hr]
  audit := by
    refine AutoTable.ext (List.filter_congr fun r hr => ?_) rfl
    simp [h.audit r hr]
  windows key := by
    show (s.rateWindows.keep _).get? key = _
    rw [Dict.get?_keep]
    cases hrow : s.rateWindows.get? key with
    | none => simp
    | some row => simp [h.windows key row hrow, Option.filter_some]
  tenants := rfl
  memory := rfl

omit [FloatCodec F] [SetText F] in
/-- The tenant of the context is the one the token names, if it names one. -/
theorem context_tenant {tenantId : String} (hctx : getSecurityContext auth s r = .ok ctx)
    (hnamed : auth.namedTenant r = some tenantId) : ctx.tenantId = tenantId := by
  unfold getSecurityContext at hctx
  obtain ⟨claims, hclaims, hclaim⟩ := Option.bind_eq_some_iff.mp hnamed
  simp only [hclaims] at hctx
  split at hctx
  · cases hctx
  split at hctx
  · cases hctx
  split at hctx
  · cases hctx
  obtain rfl := Except.ok.inj hctx
  simp [hclaim]

/-- A request is answered alike by two services of which one has only its tenant's rows. -/
theorem handle_sees {t : Service} (hctx : getSecurityContext auth s r = .ok ctx)
    (hctx' : getSecurityContext auth t r = .ok ctx) (hown : Own limiter auth s r ctx)
    (h : Sees ctx.tenantId s t) :
    (t.handle H limiter auth r).1 = (s.handle H limiter auth r).1 := by
  unfold Service.handle
  rw [hctx, hctx']
  have hcounts := hown.counts
  have hlogs := hown.logs
  have hstores := hown.stores
  obtain ⟨headers, clock, route⟩ := r
  cases route with
  | submitComposition req => exact submitComposition_sees h (hcounts rfl) req hlogs
  | simulateComposition req => exact simulateComposition_sees h (hcounts rfl) req hlogs
  | storeSnapshot req =>
    exact storeSnapshot_sees h (hcounts rfl) req fun hallowed =>
      ⟨hlogs hallowed, hstores req rfl hallowed⟩
  | getSnapshotChain tenantId sourceId snapshotType =>
    exact getSnapshotChain_sees h tenantId sourceId snapshotType
  | replayReconstruct req => exact replayReconstruct_sees h (hcounts rfl) req hlogs
  | queryAudit limit offset => exact queryAudit_sees h limit offset

/-- What the API owes for a request. -/
structure IsolatedRequest (H : Digest) (limiter : RateLimiter) (auth : AuthModule) (s : Service)
    (r : Request F) : Prop where
  /-- A row it writes is for the tenant its token names, which is active. -/
  snapshots : (∀ status detail, (s.handle H limiter auth r).1 ≠ .rejected status detail) →
    ∀ row ∈ (s.handle H limiter auth r).2.snapshots.rows, row ∉ s.snapshots.rows →
      auth.namedTenant r = some row.2.tenantId ∧ s.isActive row.2.tenantId = true
  audit : (∀ status detail, (s.handle H limiter auth r).1 ≠ .rejected status detail) →
    ∀ row ∈ (s.handle H limiter auth r).2.audit.rows, row ∉ s.audit.rows →
      auth.namedTenant r = some row.2.tenantId ∧ s.isActive row.2.tenantId = true
  /-- It is answered as if the rows of other tenants' requests were not there. -/
  unchanged : ∀ tenantId, auth.namedTenant r = some tenantId →
    ((s.only tenantId).handle H limiter auth r).1 = (s.handle H limiter auth r).1

def Isolated (H : Digest) (limiter : RateLimiter) (auth : AuthModule) (s : Service) :
    ApiStep F → Prop
  | .administer _ _ => True
  | .request r => IsolatedRequest H limiter auth s r

theorem Owned.step (h : Owned s) {a : ApiStep F} (ha : Confined limiter auth s a) :
    Owned (s.step H limiter auth a) := by
  cases a with
  | administer tenantId active => exact ⟨h.snapshots, h.audit, h.windows⟩
  | request r =>
    show Owned (s.handle H limiter auth r).2
    cases hctx : getSecurityContext auth s r with
    | error refusal =>
      rw [Service.handle, hctx]
      exact h
    | ok ctx => exact (handle_writes hctx (ha ctx hctx)).owned h

omit [FloatCodec F] [SetText F] in
theorem checked_of_proceeds {allowed : Bool} {route : Route F}
    (h : route.proceeds allowed = true) : route.checked = true := by
  cases route with
  | getSnapshotChain tenantId sourceId snapshotType => cases h
  | queryAudit limit offset => cases h
  | _ => rfl

/-- Who writes at all is the tenant of the context, which the token names and is active. -/
theorem written_tenant (hctx : getSecurityContext auth s r = .ok ctx)
    (hown : Own limiter auth s r ctx)
    (hwritten : ¬ ((s.handle H limiter auth r).2.snapshots = s.snapshots ∧
      (s.handle H limiter auth r).2.audit = s.audit)) :
    auth.namedTenant r = some ctx.tenantId ∧ s.isActive ctx.tenantId = true := by
  cases hproceeds : r.route.proceeds (Allowed limiter s r.clock ctx) with
  | false => exact absurd (handle_idle hctx hproceeds) hwritten
  | true => exact ⟨hown.named (checked_of_proceeds hproceeds), hown.active hproceeds⟩

theorem Owned.isolated (h : Owned s) {a : ApiStep F} (ha : Confined limiter auth s a) :
    Isolated H limiter auth s a := by
  cases a with
  | administer tenantId active => trivial
  | request r =>
    cases hctx : getSecurityContext auth s r with
    | error refusal =>
      have hrefused : ∀ t : Service, t.tenants = s.tenants → t.handle H limiter auth r =
          (.rejected refusal.1 refusal.2, t) := by
        intro t ht
        have htctx : getSecurityContext auth t r = .error refusal := by
          rw [← hctx, getSecurityContext, getSecurityContext, Service.isActive, Service.isActive,
            ht]
        rw [Service.handle, htctx]
      refine ⟨fun hnot => ?_, fun hnot => ?_, fun tenantId hnamed => ?_⟩
      · exact absurd (congrArg Prod.fst (hrefused s rfl)) (hnot _ _)
      · exact absurd (congrArg Prod.fst (hrefused s rfl)) (hnot _ _)
      · rw [hrefused s rfl, hrefused (s.only tenantId) rfl]
    | ok ctx =>
      have hown := ha ctx hctx
      have hwrites := handle_writes (H := H) hctx hown
      refine ⟨fun _ row hrow hnew => ?_, fun _ row hrow hnew => ?_, fun tenantId hnamed => ?_⟩
      · rw [hwrites.snapshots row hrow hnew]
        exact written_tenant hctx hown fun hsame => hnew (hsame.1 ▸ hrow)
      · rw [hwrites.audit row hrow hnew]
        exact written_tenant hctx hown fun hsame => hnew (hsame.2 ▸ hrow)
      · obtain rfl := context_tenant hctx hnamed
        exact handle_sees hctx hctx hown (h.sees_only ctx.tenantId)

variable (F H limiter auth) in
/-- **Main theorem.** In a run whose steps are all confined, every request is isolated. -/
theorem requests_isolated (tenants : Dict String Bool) (run : List (ApiStep F))
    (h : (api F H limiter auth tenants).Admits (Confined limiter auth) run) :
    (api F H limiter auth tenants).Admits (Isolated H limiter auth) run := by
  intro before a behind heq
  subst heq
  have howned : Owned ((api F H limiter auth tenants).after before) := by
    refine (api F H limiter auth tenants).invariant_under (Confined limiter auth) Owned
      ⟨List.forall_mem_nil _, List.forall_mem_nil _, fun _ _ h => by cases h⟩
      (fun _ _ ha h => h.step ha) before ?_
    rintro before' a' behind' rfl
    exact h before' a' (behind' ++ a :: behind) (by simp)
  exact howned.isolated (h before a behind rfl)

end Requests

/-! ### A tenant in the body -/

/-- A request of `acme` to store a snapshot for a tenant. -/
def storeFor (tenantId : String) : Request Literal where
  headers := acmeHeaders
  clock := clockAt 1
  route := .storeSnapshot ⟨tenantId, "s", "state", .dict []⟩

theorem stored_for_another_tenant :
    ((api Literal prefixDigest defaultLimiter acmeAuth acmeTenants).after
        [.request (storeFor "globex")]).snapshots.rows.map (fun r => r.2.tenantId) = ["globex"] ∧
      ¬ (api Literal prefixDigest defaultLimiter acmeAuth acmeTenants).Admits
        (Isolated prefixDigest defaultLimiter acmeAuth) [.request (storeFor "globex")] := by
  have htenants : ((api Literal prefixDigest defaultLimiter acmeAuth acmeTenants).after
      [.request (storeFor "globex")]).snapshots.rows.map (fun r => r.2.tenantId) = ["globex"] := by
    decide +kernel
  refine ⟨htenants, fun h => ?_⟩
  have hisolated := (h [] (.request (storeFor "globex")) [] rfl).snapshots
  obtain ⟨row, hrow, htenant⟩ : ∃ row ∈ ((api Literal prefixDigest defaultLimiter acmeAuth
      acmeTenants).after [.request (storeFor "globex")]).snapshots.rows,
      row.2.tenantId = "globex" := by
    rw [← List.mem_map, htenants]
    exact List.mem_singleton_self "globex"
  have hnamed := (hisolated (fun status detail hrejected => by cases hrejected) row hrow
    List.not_mem_nil).1
  rw [htenant] at hnamed
  exact absurd hnamed (by decide)

theorem requests_isolated_acme :
    (api Literal prefixDigest defaultLimiter acmeAuth acmeTenants).Admits
        (Confined defaultLimiter acmeAuth) [.request (storeFor "acme")] ∧
      (api Literal prefixDigest defaultLimiter acmeAuth acmeTenants).Admits
        (Isolated prefixDigest defaultLimiter acmeAuth) [.request (storeFor "acme")] := by
  have hconfined : (api Literal prefixDigest defaultLimiter acmeAuth acmeTenants).Admits
      (Confined defaultLimiter acmeAuth) [.request (storeFor "acme")] := by
    show System.Admits _ _ ([] ++ [_])
    refine (System.admits_snoc _).mpr ⟨fun before a behind h => by simp at h, fun ctx hctx => ?_⟩
    obtain rfl := Except.ok.inj (show Except.ok _ = Except.ok ctx from hctx)
    refine { named := fun _ => rfl, counts := ?_, active := fun _ => rfl, logs := ?_, stores := ?_ }
    · intro _ row hrow
      cases hrow
    · intro _ r hr
      exact absurd hr List.not_mem_nil
    · intro req hreq _
      obtain rfl := Route.storeSnapshot.inj hreq
      exact ⟨rfl, fun r hr => absurd hr List.not_mem_nil⟩
  exact ⟨hconfined, requests_isolated Literal prefixDigest defaultLimiter acmeAuth acmeTenants _
    hconfined⟩

end PiPlatform.Production
