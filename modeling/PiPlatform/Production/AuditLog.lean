import PiPlatform.EventFabric.Bus.Reproducible
import PiPlatform.Production.Storage

/-! The audit log, with any number of loggers and callers.

The last hash of each tenant lives in the memory of an `AuditLogger`, the rows in the
database. A call reads the hash of its logger, inserts, and only then stores the new hash
in that logger: between these steps other calls may insert, on the same logger or on
another, and a logger made after a restart knows no hash.

`audit_chained`: every tenant's rows are one chain in every state of a run whose calls take
turns (`TakesTurns`). A logger made later or a second call at once forks the chain
(`two_first_rows`). -/
namespace PiPlatform.Production

open Library Library.Json Library.Python EventFabric

variable {L P F : Type}

/-- Where a call of `log` is: before its INSERT, or before it stores the hash. -/
inductive LogPhase (L F : Type) where
  | inserting (logger : L) (call : AuditCall F) (prevHash auditId timestamp : String)
  | updating (logger : L) (tenantId auditHash : String)

/-- The database, the memories of the loggers, and the calls on their way. -/
structure AuditWorld (L P F : Type) where
  table : AuditTable
  lastAuditHash : L → String → Option String
  pending : P → Option (LogPhase L F)

inductive LogStep (L P F : Type) where
  /-- A caller enters `log` of a logger and reads its hash. -/
  | read (p : P) (logger : L) (call : AuditCall F) (micros : Int) (timestamp : String)
  | insert (p : P)
  | update (p : P)
  /-- The database stays locked, or the process dies. -/
  | abort (p : P)

section Steps
variable [DecidableEq L] [DecidableEq P] [FloatCodec F] [SetText F] (H : Digest)

namespace AuditWorld
variable (w : AuditWorld L P F)

def read (p : P) (logger : L) (call : AuditCall F) (micros : Int) (timestamp : String) :
    AuditWorld L P F :=
  if (w.pending p).isNone then
    let prevHash := (w.lastAuditHash logger call.tenantId).getD ""
    { w with
      pending := Function.update w.pending p
        (some (.inserting logger call prevHash (auditIdAt call.tenantId call.actorId micros)
          timestamp)) }
  else w

/-- The call raises. -/
def abort (p : P) : AuditWorld L P F := { w with pending := Function.update w.pending p none }

def insert (p : P) : AuditWorld L P F :=
  match w.pending p with
  | some (.inserting logger call prevHash auditId timestamp) =>
    match call.row H prevHash auditId timestamp with
    | .error _ => w.abort p
    | .ok row =>
      match w.table.insert row with
      | none => w.abort p
      | some table =>
        { w with
          table := table
          pending := Function.update w.pending p
            (some (.updating logger call.tenantId row.auditHash)) }
  | _ => w

def update (p : P) : AuditWorld L P F :=
  match w.pending p with
  | some (.updating logger tenantId auditHash) =>
    { w with
      lastAuditHash := Function.update w.lastAuditHash logger
        (Function.update (w.lastAuditHash logger) tenantId (some auditHash))
      pending := Function.update w.pending p none }
  | _ => w

def step : LogStep L P F → AuditWorld L P F
  | .read p logger call micros timestamp => w.read p logger call micros timestamp
  | .insert p => w.insert H p
  | .update p => w.update p
  | .abort p => w.abort p

end AuditWorld

variable (L P F) in
/-- Any callers and loggers on an empty table; no logger knows a hash. -/
def auditLog : System (AuditWorld L P F) (LogStep L P F) where
  initial := ⟨.empty, fun _ _ => none, fun _ => none⟩
  step := AuditWorld.step H

/-! ### One chain for each tenant -/

def auditLinks : Links (Nat × AuditRow) String where
  place := fun r => r.1
  previous := fun r => r.2.previousAuditHash
  digest := fun r => r.2.auditHash

/-- The rows of each tenant, in the order of their ids, are one chain from `""`. -/
def AuditChained (w : AuditWorld L P F) : Prop :=
  ∀ tenantId, auditLinks.Follows "" (tenantAudit w.table tenantId)

/-- The hash of a tenant's last row, `""` where it has none. -/
def lastAuditHash (t : AuditTable) (tenantId : String) : String :=
  auditLinks.lastDigest "" (tenantAudit t tenantId)

namespace LogPhase

def logger : LogPhase L F → L
  | .inserting logger _ _ _ _ => logger
  | .updating logger _ _ => logger

/-- The tenant that a call on its way writes for. -/
def tenant : LogPhase L F → String
  | .inserting _ call _ _ _ => call.tenantId
  | .updating _ tenantId _ => tenantId

/-- The hash that the call has read or has still to store. -/
def hash : LogPhase L F → String
  | .inserting _ _ prevHash _ _ => prevHash
  | .updating _ _ auditHash => auditHash

/-- Whether its row is in the table. -/
def inserted : LogPhase L F → Bool
  | .inserting _ _ _ _ _ => false
  | .updating _ _ _ => true

end LogPhase

section Turns
variable (owner : String → L)

/-- The calls take turns: each tenant is logged through one logger for good, none made
later, by one call at a time, and no call dies with its row inserted and the hash not
stored. -/
def TakesTurns (w : AuditWorld L P F) : LogStep L P F → Prop
  | .read _ logger call _ _ =>
    logger = owner call.tenantId ∧ ∀ q, ∀ phase ∈ w.pending q, phase.tenant ≠ call.tenantId
  | .abort p => ∀ phase ∈ w.pending p, phase.inserted = false
  | _ => True

/-- A tenant's logger remembers the tenant's last row, but for a call that has the new hash
still to store. -/
structure InTurn (w : AuditWorld L P F) : Prop where
  chained : AuditChained w
  alone : ∀ p q phase phase', w.pending p = some phase → w.pending q = some phase' →
    phase.tenant = phase'.tenant → p = q
  sound : ∀ p phase, w.pending p = some phase →
    phase.logger = owner phase.tenant ∧ phase.hash = lastAuditHash w.table phase.tenant
  known : ∀ tenantId, (∀ p phase, w.pending p = some phase → phase.tenant = tenantId →
    phase.inserted = false) →
      (w.lastAuditHash (owner tenantId) tenantId).getD "" = lastAuditHash w.table tenantId

end Turns

variable {H} {pending : P → Option (LogPhase L F)}

omit [DecidableEq L] in
/-- An INSERT step adds the row of a call that stands before its INSERT, or the call
raises, or there is no such call. -/
theorem insert_cases (w : AuditWorld L P F) (p : P) :
    w.insert H p = w ∨ (∃ logger call prevHash auditId timestamp,
      w.pending p = some (.inserting logger call prevHash auditId timestamp) ∧
        w.insert H p = w.abort p) ∨
    ∃ logger call prevHash auditId timestamp row,
      w.pending p = some (.inserting logger call prevHash auditId timestamp) ∧
        call.row H prevHash auditId timestamp = .ok row ∧
        (w.insert H p).table.rows = w.table.rows ++ [(w.table.sequence + 1, row)] ∧
        (w.insert H p).lastAuditHash = w.lastAuditHash ∧
        (w.insert H p).pending = Function.update w.pending p
          (some (.updating logger call.tenantId row.auditHash)) := by
  unfold AuditWorld.insert
  split
  · next logger call prevHash auditId timestamp hpending =>
    cases hrow : call.row H prevHash auditId timestamp with
    | error e => exact .inr (.inl ⟨logger, call, prevHash, auditId, timestamp, hpending, rfl⟩)
    | ok row =>
      cases hinsert : w.table.insert row with
      | none =>
        refine .inr (.inl ⟨logger, call, prevHash, auditId, timestamp, hpending, ?_⟩)
        simp only [hinsert]
      | some table =>
        refine .inr (.inr ⟨logger, call, prevHash, auditId, timestamp, row, hpending, hrow, ?_⟩)
        simp only [hinsert, and_true]
        exact (AutoTable.rows_insert hinsert).1
  · exact .inl rfl

/-- A new row comes behind those of its tenant and leaves the other tenants' alone. -/
theorem tenantAudit_of_rows {t t' : AuditTable} {r : Nat × AuditRow}
    (h : t'.rows = t.rows ++ [r]) (tenantId : String) :
    tenantAudit t' tenantId =
      if r.2.tenantId = tenantId then tenantAudit t tenantId ++ [r]
      else tenantAudit t tenantId := by
  rw [tenantAudit, h, List.filter_append]
  by_cases htenant : r.2.tenantId = tenantId
  · rw [if_pos htenant, List.filter_cons_of_pos (by simpa using htenant)]
    rfl
  · rw [if_neg htenant, List.filter_cons_of_neg (by simpa using htenant), List.filter_nil,
      List.append_nil]
    rfl

theorem lastAuditHash_of_rows {t t' : AuditTable} {r : Nat × AuditRow}
    (h : t'.rows = t.rows ++ [r]) (tenantId : String) :
    lastAuditHash t' tenantId =
      if r.2.tenantId = tenantId then r.2.auditHash else lastAuditHash t tenantId := by
  rw [lastAuditHash, tenantAudit_of_rows h]
  split
  · simp [Links.lastDigest, auditLinks]
  · rfl

omit [DecidableEq L] [FloatCodec F] [SetText F] in
theorem update_eq_some {o : Option (LogPhase L F)} {p q : P}
    {phase : LogPhase L F} (h : Function.update pending p o q = some phase) :
    q = p ∧ o = some phase ∨ q ≠ p ∧ pending q = some phase := by
  by_cases hq : q = p
  · subst hq
    rw [Function.update_self] at h
    exact .inl ⟨rfl, h⟩
  · rw [Function.update_of_ne hq] at h
    exact .inr ⟨hq, h⟩

omit [DecidableEq L] [FloatCodec F] [SetText F] in
/-- Where one call goes on its way for a tenant that no other is for, each tenant still
has one. -/
theorem alone_update {p : P} {new : LogPhase L F}
    (halone : ∀ p q phase phase', pending p = some phase → pending q = some phase' →
      phase.tenant = phase'.tenant → p = q)
    (hnew : ∀ q phase, q ≠ p → pending q = some phase → phase.tenant ≠ new.tenant) (q q' : P)
    (phase phase' : LogPhase L F) (hq : Function.update pending p (some new) q = some phase)
    (hq' : Function.update pending p (some new) q' = some phase')
    (htenant : phase.tenant = phase'.tenant) : q = q' := by
  rcases update_eq_some hq with ⟨heq, hphase⟩ | ⟨hne, hold⟩
  · obtain rfl := Option.some.inj hphase
    rcases update_eq_some hq' with ⟨heq', -⟩ | ⟨hne', hold'⟩
    · exact heq.trans heq'.symm
    · exact absurd htenant.symm (hnew _ _ hne' hold')
  · rcases update_eq_some hq' with ⟨-, hphase⟩ | ⟨-, hold'⟩
    · obtain rfl := Option.some.inj hphase
      exact absurd htenant (hnew _ _ hne hold)
    · exact halone q q' phase phase' hold hold' htenant

namespace InTurn
variable {w : AuditWorld L P F} {owner : String → L}

omit [DecidableEq L] [FloatCodec F] [SetText F] in
/-- A caller reads the hash of the tenant's last row. -/
theorem read (h : InTurn owner w) {p : P} {logger : L} {call : AuditCall F} {micros : Int}
    {timestamp : String} (ha : TakesTurns owner w (.read p logger call micros timestamp)) :
    InTurn owner (w.read p logger call micros timestamp) := by
  obtain ⟨rfl, hquiet⟩ := ha
  unfold AuditWorld.read
  split
  · next hfree =>
    refine ⟨h.chained, alone_update h.alone fun q phase _ hq => hquiet q phase hq, ?_, ?_⟩
    · intro q phase hq
      rcases update_eq_some hq with ⟨-, heq⟩ | ⟨-, hold⟩
      · obtain rfl := Option.some.inj heq
        exact ⟨rfl, h.known _ fun q phase hq htenant => absurd htenant (hquiet q phase hq)⟩
      · exact h.sound q phase hold
    · intro tenantId hnone
      refine h.known tenantId fun q phase hq => hnone q phase ?_
      have hne : q ≠ p := fun heq => by simp [← heq, hq] at hfree
      exact (Function.update_of_ne hne ..).trans hq
  · exact h

omit [DecidableEq L] [FloatCodec F] [SetText F] in
/-- A call that has inserted nothing leaves everything as it is when it raises. -/
theorem abort (h : InTurn owner w) {p : P} (hp : ∀ phase ∈ w.pending p, phase.inserted = false) :
    InTurn owner (w.abort p) := by
  have hold : ∀ {q phase}, (w.abort p).pending q = some phase → w.pending q = some phase := by
    intro q phase hq
    rcases update_eq_some hq with ⟨-, hnone⟩ | ⟨-, hq⟩
    · cases hnone
    · exact hq
  refine ⟨h.chained, fun q q' phase phase' hq hq' => h.alone _ _ _ _ (hold hq) (hold hq'),
    fun q phase hq => h.sound q phase (hold hq), fun tenantId hnone => h.known tenantId ?_⟩
  intro q phase hq htenant
  by_cases heq : q = p
  · exact hp phase (heq ▸ hq)
  · exact hnone q phase ((Function.update_of_ne heq ..).trans hq) htenant

omit [DecidableEq L] in
/-- The new row comes behind the last one of its tenant. -/
theorem insert (h : InTurn owner w) (p : P) : InTurn owner (w.insert H p) := by
  rcases insert_cases (H := H) w p with hsame |
    ⟨logger, call, prevHash, auditId, timestamp, hpending, habort⟩ |
    ⟨logger, call, prevHash, auditId, timestamp, row, hpending, hrow, hrows, hmemory, hphases⟩
  · rwa [hsame]
  · rw [habort]
    refine h.abort fun phase hphase => ?_
    obtain rfl := Option.some.inj (hpending.symm.trans hphase)
    rfl
  · obtain ⟨-, htenant, hprev⟩ := AuditCall.row_spec hrow
    obtain ⟨howner, hlast⟩ := h.sound _ _ hpending
    have hothers : ∀ q phase, q ≠ p → w.pending q = some phase → phase.tenant ≠ call.tenantId :=
      fun q phase hne hq heq => hne (h.alone _ _ _ _ hq hpending heq)
    have hlasts : ∀ tenantId, tenantId ≠ call.tenantId →
        lastAuditHash (w.insert H p).table tenantId = lastAuditHash w.table tenantId :=
      fun tenantId hne => (lastAuditHash_of_rows hrows tenantId).trans
        (if_neg fun heq => hne (heq.symm.trans htenant))
    refine ⟨?_, ?_, ?_, ?_⟩
    · intro tenantId
      rw [tenantAudit_of_rows hrows]
      split
      · next heq =>
        refine Links.follows_snoc.mpr ⟨h.chained tenantId, ?_⟩
        exact hprev.trans (hlast.trans (congrArg _ (htenant.symm.trans heq)))
      · exact h.chained tenantId
    · rw [hphases]
      exact alone_update h.alone hothers
    · intro q phase hq
      rw [hphases] at hq
      rcases update_eq_some hq with ⟨-, heq⟩ | ⟨hne, hold⟩
      · obtain rfl := Option.some.inj heq
        exact ⟨howner, ((lastAuditHash_of_rows hrows _).trans (if_pos htenant)).symm⟩
      · rw [hlasts _ (hothers q phase hne hold)]
        exact h.sound q phase hold
    · intro tenantId hnone
      rw [hphases] at hnone
      have hne : tenantId ≠ call.tenantId := fun heq => Bool.noConfusion
        (hnone p _ (Function.update_self ..) heq.symm :)
      rw [hmemory, hlasts tenantId hne]
      refine h.known tenantId fun q phase hq heq => hnone q phase ?_ heq
      have hqp : q ≠ p := fun hqp => by
        obtain rfl := Option.some.inj (hpending.symm.trans (hqp ▸ hq))
        exact hne heq.symm
      exact (Function.update_of_ne hqp ..).trans hq

omit [FloatCodec F] [SetText F] in
/-- The logger remembers the row that its call has inserted. -/
theorem update (h : InTurn owner w) (p : P) : InTurn owner (w.update p) := by
  unfold AuditWorld.update
  split
  · next logger tenantId auditHash hpending =>
    obtain ⟨howner, hlast⟩ := h.sound _ _ hpending
    have hold : ∀ {q phase}, Function.update w.pending p none q = some phase →
        w.pending q = some phase := by
      intro q phase hq
      rcases update_eq_some hq with ⟨-, hnone⟩ | ⟨-, hold⟩
      · cases hnone
      · exact hold
    refine ⟨h.chained, fun q q' phase phase' hq hq' => h.alone _ _ _ _ (hold hq) (hold hq'),
      fun q phase hq => h.sound q phase (hold hq), fun tenantId' hnone => ?_⟩
    by_cases heq : tenantId' = tenantId
    · subst heq
      obtain rfl : logger = owner tenantId' := howner
      have hlast : auditHash = lastAuditHash w.table tenantId' := hlast
      simpa using hlast
    · have hmemory : Function.update w.lastAuditHash logger
          (Function.update (w.lastAuditHash logger) tenantId (some auditHash)) (owner tenantId')
            tenantId' = w.lastAuditHash (owner tenantId') tenantId' := by
        by_cases hlogger : owner tenantId' = logger
        · rw [hlogger, Function.update_self, Function.update_of_ne heq]
        · rw [Function.update_of_ne hlogger]
      refine (congrArg (·.getD "") hmemory).trans (h.known tenantId' fun q phase hq htenant =>
        hnone q phase ?_ htenant)
      have hne : q ≠ p := fun hqp => by
        obtain rfl := Option.some.inj (hpending.symm.trans (hqp ▸ hq))
        exact heq htenant.symm
      exact (Function.update_of_ne hne ..).trans hq
  · exact h

end InTurn

theorem InTurn.step {owner : String → L} {w : AuditWorld L P F} (a : LogStep L P F)
    (ha : TakesTurns owner w a) (h : InTurn owner w) : InTurn owner (w.step H a) := by
  cases a with
  | read p logger call micros timestamp => exact h.read ha
  | insert p => exact h.insert p
  | update p => exact h.update p
  | abort p => exact h.abort ha

variable (L P F H) in
/-- **Main theorem.** In every run whose calls take turns each tenant's rows are one chain
in every state. -/
theorem audit_chained (owner : String → L) (run : List (LogStep L P F))
    (h : (auditLog L P F H).Admits (TakesTurns owner) run) :
    (auditLog L P F H).Always AuditChained run := by
  refine (auditLog L P F H).always_under (TakesTurns owner) (InTurn owner) AuditChained ?_
    (fun w a => InTurn.step a) (fun w h => h.chained) run h
  exact {
    chained := fun tenantId => trivial
    alone := fun p q phase phase' hp => nomatch hp
    sound := fun p phase hp => nomatch hp
    known := fun tenantId _ => rfl }

def viewed (tenantId resourceId : String) : AuditCall Literal where
  tenantId
  actorId := "ops"
  actorType := "API"
  action := "replay:view"
  resourceType := "snapshot"
  resourceId
  requestPayload := .dict []
  responseSummary := .dict []
  correlationId := "corr-1"
  sessionId := none
  riskAssessment := none

instance [Fintype P] (owner : String → L) (w : AuditWorld L P F) :
    ∀ a, Decidable (TakesTurns owner w a)
  | .read _ _ _ _ _ => inferInstanceAs (Decidable (_ ∧ _))
  | .insert _ => inferInstanceAs (Decidable True)
  | .update _ => inferInstanceAs (Decidable True)
  | .abort _ => inferInstanceAs (Decidable (∀ _ ∈ _, _))

/-- Two tenants, each with a logger of its own; a call that raises among them. -/
def inTurns : List (LogStep Bool Bool Literal) :=
  [.read true true (viewed "acme" "a") 1 "09:00", .read false false (viewed "globex" "g") 1 "09:00",
    .insert false, .insert true, .update true, .read true true (viewed "acme" "b") 2 "09:01",
    .update false, .abort true, .read true true (viewed "acme" "c") 3 "09:02", .insert true,
    .update true]

theorem audit_chained_in_turns :
    (auditLog Bool Bool Literal prefixDigest).Always AuditChained inTurns ∧
      (tenantAudit ((auditLog Bool Bool Literal prefixDigest).after inTurns).table "acme").length =
        2 :=
  ⟨audit_chained Bool Bool Literal prefixDigest (fun tenantId => tenantId = "acme") inTurns
    ((auditLog Bool Bool Literal prefixDigest).admits_of_checks (by decide +kernel)),
    by decide +kernel⟩

/-- A whole call on one logger, and one on a logger made later. -/
def restarted : List (LogStep Bool Bool Literal) :=
  [.read true true (viewed "acme" "a") 1 "09:00", .insert true, .update true,
    .read true false (viewed "acme" "b") 2 "09:01", .insert true, .update true]

/-- Two calls on one logger that read before either inserts. -/
def concurrent : List (LogStep Bool Bool Literal) :=
  [.read true true (viewed "acme" "a") 1 "09:00", .read false true (viewed "acme" "b") 2 "09:01",
    .insert true, .insert false]

/-- The second row is a second first row. -/
theorem two_first_rows :
    ¬ AuditChained ((auditLog Bool Bool Literal prefixDigest).after restarted) ∧
      ¬ AuditChained ((auditLog Bool Bool Literal prefixDigest).after concurrent) := by
  constructor
  · intro h
    have hsecond := (h "acme").2.1
    exact absurd hsecond (by decide +kernel)
  · intro h
    have hsecond := (h "acme").2.1
    exact absurd hsecond (by decide +kernel)

end Steps
end PiPlatform.Production
