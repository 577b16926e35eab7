import Mathlib.Data.Int.Order.Basic
import Mathlib.Data.String.Basic
import PiPlatform.Library.Dict
import PiPlatform.Library.System

/-! The tenant registry.

What a call does, and what it answers, is decided by the entry of its own tenant (`call_eq`), so
every tenant lives as if the others were not there (`tenants_isolated`), and what the audit log says
of a tenant adds up to its entry (`entries_audited`). -/
namespace PiPlatform.Interoperability.Tenants

open Library

inductive TenantStatus where
  | active | suspended | provisioning | decommissioned
  deriving DecidableEq

def TenantStatus.value : TenantStatus → String
  | active => "active"
  | suspended => "suspended"
  | provisioning => "provisioning"
  | decommissioned => "decommissioned"

inductive TenantTier where
  | development | standard | enterprise
  deriving DecidableEq

/-- The limits that the registry reads. -/
structure ResourceQuota where
  maxCapabilities : Int
  maxExecutionsPerHour : Int
  deriving DecidableEq

/-- `check_add_capability`: the error, where the limit is reached. -/
def ResourceQuota.checkAddCapability (quota : ResourceQuota) (currentCount : Nat) :
    Option String :=
  if quota.maxCapabilities < currentCount + 1 then
    some ("Capability limit exceeded: " ++ toString currentCount ++ "/" ++
      toString quota.maxCapabilities)
  else none

/-- The other limits, the zones, the classes and the metadata are only hashed. -/
structure Tenant (R : Type) where
  tenantId : String
  tenantName : String
  tier : TenantTier
  status : TenantStatus
  quota : ResourceQuota
  rest : R
  deriving DecidableEq

structure TenantRegistryEntry (R : Type) where
  tenant : Tenant R
  capabilityCount : Nat
  executionCountHour : Nat
  storageUsedMb : Nat
  policyCount : Nat
  lastAuditHash : String
  deriving DecidableEq

inductive AuditAction where
  | register | updateStatus | incrementCapability | execution
  deriving DecidableEq

structure AuditEvent where
  tenantId : String
  action : AuditAction
  detail : String
  deriving DecidableEq

structure TenantRegistry (R : Type) where
  entries : Dict String (TenantRegistryEntry R)
  auditLog : List AuditEvent

/-- What a call answers: that it was done, or a refusal with its reason, where it gives one. -/
inductive Answer where
  | done
  | refused (reason : Option String)
  deriving DecidableEq

variable {R : Type}

/-- The tests of `check_execution_allowed` behind the lookup. -/
def TenantRegistryEntry.executionAllowed (entry : TenantRegistryEntry R) : Answer :=
  if entry.tenant.status ≠ .active then
    .refused (some ("Tenant status is " ++ entry.tenant.status.value ++ ", not active"))
  else if entry.tenant.quota.maxExecutionsPerHour ≤ entry.executionCountHour then
    .refused (some ("Execution rate limit: " ++ toString entry.executionCountHour ++ "/" ++
      toString entry.tenant.quota.maxExecutionsPerHour))
  else .done

namespace TenantRegistry
variable (registry : TenantRegistry R)

/-- An entry is stored and the call audited. -/
def save (tenantId : String) (entry : TenantRegistryEntry R) (action : AuditAction)
    (detail : String) : TenantRegistry R where
  entries := registry.entries.set tenantId entry
  auditLog := registry.auditLog ++ [⟨tenantId, action, detail⟩]

variable (computeHash : Tenant R → String)

def register (tenant : Tenant R) : Answer × TenantRegistry R :=
  if registry.entries.contains tenant.tenantId then
    (.refused (some "Tenant already exists"), registry)
  else
    (.done, registry.save tenant.tenantId
      { tenant := tenant
        capabilityCount := 0
        executionCountHour := 0
        storageUsedMb := 0
        policyCount := 0
        lastAuditHash := computeHash tenant } .register (computeHash tenant))

def updateStatus (tenantId : String) (status : TenantStatus) : Answer × TenantRegistry R :=
  match registry.entries.get? tenantId with
  | none => (.refused none, registry)
  | some entry =>
    let updatedTenant := { entry.tenant with status := status }
    (.done, registry.save tenantId
      { entry with tenant := updatedTenant, lastAuditHash := computeHash updatedTenant }
      .updateStatus ("status=" ++ status.value))

def incrementCapability (tenantId : String) : Answer × TenantRegistry R :=
  match registry.entries.get? tenantId with
  | none => (.refused (some "Tenant not found"), registry)
  | some entry =>
    match entry.tenant.quota.checkAddCapability entry.capabilityCount with
    | some err => (.refused (some err), registry)
    | none =>
      (.done, registry.save tenantId { entry with capabilityCount := entry.capabilityCount + 1 }
        .incrementCapability ("count=" ++ toString (entry.capabilityCount + 1)))

def checkExecutionAllowed (tenantId : String) : Answer :=
  match registry.entries.get? tenantId with
  | none => .refused (some "Tenant not found")
  | some entry => entry.executionAllowed

/-- Without an entry nothing happens, and nothing is said. -/
def recordExecution (tenantId : String) : TenantRegistry R :=
  match registry.entries.get? tenantId with
  | none => registry
  | some entry =>
    registry.save tenantId { entry with executionCountHour := entry.executionCountHour + 1 }
      .execution ("hour_count=" ++ toString (entry.executionCountHour + 1))

/-- `log[-limit:]`, of the tenant's events where a tenant is named. -/
def getAuditLog (tenantId : Option String) (limit : Int) : List AuditEvent :=
  let log :=
    match tenantId with
    | none => registry.auditLog
    | some id =>
      if id = "" then registry.auditLog else registry.auditLog.filter fun e => e.tenantId = id
  if 0 < limit then log.drop (log.length - limit.toNat) else log.drop (-limit).toNat

end TenantRegistry

inductive Call (R : Type) where
  | register (tenant : Tenant R)
  | updateStatus (tenantId : String) (status : TenantStatus)
  | incrementCapability (tenantId : String)
  | checkExecutionAllowed (tenantId : String)
  | recordExecution (tenantId : String)

def Call.tenantId : Call R → String
  | register tenant => tenant.tenantId
  | updateStatus tenantId _ => tenantId
  | incrementCapability tenantId => tenantId
  | checkExecutionAllowed tenantId => tenantId
  | recordExecution tenantId => tenantId

section Runs
variable (computeHash : Tenant R → String)

def TenantRegistry.call (registry : TenantRegistry R) : Call R → Answer × TenantRegistry R
  | .register tenant => registry.register computeHash tenant
  | .updateStatus tenantId status => registry.updateStatus computeHash tenantId status
  | .incrementCapability tenantId => registry.incrementCapability tenantId
  | .checkExecutionAllowed tenantId => (registry.checkExecutionAllowed tenantId, registry)
  | .recordExecution tenantId => (.done, registry.recordExecution tenantId)

def registries : System (TenantRegistry R) (Call R) where
  initial := ⟨Dict.empty, []⟩
  step registry c := (registry.call computeHash c).2

end Runs

/-! ### What a call depends on -/

/-- What is stored for the tenant, and what the log says of it. -/
structure Change (R : Type) where
  entry : TenantRegistryEntry R
  action : AuditAction
  detail : String

def TenantRegistry.apply (registry : TenantRegistry R) (tenantId : String) :
    Option (Change R) → TenantRegistry R
  | none => registry
  | some change => registry.save tenantId change.entry change.action change.detail

section Effects
variable (computeHash : Tenant R → String)

/-- A call, from the entry of its tenant alone. -/
def Call.effect (entry : Option (TenantRegistryEntry R)) : Call R → Answer × Option (Change R)
  | .register tenant =>
    match entry with
    | some _ => (.refused (some "Tenant already exists"), none)
    | none => (.done, some ⟨⟨tenant, 0, 0, 0, 0, computeHash tenant⟩, .register,
        computeHash tenant⟩)
  | .updateStatus _ status =>
    match entry with
    | none => (.refused none, none)
    | some entry =>
      let updatedTenant := { entry.tenant with status := status }
      (.done, some ⟨{ entry with
          tenant := updatedTenant, lastAuditHash := computeHash updatedTenant },
        .updateStatus, "status=" ++ status.value⟩)
  | .incrementCapability _ =>
    match entry with
    | none => (.refused (some "Tenant not found"), none)
    | some entry =>
      match entry.tenant.quota.checkAddCapability entry.capabilityCount with
      | some err => (.refused (some err), none)
      | none => (.done, some ⟨{ entry with capabilityCount := entry.capabilityCount + 1 },
          .incrementCapability, "count=" ++ toString (entry.capabilityCount + 1)⟩)
  | .checkExecutionAllowed _ =>
    match entry with
    | none => (.refused (some "Tenant not found"), none)
    | some entry => (entry.executionAllowed, none)
  | .recordExecution _ =>
    match entry with
    | none => (.done, none)
    | some entry =>
      (.done, some ⟨{ entry with executionCountHour := entry.executionCountHour + 1 },
        .execution, "hour_count=" ++ toString (entry.executionCountHour + 1)⟩)

theorem call_eq (registry : TenantRegistry R) (c : Call R) :
    registry.call computeHash c =
      ((c.effect computeHash (registry.entries.get? c.tenantId)).1,
        registry.apply c.tenantId (c.effect computeHash (registry.entries.get? c.tenantId)).2) := by
  cases c with
  | register tenant =>
    cases hentry : registry.entries.get? tenant.tenantId <;>
      simp [TenantRegistry.call, TenantRegistry.register, Call.effect, Call.tenantId,
        Dict.contains, hentry, TenantRegistry.apply]
  | updateStatus tenantId status =>
    simp only [TenantRegistry.call, TenantRegistry.updateStatus, Call.effect, Call.tenantId]
    cases registry.entries.get? tenantId <;> rfl
  | incrementCapability tenantId =>
    simp only [TenantRegistry.call, TenantRegistry.incrementCapability, Call.effect, Call.tenantId]
    cases registry.entries.get? tenantId with
    | none => rfl
    | some entry =>
      dsimp only
      cases entry.tenant.quota.checkAddCapability entry.capabilityCount <;> rfl
  | checkExecutionAllowed tenantId =>
    simp only [TenantRegistry.call, TenantRegistry.checkExecutionAllowed, Call.effect,
      Call.tenantId]
    cases registry.entries.get? tenantId <;> rfl
  | recordExecution tenantId =>
    simp only [TenantRegistry.call, TenantRegistry.recordExecution, Call.effect, Call.tenantId]
    cases registry.entries.get? tenantId <;> rfl

end Effects

/-! ### One tenant among others -/

/-- The events of a tenant. -/
def TenantRegistry.events (registry : TenantRegistry R) (tenantId : String) : List AuditEvent :=
  registry.auditLog.filter fun e => e.tenantId = tenantId

def Change.event (change : Change R) (tenantId : String) : AuditEvent :=
  ⟨tenantId, change.action, change.detail⟩

theorem get?_apply_self (registry : TenantRegistry R) (tenantId : String)
    (change : Option (Change R)) : (registry.apply tenantId change).entries.get? tenantId =
      (change.map Change.entry).or (registry.entries.get? tenantId) := by
  cases change with
  | none => rfl
  | some change => exact Dict.get?_set_self _ _ _

theorem events_apply_self (registry : TenantRegistry R) (tenantId : String)
    (change : Option (Change R)) : (registry.apply tenantId change).events tenantId =
      registry.events tenantId ++ (change.map fun change => change.event tenantId).toList := by
  cases change with
  | none => exact (List.append_nil _).symm
  | some change =>
    simp [TenantRegistry.apply, TenantRegistry.save, TenantRegistry.events, Change.event]

theorem apply_other (registry : TenantRegistry R) {tenantId other : String} (h : tenantId ≠ other)
    (change : Option (Change R)) :
    (registry.apply tenantId change).entries.get? other = registry.entries.get? other ∧
      (registry.apply tenantId change).events other = registry.events other := by
  cases change with
  | none => exact ⟨rfl, rfl⟩
  | some change =>
    refine ⟨Dict.get?_set_ne h _ _, ?_⟩
    simp [TenantRegistry.apply, TenantRegistry.save, TenantRegistry.events, h]

section Isolated
variable (computeHash : Tenant R → String)

def ownCalls (tenantId : String) (calls : List (Call R)) : List (Call R) :=
  calls.filter fun c => c.tenantId = tenantId

/-- Alike for a tenant. -/
structure Alike (tenantId : String) (registry own : TenantRegistry R) : Prop where
  entry : registry.entries.get? tenantId = own.entries.get? tenantId
  events : registry.events tenantId = own.events tenantId

theorem Alike.answer {registry own : TenantRegistry R} {c : Call R}
    (h : Alike c.tenantId registry own) :
    (registry.call computeHash c).1 = (own.call computeHash c).1 := by
  rw [call_eq, call_eq, h.entry]

theorem Alike.call {registry own : TenantRegistry R} {c : Call R}
    (h : Alike c.tenantId registry own) :
    Alike c.tenantId (registry.call computeHash c).2 (own.call computeHash c).2 := by
  rw [call_eq, call_eq]
  refine ⟨?_, ?_⟩
  · rw [get?_apply_self, get?_apply_self, h.entry]
  · rw [events_apply_self, events_apply_self, h.entry, h.events]

theorem alike_after (tenantId : String) (calls : List (Call R)) :
    Alike tenantId ((registries computeHash).after calls)
      ((registries computeHash).after (ownCalls tenantId calls)) := by
  induction calls using List.reverseRecOn with
  | nil => exact ⟨rfl, rfl⟩
  | append_singleton calls c ih =>
    rw [ownCalls, List.filter_append, ← ownCalls, System.after_snoc]
    by_cases h : c.tenantId = tenantId
    · subst h
      rw [List.filter_singleton, decide_eq_true rfl, cond_true, System.after_snoc]
      exact ih.call computeHash
    · rw [List.filter_singleton, decide_eq_false h, cond_false, List.append_nil]
      show Alike tenantId (TenantRegistry.call computeHash _ c).2 _
      rw [call_eq]
      obtain ⟨hentry, hevents⟩ := apply_other ((registries computeHash).after calls) h
        (c.effect computeHash (((registries computeHash).after calls).entries.get? c.tenantId)).2
      exact ⟨hentry.trans ih.entry, hevents.trans ih.events⟩

/-- In every run each tenant has the entry, the audit log and the answers that it would have if no
other tenant had made a call; only the log of the tenant without a name is that of all. -/
theorem tenants_isolated (computeHash : Tenant R → String) (calls : List (Call R))
    (tenantId : String) :
    let registry := (registries computeHash).after calls
    let own := (registries computeHash).after (ownCalls tenantId calls)
    registry.entries.get? tenantId = own.entries.get? tenantId ∧
    (∀ c : Call R, c.tenantId = tenantId →
      (registry.call computeHash c).1 = (own.call computeHash c).1) ∧
    ∀ limit, registry.getAuditLog (some tenantId) limit =
      if tenantId = "" then registry.getAuditLog none limit
      else own.getAuditLog (some tenantId) limit := by
  intro registry own
  have halike : Alike tenantId registry own := alike_after computeHash tenantId calls
  refine ⟨halike.entry, ?_, fun limit => ?_⟩
  · rintro c rfl
    exact halike.answer computeHash
  · by_cases hempty : tenantId = ""
    · simp only [TenantRegistry.getAuditLog, if_pos hempty]
    · have hevents := halike.events
      rw [TenantRegistry.events, TenantRegistry.events] at hevents
      simp only [TenantRegistry.getAuditLog, if_neg hempty, hevents]

end Isolated

/-! ### The audit log -/

section Audited
variable (computeHash : Tenant R → String)

def AuditAction.times (action : AuditAction) (log : List AuditEvent) : Nat :=
  log.countP fun e => e.action = action

/-- A tenant's events add up to its entry: it was registered once, the counters count, no quota of
capabilities is exceeded, and the status is the one last set. -/
structure Audited (computeHash : Tenant R → String) (tenantId : String) (log : List AuditEvent)
    (entry : TenantRegistryEntry R) : Prop where
  tenant : entry.tenant.tenantId = tenantId
  registered : AuditAction.register.times log = 1
  capabilities : entry.capabilityCount = AuditAction.incrementCapability.times log
  executions : entry.executionCountHour = AuditAction.execution.times log
  within : (entry.capabilityCount : Int) ≤ max 0 entry.tenant.quota.maxCapabilities
  hash : entry.lastAuditHash = computeHash entry.tenant
  status : ∀ e ∈ (log.filter fun e => e.action = .updateStatus).getLast?,
    e.detail = "status=" ++ entry.tenant.status.value

/-- Without an entry there are no events. -/
def Accounted (tenantId : String) (registry : TenantRegistry R) : Prop :=
  match registry.entries.get? tenantId with
  | none => registry.events tenantId = []
  | some entry => Audited computeHash tenantId (registry.events tenantId) entry

theorem times_snoc (action : AuditAction) (log : List AuditEvent) (e : AuditEvent) :
    action.times (log ++ [e]) = action.times log + if e.action = action then 1 else 0 := by
  simp [AuditAction.times, List.countP_append, List.countP_singleton]

/-- What a call changes keeps the account. -/
theorem effect_audited {tenantId : String} {log : List AuditEvent} {c : Call R}
    {entry : Option (TenantRegistryEntry R)} {change : Change R} (hc : c.tenantId = tenantId)
    (hnone : entry = none → log = [])
    (hsome : ∀ old, entry = some old → Audited computeHash tenantId log old)
    (hchange : (c.effect computeHash entry).2 = some change) :
    Audited computeHash tenantId (log ++ [change.event tenantId]) change.entry := by
  cases c with
  | register tenant =>
    cases entry with
    | some old => exact nomatch hchange
    | none =>
      obtain rfl := Option.some_inj.mp hchange
      rw [hnone rfl]
      exact ⟨hc, rfl, rfl, rfl, le_max_left _ _, rfl, fun e he => nomatch he⟩
  | updateStatus id status =>
    cases entry with
    | none => exact nomatch hchange
    | some old =>
      obtain rfl := Option.some_inj.mp hchange
      have h := hsome old rfl
      refine ⟨h.tenant, ?_, ?_, ?_, h.within, rfl, fun e he => ?_⟩
      · rw [times_snoc, h.registered]
        rfl
      · rw [times_snoc]
        exact h.capabilities
      · rw [times_snoc]
        exact h.executions
      · rw [List.filter_append] at he
        have hlast : (⟨tenantId, .updateStatus, "status=" ++ status.value⟩ : AuditEvent) = e := by
          simpa [Change.event] using he
        rw [← hlast]
  | incrementCapability id =>
    cases entry with
    | none => exact nomatch hchange
    | some old =>
      have h := hsome old rfl
      simp only [Call.effect] at hchange
      cases hcheck : old.tenant.quota.checkAddCapability old.capabilityCount with
      | some err =>
        rw [hcheck] at hchange
        exact nomatch hchange
      | none =>
        rw [hcheck] at hchange
        obtain rfl := Option.some_inj.mp hchange
        refine ⟨h.tenant, ?_, ?_, ?_, ?_, h.hash, fun e he => ?_⟩
        · rw [times_snoc, h.registered]
          rfl
        · rw [times_snoc, ← h.capabilities]
          rfl
        · rw [times_snoc]
          exact h.executions
        · have hroom : ¬ old.tenant.quota.maxCapabilities < old.capabilityCount + 1 := by
            intro hfull
            rw [ResourceQuota.checkAddCapability, if_pos hfull] at hcheck
            exact nomatch hcheck
          exact (not_lt.mp hroom).trans (le_max_right _ _)
        · refine h.status e ?_
          rw [List.filter_append] at he
          simpa [Change.event] using he
  | checkExecutionAllowed id =>
    cases entry with
    | none | some old => exact nomatch hchange
  | recordExecution id =>
    cases entry with
    | none => exact nomatch hchange
    | some old =>
      obtain rfl := Option.some_inj.mp hchange
      have h := hsome old rfl
      refine ⟨h.tenant, ?_, ?_, ?_, h.within, h.hash, fun e he => ?_⟩
      · rw [times_snoc, h.registered]
        rfl
      · rw [times_snoc]
        exact h.capabilities
      · rw [times_snoc, ← h.executions]
        rfl
      · refine h.status e ?_
        rw [List.filter_append] at he
        simpa [Change.event] using he

theorem Accounted.call {tenantId : String} {registry : TenantRegistry R}
    (h : Accounted computeHash tenantId registry) (c : Call R) :
    Accounted computeHash tenantId (registry.call computeHash c).2 := by
  rw [call_eq]
  by_cases hc : c.tenantId = tenantId
  · rw [hc]
    cases hchange : (c.effect computeHash (registry.entries.get? tenantId)).2 with
    | none => exact h
    | some change =>
      rw [Accounted, get?_apply_self, events_apply_self]
      refine effect_audited computeHash hc (fun hnone => ?_) (fun old hold => ?_) hchange
      · rwa [Accounted, hnone] at h
      · rwa [Accounted, hold] at h
  · obtain ⟨hentry, hevents⟩ := apply_other registry hc
      (c.effect computeHash (registry.entries.get? c.tenantId)).2
    rwa [Accounted, hentry, hevents]

/-- In every run the audit log adds up: a tenant without an entry has no events, and those of a
tenant with one account for it. -/
theorem entries_audited (computeHash : Tenant R → String) (calls : List (Call R))
    (tenantId : String) :
    Accounted computeHash tenantId ((registries computeHash).after calls) :=
  (registries computeHash).invariant (Accounted computeHash tenantId) rfl
    (fun _ c h => h.call computeHash c) calls

end Audited

end PiPlatform.Interoperability.Tenants
