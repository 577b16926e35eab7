import Mathlib.Data.List.Chain
import PiPlatform.Console.AuditStore

/-! What a tenant has used of its quota, kept in memory or in a table.

The two keep the same account of every tenant that the table takes (`table_agrees`), and the account
is that of the calls (`accounted`). -/
namespace PiPlatform.Console.Quotas

open Library
open Library.Json (Text)

@[ext] structure TenantQuotaStatus where
  tenantId : Text
  compositionsSubmitted : Nat
  compositionsExecuted : Nat
  simulationsRun : Nat
  maxCompositionsPerHour : Nat
  maxSimulationsPerHour : Nat
  maxNodesPerComposition : Nat
  currentHourCompositions : Nat
  currentHourSimulations : Nat
  quotaExceeded : Bool
  deriving DecidableEq

/-- `TenantQuotaStatus(tenant_id=tenant_id)` -/
def unused (tenantId : Text) : TenantQuotaStatus where
  tenantId := tenantId
  compositionsSubmitted := 0
  compositionsExecuted := 0
  simulationsRun := 0
  maxCompositionsPerHour := 100
  maxSimulationsPerHour := 500
  maxNodesPerComposition := 64
  currentHourCompositions := 0
  currentHourSimulations := 0
  quotaExceeded := false

inductive Call where
  | get | recordComposition | recordSimulation | recordExecution
  deriving DecidableEq

/-- What a call does to the counters. -/
def Call.record (q : TenantQuotaStatus) : Call → TenantQuotaStatus
  | .get => q
  | .recordComposition =>
    { q with
      compositionsSubmitted := q.compositionsSubmitted + 1
      currentHourCompositions := q.currentHourCompositions + 1
      quotaExceeded := q.maxCompositionsPerHour < q.currentHourCompositions + 1 }
  | .recordSimulation =>
    { q with
      simulationsRun := q.simulationsRun + 1
      currentHourSimulations := q.currentHourSimulations + 1 }
  | .recordExecution => { q with compositionsExecuted := q.compositionsExecuted + 1 }

section Model
variable {T : Type} [Zero T] [DecidableEq T] [Sub T] [LT T] [DecidableLT T] (windowSeconds : T)

def maybeResetWindow (now : T) (account : TenantQuotaStatus × T) : TenantQuotaStatus × T :=
  if account.2 = 0 ∨ windowSeconds < now - account.2 then
    ({ account.1 with
       currentHourCompositions := 0
       currentHourSimulations := 0
       quotaExceeded := false }, now)
  else account

/-- A call on a tenant's account. -/
def update (call : Call) (now : T) (account : TenantQuotaStatus × T) : TenantQuotaStatus × T :=
  let account := maybeResetWindow windowSeconds now account
  (call.record account.1, account.2)

/-! #### In memory -/

structure Memory (T : Type) where
  quotas : Dict Text TenantQuotaStatus
  windowStartedAt : Dict Text T

def Memory.load (m : Memory T) (tenantId : Text) : TenantQuotaStatus × T :=
  ((m.quotas.get? tenantId).getD (unused tenantId), (m.windowStartedAt.get? tenantId).getD 0)

def Memory.save (m : Memory T) (account : TenantQuotaStatus × T) : Memory T where
  quotas := m.quotas.set account.1.tenantId account.1
  windowStartedAt := m.windowStartedAt.set account.1.tenantId account.2

def Memory.call (m : Memory T) (call : Call) (tenantId : Text) (now : T) :
    TenantQuotaStatus × Memory T :=
  let account := update windowSeconds call now (m.load tenantId)
  (account.1, m.save account)

/-! #### In a table -/

/-- The columns behind the key. -/
structure Row (T : Type) where
  compositionsSubmitted : Nat
  compositionsExecuted : Nat
  simulationsRun : Nat
  maxCompositionsPerHour : Nat
  maxSimulationsPerHour : Nat
  maxNodesPerComposition : Nat
  currentHourCompositions : Nat
  currentHourSimulations : Nat
  quotaExceeded : Nat
  windowStartedAt : T

abbrev Table (T : Type) := Dict Text (Row T)

def Row.status (row : Row T) (tenantId : Text) : TenantQuotaStatus where
  tenantId := tenantId
  compositionsSubmitted := row.compositionsSubmitted
  compositionsExecuted := row.compositionsExecuted
  simulationsRun := row.simulationsRun
  maxCompositionsPerHour := row.maxCompositionsPerHour
  maxSimulationsPerHour := row.maxSimulationsPerHour
  maxNodesPerComposition := row.maxNodesPerComposition
  currentHourCompositions := row.currentHourCompositions
  currentHourSimulations := row.currentHourSimulations
  quotaExceeded := row.quotaExceeded ≠ 0

def rowOf (account : TenantQuotaStatus × T) : Row T where
  compositionsSubmitted := account.1.compositionsSubmitted
  compositionsExecuted := account.1.compositionsExecuted
  simulationsRun := account.1.simulationsRun
  maxCompositionsPerHour := account.1.maxCompositionsPerHour
  maxSimulationsPerHour := account.1.maxSimulationsPerHour
  maxNodesPerComposition := account.1.maxNodesPerComposition
  currentHourCompositions := account.1.currentHourCompositions
  currentHourSimulations := account.1.currentHourSimulations
  quotaExceeded := account.1.quotaExceeded.toNat
  windowStartedAt := account.2

/-- None where the tenant is refused. -/
def load (table : Table T) (tenantId : Text) : Option (TenantQuotaStatus × T) :=
  if Audit.safeTenantId tenantId then
    match table.get? tenantId with
    | none => some (unused tenantId, 0)
    | some row => some (row.status tenantId, row.windowStartedAt)
  else none

/-- An upsert. -/
def save (table : Table T) (account : TenantQuotaStatus × T) : Option (Table T) :=
  if Audit.safeTenantId account.1.tenantId then
    some (table.set account.1.tenantId (rowOf account))
  else none

/-- A call that raises leaves the table as it is. -/
def call (table : Table T) (call : Call) (tenantId : Text) (now : T) :
    Option TenantQuotaStatus × Table T :=
  match load table tenantId with
  | none => (none, table)
  | some account =>
    let account := update windowSeconds call now account
    match save table account with
    | none => (none, table)
    | some table => (some account.1, table)

/-! #### Runs -/

def Memory.results (m : Memory T) : List (Call × Text × T) → List TenantQuotaStatus
  | [] => []
  | (call, tenantId, now) :: calls =>
    let (status, m) := m.call windowSeconds call tenantId now
    status :: m.results calls

def results (table : Table T) : List (Call × Text × T) → List (Option TenantQuotaStatus)
  | [] => []
  | (c, tenantId, now) :: calls =>
    let (status, table) := call windowSeconds table c tenantId now
    status :: results table calls

def Memory.after (m : Memory T) : List (Call × Text × T) → Memory T
  | [] => m
  | (call, tenantId, now) :: calls => (m.call windowSeconds call tenantId now).2.after calls

end Model

/-! ### The two agree -/

section Accounts
variable {T : Type} [Zero T]

/-- The tenants the table takes have the same account in both. -/
def Corresponds (m : Memory T) (table : Table T) : Prop :=
  ∀ tenantId, Audit.safeTenantId tenantId = true → load table tenantId = some (m.load tenantId)

/-- Each account is its tenant's own. -/
def Owned (m : Memory T) : Prop := ∀ tenantId, (m.load tenantId).1.tenantId = tenantId

theorem load_save (m : Memory T) (account : TenantQuotaStatus × T) (tenantId : Text) :
    (m.save account).load tenantId =
      if account.1.tenantId = tenantId then account else m.load tenantId := by
  rw [Memory.load, Memory.save]
  dsimp only
  rw [Dict.get?_set, Dict.get?_set]
  split_ifs
  · rfl
  · rfl

theorem load_rowOf (table : Table T) (account : TenantQuotaStatus × T) {tenantId : Text}
    (hsafe : Audit.safeTenantId tenantId = true) :
    load (table.set account.1.tenantId (rowOf account)) tenantId =
      if account.1.tenantId = tenantId then some account else load table tenantId := by
  rw [load, if_pos hsafe, Dict.get?_set]
  split_ifs with heq
  · subst heq
    cases hexceeded : account.1.quotaExceeded <;>
      simp [rowOf, Row.status, hexceeded, Prod.ext_iff, TenantQuotaStatus.ext_iff]
  · rw [load, if_pos hsafe]

end Accounts

section Agree
variable {T : Type} [Zero T] [DecidableEq T] [Sub T] [LT T] [DecidableLT T] (windowSeconds : T)

@[simp] theorem tenantId_record (q : TenantQuotaStatus) (call : Call) :
    (call.record q).tenantId = q.tenantId := by
  cases call <;> rfl

theorem tenantId_update (call : Call) (now : T) (account : TenantQuotaStatus × T) :
    (update windowSeconds call now account).1.tenantId = account.1.tenantId := by
  rw [update, tenantId_record, maybeResetWindow]
  split_ifs
  · rfl
  · rfl

theorem Owned.call {m : Memory T} (h : Owned m) (call : Call) (tenantId : Text) (now : T) :
    Owned (m.call windowSeconds call tenantId now).2 := by
  intro other
  rw [Memory.call, load_save]
  split_ifs with heq
  · exact heq
  · exact h other

theorem Corresponds.call {m : Memory T} {table : Table T} (h : Corresponds m table) (hm : Owned m)
    (c : Call) (tenantId : Text) (now : T) :
    (Quotas.call windowSeconds table c tenantId now).1 =
        (if Audit.safeTenantId tenantId then
          some (m.call windowSeconds c tenantId now).1 else none) ∧
      Corresponds (m.call windowSeconds c tenantId now).2
        (Quotas.call windowSeconds table c tenantId now).2 := by
  have howner : (update windowSeconds c now (m.load tenantId)).1.tenantId = tenantId :=
    (tenantId_update windowSeconds c now _).trans (hm tenantId)
  by_cases hsafe : Audit.safeTenantId tenantId = true
  · have hsave : save table (update windowSeconds c now (m.load tenantId)) =
        some (table.set tenantId (rowOf (update windowSeconds c now (m.load tenantId)))) := by
      rw [save, howner, if_pos hsafe]
    have hcall : Quotas.call windowSeconds table c tenantId now =
        (some (update windowSeconds c now (m.load tenantId)).1,
          table.set tenantId (rowOf (update windowSeconds c now (m.load tenantId)))) := by
      rw [Quotas.call, h tenantId hsafe]
      dsimp only
      rw [hsave]
    rw [hcall, if_pos hsafe]
    refine ⟨rfl, fun other hother => ?_⟩
    have hrow := load_rowOf table (update windowSeconds c now (m.load tenantId)) hother
    rw [howner] at hrow
    rw [hrow, Memory.call, load_save, howner]
    split_ifs
    · rfl
    · exact h other hother
  · have hcall : Quotas.call windowSeconds table c tenantId now = (none, table) := by
      rw [Quotas.call, load, if_neg hsafe]
    rw [hcall, if_neg hsafe]
    refine ⟨rfl, fun other hother => ?_⟩
    have hne : tenantId ≠ other := by
      rintro rfl
      exact hsafe hother
    rw [Memory.call, load_save, howner, if_neg hne]
    exact h other hother

/-- In every run of calls the table answers as the memory does, and refuses the tenants whose names
could not stand in a path. -/
theorem table_agrees (windowSeconds : T) (calls : List (Call × Text × T)) :
    results windowSeconds Dict.empty calls =
      List.zipWith (fun c status => if Audit.safeTenantId c.2.1 then some status else none) calls
        (Memory.results windowSeconds ⟨Dict.empty, Dict.empty⟩ calls) := by
  have hrun : ∀ (m : Memory T) (table : Table T), Corresponds m table → Owned m →
      results windowSeconds table calls =
        List.zipWith (fun c status => if Audit.safeTenantId c.2.1 then some status else none) calls
          (m.results windowSeconds calls) := by
    induction calls with
    | nil => exact fun _ _ _ _ => rfl
    | cons c calls ih =>
      intro m table h hm
      obtain ⟨call, tenantId, now⟩ := c
      obtain ⟨hstatus, hnext⟩ := h.call windowSeconds hm call tenantId now
      rw [results, Memory.results]
      dsimp only
      rw [List.zipWith_cons_cons, hstatus, ih _ _ hnext (hm.call windowSeconds call tenantId now)]
  refine hrun _ _ (fun tenantId hsafe => ?_) fun _ => rfl
  rw [load, if_pos hsafe]
  rfl

end Agree

/-! ### The account -/

section Calls
variable {T : Type}

/-- A tenant's own calls, in order. -/
def own (tenantId : Text) (calls : List (Call × Text × T)) : List (Call × T) :=
  (calls.filter fun c => c.2.1 = tenantId).map fun c => (c.1, c.2.2)

/-- How often a call was made. -/
def times (call : Call) (calls : List (Call × T)) : Nat := calls.countP fun c => c.1 = call

theorem own_concat (tenantId : Text) (calls : List (Call × Text × T)) (c : Call × Text × T) :
    own tenantId (calls ++ [c]) =
      own tenantId calls ++ if c.2.1 = tenantId then [(c.1, c.2.2)] else [] := by
  rw [own, List.filter_append, List.map_append, List.filter_singleton]
  by_cases h : c.2.1 = tenantId
  · simp [own, h]
  · simp [own, h]

theorem times_concat (call : Call) (calls : List (Call × T)) (c : Call × T) :
    times call (calls ++ [c]) = times call calls + if c.1 = call then 1 else 0 := by
  simp [times, List.countP_append, List.countP_singleton]

end Calls

section Account
variable {T : Type} [Zero T] [Sub T] [LT T] (windowSeconds : T)

/-- The calls of one window: the one that opened it, and the later ones. -/
structure Window (T : Type) where
  first : Call × T
  rest : List (Call × T)

/-- A call at `now` opens a window of its own. -/
def Window.Over (w : Window T) (now : T) : Prop := w.first.2 = 0 ∨ windowSeconds < now - w.first.2

def Window.calls (w : Window T) : List (Call × T) := w.first :: w.rest

/-- The calls cut into windows: no call of a window came after its end, and the next one was opened
by a call that did. -/
structure Cut (windows : List (Window T)) (calls : List (Call × T)) : Prop where
  calls : windows.flatMap Window.calls = calls
  within : ∀ w ∈ windows, ∀ c ∈ w.rest, ¬ w.Over windowSeconds c.2
  elapsed : windows.IsChain fun w next => w.Over windowSeconds next.first.2

/-- The counters are those of the tenant's calls, those of the hour are those of its last window,
and the quota is exceeded just when more compositions than allowed were submitted in it. -/
structure Accounted (calls : List (Call × T)) (account : TenantQuotaStatus × T) : Prop where
  submitted : account.1.compositionsSubmitted = times .recordComposition calls
  executed : account.1.compositionsExecuted = times .recordExecution calls
  simulated : account.1.simulationsRun = times .recordSimulation calls
  exceeded : account.1.quotaExceeded = true ↔
    account.1.maxCompositionsPerHour < account.1.currentHourCompositions
  windows : ∃ windows, Cut windowSeconds windows calls ∧
    let last := (windows.getLast?.map Window.calls).getD []
    account.2 = (last.head?.map Prod.snd).getD 0 ∧
      account.1.currentHourCompositions = times .recordComposition last ∧
      account.1.currentHourSimulations = times .recordSimulation last

/-! #### The windows -/

/-- The call opened by `c` alone comes after the last window's end. -/
theorem Cut.open_next {windows : List (Window T)} {calls : List (Call × T)}
    (h : Cut windowSeconds windows calls) (c : Call × T)
    (hover : ∀ w ∈ windows.getLast?, w.Over windowSeconds c.2) :
    Cut windowSeconds (windows ++ [⟨c, []⟩]) (calls ++ [c]) where
  calls := by
    rw [List.flatMap_append, h.calls]
    rfl
  within w hw d hd := by
    rcases List.mem_append.mp hw with hw | hw
    · exact h.within w hw d hd
    · rw [List.mem_singleton.mp hw] at hd
      exact absurd hd List.not_mem_nil
  elapsed := by
    refine h.elapsed.append (List.isChain_singleton _) fun w hw next hnext => ?_
    obtain rfl : Window.mk c [] = next := by simpa using hnext
    exact hover w hw

theorem Cut.stay {windows : List (Window T)} {w : Window T} {calls : List (Call × T)}
    (h : Cut windowSeconds (windows ++ [w]) calls) (c : Call × T)
    (hover : ¬ w.Over windowSeconds c.2) :
    Cut windowSeconds (windows ++ [⟨w.first, w.rest ++ [c]⟩]) (calls ++ [c]) where
  calls := by
    rw [← h.calls]
    simp [Window.calls]
  within v hv d hd := by
    rcases List.mem_append.mp hv with hv | hv
    · exact h.within v (List.mem_append_left _ hv) d hd
    · rw [List.mem_singleton.mp hv] at hd ⊢
      rcases List.mem_append.mp hd with hd | hd
      · exact h.within w (List.mem_append_right _ (List.mem_singleton_self w)) d hd
      · rw [List.mem_singleton.mp hd]
        exact hover
  elapsed := by
    obtain ⟨hwindows, -, hjoin⟩ := List.isChain_append.mp h.elapsed
    refine hwindows.append (List.isChain_singleton _) fun v hv next hnext => ?_
    obtain rfl : Window.mk w.first (w.rest ++ [c]) = next := by simpa using hnext
    exact hjoin v hv w rfl

/-! #### The counters -/

@[simp] theorem submitted_record (q : TenantQuotaStatus) (call : Call) :
    (call.record q).compositionsSubmitted =
      q.compositionsSubmitted + if call = .recordComposition then 1 else 0 := by
  cases call <;> rfl

@[simp] theorem executed_record (q : TenantQuotaStatus) (call : Call) :
    (call.record q).compositionsExecuted =
      q.compositionsExecuted + if call = .recordExecution then 1 else 0 := by
  cases call <;> rfl

@[simp] theorem simulated_record (q : TenantQuotaStatus) (call : Call) :
    (call.record q).simulationsRun =
      q.simulationsRun + if call = .recordSimulation then 1 else 0 := by
  cases call <;> rfl

@[simp] theorem hourCompositions_record (q : TenantQuotaStatus) (call : Call) :
    (call.record q).currentHourCompositions =
      q.currentHourCompositions + if call = .recordComposition then 1 else 0 := by
  cases call <;> rfl

@[simp] theorem hourSimulations_record (q : TenantQuotaStatus) (call : Call) :
    (call.record q).currentHourSimulations =
      q.currentHourSimulations + if call = .recordSimulation then 1 else 0 := by
  cases call <;> rfl

theorem exceeded_record {q : TenantQuotaStatus} (call : Call)
    (h : q.quotaExceeded = true ↔ q.maxCompositionsPerHour < q.currentHourCompositions) :
    (call.record q).quotaExceeded = true ↔
      (call.record q).maxCompositionsPerHour < (call.record q).currentHourCompositions := by
  cases call with
  | get => exact h
  | recordComposition => exact decide_eq_true_iff
  | recordSimulation => exact h
  | recordExecution => exact h

/-! #### Runs -/

theorem Accounted.empty (tenantId : Text) :
    Accounted windowSeconds [] (unused tenantId, (0 : T)) where
  submitted := rfl
  executed := rfl
  simulated := rfl
  exceeded := iff_of_false Bool.false_ne_true (Nat.not_lt_zero _)
  windows := ⟨[], ⟨rfl, List.forall_mem_nil _, List.isChain_nil⟩, rfl, rfl, rfl⟩

variable [DecidableEq T] [DecidableLT T]

theorem Accounted.update {calls : List (Call × T)} {account : TenantQuotaStatus × T}
    (h : Accounted windowSeconds calls account) (call : Call) (now : T) :
    Accounted windowSeconds (calls ++ [(call, now)])
      (Quotas.update windowSeconds call now account) := by
  obtain ⟨windows, hcut, hstart, hcompositions, hsimulations⟩ := h.windows
  by_cases hreset : account.2 = 0 ∨ windowSeconds < now - account.2
  · rw [Quotas.update, maybeResetWindow, if_pos hreset]
    refine ⟨?_, ?_, ?_, exceeded_record call (iff_of_false Bool.false_ne_true (Nat.not_lt_zero _)),
      windows ++ [⟨(call, now), []⟩], hcut.open_next windowSeconds (call, now) ?_, ?_⟩
    · simp [times_concat, h.submitted]
    · simp [times_concat, h.executed]
    · simp [times_concat, h.simulated]
    · intro w hw
      rw [Option.mem_def.mp hw] at hstart
      rwa [Window.Over, ← show account.2 = w.first.2 from hstart]
    · simp [Window.calls, times]
  · rw [Quotas.update, maybeResetWindow, if_neg hreset]
    rcases List.eq_nil_or_concat windows with rfl | ⟨earlier, w, rfl⟩
    · exact absurd (Or.inl hstart) hreset
    · rw [List.concat_eq_append] at hcut hstart hcompositions hsimulations
      rw [List.getLast?_concat] at hstart hcompositions hsimulations
      have hover : ¬ w.Over windowSeconds now := by
        rwa [Window.Over, ← show account.2 = w.first.2 from hstart]
      refine ⟨?_, ?_, ?_, exceeded_record call h.exceeded,
        earlier ++ [⟨w.first, w.rest ++ [(call, now)]⟩],
        hcut.stay windowSeconds (call, now) hover, ?_⟩
      · simp [times_concat, h.submitted]
      · simp [times_concat, h.executed]
      · simp [times_concat, h.simulated]
      · have hcalls (c : Call) : times c (w.first :: (w.rest ++ [(call, now)])) =
            times c w.calls + if call = c then 1 else 0 :=
          times_concat c w.calls (call, now)
        rw [List.getLast?_concat]
        refine ⟨hstart, ?_, ?_⟩
        · rw [hourCompositions_record, hcompositions]
          exact (hcalls _).symm
        · rw [hourSimulations_record, hsimulations]
          exact (hcalls _).symm

/-- After any run of calls, the account of any tenant is that of its own calls. -/
theorem accounted (windowSeconds : T) (calls : List (Call × Text × T)) (tenantId : Text) :
    Accounted windowSeconds (own tenantId calls)
      ((Memory.after windowSeconds ⟨Dict.empty, Dict.empty⟩ calls).load tenantId) := by
  have hrun : ∀ (m : Memory T) (past : List (Call × Text × T)), Owned m →
      Accounted windowSeconds (own tenantId past) (m.load tenantId) →
      Accounted windowSeconds (own tenantId (past ++ calls))
        ((m.after windowSeconds calls).load tenantId) := by
    induction calls with
    | nil =>
      intro m past _ h
      rwa [List.append_nil]
    | cons c calls ih =>
      intro m past hm h
      obtain ⟨call, caller, now⟩ := c
      rw [List.append_cons]
      refine ih _ _ (hm.call windowSeconds call caller now) ?_
      rw [own_concat, Memory.call, load_save, tenantId_update, hm caller]
      by_cases heq : caller = tenantId
      · subst heq
        rw [if_pos rfl, if_pos rfl]
        exact h.update windowSeconds call now
      · rwa [if_neg heq, if_neg heq, List.append_nil]
  exact hrun _ [] (fun _ => rfl) (Accounted.empty windowSeconds tenantId)

end Account

end PiPlatform.Console.Quotas
