import PiPlatform.Mesh.WorkerBase

/-! The central kernel of the mesh.

Phases run in a fixed order, each on the slot that the boundary of the phase before it names. No
step fills that field in, so every phase but the first runs on nothing. What holds is that the
boundaries come in order, one for each phase reached, and that no worker runs behind a failure
(`connected_iff`). -/
namespace PiPlatform.Mesh

open Library Library.Json Library.Python Library.Calendar EventFabric

structure WorkerClass (F : Type) where
  name : String
  run : Run F

structure PhaseConfig (F : Type) where
  phaseName : String
  workerClasses : List (WorkerClass F)
  maxFanout : Int
  requiredWorkerIds : List String

/-- A pipeline's kernel, by what it is constructed with. -/
structure CentralOrchestratorKernel (F : Type) where
  phases : List (PhaseConfig F)
  failOpen : Bool

/-- What a run has of chance and of the clock: for each execution, for each boundary, and for
the end. -/
structure Chance (R : Type) where
  execution : Nat → Outside R
  boundary : Nat → String × Instant
  closing : Instant

/-- An execution with what came of it. -/
abbrev Call (R F : Type) := Execution R F × Except MeshError (ExecutionReceipt R)

/-- A phase that was reached, and its executions. -/
structure PhaseRun (R F : Type) where
  phaseName : String
  config : Option (PhaseConfig F)
  calls : List (Call R F)

/-- The bus and the ledger, and what has been run so far. -/
structure MeshState (R F : Type) where
  bus : ArtifactBus F
  ledger : OrchestrationLedger R
  calls : List (Call R F)
  phases : List (PhaseRun R F)

def phaseOrder : List String :=
  ["INGEST", "EXTRACT", "DIFF", "VALIDATE", "RISK", "GOVERN", "EMIT"]

/-- How a phase ends: the next one follows, or the ledger is closed, or an exception goes on. -/
inductive Flow where
  | continued
  | closed
  | raised (error : MeshError)

section Kernel
variable {R F : Type} (N : Floats R) (T : FloatTexts R) (H : Digest)

namespace PhaseConfig
variable (config : PhaseConfig F)

/-- The worker of a class at its place. -/
def worker (i : Nat) (cls : WorkerClass F) : WorkerBase R F where
  workerId := config.phaseName ++ "_" ++ cls.name ++ "_" ++ toString i
  contract := .new N cls.name
  run := cls.run
  spawned := false
  modifiedContract := false

/-- `_run_phase`, from the `i`-th class on. -/
def runFrom (chance : Chance R) (inputSlotIds : List String) :
    Nat → List (WorkerClass F) → List (ExecutionReceipt R) → MeshState R F →
      Except MeshError (List (ExecutionReceipt R)) × MeshState R F
  | _, [], receipts, s => (.ok receipts, s)
  | i, cls :: classes, receipts, s =>
    let e : Execution R F :=
      { worker := config.worker N i cls
        outside := chance.execution s.calls.length
        phase := config.phaseName
        inputSlotIds := inputSlotIds
        bus := s.bus }
    let (result, bus, ledger) := e.execute N T H s.ledger
    let s := { s with bus, ledger, calls := s.calls ++ [(e, result)] }
    match result with
    | .error error => (.error error, s)
    | .ok receipt =>
      let receipts := receipts ++ [receipt]
      if config.maxFanout ≤ receipts.length then (.ok receipts, s)
      else runFrom chance inputSlotIds (i + 1) classes receipts s

end PhaseConfig

namespace CentralOrchestratorKernel
variable (kernel : CentralOrchestratorKernel F)

def config (phaseName : String) : Option (PhaseConfig F) :=
  (Dict.ofList (kernel.phases.map fun p => (p.phaseName, p))).get? phaseName

/-- `_resolve_phase_inputs` -/
def resolvePhaseInputs (ledger : OrchestrationLedger R) (phaseName : String)
    (initialSlotIds : List String) : List String :=
  if phaseName = "INGEST" then initialSlotIds
  else
    let prevIdx := phaseOrder.idxOf phaseName - 1
    let prevPhase := phaseOrder.getD prevIdx ""
    match (ledger.lastBoundaryForPhase prevPhase).bind (·.mergedOutputSlotId) with
    | none => []
    | some slotId => [slotId]

/-- `_merge_phase`; a run over time or over its resources is a failure unless the kernel is open. -/
def mergePhase (config : PhaseConfig F) (receipts : List (ExecutionReceipt R)) : PhaseStatus :=
  if ∃ id ∈ config.requiredWorkerIds, ∀ r ∈ receipts, ¬ (r.workerId = id ∧ r.status = .success) then
    .fail
  else if receipts.any fun r =>
      r.status ∈ [.fail, .panic, .schemaMismatch, .replayMismatch] ||
        (r.status ∈ [.timeout, .resourceExceeded] && !kernel.failOpen) then
    .fail
  else .success

/-- A boundary is made, and linked. No slot of merged outputs is given. -/
def appendBoundary (chance : Chance R) (phaseName : String) (workerReceiptIds : List String)
    (phaseStatus : PhaseStatus) (s : MeshState R F) : MeshState R F :=
  let (boundaryId, timestamp) := chance.boundary s.phases.length
  let boundary : PhaseBoundaryReceipt :=
    { boundaryId, timestamp, workerReceiptIds, phaseStatus
      phase := phaseName
      mergedOutputSlotId := none
      previousBoundaryHash := ""
      boundaryHash := "" }
  { s with ledger := (s.ledger.appendBoundary H boundary).2 }

/-- One phase of `run_pipeline`. -/
def runPhase (chance : Chance R) (initialSlotIds : List String) (phaseName : String)
    (s : MeshState R F) : Flow × MeshState R F :=
  match kernel.config phaseName with
  | none =>
    let s := appendBoundary H chance phaseName [] .success s
    (.continued, { s with phases := s.phases ++ [⟨phaseName, none, []⟩] })
  | some config =>
    let phaseInputs := resolvePhaseInputs s.ledger phaseName initialSlotIds
    let (result, s') := config.runFrom N T H chance phaseInputs 0 config.workerClasses [] s
    let run : PhaseRun R F := ⟨phaseName, config, s'.calls.drop s.calls.length⟩
    match result with
    | .error error => (.raised error, { s' with phases := s'.phases ++ [run] })
    | .ok receipts =>
      let mergeStatus := kernel.mergePhase config receipts
      let s' := appendBoundary H chance phaseName (receipts.map (·.receiptId)) mergeStatus s'
      let s' := { s' with phases := s'.phases ++ [run] }
      if mergeStatus = .fail && !kernel.failOpen then (.closed, s') else (.continued, s')

/-- The phases in order; what is raised goes through, and the ledger stays open then. -/
def runPhases (chance : Chance R) (initialSlotIds : List String) :
    List String → MeshState R F → Option MeshError × MeshState R F
  | [], s => (none, { s with ledger := s.ledger.close chance.closing })
  | phaseName :: phaseNames, s =>
    match kernel.runPhase N T H chance initialSlotIds phaseName s with
    | (.raised error, s) => (some error, s)
    | (.closed, s) => (none, { s with ledger := s.ledger.close chance.closing })
    | (.continued, s) => runPhases chance initialSlotIds phaseNames s

def runPipeline (chance : Chance R) (initialSlotIds : List String) (bus : ArtifactBus F)
    (ledger : OrchestrationLedger R) : Option MeshError × MeshState R F :=
  kernel.runPhases N T H chance initialSlotIds phaseOrder ⟨bus, ledger, [], []⟩

end CentralOrchestratorKernel

/-- The phase has no worker classes. -/
def CentralOrchestratorKernel.Idle (kernel : CentralOrchestratorKernel F) (phaseName : String) :
    Prop :=
  ∀ config, kernel.config phaseName = some config → config.workerClasses = []

/-! ### A phase's workers -/

variable {N T H} {chance : Chance R} {config : PhaseConfig F} {inputSlotIds : List String}
variable {boundaries : List PhaseBoundaryReceipt} {phaseName : String}
  {s s' : MeshState R F} {kernel : CentralOrchestratorKernel F}
  {done rest initialSlotIds : List String} {run : PhaseRun R F} {calls : List (Call R F)}
  {receipts : List (ExecutionReceipt R)}

/-- The receipt that a call returned, of an execution of the run. -/
structure Returned (chance : Chance R) (c : Call R F) (r : ExecutionReceipt R) : Prop where
  ok : c.2 = .ok r
  concluded : r.status ≠ .pending
  drawn : ∃ k, r.receiptId = (chance.execution k).receiptId

/-- What executing workers on some inputs does to the state. -/
structure Executed (inputSlotIds : List String) (s s' : MeshState R F) (calls : List (Call R F)) :
    Prop where
  called : s'.calls = s.calls ++ calls
  phases : s'.phases = s.phases
  boundaries : s'.ledger.boundaries = s.ledger.boundaries
  inputs : ∀ c ∈ calls, c.1.inputSlotIds = inputSlotIds

theorem Executed.cons {s₁ : MeshState R F} {c : Call R F}
    (hfirst : Executed inputSlotIds s s₁ [c]) (hrest : Executed inputSlotIds s₁ s' calls) :
    Executed inputSlotIds s s' (c :: calls) where
  called := by rw [hrest.called, hfirst.called, List.append_assoc, List.singleton_append]
  phases := hrest.phases.trans hfirst.phases
  boundaries := hrest.boundaries.trans hfirst.boundaries
  inputs := List.forall_mem_cons.mpr ⟨hfirst.inputs c (List.mem_singleton_self c), hrest.inputs⟩

/-- All calls return receipts, none of an overrun, or there is one and the phase raises. -/
def Outcome (N : Floats R) (chance : Chance R) (receipts : List (ExecutionReceipt R))
    (calls : List (Call R F)) : Except MeshError (List (ExecutionReceipt R)) → Prop
  | .error _ => ∃ c ∈ calls, c.1.Overrun N
  | .ok all => ∃ new, all = receipts ++ new ∧ List.Forall₂ (Returned chance) calls new ∧
      ∀ c ∈ calls, ¬ c.1.Overrun N

theorem Outcome.cons {receipt : ExecutionReceipt R} {c : Call R F}
    {result : Except MeshError (List (ExecutionReceipt R))} (hreturned : Returned chance c receipt)
    (hwithin : ¬ c.1.Overrun N) (h : Outcome N chance (receipts ++ [receipt]) calls result) :
    Outcome N chance receipts (c :: calls) result := by
  cases result with
  | error error =>
    obtain ⟨c', hc', hoverrun⟩ := h
    exact ⟨c', List.mem_cons_of_mem _ hc', hoverrun⟩
  | ok all =>
    obtain ⟨new, rfl, hnew, hall⟩ := h
    exact ⟨receipt :: new, by rw [List.append_assoc, List.singleton_append], .cons hreturned hnew,
      List.forall_mem_cons.mpr ⟨hwithin, hall⟩⟩

variable (N T H chance config inputSlotIds) in
/-- The workers of a phase all return receipts, or one of them overruns and ends the phase. -/
theorem runFrom_spec (i : Nat) (classes : List (WorkerClass F))
    (receipts : List (ExecutionReceipt R)) (s : MeshState R F) :
    ∃ calls, Executed inputSlotIds s
        (config.runFrom N T H chance inputSlotIds i classes receipts s).2 calls ∧
      (calls = [] ↔ classes = []) ∧ Outcome N chance receipts calls
        (config.runFrom N T H chance inputSlotIds i classes receipts s).1 := by
  induction classes generalizing i receipts s with
  | nil =>
    refine ⟨[], ⟨(List.append_nil _).symm, rfl, rfl, List.forall_mem_nil _⟩,
      ⟨fun _ => rfl, fun _ => rfl⟩, [], ?_⟩
    exact ⟨(List.append_nil _).symm, .nil, List.forall_mem_nil _⟩
  | cons cls classes ih =>
    obtain ⟨e, he⟩ : ∃ e : Execution R F, e = ⟨config.worker N i cls,
      chance.execution s.calls.length, config.phaseName, inputSlotIds, s.bus⟩ := ⟨_, rfl⟩
    obtain ⟨result, bus, ledger, hexecute⟩ :
        ∃ result bus ledger, e.execute N T H s.ledger = (result, bus, ledger) := ⟨_, _, _, rfl⟩
    have hresult : e.result N T H s.ledger = (result, ledger) := by
      rw [Execution.result, hexecute]
    rw [PhaseConfig.runFrom, ← he, hexecute]
    dsimp only
    by_cases hoverrun : e.Overrun N
    · obtain ⟨error, herror⟩ := result_error (T := T) (H := H) s.ledger hoverrun
      obtain ⟨rfl, rfl⟩ := Prod.mk.inj (hresult.symm.trans herror)
      refine ⟨[(e, .error error)], ⟨rfl, rfl, rfl, ?_⟩, by simp, ?_⟩
      · exact List.forall_mem_singleton.mpr (by rw [he])
      · exact ⟨_, List.mem_singleton_self _, hoverrun⟩
    · obtain ⟨receipt, hok, -, -, hid, -, -, hpending⟩ :=
        result_ok (T := T) (H := H) s.ledger hoverrun
      obtain ⟨rfl, rfl⟩ := Prod.mk.inj (hresult.symm.trans hok)
      have hreturned : Returned chance (e, .ok receipt) receipt :=
        ⟨rfl, hpending, s.calls.length, by rw [hid, he]⟩
      have hfirst : Executed inputSlotIds s
          { s with
            bus
            ledger := (s.ledger.appendReceipt H receipt).2
            calls := s.calls ++ [(e, .ok receipt)] } [(e, .ok receipt)] :=
        ⟨rfl, rfl, rfl, List.forall_mem_singleton.mpr (by rw [he])⟩
      dsimp only
      split_ifs with hfull
      · refine ⟨[(e, .ok receipt)], hfirst, by simp, ?_⟩
        exact ⟨[receipt], rfl, .cons hreturned .nil, List.forall_mem_singleton.mpr hoverrun⟩
      · obtain ⟨calls, hrest, -, houtcome⟩ := ih (i + 1) (receipts ++ [receipt])
          { s with
            bus
            ledger := (s.ledger.appendReceipt H receipt).2
            calls := s.calls ++ [(e, .ok receipt)] }
        exact ⟨_, hfirst.cons hrest, by simp, houtcome.cons hreturned hoverrun⟩

/-! ### A phase -/

/-- The slots that a phase's workers returned. -/
def PhaseRun.produced (run : PhaseRun R F) : List (ArtifactSlot F) :=
  run.calls.flatMap fun c => c.1.returned

/-- Every receipt is of a success, and every required worker has one. -/
structure PhaseRun.Sound (run : PhaseRun R F) : Prop where
  succeeded : ∀ c ∈ run.calls, ∃ r, c.2 = .ok r ∧ r.status = .success
  required : ∀ config, run.config = some config → ∀ id ∈ config.requiredWorkerIds,
    ∃ c ∈ run.calls, ∃ r, c.2 = .ok r ∧ r.workerId = id ∧ r.status = .success

/-- A kernel that is not open lets a phase pass only if it is sound. -/
theorem sound_of_merge (hclosed : kernel.failOpen = false)
    (hreturned : List.Forall₂ (Returned chance) calls receipts)
    (hmerge : kernel.mergePhase config receipts ≠ .fail) :
    PhaseRun.Sound ⟨phaseName, some config, calls⟩ := by
  rw [CentralOrchestratorKernel.mergePhase] at hmerge
  split_ifs at hmerge with hmissing hfailed
  · exact absurd rfl hmerge
  · exact absurd rfl hmerge
  · constructor
    · intro c hc
      obtain ⟨r, hr, hcall⟩ := exists_right hreturned hc
      refine ⟨r, hcall.ok, ?_⟩
      have hstatus := fun hbad => hfailed (List.any_eq_true.mpr ⟨r, hr, hbad⟩)
      have hpending := hcall.concluded
      rw [hclosed] at hstatus
      cases hvalue : r.status <;> simp_all
    · intro config' hconfig id hid
      obtain rfl := Option.some.inj hconfig
      push Not at hmissing
      obtain ⟨r, hr, hworker⟩ := hmissing id hid
      obtain ⟨c, hc, hcall⟩ := exists_left hreturned hr
      exact ⟨c, hc, r, hcall.ok, hworker⟩

/-- The boundary that a phase ends with. -/
structure Bounds (H : Digest) (chance : Chance R) (s s' : MeshState R F) (run : PhaseRun R F)
    (b : PhaseBoundaryReceipt) : Prop where
  appended : s'.ledger.boundaries = s.ledger.boundaries ++ [b]
  phase : b.phase = run.phaseName
  unmerged : b.mergedOutputSlotId = none
  linked : b.previousBoundaryHash = boundaryLinks.lastDigest "" s.ledger.boundaries
  hashed : b.boundaryHash = b.computeHash H
  drawn : ∀ id ∈ b.workerReceiptIds, ∃ k, id = (chance.execution k).receiptId
  counted : b.workerReceiptIds = [] ↔ run.calls = []

variable (H chance) in
theorem bounds_appendBoundary (run : PhaseRun R F) (status : PhaseStatus)
    (phases : List (PhaseRun R F)) {s₁ : MeshState R F} {ids : List String}
    (hboundaries : s₁.ledger.boundaries = s.ledger.boundaries) (hname : phaseName = run.phaseName)
    (hdrawn : ∀ id ∈ ids, ∃ k, id = (chance.execution k).receiptId)
    (hcounted : ids = [] ↔ run.calls = []) :
    ∃ b, Bounds H chance s { CentralOrchestratorKernel.appendBoundary H chance phaseName ids
      status s₁ with phases } run b := by
  have happended : (CentralOrchestratorKernel.appendBoundary H chance phaseName ids status
      s₁).ledger.boundaries = s.ledger.boundaries ++ [_] := congrArg (· ++ [_]) hboundaries
  refine ⟨_, happended, hname, rfl, ?_, rfl, hdrawn, hcounted⟩
  · show s₁.ledger.boundaries.getLast?.elim "" (·.boundaryHash) = _
    rw [hboundaries, Links.lastDigest]
    cases s.ledger.boundaries.getLast? <;> rfl

/-- A phase that is not raised out of. -/
structure Passed (N : Floats R) (H : Digest) (chance : Chance R) (s s' : MeshState R F)
    (run : PhaseRun R F) : Prop where
  within : ∀ c ∈ run.calls, ¬ c.1.Overrun N
  bounded : ∃ b, Bounds H chance s s' run b

/-- How a phase ends. -/
def Ended (N : Floats R) (H : Digest) (kernel : CentralOrchestratorKernel F) (chance : Chance R)
    (s s' : MeshState R F) (run : PhaseRun R F) : Flow → Prop
  | .raised _ => s'.ledger.boundaries = s.ledger.boundaries ∧ ∃ c ∈ run.calls, c.1.Overrun N
  | .closed => Passed N H chance s s' run
  | .continued => Passed N H chance s s' run ∧ (kernel.failOpen = false → run.Sound)

/-- A phase that was reached: its name, its configuration and the inputs of its workers. -/
structure Entered (kernel : CentralOrchestratorKernel F) (initialSlotIds : List String)
    (phaseName : String) (s s' : MeshState R F) (run : PhaseRun R F) : Prop where
  reached : s'.phases = s.phases ++ [run]
  called : s'.calls = s.calls ++ run.calls
  name : run.phaseName = phaseName
  config : run.config = kernel.config phaseName
  inputs : ∀ c ∈ run.calls, c.1.inputSlotIds =
    CentralOrchestratorKernel.resolvePhaseInputs s.ledger phaseName initialSlotIds
  idle : run.calls = [] ↔ kernel.Idle phaseName

variable (N T H chance kernel) in
theorem runPhase_spec (initialSlotIds : List String) (phaseName : String) (s : MeshState R F) :
    ∃ run, Entered kernel initialSlotIds phaseName s
        (kernel.runPhase N T H chance initialSlotIds phaseName s).2 run ∧
      Ended N H kernel chance s (kernel.runPhase N T H chance initialSlotIds phaseName s).2 run
        (kernel.runPhase N T H chance initialSlotIds phaseName s).1 := by
  rw [CentralOrchestratorKernel.runPhase]
  cases hconfig : kernel.config phaseName with
  | none =>
    let run : PhaseRun R F := ⟨phaseName, none, []⟩
    have hsame : s.ledger.boundaries = s.ledger.boundaries := rfl
    have hbounds := bounds_appendBoundary H chance run .success (s.phases ++ [run]) hsame rfl
      (List.forall_mem_nil _) (iff_of_true rfl rfl)
    refine ⟨run, ⟨rfl, (List.append_nil _).symm, rfl, hconfig.symm, List.forall_mem_nil _, ?_⟩,
      ⟨List.forall_mem_nil _, hbounds⟩, fun _ => ⟨List.forall_mem_nil _, ?_⟩⟩
    · exact iff_of_true rfl fun config hsome => by rw [hconfig] at hsome; cases hsome
    · intro config hnone
      cases hnone
  | some config =>
    obtain ⟨calls, hexecuted, hidle, houtcome⟩ := runFrom_spec N T H chance config
      (CentralOrchestratorKernel.resolvePhaseInputs s.ledger phaseName initialSlotIds)
      0 config.workerClasses [] s
    dsimp only
    obtain ⟨result, s₁, hrun⟩ : ∃ result s₁, config.runFrom N T H chance
        (CentralOrchestratorKernel.resolvePhaseInputs s.ledger phaseName initialSlotIds) 0
        config.workerClasses [] s = (result, s₁) := ⟨_, _, rfl⟩
    rw [hrun] at hexecuted houtcome ⊢
    dsimp only at hexecuted houtcome ⊢
    have hcalls : s₁.calls.drop s.calls.length = calls := by
      rw [hexecuted.called, List.drop_left]
    rw [hcalls]
    let run : PhaseRun R F := ⟨phaseName, some config, calls⟩
    have hidle' : run.calls = [] ↔ kernel.Idle phaseName := by
      rw [CentralOrchestratorKernel.Idle, hconfig]
      exact hidle.trans ⟨fun hnil c hc => by rw [← Option.some.inj hc]; exact hnil,
        fun hall => hall config rfl⟩
    have hentered : ∀ s' : MeshState R F, s'.phases = s₁.phases ++ [run] → s'.calls = s₁.calls →
        Entered kernel initialSlotIds phaseName s s' run := fun s' hphases hcalls' =>
      ⟨by rw [hphases, hexecuted.phases], by rw [hcalls', hexecuted.called], rfl,
        hconfig.symm, hexecuted.inputs, hidle'⟩
    cases result with
    | error error => exact ⟨run, hentered _ rfl rfl, hexecuted.boundaries, houtcome⟩
    | ok receipts =>
      obtain ⟨new, hnew, hreturned, hwithin⟩ := houtcome
      rw [List.nil_append] at hnew
      subst hnew
      have hdrawn : ∀ id ∈ receipts.map (·.receiptId), ∃ k,
          id = (chance.execution k).receiptId := by
        intro id hid
        obtain ⟨r, hr, rfl⟩ := List.mem_map.mp hid
        obtain ⟨c, -, hcall⟩ := exists_left hreturned hr
        exact hcall.drawn
      have hcounted : receipts.map (·.receiptId) = [] ↔ run.calls = [] := by
        rw [List.map_eq_nil_iff, ← List.length_eq_zero_iff, ← hreturned.length_eq,
          List.length_eq_zero_iff]
      have hbounds := bounds_appendBoundary H chance run (kernel.mergePhase config receipts)
        (s₁.phases ++ [run]) hexecuted.boundaries rfl hdrawn hcounted
      dsimp only
      split_ifs with hfail
      · exact ⟨run, hentered _ rfl rfl, hwithin, hbounds⟩
      · refine ⟨run, hentered _ rfl rfl, ⟨hwithin, hbounds⟩, fun hclosed => ?_⟩
        refine sound_of_merge hclosed hreturned fun hmerge => hfail ?_
        rw [hmerge, hclosed]
        rfl

/-! ### The pipeline -/

/-- What is known of each phase that was reached. -/
structure Unfed (kernel : CentralOrchestratorKernel F) (run : PhaseRun R F) : Prop where
  config : run.config = kernel.config run.phaseName
  inputs : run.phaseName ≠ "INGEST" → ∀ c ∈ run.calls, c.1.inputSlotIds = []
  idle : run.calls = [] ↔ kernel.Idle run.phaseName

/-- No call of the phase overran. -/
def PhaseRun.Within (N : Floats R) (run : PhaseRun R F) : Prop :=
  ∀ c ∈ run.calls, ¬ c.1.Overrun N

/-- A run that has come through some phases. -/
structure Progress (N : Floats R) (kernel : CentralOrchestratorKernel F)
    (boundaries : List PhaseBoundaryReceipt) (done : List String) (s : MeshState R F) : Prop where
  names : s.phases.map (·.phaseName) = done
  unfed : ∀ run ∈ s.phases, Unfed kernel run
  within : ∀ run ∈ s.phases, run.Within N
  sound : ∀ run ∈ s.phases, run.Sound
  bounded : ∃ new, s.ledger.boundaries = boundaries ++ new ∧ new.map (·.phase) = done ∧
    ∀ b ∈ new, b.mergedOutputSlotId = none

/-- The phase before one in the order is the last that is done. -/
theorem prevPhase_eq {done rest : List String}
    (horder : done ++ phaseName :: rest = phaseOrder) (hlater : phaseName ≠ "INGEST") :
    done.getLast? = some (phaseOrder.getD (phaseOrder.idxOf phaseName - 1) "") := by
  have hnodup : phaseOrder.Nodup := by decide
  rw [← horder] at hnodup ⊢
  have hnew : phaseName ∉ done := fun hmem =>
    List.disjoint_of_nodup_append hnodup hmem (List.mem_cons_self ..)
  rw [List.idxOf_append_of_notMem hnew, List.idxOf_cons_self, Nat.add_zero]
  cases done using List.reverseRecOn with
  | nil => exact absurd (List.cons.inj horder).1 hlater
  | append_singleton front prev => simp

/-- Behind a first phase there is nothing to run on. -/
theorem resolvePhaseInputs_eq {done rest : List String}
    (hprogress : Progress N kernel boundaries done s)
    (horder : done ++ phaseName :: rest = phaseOrder) (hlater : phaseName ≠ "INGEST")
    (initialSlotIds : List String) :
    CentralOrchestratorKernel.resolvePhaseInputs s.ledger phaseName initialSlotIds = [] := by
  obtain ⟨new, hboundaries, hphases, hunmerged⟩ := hprogress.bounded
  have hprev := prevPhase_eq horder hlater
  rw [← hphases, List.getLast?_map] at hprev
  obtain ⟨b, hb, hphase⟩ := Option.map_eq_some_iff.mp hprev
  obtain ⟨front, rfl⟩ := List.getLast?_eq_some_iff.mp hb
  have hlast : s.ledger.lastBoundaryForPhase
      (phaseOrder.getD (phaseOrder.idxOf phaseName - 1) "") = some b := by
    rw [OrchestrationLedger.lastBoundaryForPhase, hboundaries, ← List.append_assoc,
      List.reverse_append, List.reverse_singleton, List.singleton_append]
    exact List.find?_cons_of_pos (decide_eq_true hphase)
  rw [CentralOrchestratorKernel.resolvePhaseInputs, if_neg hlater]
  dsimp only
  rw [hlast, Option.bind_some, hunmerged b (List.mem_append_right _ (List.mem_singleton_self b))]

/-- The run that a phase adds. -/
theorem Entered.unfed (hentered : Entered kernel initialSlotIds phaseName s s' run)
    (hprogress : Progress N kernel boundaries done s)
    (horder : done ++ phaseName :: rest = phaseOrder) : Unfed kernel run where
  config := by
    rw [hentered.name]
    exact hentered.config
  inputs := by
    intro hlater c hc
    rw [hentered.name] at hlater
    rw [hentered.inputs c hc, resolvePhaseInputs_eq hprogress horder hlater]
  idle := by
    rw [hentered.name]
    exact hentered.idle

/-- A sound phase that is passed is progress. -/
theorem Progress.phase (hprogress : Progress N kernel boundaries done s)
    (hentered : Entered kernel initialSlotIds phaseName s s' run)
    (hpassed : Passed N H chance s s' run) (hsound : run.Sound)
    (horder : done ++ phaseName :: rest = phaseOrder) :
    Progress N kernel boundaries (done ++ [phaseName]) s' := by
  have hall : ∀ {P : PhaseRun R F → Prop}, (∀ r ∈ s.phases, P r) → P run →
      ∀ r ∈ s'.phases, P r := by
    intro P hbefore hlast r hr
    rw [hentered.reached] at hr
    rcases List.mem_append.mp hr with hr | hr
    · exact hbefore r hr
    · rwa [List.mem_singleton.mp hr]
  refine ⟨?_, hall hprogress.unfed (hentered.unfed hprogress horder),
    hall hprogress.within hpassed.within, hall hprogress.sound hsound, ?_⟩
  · rw [hentered.reached, List.map_append, hprogress.names, List.map_singleton, hentered.name]
  · obtain ⟨new, hboundaries, hphases, hunmerged⟩ := hprogress.bounded
    obtain ⟨b, hb⟩ := hpassed.bounded
    refine ⟨new ++ [b], ?_, ?_, ?_⟩
    · rw [hb.appended, hboundaries, List.append_assoc]
    · rw [List.map_append, hphases, List.map_singleton, hb.phase, hentered.name]
    · intro b' hb'
      rcases List.mem_append.mp hb' with hb' | hb'
      · exact hunmerged b' hb'
      · rw [List.mem_singleton.mp hb']
        exact hb.unmerged

/-- A run that has ended. -/
structure Concluded (N : Floats R) (kernel : CentralOrchestratorKernel F)
    (boundaries : List PhaseBoundaryReceipt) (s : MeshState R F) : Prop where
  names : s.phases.map (·.phaseName) <+: phaseOrder
  unfed : ∀ run ∈ s.phases, Unfed kernel run
  sound : s.phases.Pairwise fun earlier _ => earlier.Sound
  bounded : s.ledger.boundaries.map (·.phase) =
      boundaries.map (·.phase) ++ s.phases.map (·.phaseName) ↔ ∀ run ∈ s.phases, run.Within N

theorem Progress.boundaries_eq {done : List String}
    (hprogress : Progress N kernel boundaries done s) :
    s.ledger.boundaries.map (·.phase) =
      boundaries.map (·.phase) ++ s.phases.map (·.phaseName) := by
  obtain ⟨new, hboundaries, hphases, -⟩ := hprogress.bounded
  rw [hboundaries, List.map_append, hphases, hprogress.names]

/-- A phase behind which no other is reached. -/
theorem Progress.last (hprogress : Progress N kernel boundaries done s)
    (hentered : Entered kernel initialSlotIds phaseName s s' run)
    (horder : done ++ phaseName :: rest = phaseOrder)
    (hbounded : s'.ledger.boundaries.map (·.phase) = s.ledger.boundaries.map (·.phase) ++
      [phaseName] ↔ run.Within N) : Concluded N kernel boundaries s' := by
  refine ⟨?_, ?_, ?_, ?_⟩
  · rw [hentered.reached, List.map_append, hprogress.names, List.map_singleton, hentered.name]
    exact ⟨rest, by rw [List.append_assoc, List.singleton_append, horder]⟩
  · rw [hentered.reached]
    intro r hr
    rcases List.mem_append.mp hr with hr | hr
    · exact hprogress.unfed r hr
    · rw [List.mem_singleton.mp hr]
      exact hentered.unfed hprogress horder
  · rw [hentered.reached]
    refine List.pairwise_append.mpr ⟨?_, List.pairwise_singleton _ _, fun r hr _ _ =>
      hprogress.sound r hr⟩
    exact List.pairwise_iff_forall_sublist.mpr fun hsub =>
      hprogress.sound _ (hsub.subset (List.mem_cons_self ..))
  · rw [hentered.reached, List.map_append, List.map_singleton, hentered.name, ← List.append_assoc,
      ← hprogress.boundaries_eq, hbounded]
    refine ⟨fun hwithin r hr => ?_, fun hall => hall run (List.mem_append_right _
      (List.mem_singleton_self run))⟩
    rcases List.mem_append.mp hr with hr | hr
    · exact hprogress.within r hr
    · rwa [List.mem_singleton.mp hr]

theorem Passed.bounded_iff
    (hpassed : Passed N H chance s s' run) (hname : run.phaseName = phaseName) :
    s'.ledger.boundaries.map (·.phase) = s.ledger.boundaries.map (·.phase) ++ [phaseName] ↔
      run.Within N := by
  obtain ⟨b, hb⟩ := hpassed.bounded
  refine iff_of_true ?_ hpassed.within
  rw [hb.appended, List.map_append, List.map_singleton, hb.phase, hname]

theorem runPhases_concluded (hclosed : kernel.failOpen = false) {done : List String}
    (rest initialSlotIds : List String) (hprogress : Progress N kernel boundaries done s)
    (horder : done ++ rest = phaseOrder) :
    Concluded N kernel boundaries (kernel.runPhases N T H chance initialSlotIds rest s).2 := by
  induction rest generalizing done s with
  | nil =>
    rw [List.append_nil] at horder
    refine ⟨?_, hprogress.unfed, ?_, iff_of_true hprogress.boundaries_eq hprogress.within⟩
    · rw [← horder]
      exact hprogress.names ▸ List.prefix_rfl
    · exact List.pairwise_iff_forall_sublist.mpr fun hsub =>
        hprogress.sound _ (hsub.subset (List.mem_cons_self ..))
  | cons phaseName rest ih =>
    obtain ⟨run, hentered, hended⟩ := runPhase_spec N T H chance kernel initialSlotIds phaseName s
    obtain ⟨flow, s₁, hrun⟩ : ∃ flow s₁, kernel.runPhase N T H chance initialSlotIds phaseName s =
      (flow, s₁) := ⟨_, _, rfl⟩
    rw [hrun] at hentered hended
    rw [CentralOrchestratorKernel.runPhases, hrun]
    cases flow with
    | raised error =>
      obtain ⟨hboundaries, c, hc, hoverrun⟩ := hended
      refine hprogress.last hentered horder (iff_of_false ?_ fun hwithin => hwithin c hc hoverrun)
      rw [hboundaries]
      intro heq
      have hlength := congrArg List.length heq
      rw [List.length_append, List.length_singleton] at hlength
      omega
    | closed =>
      have hlast := hprogress.last hentered horder (hended.bounded_iff hentered.name)
      exact ⟨hlast.names, hlast.unfed, hlast.sound, hlast.bounded⟩
    | continued =>
      refine ih (hprogress.phase hentered hended.1 (hended.2 hclosed) horder) ?_
      rw [List.append_assoc, List.singleton_append, horder]

/-! ### What a pipeline owes -/

/-- All workers of a phase are executed, each on slots derived from what the phase before brought,
and on one at least. -/
structure Fed (derived : String → List (ArtifactSlot F) → Prop) (previous next : PhaseRun R F) :
    Prop where
  executed : ∀ config, next.config = some config → next.calls.length = config.workerClasses.length
  inputs : ∀ c ∈ next.calls, c.1.inputSlotIds ≠ [] ∧
    ∀ slotId ∈ c.1.inputSlotIds, derived slotId previous.produced

/-- Phases are fed, bounded one by one in their order, and end with the first that fails. -/
structure Connected (derived : String → List (ArtifactSlot F) → Prop)
    (boundaries : List PhaseBoundaryReceipt) (s : MeshState R F) : Prop where
  fed : s.phases.IsChain fun previous next => previous.produced ≠ [] → Fed derived previous next
  ordered : s.phases.map (·.phaseName) <+: phaseOrder
  bounded : s.ledger.boundaries.map (·.phase) =
    boundaries.map (·.phase) ++ s.phases.map (·.phaseName)
  failClosed : s.phases.Pairwise fun earlier later => ¬ earlier.Sound → later.calls = []

/-- Every run of a worker is within its limits, and a phase with workers follows one that brought
nothing. -/
structure Standalone (N : Floats R) (kernel : CentralOrchestratorKernel F)
    (s : MeshState R F) : Prop where
  within : ∀ run ∈ s.phases, run.Within N
  unneeded : s.phases.IsChain fun previous next => previous.produced = [] ∨
    kernel.Idle next.phaseName

/-- No phase but the first is the first. -/
theorem Concluded.later (hconcluded : Concluded N kernel boundaries s) :
    s.phases.IsChain fun _ next => next.phaseName ≠ "INGEST" := by
  have horder : phaseOrder.IsChain fun _ next => next ≠ "INGEST" := by decide
  obtain ⟨rest, hrest⟩ := hconcluded.names
  rw [← hrest] at horder
  exact (List.isChain_map _).mp (List.isChain_append.mp horder).1

/-- A phase behind the first has workers that are fed only if it has no workers. -/
theorem Concluded.fed_iff (hconcluded : Concluded N kernel boundaries s)
    (derived : String → List (ArtifactSlot F) → Prop) :
    (s.phases.IsChain fun previous next => previous.produced ≠ [] → Fed derived previous next) ↔
      s.phases.IsChain fun previous next => previous.produced = [] ∨
        kernel.Idle next.phaseName := by
  have hlater := List.isChain_iff_getElem.mp hconcluded.later
  rw [List.isChain_iff_getElem, List.isChain_iff_getElem]
  refine forall₂_congr fun i hi => ?_
  have hunfed := hconcluded.unfed _ (List.getElem_mem hi)
  have hempty := hunfed.inputs (hlater i hi)
  rw [or_iff_not_imp_left]
  refine imp_congr_right fun _ => ⟨fun hfed => ?_, fun hidle => ?_⟩
  · refine hunfed.idle.mp (List.eq_nil_iff_forall_not_mem.mpr fun c hc => ?_)
    exact (hfed.inputs c hc).1 (hempty c hc)
  · have hnone := hunfed.idle.mpr hidle
    refine ⟨fun config hconfig => ?_, fun c hc => ?_⟩
    · rw [hunfed.config] at hconfig
      rw [hnone, hidle config hconfig]
      rfl
    · rw [hnone] at hc
      cases hc

end Kernel

/-- A pipeline that fails closed is connected exactly when no worker overruns its limits and each
phase with workers follows one that brought no slot. -/
theorem connected_iff {R F : Type} (N : Floats R) (T : FloatTexts R) (H : Digest)
    (kernel : CentralOrchestratorKernel F) (hclosed : kernel.failOpen = false)
    (derived : String → List (ArtifactSlot F) → Prop) (chance : Chance R)
    (initialSlotIds : List String) (bus : ArtifactBus F) (ledger : OrchestrationLedger R) :
    Connected derived ledger.boundaries
        (kernel.runPipeline N T H chance initialSlotIds bus ledger).2 ↔
      Standalone N kernel (kernel.runPipeline N T H chance initialSlotIds bus ledger).2 := by
  have hprogress : Progress N kernel ledger.boundaries [] (⟨bus, ledger, [], []⟩ : MeshState R F) :=
    ⟨rfl, List.forall_mem_nil _, List.forall_mem_nil _, List.forall_mem_nil _, [],
      (List.append_nil _).symm, rfl, List.forall_mem_nil _⟩
  have hconcluded : Concluded N kernel ledger.boundaries
      (kernel.runPipeline N T H chance initialSlotIds bus ledger).2 :=
    runPhases_concluded hclosed phaseOrder initialSlotIds hprogress rfl
  constructor
  · intro hconnected
    exact ⟨hconcluded.bounded.mp hconnected.bounded,
      (hconcluded.fed_iff derived).mp hconnected.fed⟩
  · intro hstandalone
    refine ⟨(hconcluded.fed_iff derived).mpr hstandalone.unneeded, hconcluded.names,
      hconcluded.bounded.mpr hstandalone.within, ?_⟩
    exact hconcluded.sound.imp fun hsound hnot => absurd hsound hnot

/-! ### Seven phases of one worker -/

/-- It writes one slot, whatever it is given. -/
def dummyWorker : WorkerClass Literal where
  name := "_DummyWorker"
  run := fun workerId phase _ uuids bus =>
    let slot : ArtifactSlot Literal :=
      { slotId := "slot_" ++ uuids 0
        slotVersion := 1
        producerWorkerId := workerId
        artifactType := "DummyOutput"
        schemaVersion := "0.0.0"
        payload := .dict [(.str (ofString "phase"), .str (ofString phase))]
        fingerprint := ""
        provenanceReceiptIds := [] }
    match bus.write prefixDigest slot with
    | .ok (frozen, bus) => (.returned [frozen], bus)
    | .error _ => (.raised "TypeError" "", bus)

def dummies : CentralOrchestratorKernel Literal where
  phases := phaseOrder.map fun name => ⟨name, [dummyWorker], 8, []⟩
  failOpen := false

/-- One clock reading, and ids by number. -/
def numbered (name : String) : Chance ℚ where
  execution n := ⟨"rcpt_" ++ name ++ toString n, ⟨0, maxInstant_pos⟩, 0,
    fun m => name ++ toString n ++ "_" ++ toString m⟩
  boundary n := ("bnd_" ++ name ++ toString n, ⟨0, maxInstant_pos⟩)
  closing := ⟨0, maxInstant_pos⟩

def dummyRun (name : String) : Option MeshError × MeshState ℚ Literal :=
  dummies.runPipeline Python.exact noTexts prefixDigest (numbered name) [] .empty ⟨[], [], none⟩

theorem dummyRun_phases : ((dummyRun "a").2.phases.map fun run =>
    (run.produced.length, run.calls.map fun c => c.1.inputSlotIds)) =
      List.replicate 7 (1, [[]]) := by
  decide +kernel

/-- A slot is derived if it is one of those that were brought. -/
def Brought (slotId : String) (slots : List (ArtifactSlot Literal)) : Prop :=
  slotId ∈ slots.map (·.slotId)

/-- From the second phase on they run on nothing, though the one before brought a slot. -/
theorem dummies_unfed : ¬ Connected Brought [] (dummyRun "a").2 := by
  intro hconnected
  have hphases := dummyRun_phases
  have hfed := hconnected.fed
  generalize (dummyRun "a").2.phases = phases at hphases hfed
  rcases phases with _ | ⟨first, _ | ⟨second, rest⟩⟩
  · exact absurd (congrArg List.length hphases) (by simp)
  · exact absurd (congrArg List.length hphases) (by simp)
  · have hfirst := (List.cons.inj hphases).1
    have hsecond := (List.cons.inj (List.cons.inj hphases).2).1
    have hproduced : first.produced.length = 1 := congrArg Prod.fst hfirst
    have hinputs : second.calls.map (fun c => c.1.inputSlotIds) = [[]] :=
      congrArg Prod.snd hsecond
    obtain ⟨call, hcall⟩ := List.map_eq_singleton_iff.mp hinputs
    have hsome : first.produced ≠ [] := fun hnil => by rw [hnil] at hproduced; cases hproduced
    have hmem : call ∈ second.calls := by
      rw [hcall.1]
      exact List.mem_singleton_self call
    exact (((List.isChain_cons_cons.mp hfed).1 hsome).inputs call hmem).1 hcall.2

theorem connected_dummies :
    ¬ Connected Brought [] (dummyRun "a").2 ∧
      ¬ Standalone Python.exact dummies (dummyRun "a").2 :=
  ⟨dummies_unfed, (connected_iff Python.exact noTexts prefixDigest dummies rfl Brought
    (numbered "a") [] .empty ⟨[], [], none⟩).not.mp dummies_unfed⟩

/-- All phases are configured and bring a slot. -/
theorem dummies_not_connected :
    (∀ name ∈ phaseOrder, ∃ config, dummies.config name = some config ∧
      (config.workerClasses.length : Int) ≤ config.maxFanout) ∧
    ¬ Connected Brought [] (dummyRun "a").2 := by
  refine ⟨fun name hname => ?_, dummies_unfed⟩
  have hfanout : ((1 : Nat) : Int) ≤ 8 := by decide
  refine ⟨⟨name, [dummyWorker], 8, []⟩, ?_, hfanout⟩
  have hlookup := Dict.get?_ofList_map phaseOrder
    (fun name => (⟨name, [dummyWorker], 8, []⟩ : PhaseConfig Literal)) name
  rw [if_pos hname] at hlookup
  rw [CentralOrchestratorKernel.config, dummies, List.map_map]
  exact hlookup

end PiPlatform.Mesh
