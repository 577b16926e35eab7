import PiPlatform.EventFabric.Bus.Reproducible
import PiPlatform.Library.Python.Floats
import PiPlatform.Mesh.Receipts

/-! Workers, and the receipts of their executions.

Each way out of an execution makes a receipt, has the ledger append a linked copy and returns the
receipt itself. The two ways out behind a run that took too long or brought too much hand over
the slots where their ids are wanted, and raise where there are any. So what is returned is what
was appended exactly for the first receipt of a ledger, unless such a run has slots
(`receipts_match_iff`). -/
namespace PiPlatform.Mesh

open Library Library.Json Library.Python Library.Calendar EventFabric

/-! ### The bus -/

structure ArtifactSlot (F : Type) where
  slotId : String
  slotVersion : Int
  producerWorkerId : String
  artifactType : String
  schemaVersion : String
  payload : PyValue F
  fingerprint : String
  provenanceReceiptIds : List String

structure ArtifactBus (F : Type) where
  slots : Dict String (ArtifactSlot F)
  slotVersions : Dict String (List String)

section Bus
variable {F : Type} [FloatCodec F] [SetText F] (H : Digest)

def ArtifactSlot.computeFingerprint (slot : ArtifactSlot F) : Except PyError String := do
  return H.hex (← dumps .compact slot.payload)

def ArtifactSlot.freeze (slot : ArtifactSlot F) : Except PyError (ArtifactSlot F) := do
  return { slot with fingerprint := ← slot.computeFingerprint H }

namespace ArtifactBus

def empty : ArtifactBus F := ⟨.empty, .empty⟩

def write (bus : ArtifactBus F) (slot : ArtifactSlot F) :
    Except PyError (ArtifactSlot F × ArtifactBus F) := do
  let frozen ← slot.freeze H
  let family := frozen.artifactType ++ ":" ++ frozen.producerWorkerId
  let versions := (bus.slotVersions.get? family).getD []
  return (frozen,
    { slots := bus.slots.set frozen.slotId frozen
      slotVersions := bus.slotVersions.set family (versions ++ [frozen.slotId]) })

omit [FloatCodec F] [SetText F] in
def read (bus : ArtifactBus F) (slotId : String) : Option (ArtifactSlot F) := bus.slots.get? slotId

end ArtifactBus

end Bus

/-! ### Workers -/

/-- How floats are shown: `f"{x:.{digits}f}"` and `str(x)`. -/
structure FloatTexts (R : Type) where
  fixed : R → Nat → String
  str : R → String

structure WorkerContract (R : Type) where
  workerClass : String
  requiredInputArtifactTypes : List String
  maxExecutionMs : R
  maxInputSlots : Int
  maxOutputSlots : Int

/-- The contract of a class alone. -/
def WorkerContract.new {R : Type} (N : Floats R) (workerClass : String) : WorkerContract R where
  workerClass := workerClass
  requiredInputArtifactTypes := []
  maxExecutionMs := N.ofNat 30000
  maxInputSlots := 16
  maxOutputSlots := 16

/-- What comes of `_run`: slots, or an exception by its type and text. -/
inductive RunOutcome (F : Type) where
  | returned (slots : List (ArtifactSlot F))
  | raised (typeName message : String)

/-- `_run`, of a worker's id, the phase, the inputs, what it draws of `uuid4` and the bus. -/
abbrev Run (F : Type) := String → String → List String → (Nat → String) → ArtifactBus F →
  RunOutcome F × ArtifactBus F

structure WorkerBase (R F : Type) where
  workerId : String
  contract : WorkerContract R
  run : Run F
  spawned : Bool
  modifiedContract : Bool

/-- What an execution has of chance and of the clock. -/
structure Outside (R : Type) where
  receiptId : String
  timestamp : Instant
  elapsed : R
  uuids : Nat → String

/-- What is given to `_make_receipt` for ids. -/
inductive OutputIds (F : Type) where
  | ids (slotIds : List String)
  | slots (slots : List (ArtifactSlot F))

inductive MeshError where
  /-- Slots cannot be sorted. -/
  | typeError
  /-- A slot is no string. -/
  | validationError
  deriving DecidableEq

/-- Sorted, and checked to be texts. -/
def OutputIds.sortedIds {F : Type} : OutputIds F → Except MeshError (List String)
  | ids slotIds => .ok (sorted slotIds)
  | slots [] => .ok []
  | slots [_] => .error .validationError
  | slots _ => .error .typeError

section Workers
variable {R F : Type} (N : Floats R) (T : FloatTexts R) (H : Digest)

/-- The first input that is missing or of a type that is not required. -/
def WorkerContract.inputFault (contract : WorkerContract R) (bus : ArtifactBus F) :
    List String → Option String
  | [] => none
  | sid :: sids =>
    match bus.read sid with
    | none => some ("Missing slot: " ++ sid)
    | some slot =>
      if slot.artifactType ∉ contract.requiredInputArtifactTypes ∧
          contract.requiredInputArtifactTypes ≠ [] then
        some ("Unexpected artifact type: " ++ slot.artifactType)
      else contract.inputFault bus sids

def computeDeterminismProof (slots : List (ArtifactSlot F)) : String :=
  if slots = [] then "" else H.hex (String.join (slots.map (·.fingerprint)))

namespace WorkerBase
variable (w : WorkerBase R F)

/-- Why `_run` is not called. -/
def refusal (inputSlotIds : List String) (bus : ArtifactBus F) : Option (Status × String) :=
  if w.spawned then some (.panic, "Worker attempted recursive spawn")
  else if w.modifiedContract then some (.panic, "Worker attempted contract mutation")
  else if w.contract.maxInputSlots < inputSlotIds.length then
    some (.resourceExceeded, "Inputs " ++ toString inputSlotIds.length ++ " > max " ++
      toString w.contract.maxInputSlots)
  else (w.contract.inputFault bus inputSlotIds).map fun detail => (.schemaMismatch, detail)

/-- The receipt is returned as it was before the ledger linked it. -/
def makeReceipt (outside : Outside R) (ledger : OrchestrationLedger R) (phase : String)
    (inputSlotIds : List String) (outputSlotIds : OutputIds F) (status : Status)
    (statusDetail : String) (resourceUsage : List (String × R)) (determinismProof : String) :
    Except MeshError (ExecutionReceipt R) × OrchestrationLedger R :=
  match outputSlotIds.sortedIds with
  | .error e => (.error e, ledger)
  | .ok outputSlotIds =>
    let receipt : ExecutionReceipt R :=
      { receiptId := outside.receiptId
        workerClass := w.contract.workerClass
        workerId := w.workerId
        phase, status, statusDetail, determinismProof, resourceUsage, outputSlotIds
        inputSlotIds := sorted inputSlotIds
        previousReceiptHash := ""
        receiptHash := ""
        timestamp := outside.timestamp }
    let receipt := { receipt with receiptHash := receipt.computeHash H }
    (.ok receipt, (ledger.appendReceipt H receipt).2)

/-- The receipt of what `_run` came to. -/
def conclude (outside : Outside R) (ledger : OrchestrationLedger R) (phase : String)
    (inputSlotIds : List String) :
    RunOutcome F → Except MeshError (ExecutionReceipt R) × OrchestrationLedger R
  | .raised typeName message =>
    w.makeReceipt H outside ledger phase inputSlotIds (.ids []) .fail
      ("Exception: " ++ typeName ++ ": " ++ message) [("cpu_ms", outside.elapsed)] ""
  | .returned slots =>
    if N.lt w.contract.maxExecutionMs outside.elapsed then
      w.makeReceipt H outside ledger phase inputSlotIds (.slots slots) .timeout
        ("Elapsed " ++ T.fixed outside.elapsed 1 ++ "ms > max " ++
          T.str w.contract.maxExecutionMs ++ "ms")
        [("cpu_ms", outside.elapsed)] ""
    else if w.contract.maxOutputSlots < slots.length then
      w.makeReceipt H outside ledger phase inputSlotIds (.slots slots) .resourceExceeded
        ("Outputs " ++ toString slots.length ++ " > max " ++
          toString w.contract.maxOutputSlots)
        [("cpu_ms", outside.elapsed)] ""
    else
      w.makeReceipt H outside ledger phase inputSlotIds (.ids (slots.map (·.slotId))) .success ""
        [("cpu_ms", outside.elapsed), ("memory_mb", N.ofNat 0)]
        (computeDeterminismProof H slots)

/-- What is returned or raised, the bus and the ledger. -/
def execute (outside : Outside R) (phase : String) (inputSlotIds : List String)
    (bus : ArtifactBus F) (ledger : OrchestrationLedger R) :
    Except MeshError (ExecutionReceipt R) × ArtifactBus F × OrchestrationLedger R :=
  match w.refusal inputSlotIds bus with
  | some (status, detail) =>
    let (result, ledger) :=
      w.makeReceipt H outside ledger phase inputSlotIds (.ids []) status detail [] ""
    (result, bus, ledger)
  | none =>
    let (outcome, bus) := w.run w.workerId phase inputSlotIds outside.uuids bus
    let (result, ledger) := w.conclude N T H outside ledger phase inputSlotIds outcome
    (result, bus, ledger)

end WorkerBase

/-! ### Runs -/

/-- A call of `execute`, on the bus as the call finds it. -/
structure Execution (R F : Type) where
  worker : WorkerBase R F
  outside : Outside R
  phase : String
  inputSlotIds : List String
  bus : ArtifactBus F

namespace Execution
variable (e : Execution R F)

def execute (ledger : OrchestrationLedger R) :
    Except MeshError (ExecutionReceipt R) × ArtifactBus F × OrchestrationLedger R :=
  e.worker.execute N T H e.outside e.phase e.inputSlotIds e.bus ledger

/-- Without the bus. -/
def result (ledger : OrchestrationLedger R) :
    Except MeshError (ExecutionReceipt R) × OrchestrationLedger R :=
  ((e.execute N T H ledger).1, (e.execute N T H ledger).2.2)

/-- What `_run` came to; none where it is not called. -/
def outcome : Option (RunOutcome F) :=
  match e.worker.refusal e.inputSlotIds e.bus with
  | some _ => none
  | none =>
    some (e.worker.run e.worker.workerId e.phase e.inputSlotIds e.outside.uuids e.bus).1

/-- The slots that `_run` returned. -/
def returned : List (ArtifactSlot F) :=
  match e.outcome with
  | some (.returned slots) => slots
  | _ => []

/-- A run that brought slots, after too long or too many of them. -/
def Overrun : Prop :=
  e.returned ≠ [] ∧ (N.lt e.worker.contract.maxExecutionMs e.outside.elapsed = true ∨
    e.worker.contract.maxOutputSlots < e.returned.length)

end Execution

/-- The ledger, and the calls with what they returned or raised. -/
structure ExecutionHistory (R F : Type) where
  ledger : OrchestrationLedger R
  calls : List (Execution R F × Except MeshError (ExecutionReceipt R))

/-- From a ledger without receipts on. -/
def executions : System (ExecutionHistory R F) (Execution R F) where
  initial := ⟨⟨[], [], none⟩, []⟩
  step h e :=
    let (result, ledger) := e.result N T H h.ledger
    ⟨ledger, h.calls ++ [(e, result)]⟩

/-- The call returned the receipt, and the receipt names the slots of the run. -/
def Matches (call : Execution R F × Except MeshError (ExecutionReceipt R))
    (receipt : ExecutionReceipt R) : Prop :=
  call.2 = .ok receipt ∧ receipt.outputSlotIds = sorted (call.1.returned.map (·.slotId))

/-- For each call its one receipt, in a ledger that verifies. -/
structure Matched (h : ExecutionHistory R F) : Prop where
  receipts : List.Forall₂ Matches h.calls h.ledger.receipts
  verified : h.ledger.verifyChain H = true

/-- The first receipt of the ledger, and not of a run that brought slots beyond its limits. -/
def Alone (h : ExecutionHistory R F) (e : Execution R F) : Prop :=
  h.ledger.receipts = [] ∧ ¬ e.Overrun N

/-! ### One execution -/

variable {N T H} {h : ExecutionHistory R F} {e : Execution R F}

/-- A receipt is returned, not linked, and the ledger has a linked copy of it. -/
def Receipted (H : Digest) (outside : Outside R) (workerId : String) (slotIds : List String)
    (ledger : OrchestrationLedger R)
    (result : Except MeshError (ExecutionReceipt R) × OrchestrationLedger R) : Prop :=
  ∃ receipt : ExecutionReceipt R, result = (.ok receipt, (ledger.appendReceipt H receipt).2) ∧
    receipt.previousReceiptHash = "" ∧ receipt.receiptHash = receipt.computeHash H ∧
    receipt.receiptId = outside.receiptId ∧ receipt.workerId = workerId ∧
    receipt.outputSlotIds = slotIds ∧ receipt.status ≠ .pending

section Receipts
variable {w : WorkerBase R F} {outside : Outside R} {ledger : OrchestrationLedger R}
  {phase statusDetail determinismProof : String} {inputSlotIds slotIds : List String}
  {status : Status} {resourceUsage : List (String × R)} {slots : List (ArtifactSlot F)}

theorem makeReceipt_ok {outputSlotIds : OutputIds F} (hids : outputSlotIds.sortedIds = .ok slotIds)
    (hstatus : status ≠ .pending) :
    Receipted H outside w.workerId slotIds ledger (w.makeReceipt H outside ledger phase
      inputSlotIds outputSlotIds status statusDetail resourceUsage determinismProof) := by
  rw [WorkerBase.makeReceipt, hids]
  exact ⟨_, rfl, rfl, rfl, rfl, rfl, rfl, hstatus⟩

theorem makeReceipt_error (hslots : slots ≠ []) :
    ∃ error, w.makeReceipt H outside ledger phase inputSlotIds (.slots slots)
      status statusDetail resourceUsage determinismProof = (.error error, ledger) := by
  rw [WorkerBase.makeReceipt]
  match slots, hslots with
  | [_], _ => exact ⟨_, rfl⟩
  | _ :: _ :: _, _ => exact ⟨_, rfl⟩

/-- Without slots a receipt is made whatever the limits. -/
theorem conclude_empty : Receipted H outside w.workerId [] ledger
    (w.conclude N T H outside ledger phase inputSlotIds (.returned [])) := by
  rw [WorkerBase.conclude]
  split_ifs <;> exact makeReceipt_ok rfl (by decide)

theorem conclude_within (htime : N.lt w.contract.maxExecutionMs outside.elapsed = false)
    (hcount : slots.length ≤ w.contract.maxOutputSlots) :
    Receipted H outside w.workerId (sorted (slots.map (·.slotId))) ledger
      (w.conclude N T H outside ledger phase inputSlotIds (.returned slots)) := by
  rw [WorkerBase.conclude, if_neg (by rw [htime]; exact Bool.false_ne_true),
    if_neg (not_lt.mpr hcount)]
  exact makeReceipt_ok rfl (by decide)

theorem conclude_beyond (hslots : slots ≠ [])
    (hbeyond : N.lt w.contract.maxExecutionMs outside.elapsed = true ∨
      w.contract.maxOutputSlots < slots.length) :
    ∃ error, w.conclude N T H outside ledger phase inputSlotIds (.returned slots) =
      (.error error, ledger) := by
  rw [WorkerBase.conclude]
  split_ifs with htime hcount
  · exact makeReceipt_error hslots
  · exact makeReceipt_error hslots
  · exact absurd hbeyond (not_or.mpr ⟨htime, hcount⟩)

end Receipts

theorem refusal_ne_pending {w : WorkerBase R F} {inputSlotIds : List String} {bus : ArtifactBus F}
    {status : Status} {detail : String} (h : w.refusal inputSlotIds bus = some (status, detail)) :
    status ≠ .pending := by
  rw [WorkerBase.refusal] at h
  split_ifs at h
  · cases h
    decide
  · cases h
    decide
  · cases h
    decide
  · obtain ⟨_, -, heq⟩ := Option.map_eq_some_iff.mp h
    cases heq
    decide

/-- An execution is refused, or its run raises, or the run returns slots. -/
theorem result_cases (e : Execution R F) (ledger : OrchestrationLedger R) :
    (∃ status detail, status ≠ .pending ∧ e.returned = [] ∧ e.result N T H ledger =
      e.worker.makeReceipt H e.outside ledger e.phase e.inputSlotIds (.ids []) status detail []
        "") ∨
    (∃ typeName message, e.returned = [] ∧ e.result N T H ledger =
      e.worker.conclude N T H e.outside ledger e.phase e.inputSlotIds
        (.raised typeName message)) ∨
    e.result N T H ledger =
      e.worker.conclude N T H e.outside ledger e.phase e.inputSlotIds (.returned e.returned) := by
  rw [Execution.result, Execution.execute, WorkerBase.execute, Execution.returned,
    Execution.outcome]
  cases hrefusal : e.worker.refusal e.inputSlotIds e.bus with
  | some refused => exact .inl ⟨_, _, refusal_ne_pending hrefusal, rfl, rfl⟩
  | none =>
    refine .inr ?_
    dsimp only
    cases (e.worker.run e.worker.workerId e.phase e.inputSlotIds e.outside.uuids e.bus).1 with
    | raised typeName message => exact .inl ⟨typeName, message, rfl, rfl⟩
    | returned slots => exact .inr rfl

/-- An execution that does not overrun leaves a receipt with the ids of its slots. -/
theorem result_ok (ledger : OrchestrationLedger R) (hwithin : ¬ e.Overrun N) :
    Receipted H e.outside e.worker.workerId (sorted (e.returned.map (·.slotId))) ledger
      (e.result N T H ledger) := by
  rcases result_cases (N := N) (H := H) e ledger with
    ⟨status, detail, hstatus, hnone, heq⟩ | ⟨typeName, message, hnone, heq⟩ | heq
  · rw [heq, hnone]
    exact makeReceipt_ok rfl hstatus
  · rw [heq, hnone, WorkerBase.conclude]
    exact makeReceipt_ok rfl (by decide)
  · rw [heq]
    by_cases hslots : e.returned = []
    · rw [hslots]
      exact conclude_empty
    · obtain ⟨htime, hcount⟩ := not_or.mp fun hbeyond => hwithin ⟨hslots, hbeyond⟩
      exact conclude_within (Bool.eq_false_iff.mpr htime) (not_lt.mp hcount)

/-- One that does raises, and leaves the ledger as it was. -/
theorem result_error (ledger : OrchestrationLedger R) (hoverrun : e.Overrun N) :
    ∃ error, e.result N T H ledger = (.error error, ledger) := by
  rcases result_cases (N := N) (H := H) e ledger with
    ⟨status, detail, -, hnone, -⟩ | ⟨typeName, message, hnone, -⟩ | heq
  · exact absurd hnone hoverrun.1
  · exact absurd hnone hoverrun.1
  · rw [heq]
    exact conclude_beyond hoverrun.1 hoverrun.2

/-! ### Every execution of a run -/

theorem matched_initial : Matched H (executions (F := F) N T H).initial := ⟨.nil, rfl⟩

theorem step_eq (h : ExecutionHistory R F) (e : Execution R F) :
    (executions N T H).step h e =
      ⟨(e.result N T H h.ledger).2, h.calls ++ [(e, (e.result N T H h.ledger).1)]⟩ := rfl

/-- What a call appends is what it returns exactly if the ledger had no receipt before. -/
theorem matched_step_iff (hmatched : Matched H h) (hwithin : ¬ e.Overrun N) :
    Matched H ((executions N T H).step h e) ↔ h.ledger.receipts = [] := by
  obtain ⟨receipt, heq, hprevious, hhash, -, -, hids, -⟩ :=
    result_ok (T := T) (H := H) h.ledger hwithin
  have happended := appendReceipt_eq_iff hmatched.verified hprevious hhash
  have hstep : (executions N T H).step h e =
      ⟨(h.ledger.appendReceipt H receipt).2, h.calls ++ [(e, .ok receipt)]⟩ := by
    rw [step_eq, heq]
  have hlast : Matches (e, .ok receipt) (h.ledger.appendReceipt H receipt).1 ↔
      (h.ledger.appendReceipt H receipt).1 = receipt :=
    ⟨fun hmatches => (Except.ok.inj hmatches.1).symm, fun hsame => ⟨by rw [hsame], hids⟩⟩
  rw [hstep, ← happended, ← hlast]
  constructor
  · intro hmatched'
    exact (forall₂_snoc.mp hmatched'.receipts).2
  · intro hmatches
    exact ⟨forall₂_snoc.mpr ⟨hmatched.receipts, hmatches⟩,
      verified_appendReceipt hmatched.verified receipt⟩

/-- A call that raises appends nothing. -/
theorem not_matched_overrun (hmatched : Matched H h) (hoverrun : e.Overrun N) :
    ¬ Matched H ((executions N T H).step h e) := by
  intro hmatched'
  obtain ⟨error, heq⟩ := result_error (T := T) (H := H) h.ledger hoverrun
  have hstep : (executions N T H).step h e = ⟨h.ledger, h.calls ++ [(e, .error error)]⟩ := by
    rw [step_eq, heq]
  rw [hstep] at hmatched'
  have hlength : (h.calls ++ [(e, Except.error error)]).length = h.ledger.receipts.length :=
    hmatched'.receipts.length_eq
  rw [List.length_append, List.length_singleton, hmatched.receipts.length_eq] at hlength
  omega

end Workers

/-- Each call of a run returns the one receipt it appends, in a ledger that verifies, exactly when
each call finds the ledger without a receipt and is not of a run that brings slots beyond its
limits. -/
theorem receipts_match_iff {R F : Type} (N : Floats R) (T : FloatTexts R) (H : Digest)
    (acts : List (Execution R F)) :
    (executions N T H).Always (Matched H) acts ↔ (executions N T H).Admits (Alone N) acts := by
  refine System.always_iff_admits _ (Alone N) (Matched H) (Matched H) matched_initial
    (fun h e halone hmatched => (matched_step_iff hmatched halone.2).mpr halone.1)
    (fun _ hmatched => hmatched) (fun h e hmatched hnot hmatched' => ?_) acts
  by_cases hoverrun : e.Overrun N
  · exact not_matched_overrun hmatched hoverrun hmatched'
  · exact hnot ⟨(matched_step_iff hmatched hoverrun).mp hmatched', hoverrun⟩

/-! ### Executed twice -/

/-- A worker with nothing to bring, executed at once. -/
def idle : Execution ℚ Literal where
  worker :=
    { workerId := "w1"
      contract := .new Python.exact "Idle"
      run := fun _ _ _ _ bus => (.returned [], bus)
      spawned := false
      modifiedContract := false }
  outside := ⟨"rcpt_0123456789abcdef", ⟨0, maxInstant_pos⟩, 0, fun _ => ""⟩
  phase := "INGEST"
  inputSlotIds := []
  bus := .empty

def noTexts : FloatTexts ℚ := ⟨fun _ _ => "", fun _ => ""⟩

/-- The second time the ledger has another receipt than the caller. -/
theorem idle_not_matched :
    ¬ (executions Python.exact noTexts prefixDigest).Always (Matched prefixDigest)
      [idle, idle] := by
  intro halways
  have hwithin : ¬ idle.Overrun Python.exact := fun hoverrun => hoverrun.1 rfl
  have hfirst := halways [idle] [idle] rfl
  have hsecond : Matched prefixDigest ((executions Python.exact noTexts prefixDigest).step
      ((executions Python.exact noTexts prefixDigest).after [idle]) idle) :=
    halways [idle, idle] [] rfl
  have hempty := (matched_step_iff hfirst hwithin).mp hsecond
  have hlength := hfirst.receipts.length_eq
  rw [hempty] at hlength
  cases hlength

end PiPlatform.Mesh
