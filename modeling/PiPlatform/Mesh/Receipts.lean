import PiPlatform.EventFabric.Bus.Event
import PiPlatform.Library.Calendar
import PiPlatform.Library.HashChain

/-! The receipts of the mesh and the ledger they are appended to.

A ledger holds two chains, one of executions and one of phase boundaries. Appending links a copy:
what is in the ledger repeats the hash before it, and what the caller has is left as it was.
Whatever receipt is appended, its chain verifies (`verified_appendReceipt`). -/
namespace PiPlatform.Mesh

open Library Library.Json Library.Calendar EventFabric

variable (H : Digest) {R : Type}

/-- `sorted`, of texts. -/
def sorted (texts : List String) : List String := texts.insertionSort (· ≤ ·)

/-- The hash of a dictionary, its keys in order. -/
def hashOf (members : List (String × Document Literal)) : String :=
  H.hex (String.ofList
    ((Document.obj (members.map fun m => (ofString m.1, m.2))).render .compact))

def text (s : String) : Document Literal := .str (ofString s)

def texts (ss : List String) : Document Literal := .arr (ss.map text)

/-! ### Executions -/

inductive Status where
  | pending | success | fail | timeout | panic | schemaMismatch | replayMismatch | resourceExceeded
  deriving DecidableEq

def Status.value : Status → String
  | pending => "PENDING"
  | success => "SUCCESS"
  | fail => "FAIL"
  | timeout => "TIMEOUT"
  | panic => "PANIC"
  | schemaMismatch => "SCHEMA_MISMATCH"
  | replayMismatch => "REPLAY_MISMATCH"
  | resourceExceeded => "RESOURCE_EXCEEDED"

structure ExecutionReceipt (R : Type) where
  receiptId : String
  workerClass : String
  workerId : String
  phase : String
  inputSlotIds : List String
  outputSlotIds : List String
  status : Status
  statusDetail : String
  determinismProof : String
  resourceUsage : List (String × R)
  previousReceiptHash : String
  receiptHash : String
  timestamp : Instant

/-- Without the id, the timestamp, the usage and the detail. -/
def ExecutionReceipt.computeHash (r : ExecutionReceipt R) : String :=
  hashOf H
    [("determinism_proof", text r.determinismProof),
      ("input_slot_ids", texts (sorted r.inputSlotIds)),
      ("output_slot_ids", texts (sorted r.outputSlotIds)),
      ("phase", text r.phase),
      ("previous_receipt_hash", text r.previousReceiptHash),
      ("status", text r.status.value),
      ("worker_class", text r.workerClass),
      ("worker_id", text r.workerId)]

/-! ### Boundaries -/

inductive PhaseStatus where
  | pending | success | fail | blocked
  deriving DecidableEq

def PhaseStatus.value : PhaseStatus → String
  | pending => "PENDING"
  | success => "SUCCESS"
  | fail => "FAIL"
  | blocked => "BLOCKED"

structure PhaseBoundaryReceipt where
  boundaryId : String
  phase : String
  workerReceiptIds : List String
  mergedOutputSlotId : Option String
  phaseStatus : PhaseStatus
  previousBoundaryHash : String
  boundaryHash : String
  timestamp : Instant

/-- Without the id of the boundary and the timestamp, but with the ids of the receipts. -/
def PhaseBoundaryReceipt.computeHash (b : PhaseBoundaryReceipt) : String :=
  hashOf H
    [("merged_output_slot_id", b.mergedOutputSlotId.elim .null text),
      ("phase", text b.phase),
      ("phase_status", text b.phaseStatus.value),
      ("previous_boundary_hash", text b.previousBoundaryHash),
      ("worker_receipt_ids", texts (sorted b.workerReceiptIds))]

/-! ### The ledger -/

structure OrchestrationLedger (R : Type) where
  receipts : List (ExecutionReceipt R)
  boundaries : List PhaseBoundaryReceipt
  closedAt : Option Instant

def executionLinks (R : Type) : Links (ExecutionReceipt R) String where
  place _ := 0
  previous := ExecutionReceipt.previousReceiptHash
  digest := ExecutionReceipt.receiptHash

def boundaryLinks : Links PhaseBoundaryReceipt String where
  place _ := 0
  previous := PhaseBoundaryReceipt.previousBoundaryHash
  digest := PhaseBoundaryReceipt.boundaryHash

namespace OrchestrationLedger
variable (l : OrchestrationLedger R)

/-- What is appended is a copy, linked to the receipt before it. -/
def appendReceipt (receipt : ExecutionReceipt R) : ExecutionReceipt R × OrchestrationLedger R :=
  let prev := l.receipts.getLast?.elim "" (·.receiptHash)
  let receipt := { receipt with previousReceiptHash := prev }
  let receipt := { receipt with receiptHash := receipt.computeHash H }
  (receipt, { l with receipts := l.receipts ++ [receipt] })

def appendBoundary (boundary : PhaseBoundaryReceipt) :
    PhaseBoundaryReceipt × OrchestrationLedger R :=
  let prev := l.boundaries.getLast?.elim "" (·.boundaryHash)
  let boundary := { boundary with previousBoundaryHash := prev }
  let boundary := { boundary with boundaryHash := boundary.computeHash H }
  (boundary, { l with boundaries := l.boundaries ++ [boundary] })

def verifyChain : Bool :=
  (executionLinks R).verify (·.computeHash H) "" l.receipts &&
    boundaryLinks.verify (·.computeHash H) "" l.boundaries

def lastBoundaryForPhase (phase : String) : Option PhaseBoundaryReceipt :=
  l.boundaries.reverse.find? fun b => b.phase = phase

def close (now : Instant) : OrchestrationLedger R := { l with closedAt := some now }

end OrchestrationLedger

section Chains
variable {H} {l : OrchestrationLedger R}

theorem verified_appendReceipt (h : l.verifyChain H = true) (receipt : ExecutionReceipt R) :
    (l.appendReceipt H receipt).2.verifyChain H = true := by
  obtain ⟨hreceipts, hboundaries⟩ := (Bool.and_eq_true _ _).mp h
  refine (Bool.and_eq_true _ _).mpr ⟨Links.verify_snoc hreceipts ?_ rfl, hboundaries⟩
  show l.receipts.getLast?.elim "" (·.receiptHash) = _
  rw [Links.lastDigest]
  cases l.receipts.getLast? <;> rfl

/-- In a chain that verifies, what is appended is what was made exactly as its first receipt: any
other repeats a hash that is not empty. -/
theorem appendReceipt_eq_iff (h : l.verifyChain H = true) {receipt : ExecutionReceipt R}
    (hprevious : receipt.previousReceiptHash = "")
    (hhash : receipt.receiptHash = receipt.computeHash H) :
    (l.appendReceipt H receipt).1 = receipt ↔ l.receipts = [] := by
  obtain ⟨hreceipts, -⟩ := (Bool.and_eq_true _ _).mp h
  constructor
  · intro heq
    have hprev : l.receipts.getLast?.elim "" (·.receiptHash) = "" :=
      (congrArg ExecutionReceipt.previousReceiptHash heq).trans hprevious
    cases hlast : l.receipts.getLast? with
    | none => exact List.getLast?_eq_none_iff.mp hlast
    | some last =>
      have hlasthash : last.receiptHash = last.computeHash H :=
        (Links.verify_iff.mp hreceipts).2 last (List.mem_of_getLast? hlast)
      rw [hlast, Option.elim_some, hlasthash] at hprev
      exact absurd hprev (H.hex_ne_empty _)
  · intro hempty
    cases receipt
    cases hprevious
    rw [OrchestrationLedger.appendReceipt, hempty]
    exact congrArg (ExecutionReceipt.mk _ _ _ _ _ _ _ _ _ _ _ · _) hhash.symm

end Chains

end PiPlatform.Mesh
