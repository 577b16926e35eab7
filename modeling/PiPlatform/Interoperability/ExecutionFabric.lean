import PiPlatform.Interoperability.Manifest
import PiPlatform.Library.Json.RoundTrip
import PiPlatform.Library.Partition
import PiPlatform.Library.Separated
import PiPlatform.Library.StableSort
import PiPlatform.Mesh.Shard

/-! The execution fabric: a graph of manifests, executed phase by phase on shards.

A manifest belongs to the shard its digest picks, and the shards of a phase are gone through in
order; the workers are leased for one manifest each, under random ids. What is executed is the
graph, each manifest once, in its phase (`dag_executed`), and the replay hash says which manifests
that were and nothing else: not the order in which a phase named them, the ids, or what the
fabric had done before (`replayHash_iff`). -/
namespace PiPlatform.Interoperability.Fabric

open Library Library.Json
open Mesh.Shard (hexInt)

structure WorkerLease where
  leaseId : String
  workerId : String
  shardId : String
  phaseNumber : Nat
  manifestId : String
  cpuMsMax : Nat
  memoryMbMax : Nat

inductive BarrierStatus where
  | opened | closed | aborted
  deriving DecidableEq

def BarrierStatus.value : BarrierStatus → String
  | opened => "open"
  | closed => "closed"
  | aborted => "aborted"

structure PhaseBarrier where
  phaseNumber : Nat
  totalShards : Nat
  completedShards : List String
  failedShards : List String
  phaseHash : String
  barrierStatus : BarrierStatus

def PhaseBarrier.allComplete (barrier : PhaseBarrier) : Bool :=
  barrier.completedShards.length = barrier.totalShards && barrier.failedShards.isEmpty

structure PhaseExecutionReceipt where
  phaseNumber : Nat
  shardId : String
  workerId : String
  leaseId : String
  status : String
  outputHash : String
  evidence : String
  durationMs : Nat

inductive FinalStatus where
  | success | partialFailure | totalFailure
  deriving DecidableEq

structure ExecutionFabricReceipt where
  executionId : String
  pipelineHash : String
  totalPhases : Nat
  phasesCompleted : Nat
  phasesFailed : Nat
  finalStatus : FinalStatus
  phaseReceipts : List PhaseExecutionReceipt
  barrierHashes : List String
  replayHash : String

/-- With a shard at least: without, the first manifest is divided by zero. `issued` counts the
random ids that were drawn. -/
structure DeterministicExecutionFabric where
  shardCount : Nat
  positive : 0 < shardCount
  shards : Dict String (List String)
  leases : Dict String WorkerLease
  phaseReceipts : Dict Nat (List PhaseExecutionReceipt)
  barriers : Dict Nat PhaseBarrier
  executionLog : List ExecutionFabricReceipt
  issued : Nat

/-- `f"shard-{i:04d}"` -/
def shardName (i : Nat) : String :=
  "shard-" ++ String.ofList (List.replicate (4 - (toString i).length) '0') ++ toString i

/-- All shards report to the barrier, also those with nothing to do. -/
def closedBarrier (shardCount phaseNumber : Nat) (phaseHash : String) : PhaseBarrier where
  phaseNumber := phaseNumber
  totalShards := shardCount
  completedShards := (List.range shardCount).map shardName
  failedShards := []
  phaseHash := phaseHash
  barrierStatus := .closed

theorem allComplete_closedBarrier (shardCount phaseNumber : Nat) (phaseHash : String) :
    (closedBarrier shardCount phaseNumber phaseHash).allComplete = true := by
  simp [PhaseBarrier.allComplete, closedBarrier]

/-! ### Hashes -/

section Hashes
variable (sha256 : String → String)

def text (s : String) : Document Literal := .str (ofString s)

def PhaseBarrier.computeHash (barrier : PhaseBarrier) : String :=
  let texts (xs : List String) : Document Literal := .arr ((sortBy id xs).map text)
  let data : Document Literal := .obj
    [(ofString "barrier_status", text barrier.barrierStatus.value),
      (ofString "completed", texts barrier.completedShards),
      (ofString "failed", texts barrier.failedShards),
      (ofString "phase_hash", text barrier.phaseHash),
      (ofString "phase_number", .int barrier.phaseNumber),
      (ofString "total_shards", .int barrier.totalShards)]
  sha256 (String.ofList (data.render .compact))

/-- The payload of `_simulate_execution`. -/
def outputPayload (manifestId shardId : String) (phase cpuMs memoryMb : Nat) : Document Literal :=
  .obj [(ofString "cpu_ms", .int cpuMs), (ofString "manifest_id", text manifestId),
    (ofString "memory_mb", .int memoryMb), (ofString "phase", .int phase),
    (ofString "shard_id", text shardId)]

def simulateExecution (manifest : ExtensionManifest) (lease : WorkerLease) : String :=
  let payload := outputPayload manifest.extensionId lease.shardId lease.phaseNumber lease.cpuMsMax
    lease.memoryMbMax
  sha256 (String.ofList (payload.render .compact))

/-- `f"{r.phase_number}:{r.shard_id}:{r.status}:{r.output_hash}"` -/
def PhaseExecutionReceipt.line (r : PhaseExecutionReceipt) : String :=
  toString r.phaseNumber ++ ":" ++ r.shardId ++ ":" ++ r.status ++ ":" ++ r.outputHash

/-- `_compute_phase_hash`, and `_compute_replay_hash`: their bodies are the same. -/
def computePhaseHash (receipts : List PhaseExecutionReceipt) : String :=
  let hashes := sortBy id (receipts.map PhaseExecutionReceipt.line)
  sha256 (String.ofList ((Document.arr (hashes.map text)).render .spaced))

/-! ### The fabric -/

namespace DeterministicExecutionFabric
variable (fabric : DeterministicExecutionFabric)

/-- `int(hash_val[:16], 16) % self.shard_count` -/
def shardIndex (shardCount : Nat) (manifestId : String) : Nat :=
  hexInt ((sha256 manifestId).toList.take 16) % shardCount

def assignToShard (manifestId : String) : String × DeterministicExecutionFabric :=
  let shardId := shardName (shardIndex sha256 fabric.shardCount manifestId)
  let assignments := (fabric.shards.get? shardId).getD []
  let assignments := if manifestId ∈ assignments then assignments else assignments ++ [manifestId]
  (shardId, { fabric with shards := fabric.shards.set shardId assignments })

variable (uuid : Nat → String)

def leaseWorker (shardId manifestId : String) (phaseNumber : Nat) :
    WorkerLease × DeterministicExecutionFabric :=
  let lease : WorkerLease :=
    { leaseId := "lease_" ++ uuid fabric.issued
      workerId := "worker_" ++ uuid (fabric.issued + 1)
      shardId := shardId
      phaseNumber := phaseNumber
      manifestId := manifestId
      cpuMsMax := 5000
      memoryMbMax := 256 }
  (lease, { fabric with
    leases := fabric.leases.set lease.leaseId lease, issued := fabric.issued + 2 })

def releaseLease (leaseId : String) : DeterministicExecutionFabric :=
  { fabric with leases := fabric.leases.erase leaseId }

/-- The first loop: each manifest to its shard, which is one of those that are there. -/
def assignAll (fabric : DeterministicExecutionFabric)
    (assignments : Dict String (List ExtensionManifest)) :
    List ExtensionManifest → Dict String (List ExtensionManifest) × DeterministicExecutionFabric
  | [] => (assignments, fabric)
  | manifest :: manifests =>
    let (shardId, fabric) := fabric.assignToShard sha256 manifest.extensionId
    let assigned := (assignments.get? shardId).getD []
    assignAll fabric (assignments.set shardId (assigned ++ [manifest])) manifests

/-- `{f"shard-{i:04d}": [] for i in range(self.shard_count)}` -/
def emptyShards : Dict String (List ExtensionManifest) :=
  Dict.ofList ((List.range fabric.shardCount).map fun i => (shardName i, []))

/-- A worker is leased, executes one manifest and is released. -/
def executeOne (phaseNumber : Nat) (shardId : String) (manifest : ExtensionManifest) :
    PhaseExecutionReceipt × DeterministicExecutionFabric :=
  let (lease, fabric) := fabric.leaseWorker uuid shardId manifest.extensionId phaseNumber
  let receipt : PhaseExecutionReceipt :=
    { phaseNumber := phaseNumber
      shardId := shardId
      workerId := lease.workerId
      leaseId := lease.leaseId
      status := "completed"
      outputHash := simulateExecution sha256 manifest lease
      evidence := "Executed " ++ manifest.extensionId ++ " on " ++ shardId
      durationMs := 10 }
  (receipt, fabric.releaseLease lease.leaseId)

/-- The second loop, over the shards and the manifests of each. -/
def executeAll (fabric : DeterministicExecutionFabric) (phaseNumber : Nat) :
    List (String × ExtensionManifest) →
      List PhaseExecutionReceipt × DeterministicExecutionFabric
  | [] => ([], fabric)
  | (shardId, manifest) :: work =>
    let (receipt, fabric) := fabric.executeOne sha256 uuid phaseNumber shardId manifest
    let (receipts, fabric) := executeAll fabric phaseNumber work
    (receipt :: receipts, fabric)

/-- The manifests are spread over the shards and run; the barrier closes over the receipts. -/
def executePhase (phaseNumber : Nat) (manifests : List ExtensionManifest) :
    ExecutionFabricReceipt × DeterministicExecutionFabric :=
  let (shardAssignments, fabric) := fabric.assignAll sha256 fabric.emptyShards manifests
  let (receipts, fabric) := fabric.executeAll sha256 uuid phaseNumber
    (shardAssignments.items.flatMap fun item => item.2.map fun manifest => (item.1, manifest))
  let phaseHash := computePhaseHash sha256 receipts
  let barrier := closedBarrier fabric.shardCount phaseNumber phaseHash
  let fabricReceipt : ExecutionFabricReceipt :=
    { executionId := "exec_" ++ uuid fabric.issued
      pipelineHash := phaseHash
      totalPhases := 1
      phasesCompleted := receipts.length
      phasesFailed := 0
      finalStatus := .success
      phaseReceipts := receipts
      barrierHashes := [barrier.computeHash sha256]
      replayHash := phaseHash }
  (fabricReceipt,
    { fabric with
      phaseReceipts := fabric.phaseReceipts.set phaseNumber receipts
      barriers := fabric.barriers.set phaseNumber barrier
      executionLog := fabric.executionLog ++ [fabricReceipt]
      issued := fabric.issued + 1 })

end DeterministicExecutionFabric

/-- What a graph's phases have come to so far. -/
structure Totals where
  receipts : List PhaseExecutionReceipt
  barriers : List String
  completed : Nat
  failed : Nat

namespace DeterministicExecutionFabric
variable (uuid : Nat → String)

/-- The loop over the phases. A phase that did not succeed ends it. -/
def executePhases (fabric : DeterministicExecutionFabric) (totals : Totals) (phaseNum : Nat) :
    List (List ExtensionManifest) → Totals × DeterministicExecutionFabric
  | [] => (totals, fabric)
  | manifests :: phases =>
    let (phaseReceipt, fabric) := fabric.executePhase sha256 uuid phaseNum manifests
    let totals : Totals :=
      { totals with
        receipts := totals.receipts ++ phaseReceipt.phaseReceipts
        barriers := totals.barriers ++ phaseReceipt.barrierHashes }
    if phaseReceipt.finalStatus = .success then
      executePhases fabric
        { totals with completed := totals.completed + phaseReceipt.phaseReceipts.length }
        (phaseNum + 1) phases
    else
      ({ totals with failed := totals.failed + phaseReceipt.phaseReceipts.length }, fabric)

/-- Phase by phase until one is no success. -/
def executeDag (fabric : DeterministicExecutionFabric) (executionId : String)
    (phases : List (List ExtensionManifest)) :
    ExecutionFabricReceipt × DeterministicExecutionFabric :=
  let (totals, fabric) := fabric.executePhases sha256 uuid ⟨[], [], 0, 0⟩ 1 phases
  let fullReplayHash := computePhaseHash sha256 totals.receipts
  ({ executionId := executionId
     pipelineHash := fullReplayHash
     totalPhases := phases.length
     phasesCompleted := totals.completed
     phasesFailed := totals.failed
     finalStatus := if totals.failed = 0 then .success else .totalFailure
     phaseReceipts := totals.receipts
     barrierHashes := totals.barriers
     replayHash := fullReplayHash }, fabric)

end DeterministicExecutionFabric

end Hashes

/-! ### Shards -/

theorem shardName_injective : Function.Injective shardName := by
  have hread (i : Nat) : Nat.ofDigitChars 10 ((shardName i).toList.drop 6) 0 = i := by
    have htext : (shardName i).toList = "shard-".toList ++
        (List.replicate (4 - (toString i).length) '0' ++ Nat.toDigits 10 i) := by
      rw [shardName, String.toList_append, String.toList_append, Nat.toString_eq_repr,
        Nat.toList_repr, List.append_assoc]
      simp only [String.toList_ofList]
    rw [htext]
    show Nat.ofDigitChars 10 (List.replicate _ '0' ++ Nat.toDigits 10 i) 0 = i
    rw [Nat.ofDigitChars_append, Nat.ofDigitChars_replicate_zero, Nat.mul_zero,
      Nat.ofDigitChars_ten_toDigits]
  intro i j h
  rw [← hread i, h, hread j]

section Shards
variable {sha256 : String → String} {uuid : Nat → String}
  {assignments : Dict String (List ExtensionManifest)} {manifests : List ExtensionManifest}

open DeterministicExecutionFabric

/-- The manifests dealt out to their shards. -/
def dealt (sha256 : String → String) (shardCount : Nat) (manifests : List ExtensionManifest) :
    List (String × List ExtensionManifest) :=
  (List.range shardCount).map fun i =>
    (shardName i, manifests.filter fun manifest =>
      shardIndex sha256 shardCount manifest.extensionId = i)

variable (sha256) in
theorem shardIndex_lt (fabric : DeterministicExecutionFabric) (manifestId : String) :
    shardIndex sha256 fabric.shardCount manifestId < fabric.shardCount :=
  Nat.mod_lt _ fabric.positive

variable (sha256) in
theorem emptyShards_items (fabric : DeterministicExecutionFabric) :
    fabric.emptyShards.items = dealt sha256 fabric.shardCount [] := by
  have hnodup : ((List.range fabric.shardCount).map shardName).Nodup :=
    List.nodup_range.map shardName_injective
  rw [emptyShards, Dict.ofList]
  dsimp only
  rw [setItems_of_nodup _ (by simpa [Function.comp_def] using hnodup), List.nil_append]
  rfl

/-- One more manifest is dealt out. -/
theorem set_dealt (fabric : DeterministicExecutionFabric)
    (h : assignments.items = dealt sha256 fabric.shardCount manifests)
    (manifest : ExtensionManifest) :
    (assignments.set (shardName (shardIndex sha256 fabric.shardCount manifest.extensionId))
      ((assignments.get? (shardName (shardIndex sha256 fabric.shardCount
        manifest.extensionId))).getD [] ++ [manifest])).items =
      dealt sha256 fabric.shardCount (manifests ++ [manifest]) := by
  have hmem := List.mem_range.mpr (shardIndex_lt sha256 fabric manifest.extensionId)
  rw [Dict.set, Dict.get?]
  dsimp only
  rw [h, dealt, lookupItem_parts shardName_injective _ hmem, Option.getD_some,
    setItem_parts shardName_injective _ hmem List.nodup_range]
  refine List.map_congr_left fun i _ => ?_
  rw [List.filter_append]
  by_cases hi : i = shardIndex sha256 fabric.shardCount manifest.extensionId
  · simp [hi]
  · simp [hi, Ne.symm hi]

variable (sha256) in
/-- The first loop deals the manifests out and changes nothing else but the record of who went
where. -/
theorem assignAll_spec (fabric : DeterministicExecutionFabric) {before : List ExtensionManifest}
    (h : assignments.items = dealt sha256 fabric.shardCount before)
    (manifests : List ExtensionManifest) :
    (fabric.assignAll sha256 assignments manifests).1.items =
        dealt sha256 fabric.shardCount (before ++ manifests) ∧
      ∃ shards, (fabric.assignAll sha256 assignments manifests).2 =
        { fabric with shards := shards } := by
  induction manifests generalizing fabric assignments before with
  | nil =>
    rw [List.append_nil]
    exact ⟨h, fabric.shards, rfl⟩
  | cons manifest manifests ih =>
    rw [List.append_cons]
    obtain ⟨hitems, shards, hfabric⟩ := ih (fabric.assignToShard sha256 manifest.extensionId).2
      (set_dealt fabric h manifest)
    exact ⟨hitems, shards, hfabric⟩

variable (sha256) in
/-- The shards together hold each manifest once, under the name of its shard. -/
theorem work_perm (fabric : DeterministicExecutionFabric) (manifests : List ExtensionManifest) :
    ((dealt sha256 fabric.shardCount manifests).flatMap fun item =>
        item.2.map fun manifest => (item.1, manifest)).Perm
      (manifests.map fun manifest =>
        (shardName (shardIndex sha256 fabric.shardCount manifest.extensionId), manifest)) := by
  have hall : ∀ manifest ∈ manifests,
      shardIndex sha256 fabric.shardCount manifest.extensionId < fabric.shardCount :=
    fun manifest _ => shardIndex_lt sha256 fabric manifest.extensionId
  have hparts := (flatMap_parts_perm (fun manifest : ExtensionManifest =>
    shardIndex sha256 fabric.shardCount manifest.extensionId) hall).map
    fun manifest =>
      (shardName (shardIndex sha256 fabric.shardCount manifest.extensionId), manifest)
  rw [List.map_flatMap] at hparts
  rw [dealt, List.flatMap_map]
  refine (List.Perm.of_eq (List.flatMap_congr fun i _ => ?_)).trans hparts
  refine List.map_congr_left fun manifest hmanifest => ?_
  rw [of_decide_eq_true (List.mem_filter.mp hmanifest).2]

/-! ### What is executed -/

/-- A receipt without the random ids. -/
def PhaseExecutionReceipt.forget (r : PhaseExecutionReceipt) : PhaseExecutionReceipt :=
  { r with workerId := "", leaseId := "" }

/-- The receipt of a manifest on a shard. -/
def doneOn (sha256 : String → String) (phaseNumber : Nat) (shardId extensionId : String) :
    PhaseExecutionReceipt where
  phaseNumber := phaseNumber
  shardId := shardId
  workerId := ""
  leaseId := ""
  status := "completed"
  outputHash := sha256 (String.ofList
    ((outputPayload extensionId shardId phaseNumber 5000 256).render .compact))
  evidence := "Executed " ++ extensionId ++ " on " ++ shardId
  durationMs := 10

/-- The receipt of a manifest, on the shard it belongs to. -/
def done (sha256 : String → String) (shardCount : Nat) (p : Nat × String) :
    PhaseExecutionReceipt :=
  doneOn sha256 p.1 (shardName (shardIndex sha256 shardCount p.2)) p.2

/-- The leases of the receipts are gone, the others are as they were. -/
def Released (receipts : List PhaseExecutionReceipt) (before after : Dict String WorkerLease) :
    Prop :=
  ∀ id, after.get? id =
    if id ∈ receipts.map PhaseExecutionReceipt.leaseId then none else before.get? id

theorem Released.append {receipts later : List PhaseExecutionReceipt}
    {before between after : Dict String WorkerLease} (h : Released receipts before between)
    (h' : Released later between after) : Released (receipts ++ later) before after := by
  intro id
  have hmem : id ∈ (receipts ++ later).map PhaseExecutionReceipt.leaseId ↔
      id ∈ receipts.map PhaseExecutionReceipt.leaseId ∨
        id ∈ later.map PhaseExecutionReceipt.leaseId := by
    rw [List.map_append, List.mem_append]
  rw [h' id, h id]
  split_ifs <;> tauto

/-- A lease that is taken and released. -/
theorem released_one (leases : Dict String WorkerLease) (lease : WorkerLease)
    {receipt : PhaseExecutionReceipt} (h : receipt.leaseId = lease.leaseId) :
    Released [receipt] leases ((leases.set lease.leaseId lease).erase lease.leaseId) := by
  intro id
  rw [Dict.get?_erase, Dict.get?_set, List.map_singleton, h]
  by_cases hid : lease.leaseId = id
  · rw [if_pos hid, if_pos (List.mem_singleton.mpr hid.symm)]
  · rw [if_neg hid, if_neg hid, if_neg fun hmem => hid (List.mem_singleton.mp hmem).symm]

variable (sha256 uuid) in
theorem executeAll_spec (fabric : DeterministicExecutionFabric) (phaseNumber : Nat)
    (work : List (String × ExtensionManifest)) :
    (fabric.executeAll sha256 uuid phaseNumber work).1.map PhaseExecutionReceipt.forget =
        work.map (fun w => doneOn sha256 phaseNumber w.1 w.2.extensionId) ∧
      ∃ leases issued, (fabric.executeAll sha256 uuid phaseNumber work).2 =
          { fabric with leases := leases, issued := issued } ∧
        Released (fabric.executeAll sha256 uuid phaseNumber work).1 fabric.leases leases := by
  induction work generalizing fabric with
  | nil => exact ⟨rfl, fabric.leases, fabric.issued, rfl, fun _ => rfl⟩
  | cons w work ih =>
    obtain ⟨shardId, manifest⟩ := w
    obtain ⟨hreceipts, leases, issued, hfabric, hreleased⟩ :=
      ih (fabric.executeOne sha256 uuid phaseNumber shardId manifest).2
    refine ⟨?_, leases, issued, hfabric, ?_⟩
    · rw [executeAll, List.map_cons, List.map_cons]
      exact congrArg₂ List.cons rfl hreceipts
    · exact (released_one fabric.leases (fabric.leaseWorker uuid shardId manifest.extensionId
        phaseNumber).1 rfl).append hreleased

/-- What a phase did. -/
structure PhaseExecuted (sha256 : String → String) (fabric : DeterministicExecutionFabric)
    (phaseNumber : Nat) (manifests : List ExtensionManifest) (receipt : ExecutionFabricReceipt)
    (after : DeterministicExecutionFabric) : Prop where
  success : receipt.finalStatus = .success
  executed : (receipt.phaseReceipts.map PhaseExecutionReceipt.forget).Perm
    (manifests.map fun manifest =>
      done sha256 fabric.shardCount (phaseNumber, manifest.extensionId))
  shardCount : after.shardCount = fabric.shardCount
  released : Released receipt.phaseReceipts fabric.leases after.leases
  barrier : after.barriers = fabric.barriers.set phaseNumber
    (closedBarrier fabric.shardCount phaseNumber receipt.replayHash)
  barrierHashes : receipt.barrierHashes =
    [(closedBarrier fabric.shardCount phaseNumber receipt.replayHash).computeHash sha256]

variable (sha256 uuid) in
theorem executePhase_spec (fabric : DeterministicExecutionFabric) (phaseNumber : Nat)
    (manifests : List ExtensionManifest) :
    PhaseExecuted sha256 fabric phaseNumber manifests
      (fabric.executePhase sha256 uuid phaseNumber manifests).1
      (fabric.executePhase sha256 uuid phaseNumber manifests).2 := by
  obtain ⟨hitems, shards, hassigned⟩ :=
    assignAll_spec sha256 fabric (emptyShards_items sha256 fabric) manifests
  set assigned := fabric.assignAll sha256 fabric.emptyShards manifests with hdef
  set work := assigned.1.items.flatMap fun item => item.2.map fun manifest => (item.1, manifest)
    with hwork
  obtain ⟨hreceipts, leases, issued, hexecuted, hreleased⟩ :=
    executeAll_spec sha256 uuid assigned.2 phaseNumber work
  rw [List.nil_append] at hitems
  have hperm : work.Perm (manifests.map fun manifest =>
      (shardName (shardIndex sha256 fabric.shardCount manifest.extensionId), manifest)) := by
    rw [hwork, hitems]
    exact work_perm sha256 fabric manifests
  have hcount : (assigned.2.executeAll sha256 uuid phaseNumber work).2.shardCount =
      fabric.shardCount := by
    rw [hexecuted, hassigned]
  have hbarriers : (assigned.2.executeAll sha256 uuid phaseNumber work).2.barriers =
      fabric.barriers := by
    rw [hexecuted, hassigned]
  refine ⟨rfl, ?_, hcount, ?_, ?_, ?_⟩
  · show ((assigned.2.executeAll sha256 uuid phaseNumber work).1.map _).Perm _
    rw [hreceipts]
    have hmap := hperm.map fun w => doneOn sha256 phaseNumber w.1 w.2.extensionId
    rwa [List.map_map] at hmap
  · show Released (assigned.2.executeAll sha256 uuid phaseNumber work).1 _
      (assigned.2.executeAll sha256 uuid phaseNumber work).2.leases
    rw [hexecuted]
    rw [hassigned] at hreleased ⊢
    exact hreleased
  · show (assigned.2.executeAll sha256 uuid phaseNumber work).2.barriers.set phaseNumber
      (closedBarrier (assigned.2.executeAll sha256 uuid phaseNumber work).2.shardCount _ _) = _
    rw [hcount, hbarriers]
    rfl
  · show [(closedBarrier (assigned.2.executeAll sha256 uuid phaseNumber work).2.shardCount _
      _).computeHash sha256] = _
    rw [hcount]
    rfl

theorem PhaseExecuted.phaseNumber {fabric after : DeterministicExecutionFabric} {phaseNumber : Nat}
    {receipt : ExecutionFabricReceipt}
    (h : PhaseExecuted sha256 fabric phaseNumber manifests receipt after)
    {r : PhaseExecutionReceipt} (hr : r ∈ receipt.phaseReceipts) : r.phaseNumber = phaseNumber := by
  obtain ⟨manifest, -, hdone⟩ :=
    List.mem_map.mp (h.executed.mem_iff.mp (List.mem_map_of_mem hr))
  exact (congrArg PhaseExecutionReceipt.phaseNumber hdone).symm

/-! #### Phase after phase -/

/-- The manifests of a graph, each with the number of its phase. -/
def named (first : Nat) : List (List ExtensionManifest) → List (Nat × String)
  | [] => []
  | manifests :: phases =>
    manifests.map (fun manifest => (first, manifest.extensionId)) ++ named (first + 1) phases

/-- What phases from a number on did. -/
structure PhasesExecuted (sha256 : String → String) (fabric : DeterministicExecutionFabric)
    (first : Nat) (phases : List (List ExtensionManifest)) (receipts : List PhaseExecutionReceipt)
    (hashes : List String) (after : DeterministicExecutionFabric) : Prop where
  executed : (receipts.map PhaseExecutionReceipt.forget).Perm
    ((named first phases).map (done sha256 fabric.shardCount))
  inOrder : receipts.Pairwise fun r r' => r.phaseNumber ≤ r'.phaseNumber
  notBefore : ∀ r ∈ receipts, first ≤ r.phaseNumber
  released : Released receipts fabric.leases after.leases
  barriers : ∀ j < phases.length, ∃ hash,
    after.barriers.get? (first + j) = some (closedBarrier fabric.shardCount (first + j) hash) ∧
      hashes[j]? = some ((closedBarrier fabric.shardCount (first + j) hash).computeHash sha256)
  earlier : ∀ i < first, after.barriers.get? i = fabric.barriers.get? i

variable (sha256 uuid) in
theorem executePhases_spec (fabric : DeterministicExecutionFabric) (totals : Totals) (first : Nat)
    (phases : List (List ExtensionManifest)) : ∃ receipts hashes,
      (fabric.executePhases sha256 uuid totals first phases).1 =
        ⟨totals.receipts ++ receipts, totals.barriers ++ hashes, totals.completed + receipts.length,
          totals.failed⟩ ∧
      PhasesExecuted sha256 fabric first phases receipts hashes
        (fabric.executePhases sha256 uuid totals first phases).2 := by
  induction phases generalizing fabric totals first with
  | nil =>
    refine ⟨[], [], ?_, .refl _, .nil, fun _ h => absurd h List.not_mem_nil, fun _ => rfl,
      fun _ h => absurd h (Nat.not_lt_zero _), fun _ _ => rfl⟩
    rw [executePhases, List.append_nil, List.append_nil]
    rfl
  | cons manifests phases ih =>
    have hphase := executePhase_spec sha256 uuid fabric first manifests
    set result := fabric.executePhase sha256 uuid first manifests with hresult
    obtain ⟨receipts, hashes, htotals, hlater⟩ := ih result.2
      ⟨totals.receipts ++ result.1.phaseReceipts, totals.barriers ++ result.1.barrierHashes,
        totals.completed + result.1.phaseReceipts.length, totals.failed⟩ (first + 1)
    have hstep : fabric.executePhases sha256 uuid totals first (manifests :: phases) =
        result.2.executePhases sha256 uuid
          ⟨totals.receipts ++ result.1.phaseReceipts, totals.barriers ++ result.1.barrierHashes,
            totals.completed + result.1.phaseReceipts.length, totals.failed⟩
          (first + 1) phases := by
      rw [executePhases, ← hresult]
      exact if_pos hphase.success
    rw [hstep]
    refine ⟨result.1.phaseReceipts ++ receipts, result.1.barrierHashes ++ hashes, ?_, ?_⟩
    · rw [htotals, List.length_append]
      simp only [List.append_assoc, Nat.add_assoc]
    · refine ⟨?_, ?_, ?_, hphase.released.append hlater.released, ?_, ?_⟩
      · have hexecuted := hlater.executed
        rw [hphase.shardCount] at hexecuted
        rw [List.map_append, named, List.map_append, List.map_map]
        exact hphase.executed.append hexecuted
      · refine List.pairwise_append.mpr ⟨?_, hlater.inOrder, fun r hr r' hr' => ?_⟩
        · refine List.pairwise_iff_forall_sublist.mpr fun {r r'} hsub => ?_
          rw [hphase.phaseNumber (hsub.subset (List.mem_cons_self ..)),
            hphase.phaseNumber (hsub.subset (List.mem_cons_of_mem _ (List.mem_cons_self ..)))]
        · rw [hphase.phaseNumber hr]
          exact (Nat.le_succ first).trans (hlater.notBefore r' hr')
      · intro r hr
        rcases List.mem_append.mp hr with hr | hr
        · exact (hphase.phaseNumber hr).ge
        · exact (Nat.le_succ first).trans (hlater.notBefore r hr)
      · intro j hj
        have hhashes : result.1.barrierHashes ++ hashes = _ :: hashes :=
          congrArg (· ++ hashes) hphase.barrierHashes
        rw [hhashes]
        cases j with
        | zero =>
          refine ⟨result.1.replayHash, ?_, rfl⟩
          refine (hlater.earlier first (Nat.lt_succ_self first)).trans ?_
          rw [hphase.barrier]
          exact Dict.get?_set_self _ _ _
        | succ j =>
          obtain ⟨hash, hbarrier, hhash⟩ := hlater.barriers j (Nat.lt_of_succ_lt_succ hj)
          rw [hphase.shardCount, Nat.add_right_comm first 1 j] at hbarrier hhash
          exact ⟨hash, hbarrier, hhash⟩
      · intro i hi
        rw [hlater.earlier i (hi.trans (Nat.lt_succ_self first)), hphase.barrier]
        exact Dict.get?_set_ne (Nat.ne_of_gt hi) _ _

/-- What a graph did. -/
structure DagExecuted (sha256 : String → String) (fabric : DeterministicExecutionFabric)
    (phases : List (List ExtensionManifest)) (receipt : ExecutionFabricReceipt)
    (after : DeterministicExecutionFabric) : Prop where
  success : receipt.finalStatus = .success
  counted : receipt.totalPhases = phases.length ∧
    receipt.phasesCompleted = receipt.phaseReceipts.length ∧ receipt.phasesFailed = 0
  executed : (receipt.phaseReceipts.map PhaseExecutionReceipt.forget).Perm
    ((named 1 phases).map (done sha256 fabric.shardCount))
  inOrder : receipt.phaseReceipts.Pairwise fun r r' => r.phaseNumber ≤ r'.phaseNumber
  released : Released receipt.phaseReceipts fabric.leases after.leases
  barriers : ∀ j < phases.length, ∃ barrier, after.barriers.get? (1 + j) = some barrier ∧
    barrier.barrierStatus = .closed ∧ barrier.allComplete = true ∧
    receipt.barrierHashes[j]? = some (barrier.computeHash sha256)

/-- Whatever a fabric has done before and whatever the random ids: each manifest of a graph is
executed once, in its phase and on the shard it belongs to, phase after phase, every phase behind a
barrier at which all shards have reported, and no lease is left. -/
theorem dag_executed (sha256 : String → String) (uuid : Nat → String)
    (fabric : DeterministicExecutionFabric) (executionId : String)
    (phases : List (List ExtensionManifest)) :
    DagExecuted sha256 fabric phases (fabric.executeDag sha256 uuid executionId phases).1
      (fabric.executeDag sha256 uuid executionId phases).2 := by
  obtain ⟨receipts, hashes, htotals, hphases⟩ :=
    executePhases_spec sha256 uuid fabric ⟨[], [], 0, 0⟩ 1 phases
  have hfailed : (fabric.executePhases sha256 uuid ⟨[], [], 0, 0⟩ 1 phases).1.failed = 0 := by
    rw [htotals]
  have hreceipts : (fabric.executeDag sha256 uuid executionId phases).1.phaseReceipts = receipts :=
    congrArg Totals.receipts htotals
  have hhashes : (fabric.executeDag sha256 uuid executionId phases).1.barrierHashes = hashes :=
    congrArg Totals.barriers htotals
  refine ⟨if_pos hfailed, ⟨rfl, ?_, hfailed⟩, ?_, ?_, ?_, fun j hj => ?_⟩
  · rw [hreceipts]
    exact (congrArg Totals.completed htotals).trans (Nat.zero_add _)
  · rw [hreceipts]
    exact hphases.executed
  · rw [hreceipts]
    exact hphases.inOrder
  · rw [hreceipts]
    exact hphases.released
  · obtain ⟨hash, hbarrier, hhash⟩ := hphases.barriers j hj
    rw [hhashes]
    exact ⟨_, hbarrier, rfl, allComplete_closedBarrier _ _ _, hhash⟩

/-! ### The replay hash -/

theorem joinElems_text (xs : List String) : joinElems (xs.map text) = xs.map text := by
  induction xs with
  | nil => rfl
  | cons x xs ih => rw [List.map_cons, joinElems, ih, text, Document.join, joinSurrogates_ofString]

theorem text_injective : Function.Injective text := fun _ _ h =>
  ofString_injective (Document.str.inj h)

/-- Texts in order, up to their order. -/
theorem sortBy_id_eq_iff {xs ys : List String} : sortBy id xs = sortBy id ys ↔ xs.Perm ys := by
  have hxs := stableSort_sortBy id xs
  have hys := stableSort_sortBy id ys
  constructor
  · intro h
    exact hxs.perm.symm.trans (h ▸ hys.perm)
  · intro h
    exact (hxs.perm.trans (h.trans hys.perm.symm)).eq_of_pairwise
      (fun a b _ _ hab hba => le_antisymm hab hba) hxs.sorted hys.sorted

theorem computePhaseHash_iff (hsha : Function.Injective sha256)
    {receipts receipts' : List PhaseExecutionReceipt} :
    computePhaseHash sha256 receipts = computePhaseHash sha256 receipts' ↔
      (receipts.map PhaseExecutionReceipt.line).Perm
        (receipts'.map PhaseExecutionReceipt.line) := by
  rw [computePhaseHash, computePhaseHash, hsha.eq_iff, String.ofList_inj, render_eq_iff,
    Document.join, Document.join, Document.arr.injEq, joinElems_text, joinElems_text,
    (List.map_injective_iff.mpr text_injective).eq_iff, sortBy_id_eq_iff]

theorem colon_not_mem_toString (i : Nat) : ':' ∉ (toString i).toList := by
  rw [Nat.toString_eq_repr, Nat.toList_repr]
  exact fun hmem => absurd (isDigit_of_mem_toDigits hmem) (by decide)

theorem colon_not_mem_shardName (i : Nat) : ':' ∉ (shardName i).toList := by
  rw [shardName, String.toList_append, String.toList_append]
  simp only [String.toList_ofList, List.mem_append, not_or]
  refine ⟨⟨by decide, ?_⟩, colon_not_mem_toString i⟩
  intro hmem
  exact absurd (List.eq_of_mem_replicate hmem) (by decide)

theorem toList_line (phase shard : Nat) (output : String) :
    (toString phase ++ ":" ++ shardName shard ++ ":" ++ "completed" ++ ":" ++ output).toList =
      (toString phase).toList ++ ':' :: ((shardName shard).toList ++ ':' ::
        ("completed".toList ++ ':' :: output.toList)) := by
  have hcolon : ":".toList = [':'] := rfl
  simp only [String.toList_append, List.append_assoc, hcolon, List.nil_append,
    List.cons_append]

/-- The output's hash names the manifest and the phase. -/
theorem line_done_injective (hsha : Function.Injective sha256) (shardCount : Nat) :
    Function.Injective fun p => (done sha256 shardCount p).line := by
  rintro ⟨k, id⟩ ⟨k', id'⟩ h
  set shard := shardIndex sha256 shardCount id with hshard
  set shard' := shardIndex sha256 shardCount id' with hshard'
  have htext := congrArg String.toList h
  dsimp only [PhaseExecutionReceipt.line, done, doneOn] at htext
  rw [← hshard, ← hshard', toList_line, toList_line] at htext
  obtain ⟨-, hbehind⟩ :=
    append_separator_inj (colon_not_mem_toString k) (colon_not_mem_toString k') htext
  obtain ⟨-, hstatus⟩ :=
    append_separator_inj (colon_not_mem_shardName shard) (colon_not_mem_shardName shard') hbehind
  have houtput := List.append_cancel_left hstatus
  have hpayload := hsha (String.toList_inj.mp (List.cons.inj houtput).2)
  rw [String.ofList_inj, render_eq_iff] at hpayload
  simp only [outputPayload, text, Document.join, joinMembers, joinSurrogates_ofString,
    Document.obj.injEq, List.cons.injEq, Prod.mk.injEq, Document.str.injEq, Document.int.injEq,
    ofString_inj, Nat.cast_inj, true_and, and_true] at hpayload
  obtain ⟨hid, hphase, -⟩ := hpayload
  exact Prod.ext hphase hid

variable (sha256) in
/-- The lines of a graph's receipts are those of its manifests. -/
theorem lines_executeDag (uuid : Nat → String) (fabric : DeterministicExecutionFabric)
    (executionId : String) (phases : List (List ExtensionManifest)) :
    ((fabric.executeDag sha256 uuid executionId phases).1.phaseReceipts.map
        PhaseExecutionReceipt.line).Perm
      ((named 1 phases).map fun p => (done sha256 fabric.shardCount p).line) := by
  obtain ⟨receipts, hashes, htotals, hphases⟩ :=
    executePhases_spec sha256 uuid fabric ⟨[], [], 0, 0⟩ 1 phases
  have hreceipts : (fabric.executeDag sha256 uuid executionId phases).1.phaseReceipts = receipts :=
    congrArg Totals.receipts htotals
  have hlines := hphases.executed.map PhaseExecutionReceipt.line
  rw [List.map_map, List.map_map] at hlines
  rw [hreceipts]
  exact hlines

/-- Two fabrics with as many shards, whatever they have done before and whatever their random ids,
come to one replay hash for two graphs exactly when these name the same manifests in the same
phases, in any order within a phase. -/
theorem replayHash_iff (hsha : Function.Injective sha256) (uuid uuid' : Nat → String)
    (fabric fabric' : DeterministicExecutionFabric)
    (hcount : fabric.shardCount = fabric'.shardCount)
    (executionId executionId' : String) (phases phases' : List (List ExtensionManifest)) :
    (fabric.executeDag sha256 uuid executionId phases).1.replayHash =
        (fabric'.executeDag sha256 uuid' executionId' phases').1.replayHash ↔
      (named 1 phases).Perm (named 1 phases') := by
  have hlines := lines_executeDag sha256 uuid fabric executionId phases
  have hlines' := lines_executeDag sha256 uuid' fabric' executionId' phases'
  rw [← hcount] at hlines'
  rw [← List.map_perm_map_iff (line_done_injective hsha fabric.shardCount)]
  refine (computePhaseHash_iff hsha).trans ⟨fun h => ?_, fun h => ?_⟩
  · exact hlines.symm.trans (h.trans hlines')
  · exact hlines.trans (h.trans hlines'.symm)

end Shards

/-! #### One graph, its first phase in two orders -/

def manifestOf (extensionId : String) : ExtensionManifest where
  extensionId := extensionId
  packageName := extensionId
  packageVersion := "1.0.0"
  packageHash := ""
  capabilityClass := .staticAnalyzer
  trustZone := .sandboxExperimental
  status := .admitted

def idle (uuids : Nat) : DeterministicExecutionFabric where
  shardCount := 4
  positive := by decide
  shards := Dict.empty
  leases := Dict.empty
  phaseReceipts := Dict.empty
  barriers := Dict.empty
  executionLog := []
  issued := uuids

theorem replayHash_swapped :
    ((idle 0).executeDag id toString "exec_1" [[manifestOf "m1", manifestOf "m2"],
        [manifestOf "m3"]]).1.replayHash =
      ((idle 7).executeDag id toString "exec_2" [[manifestOf "m2", manifestOf "m1"],
        [manifestOf "m3"]]).1.replayHash :=
  (replayHash_iff Function.injective_id toString toString (idle 0) (idle 7) rfl "exec_1" "exec_2"
    [[manifestOf "m1", manifestOf "m2"], [manifestOf "m3"]]
    [[manifestOf "m2", manifestOf "m1"], [manifestOf "m3"]]).mpr (.swap ..)

end PiPlatform.Interoperability.Fabric
