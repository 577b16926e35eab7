import PiPlatform.Mesh.Kernel

/-! Hashes of two runs of one pipeline.

The ids of the receipts are drawn anew in each run, and a boundary's hash covers those of its
phase; the hash of a receipt covers the ids of slots, which are drawn as well. So two runs of one
configuration have the same hashes exactly when neither comes to a phase with workers
(`hashes_equal_iff`). -/
namespace PiPlatform.Mesh

open Library Library.Json Library.Python EventFabric

variable {R F : Type}

/-- The hashes of a ledger, of its receipts and of its boundaries. -/
def OrchestrationLedger.hashes (l : OrchestrationLedger R) : List String × List String :=
  (l.receipts.map (·.receiptHash), l.boundaries.map (·.boundaryHash))

namespace CentralOrchestratorKernel
variable (kernel : CentralOrchestratorKernel F)

/-- How a phase without workers is merged. -/
def idleStatus (phaseName : String) : PhaseStatus :=
  match kernel.config phaseName with
  | none => .success
  | some config => if config.requiredWorkerIds = [] then .success else .fail

/-- None of the phases that are come to has workers. -/
def Workerless : List String → Prop
  | [] => True
  | phaseName :: phaseNames => kernel.Idle phaseName ∧
      (kernel.idleStatus phaseName = .fail ∧ kernel.failOpen = false ∨ Workerless phaseNames)

end CentralOrchestratorKernel

/-! ### What a boundary's hash determines -/

theorem joinElems_texts (ss : List String) : joinElems (ss.map text) = ss.map text := by
  induction ss with
  | nil => rfl
  | cons s ss ih => rw [List.map_cons, joinElems, ih, text, Document.join, joinSurrogates_ofString]

theorem text_injective : Function.Injective text := fun _ _ h =>
  ofString_injective (Document.str.inj h)

section Hashes
variable {H : Digest} {b b' : PhaseBoundaryReceipt}

theorem ids_perm_of_hash (hinj : Function.Injective H.hex)
    (h : b.computeHash H = b'.computeHash H) : b.workerReceiptIds.Perm b'.workerReceiptIds := by
  have hrender := String.ofList_injective (hinj h)
  have hjoin := (render_eq_iff _).mp hrender
  simp only [List.map_cons, List.map_nil, Document.join, joinMembers, texts, joinElems_texts,
    Document.obj.injEq, List.cons.injEq, Prod.mk.injEq, Document.arr.injEq, true_and, and_true]
    at hjoin
  have hids := List.map_injective_iff.mpr text_injective hjoin.2.2.2.2
  have hsorted : ∀ ids, (sorted ids).Perm ids := fun ids => List.perm_insertionSort _ ids
  refine (hsorted _).symm.trans ?_
  rw [hids]
  exact hsorted _

theorem computeHash_congr (hphase : b.phase = b'.phase)
    (hids : b.workerReceiptIds = b'.workerReceiptIds)
    (hmerged : b.mergedOutputSlotId = b'.mergedOutputSlotId)
    (hstatus : b.phaseStatus = b'.phaseStatus)
    (hprevious : b.previousBoundaryHash = b'.previousBoundaryHash) :
    b.computeHash H = b'.computeHash H := by
  rw [PhaseBoundaryReceipt.computeHash, PhaseBoundaryReceipt.computeHash, hphase, hids, hmerged,
    hstatus, hprevious]

end Hashes

/-! ### Phases without workers -/

section Runs
variable {N : Floats R} {T : FloatTexts R} {H : Digest} {chance chance' : Chance R}
  {kernel : CentralOrchestratorKernel F} {s s' : MeshState R F} {phaseName : String}

theorem mergePhase_nil (config : PhaseConfig F) :
    kernel.mergePhase config ([] : List (ExecutionReceipt R)) =
      if config.requiredWorkerIds = [] then .success else .fail := by
  rw [CentralOrchestratorKernel.mergePhase]
  cases hrequired : config.requiredWorkerIds with
  | nil => simp
  | cons id ids => simp

/-- The state behind a phase without workers. -/
def afterIdle (H : Digest) (chance : Chance R) (kernel : CentralOrchestratorKernel F)
    (phaseName : String) (s : MeshState R F) : MeshState R F :=
  { CentralOrchestratorKernel.appendBoundary H chance phaseName [] (kernel.idleStatus phaseName) s
    with phases := s.phases ++ [⟨phaseName, kernel.config phaseName, []⟩] }

variable (N T H chance) in
theorem runPhase_idle (hidle : kernel.Idle phaseName) (initialSlotIds : List String)
    (s : MeshState R F) : kernel.runPhase N T H chance initialSlotIds phaseName s =
      (if kernel.idleStatus phaseName = .fail ∧ kernel.failOpen = false then .closed
        else .continued, afterIdle H chance kernel phaseName s) := by
  rw [CentralOrchestratorKernel.runPhase, afterIdle, CentralOrchestratorKernel.idleStatus]
  cases hconfig : kernel.config phaseName with
  | none => rfl
  | some config =>
    dsimp only
    rw [hidle config hconfig, PhaseConfig.runFrom]
    dsimp only
    rw [mergePhase_nil, List.drop_length]
    cases kernel.failOpen <;> split_ifs <;> first | rfl | simp_all

variable (N T H chance) in
theorem runPhases_idle (hidle : kernel.Idle phaseName) (rest initialSlotIds : List String)
    (s : MeshState R F) :
    kernel.runPhases N T H chance initialSlotIds (phaseName :: rest) s =
      if kernel.idleStatus phaseName = .fail ∧ kernel.failOpen = false then
        (none, { afterIdle H chance kernel phaseName s with
          ledger := (afterIdle H chance kernel phaseName s).ledger.close chance.closing })
      else kernel.runPhases N T H chance initialSlotIds rest
        (afterIdle H chance kernel phaseName s) := by
  rw [CentralOrchestratorKernel.runPhases, runPhase_idle N T H chance hidle]
  split_ifs <;> rfl

/-- Two runs that have not come to a worker. -/
structure Alike (s s' : MeshState R F) : Prop where
  receipts : s.ledger.receipts = []
  receipts' : s'.ledger.receipts = []
  boundaries : s.ledger.boundaries.map (·.boundaryHash) = s'.ledger.boundaries.map (·.boundaryHash)

theorem Alike.hashes (halike : Alike s s') : s.ledger.hashes = s'.ledger.hashes := by
  rw [OrchestrationLedger.hashes, OrchestrationLedger.hashes, halike.receipts, halike.receipts',
    halike.boundaries]

theorem Alike.last (halike : Alike s s') :
    s.ledger.boundaries.getLast?.elim "" (·.boundaryHash) =
      s'.ledger.boundaries.getLast?.elim "" (·.boundaryHash) := by
  have hlast := congrArg List.getLast? halike.boundaries
  rw [List.getLast?_map, List.getLast?_map] at hlast
  have helim : ∀ b : Option PhaseBoundaryReceipt, b.elim "" (·.boundaryHash) =
      (b.map (·.boundaryHash)).getD "" := fun b => by cases b <;> rfl
  rw [helim, helim, hlast]

variable (H chance chance' kernel) in
theorem Alike.idle (halike : Alike s s') (phaseName : String) :
    Alike (afterIdle H chance kernel phaseName s) (afterIdle H chance' kernel phaseName s') := by
  let boundary (drawn : String × Calendar.Instant) : PhaseBoundaryReceipt :=
    ⟨drawn.1, phaseName, [], none, kernel.idleStatus phaseName, "", "", drawn.2⟩
  have hhash : (s.ledger.appendBoundary H
        (boundary (chance.boundary s.phases.length))).1.boundaryHash =
      (s'.ledger.appendBoundary H
        (boundary (chance'.boundary s'.phases.length))).1.boundaryHash :=
    computeHash_congr rfl rfl rfl rfl halike.last
  refine ⟨halike.receipts, halike.receipts', ?_⟩
  show (s.ledger.boundaries ++ [_]).map _ = (s'.ledger.boundaries ++ [_]).map _
  rw [List.map_append, List.map_append, halike.boundaries]
  exact congrArg (s'.ledger.boundaries.map (·.boundaryHash) ++ [·]) hhash

/-! ### Phases with workers -/

variable (N T H chance kernel) in
/-- Boundaries are only added. -/
theorem runPhases_boundaries (rest initialSlotIds : List String) (s : MeshState R F) :
    ∃ tail, (kernel.runPhases N T H chance initialSlotIds rest s).2.ledger.boundaries =
      s.ledger.boundaries ++ tail := by
  induction rest generalizing s with
  | nil => exact ⟨[], (List.append_nil _).symm⟩
  | cons phaseName rest ih =>
    obtain ⟨run, -, hended⟩ := runPhase_spec N T H chance kernel initialSlotIds phaseName s
    obtain ⟨flow, s₁, hrun⟩ : ∃ flow s₁, kernel.runPhase N T H chance initialSlotIds phaseName s =
      (flow, s₁) := ⟨_, _, rfl⟩
    rw [hrun] at hended
    rw [CentralOrchestratorKernel.runPhases, hrun]
    cases flow with
    | raised error => exact ⟨[], hended.1.trans (List.append_nil _).symm⟩
    | closed =>
      obtain ⟨b, hb⟩ := hended.bounded
      exact ⟨[b], hb.appended⟩
    | continued =>
      obtain ⟨b, hb⟩ := hended.1.bounded
      obtain ⟨tail, htail⟩ := ih s₁
      exact ⟨b :: tail, by rw [htail, hb.appended, List.append_assoc, List.singleton_append]⟩

variable (N T H chance) in
/-- A phase with workers that is not raised out of leaves a boundary with ids of receipts. -/
theorem runPhases_busy (hbusy : ¬ kernel.Idle phaseName) (rest initialSlotIds : List String)
    (s : MeshState R F)
    (hreturned : (kernel.runPhases N T H chance initialSlotIds (phaseName :: rest) s).1 = none) :
    ∃ b tail,
      (kernel.runPhases N T H chance initialSlotIds (phaseName :: rest) s).2.ledger.boundaries =
        s.ledger.boundaries ++ b :: tail ∧
      b.boundaryHash = b.computeHash H ∧ b.workerReceiptIds ≠ [] ∧
      ∀ id ∈ b.workerReceiptIds, ∃ k, id = (chance.execution k).receiptId := by
  obtain ⟨run, hentered, hended⟩ := runPhase_spec N T H chance kernel initialSlotIds phaseName s
  obtain ⟨flow, s₁, hrun⟩ : ∃ flow s₁, kernel.runPhase N T H chance initialSlotIds phaseName s =
    (flow, s₁) := ⟨_, _, rfl⟩
  rw [hrun] at hentered hended
  rw [CentralOrchestratorKernel.runPhases, hrun] at hreturned ⊢
  have hcalled : run.calls ≠ [] := fun hnone => hbusy (hentered.idle.mp hnone)
  cases flow with
  | raised error => cases hreturned
  | closed =>
    obtain ⟨b, hb⟩ := hended.bounded
    exact ⟨b, [], hb.appended, hb.hashed, hb.counted.not.mpr hcalled, hb.drawn⟩
  | continued =>
    obtain ⟨b, hb⟩ := hended.1.bounded
    obtain ⟨tail, htail⟩ := runPhases_boundaries N T H chance kernel rest initialSlotIds s₁
    refine ⟨b, tail, ?_, hb.hashed, hb.counted.not.mpr hcalled, hb.drawn⟩
    show (kernel.runPhases N T H chance initialSlotIds rest s₁).2.ledger.boundaries = _
    rw [htail, hb.appended, List.append_assoc, List.singleton_append]

/-! ### Two runs -/

/-- What two runs draw for receipts is different. -/
def Distinct (chance chance' : Chance R) : Prop :=
  ∀ j k, (chance.execution j).receiptId ≠ (chance'.execution k).receiptId

variable (N T kernel) in
theorem runPhases_hashes (hinj : Function.Injective H.hex) (hdistinct : Distinct chance chance')
    (halike : Alike s s') (rest initialSlotIds initialSlotIds' : List String)
    (hreturned : (kernel.runPhases N T H chance initialSlotIds rest s).1 = none)
    (hreturned' : (kernel.runPhases N T H chance' initialSlotIds' rest s').1 = none) :
    (kernel.runPhases N T H chance initialSlotIds rest s).2.ledger.hashes =
        (kernel.runPhases N T H chance' initialSlotIds' rest s').2.ledger.hashes ↔
      kernel.Workerless rest := by
  induction rest generalizing s s' with
  | nil => exact iff_of_true halike.hashes trivial
  | cons phaseName rest ih =>
    rw [CentralOrchestratorKernel.Workerless]
    by_cases hidle : kernel.Idle phaseName
    · have hnext := halike.idle H chance chance' kernel phaseName
      rw [runPhases_idle N T H chance hidle] at hreturned ⊢
      rw [runPhases_idle N T H chance' hidle] at hreturned' ⊢
      rw [and_iff_right hidle]
      by_cases hclosed : kernel.idleStatus phaseName = .fail ∧ kernel.failOpen = false
      · rw [if_pos hclosed, if_pos hclosed]
        exact iff_of_true hnext.hashes (.inl hclosed)
      · rw [if_neg hclosed] at hreturned hreturned' ⊢
        rw [if_neg hclosed, or_iff_right hclosed]
        exact ih hnext hreturned hreturned'
    · refine iff_of_false (fun hhashes => ?_) fun hworkerless => hidle hworkerless.1
      obtain ⟨b, tail, hb, hhash, hids, hdrawn⟩ :=
        runPhases_busy N T H chance hidle rest initialSlotIds s hreturned
      obtain ⟨b', tail', hb', hhash', -, hdrawn'⟩ :=
        runPhases_busy N T H chance' hidle rest initialSlotIds' s' hreturned'
      have hboundaries := congrArg Prod.snd hhashes
      simp only [OrchestrationLedger.hashes] at hboundaries
      rw [hb, hb', List.map_append, List.map_append, halike.boundaries] at hboundaries
      have hsame : b.boundaryHash = b'.boundaryHash :=
        (List.cons.inj (List.append_cancel_left hboundaries)).1
      have hperm := ids_perm_of_hash hinj (hhash.symm.trans (hsame.trans hhash'))
      obtain ⟨id, hid⟩ := List.exists_mem_of_ne_nil _ hids
      obtain ⟨j, hj⟩ := hdrawn id hid
      obtain ⟨k, hk⟩ := hdrawn' id (hperm.mem_iff.mp hid)
      exact hdistinct j k (hj.symm.trans hk)

end Runs

theorem alike_fresh (bus bus' : ArtifactBus F) : Alike
    (⟨bus, ⟨[], [], none⟩, [], []⟩ : MeshState R F) ⟨bus', ⟨[], [], none⟩, [], []⟩ :=
  ⟨rfl, rfl, rfl⟩

/-- Two runs of one configuration that stay within the limits, on ledgers of their own and with
ids of their own: the same hashes exactly if no phase that is come to has workers. -/
theorem hashes_equal_iff {R F : Type} (N : Floats R) (T : FloatTexts R) (H : Digest)
    (hinj : Function.Injective H.hex) (kernel : CentralOrchestratorKernel F)
    (chance chance' : Chance R) (hdistinct : Distinct chance chance')
    (initialSlotIds initialSlotIds' : List String) (bus bus' : ArtifactBus F)
    (hreturned : (kernel.runPipeline N T H chance initialSlotIds bus ⟨[], [], none⟩).1 = none)
    (hreturned' : (kernel.runPipeline N T H chance' initialSlotIds' bus' ⟨[], [], none⟩).1 = none) :
    (kernel.runPipeline N T H chance initialSlotIds bus ⟨[], [], none⟩).2.ledger.hashes =
        (kernel.runPipeline N T H chance' initialSlotIds' bus' ⟨[], [], none⟩).2.ledger.hashes ↔
      kernel.Workerless phaseOrder :=
  runPhases_hashes N T kernel hinj hdistinct (alike_fresh bus bus') phaseOrder initialSlotIds
    initialSlotIds' hreturned hreturned'

/-! ### Seven phases of one worker, twice -/

theorem dummies_returned : ∀ name ∈ ["a", "b"], (dummies.runPipeline Python.exact noTexts
    prefixDigest (numbered name) [] .empty ⟨[], [], none⟩).1 = none ∧
      (dummies.runPipeline Python.exact noTexts prefixDigest (numbered name) [] .empty
        ⟨[], [], none⟩).2.ledger.receipts.map (·.status) = List.replicate 7 .success := by
  decide +kernel

theorem numbered_distinct : Distinct (numbered "a") (numbered "b") := by
  intro j k h
  have hchars := congrArg String.toList h
  simp only [numbered, String.toList_append, List.append_assoc] at hchars
  have hnames := List.append_cancel_left hchars
  exact absurd (List.cons.inj hnames).1 (by decide)

theorem dummies_workers : ¬ dummies.Workerless phaseOrder := by
  intro hworkerless
  have hconfig : dummies.config "INGEST" = some ⟨"INGEST", [dummyWorker], 8, []⟩ := rfl
  exact absurd (hworkerless.1 _ hconfig) (List.cons_ne_nil _ _)

theorem hashes_dummies :
    (dummies.runPipeline Python.exact noTexts prefixDigest (numbered "a") [] .empty
        ⟨[], [], none⟩).2.ledger.hashes ≠
      (dummies.runPipeline Python.exact noTexts prefixDigest (numbered "b") [] .empty
        ⟨[], [], none⟩).2.ledger.hashes := by
  have ha := (dummies_returned "a" (by simp)).1
  have hb := (dummies_returned "b" (by simp)).1
  exact (hashes_equal_iff Python.exact noTexts prefixDigest prefixDigest_injective dummies
    (numbered "a") (numbered "b") numbered_distinct [] [] .empty .empty ha hb).not.mpr
      dummies_workers

/-- All executions succeed in both runs, and the ids of the receipts change the hashes. -/
theorem dummies_hashes_differ :
    (∀ name ∈ ["a", "b"], (dummies.runPipeline Python.exact noTexts prefixDigest (numbered name) []
        .empty ⟨[], [], none⟩).2.ledger.receipts.map (·.status) = List.replicate 7 .success) ∧
    (dummies.runPipeline Python.exact noTexts prefixDigest (numbered "a") [] .empty
        ⟨[], [], none⟩).2.ledger.hashes ≠
      (dummies.runPipeline Python.exact noTexts prefixDigest (numbered "b") [] .empty
        ⟨[], [], none⟩).2.ledger.hashes := by
  refine ⟨fun name hname => (dummies_returned name hname).2, fun hhashes => ?_⟩
  have ha := (dummies_returned "a" (by simp)).1
  have hb := (dummies_returned "b" (by simp)).1
  rw [CentralOrchestratorKernel.runPipeline] at ha hb hhashes
  rw [CentralOrchestratorKernel.runPipeline] at hhashes
  exact dummies_workers ((runPhases_hashes Python.exact noTexts dummies prefixDigest_injective
    numbered_distinct (alike_fresh .empty .empty) phaseOrder [] [] ha hb).mp hhashes)

end PiPlatform.Mesh
