import Mathlib.Data.Finset.Sort
import Mathlib.Data.String.Basic
import PiPlatform.Library.Dict
import PiPlatform.Library.Json.Literal
import PiPlatform.Library.System

/-! The shard coordinator of the mesh.

A worker belongs to the shard its digest picks. Registration goes through the workers one by
one: each is first measured against the capacity of its shard and then added, so a worker that
is there already is refused by a full shard like any other, and the workers before the one that
is refused stay registered. The lock is on the states of the shards alone: a mark is taken with
no phase open, and a phase that was advanced to need not be begun. What holds of every run is
`Coordinated`. -/
namespace PiPlatform.Mesh.Shard

open Library Library.Json

inductive ShardState where
  | idle | assigned | executing | completed | failed
  deriving DecidableEq

structure ShardAssignment where
  workerId : String
  shardId : String
  assignmentHash : String
  deriving DecidableEq

structure PhaseBoundary where
  phase : String
  shardId : String
  workerIds : List String
  completed : Bool
  boundaryHash : String
  deriving DecidableEq

inductive ShardError where
  | valueError (message : String)
  | keyError (message : String)
  | runtimeError (message : String)
  | zeroDivisionError
  deriving DecidableEq

/-- `int(text, 16)` of hexadecimal digits. -/
def hexInt (digits : List Char) : Nat := digits.foldl (fun n c => 16 * n + (hexVal c).getD 0) 0

def joined (xs : List String) : String := ",".intercalate xs

/-! ### The partitioner -/

/-- As many ids as shards. -/
structure DeterministicPartitioner where
  shardCount : Nat
  shardIds : List String
  counted : shardIds.length = shardCount

variable (sha256 : String → String)

namespace DeterministicPartitioner

/-- No ids, or an empty list of them, are numbered. -/
def new (shardCount : Int) (shardIds : Option (List String)) :
    Except ShardError DeterministicPartitioner :=
  let given := shardIds.getD []
  let shardIds :=
    if given = [] then (List.range shardCount.toNat).map fun i => "shard_" ++ toString i else given
  if h : (shardIds.length : Int) = shardCount then
    .ok ⟨shardCount.toNat, shardIds, by omega⟩
  else .error (.valueError "shard_ids length must equal shard_count")

/-- `int(h[:8], 16) % shard_count` -/
def index (p : DeterministicPartitioner) (workerId : String) : Nat :=
  hexInt ((sha256 workerId).toList.take 8) % p.shardCount

/-- Without shards there is nothing to divide by. -/
def assign (p : DeterministicPartitioner) (workerId : String) :
    Except ShardError ShardAssignment :=
  match p.shardIds[p.index sha256 workerId]? with
  | none => .error .zeroDivisionError
  | some shardId => .ok ⟨workerId, shardId, sha256 (workerId ++ ":" ++ shardId)⟩

def assignAll (p : DeterministicPartitioner) (workerIds : List String) :
    Except ShardError (Dict String ShardAssignment) := do
  let pairs ← workerIds.mapM fun workerId => do return (workerId, ← p.assign sha256 workerId)
  return .ofList pairs

end DeterministicPartitioner

/-! ### The coordinator -/

structure ShardCoordinator where
  partitioner : DeterministicPartitioner
  maxWorkersPerShard : Int
  shardWorkers : Dict String (Finset String)
  shardStates : Dict String ShardState
  phaseBoundaries : List PhaseBoundary
  executionLog : List String
  currentPhase : Option String

namespace ShardCoordinator

def new (partitioner : DeterministicPartitioner) (maxWorkersPerShard : Int) : ShardCoordinator where
  partitioner := partitioner
  maxWorkersPerShard := maxWorkersPerShard
  shardWorkers := .ofList (partitioner.shardIds.map fun sid => (sid, ∅))
  shardStates := .ofList (partitioner.shardIds.map fun sid => (sid, .idle))
  phaseBoundaries := []
  executionLog := []
  currentPhase := none

/-- `self._shard_workers[shard]`, of a shard there is. -/
def workersOf (c : ShardCoordinator) (shardId : String) : Finset String :=
  (c.shardWorkers.get? shardId).getD ∅

def log (c : ShardCoordinator) (line : String) : ShardCoordinator :=
  { c with executionLog := c.executionLog ++ [line] }

/-- What the loop of `register_workers` does with a worker it has room for. -/
def put (c : ShardCoordinator) (assignment : ShardAssignment) : ShardCoordinator :=
  { c with
    shardWorkers := c.shardWorkers.set assignment.shardId
      (insert assignment.workerId (c.workersOf assignment.shardId)) }.log
    ("REGISTER " ++ assignment.workerId ++ " -> " ++ assignment.shardId)

def isFull (c : ShardCoordinator) (shardId : String) : Bool :=
  c.maxWorkersPerShard ≤ (c.workersOf shardId).card

/-- The loop of `register_workers`: what it raises, and the coordinator afterwards. -/
def registerEach : ShardCoordinator → List ShardAssignment → Option ShardError × ShardCoordinator
  | c, [] => (none, c)
  | c, a :: rest =>
    if c.isFull a.shardId then
      (some (.valueError ("Shard " ++ a.shardId ++ " exceeds max_workers_per_shard (" ++
        toString c.maxWorkersPerShard ++ ")")), c)
    else registerEach (c.put a) rest

def registerWorkers (c : ShardCoordinator) (workerIds : List String) :
    Except ShardError (Dict String ShardAssignment) × ShardCoordinator :=
  match c.partitioner.assignAll sha256 workerIds with
  | .error e => (.error e, c)
  | .ok assignments =>
    match c.registerEach (assignments.items.map Prod.snd) with
    | (some e, c') => (.error e, c')
    | (none, c') => (.ok assignments, c')

/-- Every shard in the one state. -/
def setStates (c : ShardCoordinator) (state : ShardState) : Dict String ShardState :=
  c.partitioner.shardIds.foldl (fun states sid => states.set sid state) c.shardStates

def beginPhase (c : ShardCoordinator) (phase : String) : ShardCoordinator :=
  { c with currentPhase := some phase, shardStates := c.setStates .executing }.log
    ("PHASE_BEGIN " ++ phase)

def markShardCompleted (c : ShardCoordinator) (shardId : String) :
    Except ShardError ShardCoordinator :=
  if c.shardStates.contains shardId then
    .ok ({ c with shardStates := c.shardStates.set shardId .completed }.log
      ("SHARD_COMPLETE " ++ shardId))
  else .error (.keyError ("Unknown shard: " ++ shardId))

def canAdvancePhase (c : ShardCoordinator) : Bool :=
  c.shardStates.items.all fun p => p.2 = .completed

/-- `self._current_phase or "INGEST"` -/
def closingPhase (c : ShardCoordinator) : String :=
  match c.currentPhase with
  | some phase => if phase = "" then "INGEST" else phase
  | none => "INGEST"

def allWorkers (c : ShardCoordinator) : List String :=
  (c.shardWorkers.items.flatMap fun p => p.2.sort).insertionSort (· ≤ ·)

/-- The boundary of the phase that is closed, with its hash. -/
def boundary (c : ShardCoordinator) : PhaseBoundary where
  phase := c.closingPhase
  shardId := "global"
  workerIds := c.allWorkers
  completed := true
  boundaryHash := sha256 (c.closingPhase ++ ":global:" ++
    joined (c.allWorkers.insertionSort (· ≤ ·)) ++ ":1")

/-- Where all shards have completed, a boundary, and the shards are idle again. -/
def advancePhase (c : ShardCoordinator) (nextPhase : String) :
    Except ShardError (PhaseBoundary × ShardCoordinator) :=
  if c.canAdvancePhase then
    let boundary := c.boundary sha256
    let c' := { c with phaseBoundaries := c.phaseBoundaries ++ [boundary] }.log
      ("PHASE_ADVANCE " ++ boundary.phase ++ " " ++ boundary.boundaryHash)
    .ok (boundary,
      { c' with shardStates := c'.setStates .idle, currentPhase := some nextPhase })
  else .error (.runtimeError "Cannot advance: not all shards completed current phase")

end ShardCoordinator

/-! ### Runs -/

inductive Call where
  | registerWorkers (workerIds : List String)
  | beginPhase (phase : String)
  | markShardCompleted (shardId : String)
  | advancePhase (nextPhase : String)

/-- A coordinator, the shards marked since a phase was last begun or advanced to, and the
workers of the registrations that returned. -/
structure Watched where
  coordinator : ShardCoordinator
  marked : List String
  registered : List String

def Watched.step (s : Watched) : Call → Watched
  | .registerWorkers workerIds =>
    match s.coordinator.registerWorkers sha256 workerIds with
    | (.error _, coordinator) => { s with coordinator }
    | (.ok _, coordinator) => { s with coordinator, registered := s.registered ++ workerIds }
  | .beginPhase phase => { s with coordinator := s.coordinator.beginPhase phase, marked := [] }
  | .markShardCompleted shardId =>
    match s.coordinator.markShardCompleted shardId with
    | .error _ => s
    | .ok coordinator => { s with coordinator, marked := s.marked ++ [shardId] }
  | .advancePhase nextPhase =>
    match s.coordinator.advancePhase sha256 nextPhase with
    | .error _ => s
    | .ok (_, coordinator) => { s with coordinator, marked := [] }

/-- A new coordinator from its first call on. -/
def coordination (partitioner : DeterministicPartitioner) (maxWorkersPerShard : Int) :
    System Watched Call where
  initial := ⟨.new partitioner maxWorkersPerShard, [], []⟩
  step := Watched.step sha256

/-! ### One registration -/

theorem DeterministicPartitioner.assign_cases (p : DeterministicPartitioner) (workerId : String) :
    (p.shardCount = 0 ∧ p.assign sha256 workerId = .error .zeroDivisionError) ∨
      ∃ a, p.assign sha256 workerId = .ok a ∧ a.workerId = workerId ∧ a.shardId ∈ p.shardIds := by
  unfold DeterministicPartitioner.assign
  cases hshard : p.shardIds[p.index sha256 workerId]? with
  | some shardId => exact .inr ⟨_, rfl, rfl, List.mem_of_getElem? hshard⟩
  | none =>
    refine .inl ⟨?_, rfl⟩
    have hlength := List.getElem?_eq_none_iff.mp hshard
    rw [p.counted, DeterministicPartitioner.index] at hlength
    by_contra hcount
    exact absurd (Nat.mod_lt _ (Nat.pos_of_ne_zero hcount)) (not_lt.mpr hlength)

/-- Either there is nothing to divide by, or each worker has its shard. -/
theorem DeterministicPartitioner.assignAll_cases (p : DeterministicPartitioner)
    (workerIds : List String) :
    (p.assignAll sha256 workerIds = .error .zeroDivisionError ∧
        ∃ w ∈ workerIds, p.assign sha256 w = .error .zeroDivisionError) ∨
      ∃ assignments, p.assignAll sha256 workerIds = .ok assignments ∧
        (∀ w ∈ workerIds, ∃ a, p.assign sha256 w = .ok a) ∧
        ∀ a, a ∈ assignments.items.map Prod.snd ↔
          ∃ w ∈ workerIds, p.assign sha256 w = .ok a := by
  by_cases hok : ∀ w ∈ workerIds, ∃ a, p.assign sha256 w = .ok a
  · let g (w : String) : ShardAssignment := (p.assign sha256 w).toOption.getD ⟨w, "", ""⟩
    have hg : ∀ w ∈ workerIds, p.assign sha256 w = .ok (g w) := by
      intro w hw
      obtain ⟨a, ha⟩ := hok w hw
      simp [g, ha, Except.toOption]
    have hpairs : (workerIds.mapM fun w => do return (w, ← p.assign sha256 w) :
        Except ShardError _) = .ok (workerIds.map fun w => (w, g w)) :=
      mapM_ok fun w hw => by rw [hg w hw]; rfl
    refine .inr ⟨.ofList (workerIds.map fun w => (w, g w)), ?_, hok, fun a => ?_⟩
    · rw [assignAll, hpairs]
      rfl
    · have hitems : ∀ w, (w, a) ∈ (Dict.ofList (workerIds.map fun w => (w, g w))).items ↔
          w ∈ workerIds ∧ p.assign sha256 w = .ok a := by
        intro w
        rw [Dict.mem_items, Dict.get?_ofList_map]
        split_ifs with hw
        · rw [hg w hw, Option.some.injEq, Except.ok.injEq, and_iff_right hw]
        · exact iff_of_false (by simp) fun h => hw h.1
      simp only [List.mem_map, Prod.exists, exists_eq_right, hitems]
  · left
    push Not at hok
    obtain ⟨w, hw, hnone⟩ := hok
    have hempty : p.shardCount = 0 := by
      rcases p.assign_cases sha256 w with ⟨hempty, -⟩ | ⟨a, ha, -⟩
      · exact hempty
      · exact absurd ha (hnone a)
    have herror : ∀ w, p.assign sha256 w = .error .zeroDivisionError := by
      intro w
      rcases p.assign_cases sha256 w with ⟨-, h⟩ | ⟨a, -, -, hmem⟩
      · exact h
      · rw [List.length_eq_zero_iff.mp (p.counted.trans hempty)] at hmem
        cases hmem
    refine ⟨?_, w, hw, herror w⟩
    cases workerIds with
    | nil => cases hw
    | cons w' rest =>
      rw [assignAll, List.mapM_cons, herror w']
      rfl

namespace ShardCoordinator
variable {c : ShardCoordinator} {items : List ShardAssignment}

/-- Every worker finds room when its turn comes. -/
def Fits : ShardCoordinator → List ShardAssignment → Prop
  | _, [] => True
  | c, a :: rest => c.isFull a.shardId = false ∧ Fits (c.put a) rest

theorem registerEach_fits (h : c.Fits items) :
    c.registerEach items = (none, items.foldl put c) := by
  induction items generalizing c with
  | nil => rfl
  | cons a rest ih =>
    rw [registerEach, if_neg (Bool.eq_false_iff.mp h.1), ih h.2, List.foldl_cons]

theorem registerEach_not_fits (h : ¬ c.Fits items) :
    ∃ before a rest, items = before ++ a :: rest ∧ c.Fits before ∧
      (before.foldl put c).isFull a.shardId = true ∧
      ∃ message, c.registerEach items = (some (.valueError message), before.foldl put c) := by
  induction items generalizing c with
  | nil => exact absurd trivial h
  | cons a rest ih =>
    by_cases hfull : c.isFull a.shardId = true
    · exact ⟨[], a, rest, rfl, trivial, hfull, _, if_pos hfull⟩
    · have hroom := Bool.eq_false_iff.mpr hfull
      obtain ⟨before, b, later, rfl, hbefore, hb, message, heach⟩ :=
        ih fun hrest => h ⟨hroom, hrest⟩
      exact ⟨a :: before, b, later, rfl, ⟨hroom, hbefore⟩, hb, message,
        by rw [registerEach, if_neg hfull, heach]; rfl⟩

theorem workersOf_put (c : ShardCoordinator) (a : ShardAssignment) (shardId : String) :
    (c.put a).workersOf shardId =
      if a.shardId = shardId then insert a.workerId (c.workersOf shardId)
      else c.workersOf shardId := by
  have hget : (c.put a).workersOf shardId =
      ((c.shardWorkers.set a.shardId (insert a.workerId (c.workersOf a.shardId))).get?
        shardId).getD ∅ := rfl
  rw [hget, Dict.get?_set]
  split_ifs with hid
  · rw [hid, Option.getD_some]
  · rfl

/-- Of the rest of a coordinator a registration leaves all but the log as it is. -/
theorem foldl_put (c : ShardCoordinator) (items : List ShardAssignment) :
    (items.foldl put c).partitioner = c.partitioner ∧
      (items.foldl put c).maxWorkersPerShard = c.maxWorkersPerShard ∧
      (items.foldl put c).shardStates = c.shardStates ∧
      (items.foldl put c).executionLog.length = c.executionLog.length + items.length := by
  induction items generalizing c with
  | nil => exact ⟨rfl, rfl, rfl, rfl⟩
  | cons a rest ih =>
    obtain ⟨hpartitioner, hmax, hstates, hlog⟩ := ih (c.put a)
    refine ⟨hpartitioner, hmax, hstates, ?_⟩
    rw [List.foldl_cons, hlog]
    simp [put, log]
    omega

/-- To add who is there already changes nothing. -/
theorem workersOf_foldl_put (h : ∀ a ∈ items, a.workerId ∈ c.workersOf a.shardId)
    (shardId : String) : (items.foldl put c).workersOf shardId = c.workersOf shardId := by
  induction items generalizing c with
  | nil => rfl
  | cons a rest ih =>
    have hsame : ∀ id, (c.put a).workersOf id = c.workersOf id := by
      intro id
      rw [workersOf_put]
      split_ifs with hid
      · rw [← hid, Finset.insert_eq_of_mem (h a List.mem_cons_self)]
      · rfl
    rw [List.foldl_cons, ih fun b hb => by rw [hsame]; exact h b (List.mem_cons_of_mem a hb), hsame]

/-- What a registration comes to. -/
theorem registerWorkers_cases (c : ShardCoordinator) (workerIds : List String) :
    (c.registerWorkers sha256 workerIds = (.error .zeroDivisionError, c) ∧
        ∃ w ∈ workerIds, c.partitioner.assign sha256 w = .error .zeroDivisionError) ∨
      ∃ assignments, c.partitioner.assignAll sha256 workerIds = .ok assignments ∧
        (∀ w ∈ workerIds, ∃ a, c.partitioner.assign sha256 w = .ok a) ∧
        (∀ a, a ∈ assignments.items.map Prod.snd ↔
          ∃ w ∈ workerIds, c.partitioner.assign sha256 w = .ok a) ∧
        (c.Fits (assignments.items.map Prod.snd) ∧ c.registerWorkers sha256 workerIds =
            (.ok assignments, (assignments.items.map Prod.snd).foldl put c) ∨
          ∃ before a rest, assignments.items.map Prod.snd = before ++ a :: rest ∧
            c.Fits before ∧ (before.foldl put c).isFull a.shardId = true ∧
            ∃ message, c.registerWorkers sha256 workerIds =
              (.error (.valueError message), before.foldl put c)) := by
  rcases c.partitioner.assignAll_cases sha256 workerIds with ⟨herror, hw⟩ |
    ⟨assignments, hok, hall, hmem⟩
  · exact .inl ⟨by rw [registerWorkers, herror], hw⟩
  · refine .inr ⟨assignments, hok, hall, hmem, ?_⟩
    by_cases hfits : c.Fits (assignments.items.map Prod.snd)
    · exact .inl ⟨hfits, by simp only [registerWorkers, hok, registerEach_fits hfits]⟩
    · obtain ⟨before, a, rest, hitems, hbefore, hfull, message, heach⟩ :=
        registerEach_not_fits hfits
      exact .inr ⟨before, a, rest, hitems, hbefore, hfull, message,
        by simp only [registerWorkers, hok, heach]⟩

/-! ### Seats -/

/-- Workers sit where they are assigned to, and in no shard too many. -/
structure Seated (c : ShardCoordinator) : Prop where
  placed : ∀ w sid, w ∈ c.workersOf sid →
    ∃ a, c.partitioner.assign sha256 w = .ok a ∧ a.shardId = sid
  bounded : ∀ sid, ((c.workersOf sid).card : Int) ≤ max c.maxWorkersPerShard 0

variable {sha256}

theorem Seated.put (h : Seated sha256 c) {a : ShardAssignment}
    (ha : c.partitioner.assign sha256 a.workerId = .ok a) (hroom : c.isFull a.shardId = false) :
    Seated sha256 (c.put a) := by
  refine ⟨fun w sid hw => ?_, fun sid => ?_⟩
  · rw [workersOf_put] at hw
    split_ifs at hw with hsid
    · rcases Finset.mem_insert.mp hw with rfl | hw
      · exact ⟨a, ha, hsid⟩
      · exact h.placed w sid hw
    · exact h.placed w sid hw
  · have hbounded := h.bounded sid
    rw [workersOf_put]
    split_ifs with hsid
    · have hcard := Finset.card_insert_le a.workerId (c.workersOf sid)
      have hless : ((c.workersOf sid).card : Int) < c.maxWorkersPerShard := by
        simpa [isFull, hsid] using hroom
      have hmax : (c.put a).maxWorkersPerShard = c.maxWorkersPerShard := rfl
      rw [hmax]
      omega
    · exact hbounded

theorem Seated.foldl_put (h : Seated sha256 c)
    (hitems : ∀ a ∈ items, c.partitioner.assign sha256 a.workerId = .ok a) (hfits : c.Fits items) :
    Seated sha256 (items.foldl ShardCoordinator.put c) := by
  induction items generalizing c with
  | nil => exact h
  | cons a rest ih =>
    have ha := hitems a List.mem_cons_self
    exact ih (h.put ha hfits.1) (fun b hb => hitems b (List.mem_cons_of_mem a hb)) hfits.2

theorem mem_foldl_put {w sid : String} (h : w ∈ c.workersOf sid) :
    w ∈ (items.foldl put c).workersOf sid := by
  induction items generalizing c with
  | nil => exact h
  | cons a rest ih =>
    refine ih ?_
    rw [workersOf_put]
    split_ifs
    · exact Finset.mem_insert_of_mem h
    · exact h

theorem added_foldl_put {a : ShardAssignment} (h : a ∈ items) :
    a.workerId ∈ (items.foldl put c).workersOf a.shardId := by
  induction items generalizing c with
  | nil => cases h
  | cons b rest ih =>
    rcases List.mem_cons.mp h with rfl | h
    · have hput : a.workerId ∈ (c.put a).workersOf a.shardId := by
        rw [workersOf_put, if_pos rfl]
        exact Finset.mem_insert_self ..
      rw [List.foldl_cons]
      exact mem_foldl_put hput
    · exact ih h

end ShardCoordinator

/-! ### Every run -/

open ShardCoordinator

/-- What every call keeps. -/
structure Orderly (s : Watched) : Prop where
  seated : Seated sha256 s.coordinator
  states : ∀ sid, (s.coordinator.shardStates.get? sid).isSome = true ↔
    sid ∈ s.coordinator.partitioner.shardIds
  completed : ∀ sid, s.coordinator.shardStates.get? sid = some .completed → sid ∈ s.marked
  registered : ∀ w ∈ s.registered, ∃ sid, w ∈ s.coordinator.workersOf sid

variable {sha256} {s : Watched} {c : ShardCoordinator}

theorem get?_setStates (c : ShardCoordinator) (state : ShardState) (sid : String) :
    (c.setStates state).get? sid =
      if sid ∈ c.partitioner.shardIds then some state else c.shardStates.get? sid := by
  have hfold : ∀ (ids : List String) (d : Dict String ShardState),
      (ids.foldl (fun states sid => states.set sid state) d).get? sid =
        if sid ∈ ids then some state else d.get? sid := by
    intro ids
    induction ids with
    | nil => simp
    | cons id ids ih =>
      intro d
      rw [List.foldl_cons, ih, Dict.get?_set]
      by_cases hid : id = sid
      · simp [hid]
      · simp [hid, Ne.symm hid]
  exact hfold _ _

theorem assign_workerId {p : DeterministicPartitioner} {w : String} {a : ShardAssignment}
    (h : p.assign sha256 w = .ok a) : a.workerId = w := by
  rcases p.assign_cases sha256 w with ⟨-, hnone⟩ | ⟨a', ha', hw, -⟩
  · exact absurd (h.symm.trans hnone) (by simp)
  · rwa [Except.ok.inj (h.symm.trans ha')]

theorem Orderly.foldl_put (h : Orderly sha256 s) {items : List ShardAssignment}
    (hassigned : ∀ a ∈ items, ∃ w, s.coordinator.partitioner.assign sha256 w = .ok a)
    (hfits : s.coordinator.Fits items) :
    Orderly sha256 { s with coordinator := items.foldl put s.coordinator } := by
  obtain ⟨hpartitioner, -, hstates, -⟩ := ShardCoordinator.foldl_put s.coordinator items
  have hown : ∀ a ∈ items, s.coordinator.partitioner.assign sha256 a.workerId = .ok a := by
    intro a ha
    obtain ⟨w, hw⟩ := hassigned a ha
    rwa [assign_workerId hw]
  refine ⟨h.seated.foldl_put hown hfits, ?_, ?_, fun w hw => ?_⟩
  · rw [hpartitioner, hstates]
    exact h.states
  · rw [hstates]
    exact h.completed
  · obtain ⟨sid, hsid⟩ := h.registered w hw
    exact ⟨sid, mem_foldl_put hsid⟩

theorem Orderly.registerWorkers (h : Orderly sha256 s) (workerIds : List String) :
    Orderly sha256 (s.step sha256 (.registerWorkers workerIds)) := by
  rcases registerWorkers_cases sha256 s.coordinator workerIds with ⟨hresult, -⟩ |
    ⟨assignments, -, hall, hmem,
      ⟨hfits, hresult⟩ | ⟨before, a, rest, hitems, hfits, -, message, hresult⟩⟩
  · simp only [Watched.step, hresult]
    exact h
  · have hassigned : ∀ a ∈ assignments.items.map Prod.snd,
        ∃ w, s.coordinator.partitioner.assign sha256 w = .ok a := by
      intro a ha
      obtain ⟨w, -, hw⟩ := (hmem a).mp ha
      exact ⟨w, hw⟩
    have hput := h.foldl_put hassigned hfits
    simp only [Watched.step, hresult]
    refine ⟨hput.seated, hput.states, hput.completed, fun w hw => ?_⟩
    rcases List.mem_append.mp hw with hw | hw
    · exact hput.registered w hw
    · obtain ⟨a, ha⟩ := hall w hw
      have hadded := added_foldl_put (c := s.coordinator) ((hmem a).mpr ⟨w, hw, ha⟩)
      rw [assign_workerId ha] at hadded
      exact ⟨a.shardId, hadded⟩
  · have hassigned : ∀ b ∈ before, ∃ w, s.coordinator.partitioner.assign sha256 w = .ok b := by
      intro b hb
      obtain ⟨w, -, hw⟩ := (hmem b).mp (hitems ▸ List.mem_append_left _ hb)
      exact ⟨w, hw⟩
    simp only [Watched.step, hresult]
    exact h.foldl_put hassigned hfits

theorem Orderly.initial (p : DeterministicPartitioner) (maxWorkersPerShard : Int) :
    Orderly sha256 (coordination sha256 p maxWorkersPerShard).initial := by
  have hnone : ∀ sid, (ShardCoordinator.new p maxWorkersPerShard).workersOf sid = ∅ := by
    intro sid
    rw [workersOf, ShardCoordinator.new, Dict.get?_ofList_map]
    split_ifs <;> rfl
  have hstate : ∀ sid, (ShardCoordinator.new p maxWorkersPerShard).shardStates.get? sid =
      if sid ∈ p.shardIds then some .idle else none := fun sid => Dict.get?_ofList_map ..
  refine ⟨⟨fun w sid hw => ?_, fun sid => ?_⟩, fun sid => ?_, fun sid hsid => ?_, fun w hw => ?_⟩
  · rw [coordination, hnone] at hw
    cases hw
  · rw [coordination, hnone, Finset.card_empty]
    exact le_max_right _ _
  · rw [coordination, hstate]
    split_ifs with hsid <;> simp [hsid, ShardCoordinator.new]
  · rw [coordination, hstate] at hsid
    split_ifs at hsid
    cases hsid
  · cases hw

theorem Orderly.get?_setStates (h : Orderly sha256 s) (state : ShardState) (sid : String) :
    (s.coordinator.setStates state).get? sid =
      if sid ∈ s.coordinator.partitioner.shardIds then some state else none := by
  rw [Shard.get?_setStates]
  split_ifs with hsid
  · rfl
  · simpa using mt (h.states sid).mp hsid

/-- No shard is completed when all have been set to another state. -/
theorem Orderly.reset (h : Orderly sha256 s) {state : ShardState}
    (hstate : state ≠ .completed) (hseated : Seated sha256 c)
    (hregistered : ∀ w ∈ s.registered, ∃ sid, w ∈ c.workersOf sid)
    (hpartitioner : c.partitioner = s.coordinator.partitioner)
    (hstates : c.shardStates = s.coordinator.setStates state) :
    Orderly sha256 ⟨c, [], s.registered⟩ := by
  refine ⟨hseated, fun sid => ?_, fun sid hsid => ?_, hregistered⟩
  · rw [hstates, h.get?_setStates, hpartitioner]
    split_ifs with hsid
    · exact iff_of_true rfl hsid
    · exact iff_of_false Bool.false_ne_true hsid
  · rw [hstates, h.get?_setStates] at hsid
    split_ifs at hsid
    exact absurd (Option.some.inj hsid) hstate

theorem Orderly.markShardCompleted (h : Orderly sha256 s) (shardId : String) :
    Orderly sha256 (s.step sha256 (.markShardCompleted shardId)) := by
  simp only [Watched.step, ShardCoordinator.markShardCompleted]
  by_cases hknown : s.coordinator.shardStates.contains shardId = true
  · rw [if_pos hknown]
    have hstate : ∀ sid, (s.coordinator.shardStates.set shardId .completed).get? sid =
        if shardId = sid then some .completed else s.coordinator.shardStates.get? sid :=
      fun sid => Dict.get?_set ..
    refine ⟨⟨h.seated.placed, h.seated.bounded⟩, fun sid => ?_, fun sid hsid => ?_, h.registered⟩
    · refine (iff_of_eq ?_).trans (h.states sid)
      rw [log, hstate]
      split_ifs with hsid
      · rw [← hsid]
        exact congrArg (· = true) hknown.symm
      · rfl
    · rw [log, hstate] at hsid
      split_ifs at hsid with heq
      · exact List.mem_append_right _ (List.mem_singleton.mpr heq.symm)
      · exact List.mem_append_left _ (h.completed sid hsid)
  · rw [if_neg hknown]
    exact h

theorem Orderly.step (h : Orderly sha256 s) (call : Call) :
    Orderly sha256 (s.step sha256 call) := by
  cases call with
  | registerWorkers workerIds => exact h.registerWorkers workerIds
  | beginPhase phase =>
    exact h.reset (by decide) ⟨h.seated.placed, h.seated.bounded⟩ h.registered rfl rfl
  | markShardCompleted shardId => exact h.markShardCompleted shardId
  | advancePhase nextPhase =>
    simp only [Watched.step, advancePhase]
    by_cases hcan : s.coordinator.canAdvancePhase = true
    · rw [if_pos hcan]
      exact h.reset (by decide) ⟨h.seated.placed, h.seated.bounded⟩ h.registered rfl rfl
    · rw [if_neg hcan]
      exact h

/-! ### What holds of every run -/

/-- A registration that stops before the first worker whose shard is full by then: the ones
before it are registered, so nothing has changed exactly when there are none. -/
def Stopped (c c' : ShardCoordinator) (assignments : List ShardAssignment) : Prop :=
  ∃ before a rest, assignments = before ++ a :: rest ∧ c.Fits before ∧
    (before.foldl put c).isFull a.shardId = true ∧ c' = before.foldl put c ∧
      ((c'.shardWorkers = c.shardWorkers ∧ c'.executionLog = c.executionLog) ↔ before = [])

variable (sha256) in
/-- What the coordinator can be relied on for in every state of a run. -/
structure Coordinated (s : Watched) : Prop where
  /-- A phase is advanced from when every shard has been marked since a phase was last begun or
  advanced to. -/
  locked : ∀ nextPhase boundary c',
    s.coordinator.advancePhase sha256 nextPhase = .ok (boundary, c') →
      ∀ sid ∈ s.coordinator.partitioner.shardIds, sid ∈ s.marked
  bounded : ∀ sid,
    ((s.coordinator.workersOf sid).card : Int) ≤ max s.coordinator.maxWorkersPerShard 0
  seated : ∀ w ∈ s.registered, ∃ sid, w ∈ s.coordinator.workersOf sid
  single : ∀ w sid sid', w ∈ s.coordinator.workersOf sid → w ∈ s.coordinator.workersOf sid' →
    sid = sid'
  /-- Workers that are there already are refused where the shard of one of them is full. -/
  again : ∀ workerIds, (∀ w ∈ workerIds, ∃ sid, w ∈ s.coordinator.workersOf sid) →
    ((∃ e, (s.coordinator.registerWorkers sha256 workerIds).1 = .error e) ↔
      ∃ w ∈ workerIds, ∃ sid, w ∈ s.coordinator.workersOf sid ∧ s.coordinator.isFull sid = true)
  refused : ∀ workerIds e, (s.coordinator.registerWorkers sha256 workerIds).1 = .error e →
    (s.coordinator.registerWorkers sha256 workerIds).2 = s.coordinator ∨
      ∃ assignments, s.coordinator.partitioner.assignAll sha256 workerIds = .ok assignments ∧
        Stopped s.coordinator (s.coordinator.registerWorkers sha256 workerIds).2
          (assignments.items.map Prod.snd)

theorem Orderly.locked (h : Orderly sha256 s) {nextPhase : String} {boundary : PhaseBoundary}
    {c' : ShardCoordinator}
    (hadvance : s.coordinator.advancePhase sha256 nextPhase = .ok (boundary, c')) {sid : String}
    (hsid : sid ∈ s.coordinator.partitioner.shardIds) : sid ∈ s.marked := by
  obtain ⟨state, hstate⟩ := Option.isSome_iff_exists.mp ((h.states sid).mpr hsid)
  rw [advancePhase] at hadvance
  split_ifs at hadvance with hcan
  have hitem := List.all_eq_true.mp hcan _ ((Dict.mem_items _).mpr hstate)
  have hcompleted : state = .completed := of_decide_eq_true hitem
  exact h.completed sid (hcompleted ▸ hstate)

theorem Orderly.single (h : Orderly sha256 s) {w sid sid' : String}
    (hw : w ∈ s.coordinator.workersOf sid) (hw' : w ∈ s.coordinator.workersOf sid') :
    sid = sid' := by
  obtain ⟨a, ha, rfl⟩ := h.seated.placed w sid hw
  obtain ⟨a', ha', rfl⟩ := h.seated.placed w sid' hw'
  rw [Except.ok.inj (ha.symm.trans ha')]

theorem fits_append {before rest : List ShardAssignment}
    {a : ShardAssignment} (h : c.Fits (before ++ a :: rest)) :
    (before.foldl put c).isFull a.shardId = false := by
  induction before generalizing c with
  | nil => exact h.1
  | cons b before ih => exact ih h.2

theorem isFull_foldl_put {items : List ShardAssignment}
    (h : ∀ a ∈ items, a.workerId ∈ c.workersOf a.shardId) (sid : String) :
    (items.foldl put c).isFull sid = c.isFull sid := by
  rw [isFull, isFull, workersOf_foldl_put h, (ShardCoordinator.foldl_put c items).2.1]

/-- Workers that sit somewhere stay where they are, so all that counts is whether one of their
shards is full. -/
theorem Orderly.again (h : Orderly sha256 s) {workerIds : List String}
    (hthere : ∀ w ∈ workerIds, ∃ sid, w ∈ s.coordinator.workersOf sid) :
    (∃ e, (s.coordinator.registerWorkers sha256 workerIds).1 = .error e) ↔
      ∃ w ∈ workerIds, ∃ sid, w ∈ s.coordinator.workersOf sid ∧
        s.coordinator.isFull sid = true := by
  have hplaced : ∀ w ∈ workerIds, ∃ a, s.coordinator.partitioner.assign sha256 w = .ok a ∧
      w ∈ s.coordinator.workersOf a.shardId := by
    intro w hw
    obtain ⟨sid, hsid⟩ := hthere w hw
    obtain ⟨a, ha, rfl⟩ := h.seated.placed w sid hsid
    exact ⟨a, ha, hsid⟩
  have hpresent : ∀ a w, w ∈ workerIds → s.coordinator.partitioner.assign sha256 w = .ok a →
      a.workerId ∈ s.coordinator.workersOf a.shardId := by
    intro a w hw ha
    obtain ⟨a', ha', hsits⟩ := hplaced w hw
    rw [assign_workerId ha, Except.ok.inj (ha.symm.trans ha')]
    exact hsits
  rcases registerWorkers_cases sha256 s.coordinator workerIds with ⟨-, w, hw, herror⟩ |
    ⟨assignments, -, -, hmem,
      ⟨hfits, hresult⟩ | ⟨before, a, rest, hitems, -, hfull, message, hresult⟩⟩
  · obtain ⟨a, ha, -⟩ := hplaced w hw
    exact absurd (herror.symm.trans ha) (by simp)
  · rw [hresult]
    refine iff_of_false (by simp) ?_
    rintro ⟨w, hw, sid, hsits, hfull⟩
    obtain ⟨a, ha, rfl⟩ := h.seated.placed w sid hsits
    obtain ⟨before, rest, hitems⟩ := List.append_of_mem ((hmem a).mpr ⟨w, hw, ha⟩)
    have hroom := fits_append (hitems ▸ hfits)
    rw [isFull_foldl_put, hfull] at hroom
    · cases hroom
    · intro b hb
      obtain ⟨w', hw', hb'⟩ := (hmem b).mp (hitems ▸ List.mem_append_left _ hb)
      exact hpresent b w' hw' hb'
  · rw [hresult]
    refine iff_of_true ⟨_, rfl⟩ ?_
    obtain ⟨w, hw, ha⟩ := (hmem a).mp (by simp [hitems])
    refine ⟨w, hw, a.shardId, ?_, ?_⟩
    · rw [← assign_workerId ha]
      exact hpresent a w hw ha
    · rwa [isFull_foldl_put] at hfull
      intro b hb
      obtain ⟨w', hw', hb'⟩ := (hmem b).mp (hitems ▸ List.mem_append_left _ hb)
      exact hpresent b w' hw' hb'

theorem refused (c : ShardCoordinator) {workerIds : List String} {e : ShardError}
    (herror : (c.registerWorkers sha256 workerIds).1 = .error e) :
    (c.registerWorkers sha256 workerIds).2 = c ∨
      ∃ assignments, c.partitioner.assignAll sha256 workerIds = .ok assignments ∧
        Stopped c (c.registerWorkers sha256 workerIds).2 (assignments.items.map Prod.snd) := by
  rcases registerWorkers_cases sha256 c workerIds with ⟨hresult, -⟩ |
    ⟨assignments, hok, -, -,
      ⟨-, hresult⟩ | ⟨before, a, rest, hitems, hfits, hfull, message, hresult⟩⟩
  · exact .inl (by rw [hresult])
  · rw [hresult] at herror
    cases herror
  · rw [hresult]
    refine .inr ⟨assignments, hok, before, a, rest, hitems, hfits, hfull, rfl, ?_⟩
    constructor
    · rintro ⟨-, hlog⟩
      have hlength := (ShardCoordinator.foldl_put c before).2.2.2
      rw [hlog] at hlength
      exact List.length_eq_zero_iff.mp (by omega)
    · rintro rfl
      exact ⟨rfl, rfl⟩

/-- One shard with room for one worker; whatever the digest is, there is no other. -/
def oneSeat : ShardCoordinator := .new ⟨1, ["s0"], rfl⟩ 1

def anyDigest (_ : String) : String := "5f3a9c01"

end PiPlatform.Mesh.Shard
