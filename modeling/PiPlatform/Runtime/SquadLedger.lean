import PiPlatform.Library.UniqueTable

/-! The squad's ledger and its orchestrator.

The store takes every entry, and the next task is read off the last one: that entry alone is
checked, and only by itself. An entry that breaks the chain halts the pipeline as long as it is
the last. `safe_iff`: tasks are handed out on legal histories only, all along a run, exactly when
each recorded entry that is a transition by itself continues a legal history. -/
namespace PiPlatform.Runtime

open Library

inductive AgentState where
  | unassigned | observed | inferred | verified | committed | archived
  deriving DecidableEq

namespace AgentState

def value : AgentState → String
  | unassigned => "UNASSIGNED"
  | observed => "OBSERVED"
  | inferred => "INFERRED"
  | verified => "VERIFIED"
  | committed => "COMMITTED"
  | archived => "ARCHIVED"

def all : List AgentState := [unassigned, observed, inferred, verified, committed, archived]

/-- `str(state)` -/
def text (s : AgentState) : String := "AgentState." ++ s.value

/-- `text.replace(part, "")`, past so many characters that have been matched. -/
def remove (part : List Char) : Nat → List Char → List Char
  | _, [] => []
  | 0, c :: cs =>
    if part.isPrefixOf (c :: cs) then remove part (part.length - 1) cs else c :: remove part 0 cs
  | skip + 1, _ :: cs => remove part skip cs

/-- `AgentState(text.replace("AgentState.", ""))`, if it is one. -/
def read? (text : String) : Option AgentState :=
  all.find? fun s => s.value = String.ofList (remove "AgentState.".toList 0 text.toList)

theorem read?_text (s : AgentState) : read? s.text = some s := by
  cases s <;> decide +kernel

end AgentState

/-- An entry, with what pydantic requires of it. -/
structure LedgerEntry where
  taskId : String
  actorId : String
  fromState : AgentState
  toState : AgentState
  evidenceHash : String
  timestamp : String
  provenance : List String
  entropyDelta : Int
  entropyDelta_nonpos : entropyDelta ≤ 0

/-! ### The validator -/

def validTransitions : AgentState → List AgentState
  | .unassigned => [.observed]
  | .observed => [.inferred]
  | .inferred => [.verified]
  | .verified => [.committed]
  | .committed => [.archived]
  | .archived => []

structure ValidationResult where
  isValid : Bool
  reason : String
  entropyOk : Bool

/-- How states are written in texts, one and a set of them. -/
structure Texts where
  state : AgentState → String
  set : List AgentState → String

section Store
variable (T : Texts)

/-- First the entropy, then the states. -/
def validateTransition (entry : LedgerEntry) : ValidationResult :=
  if 0 < entry.entropyDelta then
    { isValid := false
      reason := "Entropy increased (" ++ toString entry.entropyDelta ++
        "). Violates anti-entropy rule."
      entropyOk := false }
  else
    let allowed := validTransitions entry.fromState
    if entry.toState ∉ allowed then
      { isValid := false
        reason := "Invalid state transition: " ++ T.state entry.fromState ++ " → " ++
          T.state entry.toState ++ ". Allowed from " ++ T.state entry.fromState ++ ": " ++
          T.set allowed
        entropyOk := true }
    else ⟨true, "Transition valid and entropy non-increasing", true⟩

/-! ### The store -/

/-- A row of the table. -/
structure Row where
  taskId : String
  actorId : String
  fromState : String
  toState : String
  evidenceHash : String
  timestamp : String
  provenance : List String
  entropyDelta : Int
  entropyDelta_nonpos : entropyDelta ≤ 0

/-- `task_id` is unique. -/
def clash (r r' : Row) : Bool := r.taskId = r'.taskId

abbrev LedgerStore := UniqueTable clash

inductive StoreError where
  /-- `sqlite3.IntegrityError` -/
  | notUnique (taskId : String)
  /-- `OverflowError`: no INTEGER of SQLite. -/
  | overflow
  deriving DecidableEq

def LedgerEntry.row (e : LedgerEntry) : Row :=
  { e with fromState := e.fromState.text, toState := e.toState.text }

/-- None where a text is no state. -/
def Row.entry? (r : Row) : Option LedgerEntry := do
  let fromState ← AgentState.read? r.fromState
  let toState ← AgentState.read? r.toState
  return { r with fromState, toState }

theorem entry?_row (e : LedgerEntry) : e.row.entry? = some e := by
  rw [Row.entry?, LedgerEntry.row, AgentState.read?_text, AgentState.read?_text]
  rfl

namespace LedgerStore

def append (store : LedgerStore) (e : LedgerEntry) : Except StoreError Bool × LedgerStore :=
  if Storable e.entropyDelta then
    if store.Fits e.row then (.ok true, store.insertOrIgnore e.row)
    else (.error (.notUnique e.taskId), store)
  else (.error .overflow, store)

/-- In the order of the ids, which is the one of the insertions. -/
def getAll (store : LedgerStore) : Option (List LedgerEntry) := store.rows.mapM Row.entry?

end LedgerStore

/-! ### The orchestrator -/

structure TaskPayload where
  taskId : String
  actorId : String
  currentState : AgentState
  objective : String
  inputArtifactPath : String
  instructions : String

inductive OrchestratorError where
  /-- `ValueError`, of a target or of the text of a state. -/
  | value
  /-- `RuntimeError` -/
  | halted (reason : String)

/-- `^[A-Za-z0-9_-]{1,64}$`, where `$` matches before a last newline as well. -/
def validTarget (target : String) : Bool :=
  let body := if target.toList.getLast? = some '\n' then target.toList.dropLast else target.toList
  0 < body.length && body.length ≤ 64 &&
    body.all fun c => c.isAlphanum || c = '_' || c = '-'

def specialist : AgentState → String
  | .observed => "network-grpc-specialist"
  | .inferred => "serialization-extractor"
  | .verified => "binary-static-analyst"
  | .committed => "client-codegen-specialist"
  | _ => "unknown-specialist"

/-- `_get_next_state` -/
def nextState : AgentState → Option AgentState
  | .unassigned => some .observed
  | .observed => some .inferred
  | .inferred => some .verified
  | .verified => some .committed
  | .committed => some .archived
  | .archived => none

def objective (next : AgentState) (target : String) : String :=
  match next with
  | .inferred =>
    "Extract structured schemas and protobuf definitions from observed artifacts for " ++ target
  | .verified =>
    "Perform static analysis, recover types, and validate extracted schemas for " ++ target
  | .committed =>
    "Generate deterministic, typed Python client code from verified schemas for " ++ target
  | _ => "Advance to " ++ T.state next ++ " for " ++ target

def firstTask (taskId target : String) : TaskPayload where
  taskId := taskId
  actorId := "network-grpc-specialist"
  currentState := .unassigned
  objective := "Observe and capture raw artifacts for target: " ++ target
  inputArtifactPath := "PI-Platform/00_Inbox/" ++ target ++ "/"
  instructions := "Drop all raw RE artifacts (logs, pcaps, binaries, gRPC captures) into the " ++
    "inbox. Compute SHA-256 evidence hash. Create initial LedgerEntry with OBSERVED state."

def laterTask (taskId target : String) (current next : AgentState) : TaskPayload where
  taskId := taskId
  actorId := specialist next
  currentState := current
  objective := objective T next target
  inputArtifactPath := "PI-Platform/10_Brain/targets/" ++ target ++ "/"
  instructions := "Process the current artifacts. Produce output that allows transition to " ++
    T.state next ++ ". Return a valid LedgerEntry with proper evidence_hash and " ++
    "non-positive entropy_delta."

/-- `get_next_task`; the id of the task is drawn. None when there is no next state. -/
def getNextTask (store : LedgerStore) (taskId target : String) :
    Except OrchestratorError (Option TaskPayload) :=
  if validTarget target = false then .error .value
  else
    match store.getAll with
    | none => .error .value
    | some entries =>
      match entries.getLast? with
      | none => .ok (some (firstTask taskId target))
      | some last =>
        let validation := validateTransition T last
        if validation.isValid = false then
          .error (.halted ("Ledger in invalid state: " ++ validation.reason ++
            ". Pipeline halted."))
        else
          match nextState last.toState with
          | none => .ok none
          | some next => .ok (some (laterTask T taskId target last.toState next))

end Store

/-! ### Runs -/

inductive SquadCall where
  | recordResult (entry : LedgerEntry)
  | getNextTask (taskId target : String)

def squads : System LedgerStore SquadCall where
  initial := UniqueTable.empty
  step store
    | .recordResult entry => (store.append entry).2
    | .getNextTask _ _ => store

/-- From the first state on, each entry a transition, and each where the one before it ended. -/
structure Legal (entries : List LedgerEntry) : Prop where
  first : ∀ e ∈ entries.head?, e.fromState = .unassigned
  transitions : ∀ e ∈ entries, e.toState ∈ validTransitions e.fromState
  linked : entries.IsChain fun e e' => e'.fromState = e.toState

/-- Tasks are handed out, or the end is told, on legal histories only, and on others the pipeline
is halted. -/
structure Safe (T : Texts) (store : LedgerStore) : Prop where
  legal : ∀ taskId target task, getNextTask T store taskId target = .ok task →
    ∃ entries, store.getAll = some entries ∧ Legal entries
  halted : (∀ entries, store.getAll = some entries → ¬ Legal entries) →
    ∀ taskId target, validTarget target = true →
      ∃ reason, getNextTask T store taskId target = .error (.halted reason)

/-- An entry that is recorded is no transition by itself, or continues a legal history. -/
def Continues (store : LedgerStore) : SquadCall → Prop
  | .recordResult e => (store.append e).1 = .ok true → e.toState ∈ validTransitions e.fromState →
      ∃ entries, store.getAll = some entries ∧ Legal (entries ++ [e])
  | .getNextTask _ _ => True

section Proofs
variable {T : Texts} {store : LedgerStore} {entries : List LedgerEntry} {e : LedgerEntry}

theorem validateTransition_isValid :
    (validateTransition T e).isValid = true ↔ e.toState ∈ validTransitions e.fromState := by
  rw [validateTransition, if_neg (Int.not_lt.mpr e.entropyDelta_nonpos)]
  dsimp only
  split_ifs with h
  · exact iff_of_true rfl h
  · exact iff_of_false (by simp) h

theorem getAll_append (hentries : store.getAll = some entries)
    (haccepted : (store.append e).1 = .ok true) :
    (store.append e).2.getAll = some (entries ++ [e]) := by
  rw [LedgerStore.append] at haccepted ⊢
  split_ifs at haccepted ⊢ with hstorable hfits
  rw [LedgerStore.getAll] at hentries ⊢
  rw [UniqueTable.rows_insert hfits, List.mapM_append, hentries, List.mapM_cons, entry?_row,
    List.mapM_nil]
  rfl

theorem append_refused (hrefused : (store.append e).1 ≠ .ok true) : (store.append e).2 = store := by
  rw [LedgerStore.append] at hrefused ⊢
  split_ifs at hrefused ⊢ with hstorable hfits
  · exact absurd rfl hrefused
  · rfl
  · rfl

/-! ### What a task says of the ledger -/

/-- The last entry is a transition. -/
def Sound (entries : List LedgerEntry) : Prop :=
  ∀ last ∈ entries.getLast?, last.toState ∈ validTransitions last.fromState

theorem getNextTask_sound (hentries : store.getAll = some entries) (hsound : Sound entries)
    (taskId target : String) (htarget : validTarget target = true) :
    ∃ task, getNextTask T store taskId target = .ok task := by
  rw [getNextTask, if_neg (by rw [htarget]; simp), hentries]
  dsimp only
  cases hlast : entries.getLast? with
  | none => exact ⟨_, rfl⟩
  | some last =>
    dsimp only
    rw [validateTransition_isValid.mpr (hsound last hlast), if_neg (by simp)]
    cases nextState last.toState with
    | none => exact ⟨_, rfl⟩
    | some next => exact ⟨_, rfl⟩

theorem getNextTask_unsound (hentries : store.getAll = some entries) (hsound : ¬ Sound entries)
    (taskId target : String) :
    ∃ error, getNextTask T store taskId target = .error error ∧
      (validTarget target = true → ∃ reason, error = .halted reason) := by
  rw [getNextTask]
  by_cases htarget : validTarget target = false
  · rw [if_pos htarget]
    refine ⟨_, rfl, fun hvalid => ?_⟩
    rw [htarget] at hvalid
    exact absurd hvalid Bool.false_ne_true
  · rw [if_neg htarget, hentries]
    dsimp only
    cases hlast : entries.getLast? with
    | none => exact absurd (fun last hmem => by rw [hlast] at hmem; cases hmem) hsound
    | some last =>
      have hinvalid : (validateTransition T last).isValid = false := by
        refine Bool.eq_false_iff.mpr fun hvalid => hsound fun last' hmem => ?_
        rw [hlast, Option.mem_some_iff] at hmem
        rw [← hmem]
        exact validateTransition_isValid.mp hvalid
      dsimp only
      rw [if_pos hinvalid]
      exact ⟨_, rfl, fun _ => ⟨_, rfl⟩⟩

theorem safe_iff_sound (hentries : store.getAll = some entries) :
    Safe T store ↔ (Sound entries → Legal entries) := by
  constructor
  · intro hsafe hsound
    have htarget : validTarget "orbstack" = true := by decide +kernel
    obtain ⟨task, htask⟩ := getNextTask_sound (T := T) hentries hsound "" "orbstack" htarget
    obtain ⟨entries', hentries', hlegal⟩ := hsafe.legal _ _ task htask
    rw [hentries, Option.some.injEq] at hentries'
    rwa [hentries']
  · intro hlegal
    constructor
    · intro taskId target task htask
      refine ⟨entries, hentries, hlegal ?_⟩
      by_contra hsound
      obtain ⟨error, herror, -⟩ := getNextTask_unsound (T := T) hentries hsound taskId target
      rw [htask] at herror
      cases herror
    · intro hillegal taskId target htarget
      have hsound : ¬ Sound entries := fun hsound => hillegal entries hentries (hlegal hsound)
      obtain ⟨error, herror, hhalted⟩ := getNextTask_unsound (T := T) hentries hsound taskId target
      obtain ⟨reason, rfl⟩ := hhalted htarget
      exact ⟨reason, herror⟩

/-- With an entry more, it is safe if that is no transition, or the whole is legal. -/
theorem safe_append (hentries : store.getAll = some entries)
    (haccepted : (store.append e).1 = .ok true) : Safe T (store.append e).2 ↔
      (e.toState ∈ validTransitions e.fromState → Legal (entries ++ [e])) := by
  rw [safe_iff_sound (getAll_append hentries haccepted), Sound, List.getLast?_concat]
  simp only [Option.mem_some_iff, forall_eq']

end Proofs

/-- All along a run tasks are handed out on legal histories only, exactly when each entry that is
recorded is no transition, or continues a legal history. -/
theorem safe_iff (T : Texts) (acts : List SquadCall) :
    squads.Always (Safe T) acts ↔ squads.Admits Continues acts := by
  refine System.always_iff_admits _ Continues
    (fun store => (∃ entries, store.getAll = some entries) ∧ Safe T store) (Safe T) ?_ ?_
    (fun store hinv => hinv.2) ?_ acts
  · have hempty : squads.initial.getAll = some [] := rfl
    exact ⟨⟨[], hempty⟩, (safe_iff_sound hempty).mpr fun _ =>
      ⟨by simp, by simp, List.IsChain.nil⟩⟩
  · intro store act hcontinues hinv
    obtain ⟨⟨entries, hentries⟩, hsafe⟩ := hinv
    cases act with
    | recordResult e =>
      show (∃ entries, (store.append e).2.getAll = some entries) ∧ Safe T (store.append e).2
      by_cases haccepted : (store.append e).1 = .ok true
      · refine ⟨⟨_, getAll_append hentries haccepted⟩, (safe_append hentries haccepted).mpr ?_⟩
        intro hvalid
        obtain ⟨entries', hentries', hlegal⟩ := hcontinues haccepted hvalid
        rw [hentries, Option.some.injEq] at hentries'
        rwa [hentries']
      · rw [append_refused haccepted]
        exact ⟨⟨entries, hentries⟩, hsafe⟩
    | getNextTask taskId target => exact ⟨⟨entries, hentries⟩, hsafe⟩
  · intro store act hinv hnot hsafe
    obtain ⟨⟨entries, hentries⟩, -⟩ := hinv
    cases act with
    | recordResult e =>
      refine hnot fun haccepted hvalid => ⟨entries, hentries, ?_⟩
      exact (safe_append hentries haccepted).mp hsafe hvalid
    | getNextTask taskId target => exact hnot trivial

/-! ### An illegal entry that is followed -/

def entryOf (taskId : String) (fromState toState : AgentState) : LedgerEntry where
  taskId := taskId
  actorId := "squad"
  fromState := fromState
  toState := toState
  evidenceHash := String.ofList (List.replicate 64 '0')
  timestamp := "2026-01-01T00:00:00+00:00"
  provenance := []
  entropyDelta := -1
  entropyDelta_nonpos := by decide

/-- A jump halts the pipeline until another entry is recorded. -/
theorem jump_not_safe : ¬ squads.Always (Safe ⟨AgentState.text, fun _ => "set()"⟩)
    [.recordResult (entryOf "1" .committed .observed),
      .recordResult (entryOf "2" .observed .inferred)] := by
  intro halways
  have hsafe := halways _ [] (List.append_nil _).symm
  have hentries : (squads.after [.recordResult (entryOf "1" .committed .observed)]).getAll =
      some [entryOf "1" .committed .observed] := rfl
  have hlegal := (safe_append (e := entryOf "2" .observed .inferred) hentries rfl).mp hsafe
    (by decide)
  exact absurd (hlegal.first (entryOf "1" .committed .observed) rfl) (by decide)

end PiPlatform.Runtime
