import PiPlatform.EventFabric.Bus.Reproducible
import PiPlatform.Library.Python.JsonModule
import Mathlib.Data.List.Perm.Subperm

/-! The interceptor's write-ahead ledger, with any number of callers.

`log_event` reads the last hash on one connection and inserts on another, and it answers
an `IntegrityError` with the hash it computed. So between its two steps other calls may
insert, and a call may return without having stored anything.

`ledger_sound_iff`: the rows stay one chain and every call that returned has a row of its
own, in every state of a run, exactly when each INSERT of the run comes with the hash that
is still the last one, is not refused by the UNIQUE column and has a risk score that is a
number. -/
namespace PiPlatform.Interceptor

open Library Library.Json Library.Python EventFabric

variable {P F : Type}

/-- A row of `audit_events`. -/
structure AuditEvent (F : Type) where
  id : Int
  traceHash : String
  previousHash : String
  timestamp : String
  requestType : String
  payloadJson : String
  riskScore : Fl F
  status : String

/-- The arguments of `log_event`. -/
structure LogCall (F : Type) where
  requestType : String
  payload : PyValue F
  riskScore : Fl F
  statusStr : String

def genesisHash : String :=
  "0000000000000000000000000000000000000000000000000000000000000000"

/-- The database, the calls that have read the last hash and not inserted yet, and the
calls that have returned, each with the hash it returned. -/
structure Ledger (P F : Type) where
  rows : List (AuditEvent F)
  pending : P → Option (LogCall F × String)
  returned : List (LogCall F × String)

def eventLinks (F : Type) : Links (AuditEvent F) String where
  place := AuditEvent.id
  previous := AuditEvent.previousHash
  digest := AuditEvent.traceHash

/-- `WALLedger.get_last_hash`: the hash of the row with the largest id. -/
def getLastHash (rows : List (AuditEvent F)) : String :=
  match rows.getLast? with
  | some row => row.traceHash
  | none => genesisHash

section Insert
variable [FloatCodec F] [SetText F] (H : Digest)

/-- The row that `log_event` inserts for the hash it read. -/
def LogCall.event (call : LogCall F) (previousHash timestamp : String) (id : Int) :
    Except PyError (AuditEvent F) := do
  let payloadText ← (valueJson F).dumps call.payload
  let payloadJson ← dumpsInOrder call.payload
  return {
    id := id
    traceHash := H.hex (previousHash ++ payloadText)
    previousHash := previousHash
    timestamp := timestamp
    requestType := call.requestType
    payloadJson := payloadJson
    riskScore := call.riskScore
    status := call.statusStr }

def isNan : Fl F → Bool
  | .nan => true
  | _ => false

/-- What raises the `IntegrityError`: a hash that is taken, or NaN, which SQLite stores as
NULL. -/
def refused (rows : List (AuditEvent F)) (e : AuditEvent F) : Bool :=
  isNan e.riskScore || rows.any fun row => row.traceHash == e.traceHash

variable [DecidableEq P] {s : Ledger P F}

/-- The second step of `log_event`: the INSERT, its commit and the return. -/
def Ledger.insert (s : Ledger P F) (p : P) (timestamp : String) : Ledger P F :=
  match s.pending p with
  | none => s
  | some (call, previousHash) =>
    let s := { s with pending := Function.update s.pending p none }
    match call.event H previousHash timestamp (s.rows.length + 1) with
    | .error _ => s
    | .ok e =>
      if refused s.rows e then { s with returned := s.returned ++ [(call, e.traceHash)] }
      else
        { s with
          rows := s.rows ++ [e]
          returned := s.returned ++ [(call, e.traceHash)] }

inductive LedgerStep (P F : Type) where
  /-- A caller enters `log_event` and reads the last hash. -/
  | read (p : P) (call : LogCall F)
  | insert (p : P) (timestamp : String)
  /-- The database stays locked, or the caller dies. -/
  | abort (p : P)

def Ledger.step (s : Ledger P F) : LedgerStep P F → Ledger P F
  | .read p call =>
    if s.pending p = none then
      { s with pending := Function.update s.pending p (some (call, getLastHash s.rows)) }
    else s
  | .insert p timestamp => s.insert H p timestamp
  | .abort p => { s with pending := Function.update s.pending p none }

/-- Any callers on an empty table, in any order of their steps. -/
def ledger : System (Ledger P F) (LedgerStep P F) where
  initial := ⟨[], fun _ => none, []⟩
  step := Ledger.step H

/-! ### What the ledger owes -/

/-- The row holds what the call was given. -/
def Records (call : LogCall F) (row : AuditEvent F) : Prop :=
  row.requestType = call.requestType ∧ dumpsInOrder call.payload = .ok row.payloadJson ∧
    row.status = call.statusStr

/-- One chain from the genesis hash, and for every call that returned a row of its own. -/
structure Sound (s : Ledger P F) : Prop where
  chained : (eventLinks F).Linked 1 genesisHash s.rows
  kept : ∃ own, own.Subperm s.rows ∧
    List.Forall₂ (fun (c : LogCall F × String) row => Records c.1 row) s.returned own

/-- An INSERT comes with the hash that is still the last one, and is not refused. -/
def Current (s : Ledger P F) : LedgerStep P F → Prop
  | .insert p timestamp =>
    ∀ call previousHash e, s.pending p = some (call, previousHash) →
      call.event H previousHash timestamp (s.rows.length + 1) = .ok e →
        previousHash = getLastHash s.rows ∧ refused s.rows e = false
  | _ => True

/-- One chain, and the rows are those of the calls that returned, in their order. -/
structure Aligned (s : Ledger P F) : Prop where
  chained : (eventLinks F).Linked 1 genesisHash s.rows
  kept : List.Forall₂ (fun (c : LogCall F × String) row => Records c.1 row) s.returned s.rows

omit [FloatCodec F] [SetText F] in
theorem getLastHash_eq (rows : List (AuditEvent F)) :
    getLastHash rows = (eventLinks F).lastDigest genesisHash rows := by
  rw [getLastHash, Links.lastDigest]
  cases rows.getLast? <;> rfl

omit [DecidableEq P] in
theorem event_spec {call : LogCall F} {previousHash timestamp : String} {id : Int}
    {e : AuditEvent F} (h : call.event H previousHash timestamp id = .ok e) :
    e.id = id ∧ e.previousHash = previousHash ∧ Records call e := by
  obtain ⟨payloadText, -, h⟩ := bind_ok h
  obtain ⟨payloadJson, hjson, h⟩ := bind_ok h
  obtain rfl := Except.ok.inj h
  exact ⟨rfl, rfl, rfl, hjson, rfl⟩

/-- What an INSERT step does to the rows and to the calls that have returned. -/
theorem insert_cases (s : Ledger P F) (p : P) (timestamp : String) :
    ((s.insert H p timestamp).rows = s.rows ∧ (s.insert H p timestamp).returned = s.returned ∧
      ∀ call previousHash e, s.pending p = some (call, previousHash) →
        call.event H previousHash timestamp (s.rows.length + 1) ≠ .ok e) ∨
    ∃ call previousHash e, s.pending p = some (call, previousHash) ∧
      call.event H previousHash timestamp (s.rows.length + 1) = .ok e ∧
      (s.insert H p timestamp).returned = s.returned ++ [(call, e.traceHash)] ∧
      (s.insert H p timestamp).rows = if refused s.rows e then s.rows else s.rows ++ [e] := by
  unfold Ledger.insert
  cases hpending : s.pending p with
  | none => exact .inl ⟨rfl, rfl, fun _ _ _ h => by cases h⟩
  | some called =>
    obtain ⟨call, previousHash⟩ := called
    cases hevent : call.event H previousHash timestamp (s.rows.length + 1) with
    | error err =>
      refine .inl ⟨by simp only [hevent], by simp only [hevent], ?_⟩
      rintro call' previousHash' e h hok
      obtain ⟨rfl, rfl⟩ := Prod.mk.inj (Option.some.inj h)
      rw [hevent] at hok
      cases hok
    | ok e =>
      refine .inr ⟨call, previousHash, e, rfl, hevent, ?_⟩
      simp only [hevent]
      by_cases hrefused : refused s.rows e = true
      · simp only [hrefused, if_true, and_self]
      · simp only [hrefused, if_false, and_self, Bool.false_eq_true]

/-! ### What one step keeps -/

omit [SetText F] [DecidableEq P] in
theorem Aligned.sound (h : Aligned s) : Sound s :=
  ⟨h.chained, s.rows, List.Subperm.refl _, h.kept⟩

variable {H} {a : LedgerStep P F}

/-- A step that is no INSERT leaves the rows and what has returned alone. -/
theorem Aligned.step (h : Aligned s) (ha : Current H s a) : Aligned (s.step H a) := by
  cases a with
  | read p call =>
    by_cases hnone : s.pending p = none
    · rw [Ledger.step, if_pos hnone]
      exact ⟨h.chained, h.kept⟩
    · rw [Ledger.step, if_neg hnone]
      exact h
  | abort p => exact ⟨h.chained, h.kept⟩
  | insert p timestamp =>
    show Aligned (s.insert H p timestamp)
    rcases insert_cases H s p timestamp with ⟨hrows, hreturned, -⟩ |
      ⟨call, previousHash, e, hpending, hevent, hreturned, hrows⟩
    · exact ⟨hrows ▸ h.chained, by rw [hrows, hreturned]; exact h.kept⟩
    · obtain ⟨hlast, hrefused⟩ := ha call previousHash e hpending hevent
      obtain ⟨hid, hprevious, hrecords⟩ := event_spec H hevent
      rw [hrefused] at hrows
      refine ⟨?_, ?_⟩
      · rw [hrows]
        refine (Links.linked_snoc _).mpr ⟨h.chained, ?_, ?_⟩
        · show e.id = _
          rw [hid, add_comm]
        · show e.previousHash = _
          rw [hprevious, hlast, getLastHash_eq]
      · rw [hrows, hreturned]
        exact List.rel_append h.kept (.cons hrecords .nil)

/-- Any other INSERT forks the chain or loses an event. -/
theorem Aligned.not_sound (h : Aligned s) (ha : ¬ Current H s a) : ¬ Sound (s.step H a) := by
  intro hsound
  cases a with
  | read p call | abort p => exact ha trivial
  | insert p timestamp =>
    have hsound : Sound (s.insert H p timestamp) := hsound
    rcases insert_cases H s p timestamp with ⟨-, -, hnone⟩ |
      ⟨call, previousHash, e, hpending, hevent, hreturned, hrows⟩
    · exact ha fun call previousHash e hpending hevent =>
        absurd hevent (hnone call previousHash e hpending)
    · by_cases hrefused : refused s.rows e = true
      · -- one more call has returned, and there is no row for it
        obtain ⟨own, hsub, hkept⟩ := hsound.kept
        rw [hrows, if_pos hrefused] at hsub
        rw [hreturned] at hkept
        have hlength := hkept.length_eq
        have hle := hsub.length_le
        have hold := h.kept.length_eq
        rw [List.length_append, List.length_singleton] at hlength
        omega
      · have hchained := hsound.chained
        rw [hrows, if_neg hrefused] at hchained
        obtain ⟨-, -, hprevious⟩ := (Links.linked_snoc _).mp hchained
        obtain ⟨-, he, -⟩ := event_spec H hevent
        refine ha fun call' previousHash' e' hpending' hevent' => ?_
        obtain ⟨rfl, rfl⟩ := Prod.mk.inj (Option.some.inj (hpending.symm.trans hpending'))
        obtain rfl := Except.ok.inj (hevent.symm.trans hevent')
        refine ⟨?_, by simpa using hrefused⟩
        rw [getLastHash_eq, ← hprevious]
        exact he.symm

variable (H) in
/-- **Main theorem.** In every state of a run the ledger is one chain and holds a row for
every call that returned, if and only if every INSERT of the run is current. -/
theorem ledger_sound_iff (run : List (LedgerStep P F)) :
    (ledger H).Always Sound run ↔ (ledger H).Admits (Current H) run :=
  (ledger H).always_iff_admits (Current H) Aligned Sound ⟨trivial, .nil⟩
    (fun _ _ ha h => h.step ha) (fun _ h => h.sound) (fun _ _ h ha => h.not_sound ha) run

/-! ### Callers that take turns -/

/-- A call begins when no other is under way, and its row is not refused. -/
def Alone (H : Digest) (s : Ledger P F) : LedgerStep P F → Prop
  | .read _ _ => ∀ q, s.pending q = none
  | .insert p timestamp =>
    ∀ call previousHash e, s.pending p = some (call, previousHash) →
      call.event H previousHash timestamp (s.rows.length + 1) = .ok e → refused s.rows e = false
  | .abort _ => True

/-- At most one call is under way, with the hash that is still the last one. -/
def OneAtATime (s : Ledger P F) : Prop :=
  ∀ p call previousHash, s.pending p = some (call, previousHash) →
    previousHash = getLastHash s.rows ∧ ∀ q, q ≠ p → s.pending q = none

theorem OneAtATime.step (h : OneAtATime s) (ha : Alone H s a) : OneAtATime (s.step H a) := by
  have hcleared : ∀ p, s.pending p ≠ none → ∀ q, Function.update s.pending p none q = none := by
    intro p hp q
    obtain ⟨⟨call, previousHash⟩, hpending⟩ := Option.ne_none_iff_exists'.mp hp
    by_cases hq : q = p
    · rw [hq, Function.update_self]
    · rw [Function.update_of_ne hq]
      exact (h p call previousHash hpending).2 q hq
  cases a with
  | read p call =>
    rw [Ledger.step, if_pos (ha p)]
    intro q call' previousHash hq
    change Function.update s.pending p _ q = _ at hq
    by_cases hp : q = p
    · subst hp
      rw [Function.update_self] at hq
      exact ⟨(Prod.mk.inj (Option.some.inj hq)).2.symm,
        fun r hr => (Function.update_of_ne hr ..).trans (ha r)⟩
    · rw [Function.update_of_ne hp, ha q] at hq
      cases hq
  | insert p timestamp =>
    show OneAtATime (s.insert H p timestamp)
    by_cases hp : s.pending p = none
    · have hsame : s.insert H p timestamp = s := by rw [Ledger.insert, hp]
      rwa [hsame]
    · intro q call previousHash hq
      have hpending : (s.insert H p timestamp).pending = Function.update s.pending p none := by
        obtain ⟨called, hcalled⟩ := Option.ne_none_iff_exists'.mp hp
        simp only [Ledger.insert, hcalled]
        split
        · rfl
        · split <;> rfl
      rw [hpending, hcleared p hp q] at hq
      cases hq
  | abort p =>
    intro q call previousHash hq
    by_cases hp : s.pending p = none
    · have hsame : s.step H (.abort p) = s := by
        rw [Ledger.step, ← hp, Function.update_eq_self]
      rw [hsame] at hq ⊢
      exact h q call previousHash hq
    · exact absurd (hq.symm.trans (hcleared p hp q)) (Option.some_ne_none _)

/-- Calls that take turns insert behind the last row. -/
theorem current_of_alone {run : List (LedgerStep P F)} (h : (ledger H).Admits (Alone H) run) :
    (ledger H).Admits (Current H) run := by
  rintro before a behind rfl
  have hturns : OneAtATime ((ledger H).after before) :=
    (ledger H).invariant_under (Alone H) OneAtATime (fun _ _ _ hp => by cases hp)
      (fun _ _ ha hs => hs.step ha) before ((ledger H).admits_of_append h)
  have halone := h before a behind rfl
  cases a with
  | read p call => trivial
  | insert p timestamp =>
    exact fun call previousHash e hp he => ⟨(hturns p call previousHash hp).1,
      halone call previousHash e hp he⟩
  | abort p => trivial

/-! ### Two callers that read the same hash -/

def shellCommand (command : String) : LogCall Literal where
  requestType := "SHELL_COMMAND"
  payload := .dict [(.str (ofString "command"), .str (ofString command))]
  riskScore := .finite ⟨['0', '.', '0'], by decide⟩
  statusStr := "PASSED"

/-- Both callers read before either inserts. -/
def racing (first second : String) : List (LedgerStep Bool Literal) :=
  [.read true (shellCommand first), .read false (shellCommand second), .insert true "09:00",
    .insert false "09:01"]

/-- Two commands become two rows behind the genesis hash; of one command logged twice only
one row is left. -/
theorem racing_calls_fork_or_vanish :
    ¬ Sound ((ledger prefixDigest).after (racing "ls" "pwd")) ∧
      ¬ Sound ((ledger prefixDigest).after (racing "ls" "ls")) := by
  constructor
  · intro h
    have hchained := h.chained.2.2.2.1
    exact absurd hchained (by decide +kernel)
  · intro h
    obtain ⟨own, hsub, hkept⟩ := h.kept
    have hreturned : ((ledger prefixDigest).after (racing "ls" "ls")).returned.length = 2 := by
      decide +kernel
    have hrows : ((ledger prefixDigest).after (racing "ls" "ls")).rows.length = 1 := by
      decide +kernel
    have hle := hsub.length_le
    have hlength := hkept.length_eq
    omega

end Insert
end PiPlatform.Interceptor
