import PiPlatform.Library.Dict
import PiPlatform.Library.System

/-! The execution scheduler: its calls, its workers, and what it remembers of them.

Calls and workers take their steps in any order, each section under the state lock, each
submission, cancellation and start of a worker being one step.

Backpressure is measured on a queue that tasks are put in and never taken from, so it
holds every task ever accepted (`Counted`). An answer that the scheduler is overloaded is
true exactly when few enough of those tasks are finished (`backpressure_iff`).

What is remembered of a task goes when its wrapper cleans up. `forgets_finished`: nothing
stays behind in runs where no future is registered after its clean-up, no wrapper finds
its event set, and no future is cancelled before it starts. -/
namespace PiPlatform.Orchestrator.Scheduler

open Library

/-! ### Tasks and futures -/

structure SchedulerTask where
  taskId : String
  priority : Int

/-- How far a future is. -/
inductive Phase where
  | pending
  /-- Cancelled before it started. -/
  | cancelled
  | started
  /-- About to look whether its event is set. -/
  | checking (event : Nat)
  | executing
  | cleaning
  | returning
  | finished
  deriving DecidableEq

def Phase.done : Phase → Bool
  | cancelled => true
  | finished => true
  | _ => false

/-- Whether a worker is at it. -/
def Phase.running : Phase → Bool
  | pending => false
  | cancelled => false
  | finished => false
  | _ => true

/-- Whether its clean-up is still to come. -/
def Phase.toClean : Phase → Bool
  | cancelled => false
  | returning => false
  | finished => false
  | _ => true

structure Future where
  taskId : String
  /-- Submitted by `schedule`. -/
  scheduled : Bool
  phase : Phase

/-! ### Calls -/

/-- What a call is about to do. -/
inductive Call where
  /-- Answered with the fallback. -/
  | degraded
  | putting (task : SchedulerTask)
  | submitting (task : SchedulerTask)
  | registering (task : SchedulerTask) (future : Nat)
  /-- The next branch's event, or the wait for the branches. -/
  | opening (todo : List SchedulerTask) (futures : List (String × Nat))
  | branching (task : SchedulerTask) (todo : List SchedulerTask) (futures : List (String × Nat))
  | entering (task : SchedulerTask) (future : Nat) (todo : List SchedulerTask)
      (futures : List (String × Nat))
  | reading (taskId : String)
  | stopping (futures : List (String × Nat))
  | signalling (event future : Option Nat) (rest : List (String × Nat))
  | dropping (future : Option Nat) (rest : List (String × Nat))
  | returned

def Call.over : Call → Bool
  | degraded => true
  | returned => true
  | _ => false

structure State where
  /-- What was put in the priority queue; nothing takes it out. -/
  queue : List SchedulerTask
  futures : List Future
  activeTasks : Dict String Nat
  cancellationEvents : Dict String Nat
  /-- Whether each event is set. -/
  events : List Bool
  calls : List Call

def State.submit (s : State) (task : SchedulerTask) (scheduled : Bool) : State :=
  { s with futures := s.futures ++ [⟨task.taskId, scheduled, .pending⟩] }

def State.setPhase (s : State) (f : Nat) (future : Future) (phase : Phase) : State :=
  { s with futures := s.futures.set f { future with phase := phase } }

/-- A new event under the task's id. -/
def State.newEvent (s : State) (taskId : String) : State :=
  { s with
    events := s.events ++ [false]
    cancellationEvents := s.cancellationEvents.set taskId s.events.length }

/-- `future.cancel()`, which does nothing once the future runs. -/
def State.cancel (s : State) : Option Nat → State
  | none => s
  | some f =>
    match s.futures[f]? with
    | none => s
    | some future => if future.phase = .pending then s.setPhase f future .cancelled else s

@[simp] theorem State.calls_cancel (s : State) (future : Option Nat) :
    (s.cancel future).calls = s.calls := by
  unfold State.cancel
  split
  · rfl
  · split
    · rfl
    · split <;> rfl

/-- The next step of a call, and what the call is about to do then. -/
def Call.next (s : State) : Call → State × Call
  | degraded => (s, degraded)
  | putting task => ({ s with queue := s.queue ++ [task] }, submitting task)
  | submitting task => (s.submit task true, registering task s.futures.length)
  | registering task f => ({ s with activeTasks := s.activeTasks.set task.taskId f }, returned)
  | opening [] futures => (s, stopping futures)
  | opening (task :: todo) futures => (s.newEvent task.taskId, branching task todo futures)
  | branching task todo futures =>
    (s.submit task false, entering task s.futures.length todo futures)
  | entering task f todo futures =>
    ({ s with activeTasks := s.activeTasks.set task.taskId f },
      opening todo (futures ++ [(task.taskId, f)]))
  | reading taskId =>
    (s, signalling (s.cancellationEvents.get? taskId) (s.activeTasks.get? taskId) [])
  | stopping [] => (s, returned)
  | stopping ((taskId, f) :: rest) =>
    (s, signalling (s.cancellationEvents.get? taskId) (some f) rest)
  | signalling event future rest =>
    (match event with
      | some e => { s with events := s.events.set e true }
      | none => s, dropping future rest)
  -- `run_speculative` cancels only what is not done, which is what `cancel` does anyway
  | dropping future rest => (s.cancel future, stopping rest)
  | returned => (s, returned)

/-! ### Steps -/

inductive Action where
  /-- `schedule` is called and looks at the queue. -/
  | schedule (task : SchedulerTask)
  | runSpeculative (tasks : List SchedulerTask)
  | cancelTask (taskId : String)
  | advance (call : Nat)
  /-- The next step of a future's worker and wrapper. -/
  | work (future : Nat)

def State.advance (s : State) (c : Nat) : State :=
  match s.calls[c]? with
  | none => s
  | some call => { (call.next s).1 with calls := (call.next s).1.calls.set c (call.next s).2 }

variable (maxWorkers : Nat) (backpressureThreshold : Int) {s : State}

/-- Whether `schedule` answers with the fallback. -/
def State.degrades (s : State) : Bool := decide (backpressureThreshold ≤ s.queue.length)

/-- The wrapper; `execute_fn` may return or raise, which makes no difference here. -/
def State.work (s : State) (f : Nat) : State :=
  match s.futures[f]? with
  | none => s
  | some future =>
    match future.phase with
    | .pending =>
      if (s.futures.countP (·.phase.running)) < maxWorkers then s.setPhase f future .started else s
    | .started =>
      match s.cancellationEvents.get? future.taskId with
      | some event => s.setPhase f future (.checking event)
      | none => (s.newEvent future.taskId).setPhase f future (.checking s.events.length)
    | .checking event =>
      if s.events[event]? = some true then s.setPhase f future .returning
      else s.setPhase f future .executing
    | .executing => s.setPhase f future .cleaning
    | .cleaning =>
      { s.setPhase f future .returning with
        activeTasks := s.activeTasks.erase future.taskId
        cancellationEvents := s.cancellationEvents.erase future.taskId }
    | .returning => s.setPhase f future .finished
    | .cancelled => s
    | .finished => s

def step (s : State) : Action → State
  | .schedule task =>
    let call := if s.degrades backpressureThreshold then Call.degraded else .putting task
    { s with calls := s.calls ++ [call] }
  | .runSpeculative tasks => { s with calls := s.calls ++ [.opening tasks []] }
  | .cancelTask taskId => { s with calls := s.calls ++ [.reading taskId] }
  | .advance c => s.advance c
  | .work f => s.work maxWorkers f

def scheduler : System State Action where
  initial := ⟨[], [], .empty, .empty, [], []⟩
  step := step maxWorkers backpressureThreshold

/-! ### What is left behind -/

/-- A future of the id is still to clean up. -/
def Owed (s : State) (taskId : String) : Prop :=
  ∃ (f : Nat) (future : Future), s.futures[f]? = some future ∧ future.taskId = taskId ∧
    future.phase.toClean = true

/-- The future that the call is about to register. -/
def Call.registers : Call → Option (SchedulerTask × Nat)
  | registering task f => some (task, f)
  | entering task f _ _ => some (task, f)
  | _ => none

/-- The id whose event the call has opened for a future it is about to submit. -/
def Call.opened : Call → Option String
  | branching task _ _ => some task.taskId
  | _ => none

/-- Every id that is remembered is owed a clean-up. -/
structure Tidy (s : State) : Prop where
  active : ∀ taskId f, s.activeTasks.get? taskId = some f → Owed s taskId
  events : ∀ taskId e, s.cancellationEvents.get? taskId = some e →
    Owed s taskId ∨ ∃ call ∈ s.calls, call.opened = some taskId
  registers : ∀ call ∈ s.calls, ∀ task f, call.registers = some (task, f) →
    ∃ future, s.futures[f]? = some future ∧ future.taskId = task.taskId

theorem Owed.submit {taskId : String} (h : Owed s taskId) (task : SchedulerTask)
    (scheduled : Bool) : Owed (s.submit task scheduled) taskId := by
  obtain ⟨f, future, hf, hid, hclean⟩ := h
  exact ⟨f, future, List.getElem?_append_left (List.getElem?_eq_some_iff.mp hf).1 ▸ hf, hid, hclean⟩

/-- What is owed stays owed, unless the one clean-up of the id ends. -/
theorem Owed.setPhase {taskId : String} (h : Owed s taskId) {f : Nat} {future : Future}
    (hf : s.futures[f]? = some future) {phase : Phase}
    (hphase : phase.toClean = true ∨ future.phase.toClean = false ∨ taskId ≠ future.taskId) :
    Owed (s.setPhase f future phase) taskId := by
  obtain ⟨g, other, hg, hid, hclean⟩ := h
  by_cases hfg : f = g
  · subst hfg
    obtain rfl : future = other := Option.some.inj (hf.symm.trans hg)
    have hmoved : phase.toClean = true := by
      rcases hphase with hphase | hphase | hne
      · exact hphase
      · rw [hclean] at hphase
        cases hphase
      · exact absurd hid.symm hne
    refine ⟨f, { future with phase := phase }, ?_, hid, hmoved⟩
    simp [State.setPhase, (List.getElem?_eq_some_iff.mp hf).1]
  · exact ⟨g, other, by simpa [State.setPhase, List.getElem?_set_ne hfg] using hg, hid, hclean⟩

/-- Futures keep their ids. -/
theorem taskId_setPhase {f g : Nat} {future other : Future} (phase : Phase)
    (hf : s.futures[f]? = some future) (hg : s.futures[g]? = some other) :
    ∃ moved, (s.setPhase f future phase).futures[g]? = some moved ∧
      moved.taskId = other.taskId := by
  by_cases hfg : f = g
  · subst hfg
    obtain rfl : future = other := Option.some.inj (hf.symm.trans hg)
    exact ⟨{ future with phase := phase }, by
      simp [State.setPhase, (List.getElem?_eq_some_iff.mp hf).1], rfl⟩
  · exact ⟨other, by simpa [State.setPhase, List.getElem?_set_ne hfg] using hg, rfl⟩

/-- The steps that leave nothing behind: a future is registered before its clean-up, its
wrapper finds its event unset, and it is not cancelled before it starts. -/
def keeps (s : State) : Action → Bool
  | .advance c =>
    match s.calls[c]? with
    | some (.registering _ f) => s.futures[f]?.all (·.phase.toClean)
    | some (.entering _ f _ _) => s.futures[f]?.all (·.phase.toClean)
    | some (.dropping (some f) _) => s.futures[f]?.all (·.phase ≠ .pending)
    | _ => true
  | .work f => s.futures[f]?.all fun future =>
    match future.phase with
    | .checking event => s.events[event]? ≠ some true
    | _ => true
  | _ => true

section Preservation
variable {s : State}

/-- A phase moves on, and the clean-up stays owed or was over. -/
theorem Tidy.setPhase (h : Tidy s) {f : Nat} {future : Future} (hf : s.futures[f]? = some future)
    {phase : Phase} (hphase : phase.toClean = true ∨ future.phase.toClean = false) :
    Tidy (s.setPhase f future phase) where
  active taskId g hg := (h.active taskId g hg).setPhase hf (hphase.imp_right .inl)
  events taskId e he := (h.events taskId e he).imp_left (·.setPhase hf (hphase.imp_right .inl))
  registers call hcall task g hg := by
    obtain ⟨other, hother, hid⟩ := h.registers call hcall task g hg
    obtain ⟨moved, hmoved, hsame⟩ := taskId_setPhase phase hf hother
    exact ⟨moved, hmoved, hsame.trans hid⟩

/-- A new event for an id that is owed a clean-up. -/
theorem Tidy.newEvent (h : Tidy s) {taskId : String} (howed : Owed s taskId) :
    Tidy (s.newEvent taskId) where
  active := h.active
  events id e he := by
    by_cases hid : taskId = id
    · exact .inl (hid ▸ howed)
    · exact h.events id e (((Dict.get?_set_ne hid ..).symm.trans he))
  registers := h.registers

/-- The clean-up of a future forgets its id. -/
theorem Tidy.cleanUp (h : Tidy s) {f : Nat} {future : Future} (hf : s.futures[f]? = some future) :
    Tidy { s.setPhase f future .returning with
      activeTasks := s.activeTasks.erase future.taskId
      cancellationEvents := s.cancellationEvents.erase future.taskId } where
  active taskId g hg := by
    rw [Dict.get?_erase] at hg
    split at hg
    · cases hg
    · next hne => exact (h.active taskId g hg).setPhase hf (.inr (.inr (Ne.symm hne)))
  events taskId e he := by
    rw [Dict.get?_erase] at he
    split at he
    · cases he
    · next hne => exact (h.events taskId e he).imp_left (·.setPhase hf (.inr (.inr (Ne.symm hne))))
  registers call hcall task g hg := by
    obtain ⟨other, hother, hid⟩ := h.registers call hcall task g hg
    obtain ⟨moved, hmoved, hsame⟩ := taskId_setPhase .returning hf hother
    exact ⟨moved, hmoved, hsame.trans hid⟩

theorem Tidy.submit (h : Tidy s) (task : SchedulerTask) (scheduled : Bool) :
    Tidy (s.submit task scheduled) where
  active taskId f hf := (h.active taskId f hf).submit task scheduled
  events taskId e he := (h.events taskId e he).imp_left (·.submit task scheduled)
  registers call hcall task' f hf := by
    obtain ⟨future, hfuture, hid⟩ := h.registers call hcall task' f hf
    exact ⟨future,
      List.getElem?_append_left (List.getElem?_eq_some_iff.mp hfuture).1 ▸ hfuture, hid⟩

/-- A future is registered under an id that is owed a clean-up. -/
theorem Tidy.register (h : Tidy s) {taskId : String} (howed : Owed s taskId) (f : Nat) :
    Tidy { s with activeTasks := s.activeTasks.set taskId f } where
  active id g hg := by
    by_cases hid : taskId = id
    · exact hid ▸ howed
    · exact h.active id g ((Dict.get?_set_ne hid ..).symm.trans hg)
  events := h.events
  registers := h.registers

theorem Tidy.work (h : Tidy s) {f : Nat} (hkeeps : keeps s (.work f) = true) :
    Tidy (s.work maxWorkers f) := by
  rw [State.work]
  cases hf : s.futures[f]? with
  | none => exact h
  | some future =>
    have howed : future.phase.toClean = true → Owed s future.taskId := fun hclean =>
      ⟨f, future, hf, rfl, hclean⟩
    simp only
    cases hphase : future.phase with
    | pending =>
      simp only
      split
      · exact h.setPhase hf (.inl rfl)
      · exact h
    | started =>
      simp only
      cases s.cancellationEvents.get? future.taskId with
      | some event => exact h.setPhase hf (.inl rfl)
      | none => exact (h.newEvent (howed (by rw [hphase]; rfl))).setPhase hf (.inl rfl)
    | checking event =>
      simp only [keeps, hf, Option.all_some, hphase, decide_eq_true_eq] at hkeeps
      simp only [if_neg hkeeps]
      exact h.setPhase hf (.inl rfl)
    | executing => exact h.setPhase hf (.inl rfl)
    | cleaning => exact h.cleanUp hf
    | returning => exact h.setPhase hf (.inr (by rw [hphase]; rfl))
    | cancelled => exact h
    | finished => exact h

theorem Tidy.cancel (h : Tidy s) {future : Option Nat}
    (hstarted : ∀ f, future = some f → ∀ fut, s.futures[f]? = some fut → fut.phase ≠ .pending) :
    Tidy (s.cancel future) := by
  cases future with
  | none => exact h
  | some f =>
    rw [State.cancel]
    cases hf : s.futures[f]? with
    | none => exact h
    | some fut =>
      simp only [if_neg (hstarted f rfl fut hf)]
      exact h

/-- A call goes on to something else. -/
theorem Tidy.replace (h : Tidy s) {c : Nat} {call call' : Call} (hc : s.calls[c]? = some call)
    (hopened : ∀ taskId, call.opened = some taskId → Owed s taskId)
    (hregisters : ∀ task f, call'.registers = some (task, f) →
      ∃ future, s.futures[f]? = some future ∧ future.taskId = task.taskId) :
    Tidy { s with calls := s.calls.set c call' } where
  active := h.active
  events taskId e he := by
    rcases h.events taskId e he with howed | ⟨other, hother, hid⟩
    · exact .inl howed
    · obtain ⟨d, hd⟩ := List.mem_iff_getElem?.mp hother
      by_cases hcd : c = d
      · subst hcd
        obtain rfl : call = other := Option.some.inj (hc.symm.trans hd)
        exact .inl (hopened taskId hid)
      · exact .inr ⟨other, List.mem_of_getElem? ((List.getElem?_set_ne hcd).trans hd), hid⟩
  registers other hother := by
    rcases List.mem_or_eq_of_mem_set hother with hother | rfl
    · exact h.registers other hother
    · exact hregisters

/-- A branch's event is opened by the call that is about to submit it. -/
theorem Tidy.openBranch (h : Tidy s) {c : Nat} {task : SchedulerTask} {todo : List SchedulerTask}
    {futures : List (String × Nat)} (hc : s.calls[c]? = some (.opening (task :: todo) futures)) :
    Tidy { s.newEvent task.taskId with calls := s.calls.set c (.branching task todo futures) } where
  active := h.active
  events taskId e he := by
    have hlt : c < s.calls.length := (List.getElem?_eq_some_iff.mp hc).1
    by_cases hid : task.taskId = taskId
    · exact .inr ⟨.branching task todo futures, List.mem_set hlt _, congrArg some hid⟩
    · have htidy : Tidy { s with calls := s.calls.set c (.branching task todo futures) } :=
        h.replace hc nofun nofun
      exact htidy.events taskId e ((Dict.get?_set_ne hid ..).symm.trans he)
  registers other hother := by
    rcases List.mem_or_eq_of_mem_set hother with hother | rfl
    · exact h.registers other hother
    · exact nofun

theorem Tidy.advance (h : Tidy s) {c : Nat} (hkeeps : keeps s (.advance c) = true) :
    Tidy (s.advance c) := by
  rw [State.advance]
  cases hc : s.calls[c]? with
  | none => exact h
  | some call =>
    simp only [keeps, hc] at hkeeps
    have hmem : call ∈ s.calls := List.mem_of_getElem? hc
    have howed : ∀ task f, call.registers = some (task, f) →
        s.futures[f]?.all (·.phase.toClean) = true → Owed s task.taskId := by
      intro task f hcall hclean
      obtain ⟨future, hfuture, hid⟩ := h.registers call hmem task f hcall
      exact ⟨f, future, hfuture, hid, by simpa [hfuture] using hclean⟩
    have hsubmitted : ∀ (task : SchedulerTask) (scheduled : Bool),
        (s.submit task scheduled).futures[s.futures.length]? =
          some ⟨task.taskId, scheduled, .pending⟩ := fun task scheduled => by simp [State.submit]
    simp only
    cases call with
    | degraded => exact h.replace hc nofun nofun
    | putting task =>
      have htidy : Tidy { s with queue := s.queue ++ [task] } := ⟨h.active, h.events, h.registers⟩
      exact htidy.replace hc nofun nofun
    | submitting task =>
      refine (h.submit task true).replace hc nofun fun task' f hcall => ?_
      cases hcall
      exact ⟨_, hsubmitted task true, rfl⟩
    | registering task f =>
      exact (h.register (howed task f rfl hkeeps) f).replace hc nofun nofun
    | opening todo futures =>
      cases todo with
      | nil => exact h.replace hc nofun nofun
      | cons task todo => exact h.openBranch hc
    | branching task todo futures =>
      refine (h.submit task false).replace hc (fun taskId hid => ?_) fun task' f hcall => ?_
      · cases hid
        exact ⟨_, _, hsubmitted task false, rfl, rfl⟩
      · cases hcall
        exact ⟨_, hsubmitted task false, rfl⟩
    | entering task f todo futures =>
      exact (h.register (howed task f rfl hkeeps) f).replace hc nofun nofun
    | reading taskId => exact h.replace hc nofun nofun
    | stopping futures =>
      cases futures with
      | nil | cons p rest => exact h.replace hc nofun nofun
    | signalling event future rest =>
      cases event with
      | none => exact h.replace hc nofun nofun
      | some e =>
        have htidy : Tidy { s with events := s.events.set e true } :=
          ⟨h.active, h.events, h.registers⟩
        exact htidy.replace hc nofun nofun
    | dropping future rest =>
      have htidy : Tidy (s.cancel future) := by
        refine h.cancel fun f hf future' hfuture => ?_
        subst hf
        simpa [hfuture] using hkeeps
      exact htidy.replace ((congrArg (·[c]?) (s.calls_cancel future)).trans hc) nofun nofun
    | returned => exact h.replace hc nofun nofun

/-- A call that begins. -/
theorem Tidy.begin (h : Tidy s) {call : Call} (hcall : call.registers = none) :
    Tidy { s with calls := s.calls ++ [call] } where
  active := h.active
  events taskId e he := (h.events taskId e he).imp_right fun ⟨other, hother, hid⟩ =>
    ⟨other, List.mem_append_left _ hother, hid⟩
  registers other hother task f hf := by
    rcases List.mem_append.mp hother with hother | hother
    · exact h.registers other hother task f hf
    · rw [List.mem_singleton.mp hother, hcall] at hf
      cases hf

end Preservation

theorem tidy_step (s : State) (a : Action) (hkeeps : keeps s a = true) (h : Tidy s) :
    Tidy (step maxWorkers backpressureThreshold s a) := by
  cases a with
  | schedule task =>
    simp only [step]
    split <;> exact h.begin rfl
  | runSpeculative tasks | cancelTask taskId => exact h.begin rfl
  | advance c => exact h.advance hkeeps
  | work f => exact h.work maxWorkers hkeeps

/-- No call is in progress and every future is done. -/
def Quiet (s : State) : Prop :=
  (∀ call ∈ s.calls, call.over = true) ∧ ∀ future ∈ s.futures, future.phase.done = true

/-- What a quiet scheduler remembers: nothing. -/
def Forgotten (s : State) : Prop :=
  Quiet s → s.activeTasks.items = [] ∧ s.cancellationEvents.items = []

theorem Phase.not_toClean_of_done {phase : Phase} (h : phase.done = true) :
    phase.toClean = false := by
  cases phase <;> first | rfl | cases h

theorem Tidy.forgotten (h : Tidy s) : Forgotten s := by
  rintro ⟨hcalls, hfutures⟩
  have hnone : ∀ taskId, ¬ Owed s taskId := by
    rintro taskId ⟨f, future, hf, -, hclean⟩
    rw [Phase.not_toClean_of_done (hfutures future (List.mem_of_getElem? hf))] at hclean
    cases hclean
  constructor
  · refine List.eq_nil_iff_forall_not_mem.mpr fun p hp => ?_
    exact hnone p.1 (h.active p.1 p.2 (s.activeTasks.mem_items.mp hp))
  · refine List.eq_nil_iff_forall_not_mem.mpr fun p hp => ?_
    rcases h.events p.1 p.2 (s.cancellationEvents.mem_items.mp hp) with howed | ⟨call, hcall, hid⟩
    · exact hnone p.1 howed
    · have hover := hcalls call hcall
      cases call <;> first | cases hid | cases hover

theorem tidy_initial : Tidy (scheduler maxWorkers backpressureThreshold).initial where
  active _ _ h := by cases h
  events _ _ h := by cases h
  registers _ h := by cases h

/-- In a run whose steps leave nothing behind, every quiet state has forgotten every task. -/
theorem forgets_finished (acts : List Action)
    (h : (scheduler maxWorkers backpressureThreshold).Admits (fun s a => keeps s a = true) acts) :
    (scheduler maxWorkers backpressureThreshold).Always Forgotten acts :=
  System.always_under _ (fun s a => keeps s a = true) Tidy Forgotten
    (tidy_initial maxWorkers backpressureThreshold) (tidy_step maxWorkers backpressureThreshold)
    (fun _ => Tidy.forgotten) acts h

/-- A task that is scheduled, registered and run. -/
def ordinaryRun : List Action :=
  [.schedule ⟨"task_1", 10⟩, .advance 0, .advance 0, .advance 0, .work 0, .work 0, .work 0, .work 0,
    .work 0, .work 0]

theorem forgets_ordinary : (scheduler 8 100).Always Forgotten ordinaryRun :=
  forgets_finished 8 100 ordinaryRun (System.admits_of_checks _ (by decide))

/-- A task that is cancelled before a worker takes it stays in the table for good. -/
theorem cancelled_not_forgotten :
    ¬ Forgotten ((scheduler 8 100).after [.schedule ⟨"task_1", 10⟩, .advance 0, .advance 0,
      .advance 0, .cancelTask "task_1", .advance 1, .advance 1, .advance 1, .advance 1]) := by
  intro h
  have hempty := (h ⟨by decide, by decide⟩).1
  cases hempty

/-! ### Backpressure -/

def Call.submits : Call → Bool
  | submitting _ => true
  | _ => false

/-- The tasks that `schedule` accepted and that have not finished. -/
def State.unfinished (s : State) : Nat :=
  s.calls.countP (·.submits) + s.futures.countP fun f => f.scheduled && !f.phase.done

/-- The tasks that `schedule` accepted and that have finished. -/
def State.done (s : State) : Nat := s.futures.countP fun f => f.scheduled && f.phase.done

/-- The queue holds every task ever accepted, submitted or about to be. -/
def Counted (s : State) : Prop :=
  s.queue.length = s.calls.countP (·.submits) + s.futures.countP (·.scheduled)

theorem scheduled_eq (s : State) :
    s.futures.countP (·.scheduled) =
      (s.futures.countP fun f => f.scheduled && !f.phase.done) + s.done := by
  rw [State.done]
  induction s.futures with
  | nil => rfl
  | cons f fs ih =>
    simp only [List.countP_cons, ih]
    cases f.scheduled <;> cases f.phase.done <;> simp <;> omega

theorem Counted.unfinished (h : Counted s) :
    s.queue.length = s.unfinished + s.done := by
  rw [h, scheduled_eq, State.unfinished, Nat.add_assoc]

/-- A phase does not matter to the count. -/
theorem Counted.setPhase (h : Counted s) {f : Nat} {future : Future}
    (hf : s.futures[f]? = some future) (phase : Phase) : Counted (s.setPhase f future phase) := by
  have hset := countP_set_add (p := (·.scheduled)) hf { future with phase := phase }
  rw [Counted, State.setPhase, Nat.add_right_cancel hset]
  exact h

theorem Counted.cancel (h : Counted s) (future : Option Nat) :
    Counted (s.cancel future) := by
  cases future with
  | none => exact h
  | some f =>
    rw [State.cancel]
    cases hf : s.futures[f]? with
    | none => exact h
    | some fut =>
      simp only
      split
      · exact h.setPhase hf .cancelled
      · exact h

/-- A call goes on, and what it puts or submits is counted. -/
theorem Counted.replace {s s₁ : State} {c : Nat} {call call' : Call} (h : Counted s)
    (hcalls : s₁.calls = s.calls) (hc : s.calls[c]? = some call)
    (hcount : s₁.queue.length + (s.futures.countP (·.scheduled) + call.submits.toNat) =
      s.queue.length + (s₁.futures.countP (·.scheduled) + call'.submits.toNat)) :
    Counted { s₁ with calls := s₁.calls.set c call' } := by
  have hset := countP_set_add (p := (·.submits)) hc call'
  rw [Counted] at h ⊢
  simp only [hcalls]
  omega

theorem Counted.advance (h : Counted s) (c : Nat) : Counted (s.advance c) := by
  rw [State.advance]
  cases hc : s.calls[c]? with
  | none => exact h
  | some call =>
    simp only
    cases call with
    | putting task => exact h.replace rfl hc (by simp [Call.next, Call.submits]; omega)
    | submitting task =>
      exact h.replace rfl hc (by simp [Call.next, Call.submits, State.submit])
    | opening todo futures => cases todo <;> exact h.replace rfl hc rfl
    | branching task todo futures =>
      exact h.replace rfl hc (by simp [Call.next, Call.submits, State.submit])
    | stopping futures => cases futures <;> exact h.replace rfl hc rfl
    | signalling event future rest => cases event <;> exact h.replace rfl hc rfl
    | dropping future rest =>
      exact (h.cancel future).replace rfl ((congrArg (·[c]?) (s.calls_cancel future)).trans hc) rfl
    | degraded | registering task f | entering task f todo futures | reading taskId | returned =>
      exact h.replace rfl hc rfl

theorem Counted.work (h : Counted s) (f : Nat) : Counted (s.work maxWorkers f) := by
  rw [State.work]
  cases hf : s.futures[f]? with
  | none => exact h
  | some future =>
    simp only
    cases future.phase with
    | pending =>
      simp only
      split
      · exact h.setPhase hf .started
      · exact h
    | started =>
      simp only
      cases s.cancellationEvents.get? future.taskId with
      | some event => exact h.setPhase hf (.checking event)
      | none => exact h.setPhase hf (.checking s.events.length)
    | checking event =>
      simp only
      split
      · exact h.setPhase hf .returning
      · exact h.setPhase hf .executing
    | executing => exact h.setPhase hf .cleaning
    | cleaning => exact h.setPhase hf .returning
    | returning => exact h.setPhase hf .finished
    | cancelled => exact h
    | finished => exact h

theorem Counted.begin (h : Counted s) {call : Call} (hcall : call.submits = false) :
    Counted { s with calls := s.calls ++ [call] } := by
  rw [Counted] at h ⊢
  simpa [hcall] using h

theorem counted_step (s : State) (a : Action) (h : Counted s) :
    Counted (step maxWorkers backpressureThreshold s a) := by
  cases a with
  | schedule task =>
    simp only [step]
    split <;> exact h.begin rfl
  | runSpeculative tasks | cancelTask taskId => exact h.begin rfl
  | advance c => exact h.advance c
  | work f => exact h.work maxWorkers f

/-- A call is answered with the fallback only under load. -/
def ReflectsLoad (s : State) (a : Action) : Prop :=
  ∀ task, a = .schedule task → (step maxWorkers backpressureThreshold s a).calls =
    s.calls ++ [.degraded] → backpressureThreshold ≤ s.unfinished

/-- When a call finds the queue full, as many tasks as it holds over the threshold may have
finished and no more. -/
def FewFinished (s : State) (a : Action) : Prop :=
  ∀ task, a = .schedule task → backpressureThreshold ≤ s.queue.length →
    s.done ≤ s.queue.length - backpressureThreshold

/-- Backpressure reflects the load in a run exactly when each call that finds the queue at the
threshold finds few enough of the tasks in it finished. -/
theorem backpressure_iff (acts : List Action) :
    (scheduler maxWorkers backpressureThreshold).Admits
        (ReflectsLoad maxWorkers backpressureThreshold) acts ↔
      (scheduler maxWorkers backpressureThreshold).Admits (FewFinished backpressureThreshold)
        acts := by
  refine forall₄_congr fun before a _ _ => ?_
  have hcounted := ((scheduler maxWorkers backpressureThreshold).invariant Counted rfl
    (counted_step maxWorkers backpressureThreshold) before).unfinished
  generalize (scheduler maxWorkers backpressureThreshold).after before = s at hcounted ⊢
  refine forall₂_congr fun task ha => ?_
  subst ha
  have hdegrades : (step maxWorkers backpressureThreshold s (.schedule task)).calls =
      s.calls ++ [.degraded] ↔ backpressureThreshold ≤ s.queue.length := by
    by_cases hfull : backpressureThreshold ≤ s.queue.length <;>
      simp [step, State.degrades, hfull]
  rw [hdegrades]
  refine imp_congr_right fun hfull => ?_
  omega

/-- One task runs and finishes; at threshold 1 the next call is refused all the same. -/
theorem degraded_when_idle :
    ¬ (scheduler 8 1).Admits (ReflectsLoad 8 1) (ordinaryRun ++ [.schedule ⟨"task_2", 10⟩]) := by
  intro h
  have hload := (System.admits_snoc _).mp h |>.2 ⟨"task_2", 10⟩ rfl rfl
  exact absurd hload (by decide)

end PiPlatform.Orchestrator.Scheduler
