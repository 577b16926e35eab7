import PiPlatform.Library.System
import Mathlib.Logic.Function.Basic

/-! Human approvals.

A task registers an event and waits; a review of a task that is registered stores its
decision, sets the event and answers `DECISION_RECEIVED`. The task wakes up from the
event or from the timeout, reads the stored decision, and only then removes itself. Until
it has, reviews are accepted, whatever has become of the wait.

A task that returns `True` was approved while it was pending, and one that has returned
is in neither dictionary (`Settled`). What `approvals_decisive_iff` adds is when every
accepted review carries what the task returns: when they carry one decision, and none is
an approval that the timeout outran. -/
namespace PiPlatform.Interceptor

open Library

variable {T : Type}

/-- Where a call of `dispatch_human_approval` is. -/
inductive Phase where
  | idle
  | waiting
  /-- Woken up by the event. -/
  | woken
  /-- Woken up by the timeout. -/
  | expired
  /-- The stored decision is read and the clean-up still to come. -/
  | decided (approved : Bool)
  | returned (byTimeout approved : Bool)
  deriving DecidableEq

/-- The two dictionaries, the events, where the tasks are, and for each task the decisions
of the reviews that were answered `DECISION_RECEIVED`. -/
structure Approvals (T : Type) where
  pendingApprovals : T → Bool
  approvalResults : T → Option Bool
  isSet : T → Bool
  phase : T → Phase
  received : T → List Bool

inductive ApprovalStep (T : Type) where
  | register (t : T)
  | wakeUp (t : T)
  | timeOut (t : T)
  | readResult (t : T)
  | cleanUp (t : T)
  | review (t : T) (approved : Bool)

/-- `HTTPException(404)`, or `DECISION_RECEIVED`. -/
inductive ReviewAnswer where
  | notActive
  | decisionReceived (approved : Bool)
  deriving DecidableEq

namespace Approvals
variable [DecidableEq T] (s : Approvals T)

def register (t : T) : Approvals T :=
  if s.phase t = .idle then
    { s with
      pendingApprovals := Function.update s.pendingApprovals t true
      isSet := Function.update s.isSet t false
      phase := Function.update s.phase t .waiting }
  else s

/-- `event.wait()` returns. -/
def wakeUp (t : T) : Approvals T :=
  if s.phase t = .waiting ∧ s.isSet t = true then
    { s with phase := Function.update s.phase t .woken }
  else s

/-- `asyncio.wait_for` raises, which it may do with the event set. -/
def timeOut (t : T) : Approvals T :=
  if s.phase t = .waiting then { s with phase := Function.update s.phase t .expired } else s

def readResult (t : T) : Approvals T :=
  if s.phase t = .woken then
    { s with phase := Function.update s.phase t (.decided ((s.approvalResults t).getD false)) }
  else s

/-- The `finally` block, and the return. -/
def leave (t : T) (byTimeout approved : Bool) : Approvals T :=
  { s with
    pendingApprovals := Function.update s.pendingApprovals t false
    approvalResults := Function.update s.approvalResults t none
    phase := Function.update s.phase t (.returned byTimeout approved) }

def cleanUp (t : T) : Approvals T :=
  match s.phase t with
  | .decided approved => s.leave t false approved
  | .expired => s.leave t true false
  | _ => s

/-- `receive_human_review` -/
def receiveHumanReview (t : T) (approved : Bool) : ReviewAnswer × Approvals T :=
  if s.pendingApprovals t then
    (.decisionReceived approved,
      { s with
        approvalResults := Function.update s.approvalResults t (some approved)
        isSet := Function.update s.isSet t true
        received := Function.update s.received t (s.received t ++ [approved]) })
  else (.notActive, s)

def step : ApprovalStep T → Approvals T
  | .register t => s.register t
  | .wakeUp t => s.wakeUp t
  | .timeOut t => s.timeOut t
  | .readResult t => s.readResult t
  | .cleanUp t => s.cleanUp t
  | .review t approved => (s.receiveHumanReview t approved).2

end Approvals

/-- Any tasks and reviews, in any order of their steps. -/
def approvals (T : Type) [DecidableEq T] : System (Approvals T) (ApprovalStep T) where
  initial := ⟨fun _ => false, fun _ => none, fun _ => false, fun _ => .idle, fun _ => []⟩
  step := Approvals.step

/-! ### What a task goes through -/

/-- A task is registered until its clean-up. -/
def Phase.active : Phase → Bool
  | .idle => false
  | .returned _ _ => false
  | _ => true

/-- What the reviews received say about where a task is. -/
def Phase.Explained (isSet : Bool) (received : List Bool) : Phase → Prop
  | .idle => received = []
  | .waiting => isSet = true → received ≠ []
  | .woken => received ≠ []
  | .expired => True
  | .decided approved => approved ∈ received
  | .returned false approved => approved ∈ received
  | .returned true approved => approved = false

/-- An active task is registered and the last decision stored under it. -/
structure Tracked (s : Approvals T) (t : T) : Prop where
  pending : s.pendingApprovals t = (s.phase t).active
  result : s.approvalResults t = if (s.phase t).active then (s.received t).getLast? else none
  explained : (s.phase t).Explained (s.isSet t) (s.received t)

namespace Tracked
variable [DecidableEq T] {s s' : Approvals T} {t t' : T}

omit [DecidableEq T] in
theorem congr (h : Tracked s t) (hpending : s'.pendingApprovals t = s.pendingApprovals t)
    (hresult : s'.approvalResults t = s.approvalResults t) (hset : s'.isSet t = s.isSet t)
    (hphase : s'.phase t = s.phase t) (hreceived : s'.received t = s.received t) :
    Tracked s' t := by
  refine ⟨?_, ?_, ?_⟩
  · rw [hpending, hphase, h.pending]
  · rw [hresult, hphase, hreceived, h.result]
  · rw [hphase, hset, hreceived]
    exact h.explained

theorem register (h : Tracked s t) (t' : T) : Tracked (s.register t') t := by
  by_cases hidle : s.phase t' = .idle
  · rw [Approvals.register, if_pos hidle]
    by_cases ht : t = t'
    · subst ht
      have hreceived : s.received t = [] := by simpa [hidle, Phase.Explained] using h.explained
      refine ⟨by simp [Phase.active], ?_, by simp [Phase.Explained]⟩
      have hresult := h.result
      simp only [hidle, Phase.active] at hresult
      simp [Phase.active, hreceived, hresult]
    · exact h.congr (by simp [ht]) rfl (by simp [ht]) (by simp [ht]) rfl
  · rw [Approvals.register, if_neg hidle]
    exact h

/-- A step that moves a task on while it stays active. -/
theorem move (h : Tracked s t) (t' : T) {phase : Phase} (hactive : (s.phase t').active = true)
    (hactive' : phase.active = true)
    (hexplained : t = t' → phase.Explained (s.isSet t) (s.received t)) :
    Tracked { s with phase := Function.update s.phase t' phase } t := by
  by_cases ht : t = t'
  · subst ht
    refine ⟨?_, ?_, ?_⟩
    · simp [h.pending, hactive, hactive']
    · simp [h.result, hactive, hactive']
    · simpa using hexplained rfl
  · exact h.congr rfl rfl rfl (by simp [ht]) rfl

theorem wakeUp (h : Tracked s t) (t' : T) : Tracked (s.wakeUp t') t := by
  by_cases hwake : s.phase t' = .waiting ∧ s.isSet t' = true
  · rw [Approvals.wakeUp, if_pos hwake]
    refine h.move t' (by simp [hwake.1, Phase.active]) rfl fun ht => ?_
    subst ht
    have hexplained := h.explained
    rw [hwake.1] at hexplained
    exact hexplained hwake.2
  · rw [Approvals.wakeUp, if_neg hwake]
    exact h

theorem timeOut (h : Tracked s t) (t' : T) : Tracked (s.timeOut t') t := by
  by_cases hwaiting : s.phase t' = .waiting
  · rw [Approvals.timeOut, if_pos hwaiting]
    exact h.move t' (by simp [hwaiting, Phase.active]) rfl fun _ => trivial
  · rw [Approvals.timeOut, if_neg hwaiting]
    exact h

/-- What a task reads is the last decision received. -/
theorem readResult (h : Tracked s t) (t' : T) : Tracked (s.readResult t') t := by
  by_cases hwoken : s.phase t' = .woken
  · rw [Approvals.readResult, if_pos hwoken]
    refine h.move t' (by simp [hwoken, Phase.active]) rfl fun ht => ?_
    subst ht
    have hne : s.received t ≠ [] := by simpa [hwoken, Phase.Explained] using h.explained
    have hresult := h.result
    simp only [hwoken, Phase.active, if_true, List.getLast?_eq_some_getLast hne] at hresult
    rw [hresult]
    exact List.getLast_mem hne
  · rw [Approvals.readResult, if_neg hwoken]
    exact h

theorem leave (h : Tracked s t) (t' : T) {byTimeout approved : Bool} (hexplained : t = t' →
      (Phase.returned byTimeout approved).Explained (s.isSet t) (s.received t)) :
    Tracked (s.leave t' byTimeout approved) t := by
  by_cases ht : t = t'
  · subst ht
    exact ⟨by simp [Approvals.leave, Phase.active], by simp [Approvals.leave, Phase.active],
      by simpa [Approvals.leave] using hexplained rfl⟩
  · exact h.congr (by simp [Approvals.leave, ht]) (by simp [Approvals.leave, ht]) rfl
      (by simp [Approvals.leave, ht]) rfl

theorem cleanUp (h : Tracked s t) (t' : T) : Tracked (s.cleanUp t') t := by
  have hexplained := h.explained
  unfold Approvals.cleanUp
  split
  · next approved hphase =>
    refine h.leave t' fun ht => ?_
    subst ht
    rwa [hphase] at hexplained
  · exact h.leave t' fun _ => rfl
  · exact h

theorem review (h : Tracked s t) (t' : T) (approved : Bool) :
    Tracked (s.receiveHumanReview t' approved).2 t := by
  by_cases hpending : s.pendingApprovals t' = true
  · rw [Approvals.receiveHumanReview, if_pos hpending]
    by_cases ht : t = t'
    · subst ht
      have hactive : (s.phase t).active = true := h.pending ▸ hpending
      refine ⟨h.pending, by simp [hactive], ?_⟩
      have hexplained := h.explained
      cases hphase : s.phase t with
      | idle | returned _ _ => simp [hphase, Phase.active] at hactive
      | waiting | woken | expired => simp [Phase.Explained]
      | decided b =>
        rw [hphase] at hexplained
        have hmem : b ∈ s.received t := hexplained
        simp [Phase.Explained, hmem]
    · exact h.congr rfl (by simp [ht]) (by simp [ht]) rfl (by simp [ht])
  · rw [Approvals.receiveHumanReview, if_neg hpending]
    exact h

theorem step (h : Tracked s t) (a : ApprovalStep T) : Tracked (s.step a) t := by
  cases a with
  | register t' => exact h.register t'
  | wakeUp t' => exact h.wakeUp t'
  | timeOut t' => exact h.timeOut t'
  | readResult t' => exact h.readResult t'
  | cleanUp t' => exact h.cleanUp t'
  | review t' approved => exact h.review t' approved

end Tracked

theorem tracked_after [DecidableEq T] (run : List (ApprovalStep T)) (t : T) :
    Tracked ((approvals T).after run) t :=
  (approvals T).invariant (fun s => Tracked s t) ⟨rfl, rfl, rfl⟩ (fun _ a h => h.step a) run

/-! ### What a task returns -/

/-- A task that has returned `True` was approved while it was pending, and one that has
returned is in neither dictionary. -/
structure Settled (s : Approvals T) : Prop where
  approved : ∀ t byTimeout, s.phase t = .returned byTimeout true → true ∈ s.received t
  gone : ∀ t byTimeout approved, s.phase t = .returned byTimeout approved →
    s.pendingApprovals t = false ∧ s.approvalResults t = none

/-- And every review answered `DECISION_RECEIVED` carries what the task returns. -/
structure Decisive (s : Approvals T) : Prop where
  settled : Settled s
  carried : ∀ t byTimeout approved, s.phase t = .returned byTimeout approved →
    ∀ decision ∈ s.received t, decision = approved

/-- The reviews of a task carry one decision, and the timeout outran no approval. -/
def Unanimous (received : List Bool) (byTimeout : Bool) : Prop :=
  (∀ decision ∈ received, ∀ decision' ∈ received, decision = decision') ∧
    (byTimeout = true → true ∉ received)

variable [DecidableEq T]

theorem settled_after (run : List (ApprovalStep T)) : Settled ((approvals T).after run) := by
  constructor
  · intro t byTimeout hphase
    have hexplained := (tracked_after run t).explained
    rw [hphase] at hexplained
    cases byTimeout with
    | false => exact hexplained
    | true => exact absurd (show true = false from hexplained) (by decide)
  · intro t byTimeout approved hphase
    have htracked := tracked_after run t
    have hactive : (((approvals T).after run).phase t).active = false := by rw [hphase]; rfl
    exact ⟨by rw [htracked.pending, hactive], by rw [htracked.result, hactive]; rfl⟩

/-- **Main theorem.** After every run the approvals are decisive if and only if the reviews of
every task that has returned are unanimous. -/
theorem approvals_decisive_iff (run : List (ApprovalStep T)) :
    Decisive ((approvals T).after run) ↔
      ∀ t byTimeout approved, ((approvals T).after run).phase t = .returned byTimeout approved →
        Unanimous (((approvals T).after run).received t) byTimeout := by
  constructor
  · intro h t byTimeout approved hphase
    have hcarried := h.carried t byTimeout approved hphase
    refine ⟨fun d hd d' hd' => (hcarried d hd).trans (hcarried d' hd').symm,
      fun htimeout hmem => ?_⟩
    subst htimeout
    have hdenied : approved = false := by
      have hexplained := (tracked_after run t).explained
      rwa [hphase] at hexplained
    exact absurd ((hcarried true hmem).trans hdenied) (by decide)
  · refine fun h => ⟨settled_after run, fun t byTimeout approved hphase decision hd => ?_⟩
    obtain ⟨hone, htimeout⟩ := h t byTimeout approved hphase
    have hexplained := (tracked_after run t).explained
    rw [hphase] at hexplained
    cases byTimeout with
    | false => exact hone decision hd approved hexplained
    | true =>
      have hdenied : approved = false := hexplained
      rw [hdenied, ← Bool.not_eq_true]
      rintro rfl
      exact htimeout rfl hd

/-- The second review overrides the first before the task wakes up. -/
def contradicted : List (ApprovalStep String) :=
  [.register "t", .review "t" false, .review "t" true, .wakeUp "t", .readResult "t",
    .cleanUp "t"]

/-- The review comes between the timeout and the clean-up. -/
def outrun : List (ApprovalStep String) :=
  [.register "t", .timeOut "t", .review "t" true, .cleanUp "t"]

/-- A denial that was answered `DECISION_RECEIVED` and let the command through, and an
approval that was and did not. -/
theorem reviews_not_carried :
    ¬ Decisive ((approvals String).after contradicted) ∧
      ¬ Decisive ((approvals String).after outrun) :=
  ⟨fun h => absurd (h.carried "t" false true (by decide) false (by decide)) (by decide),
    fun h => absurd (h.carried "t" true false (by decide) true (by decide)) (by decide)⟩

end PiPlatform.Interceptor
