import Mathlib.Algebra.Order.Ring.Rat
import Mathlib.Data.List.TakeWhile
import Mathlib.Tactic.Linarith
import PiPlatform.Library.System

/-! The circuit breaker of one step.

`closed_iff`: it is closed exactly when fewer failures than the threshold were recorded
since the last success. While it is open it lets no call through before the cool-off is
over (`cools_off`). Half open it should let one probe through and lets everything through:
`disciplined_iff` says that it keeps to its rules in exactly the runs in which nobody asks
while it is half open. -/
namespace PiPlatform.Orchestrator.CircuitBreaker

open Library

inductive Mode where
  | closed
  | opened
  | halfOpen
  deriving DecidableEq

structure BreakerState where
  consecutiveFailures : Nat
  openedAt : ℚ
  mode : Mode
  deriving DecidableEq

/-- The settings, as the constructor leaves them. -/
structure Settings where
  failureThreshold : Nat
  coolOffSeconds : ℚ
  threshold_pos : 0 < failureThreshold
  coolOff_nonneg : 0 ≤ coolOffSeconds

def Settings.new (failureThreshold : Int) (coolOffSeconds : ℚ) : Settings where
  failureThreshold := (max 1 failureThreshold).toNat
  coolOffSeconds := max 0 coolOffSeconds
  threshold_pos := by omega
  coolOff_nonneg := le_max_left 0 coolOffSeconds

variable (settings : Settings) {s : BreakerState}

def allow (now : ℚ) (s : BreakerState) : Bool × BreakerState :=
  match s.mode with
  | .closed => (true, s)
  | .opened =>
    if settings.coolOffSeconds ≤ now - s.openedAt then (true, { s with mode := .halfOpen })
    else (false, s)
  | .halfOpen => (true, s)

def recordSuccess (s : BreakerState) : BreakerState :=
  { s with consecutiveFailures := 0, openedAt := 0, mode := .closed }

def recordFailure (now : ℚ) (s : BreakerState) : BreakerState :=
  let failures := s.consecutiveFailures + 1
  if s.mode = .halfOpen ∨ settings.failureThreshold ≤ failures then
    { consecutiveFailures := failures, openedAt := now, mode := .opened }
  else { s with consecutiveFailures := failures }

/-! ### Runs -/

inductive Action where
  | allow (now : ℚ)
  | recordSuccess
  | recordFailure (now : ℚ)
  deriving DecidableEq

variable {acts : List Action}

/-- The clock reading, where one is taken. -/
def Action.now? : Action → Option ℚ
  | allow now => some now
  | recordSuccess => none
  | recordFailure now => some now

def Action.isAllow : Action → Bool
  | allow _ => true
  | _ => false

def Action.isFailure : Action → Bool
  | recordFailure _ => true
  | _ => false

def step (s : BreakerState) : Action → BreakerState
  | .allow now => (allow settings now s).2
  | .recordSuccess => recordSuccess s
  | .recordFailure now => recordFailure settings now s

def breaker : System BreakerState Action where
  initial := ⟨0, 0, .closed⟩
  step := step settings

theorem breaker_step (s : BreakerState) (a : Action) :
    (breaker settings).step s a = step settings s a := rfl

/-- The clock never goes back. -/
def ClockForward (acts : List Action) : Prop := (acts.filterMap Action.now?).Pairwise (· ≤ ·)

/-! ### The rules -/

/-- The failures recorded since the last success. -/
def failuresSince (acts : List Action) : Nat :=
  (acts.reverse.takeWhile (· ≠ .recordSuccess)).countP (·.isFailure)

/-- A probe has failed since the last success: a failure came while half open. -/
def ProbeFailed (acts : List Action) : Prop :=
  ∃ before now behind, acts = before ++ .recordFailure now :: behind ∧
    .recordSuccess ∉ behind ∧ ((breaker settings).after before).mode = .halfOpen

/-- Closed exactly when there are few failures. -/
def ClosedRule (acts : List Action) : Prop :=
  ∀ before behind, acts = before ++ behind →
    (((breaker settings).after before).mode = .closed ↔
      failuresSince before < settings.failureThreshold ∧ ¬ ProbeFailed settings before)

/-- The failure at `opening` opened the breaker and it has been open since. -/
def OpenSince (before : List Action) (opening : ℚ) (since : List Action) : Prop :=
  ((breaker settings).after before).mode ≠ .opened ∧
    ∀ front back, since = front ++ back →
      ((breaker settings).after (before ++ .recordFailure opening :: front)).mode = .opened

/-- No call gets through an open breaker before the cool-off is over. -/
def CoolOffRule (acts : List Action) : Prop :=
  ∀ before opening since now behind,
    acts = before ++ .recordFailure opening :: (since ++ .allow now :: behind) →
    OpenSince settings before opening since →
    (allow settings now
      ((breaker settings).after (before ++ .recordFailure opening :: since))).1 = true →
    settings.coolOffSeconds ≤ now - opening

def passes (s : BreakerState) : Action → Bool
  | .allow now => (allow settings now s).1
  | _ => false

/-- How many calls get through. -/
def allowed (s : BreakerState) : List Action → Nat
  | [] => 0
  | a :: acts => (passes settings s a).toNat + allowed (step settings s a) acts

/-- From a turn to half open to the next outcome one call gets through at most. -/
def ProbeRule (acts : List Action) : Prop :=
  ∀ before now calls behind, acts = before ++ .allow now :: (calls ++ behind) →
    ((breaker settings).after before).mode = .opened →
    ((breaker settings).after (before ++ [.allow now])).mode = .halfOpen →
    (∀ a ∈ calls, a.isAllow = true) →
    allowed settings ((breaker settings).after before) (.allow now :: calls) ≤ 1

/-! ### The counter -/

theorem failuresSince_snoc (acts : List Action) (a : Action) :
    failuresSince (acts ++ [a]) =
      if a = .recordSuccess then 0 else failuresSince acts + a.isFailure.toNat := by
  by_cases ha : a = .recordSuccess
  · simp [failuresSince, ha]
  · cases hfailure : a.isFailure <;> simp [failuresSince, ha, hfailure]

theorem failuresSince_append {acts more : List Action} (h : .recordSuccess ∉ more) :
    failuresSince acts ≤ failuresSince (acts ++ more) := by
  induction more using List.reverseRecOn with
  | nil => rw [List.append_nil]
  | append_singleton more a ih =>
    obtain ⟨hmore, ha⟩ := not_or.mp (List.mem_append.not.mp h)
    have hne : a ≠ .recordSuccess := fun heq => ha (by simp [heq])
    rw [← List.append_assoc, failuresSince_snoc, if_neg hne]
    exact (ih hmore).trans (Nat.le_add_right _ _)

/-- The counter counts, and the breaker is closed while it is below the threshold. -/
structure Counts (acts : List Action) (s : BreakerState) : Prop where
  failures : s.consecutiveFailures = failuresSince acts
  closed : s.mode = .closed ↔ s.consecutiveFailures < settings.failureThreshold

theorem Counts.step (h : Counts settings acts s)
    (a : Action) : Counts settings (acts ++ [a]) (step settings s a) := by
  obtain ⟨hfailures, hclosed⟩ := h
  cases a with
  | allow now =>
    have hsame : failuresSince (acts ++ [.allow now]) = failuresSince acts := by
      rw [failuresSince_snoc, if_neg nofun]
      rfl
    simp only [CircuitBreaker.step, CircuitBreaker.allow]
    cases hmode : s.mode with
    | closed => exact ⟨hfailures.trans hsame.symm, hclosed⟩
    | opened =>
      simp only
      split
      · have hhigh : ¬ s.consecutiveFailures < settings.failureThreshold := by
          simp [← hclosed, hmode]
        exact ⟨hfailures.trans hsame.symm, iff_of_false nofun hhigh⟩
      · exact ⟨hfailures.trans hsame.symm, hclosed⟩
    | halfOpen => exact ⟨hfailures.trans hsame.symm, hclosed⟩
  | recordSuccess =>
    exact ⟨by rw [failuresSince_snoc, if_pos rfl]; rfl, iff_of_true rfl settings.threshold_pos⟩
  | recordFailure now =>
    have hnext : failuresSince (acts ++ [.recordFailure now]) = s.consecutiveFailures + 1 := by
      rw [failuresSince_snoc, if_neg nofun, hfailures]
      rfl
    simp only [CircuitBreaker.step, recordFailure]
    split
    · next hopens =>
      refine ⟨hnext.symm, iff_of_false nofun fun hlow : s.consecutiveFailures + 1 < _ => ?_⟩
      rcases hopens with hhalf | hhigh
      · have := hclosed.mpr (by omega)
        rw [hhalf] at this
        cases this
      · omega
    · next hopens =>
      obtain ⟨hhalf, hhigh⟩ := not_or.mp hopens
      have hlow : s.consecutiveFailures + 1 < settings.failureThreshold := Nat.lt_of_not_le hhigh
      exact ⟨hnext.symm, iff_of_true (hclosed.mpr (by omega)) hlow⟩

theorem counts_after (acts : List Action) :
    Counts settings acts ((breaker settings).after acts) := by
  induction acts using List.reverseRecOn with
  | nil => exact ⟨rfl, iff_of_true rfl settings.threshold_pos⟩
  | append_singleton acts a ih =>
    rw [System.after_snoc]
    exact ih.step settings a

/-- A failed probe leaves the counter at the threshold or over it. -/
theorem closed_iff (acts : List Action) :
    ((breaker settings).after acts).mode = .closed ↔
      failuresSince acts < settings.failureThreshold ∧ ¬ ProbeFailed settings acts := by
  have hcounts := counts_after settings acts
  rw [hcounts.closed, hcounts.failures]
  refine (and_iff_left_of_imp fun hlow => ?_).symm
  rintro ⟨before, now, behind, rfl, hbehind, hhalf⟩
  have hbefore := counts_after settings before
  have hhigh : ¬ failuresSince before < settings.failureThreshold := by
    rw [← hbefore.failures, ← hbefore.closed, hhalf]
    exact nofun
  have hmore : .recordSuccess ∉ (.recordFailure now :: behind : List Action) := by
    simpa using hbehind
  exact hhigh ((failuresSince_append hmore).trans_lt hlow)

/-! ### The cool-off -/

theorem openedAt_recordFailure {now : ℚ}
    (h : (recordFailure settings now s).mode = .opened) (hs : s.mode ≠ .opened) :
    (recordFailure settings now s).openedAt = now := by
  simp only [recordFailure] at h ⊢
  split
  · rfl
  · next hstays =>
    rw [if_neg hstays] at h
    exact absurd h hs

/-- While the breaker stays open its clock only moves on. -/
theorem opening_le_openedAt {before since : List Action} {opening : ℚ}
    (h : OpenSince settings before opening since)
    (hclock : ∀ now ∈ since.filterMap Action.now?, opening ≤ now) :
    opening ≤ ((breaker settings).after (before ++ .recordFailure opening :: since)).openedAt := by
  induction since using List.reverseRecOn with
  | nil =>
    have hopened := h.2 [] [] rfl
    rw [System.after_snoc] at hopened ⊢
    exact (openedAt_recordFailure settings hopened h.1).ge
  | append_singleton since a ih =>
    have hfront : OpenSince settings before opening since :=
      ⟨h.1, fun front back heq => h.2 front (back ++ [a]) (by rw [heq, List.append_assoc])⟩
    have hstays := h.2 (since ++ [a]) [] (List.append_nil _).symm
    have hsince := ih hfront fun now hnow => hclock now (by simp [hnow])
    rw [← List.cons_append, ← List.append_assoc, System.after_snoc] at hstays ⊢
    generalize (breaker settings).after (before ++ .recordFailure opening :: since) = s
      at hsince hstays ⊢
    cases a with
    | allow now =>
      simp only [breaker, step, allow] at hstays ⊢
      cases hmode : s.mode with
      | closed => exact hsince
      | opened =>
        simp only
        split <;> exact hsince
      | halfOpen => exact hsince
    | recordSuccess => exact nomatch hstays
    | recordFailure now =>
      simp only [breaker, step, recordFailure]
      split
      · exact hclock now (by simp [Action.now?])
      · exact hsince

theorem cools_off (hclock : ClockForward acts) :
    CoolOffRule settings acts := by
  rintro before opening since now behind rfl hsince hallowed
  have hopening : ∀ t ∈ since.filterMap Action.now?, opening ≤ t := by
    simp only [ClockForward, List.filterMap_append, List.filterMap_cons, Action.now?] at hclock
    intro t ht
    exact (List.pairwise_cons.mp (List.pairwise_append.mp hclock).2.1).1 t
      (List.mem_append_left _ ht)
  have hopenedAt := opening_le_openedAt settings hsince hopening
  have hopened := hsince.2 since [] (List.append_nil _).symm
  simp only [allow, hopened] at hallowed
  split at hallowed
  · next hcool => linarith
  · cases hallowed

/-! ### The probe -/

/-- Nobody asks while the breaker is half open. -/
def notProbed (s : BreakerState) (a : Action) : Bool := !(a.isAllow && s.mode = .halfOpen)

/-- A half open breaker turned so at some call, and only calls followed. -/
theorem halfOpen_since (h : ((breaker settings).after acts).mode = .halfOpen) :
    ∃ before now calls, acts = before ++ .allow now :: calls ∧
      ((breaker settings).after before).mode = .opened ∧
      ((breaker settings).after (before ++ [.allow now])).mode = .halfOpen ∧
      ∀ a ∈ calls, a.isAllow = true := by
  induction acts using List.reverseRecOn with
  | nil => cases h
  | append_singleton acts a ih =>
    have hturned := h
    rw [System.after_snoc, breaker_step] at h
    cases a with
    | allow now =>
      cases hmode : ((breaker settings).after acts).mode with
      | closed => simp [step, allow, hmode] at h
      | opened => exact ⟨acts, now, [], rfl, hmode, hturned, nofun⟩
      | halfOpen =>
        obtain ⟨before, now', calls, rfl, hopened, hhalf, hcalls⟩ := ih hmode
        refine ⟨before, now', calls ++ [.allow now], by simp, hopened, hhalf, ?_⟩
        exact List.forall_mem_append.mpr ⟨hcalls, List.forall_mem_singleton.mpr rfl⟩
    | recordSuccess => cases h
    | recordFailure now =>
      simp only [step, recordFailure] at h
      split at h
      · cases h
      · next hstays => exact absurd (.inl h) hstays

theorem step_allow_of_halfOpen (h : s.mode = .halfOpen) {a : Action}
    (ha : a.isAllow = true) : step settings s a = s := by
  cases a with
  | allow now => simp [step, allow, h]
  | recordSuccess => cases ha
  | recordFailure now => cases ha

/-- Half open, every call gets through. -/
theorem allowed_of_halfOpen (h : s.mode = .halfOpen) {calls : List Action}
    (hcalls : ∀ a ∈ calls, a.isAllow = true) : allowed settings s calls = calls.length := by
  induction calls with
  | nil => rfl
  | cons a calls ih =>
    obtain ⟨ha, hcalls⟩ := List.forall_mem_cons.mp hcalls
    have hpasses : passes settings s a = true := by
      cases a with
      | allow now => simp [passes, allow, h]
      | recordSuccess | recordFailure now => cases ha
    rw [allowed, step_allow_of_halfOpen settings h ha, ih hcalls, hpasses, List.length_cons]
    exact Nat.add_comm ..

/-- The call that turns the breaker half open gets through. -/
theorem allowed_of_turn {now : ℚ} (hopened : s.mode = .opened)
    (hhalf : (step settings s (.allow now)).mode = .halfOpen) {calls : List Action}
    (hcalls : ∀ a ∈ calls, a.isAllow = true) :
    allowed settings s (.allow now :: calls) = 1 + calls.length := by
  rw [allowed, allowed_of_halfOpen settings hhalf hcalls]
  simp only [step, passes, allow, hopened] at hhalf ⊢
  split at hhalf
  · next hcool => simp [hcool]
  · rw [hopened] at hhalf
    cases hhalf

theorem probeRule_iff (acts : List Action) :
    ProbeRule settings acts ↔ (breaker settings).Admits (fun s a => notProbed s a = true) acts := by
  constructor
  · rintro h before a behind rfl
    by_contra hprobed
    obtain ⟨hallow, hhalf⟩ :
        a.isAllow = true ∧ ((breaker settings).after before).mode = .halfOpen := by
      simpa [notProbed] using hprobed
    obtain ⟨start, now, calls, rfl, hopened, hturned, hcalls⟩ := halfOpen_since settings hhalf
    have hmore : ∀ b ∈ calls ++ [a], b.isAllow = true :=
      List.forall_mem_append.mpr ⟨hcalls, List.forall_mem_singleton.mpr hallow⟩
    have hone := h start now (calls ++ [a]) behind (by simp) hopened hturned hmore
    rw [System.after_snoc] at hturned
    rw [allowed_of_turn settings hopened hturned hmore, List.length_append] at hone
    simp at hone
  · rintro h before now calls behind rfl hopened hturned hcalls
    cases calls with
    | nil =>
      rw [System.after_snoc] at hturned
      exact (allowed_of_turn settings hopened hturned hcalls).le
    | cons a calls =>
      have hnot := h (before ++ [.allow now]) a (calls ++ behind) (by simp)
      simp [notProbed, hcalls a (List.mem_cons_self ..), hturned] at hnot

/-- The breaker keeps to its rules in exactly the runs in which no call is made while it is
half open. -/
theorem disciplined_iff (acts : List Action) (hclock : ClockForward acts) :
    (ClosedRule settings acts ∧ CoolOffRule settings acts ∧ ProbeRule settings acts) ↔
      (breaker settings).Admits (fun s a => notProbed s a = true) acts := by
  rw [← probeRule_iff]
  constructor
  · exact fun h => h.2.2
  · exact fun h => ⟨fun before _ _ => closed_iff settings before, cools_off settings hclock, h⟩

/-- A failure, the cool-off, and one probe that succeeds. -/
theorem disciplined_one_probe :
    ClosedRule (.new 1 30) [.allow 0, .recordFailure 1, .allow 31, .recordSuccess] ∧
      CoolOffRule (.new 1 30) [.allow 0, .recordFailure 1, .allow 31, .recordSuccess] ∧
      ProbeRule (.new 1 30) [.allow 0, .recordFailure 1, .allow 31, .recordSuccess] := by
  refine (disciplined_iff (.new 1 30) _ ?_).mpr (System.admits_of_checks _ (by decide +kernel))
  rw [ClockForward]
  decide +kernel

/-- Two callers ask after the cool-off, and both get through. -/
theorem two_probes :
    ¬ (ClosedRule (.new 1 30) [.allow 0, .recordFailure 1, .allow 31, .allow 31] ∧
      CoolOffRule (.new 1 30) [.allow 0, .recordFailure 1, .allow 31, .allow 31] ∧
      ProbeRule (.new 1 30) [.allow 0, .recordFailure 1, .allow 31, .allow 31]) := by
  rintro ⟨-, -, h⟩
  have hone := h [.allow 0, .recordFailure 1] 31 [.allow 31] [] rfl (by decide +kernel)
    (by decide +kernel)
    (by decide)
  exact absurd hone (by decide +kernel)

end PiPlatform.Orchestrator.CircuitBreaker
