import PiPlatform.Library.Python.Value
import PiPlatform.Orchestrator.CircuitBreaker

/-! Retries of one step behind its circuit breaker.

What a call returns counts as a success only once its risk score has been read as a float, and
that is tried inside the same `try` as the call. A success without a readable score is thereby
an exception, and is called again. `disciplined_iff`: the retries are as promised exactly if
each call that is made has a score that can be read where it has a success, and nothing but an
`Exception` is raised, by the call or between two calls. -/
namespace PiPlatform.Orchestrator.Recovery

open Library Library.Json Library.Python CircuitBreaker

/-- What the interpreter does with floats and texts. -/
structure Interpreter (F : Type) where
  /-- None is an `OverflowError`. -/
  ofInt : Int → Option (Fl F)
  /-- None is a `ValueError`. -/
  ofText : Text → Option (Fl F)
  isZero : Fl F → Bool
  lt : Fl F → Fl F → Bool
  le : Fl F → Fl F → Bool
  add : Fl F → Fl F → Fl F
  mul : Fl F → Fl F → Fl F
  div : Fl F → Fl F → Fl F
  /-- None is an `OverflowError`. -/
  pow : Fl F → Nat → Option (Fl F)
  zero : Fl F
  one : Fl F
  thousand : Fl F
  str : Fl F → String
  repr : Text → String

structure RetryPolicy (F : Type) where
  maxRetries : Int
  backoffBaseMs : Fl F
  backoffMultiplier : Fl F
  maxBackoffMs : Fl F
  jitterMs : Fl F
  retryableRiskThreshold : Fl F
  retryOnException : Bool

/-- What a call of `step_fn` does. -/
inductive Answer (F : Type) where
  | returns (v : PyValue F)
  /-- An `Exception`: its type's name, and its text. -/
  | raises (name text : String)
  /-- A `BaseException` of another kind, such as `KeyboardInterrupt`. -/
  | interrupted

structure StepRecoveryResult (F : Type) where
  stepName : String
  success : Bool
  attempts : Nat
  totalDelayMs : Fl F
  lastOutput : Option (PyValue F)
  lastError : Option String
  breakerTripped : Bool

section Source
variable {F : Type} (I : Interpreter F)

/-- `bool(v)` -/
def truthy : PyValue F → Bool
  | .none => false
  | .bool b => b
  | .int i => i ≠ 0
  | .float x => !I.isZero x
  | .str s => !s.isEmpty
  | .list xs => !xs.isEmpty
  | .tuple xs => !xs.isEmpty
  | .set xs => !xs.isEmpty
  | .dict items => !items.isEmpty

def typeName : PyValue F → String
  | .none => "NoneType"
  | .bool _ => "bool"
  | .int _ => "int"
  | .float _ => "float"
  | .str _ => "str"
  | .list _ => "list"
  | .tuple _ => "tuple"
  | .set _ => "set"
  | .dict _ => "dict"

/-- `float(v)`, or how its exception is shown. -/
def toFloat : PyValue F → Except String (Fl F)
  | .bool b => .ok (if b then I.one else I.zero)
  | .int i => (I.ofInt i).elim (.error "OverflowError: int too large to convert to float") .ok
  | .float x => .ok x
  | .str s =>
    (I.ofText s).elim (.error ("ValueError: could not convert string to float: " ++ I.repr s)) .ok
  | v => .error ("TypeError: float() argument must be a string or a real number, not '" ++
      typeName v ++ "'")

/-- What the inside of the `try` comes to. -/
inductive Attempt (F : Type) where
  | succeeded (output : PyValue F)
  /-- The risk is at or above the threshold. -/
  | risky (output : PyValue F) (risk : Fl F)
  | unsuccessful (output : PyValue F)
  | failed (error : String)
  | interrupted

def field (key : String) (fallback : PyValue F) (items : List (Key × PyValue F)) : PyValue F :=
  (lookupItem (.str (ofString key)) items).getD fallback

/-- What an answer of the step comes to. -/
def attempt (policy : RetryPolicy F) : Answer F → Attempt F
  | .interrupted => .interrupted
  | .raises name text => .failed (name ++ ": " ++ text)
  | .returns v =>
    -- `step_fn() or {}`
    let lastOutput := if truthy I v then v else .dict []
    match lastOutput with
    | .dict items =>
      let ok := truthy I (field "success" .none items)
      match toFloat I (field "risk_score" (.float I.zero) items) with
      | .error e => .failed e
      | .ok risk =>
        if ok then .succeeded lastOutput
        else if I.le policy.retryableRiskThreshold risk then .risky lastOutput risk
        else .unsuccessful lastOutput
    | other =>
      .failed ("AttributeError: '" ++ typeName other ++ "' object has no attribute 'get'")

/-- With what the generator gave for the jitter; none is an `OverflowError`. -/
def RetryPolicy.computeDelayMs (policy : RetryPolicy F) (attempt : Nat) (jitter : Fl F) :
    Option (Fl F) := do
  let power ← I.pow policy.backoffMultiplier attempt
  let base := I.mul policy.backoffBaseMs power
  let capped := if I.lt policy.maxBackoffMs base then policy.maxBackoffMs else base
  let delay := I.add capped jitter
  some (if I.lt I.zero delay then delay else I.zero)

/-- What is given to a call: the answers of `step_fn`, the jitters, whether `sleep_fn` returns,
and the clock's readings. -/
structure World (F : Type) where
  answers : Nat → Answer F
  jitters : Nat → Fl F
  sleeps : Nat → Fl F → Bool
  asked : ℚ
  recorded : ℚ

/-- How the loop is left, with the number of calls. -/
inductive Exit (F : Type) where
  | succeeded (attempts : Nat) (totalDelay : Fl F) (output : PyValue F)
  | failed (attempts : Nat) (totalDelay : Fl F) (output : Option (PyValue F))
      (error : Option String)
  /-- Something is raised out of it. -/
  | raised (attempts : Nat)

variable (policy : RetryPolicy F) (w : World F)

/-- The delay after an attempt; none where one of the two calls raises. -/
def pause (attempt : Nat) : Option (Fl F) := do
  let delay ← policy.computeDelayMs I attempt (w.jitters attempt)
  if w.sleeps attempt (I.div delay I.thousand) then some delay else none

/-- The attempts that remain, from the one of that number. -/
def loop : Nat → Nat → Fl F → Option (PyValue F) → Option String → Exit F
  | 0, number, total, output, error => .failed number total output error
  | remaining + 1, number, total, _, error =>
    let again (output : Option (PyValue F)) (error : Option String) : Exit F :=
      -- there is no delay after the last attempt
      if remaining = 0 then loop remaining (number + 1) total output error
      else
        match pause I policy w number with
        | none => .raised (number + 1)
        | some delay => loop remaining (number + 1) (I.add total delay) output error
    match attempt I policy (w.answers number) with
    | .interrupted => .raised (number + 1)
    | .succeeded out => .succeeded (number + 1) total out
    | .risky out risk =>
      .failed (number + 1) total (some out)
        (some ("risk_score " ++ I.str risk ++ " >= threshold; not retrying"))
    | .failed e =>
      if policy.retryOnException then again none (some e)
      else .failed (number + 1) total none (some e)
    | .unsuccessful out => again (some out) error

/-- What is recorded at the breaker. -/
inductive Outcome where
  | success
  | failure
  deriving DecidableEq

/-- A call of `execute`: how often `step_fn` was called, what was returned if anything was,
what was recorded, and the breaker. -/
structure Run (F : Type) where
  calls : Nat
  result : Option (StepRecoveryResult F)
  outcomes : List Outcome
  breaker : BreakerState

/-- `max(1, self.policy.max_retries + 1)` -/
def RetryPolicy.maxAttempts (policy : RetryPolicy F) : Nat := (max 1 (policy.maxRetries + 1)).toNat

/-- What follows the loop. -/
def settle (settings : Settings) (stepName : String) (s : BreakerState) : Exit F → Run F
  | .raised calls => ⟨calls, none, [], s⟩
  | .succeeded attempts totalDelay output =>
    ⟨attempts, some ⟨stepName, true, attempts, totalDelay, some output, none, false⟩,
      [.success], recordSuccess s⟩
  | .failed attempts totalDelay output error =>
    let s' := recordFailure settings w.recorded s
    ⟨attempts, some ⟨stepName, false, attempts, totalDelay, output,
      -- it was not open before, or the call had not been allowed
      some (error.getD "step failed"), s'.mode = .opened⟩, [.failure], s'⟩

/-- `statusText` is how the breaker's status is shown. -/
def execute (statusText : BreakerState → String) (settings : Settings) (stepName : String)
    (s : BreakerState) : Run F :=
  let (allowed, s) := allow settings w.asked s
  if allowed then
    settle w settings stepName s (loop I policy w policy.maxAttempts 0 I.zero none none)
  else
    ⟨0, some ⟨stepName, false, 0, I.zero, none,
      some ("circuit_breaker_open: " ++ statusText s), true⟩, [], s⟩

end Source

/-! ### What is promised -/

section Rules
variable {F : Type} (I : Interpreter F) (policy : RetryPolicy F) (w : World F)

/-- A dictionary with a success that is true. -/
def Successful (a : Answer F) : Prop :=
  ∃ items, a = .returns (.dict items) ∧ truthy I (field "success" .none items) = true

/-- `calls` begins at the step's first. -/
structure Disciplined (settings : Settings) (s : BreakerState) (run : Run F) : Prop where
  called : 1 ≤ run.calls
  bounded : (run.calls : Int) ≤ max 1 (policy.maxRetries + 1)
  /-- It is not called again after a success. -/
  stopped : ∀ k, k + 1 < run.calls → ¬ Successful I (w.answers k)
  returned : ∃ result, run.result = some result ∧
    (result.success = true ↔ ∃ k < run.calls, Successful I (w.answers k)) ∧
    run.outcomes = [if result.success then .success else .failure] ∧
    run.breaker = if result.success then recordSuccess (allow settings w.asked s).2
      else recordFailure settings w.recorded (allow settings w.asked s).2

/-- After such an answer there is another call, if one is left. -/
def Retried (a : Answer F) : Prop :=
  match attempt I policy a with
  | .failed _ => policy.retryOnException = true
  | .unsuccessful _ => True
  | _ => False

/-- The risk score is read, or its default. -/
def Scored (items : List (Key × PyValue F)) : Prop :=
  ∃ risk, toFloat I (field "risk_score" (.float I.zero) items) = .ok risk

/-- No more than an `Exception`, and a success has a score that can be read. -/
def Readable (a : Answer F) : Prop :=
  a ≠ .interrupted ∧ ∀ items, a = .returns (.dict items) →
    truthy I (field "success" .none items) = true → Scored I items

/-- Each call that is made is readable, and the delay after it, if there is one, goes well. -/
def Careful : Prop :=
  ∀ k < policy.maxAttempts, (∀ j < k, Retried I policy (w.answers j)) →
    Readable I (w.answers k) ∧
      (Retried I policy (w.answers k) → k + 1 < policy.maxAttempts →
        ∃ delay, pause I policy w k = some delay)

end Rules

/-! ### One attempt -/

section Attempts
variable {F : Type} {I : Interpreter F} {policy : RetryPolicy F} {a : Answer F}

theorem truthy_dict {items : List (Key × PyValue F)}
    (h : truthy I (field "success" .none items) = true) : truthy I (.dict items) = true := by
  cases items with
  | nil => cases h
  | cons item items => rfl

/-- A success is acknowledged where it can be read; where not, it is an exception. -/
theorem attempt_cases (I : Interpreter F) (policy : RetryPolicy F) (a : Answer F) :
    a = .interrupted ∧ attempt I policy a = .interrupted ∨
    Successful I a ∧ Readable I a ∧ (∃ out, attempt I policy a = .succeeded out) ∨
    Successful I a ∧ ¬ Readable I a ∧ (∃ e, attempt I policy a = .failed e) ∨
    ¬ Successful I a ∧ Readable I a ∧ ((∃ out risk, attempt I policy a = .risky out risk) ∨
      (∃ e, attempt I policy a = .failed e) ∨ ∃ out, attempt I policy a = .unsuccessful out) := by
  have hreadable : a ≠ .interrupted → ¬ Successful I a → Readable I a := by
    intro hne hnot
    exact ⟨hne, fun items ha htrue => absurd ⟨items, ha, htrue⟩ hnot⟩
  cases a with
  | interrupted => exact .inl ⟨rfl, rfl⟩
  | raises name text =>
    have hnot : ¬ Successful I (.raises name text) := by
      rintro ⟨items, h, -⟩
      cases h
    exact .inr (.inr (.inr ⟨hnot, hreadable nofun hnot, .inr (.inl ⟨_, rfl⟩)⟩))
  | returns v =>
    by_cases hsuccess : Successful I (.returns v)
    · obtain ⟨items, hv, htrue⟩ := hsuccess
      obtain rfl := Answer.returns.inj hv
      have hread : Readable I (.returns (.dict items)) ↔ Scored I items := by
        constructor
        · exact fun h => h.2 items rfl htrue
        · refine fun h => ⟨nofun, fun items' h' _ => ?_⟩
          obtain rfl := PyValue.dict.inj (Answer.returns.inj h')
          exact h
      have hdict := truthy_dict htrue
      cases hrisk : toFloat I (field "risk_score" (.float I.zero) items) with
      | error e =>
        have hscored : ¬ Scored I items := by
          rintro ⟨risk, h⟩
          rw [hrisk] at h
          cases h
        refine .inr (.inr (.inl ⟨⟨items, rfl, htrue⟩, hread.not.mpr hscored, e, ?_⟩))
        simp only [attempt, hdict, if_true, hrisk]
      | ok risk =>
        refine .inr (.inl ⟨⟨items, rfl, htrue⟩, hread.mpr ⟨risk, hrisk⟩, .dict items, ?_⟩)
        simp only [attempt, hdict, if_true, hrisk, htrue]
    · refine .inr (.inr (.inr ⟨hsuccess, hreadable nofun hsuccess, ?_⟩))
      have hfalse : ∀ items, (if truthy I v then v else .dict []) = .dict items →
          truthy I (field "success" .none items) = false := by
        intro items hitems
        split at hitems
        · refine Bool.eq_false_iff.mpr fun htrue => hsuccess ⟨items, ?_, htrue⟩
          rw [hitems]
        · obtain rfl := PyValue.dict.inj hitems
          rfl
      rw [attempt]
      generalize (if truthy I v then v else PyValue.dict []) = output at hfalse ⊢
      cases output with
      | dict items =>
        simp only [hfalse items rfl]
        cases toFloat I (field "risk_score" (.float I.zero) items) with
        | error e => exact .inr (.inl ⟨e, rfl⟩)
        | ok risk =>
          simp only [Bool.false_eq_true, if_false]
          split
          · exact .inl ⟨_, _, rfl⟩
          · exact .inr (.inr ⟨_, rfl⟩)
      | _ => exact .inr (.inl ⟨_, rfl⟩)

end Attempts

/-! ### The loop -/

section Loop
variable {F : Type} {I : Interpreter F} {policy : RetryPolicy F} {w : World F}

def Exit.calls : Exit F → Nat
  | succeeded attempts _ _ => attempts
  | failed attempts _ _ _ => attempts
  | raised attempts => attempts

/-- Left with a success by the first call that was one, or with a failure as there was none. -/
def Orderly (I : Interpreter F) (w : World F) (first : Nat) : Exit F → Prop
  | .succeeded attempts _ _ => Successful I (w.answers (attempts - 1)) ∧
      ∀ k, first ≤ k → k + 1 < attempts → ¬ Successful I (w.answers k)
  | .failed attempts _ _ _ => ∀ k, first ≤ k → k < attempts → ¬ Successful I (w.answers k)
  | .raised _ => False

/-- `Careful`, from an attempt on. -/
def CarefulFrom (I : Interpreter F) (policy : RetryPolicy F) (w : World F)
    (remaining first : Nat) : Prop :=
  ∀ k < remaining, (∀ j < k, Retried I policy (w.answers (first + j))) →
    Readable I (w.answers (first + k)) ∧
      (Retried I policy (w.answers (first + k)) → k + 1 < remaining →
        ∃ delay, pause I policy w (first + k) = some delay)

theorem carefulFrom_succ {remaining first : Nat} :
    CarefulFrom I policy w (remaining + 1) first ↔ Readable I (w.answers first) ∧
      (Retried I policy (w.answers first) →
        (remaining ≠ 0 → ∃ delay, pause I policy w first = some delay) ∧
          CarefulFrom I policy w remaining (first + 1)) := by
  constructor
  · intro h
    obtain ⟨hread, hpause⟩ := h 0 (Nat.succ_pos _) (fun _ hj => absurd hj (Nat.not_lt_zero _))
    refine ⟨hread, fun hretried => ⟨fun hne => hpause hretried (by omega), ?_⟩⟩
    intro k hk hall
    rw [Nat.add_right_comm]
    refine (h (k + 1) (by omega) fun j hj => ?_).imp_right fun h hretried hlt =>
      h hretried (by omega)
    cases j with
    | zero => exact hretried
    | succ j =>
      have hj' := hall j (by omega)
      rwa [Nat.add_right_comm] at hj'
  · rintro ⟨hread, hrest⟩ k hk hall
    cases k with
    | zero =>
      exact ⟨hread, fun hretried hlt => (hrest hretried).1 (by omega)⟩
    | succ k =>
      have hretried := hall 0 (Nat.succ_pos k)
      have hnext := (hrest hretried).2 k (by omega) fun j hj => by
        have hj' := hall (j + 1) (by omega)
        rwa [Nat.add_right_comm]
      rw [Nat.add_right_comm] at hnext
      exact hnext.imp_right fun h hretried hlt => h hretried (by omega)

variable (remaining first : Nat) (total : Fl F) (output : Option (PyValue F))
  (error : Option String)

/-- What follows an attempt that is made again. -/
def next (I : Interpreter F) (policy : RetryPolicy F) (w : World F) : Exit F :=
  if remaining = 0 then loop I policy w remaining (first + 1) total output error
  else
    match pause I policy w first with
    | none => .raised (first + 1)
    | some delay => loop I policy w remaining (first + 1) (I.add total delay) output error

theorem loop_retried (h : Retried I policy (w.answers first)) : ∃ output' error',
    loop I policy w (remaining + 1) first total output error =
      next remaining first total output' error' I policy w := by
  rw [Retried] at h
  rw [loop]
  split at h
  · next e he =>
    simp only [he, if_pos h]
    exact ⟨none, some e, rfl⟩
  · next out hout =>
    simp only [hout]
    exact ⟨some out, error, rfl⟩
  · exact h.elim

/-- An answer that is no success and not called again ends the loop. -/
theorem loop_stopped (h : ¬ Retried I policy (w.answers first))
    (hattempt : (∃ out risk, attempt I policy (w.answers first) = .risky out risk) ∨
      (∃ e, attempt I policy (w.answers first) = .failed e) ∨
      ∃ out, attempt I policy (w.answers first) = .unsuccessful out) : ∃ output' error',
    loop I policy w (remaining + 1) first total output error =
      .failed (first + 1) total output' error' := by
  rw [Retried] at h
  rw [loop]
  rcases hattempt with ⟨out, risk, ha⟩ | ⟨e, ha⟩ | ⟨out, ha⟩
  · simp only [ha]
    exact ⟨_, _, rfl⟩
  · simp only [ha] at h ⊢
    rw [if_neg h]
    exact ⟨_, _, rfl⟩
  · simp only [ha, not_true_eq_false] at h

theorem calls_loop (I : Interpreter F) (policy : RetryPolicy F) (w : World F)
    (remaining first : Nat) (total : Fl F) (output : Option (PyValue F)) (error : Option String) :
    first ≤ (loop I policy w remaining first total output error).calls ∧
    (loop I policy w remaining first total output error).calls ≤ first + remaining ∧
    (0 < remaining → first < (loop I policy w remaining first total output error).calls) := by
  induction remaining generalizing first total output error with
  | zero => exact ⟨le_refl _, le_refl _, fun h => absurd h (Nat.lt_irrefl 0)⟩
  | succ remaining ih =>
    have hone : ∀ exit : Exit F, exit.calls = first + 1 → first ≤ exit.calls ∧
        exit.calls ≤ first + (remaining + 1) ∧ (0 < remaining + 1 → first < exit.calls) := by
      intro exit h
      omega
    by_cases hretried : Retried I policy (w.answers first)
    · obtain ⟨output', error', hloop⟩ := loop_retried remaining first total output error hretried
      rw [hloop, next]
      have hrest := ih (first + 1) total output' error'
      split
      · omega
      · cases pause I policy w first with
        | none => exact hone _ rfl
        | some delay =>
          have hrest := ih (first + 1) (I.add total delay) output' error'
          simp only
          omega
    · rcases attempt_cases I policy (w.answers first) with ⟨-, ha⟩ | ⟨-, -, out, ha⟩ |
        ⟨-, -, e, ha⟩ | ⟨-, -, ha⟩
      · rw [loop]
        simp only [ha]
        exact hone _ rfl
      · rw [loop]
        simp only [ha]
        exact hone _ rfl
      · obtain ⟨output', error', hloop⟩ :=
          loop_stopped remaining first total output error hretried (.inr (.inl ⟨e, ha⟩))
        exact hone _ (by rw [hloop]; rfl)
      · obtain ⟨output', error', hloop⟩ :=
          loop_stopped remaining first total output error hretried ha
        exact hone _ (by rw [hloop]; rfl)

/-- Nothing goes well any more after a success that was not acknowledged. -/
theorem not_orderly_of_successful (h : Successful I (w.answers first)) :
    ¬ Orderly I w first (loop I policy w remaining (first + 1) total output error) := by
  obtain ⟨hle, -, hlt⟩ := calls_loop I policy w remaining (first + 1)
    total output error
  intro horderly
  cases hexit : loop I policy w remaining (first + 1) total output error with
  | raised attempts =>
    rw [hexit] at horderly
    exact horderly
  | failed attempts total' output' error' =>
    rw [hexit] at horderly hle
    exact horderly first (le_refl _) hle h
  | succeeded attempts total' output' =>
    have hpos : 0 < remaining := by
      by_contra hzero
      obtain rfl : remaining = 0 := by omega
      cases hexit
    rw [hexit] at horderly hlt
    have hlt := hlt hpos
    simp only [Exit.calls] at hlt
    exact horderly.2 first (le_refl _) hlt h

/-- After an answer that is no success it is the rest that counts. -/
theorem orderly_succ (h : ¬ Successful I (w.answers first)) (exit : Exit F) :
    Orderly I w first exit ↔ Orderly I w (first + 1) exit := by
  have hsplit : ∀ k, first ≤ k → k = first ∨ first + 1 ≤ k := fun k hk => by omega
  cases exit with
  | raised attempts => exact Iff.rfl
  | failed attempts total output error =>
    constructor
    · exact fun horderly k hk => horderly k (by omega)
    · intro horderly k hk hlt
      rcases hsplit k hk with rfl | hk
      · exact h
      · exact horderly k hk hlt
  | succeeded attempts total output =>
    refine and_congr_right fun _ => ?_
    constructor
    · exact fun horderly k hk => horderly k (by omega)
    · intro horderly k hk hlt
      rcases hsplit k hk with rfl | hk
      · exact h
      · exact horderly k hk hlt

theorem orderly_iff : Orderly I w first (loop I policy w remaining first total output error) ↔
    CarefulFrom I policy w remaining first := by
  induction remaining generalizing first total output error with
  | zero =>
    exact iff_of_true (fun k hle hlt => absurd hlt (by omega)) fun k hk => absurd hk (by omega)
  | succ remaining ih =>
    rw [carefulFrom_succ]
    rcases attempt_cases I policy (w.answers first) with ⟨heq, ha⟩ | ⟨hsuccess, hread, out, ha⟩ |
      ⟨hsuccess, hread, e, ha⟩ | ⟨hnot, hread, ha⟩
    · refine iff_of_false ?_ fun h => h.1.1 heq
      rw [loop]
      simp only [ha]
      exact id
    · have hretried : ¬ Retried I policy (w.answers first) := by
        rw [Retried, ha]
        exact id
      refine iff_of_true ?_ ⟨hread, fun h => absurd h hretried⟩
      rw [loop]
      simp only [ha]
      exact ⟨hsuccess, fun k hle hlt => absurd hlt (by omega)⟩
    · refine iff_of_false ?_ fun h => hread h.1
      by_cases hretried : Retried I policy (w.answers first)
      · obtain ⟨output', error', hloop⟩ :=
          loop_retried remaining first total output error hretried
        rw [hloop, next]
        split
        · exact not_orderly_of_successful _ _ _ _ _ hsuccess
        · cases pause I policy w first with
          | none => exact id
          | some delay => exact not_orderly_of_successful _ _ _ _ _ hsuccess
      · obtain ⟨output', error', hloop⟩ :=
          loop_stopped remaining first total output error hretried (.inr (.inl ⟨e, ha⟩))
        rw [hloop]
        exact fun h => h first (le_refl _) (Nat.lt_succ_self _) hsuccess
    · by_cases hretried : Retried I policy (w.answers first)
      · obtain ⟨output', error', hloop⟩ :=
          loop_retried remaining first total output error hretried
        rw [hloop, orderly_succ _ hnot, next]
        by_cases hzero : remaining = 0
        · rw [if_pos hzero, ih]
          exact ⟨fun h => ⟨hread, fun _ => ⟨fun hne => absurd hzero hne, h⟩⟩,
            fun h => (h.2 hretried).2⟩
        · rw [if_neg hzero]
          cases hpause : pause I policy w first with
          | none =>
            refine iff_of_false id fun h => ?_
            obtain ⟨delay, hdelay⟩ := (h.2 hretried).1 hzero
            cases hdelay
          | some delay =>
            simp only
            rw [ih]
            exact ⟨fun h => ⟨hread, fun _ => ⟨fun _ => ⟨delay, rfl⟩, h⟩⟩,
              fun h => (h.2 hretried).2⟩
      · obtain ⟨output', error', hloop⟩ :=
          loop_stopped remaining first total output error hretried ha
        rw [hloop]
        refine iff_of_true (fun k hle hlt => ?_) ⟨hread, fun h => absurd h hretried⟩
        obtain rfl : k = first := by omega
        exact hnot

end Loop

/-! ### The call -/

section Calls
variable {F : Type} (I : Interpreter F) (policy : RetryPolicy F) (w : World F)

theorem maxAttempts_eq : (policy.maxAttempts : Int) = max 1 (policy.maxRetries + 1) := by
  rw [RetryPolicy.maxAttempts]
  omega

theorem disciplined_settle_iff {settings : Settings} {stepName : String} {s : BreakerState}
    {exit : Exit F} (hpos : 1 ≤ exit.calls) (hle : exit.calls ≤ policy.maxAttempts) :
    Disciplined I policy w settings s
        (settle w settings stepName (allow settings w.asked s).2 exit) ↔
      Orderly I w 0 exit := by
  have hmax := maxAttempts_eq policy
  have hbounded : (exit.calls : Int) ≤ max 1 (policy.maxRetries + 1) := by omega
  cases exit with
  | raised attempts =>
    refine iff_of_false (fun h => ?_) id
    obtain ⟨result, hresult, -⟩ := h.returned
    cases hresult
  | failed attempts total output error =>
    constructor
    · intro h k _ hk hsuccess
      obtain ⟨result, hresult, hiff, -⟩ := h.returned
      obtain rfl := Option.some.inj hresult
      exact Bool.false_ne_true (hiff.mpr ⟨k, hk, hsuccess⟩)
    · intro h
      refine ⟨hpos, hbounded, fun k hk => h k (Nat.zero_le k) (Nat.lt_of_succ_lt hk), _, rfl, ?_,
        rfl, rfl⟩
      refine iff_of_false Bool.false_ne_true ?_
      rintro ⟨k, hk, hsuccess⟩
      exact h k (Nat.zero_le k) hk hsuccess
  | succeeded attempts total output =>
    constructor
    · intro h
      obtain ⟨result, hresult, hiff, -⟩ := h.returned
      obtain rfl := Option.some.inj hresult
      obtain ⟨k, hk, hsuccess⟩ := hiff.mp rfl
      have hk : k < attempts := hk
      -- it was the last, or there had been no call after it
      have hlast : k = attempts - 1 := by
        by_contra hne
        exact h.stopped k (show k + 1 < attempts by omega) hsuccess
      exact ⟨hlast ▸ hsuccess, fun k _ hk => h.stopped k hk⟩
    · intro h
      have hpos : 1 ≤ attempts := hpos
      refine ⟨hpos, hbounded, fun k hk => h.2 k (Nat.zero_le k) hk, _, rfl, ?_, rfl, rfl⟩
      exact iff_of_true rfl ⟨attempts - 1, show attempts - 1 < attempts by omega, h.1⟩

/-- Where the breaker lets the call through, the retries are as promised exactly if each call
that is made can be read and each delay goes well. -/
theorem disciplined_retries_iff (statusText : BreakerState → String) (settings : Settings)
    (stepName : String) (s : BreakerState) (hallowed : (allow settings w.asked s).1 = true) :
    Disciplined I policy w settings s (execute I policy w statusText settings stepName s) ↔
      Careful I policy w := by
  have hcareful : Careful I policy w ↔ CarefulFrom I policy w policy.maxAttempts 0 := by
    simp only [Careful, CarefulFrom, Nat.zero_add]
  have hmax := maxAttempts_eq policy
  obtain ⟨-, hle, hpos⟩ := calls_loop I policy w policy.maxAttempts 0 I.zero none none
  have hexecute : execute I policy w statusText settings stepName s =
      settle w settings stepName (allow settings w.asked s).2
        (loop I policy w policy.maxAttempts 0 I.zero none none) := by
    rw [execute]
    exact if_pos hallowed
  rw [hexecute, hcareful, ← orderly_iff policy.maxAttempts 0 I.zero none none]
  exact disciplined_settle_iff I policy w (hpos (by omega)) (by omega)

end Calls

/-! ### A score that is none -/

section Scores

/-- Floats as the numbers they are, as far as two attempts need them. -/
def plain : Interpreter ℚ where
  ofInt i := some (.finite i)
  ofText _ := none
  isZero x := decide (x = .finite 0)
  lt x y := match x, y with
    | .finite x, .finite y => decide (x < y)
    | _, _ => false
  le x y := match x, y with
    | .finite x, .finite y => decide (x ≤ y)
    | _, _ => false
  add x y := match x, y with
    | .finite x, .finite y => .finite (x + y)
    | _, _ => .nan
  mul x y := match x, y with
    | .finite x, .finite y => .finite (x * y)
    | _, _ => .nan
  div x y := match x, y with
    | .finite x, .finite y => .finite (x / y)
    | _, _ => .nan
  pow x n := match x with
    | .finite x => some (.finite (x ^ n))
    | x => some x
  zero := .finite 0
  one := .finite 1
  thousand := .finite 1000
  str _ := "0.0"
  repr _ := ""

/-- With the default settings, but one retry. -/
def oneRetry : RetryPolicy ℚ where
  maxRetries := 1
  backoffBaseMs := .finite 100
  backoffMultiplier := .finite 2
  maxBackoffMs := .finite 5000
  jitterMs := .finite 50
  retryableRiskThreshold := .finite 90
  retryOnException := true

/-- A step that succeeds, with that risk score. -/
def succeedingWith (riskScore : PyValue ℚ) : World ℚ where
  answers _ := .returns (.dict [(.str (ofString "success"), .bool true),
    (.str (ofString "risk_score"), riskScore)])
  jitters _ := .finite 0
  sleeps _ _ := true
  asked := 0
  recorded := 1

def closed : BreakerState := ⟨0, 0, .closed⟩

/-- With a score there is one call. -/
theorem disciplined_scored : Disciplined plain oneRetry (succeedingWith (.float (.finite 10)))
    (.new 5 30) closed
    (execute plain oneRetry (succeedingWith (.float (.finite 10))) (fun _ => "") (.new 5 30)
      "scan" closed) := by
  refine (disciplined_retries_iff plain oneRetry _ (fun _ => "") (.new 5 30) "scan" closed
    rfl).mpr fun k _ _ => ⟨⟨nofun, fun items h _ => ⟨.finite 10, ?_⟩⟩, fun hretried => ?_⟩
  · obtain rfl := PyValue.dict.inj (Answer.returns.inj h)
    rfl
  · exact (show False from hretried).elim

/-- With none for a score there is a second call after the success, and a failure. -/
theorem not_disciplined_unscored : ¬ Disciplined plain oneRetry (succeedingWith .none)
    (.new 5 30) closed
    (execute plain oneRetry (succeedingWith .none) (fun _ => "") (.new 5 30) "scan" closed) := by
  intro h
  refine h.stopped 0 (by decide +kernel) ⟨_, rfl, ?_⟩
  decide +kernel

end Scores

end PiPlatform.Orchestrator.Recovery
