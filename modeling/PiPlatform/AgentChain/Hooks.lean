import PiPlatform.AgentChain.GovernanceKernel
import PiPlatform.Library.StableSort
import Mathlib.Data.List.Perm.Basic
import Mathlib.Data.Prod.Lex

/-! The hook registry.

An emission runs the hooks of the entries that match, one after another, up to the first that
blocks. Three things are not as the attributes of a hook say. No one looks at `if_filter`. A
standard output that is JSON but no object makes the emission raise. And the hooks that are to
run once are removed at the end only, which a later block does not come to.

`hooks_contract`: emissions keep their contract exactly when no hook that is reached has a
filter that does not match, or answers with JSON that is no object; and then a hook that is to
run once passes once, if no block follows it in its emission. -/
namespace PiPlatform.AgentChain.Hooks

open Library Library.Json Library.Python
open Governance (keyOf text Items)

variable {F : Type}

inductive HookEventType where
  | preToolUse | postToolUse | userPromptSubmit | subagentStop | notification | stop | preCompact
  | asyncRewake
  deriving DecidableEq

/-- A hook object: `ident` tells apart those that look alike. -/
structure Hook where
  ident : Nat
  ifFilter : Option String
  once : Bool
  deriving DecidableEq

structure HookEntry where
  eventType : HookEventType
  matcher : Option String
  hooks : List Hook
  deriving DecidableEq

structure HookOutput where
  stdout : String
  stderr : String
  exitCode : Int
  deriving DecidableEq

/-- What `execute` comes to. -/
inductive Answer where
  | raised (message : String)
  | returned (output : HookOutput)
  deriving DecidableEq

def Answer.output : Answer → HookOutput
  | raised message => ⟨"", message, -1⟩
  | returned output => output

inductive Behavior where
  | allow | block | modify
  deriving DecidableEq

structure HookResult (F : Type) where
  behavior : Behavior
  reason : PyValue F
  output : Option HookOutput

/-- `fnmatch.fnmatch(signature, pattern)` -/
abbrev Fnmatch := String → String → Bool

/-- Where a hook stands: its entry, and its place there. -/
abbrev Position := Nat × Nat

/-- A call of `emit`: of the payload, the tool and the texts of its input's values, and what the
hooks answer in this emission. -/
structure Emission where
  eventType : HookEventType
  toolName : String
  toolInput : List String
  answers : Position → Answer

/-- `_build_signature`, without a tool the empty text. -/
def Emission.signature (e : Emission) : String :=
  if e.toolName = "" then ""
  else e.toolName ++ "(" ++ " ".intercalate e.toolInput ++ ")"

section Emit
variable (fnmatch : Fnmatch)

/-- `_matches` -/
def isMatch (signature : String) (pattern : Option String) : Bool :=
  pattern.all (fnmatch signature)

/-- The hooks of the entries that match, in registration order. -/
def matched (entries : List HookEntry) (e : Emission) : List (Position × Hook) :=
  entries.zipIdx.flatMap fun entry =>
    if entry.1.eventType = e.eventType ∧ isMatch fnmatch e.signature entry.1.matcher = true then
      entry.1.hooks.zipIdx.map fun hook => ((entry.2, hook.2), hook.1)
    else []

/-- What an emission has gathered so far. -/
structure Pending (F : Type) where
  behavior : Behavior
  reason : PyValue F
  output : Option HookOutput
  hooksToRemove : List Position

/-- Where an emission is after a hook. -/
inductive Progress (F : Type) where
  | blocked (result : HookResult F)
  /-- `AttributeError`: what was parsed has no `get`. -/
  | raised
  | going (pending : Pending F)

variable [FloatCodec F]

/-- The value of a standard output that is JSON. -/
def parsed? (output : HookOutput) : Option (PyValue F) :=
  if output.stdout = "" then none
  else
    match loads output.stdout with
    | .ok parsed => some parsed
    | .error _ => none

/-- `parsed.get(key, default)` -/
def get (parsed : Items F) (key : String) (default : String) : PyValue F :=
  (lookupItem (keyOf key) parsed).getD (text default)

/-- `value == "word"` -/
def isText (value : PyValue F) (word : String) : Bool :=
  match value with
  | .str s => s = ofString word
  | _ => false

/-- One hook, executed. -/
def handle (position : Position) (hook : Hook) (answer : Answer) (pending : Pending F) :
    Progress F :=
  let output := answer.output
  let keep (pending : Pending F) : Progress F :=
    .going { pending with
      output := some output
      hooksToRemove := pending.hooksToRemove ++ if hook.once then [position] else [] }
  if output.exitCode ≠ 0 then
    let reason := if output.stderr = "" then "exit_code=" ++ toString output.exitCode
      else output.stderr
    .blocked ⟨.block, text reason, some output⟩
  else
    match parsed? output with
    | none => keep pending
    | some (.dict parsed) =>
      let decision := get parsed "decision" "allow"
      if isText decision "block" then
        .blocked ⟨.block, get parsed "reason" "hook blocked", some output⟩
      else if isText decision "modify" then
        keep { pending with behavior := .modify, reason := get parsed "reason" "" }
      else keep pending
    | some _ => .raised

/-- The hooks one after another: where that leads, and which were executed. -/
def runHooks (answers : Position → Answer) :
    List (Position × Hook) → Pending F → Progress F × List (Position × Hook)
  | [], pending => (.going pending, [])
  | (position, hook) :: rest, pending =>
    match handle position hook (answers position) pending with
    | .going pending =>
      let (progress, executed) := runHooks answers rest pending
      (progress, (position, hook) :: executed)
    | progress => (progress, [(position, hook)])

/-- `entries[ei].hooks.pop(hi)` -/
def popHook (entries : List HookEntry) (p : Position) : List HookEntry :=
  entries.modify p.1 fun entry => { entry with hooks := entry.hooks.eraseIdx p.2 }

/-- In reverse order, so that indices stay valid; empty entries go then. -/
def cleanUp (entries : List HookEntry) (hooksToRemove : List Position) : List HookEntry :=
  ((sortBy (fun p => OrderDual.toDual (toLex p)) hooksToRemove).foldl popHook entries).filter
    fun entry => entry.hooks ≠ []

/-- What an emission comes to: the result or the exception, the entries afterwards, and the
hooks that were executed. -/
structure Emitted (F : Type) where
  outcome : Except Unit (HookResult F)
  entries : List HookEntry
  executed : List (Position × Hook)

/-- The hooks that match are run by priority, and those that run once are then removed. -/
def emit (entries : List HookEntry) (e : Emission) : Emitted F :=
  match runHooks e.answers (matched fnmatch entries e) ⟨.allow, text "", none, []⟩ with
  | (.blocked result, executed) => ⟨.ok result, entries, executed⟩
  | (.raised, executed) => ⟨.error (), entries, executed⟩
  | (.going pending, executed) =>
    ⟨.ok ⟨pending.behavior, pending.reason, pending.output⟩,
      cleanUp entries pending.hooksToRemove, executed⟩

end Emit

/-! ### Runs -/

/-- The entries, and for the record every hook that was executed, with its answer. -/
structure State where
  entries : List HookEntry
  history : List (Hook × Answer)

inductive Action where
  | register (eventType : HookEventType) (matcher : Option String) (hooks : List Hook)
  | emit (e : Emission)

/-- The hooks that the run registers, one after another. -/
def registered : List Action → List Hook
  | [] => []
  | .register _ _ hooks :: acts => hooks ++ registered acts
  | .emit _ :: acts => registered acts

theorem registered_append (acts more : List Action) :
    registered (acts ++ more) = registered acts ++ registered more := by
  induction acts with
  | nil => rfl
  | cons a acts ih => cases a <;> simp [registered, ih]

section Answers
variable (F) [FloatCodec F]

/-- A non-zero exit code, an exception, or a decision to block. -/
def Answer.blocks (a : Answer) : Bool :=
  a.output.exitCode ≠ 0 ||
    match (parsed? a.output : Option (PyValue F)) with
    | some (.dict parsed) => isText (get parsed "decision" "allow") "block"
    | _ => false

/-- JSON that is no object. -/
def Answer.shapeless (a : Answer) : Bool :=
  a.output.exitCode = 0 &&
    match (parsed? a.output : Option (PyValue F)) with
    | none | some (.dict _) => false
    | some _ => true

variable (fnmatch : Fnmatch)

def hookBus : System State Action where
  initial := ⟨[], []⟩
  step s
    | .register eventType matcher hooks =>
      { s with entries := s.entries ++ [⟨eventType, matcher, hooks⟩] }
    | .emit e =>
      let emitted : Emitted F := emit fnmatch s.entries e
      { entries := emitted.entries
        history := s.history ++ emitted.executed.map fun p => (p.2, e.answers p.1) }

/-- Up to and including the first that stops. -/
def upTo {α : Type} (stops : α → Bool) : List α → List α
  | [] => []
  | x :: xs => x :: if stops x then [] else upTo stops xs

/-- The hooks whose filters match, too. -/
def selected (entries : List HookEntry) (e : Emission) : List (Position × Hook) :=
  (matched fnmatch entries e).filter fun p => isMatch fnmatch e.signature p.2.ifFilter

/-- What an emission promises. -/
structure Obeys (entries : List HookEntry) (e : Emission) : Prop where
  returns : ∃ result, (emit fnmatch entries e : Emitted F).outcome = .ok result
  executes : (emit fnmatch entries e : Emitted F).executed =
    upTo (fun p => (e.answers p.1).blocks F) (selected fnmatch entries e)
  blocks_iff : ∀ result, (emit fnmatch entries e : Emitted F).outcome = .ok result →
    (result.behavior = .block ↔
      ∃ p ∈ (emit fnmatch entries e : Emitted F).executed, (e.answers p.1).blocks F = true)

/-- The hooks that an emission reaches: up to the first that blocks or answers with JSON that
is no object. -/
def reached (entries : List HookEntry) (e : Emission) : List (Position × Hook) :=
  upTo (fun p => (e.answers p.1).blocks F || (e.answers p.1).shapeless F)
    (matched fnmatch entries e)

/-- The filters of the hooks that are reached match, and their answers are no JSON but objects. -/
def Plain (entries : List HookEntry) (e : Emission) : Prop :=
  ∀ p ∈ reached F fnmatch entries e, isMatch fnmatch e.signature p.2.ifFilter = true ∧
    (e.answers p.1).shapeless F = false

/-- No block follows a hook that is to run once. -/
def Unblocked (entries : List HookEntry) (e : Emission) : Prop :=
  (∀ p ∈ reached F fnmatch entries e, (e.answers p.1).blocks F = false) ∨
    ∀ p ∈ reached F fnmatch entries e, p.2.once = true → (e.answers p.1).blocks F = true

instance (entries : List HookEntry) (e : Emission) : Decidable (Plain F fnmatch entries e) :=
  inferInstanceAs (Decidable (∀ p ∈ reached F fnmatch entries e, _))

instance (entries : List HookEntry) (e : Emission) : Decidable (Unblocked F fnmatch entries e) :=
  inferInstanceAs (Decidable ((∀ p ∈ reached F fnmatch entries e, _) ∨
    ∀ p ∈ reached F fnmatch entries e, _))

/-- The rule for the emissions of a run. -/
def OnEmissions (Rule : List HookEntry → Emission → Prop) (s : State) : Action → Prop
  | .register .. => True
  | .emit e => Rule s.entries e

instance (Rule : List HookEntry → Emission → Prop) [∀ entries e, Decidable (Rule entries e)]
    (s : State) : (a : Action) → Decidable (OnEmissions Rule s a)
  | .register .. => inferInstanceAs (Decidable True)
  | .emit e => inferInstanceAs (Decidable (Rule s.entries e))

/-- How often a hook was executed and did not block. -/
def passes (history : List (Hook × Answer)) (hook : Hook) : Nat :=
  history.countP fun p => p.1 = hook && !p.2.blocks F

end Answers

/-! ### One emission -/

section UpTo
variable {α : Type} {stops stops' p : α → Bool} {xs : List α}

theorem upTo_congr (h : ∀ x ∈ upTo stops xs, p x = true ∧ stops' x = stops x) :
    upTo stops' (xs.filter p) = upTo stops xs := by
  induction xs with
  | nil => rfl
  | cons x xs ih =>
    rw [upTo] at h ⊢
    obtain ⟨hp, hstops⟩ := h x (List.mem_cons_self ..)
    rw [List.filter_cons_of_pos hp, upTo, hstops]
    by_cases hx : stops x = true
    · rw [if_pos hx, if_pos hx]
    · rw [if_neg hx] at h
      rw [if_neg hx, if_neg hx, ih fun y hy => h y (List.mem_cons_of_mem _ hy)]

theorem upTo_of_forall (h : ∀ x ∈ upTo stops xs, stops x = false) : upTo stops xs = xs := by
  induction xs with
  | nil => rfl
  | cons x xs ih =>
    rw [upTo] at h ⊢
    have hx := h x (List.mem_cons_self ..)
    simp only [hx, Bool.false_eq_true, if_false] at h ⊢
    rw [ih fun y hy => h y (List.mem_cons_of_mem _ hy)]

theorem mem_of_mem_upTo {x : α} (h : x ∈ upTo stops xs) : x ∈ xs := by
  induction xs with
  | nil => exact h
  | cons y xs ih =>
    rw [upTo] at h
    split at h
    · exact List.mem_cons.mpr ((List.mem_cons.mp h).imp_right fun h => by cases h)
    · exact List.mem_cons.mpr ((List.mem_cons.mp h).imp_right ih)

end UpTo

section Answered
variable [FloatCodec F] {a : Answer} (position : Position) (hook : Hook) (pending : Pending F)

theorem not_shapeless_of_blocks (h : a.blocks F = true) : a.shapeless F = false := by
  rw [Answer.blocks] at h
  rw [Answer.shapeless]
  by_cases hexit : a.output.exitCode = 0
  · simp only [hexit, ne_eq, not_true_eq_false, decide_false, Bool.false_or] at h
    split at h
    · next heq => simp [heq]
    · cases h
  · simp [hexit]

theorem handle_of_blocks (h : a.blocks F = true) :
    ∃ result, handle position hook a pending = .blocked result ∧ result.behavior = .block := by
  rw [Answer.blocks] at h
  rw [handle]
  by_cases hexit : a.output.exitCode = 0
  · simp only [hexit, ne_eq, not_true_eq_false, decide_false, Bool.false_or] at h
    split at h
    · next parsed heq => simp [hexit, heq, h]
    · cases h
  · simp [hexit]

theorem handle_of_shapeless (h : a.shapeless F = true) :
    handle position hook a pending = .raised := by
  rw [Answer.shapeless] at h
  rw [handle]
  by_cases hexit : a.output.exitCode = 0
  · simp only [hexit, decide_true, Bool.true_and] at h
    split at h
    · cases h
    · cases h
    · next parsed hnot heq => cases parsed <;> simp_all
  · simp [hexit] at h

/-- A hook that neither blocks nor makes the emission raise. -/
theorem handle_going (hblocks : a.blocks F = false) (hshape : a.shapeless F = false) :
    ∃ next, handle position hook a pending = .going next ∧
      next.hooksToRemove = pending.hooksToRemove ++ (if hook.once then [position] else []) ∧
      (pending.behavior ≠ .block → next.behavior ≠ .block) := by
  rw [Answer.blocks, Bool.or_eq_false_iff] at hblocks
  have hexit : a.output.exitCode = 0 := by simpa using hblocks.1
  have hblock := hblocks.2
  simp only [Answer.shapeless, hexit, decide_true, Bool.true_and] at hshape
  rw [handle]
  simp only [hexit, ne_eq, not_true_eq_false, if_false]
  split at hshape
  · exact ⟨_, rfl, rfl, id⟩
  · next parsed heq =>
    simp only [heq] at hblock
    simp only [hblock, Bool.false_eq_true, if_false]
    split
    · exact ⟨_, rfl, rfl, fun _ => by simp⟩
    · exact ⟨_, rfl, rfl, id⟩
  · cases hshape

/-- What a hook does. -/
theorem handle_cases (a : Answer) :
    (a.blocks F = true ∧ a.shapeless F = false ∧
      ∃ result, handle position hook a pending = .blocked result ∧ result.behavior = .block) ∨
    (a.blocks F = false ∧ a.shapeless F = true ∧ handle position hook a pending = .raised) ∨
    (a.blocks F = false ∧ a.shapeless F = false ∧
      ∃ next, handle position hook a pending = .going next ∧
        next.hooksToRemove = pending.hooksToRemove ++ (if hook.once then [position] else []) ∧
        (pending.behavior ≠ .block → next.behavior ≠ .block)) := by
  cases hblocks : a.blocks F with
  | true => exact .inl ⟨rfl, not_shapeless_of_blocks hblocks, handle_of_blocks _ _ _ hblocks⟩
  | false =>
    cases hshape : a.shapeless F with
    | true => exact .inr (.inl ⟨rfl, rfl, handle_of_shapeless _ _ _ hshape⟩)
    | false => exact .inr (.inr ⟨rfl, rfl, handle_going _ _ _ hblocks hshape⟩)

end Answered

section Run
variable [FloatCodec F] (answers : Position → Answer)

theorem runHooks_executed (xs : List (Position × Hook)) (pending : Pending F) :
    (runHooks answers xs pending).2 =
      upTo (fun p => (answers p.1).blocks F || (answers p.1).shapeless F) xs := by
  induction xs generalizing pending with
  | nil => rfl
  | cons x xs ih =>
    obtain ⟨position, hook⟩ := x
    rw [runHooks, upTo]
    obtain ⟨hblocks, -, result, hhandle, -⟩ | ⟨hblocks, hshape, hhandle⟩ |
      ⟨hblocks, hshape, next, hhandle, -⟩ := handle_cases position hook pending (answers position)
    · simp [hhandle, hblocks]
    · simp [hhandle, hblocks, hshape]
    · simp [hhandle, hblocks, hshape, ih]

/-- Where an emission ends, and after which hooks. -/
inductive Ran (pending : Pending F) : Progress F × List (Position × Hook) → Prop where
  | blocked {result executed} (behavior : result.behavior = .block)
      (blocks : ∃ p ∈ executed, (answers p.1).blocks F = true)
      (shaped : ∀ p ∈ executed, (answers p.1).shapeless F = false) :
      Ran pending (.blocked result, executed)
  | raised {executed} (shapeless : ∃ p ∈ executed, (answers p.1).shapeless F = true) :
      Ran pending (.raised, executed)
  | going {next executed} (unblocked : ∀ p ∈ executed, (answers p.1).blocks F = false)
      (shaped : ∀ p ∈ executed, (answers p.1).shapeless F = false)
      (removes : next.hooksToRemove =
        pending.hooksToRemove ++ (executed.filter fun p => p.2.once).map (·.1))
      (behavior : pending.behavior ≠ .block → next.behavior ≠ .block) :
      Ran pending (.going next, executed)

theorem ran (xs : List (Position × Hook)) (pending : Pending F) :
    Ran answers pending (runHooks answers xs pending) := by
  induction xs generalizing pending with
  | nil => exact .going (by simp) (by simp) (by simp) id
  | cons x xs ih =>
    obtain ⟨position, hook⟩ := x
    rw [runHooks]
    obtain ⟨hblocks, hshape, result, hhandle, hbehavior⟩ | ⟨hblocks, hshape, hhandle⟩ |
      ⟨hblocks, hshape, next, hhandle, hremoves, hbehavior⟩ :=
        handle_cases position hook pending (answers position)
    · simp only [hhandle]
      exact .blocked hbehavior ⟨_, List.mem_singleton_self _, hblocks⟩ (by simpa using hshape)
    · simp only [hhandle]
      exact .raised ⟨_, List.mem_singleton_self _, hshape⟩
    · simp only [hhandle]
      have hrest := ih next
      rcases hrun : runHooks answers xs next with ⟨progress, executed⟩
      rw [hrun] at hrest
      cases hrest with
      | blocked behavior blocks shaped =>
        obtain ⟨p, hp, hpblocks⟩ := blocks
        exact .blocked behavior ⟨p, List.mem_cons_of_mem _ hp, hpblocks⟩
          (List.forall_mem_cons.mpr ⟨hshape, shaped⟩)
      | raised shapeless =>
        obtain ⟨p, hp, hpshape⟩ := shapeless
        exact .raised ⟨p, List.mem_cons_of_mem _ hp, hpshape⟩
      | going unblocked shaped removes behavior =>
        refine .going (List.forall_mem_cons.mpr ⟨hblocks, unblocked⟩)
          (List.forall_mem_cons.mpr ⟨hshape, shaped⟩) ?_ (behavior ∘ hbehavior)
        rw [removes, hremoves]
        cases honce : hook.once <;> simp [honce]

end Run

section Emission
variable [FloatCodec F] {fnmatch : Fnmatch} {entries : List HookEntry} {e : Emission}

theorem emit_executed :
    (emit fnmatch entries e : Emitted F).executed = reached F fnmatch entries e := by
  rw [reached, ← runHooks_executed e.answers _ ⟨.allow, text "", none, []⟩, emit]
  rcases hrun : runHooks e.answers (matched fnmatch entries e)
    (⟨.allow, text "", none, []⟩ : Pending F) with ⟨progress, executed⟩
  cases progress <;> rfl

/-- What an emission comes to, by the hooks it reaches. -/
theorem emit_cases (fnmatch : Fnmatch) (entries : List HookEntry) (e : Emission) :
    ((∃ result, (emit fnmatch entries e : Emitted F).outcome = .ok result ∧
        result.behavior = .block) ∧
      (∃ p ∈ reached F fnmatch entries e, (e.answers p.1).blocks F = true) ∧
      (∀ p ∈ reached F fnmatch entries e, (e.answers p.1).shapeless F = false) ∧
      (emit fnmatch entries e : Emitted F).entries = entries) ∨
    ((emit fnmatch entries e : Emitted F).outcome = .error () ∧
      (∃ p ∈ reached F fnmatch entries e, (e.answers p.1).shapeless F = true) ∧
      (emit fnmatch entries e : Emitted F).entries = entries) ∨
    ((∃ result, (emit fnmatch entries e : Emitted F).outcome = .ok result ∧
        result.behavior ≠ .block) ∧
      (∀ p ∈ reached F fnmatch entries e, (e.answers p.1).blocks F = false) ∧
      (∀ p ∈ reached F fnmatch entries e, (e.answers p.1).shapeless F = false) ∧
      (emit fnmatch entries e : Emitted F).entries =
        cleanUp entries (((matched fnmatch entries e).filter fun p => p.2.once).map (·.1))) := by
  have hexecuted := runHooks_executed e.answers (matched fnmatch entries e)
    (⟨.allow, text "", none, []⟩ : Pending F)
  have hran := ran e.answers (matched fnmatch entries e)
    (⟨.allow, text "", none, []⟩ : Pending F)
  rw [emit, reached]
  rcases hrun : runHooks e.answers (matched fnmatch entries e)
    (⟨.allow, text "", none, []⟩ : Pending F) with ⟨progress, executed⟩
  rw [hrun] at hran hexecuted
  subst hexecuted
  cases hran with
  | blocked behavior blocks shaped => exact .inl ⟨⟨_, rfl, behavior⟩, blocks, shaped, rfl⟩
  | raised shapeless => exact .inr (.inl ⟨rfl, shapeless, rfl⟩)
  | going unblocked shaped removes behavior =>
    refine .inr (.inr ⟨⟨_, rfl, behavior (by simp)⟩, unblocked, shaped, ?_⟩)
    rw [upTo_of_forall fun p hp => by rw [unblocked p hp, shaped p hp, Bool.or_self]] at removes
    simp only [removes, List.nil_append]

theorem obeys_iff : Obeys F fnmatch entries e ↔ Plain F fnmatch entries e := by
  constructor
  · intro h p hp
    obtain ⟨result, hreturns⟩ := h.returns
    have hselected : p ∈ selected fnmatch entries e := by
      have hexecutes := h.executes
      rw [emit_executed] at hexecutes
      rw [hexecutes] at hp
      exact mem_of_mem_upTo hp
    refine ⟨(List.mem_filter.mp hselected).2, ?_⟩
    obtain ⟨-, -, hshaped, -⟩ | ⟨hraised, -, -⟩ | ⟨-, -, hshaped, -⟩ :=
      emit_cases (F := F) fnmatch entries e
    · exact hshaped p hp
    · rw [hraised] at hreturns
      cases hreturns
    · exact hshaped p hp
  · intro h
    have hexecutes : reached F fnmatch entries e =
        upTo (fun p => (e.answers p.1).blocks F) (selected fnmatch entries e) :=
      (upTo_congr fun p hp => ⟨(h p hp).1, by rw [(h p hp).2, Bool.or_false]⟩).symm
    obtain ⟨⟨result, houtcome, hblock⟩, hblocks, -, -⟩ | ⟨-, ⟨p, hp, hshape⟩, -⟩ |
      ⟨⟨result, houtcome, hblock⟩, hblocks, -, -⟩ :=
        emit_cases (F := F) fnmatch entries e
    · refine ⟨⟨result, houtcome⟩, emit_executed.trans hexecutes, fun result' houtcome' => ?_⟩
      obtain rfl := Except.ok.inj (houtcome.symm.trans houtcome')
      rw [emit_executed]
      exact iff_of_true hblock hblocks
    · rw [(h p hp).2] at hshape
      cases hshape
    · refine ⟨⟨result, houtcome⟩, emit_executed.trans hexecutes, fun result' houtcome' => ?_⟩
      obtain rfl := Except.ok.inj (houtcome.symm.trans houtcome')
      rw [emit_executed]
      refine iff_of_false hblock ?_
      rintro ⟨p, hp, hpblocks⟩
      rw [hblocks p hp] at hpblocks
      cases hpblocks

end Emission

/-! ### The hooks that are to run once -/

/-- Every hook that stands in an entry. -/
def allHooks (entries : List HookEntry) : List Hook := entries.flatMap (·.hooks)

def hookAt (entries : List HookEntry) (p : Position) : Option Hook :=
  entries[p.1]?.bind fun entry => entry.hooks[p.2]?

section Positions
variable {entries : List HookEntry} {p q : Position} {hook : Hook}

theorem popHook_perm (h : hookAt entries p = some hook) :
    (allHooks entries).Perm (hook :: allHooks (popHook entries p)) := by
  obtain ⟨i, j⟩ := p
  induction entries generalizing i with
  | nil => simp [hookAt] at h
  | cons entry entries ih =>
    cases i with
    | zero =>
      have hj : entry.hooks[j]? = some hook := by simpa [hookAt] using h
      obtain ⟨hlt, rfl⟩ := List.getElem?_eq_some_iff.mp hj
      have hpop : (entry.hooks).Perm (entry.hooks[j] :: entry.hooks.eraseIdx j) :=
        (List.getElem_cons_eraseIdx_perm hlt).symm
      simpa [allHooks, popHook] using hpop.append_right (entries.flatMap (·.hooks))
    | succ i =>
      have hrest := ih i (by simpa [hookAt] using h)
      simpa [allHooks, popHook] using (hrest.append_left entry.hooks).trans List.perm_middle

/-- What stands before a hook stays where it is when that goes. -/
theorem hookAt_popHook (h : toLex q < toLex p) : hookAt (popHook entries p) q =
    hookAt entries q := by
  obtain ⟨i, j⟩ := p
  obtain ⟨i', j'⟩ := q
  simp only [hookAt, popHook, List.getElem?_modify]
  rcases Prod.Lex.toLex_lt_toLex.mp h with hlt | ⟨rfl, hlt⟩
  · simp [Nat.ne_of_gt hlt]
  · cases entries[i']? with
    | none => rfl
    | some entry => simp [List.getElem?_eraseIdx_of_lt hlt]

/-- From the last position to the first. -/
theorem popHooks_perm {ps : List (Position × Hook)} (hat : ∀ p ∈ ps, hookAt entries p.1 = some p.2)
    (hdesc : ps.Pairwise fun p q => toLex q.1 < toLex p.1) :
    (allHooks entries).Perm
      (ps.map (·.2) ++ allHooks ((ps.map (·.1)).foldl popHook entries)) := by
  induction ps generalizing entries with
  | nil => exact .refl _
  | cons p ps ih =>
    obtain ⟨hp, hps⟩ := List.forall_mem_cons.mp hat
    obtain ⟨hfirst, hrest⟩ := List.pairwise_cons.mp hdesc
    have hpop := popHook_perm hp
    have hleft : (allHooks (popHook entries p.1)).Perm
        (ps.map (·.2) ++ allHooks ((ps.map (·.1)).foldl popHook (popHook entries p.1))) :=
      ih (fun q hq => (hookAt_popHook (hfirst q hq)).trans (hps q hq)) hrest
    exact hpop.trans (hleft.cons _)

theorem allHooks_nonempty (entries : List HookEntry) :
    allHooks (entries.filter fun entry => entry.hooks ≠ []) = allHooks entries := by
  induction entries with
  | nil => rfl
  | cons entry entries ih =>
    rw [allHooks] at ih ⊢
    by_cases hhooks : entry.hooks = []
    · rw [List.filter_cons_of_neg (by simpa using hhooks), ih, allHooks, allHooks,
        List.flatMap_cons, hhooks, List.nil_append]
    · rw [List.filter_cons_of_pos (by simpa using hhooks), List.flatMap_cons, ih, allHooks,
        allHooks, List.flatMap_cons]

theorem cleanUp_perm {ps : List (Position × Hook)} (hat : ∀ p ∈ ps, hookAt entries p.1 = some p.2)
    (hasc : ps.Pairwise fun p q => toLex p.1 < toLex q.1) :
    (allHooks entries).Perm (ps.map (·.2) ++ allHooks (cleanUp entries (ps.map (·.1)))) := by
  have hsorted : sortBy (fun p => OrderDual.toDual (toLex p)) (ps.map (·.1)) =
      (ps.reverse).map (·.1) := by
    have hsort := stableSort_sortBy (fun p => OrderDual.toDual (toLex p)) (ps.map (·.1))
    refine List.Perm.eq_of_pairwise (fun p q _ _ hpq hqp => ?_) hsort.sorted ?_
      (hsort.perm.trans (ps.reverse_perm.map _).symm)
    · exact toLex.injective (OrderDual.toDual.injective (le_antisymm hpq hqp))
    · rw [List.map_reverse, List.pairwise_reverse, List.pairwise_map]
      exact hasc.imp fun hlt => OrderDual.toDual_le_toDual.mpr hlt.le
  have hperm : (allHooks entries).Perm (ps.reverse.map (·.2) ++
      allHooks ((ps.reverse.map (·.1)).foldl popHook entries)) :=
    popHooks_perm (fun p hp => hat p (List.mem_reverse.mp hp)) (List.pairwise_reverse.mpr hasc)
  have hempty : allHooks (cleanUp entries (ps.map (·.1))) =
      allHooks (((ps.reverse).map (·.1)).foldl popHook entries) := by
    rw [cleanUp, hsorted, allHooks_nonempty]
  rw [hempty]
  exact hperm.trans ((ps.reverse_perm.map _).append_right _)

end Positions

section Matched
variable {fnmatch : Fnmatch} {entries : List HookEntry} {e : Emission}

theorem hookAt_of_mem_matched {p : Position × Hook} (hp : p ∈ matched fnmatch entries e) :
    hookAt entries p.1 = some p.2 := by
  obtain ⟨⟨entry, i⟩, hentry, hp⟩ := List.mem_flatMap.mp hp
  split at hp
  · obtain ⟨⟨hook, j⟩, hhook, rfl⟩ := List.mem_map.mp hp
    rw [List.mk_mem_zipIdx_iff_getElem?] at hentry hhook
    simp [hookAt, hentry, hhook]
  · cases hp

theorem zipIdx_ascending {α : Type} (xs : List α) :
    xs.zipIdx.Pairwise fun x y => x.2 < y.2 := by
  have hrange := List.pairwise_lt_range' (s := 0) (n := xs.length) 1
  rwa [← List.zipIdx_map_snd, List.pairwise_map] at hrange

theorem matched_ascending :
    (matched fnmatch entries e).Pairwise fun p q => toLex p.1 < toLex q.1 := by
  refine List.pairwise_flatMap.mpr ⟨fun entry _ => ?_, ?_⟩
  · split
    · refine List.pairwise_map.mpr ((zipIdx_ascending entry.1.hooks).imp fun hlt => ?_)
      exact Prod.Lex.toLex_lt_toLex.mpr (.inr ⟨rfl, hlt⟩)
    · exact .nil
  · refine (zipIdx_ascending entries).imp fun hlt p hp q hq => ?_
    split at hp
    · split at hq
      · obtain ⟨_, -, rfl⟩ := List.mem_map.mp hp
        obtain ⟨_, -, rfl⟩ := List.mem_map.mp hq
        exact Prod.Lex.toLex_lt_toLex.mpr (.inl hlt)
      · cases hq
    · cases hp

/-- What is cleaned up is what was to run once. -/
theorem matched_cleanUp (fnmatch : Fnmatch) (entries : List HookEntry) (e : Emission) :
    (allHooks entries).Perm
    (((matched fnmatch entries e).filter fun p => p.2.once).map (·.2) ++
      allHooks (cleanUp entries
        (((matched fnmatch entries e).filter fun p => p.2.once).map (·.1)))) :=
  cleanUp_perm (fun _ hp => hookAt_of_mem_matched (List.mem_of_mem_filter hp))
    (matched_ascending.filter _)

end Matched

section Once
variable [FloatCodec F] {fnmatch : Fnmatch} {hook : Hook}

theorem count_once (xs : List (Position × Hook)) (honce : hook.once = true) :
    ((xs.filter fun p => p.2.once).map (·.2)).count hook = xs.countP fun p => p.2 = hook := by
  rw [List.count, List.countP_map, List.countP_filter]
  refine List.countP_congr fun p _ => ?_
  simp only [Function.comp_apply, Bool.and_eq_true, beq_iff_eq, decide_eq_true_eq]
  exact ⟨fun h => h.1, fun h => ⟨h, h ▸ honce⟩⟩

/-- Passed or still there: an emission adds no such hook. -/
theorem passes_emit {s : State} {e : Emission} (honce : hook.once = true)
    (hplain : Plain F fnmatch s.entries e) (hunblocked : Unblocked F fnmatch s.entries e) :
    passes F ((hookBus F fnmatch).step s (.emit e)).history hook +
        (allHooks ((hookBus F fnmatch).step s (.emit e)).entries).count hook =
      passes F s.history hook + (allHooks s.entries).count hook := by
  simp only [hookBus, passes, List.countP_append, List.countP_map]
  rw [emit_executed]
  obtain ⟨-, ⟨b, hb, hblocks⟩, -, hentries⟩ | ⟨-, ⟨p, hp, hshape⟩, -⟩ |
    ⟨-, hblocks, hshaped, hentries⟩ := emit_cases (F := F) fnmatch s.entries e
  · have hnone : (reached F fnmatch s.entries e).countP
        ((fun p : Hook × Answer => p.1 = hook && !p.2.blocks F) ∘
          fun p => (p.2, e.answers p.1)) = 0 := by
      refine List.countP_eq_zero.mpr fun p hp hpass => ?_
      simp only [Function.comp_apply, Bool.and_eq_true, decide_eq_true_eq,
        Bool.not_eq_true'] at hpass
      rcases hunblocked with hnot | honly
      · rw [hnot b hb] at hblocks
        cases hblocks
      · rw [honly p hp (hpass.1 ▸ honce)] at hpass
        cases hpass.2
    rw [hnone, hentries, Nat.add_zero]
  · rw [(hplain p hp).2] at hshape
    cases hshape
  · have hall : reached F fnmatch s.entries e = matched fnmatch s.entries e :=
      upTo_of_forall fun p hp => by rw [hblocks p hp, hshaped p hp, Bool.or_self]
    have hpass : (reached F fnmatch s.entries e).countP
        ((fun p : Hook × Answer => p.1 = hook && !p.2.blocks F) ∘
          fun p => (p.2, e.answers p.1)) =
        (((matched fnmatch s.entries e).filter fun p => p.2.once).map (·.2)).count hook := by
      rw [count_once _ honce, hall]
      refine List.countP_congr fun p hp => ?_
      simp [hblocks p (hall ▸ hp)]
    have hperm := matched_cleanUp fnmatch s.entries e
    rw [hpass, hentries, hperm.count_eq hook, List.count_append, Nat.add_assoc]

theorem passes_after {acts : List Action} (honce : hook.once = true)
    (hplain : (hookBus F fnmatch).Admits (OnEmissions (Plain F fnmatch)) acts)
    (hunblocked : (hookBus F fnmatch).Admits (OnEmissions (Unblocked F fnmatch)) acts) :
    passes F ((hookBus F fnmatch).after acts).history hook +
        (allHooks ((hookBus F fnmatch).after acts).entries).count hook =
      (registered acts).count hook := by
  induction acts using List.reverseRecOn with
  | nil => rfl
  | append_singleton acts a ih =>
    obtain ⟨hplains, hplain⟩ := (System.admits_snoc _).mp hplain
    obtain ⟨hunblockeds, hunblocked⟩ := (System.admits_snoc _).mp hunblocked
    rw [System.after_snoc, registered_append, List.count_append, ← ih hplains hunblockeds]
    cases a with
    | register eventType matcher hooks =>
      simp only [hookBus, allHooks, registered, List.flatMap_append, List.flatMap_cons,
        List.flatMap_nil, List.append_nil, List.count_append]
      omega
    | emit e => exact passes_emit honce hplain hunblocked

end Once

/-! ### The contract -/

/-- What every emission promises, and what holds of a whole run. -/
theorem hooks_contract [FloatCodec F] (fnmatch : Fnmatch) (acts : List Action) :
    ((hookBus F fnmatch).Admits (OnEmissions (Obeys F fnmatch)) acts ↔
      (hookBus F fnmatch).Admits (OnEmissions (Plain F fnmatch)) acts) ∧
    ((hookBus F fnmatch).Admits (OnEmissions (Plain F fnmatch)) acts →
      (hookBus F fnmatch).Admits (OnEmissions (Unblocked F fnmatch)) acts →
      ∀ hook, hook.once = true → (registered acts).count hook ≤ 1 →
        passes F ((hookBus F fnmatch).after acts).history hook ≤ 1) := by
  constructor
  · refine System.admits_congr _ (fun s a => ?_) acts
    cases a with
    | register eventType matcher hooks => exact Iff.rfl
    | emit e => exact obeys_iff
  · intro hplain hunblocked hook honce hcount
    have hpasses := passes_after honce hplain hunblocked
    omega

/-- `fnmatch`, of patterns without wildcards. -/
def literally : Fnmatch := fun signature pattern => signature == pattern

/-- A hook that is to run once, of a matching filter, and two calls of its tool. -/
def onceTwice : List Action :=
  [.register .preToolUse none [⟨0, some "Bash(ls)", true⟩],
    .emit ⟨.preToolUse, "Bash", ["ls"], fun _ => .returned ⟨"", "", 0⟩⟩,
    .emit ⟨.preToolUse, "Bash", ["ls"], fun _ => .returned ⟨"", "", 0⟩⟩]

theorem hooks_contract_onceTwice :
    (hookBus Literal literally).Admits (OnEmissions (Obeys Literal literally)) onceTwice ∧
      passes Literal ((hookBus Literal literally).after onceTwice).history
        ⟨0, some "Bash(ls)", true⟩ ≤ 1 := by
  have hplain : (hookBus Literal literally).Admits (OnEmissions (Plain Literal literally))
      onceTwice := System.admits_of_checks _ (by decide +kernel)
  have hunblocked : (hookBus Literal literally).Admits
      (OnEmissions (Unblocked Literal literally)) onceTwice :=
    System.admits_of_checks _ (by decide +kernel)
  obtain ⟨hobeys, honce⟩ := hooks_contract (F := Literal) literally onceTwice
  exact ⟨hobeys.mpr hplain, honce hplain hunblocked _ rfl (by decide +kernel)⟩

/-- A hook that is to run once, and one for another command that answers with a list. -/
def onceThenList : List Action :=
  [.register .preToolUse none [⟨0, none, true⟩, ⟨1, some "Bash(git)", false⟩],
    .emit ⟨.preToolUse, "Bash", ["ls"], fun p =>
      .returned ⟨if p.2 = 0 then "" else "[]", "", 0⟩⟩]

theorem list_not_obeyed :
    ¬ (hookBus Literal literally).Admits (OnEmissions (Obeys Literal literally))
      onceThenList := by
  intro h
  obtain ⟨result, hresult⟩ := (h [_] _ [] rfl).returns
  have hraised : ∀ outcome : Except Unit (HookResult Literal), outcome.isOk = false →
      outcome ≠ .ok result := by
    rintro _ hok rfl
    cases hok
  exact hraised _ (by decide +kernel) hresult

end PiPlatform.AgentChain.Hooks
