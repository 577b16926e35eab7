import Mathlib.Data.List.Induction

/-! Systems that take one action at a time.

A `System` is an initial state and a total step on actions; an action that is
not enabled leaves the state as it is. A run is a list of actions, so a property
of every run, of any length and in any order, is a property of every list.
`invariant_under` is the induction every safety result goes through: a rule on
actions, what holds at the start, and what one step preserves. A `Simulation`
relates a system to a coarser one that answers each step with a list of its own. -/
namespace PiPlatform.Library

universe u v

structure System (σ : Type u) (α : Type v) where
  initial : σ
  step : σ → α → σ

namespace System
variable {σ : Type u} {α : Type v} (M : System σ α)

/-- The state after a run. -/
def after (acts : List α) : σ := acts.foldl M.step M.initial

@[simp] theorem after_nil : M.after [] = M.initial := rfl

theorem after_snoc (acts : List α) (a : α) : M.after (acts ++ [a]) = M.step (M.after acts) a := by
  simp [after]

/-- A run whose every action the rule admits in the state it is taken in. -/
def Admits (Rule : σ → α → Prop) (acts : List α) : Prop :=
  ∀ before a behind, acts = before ++ a :: behind → Rule (M.after before) a

theorem admits_snoc {Rule : σ → α → Prop} {acts : List α} {a : α} :
    M.Admits Rule (acts ++ [a]) ↔ M.Admits Rule acts ∧ Rule (M.after acts) a := by
  constructor
  · intro h
    refine ⟨fun before b behind heq => ?_, h acts a [] rfl⟩
    exact h before b (behind ++ [a]) (by simp [heq])
  · rintro ⟨hacts, ha⟩ before b behind heq
    rcases List.eq_nil_or_concat behind with rfl | ⟨behind, c, rfl⟩
    · obtain ⟨rfl, hb⟩ := List.append_inj' heq rfl
      obtain rfl : a = b := by simpa using hb
      exact ha
    · rw [List.concat_eq_append, ← List.cons_append, ← List.append_assoc] at heq
      exact hacts before b behind (List.append_inj' heq rfl).1

theorem admits_of_append {Rule : σ → α → Prop} {acts more : List α}
    (h : M.Admits Rule (acts ++ more)) : M.Admits Rule acts := by
  rintro before a behind rfl
  exact h before a (behind ++ more) (by simp)

section Checks
variable (Rule : σ → α → Prop) [∀ s a, Decidable (Rule s a)]

/-- The rule, checked along a run. -/
def checks : σ → List α → Bool
  | _, [] => true
  | s, a :: acts => decide (Rule s a) && checks (M.step s a) acts

variable {Rule}

theorem admits_of_checks {acts : List α} (h : M.checks Rule M.initial acts = true) :
    M.Admits Rule acts := by
  have hfrom : ∀ (before : List α) (s : σ) (a : α) (behind : List α),
      M.checks Rule s (before ++ a :: behind) = true → Rule (before.foldl M.step s) a := by
    intro before
    induction before with
    | nil => exact fun s a behind h => of_decide_eq_true (Bool.and_eq_true _ _ ▸ h).1
    | cons b before ih => exact fun s a behind h => ih _ a behind (Bool.and_eq_true _ _ ▸ h).2
  rintro before a behind rfl
  exact hfrom before M.initial a behind h

end Checks

/-- What holds initially and survives every step the rule admits holds after every
run the rule admits. -/
theorem invariant_under (Rule : σ → α → Prop) (Inv : σ → Prop) (initial : Inv M.initial)
    (preserved : ∀ s a, Rule s a → Inv s → Inv (M.step s a)) (acts : List α)
    (h : M.Admits Rule acts) : Inv (M.after acts) := by
  induction acts using List.reverseRecOn with
  | nil => exact initial
  | append_singleton acts a ih =>
    obtain ⟨hacts, ha⟩ := M.admits_snoc.mp h
    rw [M.after_snoc]
    exact preserved _ a ha (ih hacts)

/-- Without a rule: what every step preserves holds after every run. -/
theorem invariant (Inv : σ → Prop) (initial : Inv M.initial)
    (preserved : ∀ s a, Inv s → Inv (M.step s a)) (acts : List α) : Inv (M.after acts) :=
  M.invariant_under (fun _ _ => True) Inv initial (fun s a _ => preserved s a) acts
    fun _ _ _ _ => trivial

/-- What every step of an admitted run keeps, one state after another, stays kept from
any of its states to any later one. -/
theorem kept_under (Rule : σ → α → Prop) (Inv : σ → Prop) (Kept : σ → σ → Prop)
    (initial : Inv M.initial) (preserved : ∀ s a, Rule s a → Inv s → Inv (M.step s a))
    (refl : ∀ s, Kept s s) (trans : ∀ s t u, Kept s t → Kept t u → Kept s u)
    (kept : ∀ s a, Rule s a → Inv s → Kept s (M.step s a)) (acts more : List α)
    (h : M.Admits Rule (acts ++ more)) : Kept (M.after acts) (M.after (acts ++ more)) := by
  induction more using List.reverseRecOn with
  | nil =>
    rw [List.append_nil]
    exact refl _
  | append_singleton more a ih =>
    rw [← List.append_assoc] at h ⊢
    obtain ⟨hacts, ha⟩ := M.admits_snoc.mp h
    have hinv := M.invariant_under Rule Inv initial preserved _ hacts
    rw [M.after_snoc]
    exact trans _ _ _ (ih hacts) (kept _ a ha hinv)

theorem admits_congr {Rule Rule' : σ → α → Prop} (h : ∀ s a, Rule s a ↔ Rule' s a)
    (acts : List α) : M.Admits Rule acts ↔ M.Admits Rule' acts :=
  forall₄_congr fun before a _ _ => h (M.after before) a

/-- Two rules that agree in the states an invariant holds in. -/
theorem admits_congr_of {Rule Rule' : σ → α → Prop} (Inv : σ → Prop) (initial : Inv M.initial)
    (preserved : ∀ s a, Inv s → Inv (M.step s a)) (h : ∀ s a, Inv s → (Rule s a ↔ Rule' s a))
    (acts : List α) : M.Admits Rule acts ↔ M.Admits Rule' acts :=
  forall₄_congr fun before a _ _ => h (M.after before) a (M.invariant Inv initial preserved before)

/-- What holds in every state a run goes through. -/
def Always (Good : σ → Prop) (acts : List α) : Prop :=
  ∀ before behind, acts = before ++ behind → Good (M.after before)

theorem always_snoc {Good : σ → Prop} {acts : List α} {a : α}
    (h : M.Always Good (acts ++ [a])) : M.Always Good acts ∧ Good (M.step (M.after acts) a) := by
  constructor
  · rintro before behind rfl
    exact h before (behind ++ [a]) (List.append_assoc ..)
  · rw [← M.after_snoc]
    exact h (acts ++ [a]) [] (List.append_nil _).symm

/-- In a run the rule admits, what an invariant gives holds in every state. -/
theorem always_under (Rule : σ → α → Prop) (Inv Good : σ → Prop) (initial : Inv M.initial)
    (preserved : ∀ s a, Rule s a → Inv s → Inv (M.step s a)) (good : ∀ s, Inv s → Good s)
    (acts : List α) (h : M.Admits Rule acts) : M.Always Good acts := by
  rintro before behind rfl
  exact good _ (M.invariant_under Rule Inv initial preserved before (M.admits_of_append h))

/-- A rule is the exact condition for `Good`, in the runs that are allowed at all, when an
invariant that implies it survives every allowed step the rule admits, and no other leaves
it `Good`. -/
theorem always_iff_admits_of (Allowed Rule : σ → α → Prop) (Inv Good : σ → Prop)
    (initial : Inv M.initial) (preserved : ∀ s a, Allowed s a → Rule s a → Inv s → Inv (M.step s a))
    (good : ∀ s, Inv s → Good s)
    (broken : ∀ s a, Allowed s a → Inv s → ¬ Rule s a → ¬ Good (M.step s a)) (acts : List α)
    (h : M.Admits Allowed acts) : M.Always Good acts ↔ M.Admits Rule acts := by
  have hboth : ∀ {acts : List α}, M.Admits Allowed acts → M.Admits Rule acts →
      M.Admits (fun s a => Allowed s a ∧ Rule s a) acts := fun hallowed hrule before a behind heq =>
    ⟨hallowed before a behind heq, hrule before a behind heq⟩
  have hpreserved : ∀ s a, Allowed s a ∧ Rule s a → Inv s → Inv (M.step s a) := fun s a hstep =>
    preserved s a hstep.1 hstep.2
  constructor
  · intro hgood
    induction acts using List.reverseRecOn with
    | nil => exact fun before a behind heq => by simp at heq
    | append_singleton acts a ih =>
      obtain ⟨hacts, ha⟩ := M.always_snoc hgood
      obtain ⟨hallowed, hstep⟩ := M.admits_snoc.mp h
      have hrules := ih hallowed hacts
      refine M.admits_snoc.mpr ⟨hrules, ?_⟩
      by_contra hrule
      have hinv := M.invariant_under _ Inv initial hpreserved acts (hboth hallowed hrules)
      exact broken _ a hstep hinv hrule ha
  · exact fun hrules => M.always_under _ Inv Good initial hpreserved good acts (hboth h hrules)

/-- With every run allowed. -/
theorem always_iff_admits (Rule : σ → α → Prop) (Inv Good : σ → Prop) (initial : Inv M.initial)
    (preserved : ∀ s a, Rule s a → Inv s → Inv (M.step s a)) (good : ∀ s, Inv s → Good s)
    (broken : ∀ s a, Inv s → ¬ Rule s a → ¬ Good (M.step s a)) (acts : List α) :
    M.Always Good acts ↔ M.Admits Rule acts :=
  M.always_iff_admits_of (fun _ _ => True) Rule Inv Good initial (fun s a _ => preserved s a) good
    (fun s a _ => broken s a) acts fun _ _ _ _ => trivial

end System

/-- Each step of `impl` is answered by the actions `answer` gives, taken one after
another in `spec`, and the relation survives. -/
structure Simulation {σ τ : Type u} {α β : Type v} (impl : System σ α) (spec : System τ β) where
  Rel : σ → τ → Prop
  answer : σ → α → List β
  initial : Rel impl.initial spec.initial
  step : ∀ s t a, Rel s t → Rel (impl.step s a) ((answer s a).foldl spec.step t)

namespace Simulation
variable {σ τ : Type u} {α β : Type v} {impl : System σ α} {spec : System τ β}

/-- The coarse run that answers a fine one. -/
def trace (R : Simulation impl spec) (acts : List α) : List β :=
  (acts.foldl (fun (p : σ × List β) a => (impl.step p.1 a, p.2 ++ R.answer p.1 a))
    (impl.initial, [])).2

theorem trace_snoc (R : Simulation impl spec) (acts : List α) (a : α) :
    R.trace (acts ++ [a]) = R.trace acts ++ R.answer (impl.after acts) a := by
  have hfst : ∀ acts : List α, (acts.foldl
      (fun (p : σ × List β) a => (impl.step p.1 a, p.2 ++ R.answer p.1 a))
      (impl.initial, [])).1 = impl.after acts := by
    intro acts
    induction acts using List.reverseRecOn with
    | nil => rfl
    | append_singleton acts a ih => simp only [List.foldl_append, List.foldl_cons, List.foldl_nil,
        ih, impl.after_snoc]
  simp only [trace, List.foldl_append, List.foldl_cons, List.foldl_nil, hfst]

/-- After every fine run the states are related to those of its coarse run. -/
theorem related (R : Simulation impl spec) (acts : List α) :
    R.Rel (impl.after acts) (spec.after (R.trace acts)) := by
  induction acts using List.reverseRecOn with
  | nil => exact R.initial
  | append_singleton acts a ih =>
    rw [impl.after_snoc, trace_snoc]
    have h := R.step (impl.after acts) (spec.after (R.trace acts)) a ih
    simpa only [System.after, List.foldl_append] using h

end Simulation

end PiPlatform.Library
