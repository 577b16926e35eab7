import Mathlib.Data.List.Sort
import Mathlib.Data.String.Basic
import PiPlatform.Library.Python.Value

/-! Memory in three tiers.

The core never changes. Candidates are put into the working tier, and a candidate moves to the
promoted tier when its key has been validated so many times, or by approval. The count belongs to
the key: a candidate that takes the place of another one inherits its validations. -/
namespace PiPlatform.IdeRe

open Library Library.Json Library.Python

variable {F : Type}

/-! ### Content hashes -/

mutual

/-- `_canonical(value)` of a JSON value. -/
def canonical : Document F → Document F
  | .obj items => .obj ((canonicalItems items).insertionSort fun p q => p.1 ≤ q.1)
  | .arr xs => .arr (canonicalElems xs)
  | v => v

def canonicalElems : List (Document F) → List (Document F)
  | [] => []
  | x :: xs => canonical x :: canonicalElems xs

def canonicalItems : List (Text × Document F) → List (Text × Document F)
  | [] => []
  | (k, v) :: items => (k, canonical v) :: canonicalItems items

end

/-- `content_hash(payload)`; the keys are sorted when they come to be written. -/
def contentHash [FloatCodec F] (sha256 : String → String) (payload : Document F) : String :=
  let text := String.ofList ((canonical payload).render .compact)
  String.ofList ((sha256 text).toList.take 16)

/-! ### The tiers -/

structure TieredMemory (F : Type) where
  core : Dict String (Document F)
  working : Dict String (Document F)
  promoted : Dict String (Document F)
  validations : Dict String Nat
  threshold : Int

inductive Call (F : Type) where
  | addCandidate (key : String) (value : Document F)
  | validate (key : String)
  | approve (key : String)

namespace TieredMemory

/-- `TieredMemory(core, threshold)` -/
def make (core : Dict String (Document F)) (threshold : Int) : TieredMemory F :=
  ⟨core, .empty, .empty, .empty, max 1 threshold⟩

def immutableCoreKey (key : String) : PyError :=
  .valueError ("'" ++ key ++ "' is an immutable core key and cannot be shadowed by a candidate")

def addCandidate (m : TieredMemory F) (key : String) (value : Document F) :
    Except PyError (TieredMemory F) :=
  if m.core.contains key then .error (immutableCoreKey key)
  else .ok { m with
    working := m.working.set key value
    validations :=
      if m.validations.contains key then m.validations else m.validations.set key 0 }

/-- `_promote` of a key whose working value this is. -/
def promote (m : TieredMemory F) (key : String) (value : Document F) : TieredMemory F :=
  { m with promoted := m.promoted.set key value, working := m.working.erase key }

def validate (m : TieredMemory F) (key : String) : Except PyError (Int × TieredMemory F) :=
  if m.promoted.contains key then .ok (m.threshold, m)
  else
    match m.working.get? key, m.validations.get? key with
    | some value, some count =>
      let m := { m with validations := m.validations.set key (count + 1) }
      .ok (count + 1, if m.threshold ≤ (count : Int) + 1 then m.promote key value else m)
    | _, _ => .error (.keyError key)

def approve (m : TieredMemory F) (key : String) : Except PyError (TieredMemory F) :=
  match m.working.get? key with
  | some value => .ok (m.promote key value)
  | none => .error (.keyError key)

/-- `canonical_hash` -/
def canonicalHash [FloatCodec F] (sha256 : String → String) (m : TieredMemory F) : String :=
  contentHash sha256 (.obj
    [(ofString "core", .obj (m.core.items.map fun p => (ofString p.1, p.2))),
     (ofString "promoted", .obj (m.promoted.items.map fun p => (ofString p.1, p.2)))])

/-- A call that raises changes nothing. -/
def next (m : TieredMemory F) : Call F → TieredMemory F
  | .addCandidate key value => (m.addCandidate key value).toOption.getD m
  | .validate key => ((m.validate key).toOption.map Prod.snd).getD m
  | .approve key => (m.approve key).toOption.getD m

def after (m : TieredMemory F) (calls : List (Call F)) : TieredMemory F := calls.foldl next m

@[simp] theorem after_nil (m : TieredMemory F) : m.after [] = m := rfl

@[simp] theorem after_cons (m : TieredMemory F) (call : Call F) (calls : List (Call F)) :
    m.after (call :: calls) = (m.next call).after calls := rfl

theorem after_snoc (m : TieredMemory F) (calls : List (Call F)) (call : Call F) :
    m.after (calls ++ [call]) = (m.after calls).next call := by
  simp only [after, List.foldl_append, List.foldl_cons, List.foldl_nil]

/-! ### What one call does -/

/-- Whatever the call, the memory is as it was, or one of its tiers has moved. -/
inductive Moved (m : TieredMemory F) : Call F → TieredMemory F → Prop where
  | same (call : Call F) : Moved m call m
  | added (key : String) (value : Document F) : m.core.contains key = false →
    Moved m (.addCandidate key value) { m with
      working := m.working.set key value
      validations :=
        if m.validations.contains key then m.validations else m.validations.set key 0 }
  | counted (key : String) (value : Document F) (count : Nat) : m.promoted.contains key = false →
    m.working.get? key = some value → m.validations.get? key = some count →
    Moved m (.validate key) { m with validations := m.validations.set key (count + 1) }
  | earned (key : String) (value : Document F) (count : Nat) : m.promoted.contains key = false →
    m.working.get? key = some value → m.validations.get? key = some count →
    m.threshold ≤ (count : Int) + 1 →
    Moved m (.validate key)
      ({ m with validations := m.validations.set key (count + 1) }.promote key value)
  | approved (key : String) (value : Document F) : m.working.get? key = some value →
    Moved m (.approve key) (m.promote key value)

theorem moved (m : TieredMemory F) (call : Call F) : Moved m call (m.next call) := by
  cases call with
  | addCandidate key value =>
    cases hcore : m.core.contains key with
    | true =>
      rw [next, addCandidate, if_pos hcore]
      exact .same _
    | false =>
      rw [next, addCandidate, if_neg (by simp [hcore])]
      exact .added key value hcore
  | validate key =>
    cases hpromoted : m.promoted.contains key with
    | true =>
      rw [next, validate, if_pos hpromoted]
      exact .same _
    | false =>
      rw [next, validate, if_neg (by simp [hpromoted])]
      cases hvalue : m.working.get? key with
      | none => exact .same _
      | some value =>
        cases hcount : m.validations.get? key with
        | none => exact .same _
        | some count =>
          show Moved m (.validate key) (if m.threshold ≤ (count : Int) + 1 then _ else _)
          split
          next hearned => exact .earned key value count hpromoted hvalue hcount hearned
          next => exact .counted key value count hpromoted hvalue hcount
  | approve key =>
    cases hvalue : m.working.get? key with
    | none =>
      rw [next, approve, hvalue]
      exact .same _
    | some value =>
      rw [next, approve, hvalue]
      exact .approved key value hvalue

section Step
variable {m m' : TieredMemory F} {call : Call F}

theorem Moved.core_eq (h : Moved m call m') : m'.core = m.core := by
  cases h <;> rfl

/-- A call that promotes its key. -/
def Promotes (m m' : TieredMemory F) (key : String) : Prop :=
  m.promoted.contains key = false ∧ m'.promoted.contains key = true

theorem Moved.promoted_eq (h : Moved m call m') : m'.promoted = m.promoted ∨
    (∃ key, call = .approve key) ∨ ∃ key, call = .validate key ∧ Promotes m m' key := by
  cases h with
  | same | added | counted => exact .inl rfl
  | approved key => exact .inr (.inl ⟨key, rfl⟩)
  | earned key value count hpromoted =>
    refine .inr (.inr ⟨key, rfl, hpromoted, ?_⟩)
    simp only [promote, Dict.contains, Dict.get?_set_self, Option.isSome_some]

/-- A promoted value stands until an approval of its key. -/
theorem Moved.get?_promoted (h : Moved m call m') {key : String} {value : Document F}
    (hvalue : m.promoted.get? key = some value) (hcall : call ≠ .approve key) :
    m'.promoted.get? key = some value := by
  cases h with
  | same | added | counted => exact hvalue
  | approved key' =>
    have hne : key' ≠ key := fun heq => hcall (heq ▸ rfl)
    exact (Dict.get?_set_ne hne m.promoted _).trans hvalue
  | earned key' value' count hpromoted =>
    have hne : key' ≠ key := by
      rintro rfl
      simp only [Dict.contains, hvalue, Option.isSome_some, Bool.true_eq_false] at hpromoted
    exact (Dict.get?_set_ne hne m.promoted _).trans hvalue

end Step

theorem core_after (m : TieredMemory F) (calls : List (Call F)) :
    (m.after calls).core = m.core := by
  induction calls generalizing m with
  | nil => rfl
  | cons call calls ih => rw [after_cons, ih, (moved m call).core_eq]

/-- A validation that promotes its key finds a count that reaches the threshold with it. -/
theorem Moved.count_of_promotes {m m' : TieredMemory F} {key : String}
    (h : Moved m (.validate key) m') (hpromotes : Promotes m m' key) {value : Document F}
    (hvalue : m'.promoted.get? key = some value) :
    ∃ count, m.validations.get? key = some count ∧ m.working.get? key = some value ∧
      m.threshold ≤ (count : Int) + 1 := by
  obtain ⟨hbefore, hafter⟩ := hpromotes
  cases h with
  | same => rw [hbefore] at hafter; cases hafter
  | counted => exact absurd (hbefore.symm.trans hafter) Bool.false_ne_true
  | earned _ value' count _ hworking hcount hearned =>
    have hsame : value' = value :=
      Option.some.inj ((Dict.get?_set_self m.promoted key value').symm.trans hvalue)
    exact ⟨count, hcount, hsame ▸ hworking, hearned⟩

/-! ### Evidence -/

/-- A call that supports a value: its key is validated while it is the working value. -/
def Supports (m : TieredMemory F) (key : String) (value : Document F) (call : Call F) : Prop :=
  call = .validate key ∧ m.working.get? key = some value

open Classical in
/-- How many calls of the run support the value. -/
noncomputable def evidence (key : String) (value : Document F) :
    TieredMemory F → List (Call F) → Nat
  | _, [] => 0
  | m, call :: calls =>
    (if m.Supports key value call then 1 else 0) + evidence key value (m.next call) calls

open Classical in
theorem evidence_snoc (key : String) (value : Document F) (m : TieredMemory F)
    (calls : List (Call F)) (call : Call F) :
    evidence key value m (calls ++ [call]) =
      evidence key value m calls +
        if (m.after calls).Supports key value call then 1 else 0 := by
  induction calls generalizing m with
  | nil =>
    simp only [List.nil_append, evidence, Nat.add_zero, Nat.zero_add]
    rfl
  | cons first calls ih =>
    rw [List.cons_append, evidence, ih, evidence, after_cons]
    omega

/-- The call does not put a candidate in the place of one that has been validated. -/
def Steady (m : TieredMemory F) : Call F → Prop
  | .addCandidate key value =>
    m.core.contains key = true ∨ m.promoted.contains key = true ∨
      (m.validations.get? key).getD 0 = 0 ∨ m.working.get? key = some value
  | _ => True

def Steadily : TieredMemory F → List (Call F) → Prop
  | _, [] => True
  | m, call :: calls => m.Steady call ∧ Steadily (m.next call) calls

theorem steadily_snoc (m : TieredMemory F) (calls : List (Call F)) (call : Call F) :
    m.Steadily (calls ++ [call]) ↔ m.Steadily calls ∧ (m.after calls).Steady call := by
  induction calls generalizing m with
  | nil => simp only [List.nil_append, Steadily, after_nil, and_true, true_and]
  | cons first calls ih => rw [List.cons_append, Steadily, ih, Steadily, after_cons, and_assoc]

theorem steadily_append {m : TieredMemory F} {before later : List (Call F)}
    (h : m.Steadily (before ++ later)) : m.Steadily before := by
  induction before generalizing m with
  | nil => trivial
  | cons first before ih => exact ⟨h.1, ih h.2⟩

/-- A candidate has as much support as its key has validations. -/
def Backed (m : TieredMemory F) (support : String → Document F → Nat) : Prop :=
  ∀ key value count, m.promoted.contains key = false → m.working.get? key = some value →
    m.validations.get? key = some count → count ≤ support key value

open Classical in
theorem Moved.backed {m m' : TieredMemory F} {call : Call F} (h : Moved m call m')
    (hsteady : m.Steady call) {support : String → Document F → Nat} (hm : m.Backed support) :
    m'.Backed fun key value =>
      support key value + if m.Supports key value call then 1 else 0 := by
  intro key value count hpromoted hworking hcount
  cases h with
  | same => exact Nat.le_add_right_of_le (hm key value count hpromoted hworking hcount)
  | added key' value' hcore =>
    refine Nat.le_add_right_of_le ?_
    by_cases hkey : key' = key
    · subst hkey
      rw [Dict.get?_set_self, Option.some.injEq] at hworking
      subst hworking
      by_cases hold : m.validations.contains key' = true
      · rw [if_pos hold] at hcount
        obtain hc | hp | hzero | hsame := hsteady
        · simp only [hcore, Bool.false_eq_true] at hc
        · simp only [hpromoted, Bool.false_eq_true] at hp
        · rw [hcount, Option.getD_some] at hzero
          exact hzero ▸ Nat.zero_le _
        · exact hm key' value' count hpromoted hsame hcount
      · rw [if_neg hold, Dict.get?_set_self, Option.some.injEq] at hcount
        exact hcount ▸ Nat.zero_le _
    · rw [Dict.get?_set_ne hkey] at hworking
      refine hm key value count hpromoted hworking ?_
      split at hcount
      · exact hcount
      · rwa [Dict.get?_set_ne hkey] at hcount
  | counted key' value' count' hpromoted' hworking' hcount' =>
    by_cases hkey : key' = key
    · subst hkey
      rw [Dict.get?_set_self, Option.some.injEq] at hcount
      have hold := hm key' value count' hpromoted hworking hcount'
      show count ≤ support key' value + if m.Supports key' value (.validate key') then 1 else 0
      rw [if_pos ⟨rfl, hworking⟩]
      omega
    · rw [Dict.get?_set_ne hkey] at hcount
      exact Nat.le_add_right_of_le (hm key value count hpromoted hworking hcount)
  | earned key' | approved key' =>
    have hkey : key' ≠ key := by
      rintro rfl
      simp only [promote, Dict.contains, Dict.get?_set_self, Option.isSome_some,
        Bool.true_eq_false] at hpromoted
    simp only [promote, Dict.contains, Dict.get?_set_ne hkey, Dict.get?_erase, if_neg hkey]
      at hpromoted hworking hcount
    exact Nat.le_add_right_of_le (hm key value count hpromoted hworking hcount)

theorem backed_after (core : Dict String (Document F)) (threshold : Int) {calls : List (Call F)}
    (h : (make core threshold).Steadily calls) :
    ((make core threshold).after calls).Backed fun key value =>
      evidence key value (make core threshold) calls := by
  induction calls using List.reverseRecOn with
  | nil =>
    intro key value count _ hworking
    cases hworking
  | append_singleton calls call ih =>
    obtain ⟨hcalls, hcall⟩ := (steadily_snoc _ _ _).mp h
    have hbacked := (moved ((make core threshold).after calls) call).backed hcall (ih hcalls)
    rw [after_snoc]
    simpa only [evidence_snoc] using hbacked

/-! ### Runs -/

section Runs
variable [FloatCodec F] (sha256 : String → String)

/-- What the next call of a run may do. -/
structure Kept (core₀ : Dict String (Document F)) (threshold : Int) (before : List (Call F))
    (call : Call F) (m m' : TieredMemory F) : Prop where
  core : m'.core = core₀
  hash : m'.canonicalHash sha256 ≠ m.canonicalHash sha256 →
    (∃ key, call = .approve key) ∨ ∃ key, call = .validate key ∧ Promotes m m' key
  earned : ∀ key value, call = .validate key → Promotes m m' key →
    m'.promoted.get? key = some value →
    m.threshold ≤ evidence key value (make core₀ threshold) (before ++ [call])
  stable : ∀ key value, m.promoted.get? key = some value →
    m'.promoted.get? key ≠ some value → call = .approve key

/-- Every call of the run does no more than that. -/
def Stable (core : Dict String (Document F)) (threshold : Int) (calls : List (Call F)) : Prop :=
  ∀ before call later, calls = before ++ call :: later →
    Kept sha256 core threshold before call ((make core threshold).after before)
      ((make core threshold).after (before ++ [call]))

theorem Moved.canonicalHash_eq {m m' : TieredMemory F} {call : Call F} (h : Moved m call m')
    (hhash : m'.canonicalHash sha256 ≠ m.canonicalHash sha256) :
    (∃ key, call = .approve key) ∨ ∃ key, call = .validate key ∧ Promotes m m' key := by
  obtain heq | hpromoted := h.promoted_eq
  · rw [canonicalHash, canonicalHash, heq, h.core_eq] at hhash
    exact absurd rfl hhash
  · exact hpromoted

/-- **As long as no call puts a candidate in the place of one that has been validated, promotion
is earned and stable**: the core never changes, the hash changes only when something is promoted,
a value that is promoted by validation was validated often enough itself, and only an approval
changes a promoted value. -/
theorem promotion_earned (core : Dict String (Document F)) (threshold : Int) (calls : List (Call F))
    (hsteady : (make core threshold).Steadily calls) : Stable sha256 core threshold calls := by
  rintro before call later rfl
  have hbefore := steadily_append hsteady
  have hmoved := moved ((make core threshold).after before) call
  rw [after_snoc]
  refine ⟨?_, hmoved.canonicalHash_eq sha256, ?_, ?_⟩
  · rw [hmoved.core_eq, core_after]
    rfl
  · rintro key value rfl hpromotes hvalue
    obtain ⟨count, hcount, hworking, hearned⟩ := hmoved.count_of_promotes hpromotes hvalue
    have hbacked : count ≤ evidence key value (make core threshold) before :=
      backed_after core threshold hbefore key value count hpromotes.1 hworking hcount
    rw [evidence_snoc, if_pos ⟨rfl, hworking⟩]
    push_cast
    omega
  · intro key value hvalue hchanged
    by_contra hcall
    exact hchanged (hmoved.get?_promoted hvalue hcall)

end Runs

/-- The second candidate inherits the two validations of the first. -/
def reproposal : List (Call Literal) :=
  [.addCandidate "k" (.bool false), .validate "k", .validate "k", .addCandidate "k" (.bool true),
    .validate "k"]

theorem evidence_reproposal : evidence "k" (.bool true) (make .empty 3) reproposal = 1 := by
  simp only [reproposal, evidence]
  rw [if_neg (fun h => nomatch h.1), if_neg (fun h => nomatch h.2), if_neg (fun h => nomatch h.2),
    if_neg (fun h => nomatch h.1), if_pos ⟨rfl, rfl⟩]

theorem reproposal_promoted : ¬ Stable id .empty 3 reproposal := by
  intro h
  have hkept := h (reproposal.take 4) (.validate "k") [] rfl
  have hearned := hkept.earned "k" (.bool true) rfl ⟨rfl, rfl⟩ rfl
  have hone : evidence "k" (.bool true) (make .empty 3)
      (reproposal.take 4 ++ [.validate "k"]) = 1 := evidence_reproposal
  rw [hone] at hearned
  exact absurd hearned (by decide)

/-- Proposed, then validated as often as the threshold asks. -/
theorem three_validations_earned :
    (make .empty 3).Steadily
        [.addCandidate (F := Literal) "k" .null, .validate "k", .validate "k", .validate "k"] ∧
      Stable id .empty 3
        [.addCandidate (F := Literal) "k" .null, .validate "k", .validate "k", .validate "k"] := by
  have hsteady : (make .empty 3).Steadily
      [.addCandidate (F := Literal) "k" .null, .validate "k", .validate "k", .validate "k"] :=
    ⟨.inr (.inr (.inl rfl)), trivial, trivial, trivial, trivial⟩
  exact ⟨hsteady, promotion_earned id .empty 3 _ hsteady⟩

end TieredMemory

end PiPlatform.IdeRe
