import Mathlib.Logic.Function.Basic
import PiPlatform.EventFabric.Schema.Chains

/-! Migrating forward and back again.

`migrate_data` takes the steps of a path in the order of the path in both directions.
Undoing what was done asks for the reverse order, and with it every record comes back
(`undo_reversed`); in path order it does if no two steps name one field (`undo_apart`).
In general, what stands under a name at the end is the first present of certain fields
and defaults, which only the path determines, and the record comes back exactly if each
of its names is served by these (`round_trip_iff`). -/
namespace PiPlatform.EventFabric.Schema

open Library Library.Python

variable {K V : Type} [DecidableEq K]

/-! ### Steps that keep every value -/

/-- `if source in d: d[target] = d.pop(source)` -/
def rename (data : Dict K V) (source target : K) : Dict K V :=
  match data.get? source with
  | none => data
  | some v => (data.erase source).set target v

inductive FieldOp (K V : Type) where
  | add (name : K) (default : V)
  | rename (oldName newName : K)

def FieldOp.apply : Direction → FieldOp K V → Dict K V → Dict K V
  | .forward, .add name default, data =>
    if data.contains name then data else data.set name default
  | .backward, .add name _, data => data.erase name
  | .forward, .rename oldName newName, data => Schema.rename data oldName newName
  | .backward, .rename oldName newName, data => Schema.rename data newName oldName

/-- A registered step is the operation on these keys. -/
def MigrationStep.Denotes (R : Runtime K V) (step : MigrationStep V) : FieldOp K V → Prop
  | .add name default =>
    step.transformationType = .addField ∧ R.name step.fieldName = name ∧
      R.parameter step "default" = default
  | .rename oldName newName =>
    step.transformationType = .renameField ∧ ∃ old new,
      step.parameters.get? "old_name" = some old ∧ step.parameters.get? "new_name" = some new ∧
      R.asKey old = .ok oldName ∧ R.asKey new = .ok newName

def applyOps (direction : Direction) (ops : List (FieldOp K V)) (data : Dict K V) : Dict K V :=
  ops.foldl (fun data op => op.apply direction data) data

variable {R : Runtime K V} {d d' data : Dict K V}
  {ops : List (FieldOp K V)} {op : FieldOp K V}

theorem renameKey_eq {source target : V} {sourceKey targetKey : K}
    (hsource : R.asKey source = .ok sourceKey) (htarget : R.asKey target = .ok targetKey) :
    renameKey R data source target = .ok (rename data sourceKey targetKey) := by
  unfold renameKey rename
  rw [hsource]
  cases hget : data.get? sourceKey with
  | none =>
    show (match data.get? sourceKey with
      | none => (Except.ok data : Except PyError (Dict K V))
      | some v => _) = _
    rw [hget]
  | some v =>
    show (match data.get? sourceKey with
      | none => (Except.ok data : Except PyError (Dict K V))
      | some v => _) = _
    rw [hget, htarget]
    rfl

theorem applyMigration_eq {step : MigrationStep V} (h : step.Denotes R op) (direction : Direction) :
    applyMigration R data step direction = .ok (op.apply direction data) := by
  cases op with
  | add name default =>
    obtain ⟨htype, rfl, rfl⟩ := h
    cases direction <;> simp only [applyMigration, htype, FieldOp.apply]
  | rename oldName newName =>
    obtain ⟨htype, old, new, hold, hnew, holdKey, hnewKey⟩ := h
    have hold' : step.parameter "old_name" = .ok old := by rw [MigrationStep.parameter, hold]
    have hnew' : step.parameter "new_name" = .ok new := by rw [MigrationStep.parameter, hnew]
    cases direction with
    | forward =>
      simp only [applyMigration, htype, hold', hnew', FieldOp.apply]
      exact renameKey_eq holdKey hnewKey
    | backward =>
      simp only [applyMigration, htype, hold', hnew', FieldOp.apply]
      exact renameKey_eq hnewKey holdKey

theorem applyPath_eq {path : List (MigrationStep V)}
    (h : List.Forall₂ (MigrationStep.Denotes R) path ops) (direction : Direction) :
    applyPath R path direction data = .ok (applyOps direction ops data) := by
  induction h generalizing data with
  | nil => rfl
  | cons hstep _ ih =>
    rw [applyPath, List.foldlM_cons, applyMigration_eq hstep]
    exact ih

/-! ### Operations up to order -/

theorem get?_add (data : Dict K V) (name k : K) (default : V) :
    ((FieldOp.add name default).apply .forward data).get? k =
      if name = k then some ((data.get? name).getD default) else data.get? k := by
  by_cases hname : data.contains name = true
  · obtain ⟨v, hv⟩ := Option.isSome_iff_exists.mp hname
    rw [FieldOp.apply, if_pos hname, hv, Option.getD_some]
    split
    · next hk => rw [← hk, hv]
    · rfl
  · have hnone : data.get? name = none := by simpa [Dict.contains] using hname
    rw [FieldOp.apply, if_neg hname, Dict.get?_set, hnone, Option.getD_none]

/-- A record without the source keeps what it has under the target. -/
theorem get?_rename (data : Dict K V) (source target k : K) :
    (rename data source target).get? k =
      if target = k then (data.get? source).or (data.get? target)
      else if source = k then none else data.get? k := by
  unfold rename
  cases hsource : data.get? source with
  | none =>
    by_cases htarget : target = k
    · rw [if_pos htarget, Option.none_or, htarget]
    · by_cases hk : source = k
      · rw [if_neg htarget, if_pos hk, ← hk, hsource]
      · rw [if_neg htarget, if_neg hk]
  | some v => simp only [Dict.get?_set, Dict.get?_erase, Option.some_or]

/-- What an operation does to lookups depends on lookups only. -/
theorem FieldOp.apply_congr (direction : Direction) (op : FieldOp K V) (h : d.Same d') :
    (op.apply direction d).Same (op.apply direction d') := by
  intro k
  cases op with
  | add name default =>
    cases direction with
    | forward => simp only [get?_add, h name, h k]
    | backward => simp only [FieldOp.apply, Dict.get?_erase, h k]
  | rename oldName newName =>
    cases direction <;> simp only [FieldOp.apply, get?_rename, h oldName, h newName, h k]

theorem applyOps_congr (direction : Direction) (ops : List (FieldOp K V)) (h : d.Same d') :
    (applyOps direction ops d).Same (applyOps direction ops d') := by
  induction ops generalizing d d' with
  | nil => exact h
  | cons op ops ih => exact ih (op.apply_congr direction h)

/-- A forward step loses nothing: the field it adds is absent, the one it renames is
present and its new name free. -/
def FieldOp.Preserves (d : Dict K V) : FieldOp K V → Prop
  | .add name _ => d.get? name = none
  | .rename oldName newName => d.get? oldName ≠ none ∧ d.get? newName = none

/-- Every step does when its turn comes. -/
def Preserving : List (FieldOp K V) → Dict K V → Prop
  | [], _ => True
  | op :: ops, d => op.Preserves d ∧ Preserving ops (op.apply .forward d)

instance (d : Dict K V) : ∀ op : FieldOp K V, Decidable (op.Preserves d)
  | .add name _ => inferInstanceAs (Decidable (d.get? name = none))
  | .rename oldName newName =>
    inferInstanceAs (Decidable (d.get? oldName ≠ none ∧ d.get? newName = none))

instance : ∀ (ops : List (FieldOp K V)) (d : Dict K V), Decidable (Preserving ops d)
  | [], _ => inferInstanceAs (Decidable True)
  | op :: ops, d =>
    have : Decidable (Preserving ops (op.apply .forward d)) := instDecidablePreserving ops _
    inferInstanceAs (Decidable (op.Preserves d ∧ _))

theorem FieldOp.undo (h : op.Preserves d) :
    (op.apply .backward (op.apply .forward d)).Same d := by
  intro k
  cases op with
  | add name default =>
    have hnone : d.get? name = none := h
    show (((FieldOp.add name default).apply .forward d).erase name).get? k = d.get? k
    rw [Dict.get?_erase, get?_add]
    by_cases hk : name = k
    · rw [if_pos hk, ← hk, hnone]
    · rw [if_neg hk, if_neg hk]
  | rename oldName newName =>
    obtain ⟨hold, hnew⟩ := h
    obtain ⟨v, hv⟩ := Option.ne_none_iff_exists'.mp hold
    have hne : oldName ≠ newName := fun heq => hold (heq ▸ hnew)
    simp only [FieldOp.apply, get?_rename, hv, if_true, Option.some_or]
    by_cases hk : oldName = k
    · rw [if_pos hk, ← hk, hv]
    · by_cases hk' : newName = k
      · rw [if_neg hk, if_pos hk', ← hk', hnew]
      · rw [if_neg hk, if_neg hk', if_neg hk', if_neg hk]

/-- Undone in the reverse order, every path brings every record back. -/
theorem undo_reversed (h : Preserving ops d) :
    (applyOps .backward ops.reverse (applyOps .forward ops d)).Same d := by
  induction ops generalizing d with
  | nil => exact fun k => rfl
  | cons op ops ih =>
    obtain ⟨hop, hrest⟩ := h
    have hback := op.apply_congr .backward (ih hrest)
    rw [List.reverse_cons, applyOps, List.foldl_append]
    exact fun k => (hback k).trans (op.undo hop k)

/-! ### Steps that keep apart -/

/-- The fields a step names. -/
def FieldOp.names : FieldOp K V → List K
  | .add name _ => [name]
  | .rename oldName newName => [oldName, newName]

/-- No field of the one is a field of the other. -/
def FieldOp.Apart (op op' : FieldOp K V) : Prop :=
  op.names.Disjoint op'.names

theorem FieldOp.Apart.undo_comm {op op' : FieldOp K V} (h : op.Apart op') (d : Dict K V) :
    (op.apply .backward (op'.apply .backward d)).Same
      (op'.apply .backward (op.apply .backward d)) := by
  intro k
  cases op with
  | add name default =>
    cases op' with
    | add name' default' =>
      simp only [FieldOp.apply, Dict.get?_erase]
      split <;> split <;> rfl
    | rename oldName newName =>
      obtain ⟨hold, hnew⟩ : name ≠ oldName ∧ name ≠ newName := by
        simpa [FieldOp.Apart, FieldOp.names] using h
      simp only [FieldOp.apply, Dict.get?_erase, get?_rename]
      grind
  | rename oldName newName =>
    cases op' with
    | add name default =>
      obtain ⟨hold, hnew⟩ : name ≠ oldName ∧ name ≠ newName := by
        simpa [FieldOp.Apart, FieldOp.names] using h
      simp only [FieldOp.apply, Dict.get?_erase, get?_rename]
      grind
    | rename oldName' newName' =>
      obtain ⟨⟨hold, hold'⟩, hnew, hnew'⟩ : (oldName' ≠ oldName ∧ oldName' ≠ newName) ∧
          newName' ≠ oldName ∧ newName' ≠ newName := by
        simpa [FieldOp.Apart, FieldOp.names] using h
      simp only [FieldOp.apply, get?_rename]
      grind

theorem applyOps_apart (h : ∀ op' ∈ ops, op.Apart op') (d : Dict K V) :
    (applyOps .backward ops (op.apply .backward d)).Same
      (op.apply .backward (applyOps .backward ops d)) := by
  induction ops generalizing d with
  | nil => exact fun k => rfl
  | cons op' ops ih =>
    intro k
    have hop : op.Apart op' := h op' (List.mem_cons_self ..)
    have hswap := applyOps_congr .backward ops (hop.undo_comm d)
    have hrest := ih (fun op'' hmem => h op'' (List.mem_cons_of_mem _ hmem))
    exact (hswap k).symm.trans (hrest (op'.apply .backward d) k)

/-- Steps that name different fields may be undone in any order, and so in the order of
the path. -/
theorem undo_apart (hapart : ops.Pairwise FieldOp.Apart)
    (h : Preserving ops d) : (applyOps .backward ops (applyOps .forward ops d)).Same d := by
  have hreverse : ∀ {ops : List (FieldOp K V)}, ops.Pairwise FieldOp.Apart → ∀ d : Dict K V,
      (applyOps .backward ops d).Same (applyOps .backward ops.reverse d) := by
    intro ops hapart
    induction hapart with
    | nil => exact fun d k => rfl
    | @cons op ops hop _ ih =>
      intro d k
      rw [List.reverse_cons, applyOps, applyOps, List.foldl_cons, List.foldl_append]
      exact (applyOps_apart hop d k).trans (op.apply_congr .backward (ih d) k)
  exact fun k => (hreverse hapart _ k).trans (undo_reversed h k)

/-! ### Following the fields -/

/-- Where a value may come from: from a field, or from a default, which is always there. -/
inductive Origin (K V : Type) where
  | field (name : K)
  | added (default : V)

def Origin.value (d : Dict K V) : Origin K V → Option V
  | .field name => d.get? name
  | .added default => some default

def movedFrom (source target k : K) : List (Origin K V) :=
  if target = k then [.field source, .field target] else if source = k then [] else [.field k]

/-- Before a step: where the value that is under `k` after it was. The first of these
that is there counts. -/
def FieldOp.origins : Direction → FieldOp K V → K → List (Origin K V)
  | .forward, .add name default, k =>
    if name = k then [.field name, .added default] else [.field k]
  | .backward, .add name _, k => if name = k then [] else [.field k]
  | .forward, .rename oldName newName, k => movedFrom oldName newName k
  | .backward, .rename oldName newName, k => movedFrom newName oldName k

/-- The origins under each name, one step later. -/
def FieldOp.traceBack (direction : Direction) (op : FieldOp K V)
    (origins : K → List (Origin K V)) (k : K) : List (Origin K V) :=
  (op.origins direction k).flatMap fun origin =>
    match origin with
    | .field name => origins name
    | .added default => [.added default]

def traceOps (direction : Direction) (ops : List (FieldOp K V))
    (origins : K → List (Origin K V)) : K → List (Origin K V) :=
  ops.foldl (fun origins op => op.traceBack direction origins) origins

/-- What may be under a name once a record has gone through the path, and through it
again. -/
def returnOrigins (ops : List (FieldOp K V)) : K → List (Origin K V) :=
  traceOps .backward ops (traceOps .forward ops fun k => [.field k])

/-- Under every name, the first origin that the record has is as good as the field of
that name. -/
def ComesHome (ops : List (FieldOp K V)) (d : Dict K V) : Prop :=
  ∀ k, (returnOrigins ops k).findSome? (Origin.value d) = d.get? k

theorem get?_apply (direction : Direction) (op : FieldOp K V) (data : Dict K V) (k : K) :
    (op.apply direction data).get? k =
      (op.origins direction k).findSome? (Origin.value data) := by
  cases op with
  | add name default =>
    cases direction with
    | forward =>
      rw [get?_add, FieldOp.origins]
      split <;> cases hget : data.get? name <;> simp_all [Origin.value]
    | backward =>
      rw [FieldOp.apply, Dict.get?_erase, FieldOp.origins]
      split <;> simp [Origin.value]
  | rename oldName newName =>
    have hmoved : ∀ source target : K, (rename data source target).get? k =
        (movedFrom source target k).findSome? (Origin.value data) := by
      intro source target
      rw [get?_rename, movedFrom]
      split
      · cases hget : data.get? source <;> simp [Origin.value, hget]
      · split <;> simp [Origin.value]
    cases direction <;> exact hmoved ..

/-- The record `d` has become `data`, and this is where its values come from. -/
def Traces (d : Dict K V) (origins : K → List (Origin K V)) (data : Dict K V) : Prop :=
  ∀ k, data.get? k = (origins k).findSome? (Origin.value d)

theorem Traces.apply {origins : K → List (Origin K V)} (h : Traces d origins data)
    (direction : Direction) (op : FieldOp K V) :
    Traces d (op.traceBack direction origins) (op.apply direction data) := by
  intro k
  rw [get?_apply, FieldOp.traceBack, findSome?_flatMap]
  congr 1
  funext origin
  cases origin with
  | field name => exact h name
  | added default => rfl

theorem Traces.applyOps {origins : K → List (Origin K V)} (h : Traces d origins data)
    (direction : Direction) (ops : List (FieldOp K V)) :
    Traces d (traceOps direction ops origins) (applyOps direction ops data) := by
  induction ops generalizing origins data with
  | nil => exact h
  | cons op ops ih => exact ih (h.apply direction op)

/-- Where the values of a record are from that has gone through a path and back. -/
theorem traces_return (ops : List (FieldOp K V)) (d : Dict K V) :
    Traces d (returnOrigins ops) (applyOps .backward ops (applyOps .forward ops d)) := by
  have hstart : Traces d (fun k => [.field k]) d := fun k => by
    simp [Origin.value]
  exact (hstart.applyOps .forward ops).applyOps .backward ops

theorem comesHome_of_apart (hapart : ops.Pairwise FieldOp.Apart)
    (h : Preserving ops d) : ComesHome ops d :=
  fun k => (traces_return ops d k).symm.trans (undo_apart hapart h k)

variable (R) in
/-- **Main theorem.** Along a path of additions and renamings, a record migrated
forward and then backward is itself again exactly if following its fields through the
path, and then through it again, leaves under every name a field with the value the
record has there. -/
theorem round_trip_iff (dag : MigrationDAG V) (fromFp toFp : String) (ops : List (FieldOp K V))
    (d : Dict K V) (hpath : dag.findPath fromFp toFp 5 ≠ [])
    (hops : List.Forall₂ (MigrationStep.Denotes R) (dag.findPath fromFp toFp 5) ops) :
    (∃ there back, migrateData R dag d fromFp toFp .forward = .ok there ∧
      migrateData R dag there fromFp toFp .backward = .ok back ∧ back.Same d) ↔
    ComesHome ops d := by
  have hmigrate : ∀ data direction,
      migrateData R dag data fromFp toFp direction = .ok (applyOps direction ops data) := by
    intro data direction
    rw [migrateData]
    simp only [List.isEmpty_iff, hpath, if_false]
    exact applyPath_eq hops direction
  simp only [hmigrate, Except.ok.injEq, exists_and_left, exists_eq_left']
  constructor
  · intro hsame k
    exact (traces_return ops d k).symm.trans (hsame k)
  · intro hhome k
    exact (traces_return ops d k).trans (hhome k)

/-- A step that renames one field. -/
def renameStep (k : Nat) (oldName newName : String) : MigrationStep String :=
  ⟨s!"m{k}", s!"v{k}", s!"v{k + 1}", .renameField, "",
    Dict.ofList [("old_name", oldName), ("new_name", newName)]⟩

theorem renameStep_denotes (k : Nat) (oldName newName : String) :
    (renameStep k oldName newName).Denotes textRuntime (.rename oldName newName) :=
  ⟨rfl, oldName, newName, rfl, rfl, rfl, rfl⟩

/-- Two fields renamed, and a record that has both. -/
theorem round_trip_apart : ∃ there back,
    migrateData textRuntime (.ofSteps [renameStep 0 "a" "b", renameStep 1 "c" "d"])
        (Dict.ofList [("a", "1"), ("c", "2")]) "v0" "v2" .forward = .ok there ∧
      migrateData textRuntime (.ofSteps [renameStep 0 "a" "b", renameStep 1 "c" "d"])
        there "v0" "v2" .backward = .ok back ∧
      back.Same (Dict.ofList [("a", "1"), ("c", "2")]) := by
  have hpath : (MigrationDAG.ofSteps [renameStep 0 "a" "b", renameStep 1 "c" "d"]).findPath
      "v0" "v2" 5 = [renameStep 0 "a" "b", renameStep 1 "c" "d"] :=
    findPath_chain ⟨by decide, by decide⟩ (by decide) (List.Perm.refl _) 5
  refine (round_trip_iff textRuntime _ "v0" "v2" [.rename "a" "b", .rename "c" "d"] _
    (by rw [hpath]; decide) ?_).mpr ?_
  · rw [hpath]
    exact .cons (renameStep_denotes ..) (.cons (renameStep_denotes ..) .nil)
  · exact comesHome_of_apart (by simp [FieldOp.Apart, FieldOp.names]) (by decide)

/-- A field renamed twice: undoing the first renaming first finds nothing to undo. -/
theorem renamed_twice_stays :
    Preserving [.rename "a" "b", .rename "b" "c"] (Dict.ofList [("a", "1")]) ∧
      (do
        let there ← migrateData textRuntime
          (.ofSteps [renameStep 0 "a" "b", renameStep 1 "b" "c"]) (Dict.ofList [("a", "1")])
          "v0" "v2" .forward
        migrateData textRuntime (.ofSteps [renameStep 0 "a" "b", renameStep 1 "b" "c"]) there
          "v0" "v2" .backward) = .ok (Dict.ofList [("b", "1")]) ∧
      ¬ (Dict.ofList [("b", "1")]).Same (Dict.ofList [("a", "1")]) := by
  have hpath : (MigrationDAG.ofSteps [renameStep 0 "a" "b", renameStep 1 "b" "c"]).findPath
      "v0" "v2" 5 = [renameStep 0 "a" "b", renameStep 1 "b" "c"] :=
    findPath_chain ⟨by decide, by decide⟩ (by decide) (List.Perm.refl _) 5
  refine ⟨by decide, ?_, fun hsame => ?_⟩
  · simp only [migrateData, hpath]
    rfl
  · exact absurd (hsame "a") (by decide)

end PiPlatform.EventFabric.Schema
