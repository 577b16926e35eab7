import PiPlatform.EventFabric.Schema.Retrace
import PiPlatform.Library.Serde

/-! The Rust port of data migration, against the Python it mirrors.

Both sides search one graph of steps, so they find the same path, the Rust one with its
steps as they were read from JSON (`findPath_port`). Along the path they edit the same
object: `Reads` says that a Rust map is what is read of a Python dictionary, whatever
the order of its entries, and every built-in transformation keeps it.

They part at the empty path: Python refuses it, the port refuses it only when the two
fingerprints differ. -/
namespace PiPlatform.EventFabric.Port

open Library Library.Python Library.Serde
open Schema (Direction MigrationDAG MigrationStep Runtime TransformationType)
open Schema.MigrationDAG (ofSteps)

/-! ### The port -/

structure StepIn where
  migrationId : String
  fromFingerprint : String
  toFingerprint : String
  transformationType : String
  fieldName : String
  parameters : Value

def graph (steps : List StepIn) : EdgeGraph String StepIn :=
  .ofEdges (fun s => s.fromFingerprint) (fun s => s.toFingerprint) steps

def findPath (steps : List StepIn) (fromFp toFp : String) (maxHops : Nat) : List StepIn :=
  (graph steps).findPath fromFp toFp maxHops

/-- `p.get(key).cloned().unwrap_or(Value::Null)` -/
def StepIn.parameter (step : StepIn) (key : String) : Value :=
  (step.parameters.get key).getD .null

/-- `p.get(key).and_then(|v| v.as_str()).unwrap_or("")` -/
def StepIn.name (step : StepIn) (key : String) : String :=
  ((step.parameters.get key).bind Value.asStr).getD ""

/-- `if let Some(v) = result.remove(source) { result.insert(target, v); }` -/
def renameKey (result : Map) (source target : String) : Map :=
  match result.get? source with
  | some v => (result.remove source).set target v
  | none => result

/-- One step, on a JSON object. -/
def applyMigration (data : Value) (step : StepIn) (direction : String) : Value :=
  let result := data.toMap
  Map.toValue <|
    match step.transformationType with
    | "add_field" =>
      if direction = "forward" then
        if result.contains step.fieldName then result
        else result.set step.fieldName (step.parameter "default")
      else result.remove step.fieldName
    | "remove_field" =>
      if direction = "forward" then result.remove step.fieldName
      else result.set step.fieldName (step.parameter "restore_value")
    | "rename_field" =>
      if direction = "forward" then renameKey result (step.name "old_name") (step.name "new_name")
      else renameKey result (step.name "new_name") (step.name "old_name")
    | _ => result

def migrateData (data : Value) (steps : List StepIn) (fromFp toFp direction : String) :
    Except String Value :=
  let path := findPath steps fromFp toFp 5
  if path.isEmpty ∧ fromFp ≠ toFp then
    .error ("No migration path from " ++ fromFp ++ " to " ++ toFp)
  else .ok (path.foldl (fun result step => applyMigration result step direction) data)

/-! ### What the port is given -/

/-- A dictionary key: numbers are one key when they are equal. -/
inductive PlainKey where
  | none
  | number (x : Dyadic)
  | str (s : String)
  deriving DecidableEq

def PlainKey.ofPlain : Plain → Except PyError PlainKey
  | .none => .ok .none
  | .bool b => .ok (.number (.ofInt b.toInt))
  | .int i => .ok (.number (.ofInt i))
  | .float x => .ok (.number x)
  | .str s => .ok (.str s)
  | .list _ => .error .typeError
  | .dict _ => .error .typeError

def truthy : Plain → Bool
  | .none => false
  | .bool b => b
  | .int i => i ≠ 0
  | .float x => x ≠ 0
  | .str s => s ≠ ""
  | .list xs => !xs.isEmpty
  | .dict items => !items.isEmpty

/-- Python over JSON values, none of which can be called. -/
def plainRuntime : Runtime PlainKey Plain where
  name := .str
  none := .none
  asKey := PlainKey.ofPlain
  truthy := truthy
  call := fun _ _ _ => .error .typeError

def typeValue : TransformationType → String
  | .addField => "add_field"
  | .removeField => "remove_field"
  | .renameField => "rename_field"
  | .changeType => "change_type"
  | .custom => "custom"

/-- Any other direction is taken the way back. -/
def directionOf (direction : String) : Direction :=
  if direction = "forward" then .forward else .backward

/-- A step as the port reads it. -/
def toStepIn (R : Reader) (step : MigrationStep Plain) : StepIn where
  migrationId := step.migrationId
  fromFingerprint := step.fromFingerprint
  toFingerprint := step.toFingerprint
  transformationType := typeValue step.transformationType
  fieldName := step.fieldName
  parameters := (Map.ofPlain R step.parameters).toValue

/-- A built-in transformation; a renaming gives both names. -/
def Portable (step : MigrationStep Plain) : Prop :=
  match step.transformationType with
  | .addField => True
  | .removeField => True
  | .renameField => ∃ oldName newName, step.parameters.get? "old_name" = some (.str oldName) ∧
      step.parameters.get? "new_name" = some (.str newName)
  | _ => False

/-- A JSON object as the dictionary it is in Python. -/
def pyObject (data : Dict String Plain) : Dict PlainKey Plain where
  items := data.items.map fun p => (.str p.1, p.2)
  nodup := by
    rw [List.map_map]
    have h := data.nodup.map (f := PlainKey.str) fun _ _ => PlainKey.str.inj
    rwa [List.map_map] at h

section Agreement
variable (R : Reader)

/-- The map is what is read of the dictionary, all of whose keys are strings. -/
structure Reads (d : Dict PlainKey Plain) (m : Map) : Prop where
  get : ∀ k, m.get? k = (d.get? (.str k)).map (Value.ofPlain R)
  named : ∀ k, d.contains k = true → ∃ s, k = .str s

/-- Both return the same object, or the one raises a `ValueError` and the other
returns an error. -/
def Agrees : Except PyError (Dict PlainKey Plain) → Except String Value → Prop
  | .ok d, .ok v => ∃ m : Map, v = m.toValue ∧ Reads R d m
  | .error (.valueError _), .error _ => True
  | _, _ => False

end Agreement

/-! ### One path -/

section Paths
variable {steps : List (MigrationStep Plain)}

theorem renders_port (R : Reader) (steps : List (MigrationStep Plain)) :
    EdgeGraph.Renders (toStepIn R) (ofSteps steps).graph
      (graph (steps.map (toStepIn R))) where
  edges n := by
    rw [Schema.graph_ofSteps, graph, EdgeGraph.edgesFrom_ofEdges, EdgeGraph.edgesFrom_ofEdges,
      List.filter_map]
    rfl
  target step := by
    rw [Schema.graph_ofSteps]
    rfl

/-- The port finds the steps Python finds. -/
theorem findPath_port (R : Reader) (steps : List (MigrationStep Plain)) (fromFp toFp : String)
    (maxHops : Nat) :
    findPath (steps.map (toStepIn R)) fromFp toFp maxHops =
      ((ofSteps steps).findPath fromFp toFp maxHops).map (toStepIn R) := by
  rw [findPath, MigrationDAG.findPath]
  exact (renders_port R steps).findPath fromFp toFp maxHops

theorem mem_of_mem_findPath {fromFp toFp : String} {maxHops : Int} {step : MigrationStep Plain}
    (h : step ∈ (ofSteps steps).findPath fromFp toFp maxHops) : step ∈ steps := by
  rw [MigrationDAG.findPath] at h
  refine EdgeGraph.forall_findPath (P := fun s => s ∈ steps) (fun n s hs => ?_) fromFp step h
  rw [Schema.graph_ofSteps, EdgeGraph.edgesFrom_ofEdges] at hs
  exact List.mem_of_mem_filter hs

end Paths

/-! ### One object -/

namespace Reads
variable {R : Reader} {d : Dict PlainKey Plain} {m : Map}

theorem pyObject (data : Dict String Plain) : Reads R (pyObject data) (Map.ofPlain R data) where
  get k := by
    have hitems : ∀ items : List (String × Plain),
        lookupItem (PlainKey.str k) (items.map fun p => (.str p.1, p.2)) = lookupItem k items := by
      intro items
      induction items with
      | nil => rfl
      | cons p items ih => simp only [List.map_cons, lookupItem, ih, PlainKey.str.injEq]
    rw [Map.get?_ofPlain]
    exact congrArg _ (hitems data.items).symm
  named k hk := by
    obtain ⟨v, hv⟩ := Option.isSome_iff_exists.mp hk
    obtain ⟨p, -, hp⟩ := List.mem_map.mp ((Port.pyObject data).mem_items.mpr hv)
    exact ⟨p.1, (congrArg Prod.fst hp).symm⟩

theorem contains (h : Reads R d m) (k : String) : m.contains k = d.contains (.str k) := by
  rw [Dict.contains, Dict.contains, h.get, Option.isSome_map]

theorem set (h : Reads R d m) (k : String) (v : Plain) :
    Reads R (d.set (.str k) v) (m.set k (Value.ofPlain R v)) where
  get k' := by
    rw [Dict.get?_set, Dict.get?_set, h.get]
    by_cases hk : k = k'
    · rw [if_pos hk, if_pos (congrArg _ hk), Option.map_some]
    · rw [if_neg hk, if_neg fun heq => hk (PlainKey.str.inj heq)]
  named k' hk' := by
    by_cases hk : PlainKey.str k = k'
    · exact ⟨k, hk.symm⟩
    · rw [Dict.contains, Dict.get?_set_ne hk] at hk'
      exact h.named k' hk'

theorem erase (h : Reads R d m) (k : String) : Reads R (d.erase (.str k)) (m.remove k) where
  get k' := by
    rw [Map.get?_remove, Dict.get?_erase, h.get]
    by_cases hk : k = k'
    · rw [if_pos hk, if_pos (congrArg _ hk), Option.map_none]
    · rw [if_neg hk, if_neg fun heq => hk (PlainKey.str.inj heq)]
  named k' hk' := by
    rw [Dict.contains, Dict.get?_erase] at hk'
    split at hk'
    · cases hk'
    · exact h.named k' hk'

theorem renameKey (h : Reads R d m) (source target : String) :
    Reads R (Schema.rename d (.str source) (.str target)) (renameKey m source target) := by
  have hget := h.get source
  unfold Schema.rename Port.renameKey
  cases hd : d.get? (.str source) with
  | none =>
    rw [hget, hd]
    exact h
  | some v =>
    rw [hget, hd]
    exact (h.erase source).set target v

end Reads

variable {R : Reader}

theorem parameter_toStepIn (step : MigrationStep Plain) (key : String) :
    (toStepIn R step).parameter key = Value.ofPlain R (plainRuntime.parameter step key) := by
  show ((Map.ofPlain R step.parameters).get? key).getD .null = _
  rw [Map.get?_ofPlain, Runtime.parameter]
  cases step.parameters.get? key with
  | none => rfl
  | some v => rfl

theorem name_toStepIn {step : MigrationStep Plain} {key name : String}
    (h : step.parameters.get? key = some (.str name)) :
    (toStepIn R step).name key = name ∧ step.parameter key = .ok (.str name) := by
  refine ⟨?_, ?_⟩
  · show (((Map.ofPlain R step.parameters).get? key).bind Value.asStr).getD "" = name
    rw [Map.get?_ofPlain, h]
    rfl
  · rw [MigrationStep.parameter, h]

theorem renameKey_plain (d : Dict PlainKey Plain) (source target : String) :
    Schema.renameKey plainRuntime d (.str source) (.str target) =
      .ok (Schema.rename d (.str source) (.str target)) :=
  Schema.renameKey_eq rfl rfl

/-- One step, either way: the same change on both sides. -/
theorem applyMigration_port {step : MigrationStep Plain} (hstep : Portable step)
    {d : Dict PlainKey Plain} {m : Map} (h : Reads R d m) (direction : String) :
    ∃ d', Schema.applyMigration plainRuntime d step (directionOf direction) = .ok d' ∧
      ∃ m' : Map, applyMigration m.toValue (toStepIn R step) direction = m'.toValue ∧
        Reads R d' m' := by
  unfold applyMigration Schema.applyMigration directionOf
  rw [Map.toMap_toValue]
  rw [Portable] at hstep
  cases htype : step.transformationType with
  | addField =>
    have hkind : (toStepIn R step).transformationType = "add_field" := congrArg typeValue htype
    simp only [hkind]
    by_cases hdir : direction = "forward"
    · simp only [if_pos hdir]
      refine ⟨_, rfl, _, rfl, ?_⟩
      rw [parameter_toStepIn, h.contains]
      show Reads R (if d.contains (.str step.fieldName) then d else _)
        (if d.contains (.str step.fieldName) then m else _)
      split
      · exact h
      · exact h.set step.fieldName _
    · simp only [if_neg hdir]
      exact ⟨_, rfl, _, rfl, h.erase step.fieldName⟩
  | removeField =>
    have hkind : (toStepIn R step).transformationType = "remove_field" := congrArg typeValue htype
    simp only [hkind]
    by_cases hdir : direction = "forward"
    · simp only [if_pos hdir]
      exact ⟨_, rfl, _, rfl, h.erase step.fieldName⟩
    · simp only [if_neg hdir]
      refine ⟨_, rfl, _, rfl, ?_⟩
      rw [parameter_toStepIn]
      exact h.set step.fieldName _
  | renameField =>
    rw [htype] at hstep
    obtain ⟨oldName, newName, hold, hnew⟩ := hstep
    obtain ⟨hold', hold⟩ := name_toStepIn (R := R) hold
    obtain ⟨hnew', hnew⟩ := name_toStepIn (R := R) hnew
    have hkind : (toStepIn R step).transformationType = "rename_field" := congrArg typeValue htype
    simp only [hkind, hold, hnew, hold', hnew']
    by_cases hdir : direction = "forward"
    · simp only [if_pos hdir]
      exact ⟨_, renameKey_plain d oldName newName, _, rfl, h.renameKey oldName newName⟩
    · simp only [if_neg hdir]
      exact ⟨_, renameKey_plain d newName oldName, _, rfl, h.renameKey newName oldName⟩
  | changeType | custom =>
    rw [htype] at hstep
    exact hstep.elim

/-- And a whole path. -/
theorem applyPath_port {path : List (MigrationStep Plain)} (hpath : ∀ step ∈ path, Portable step)
    {d : Dict PlainKey Plain} {m : Map} (h : Reads R d m) (direction : String) :
    ∃ d', Schema.applyPath plainRuntime path (directionOf direction) d = .ok d' ∧
      ∃ m' : Map, (path.map (toStepIn R)).foldl
          (fun result step => applyMigration result step direction) m.toValue = m'.toValue ∧
        Reads R d' m' := by
  induction path generalizing d m with
  | nil => exact ⟨d, rfl, m, rfl, h⟩
  | cons step path ih =>
    obtain ⟨hstep, hpath⟩ := List.forall_mem_cons.mp hpath
    obtain ⟨d₁, hd₁, m₁, hm₁, h₁⟩ := applyMigration_port hstep h direction
    obtain ⟨d', hd', m', hm', h'⟩ := ih hpath h₁
    refine ⟨d', ?_, m', ?_, h'⟩
    · rw [Schema.applyPath, List.foldlM_cons, hd₁]
      exact hd'
    · rw [List.map_cons, List.foldl_cons, hm₁]
      exact hm'

/-- **Main theorem.** Over any registered steps the port migrates every object as
Python does, and fails where Python does, exactly when the two fingerprints differ. -/
theorem migrateData_agrees_iff (R : Reader) (steps : List (MigrationStep Plain))
    (hsteps : ∀ step ∈ steps, Portable step) (data : Dict String Plain)
    (fromFp toFp direction : String) :
    Agrees R
        (Schema.migrateData plainRuntime (ofSteps steps) (pyObject data) fromFp toFp
          (directionOf direction))
        (migrateData (Map.ofPlain R data).toValue (steps.map (toStepIn R)) fromFp toFp direction) ↔
      fromFp ≠ toFp := by
  have hpath := findPath_port R steps fromFp toFp 5
  unfold migrateData Schema.migrateData
  simp only [hpath, List.isEmpty_map]
  constructor
  · rintro hagrees rfl
    simp [MigrationDAG.findPath, EdgeGraph.findPath, Agrees] at hagrees
  · intro hne
    cases hempty : ((ofSteps steps).findPath fromFp toFp 5).isEmpty with
    | true =>
      simp only [Nat.cast_ofNat, if_true, hne, ne_eq, not_false_iff, and_self]
      trivial
    | false =>
      have hportable : ∀ step ∈ (ofSteps steps).findPath fromFp toFp 5,
          Portable step := fun step hstep => hsteps step (mem_of_mem_findPath hstep)
      have hreads : Reads R (pyObject data) (Map.ofPlain R data) := .pyObject data
      obtain ⟨d', hd', m', hm', h'⟩ := applyPath_port hportable hreads direction
      simp only [Nat.cast_ofNat, Bool.false_eq_true, if_false, false_and, hd', hm']
      exact ⟨m', rfl, h'⟩

def renameStep : MigrationStep Plain where
  migrationId := "m"
  fromFingerprint := "v0"
  toFingerprint := "v1"
  transformationType := .renameField
  fieldName := ""
  parameters := .ofList [("old_name", .str "a"), ("new_name", .str "b")]

def dataOfA : Dict String Plain := .ofList [("a", .int 1)]

theorem migrateData_agrees_rename :
    Agrees nearestReader
      (Schema.migrateData plainRuntime (ofSteps [renameStep]) (pyObject dataOfA) "v0"
        "v1" (directionOf "forward"))
      (migrateData (Map.ofPlain nearestReader dataOfA).toValue
        ([renameStep].map (toStepIn nearestReader)) "v0" "v1" "forward") :=
  (migrateData_agrees_iff nearestReader [renameStep]
    (List.forall_mem_singleton.mpr ⟨"a", "b", rfl, rfl⟩) dataOfA "v0" "v1" "forward").mpr
    (by decide)

/-- From a fingerprint to itself Python refuses and the port returns the data. -/
theorem migrateData_same_fingerprint :
    Schema.migrateData plainRuntime (ofSteps [renameStep]) (pyObject dataOfA) "v0"
        "v0" (directionOf "forward") = .error (Schema.noMigrationPath "v0" "v0") ∧
      migrateData (Map.ofPlain nearestReader dataOfA).toValue
        ([renameStep].map (toStepIn nearestReader)) "v0" "v0" "forward" =
          .ok (Map.ofPlain nearestReader dataOfA).toValue ∧
      ¬ ∀ (R : Reader) (steps : List (MigrationStep Plain)), (∀ step ∈ steps, Portable step) →
        ∀ (data : Dict String Plain) (fromFp toFp direction : String),
          Agrees R
            (Schema.migrateData plainRuntime (ofSteps steps) (pyObject data) fromFp
              toFp (directionOf direction))
            (migrateData (Map.ofPlain R data).toValue (steps.map (toStepIn R)) fromFp toFp
              direction) :=
  ⟨rfl, rfl, fun h => h nearestReader [renameStep]
    (List.forall_mem_singleton.mpr ⟨"a", "b", rfl, rfl⟩) dataOfA "v0" "v0" "forward"⟩

end PiPlatform.EventFabric.Port
