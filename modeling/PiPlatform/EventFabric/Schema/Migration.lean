import PiPlatform.Library.BreadthFirst
import PiPlatform.Library.Python.Value

/-! Schema migrations.

Steps are registered under the fingerprint they start from. A path is found breadth
first: the queue holds fingerprints with the steps that led there, a fingerprint is
expanded once, and no path grows beyond the hop limit. The search ends because each
turn of its loop expands a fingerprint that has steps, of which there are finitely
many, or shortens the queue.

The registry passes values around without looking into them, so what the interpreter
does with them is a parameter: a `Runtime`. -/
namespace PiPlatform.EventFabric.Schema

open Library Library.Python

inductive Direction where
  | forward
  | backward
  deriving DecidableEq

/-- `changeType` stands for every type that no branch handles. -/
inductive TransformationType where
  | addField
  | removeField
  | renameField
  | changeType
  | custom
  deriving DecidableEq

structure MigrationStep (V : Type) where
  migrationId : String
  fromFingerprint : String
  toFingerprint : String
  transformationType : TransformationType
  fieldName : String
  parameters : Dict String V

/-- What the interpreter does with values: a string as a dictionary key, `None`, using
a value as a key (not every value is hashable), `if value`, and
`value(data, direction)`. -/
structure Runtime (K V : Type) where
  name : String → K
  none : V
  asKey : V → Except PyError K
  truthy : V → Bool
  call : V → Dict K V → Direction → Except PyError (Dict K V)

variable {K V : Type}

/-! ### The migration graph -/

/-- The steps from each fingerprint, in the order they were registered. -/
structure MigrationDAG (V : Type) where
  stepsByFrom : Dict String (List (MigrationStep V))

namespace MigrationDAG

def empty : MigrationDAG V := ⟨.empty⟩

/-- `self._forward.get(fp, [])` -/
def stepsFrom (dag : MigrationDAG V) (fp : String) : List (MigrationStep V) :=
  (dag.stepsByFrom.get? fp).getD []

def register (dag : MigrationDAG V) (step : MigrationStep V) : MigrationDAG V :=
  ⟨dag.stepsByFrom.set step.fromFingerprint (dag.stepsFrom step.fromFingerprint ++ [step])⟩

/-- The migrations as a graph. -/
def graph (dag : MigrationDAG V) : EdgeGraph String (MigrationStep V) :=
  ⟨dag.stepsByFrom, fun step => step.toFingerprint⟩

@[simp] theorem edgesFrom_graph (dag : MigrationDAG V) (fp : String) :
    dag.graph.edgesFrom fp = dag.stepsFrom fp := rfl

/-- `find_migration_path`; its loop is `EdgeGraph.search`. -/
def findPath (dag : MigrationDAG V) (fromFp toFp : String) (maxHops : Int) :
    List (MigrationStep V) :=
  dag.graph.findPath fromFp toFp maxHops

end MigrationDAG

/-! ### Executing migrations -/

/-- `step.parameters.get(key)` -/
def Runtime.parameter (R : Runtime K V) (step : MigrationStep V) (key : String) : V :=
  (step.parameters.get? key).getD R.none

/-- `step.parameters[key]` -/
def MigrationStep.parameter (step : MigrationStep V) (key : String) : Except PyError V :=
  match step.parameters.get? key with
  | none => .error (.keyError key)
  | some v => .ok v

variable [DecidableEq K] (R : Runtime K V)

/-- `if source in result: result[target] = result.pop(source)` -/
def renameKey (data : Dict K V) (source target : V) : Except PyError (Dict K V) := do
  let sourceKey ← R.asKey source
  match data.get? sourceKey with
  | none => return data
  | some v => return (data.erase sourceKey).set (← R.asKey target) v

/-- One step; the change of a type leaves the data as they are. -/
def applyMigration (data : Dict K V) (step : MigrationStep V) (direction : Direction) :
    Except PyError (Dict K V) :=
  let field := R.name step.fieldName
  match step.transformationType, direction with
  | .addField, .forward =>
    .ok (if data.contains field then data else data.set field (R.parameter step "default"))
  | .addField, .backward => .ok (data.erase field)
  | .removeField, .forward => .ok (data.erase field)
  | .removeField, .backward => .ok (data.set field (R.parameter step "restore_value"))
  | .renameField, .forward => do
    let oldName ← step.parameter "old_name"
    let newName ← step.parameter "new_name"
    renameKey R data oldName newName
  | .renameField, .backward => do
    let newName ← step.parameter "new_name"
    let oldName ← step.parameter "old_name"
    renameKey R data newName oldName
  | .custom, direction =>
    let transform := R.parameter step "transform"
    if R.truthy transform then R.call transform data direction else .ok data
  | .changeType, _ => .ok data

/-- The loop of `migrate_data`. -/
def applyPath (path : List (MigrationStep V)) (direction : Direction) (data : Dict K V) :
    Except PyError (Dict K V) :=
  path.foldlM (fun result step => applyMigration R result step direction) data

def noMigrationPath (fromFp toFp : String) : PyError :=
  .valueError ("No migration path from " ++ fromFp ++ " to " ++ toFp)

/-- `migrate_data`, with the hop limit `find_migration_path` has by default. -/
def migrateData (dag : MigrationDAG V) (data : Dict K V) (fromFp toFp : String)
    (direction : Direction) : Except PyError (Dict K V) :=
  let path := dag.findPath fromFp toFp 5
  if path.isEmpty then .error (noMigrationPath fromFp toFp) else applyPath R path direction data

end PiPlatform.EventFabric.Schema
