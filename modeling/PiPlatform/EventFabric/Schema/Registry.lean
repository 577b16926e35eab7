import Mathlib.Data.String.Basic
import PiPlatform.EventFabric.Bus.Event
import PiPlatform.EventFabric.Schema.Compatibility
import PiPlatform.Library.BreadthFirst
import PiPlatform.Library.Python.JsonModule
import PiPlatform.Library.StableSort
import PiPlatform.Library.UniqueTable

/-! The schema registry.

A schema without a fingerprint is given the hash of its canonical JSON. Registering a
schema inserts a row unless one with its fingerprint, or with its name and version, is
there, and returns the fingerprint either way.

A migration is registered twice: as a row, unless its id has one, and as an edge of the
graph in memory, always. A registry opened on the same database makes its graph of the
rows. -/
namespace PiPlatform.EventFabric.Schema.Registry

open Library Library.Json Library.Python

/-! ### Schemas -/

structure SchemaFingerprint where
  value : String
  schemaJson : String
  deriving DecidableEq

/-- `SchemaFingerprint(value, schema_json)`: an empty value is the hash of the JSON. -/
def SchemaFingerprint.make (H : Digest) (value schemaJson : String) : SchemaFingerprint :=
  if value = "" ∧ schemaJson ≠ "" then ⟨H.hex schemaJson, schemaJson⟩ else ⟨value, schemaJson⟩

structure FieldSchema (F : Type) where
  name : String
  type : String
  required : Bool
  default : PyValue F
  description : String
  nestedSchemaFingerprint : Option SchemaFingerprint

structure ArtifactSchema (F : Type) where
  schemaName : String
  version : String
  fields : List (FieldSchema F)
  compatibility : CompatibilityLevel
  previousFingerprint : Option SchemaFingerprint
  fingerprint : SchemaFingerprint

section Schemas
variable {F : Type}

def FieldSchema.toDict (f : FieldSchema F) : PyValue F :=
  .dict
    ([(.str (ofString "name"), .str (ofString f.name)),
        (.str (ofString "type"), .str (ofString f.type)),
        (.str (ofString "required"), .bool f.required),
        (.str (ofString "default"), f.default),
        (.str (ofString "description"), .str (ofString f.description))] ++
      match f.nestedSchemaFingerprint with
      | none => []
      | some fp => [(.str (ofString "nested_schema_fingerprint"), .str (ofString fp.value))])

variable [FloatCodec F] [SetText F] (H : Digest)

/-- `_canonical_json` -/
def ArtifactSchema.canonicalJson (s : ArtifactSchema F) : Except PyError String :=
  dumps .compact <| .dict
    [(.str (ofString "schema_name"), .str (ofString s.schemaName)),
      (.str (ofString "version"), .str (ofString s.version)),
      (.str (ofString "fields"), .list ((sortBy FieldSchema.name s.fields).map FieldSchema.toDict)),
      (.str (ofString "compatibility"), .str (ofString s.compatibility.value))]

/-- `__post_init__`: a schema without a fingerprint gets one. -/
def ArtifactSchema.make (s : ArtifactSchema F) : Except PyError (ArtifactSchema F) :=
  if s.fingerprint.value = "" then do
    let canonical ← s.canonicalJson
    return { s with fingerprint := SchemaFingerprint.make H "" canonical }
  else .ok s

/-- A schema as it is once it has been made. -/
structure MadeSchema (F : Type) [FloatCodec F] [SetText F] (H : Digest) where
  schema : ArtifactSchema F
  made : ∃ given : ArtifactSchema F, given.make H = .ok schema

end Schemas

/-- The columns of `registered_schemas` that an `INSERT` lists. -/
structure SchemaRow where
  schemaName : String
  version : String
  fingerprint : String
  canonicalJson : String
  compatibility : String
  previousFingerprint : Option String
  registeredBy : String
  deriving DecidableEq

/-- `fingerprint … UNIQUE` and `UNIQUE(schema_name, version)` -/
def SchemaRow.clash (a b : SchemaRow) : Bool :=
  a.fingerprint == b.fingerprint || a.schemaName == b.schemaName && a.version == b.version

abbrev SchemaTable := UniqueTable SchemaRow.clash

def ArtifactSchema.row {F : Type} (s : ArtifactSchema F) (registeredBy : String) : SchemaRow where
  schemaName := s.schemaName
  version := s.version
  fingerprint := s.fingerprint.value
  canonicalJson := s.fingerprint.schemaJson
  compatibility := s.compatibility.value
  previousFingerprint := s.previousFingerprint.map fun fp => fp.value
  registeredBy := registeredBy

/-- A call of `register_schema`. -/
structure SchemaCall (F : Type) [FloatCodec F] [SetText F] (H : Digest) extends
    MadeSchema F H where
  registeredBy : String

def registerSchema {F : Type} [FloatCodec F] [SetText F] {H : Digest} (table : SchemaTable)
    (call : SchemaCall F H) : Except PyError String × SchemaTable :=
  (.ok call.schema.fingerprint.value,
    table.insertOrIgnore (call.schema.row call.registeredBy))

def getSchema (table : SchemaTable) (fingerprint : String) : Option SchemaRow :=
  table.find? SchemaRow.fingerprint fingerprint

/-! ### What stays registered -/

section Registered
variable {F : Type}

theorem fits_row_iff {table : SchemaTable} {s : ArtifactSchema F} {registeredBy : String} :
    table.Fits (s.row registeredBy) ↔
      (∀ row ∈ table.rows, row.fingerprint ≠ s.fingerprint.value) ∧
      ∀ row ∈ table.rows, row.schemaName = s.schemaName → row.version ≠ s.version := by
  rw [UniqueTable.Fits, ← forall₂_and]
  refine forall₂_congr fun row _ => ?_
  simp [SchemaRow.clash, ArtifactSchema.row]

variable [FloatCodec F] [SetText F] {H : Digest}

/-- Every fingerprint that was returned is found, with the canonical JSON of the schema. -/
def SchemasKept (j : Journal (SchemaCall F H) String SchemaRow.clash) : Prop :=
  ∀ call fingerprint, (call, fingerprint) ∈ j.returned →
    ∃ row, getSchema j.table fingerprint = some row ∧
      call.schema.canonicalJson = .ok row.canonicalJson

/-- A row with the fingerprint has the schema's canonical JSON. Without one, the schema's
name and version are new and its canonical JSON is the one its fingerprint carries. -/
def SchemaRetained (table : SchemaTable) (call : SchemaCall F H) : Prop :=
  (∀ row ∈ table.rows, row.fingerprint = call.schema.fingerprint.value →
    call.schema.canonicalJson = .ok row.canonicalJson) ∧
  ((∀ row ∈ table.rows, row.fingerprint ≠ call.schema.fingerprint.value) →
    (∀ row ∈ table.rows, row.schemaName = call.schema.schemaName →
      row.version ≠ call.schema.version) ∧
    call.schema.canonicalJson = .ok call.schema.fingerprint.schemaJson)

def SchemaCall.row (call : SchemaCall F H) : Except PyError SchemaRow :=
  .ok (call.schema.row call.registeredBy)

theorem inserts_registerSchema : Inserts (registerSchema (F := F) (H := H)) SchemaCall.row
    fun call => call.schema.fingerprint.value :=
  fun _ _ => rfl

theorem retained_iff (table : SchemaTable) (call : SchemaCall F H) :
    Retained SchemaCall.row (fun c => c.schema.fingerprint.value) SchemaRow.fingerprint
        (fun (_ : SchemaCall F H) fingerprint => fingerprint)
        (fun c row => c.schema.canonicalJson = .ok row.canonicalJson) table call ↔
      SchemaRetained table call := by
  have hclash : ∀ a b : SchemaRow, a.fingerprint = b.fingerprint → a.clash b = true :=
    fun _ _ h => by rw [SchemaRow.clash, beq_iff_eq.mpr h, Bool.true_or]
  have hretained : ∀ {P : SchemaRow → Prop}, (∀ r, call.row = .ok r → P r) ↔
      P (call.schema.row call.registeredBy) :=
    ⟨fun h => h _ rfl, fun h r hr => Except.ok.inj hr ▸ h⟩
  rw [Retained, hretained]
  cases hfind : table.find? SchemaRow.fingerprint call.schema.fingerprint.value with
  | some old =>
    obtain ⟨hold, hfp⟩ := (UniqueTable.find?_eq_some hclash).mp hfind
    constructor
    · intro hheld
      refine ⟨fun row hrow heq => ?_, fun hnone => absurd hfp (hnone old hold)⟩
      have hrowfind := (UniqueTable.find?_eq_some hclash).mpr ⟨hrow, heq⟩
      obtain rfl : old = row := Option.some.inj (hfind.symm.trans hrowfind)
      exact hheld
    · exact fun h => h.1 old hold hfp
  | none =>
    have hnone := UniqueTable.find?_eq_none.mp hfind
    constructor
    · rintro ⟨hfits, hcanonical⟩
      exact ⟨fun row hrow heq => absurd heq (hnone row hrow),
        fun _ => ⟨(fits_row_iff.mp hfits).2, hcanonical⟩⟩
    · intro h
      exact ⟨fits_row_iff.mpr ⟨hnone, (h.2 hnone).1⟩, (h.2 hnone).2⟩

/-- Schemas stay registered if and only if each is `SchemaRetained` when it comes. -/
theorem schemas_kept_iff (calls : List (SchemaCall F H)) :
    (journal registerSchema).Always SchemasKept calls ↔
      (journal registerSchema).Admits (fun j => SchemaRetained j.table) calls := by
  have hkeeps : (journal registerSchema).Always SchemasKept calls ↔ _ :=
    keeps_iff inserts_registerSchema (fun _ _ hrow => by rw [← Except.ok.inj hrow]; rfl) calls
  exact hkeeps.trans ((journal registerSchema).admits_congr
    (fun j call => retained_iff j.table call) calls)

end Registered

/-! ### Migrations -/

structure MigrationStep (D : Type) where
  migrationId : String
  fromFingerprint : String
  toFingerprint : String
  direction : String
  transformationType : String
  fieldName : String
  parameters : D
  description : String
  deterministic : Bool
  reversible : Bool

/-- The columns of `migration_registry` that an `INSERT` lists. -/
structure MigrationRow where
  migrationId : String
  fromFingerprint : String
  toFingerprint : String
  direction : String
  transformationType : String
  fieldName : String
  parametersJson : String
  description : String
  deterministic : Bool
  reversible : Bool
  registeredBy : String
  deriving DecidableEq

/-- `migration_id TEXT PRIMARY KEY` -/
def MigrationRow.clash (a b : MigrationRow) : Bool := a.migrationId == b.migrationId

abbrev MigrationTable := UniqueTable MigrationRow.clash

variable {D : Type} (J : JsonModule D)

def MigrationStep.row (step : MigrationStep D) (registeredBy : String) :
    Except PyError MigrationRow := do
  let parametersJson ← J.dumps step.parameters
  return {
    migrationId := step.migrationId
    fromFingerprint := step.fromFingerprint
    toFingerprint := step.toFingerprint
    direction := step.direction
    transformationType := step.transformationType
    fieldName := step.fieldName
    parametersJson := parametersJson
    description := step.description
    deterministic := step.deterministic
    reversible := step.reversible
    registeredBy := registeredBy }

/-- The step a row is read back as. -/
def MigrationRow.step (row : MigrationRow) : Except PyError (MigrationStep D) := do
  let parameters ← J.loads row.parametersJson
  return {
    migrationId := row.migrationId
    fromFingerprint := row.fromFingerprint
    toFingerprint := row.toFingerprint
    direction := row.direction
    transformationType := row.transformationType
    fieldName := row.fieldName
    parameters := parameters
    description := row.description
    deterministic := row.deterministic
    reversible := row.reversible }

/-- The migrations by the fingerprint they start from. -/
abbrev MigrationDAG (D : Type) := EdgeGraph String (MigrationStep D)

def MigrationDAG.empty : MigrationDAG D := ⟨.empty, fun step => step.toFingerprint⟩

def MigrationDAG.register (dag : MigrationDAG D) (step : MigrationStep D) : MigrationDAG D :=
  { dag with
    edges := dag.edges.set step.fromFingerprint (dag.edgesFrom step.fromFingerprint ++ [step]) }

structure SchemaRegistry (D : Type) where
  migrations : MigrationTable
  dag : MigrationDAG D

/-- A call of `register_migration`. -/
structure MigrationCall (D : Type) where
  step : MigrationStep D
  registeredBy : String

/-- Parameters that JSON cannot write leave both as they were. -/
def SchemaRegistry.registerMigration (registry : SchemaRegistry D) (call : MigrationCall D) :
    Except PyError Unit × SchemaRegistry D :=
  match call.step.row J call.registeredBy with
  | .error e => (.error e, registry)
  | .ok row =>
    (.ok (), ⟨registry.migrations.insertOrIgnore row,
      MigrationDAG.register registry.dag call.step⟩)

/-- `SchemaRegistry(db_path)`, which loads the migrations into its graph. -/
def SchemaRegistry.load (migrations : MigrationTable) : Except PyError (SchemaRegistry D) := do
  let steps ← migrations.rows.mapM (MigrationRow.step J)
  return ⟨migrations, steps.foldl MigrationDAG.register .empty⟩

def SchemaRegistry.findMigrationPath (registry : SchemaRegistry D) (fromFp toFp : String)
    (maxHops : Int) : List (MigrationStep D) :=
  EdgeGraph.findPath registry.dag fromFp toFp maxHops

/-- Calls of `register_migration` on a registry with a new database. -/
def migrationCalls : System (SchemaRegistry D) (MigrationCall D) where
  initial := ⟨.empty, .empty⟩
  step := fun registry call => (registry.registerMigration J call).2

end PiPlatform.EventFabric.Schema.Registry
