import PiPlatform.EventFabric.Schema.Compatibility
import PiPlatform.Library.Serde

/-! The Rust port of schema validation, against the Python it mirrors.

Python walks dictionaries by name, the port walks the field lists and looks names up:
a repeated declaration is one change on one side and several on the other, and an added
field is required as its last declaration says or as each does. Defaults are compared by
`==` here and as `serde_json` values there. The reports agree exactly where neither can
be seen (`ComparedAlike`). -/
namespace PiPlatform.EventFabric.Port

open Library Library.Python Library.Serde
open Schema (ArtifactSchema CompatibilityLevel CompatibilityReport FieldSchema SchemaChange
  SchemaChangeType SchemaFingerprint declared)
open Schema.CompatibilityValidator (fieldMap rules)

/-! ### The port -/

structure FieldIn where
  name : String
  ty : String
  required : Bool
  default : Value
  description : String
  nestedSchemaFingerprint : Option String

structure SchemaIn where
  schemaName : String
  version : String
  fields : List FieldIn
  compatibility : String

structure Change where
  type : String
  field : String
  required : Option Bool
  deriving DecidableEq

structure Report where
  oldFingerprint : String
  newFingerprint : String
  compatible : Bool
  level : String
  changes : List Change
  violations : List String

/-- No changes are allowed at any other level. -/
def allowedChanges (level : String) : List String :=
  match level with
  | "none" =>
    ["field_added_optional", "field_added_required", "field_removed", "field_type_changed",
      "field_default_changed", "nested_schema_changed", "constraint_changed",
      "enum_variant_added", "enum_variant_removed"]
  | "backward" =>
    ["field_added_optional", "field_default_changed", "enum_variant_added",
      "nested_schema_changed"]
  | "forward" =>
    ["field_removed", "enum_variant_removed", "field_default_changed", "nested_schema_changed"]
  | _ => []

/-- `fields.iter().map(|f| (f.name.as_str(), f)).collect()` -/
def fieldsByName (fields : List FieldIn) : Dict String FieldIn :=
  .ofList (fields.map fun f => (f.name, f))

def addedChange (f : FieldIn) : Change :=
  ⟨if f.required then "field_added_required" else "field_added_optional", f.name, some f.required⟩

def modified (name : String) (o n : FieldIn) : List Change :=
  (if o.ty ≠ n.ty then [⟨"field_type_changed", name, none⟩] else []) ++
    (if o.default != n.default then [⟨"field_default_changed", name, none⟩] else []) ++
    (if o.nestedSchemaFingerprint ≠ n.nestedSchemaFingerprint
      then [⟨"nested_schema_changed", name, none⟩] else [])

def diff (old new : SchemaIn) : List Change :=
  let oldNames := old.fields.map fun f => f.name
  let newMap := fieldsByName new.fields
  let oldMap := fieldsByName old.fields
  let added := new.fields.flatMap fun f => if f.name ∈ oldNames then [] else [addedChange f]
  let removed := old.fields.flatMap fun f =>
    if newMap.contains f.name then [] else [⟨"field_removed", f.name, none⟩]
  let changed := old.fields.flatMap fun f =>
    match newMap.get? f.name, oldMap.get? f.name with
    | some n, some o => modified f.name o n
    | _, _ => []
  added ++ removed ++ changed

/-- `validate`; what the fingerprints are does not matter to the changes. -/
def validate (fingerprint : SchemaIn → String) (old new : SchemaIn) : Report :=
  let changes := diff old new
  let allowed := allowedChanges new.compatibility
  let violations := (changes.filter fun c => c.type ∉ allowed).map fun c =>
    "SchemaChangeType." ++ c.type.toUpper ++ " not allowed under " ++ new.compatibility ++
      " compatibility"
  { oldFingerprint := fingerprint old, newFingerprint := fingerprint new
    compatible := violations.isEmpty, level := new.compatibility, changes, violations }

/-! ### What the port is given -/

def changeValue : SchemaChangeType → String
  | .fieldAddedOptional => "field_added_optional"
  | .fieldAddedRequired => "field_added_required"
  | .fieldRemoved => "field_removed"
  | .fieldTypeChanged => "field_type_changed"
  | .fieldDefaultChanged => "field_default_changed"
  | .nestedSchemaChanged => "nested_schema_changed"
  | .constraintChanged => "constraint_changed"
  | .enumVariantAdded => "enum_variant_added"
  | .enumVariantRemoved => "enum_variant_removed"

section Agreement
variable (R : Reader)

/-- The field as the port reads it. -/
structure ReadsField (f : FieldSchema Plain) (f' : FieldIn) : Prop where
  name : f'.name = f.name
  type : f'.ty = f.type
  required : f'.required = f.required
  default : f'.default = Value.ofPlain R f.default
  nested : f'.nestedSchemaFingerprint = f.nestedSchemaFingerprint.map SchemaFingerprint.value

/-- The schema as the port reads it. -/
structure ReadsSchema (s : ArtifactSchema Plain) (s' : SchemaIn) : Prop where
  fields : List.Forall₂ (ReadsField R) s.fields s'.fields
  compatibility : s'.compatibility = s.compatibility.value

end Agreement

/-- The type and the field of a change, on either side. -/
def told (c : SchemaChange) : String × String := (changeValue c.type, c.field)

def toldIn (c : Change) : String × String := (c.type, c.field)

/-- The same verdict over the same changes, in the same order. -/
def SameReport (python : CompatibilityReport) (rust : Report) : Prop :=
  python.compatible = rust.compatible ∧ python.changes.map told = rust.changes.map toldIn

def names (s : ArtifactSchema Plain) : List String := s.fields.map fun f => f.name

/-- A field that only one schema declares is declared there once. The default of a
field that both declare changes for both sides or for neither, and if the old schema
repeats the field nothing about it has changed. -/
structure ComparedAlike (R : Reader) (old new : ArtifactSchema Plain) : Prop where
  added : ∀ name ∈ names new, name ∉ names old → (names new).count name = 1
  removed : ∀ name ∈ names old, name ∉ names new → (names old).count name = 1
  defaults : ∀ name o n, declared old name = some o → declared new name = some n →
    (Value.ofPlain R o.default == Value.ofPlain R n.default) = (o.default == n.default)
  repeated : ∀ name o n, declared old name = some o → declared new name = some n →
    (names old).count name = 1 ∨ o.type = n.type ∧ (o.default == n.default) = true ∧
      o.nestedSchemaFingerprint = n.nestedSchemaFingerprint

/-! ### Declarations -/

section Declarations
variable {R : Reader} {s : ArtifactSchema Plain} {s' : SchemaIn} {name : String}

theorem ReadsSchema.names (h : ReadsSchema R s s') : (s'.fields.map fun f => f.name) = names s :=
  (map_eq_of_forall₂ h.fields fun _ _ hf => hf.name.symm).symm

theorem keys_fieldMap (s : ArtifactSchema Plain) :
    (fieldMap s.fields).items.map Prod.fst = firstsBy id [] (names s) := by
  rw [fieldMap, Dict.keys_ofList, List.map_map]
  rfl

theorem mem_of_declared {f : FieldSchema Plain} (h : declared s name = some f) :
    f ∈ s.fields ∧ f.name = name := by
  have hall : ∀ p ∈ (fieldMap s.fields).items, p.2 ∈ s.fields ∧ p.2.name = p.1 := by
    refine forall_setItems (fun p hp => nomatch hp) fun p hp => ?_
    obtain ⟨g, hg, rfl⟩ := List.mem_map.mp hp
    exact ⟨hg, rfl⟩
  exact hall (name, f) ((fieldMap s.fields).mem_items.mpr h)

theorem declared_isSome : (declared s name).isSome = true ↔ name ∈ names s := by
  have hkeys : name ∈ (fieldMap s.fields).items.map Prod.fst ↔ name ∈ names s := by
    rw [keys_fieldMap, mem_firstsBy_id]
    simp
  rw [← hkeys, List.mem_map]
  constructor
  · intro h
    obtain ⟨f, hf⟩ := Option.isSome_iff_exists.mp h
    exact ⟨(name, f), (fieldMap s.fields).mem_items.mpr hf, rfl⟩
  · rintro ⟨⟨name', f⟩, hf, rfl⟩
    exact Option.isSome_iff_exists.mpr ⟨f, (fieldMap s.fields).mem_items.mp hf⟩

/-- The last declaration on one side is that on the other. -/
theorem ReadsSchema.declared (h : ReadsSchema R s s') (name : String) :
    declared s name = none ∧ (fieldsByName s'.fields).get? name = none ∨
      ∃ f f', declared s name = some f ∧ (fieldsByName s'.fields).get? name = some f' ∧
        ReadsField R f f' := by
  have hitems : List.Forall₂ (Matches id (ReadsField R)) (fieldMap s.fields).items
      (fieldsByName s'.fields).items := by
    refine matches_setItems Function.injective_id ?_ .nil
    rw [List.forall₂_map_left_iff, List.forall₂_map_right_iff]
    exact h.fields.imp fun _ _ hf => ⟨hf.name, hf⟩
  have hrel : Option.Rel (ReadsField R) (Schema.declared s name)
      ((fieldsByName s'.fields).get? name) :=
    lookupItem_matches Function.injective_id hitems name
  generalize Schema.declared s name = x at hrel ⊢
  generalize (fieldsByName s'.fields).get? name = y at hrel ⊢
  cases hrel with
  | none => exact .inl ⟨rfl, rfl⟩
  | some hf => exact .inr ⟨_, _, rfl, rfl, hf⟩

/-- A field that is declared once is what its name is declared as. -/
theorem declared_of_count {f : FieldSchema Plain} (hf : f ∈ s.fields)
    (hcount : (names s).count f.name = 1) : declared s f.name = some f := by
  obtain ⟨g, hg⟩ := Option.isSome_iff_exists.mp
    (declared_isSome.mpr (List.mem_map_of_mem hf : f.name ∈ names s))
  obtain ⟨hgmem, hgname⟩ := mem_of_declared hg
  have hone : (s.fields.filter fun b => b.name = f.name) = [f] :=
    filter_of_count_eq_one hf hcount
  have hmem : g ∈ s.fields.filter fun b => b.name = f.name :=
    List.mem_filter.mpr ⟨hgmem, by simpa using hgname⟩
  rw [hone, List.mem_singleton] at hmem
  rw [hg, hmem]

end Declarations

/-! ### What each side tells -/

section Told
variable {R : Reader} {old new : ArtifactSchema Plain} {old' new' : SchemaIn} {name : String}

/-- Of an added name. -/
def addedTold (old new : ArtifactSchema Plain) (name : String) : List (String × String) :=
  if name ∈ names old then []
  else (declared new name).elim [] fun f =>
    [(changeValue (Schema.CompatibilityValidator.addedType f), name)]

def removedTold (new : ArtifactSchema Plain) (name : String) : List (String × String) :=
  if name ∈ names new then [] else [("field_removed", name)]

/-- Of a name that both schemas declare. -/
def changedTold (old new : ArtifactSchema Plain) (name : String) : List (String × String) :=
  (declared old name).elim [] fun o => (declared new name).elim [] fun n =>
    (Schema.CompatibilityValidator.modified name o n).map told

/-- Python tells of each name once. -/
theorem told_diff (old new : ArtifactSchema Plain) :
    (Schema.CompatibilityValidator.diff old new).map told =
      (firstsBy id [] (names new)).flatMap (addedTold old new) ++
        ((firstsBy id [] (names old)).flatMap (removedTold new) ++
          (firstsBy id [] (names old)).flatMap (changedTold old new)) := by
  have hcontains : ∀ (s : ArtifactSchema Plain) (name : String),
      (fieldMap s.fields).contains name = decide (name ∈ names s) := fun s name => by
    rw [Bool.eq_iff_iff, decide_eq_true_iff]
    exact declared_isSome
  unfold Schema.CompatibilityValidator.diff
  rw [List.map_append, List.map_append, List.append_assoc, ← keys_fieldMap, ← keys_fieldMap]
  congr 1
  · rw [List.map_filterMap, List.filterMap_eq_flatMap_toList]
    refine ((fieldMap new.fields).flatMap_items fun name f => Option.toList <| Option.map told <|
      if (fieldMap old.fields).contains name then none else
        some ⟨Schema.CompatibilityValidator.addedType f, name, some f.required⟩).trans ?_
    refine List.flatMap_congr fun name _ => ?_
    rw [addedTold, hcontains]
    show (declared new name).elim [] _ = _
    by_cases hname : name ∈ names old
    · cases declared new name <;> simp [hname]
    · cases declared new name <;> simp [hname, told]
  · congr 1
    · rw [List.map_filterMap, List.filterMap_eq_flatMap_toList]
      refine ((fieldMap old.fields).flatMap_items fun name _ => Option.toList <| Option.map told <|
        if (fieldMap new.fields).contains name then none else
          some ⟨.fieldRemoved, name, none⟩).trans ?_
      refine List.flatMap_congr fun name hkey => ?_
      rw [keys_fieldMap, mem_firstsBy_id] at hkey
      obtain ⟨f, hf⟩ := Option.isSome_iff_exists.mp (declared_isSome.mpr hkey.1)
      rw [removedTold, hcontains]
      show (declared old name).elim [] _ = _
      rw [hf]
      by_cases hname : name ∈ names new <;> simp [hname, told, changeValue]
    · rw [List.map_flatMap]
      refine Eq.trans (List.flatMap_congr fun p _ => ?_)
        ((fieldMap old.fields).flatMap_items fun name o => (declared new name).elim [] fun n =>
          (Schema.CompatibilityValidator.modified name o n).map told)
      show _ = ((fieldMap new.fields).get? p.1).elim [] _
      cases (fieldMap new.fields).get? p.1 <;> rfl

/-- Of an added field. -/
def addedToldIn (old : SchemaIn) (f : FieldIn) : List (String × String) :=
  if f.name ∈ old.fields.map (fun f => f.name) then [] else [toldIn (addedChange f)]

def removedToldIn (new : SchemaIn) (name : String) : List (String × String) :=
  if (fieldsByName new.fields).contains name then [] else [("field_removed", name)]

def changedToldIn (old new : SchemaIn) (name : String) : List (String × String) :=
  ((fieldsByName old.fields).get? name).elim [] fun o =>
    ((fieldsByName new.fields).get? name).elim [] fun n => (modified name o n).map toldIn

/-- The port tells of each declaration. -/
theorem toldIn_diff (old new : SchemaIn) :
    (diff old new).map toldIn =
      new.fields.flatMap (addedToldIn old) ++
        (old.fields.flatMap (fun f => removedToldIn new f.name) ++
          old.fields.flatMap fun f => changedToldIn old new f.name) := by
  unfold diff
  rw [List.map_append, List.map_append, List.append_assoc, List.map_flatMap, List.map_flatMap,
    List.map_flatMap]
  congr 1
  · refine List.flatMap_congr fun f _ => ?_
    unfold addedToldIn
    split <;> rfl
  · congr 1
    · refine List.flatMap_congr fun f _ => ?_
      unfold removedToldIn
      split <;> rfl
    · refine List.flatMap_congr fun f _ => ?_
      unfold changedToldIn
      cases (fieldsByName old.fields).get? f.name <;>
        cases (fieldsByName new.fields).get? f.name <;> rfl

theorem removedToldIn_eq (h : ReadsSchema R new new') (name : String) :
    removedToldIn new' name = removedTold new name := by
  have hcontains : (fieldsByName new'.fields).contains name = true ↔ name ∈ names new := by
    rw [← declared_isSome, Dict.contains]
    rcases h.declared name with ⟨hdeclared, hget⟩ | ⟨g, g', hdeclared, hget, -⟩ <;>
      simp [hdeclared, hget]
  unfold removedToldIn removedTold
  by_cases hname : name ∈ names new
  · rw [if_pos hname, if_pos (hcontains.mpr hname)]
  · rw [if_neg hname, if_neg fun hc => hname (hcontains.mp hc)]

/-- The same changes to one field, if its default changes for both or for neither. -/
theorem modified_eq_iff {o n : FieldSchema Plain} {o' n' : FieldIn}
    (ho : ReadsField R o o') (hn : ReadsField R n n') :
    (Schema.CompatibilityValidator.modified name o n).map told = (modified name o' n').map toldIn ↔
      (Value.ofPlain R o.default == Value.ofPlain R n.default) = (o.default == n.default) := by
  have hnested : o'.nestedSchemaFingerprint = n'.nestedSchemaFingerprint ↔
      o.nestedSchemaFingerprint = n.nestedSchemaFingerprint := by
    rw [ho.nested, hn.nested]
    constructor
    · intro h
      exact Option.map_injective (fun a b hab => by cases a; cases b; exact congrArg _ hab) h
    · exact congrArg _
  unfold Schema.CompatibilityValidator.modified modified
  rw [ho.type, hn.type, ho.default, hn.default]
  simp only [ne_eq, hnested, bne]
  by_cases hserde : (Value.ofPlain R o.default == Value.ofPlain R n.default) = true <;>
    by_cases hpython : (o.default == n.default) = true <;>
    by_cases htype : o.type = n.type <;>
    by_cases hnest : o.nestedSchemaFingerprint = n.nestedSchemaFingerprint <;>
    simp [hserde, hpython, htype, hnest, told, toldIn, changeValue]

theorem changedToldIn_eq_iff (hold : ReadsSchema R old old') (hnew : ReadsSchema R new new')
    (name : String) :
    changedTold old new name = changedToldIn old' new' name ↔
      ∀ o n, declared old name = some o → declared new name = some n →
        (Value.ofPlain R o.default == Value.ofPlain R n.default) = (o.default == n.default) := by
  unfold changedTold changedToldIn
  rcases hold.declared name with ⟨ho, ho'⟩ | ⟨o, o', ho, ho', hreado⟩
  · simp [ho, ho']
  · rcases hnew.declared name with ⟨hn, hn'⟩ | ⟨n, n', hn, hn', hreadn⟩
    · simp [ho, ho', hn, hn']
    · simp only [ho, ho', hn, hn', Option.elim_some, modified_eq_iff hreado hreadn,
        Option.some.injEq]
      exact ⟨fun h _ _ ho hn => ho ▸ hn ▸ h, fun h => h o n rfl rfl⟩

theorem modified_eq_nil_iff {o n : FieldSchema Plain} :
    (Schema.CompatibilityValidator.modified name o n).map told = [] ↔
      o.type = n.type ∧ (o.default == n.default) = true ∧
        o.nestedSchemaFingerprint = n.nestedSchemaFingerprint := by
  unfold Schema.CompatibilityValidator.modified
  by_cases htype : o.type = n.type <;>
    by_cases hdefault : (o.default == n.default) = true <;>
    by_cases hnest : o.nestedSchemaFingerprint = n.nestedSchemaFingerprint <;>
    simp [htype, hdefault, hnest, bne]

/-! ### Telling the changes apart -/

def addedKinds : List String := ["field_added_required", "field_added_optional"]

def changedKinds : List String :=
  ["field_type_changed", "field_default_changed", "nested_schema_changed"]

/-- At most one change of each kind, in this order. -/
theorem modified_sublist (name : String) (o n : FieldSchema Plain) :
    ((Schema.CompatibilityValidator.modified name o n).map told).Sublist
      (changedKinds.map fun kind => (kind, name)) :=
  (ite_sublist ..).map told

theorem modifiedIn_sublist (name : String) (o n : FieldIn) :
    ((modified name o n).map toldIn).Sublist (changedKinds.map fun kind => (kind, name)) :=
  (ite_sublist ..).map toldIn

theorem nodup_modified (name : String) (o n : FieldSchema Plain) :
    ((Schema.CompatibilityValidator.modified name o n).map told).Nodup :=
  (modified_sublist name o n).nodup (by simp [changedKinds])

theorem kind_of_sublist {changes : List (String × String)}
    (h : changes.Sublist (changedKinds.map fun kind => (kind, name))) :
    ∀ y ∈ changes, y.2 = name ∧ y.1 ∈ changedKinds := by
  intro y hy
  obtain ⟨kind, hkind, rfl⟩ := List.mem_map.mp (h.mem hy)
  exact ⟨rfl, hkind⟩

theorem addedTold_kind :
    ∀ y ∈ addedTold old new name, y.2 = name ∧ y.1 ∈ addedKinds := by
  unfold addedTold
  split
  · exact fun y hy => nomatch hy
  · cases declared new name with
    | none => exact fun y hy => nomatch hy
    | some f =>
      refine List.forall_mem_singleton.mpr ⟨rfl, ?_⟩
      unfold Schema.CompatibilityValidator.addedType
      cases f.required <;> simp [addedKinds, changeValue]

theorem addedToldIn_kind (f : FieldIn) :
    ∀ y ∈ addedToldIn old' f, y.2 = f.name ∧ y.1 ∈ addedKinds := by
  unfold addedToldIn
  split
  · exact fun y hy => nomatch hy
  · refine List.forall_mem_singleton.mpr ⟨rfl, ?_⟩
    unfold toldIn addedChange
    cases f.required <;> simp [addedKinds]

theorem removedTold_kind :
    ∀ y ∈ removedTold new name, y.2 = name ∧ y.1 = "field_removed" := by
  unfold removedTold
  split
  · exact fun y hy => nomatch hy
  · exact List.forall_mem_singleton.mpr ⟨rfl, rfl⟩

theorem changedTold_kind :
    ∀ y ∈ changedTold old new name, y.2 = name ∧ y.1 ∈ changedKinds := by
  unfold changedTold
  cases declared old name with
  | none => exact fun y hy => nomatch hy
  | some o =>
    cases declared new name with
    | none => exact fun y hy => nomatch hy
    | some n => exact kind_of_sublist (modified_sublist name o n)

theorem changedToldIn_kind :
    ∀ y ∈ changedToldIn old' new' name, y.2 = name ∧ y.1 ∈ changedKinds := by
  unfold changedToldIn
  cases (fieldsByName old'.fields).get? name with
  | none => exact fun y hy => nomatch hy
  | some o =>
    cases (fieldsByName new'.fields).get? name with
    | none => exact fun y hy => nomatch hy
    | some n => exact kind_of_sublist (modifiedIn_sublist name o n)

variable (hold : ReadsSchema R old old') (hnew : ReadsSchema R new new')
include hold hnew

theorem added_iff :
    (firstsBy id [] (names new)).flatMap (addedTold old new) =
        new'.fields.flatMap (addedToldIn old') ↔
      ∀ name ∈ names new, name ∉ names old → (names new).count name = 1 := by
  have hG : ∀ f, (addedToldIn old' f).map Prod.snd =
      if f.name ∈ names old then [] else [f.name] := by
    intro f
    rw [addedToldIn, hold.names]
    split <;> rfl
  have hnodup : ∀ name, ((addedTold old new name).map Prod.snd).Nodup := by
    intro name
    unfold addedTold
    split
    · exact List.nodup_nil
    · cases declared new name with
      | none => exact List.nodup_nil
      | some f => exact List.nodup_singleton _
  have hiff := flatMap_firstsBy_iff (fun f : FieldIn => f.name) new'.fields
    (fun name => if name ∈ names old then [] else [name])
    (fun name y hy => (addedTold_kind y hy).1) (fun f y hy => (addedToldIn_kind f y hy).1)
    hG hnodup
  rw [hnew.names] at hiff
  rw [hiff]
  constructor
  · intro h name hname hnot
    rw [← hnew.names] at hname
    obtain ⟨f, hf, rfl⟩ := List.mem_map.mp hname
    refine (h f hf).2.resolve_left fun hnil => ?_
    rw [(h f hf).1, addedToldIn, hold.names, if_neg hnot] at hnil
    cases hnil
  · intro h f hf
    unfold addedTold addedToldIn
    rw [hold.names]
    by_cases hnot : f.name ∈ names old
    · simp [hnot]
    · obtain ⟨g, hg, hread⟩ := exists_left hnew.fields hf
      have hcount : (names new).count f.name = 1 :=
        h f.name (hnew.names ▸ List.mem_map_of_mem hf) hnot
      have hdeclared := declared_of_count hg (hread.name ▸ hcount)
      rw [← hread.name] at hdeclared
      refine ⟨?_, .inr hcount⟩
      rw [if_neg hnot, if_neg hnot, hdeclared]
      show [(changeValue (Schema.CompatibilityValidator.addedType g), f.name)] = _
      unfold toldIn addedChange Schema.CompatibilityValidator.addedType
      rw [hread.required]
      cases g.required <;> rfl

theorem removed_iff :
    (firstsBy id [] (names old)).flatMap (removedTold new) =
        old'.fields.flatMap (fun f => removedToldIn new' f.name) ↔
      ∀ name ∈ names old, name ∉ names new → (names old).count name = 1 := by
  have hnodup : ∀ name, ((removedTold new name).map id).Nodup := by
    intro name
    unfold removedTold
    split
    · exact List.nodup_nil
    · exact List.nodup_singleton _
  have hiff := flatMap_firstsBy_iff (fun f : FieldIn => f.name) old'.fields
    (fun name => removedTold new name)
    (fun name y hy => (removedTold_kind y hy).1)
    (fun f y hy => (removedTold_kind y (removedToldIn_eq hnew f.name ▸ hy)).1)
    (fun f => (List.map_id _).trans (removedToldIn_eq hnew f.name)) hnodup
  rw [hold.names] at hiff
  rw [hiff]
  constructor
  · intro h name hname hnot
    rw [← hold.names] at hname
    obtain ⟨f, hf, rfl⟩ := List.mem_map.mp hname
    refine (h f hf).2.resolve_left fun hnil => ?_
    rw [removedTold, if_neg hnot] at hnil
    cases hnil
  · intro h f hf
    refine ⟨(removedToldIn_eq hnew f.name).symm, ?_⟩
    unfold removedTold
    by_cases hnot : f.name ∈ names new
    · exact .inl (if_pos hnot)
    · exact .inr (h f.name (hold.names ▸ List.mem_map_of_mem hf) hnot)

theorem changed_iff :
    (firstsBy id [] (names old)).flatMap (changedTold old new) =
        old'.fields.flatMap (fun f => changedToldIn old' new' f.name) ↔
      ∀ name o n, declared old name = some o → declared new name = some n →
        (Value.ofPlain R o.default == Value.ofPlain R n.default) = (o.default == n.default) ∧
          ((names old).count name = 1 ∨ o.type = n.type ∧ (o.default == n.default) = true ∧
            o.nestedSchemaFingerprint = n.nestedSchemaFingerprint) := by
  have hnodup : ∀ name, ((changedTold old new name).map id).Nodup := by
    intro name
    rw [List.map_id]
    unfold changedTold
    cases declared old name with
    | none => exact List.nodup_nil
    | some o =>
      cases declared new name with
      | none => exact List.nodup_nil
      | some n => exact nodup_modified name o n
  have hiff := flatMap_firstsBy_iff (fun f : FieldIn => f.name) old'.fields
    (fun name => changedToldIn old' new' name)
    (fun name y hy => (changedTold_kind y hy).1) (fun f y hy => (changedToldIn_kind y hy).1)
    (fun f => List.map_id _) hnodup
  rw [hold.names] at hiff
  rw [hiff]
  constructor
  · intro h name o n ho hn
    have hname : name ∈ names old := declared_isSome.mp (by rw [ho]; rfl)
    rw [← hold.names] at hname
    obtain ⟨f, hf, rfl⟩ := List.mem_map.mp hname
    obtain ⟨hsame, honce⟩ := h f hf
    refine ⟨(changedToldIn_eq_iff hold hnew f.name).mp hsame o n ho hn, honce.symm.imp_right ?_⟩
    rw [changedTold, ho, hn]
    exact modified_eq_nil_iff.mp
  · intro h f hf
    refine ⟨(changedToldIn_eq_iff hold hnew f.name).mpr fun o n ho hn => (h f.name o n ho hn).1, ?_⟩
    unfold changedTold
    cases ho : declared old f.name with
    | none => exact .inl rfl
    | some o =>
      cases hn : declared new f.name with
      | none => exact .inl rfl
      | some n => exact (h f.name o n ho hn).2.symm.imp_left modified_eq_nil_iff.mpr

/-- The changes are told alike when each kind of change is. -/
theorem told_eq_iff :
    (Schema.CompatibilityValidator.diff old new).map told = (diff old' new').map toldIn ↔
      ComparedAlike R old new := by
  have hremovedIn : ∀ f : FieldIn, ∀ y ∈ removedToldIn new' f.name, y.1 = "field_removed" :=
    fun f y hy => (removedTold_kind y (removedToldIn_eq hnew f.name ▸ hy)).2
  have hsplit : ∀ {kind : String}, kind = "field_removed" ∨ kind ∈ changedKinds →
      decide (kind ∈ addedKinds) = false := by
    rintro kind (rfl | hkind)
    · decide
    · simp only [changedKinds, List.mem_cons, List.not_mem_nil, or_false] at hkind
      rcases hkind with rfl | rfl | rfl <;> decide
  have hsplit' : ∀ {kind : String}, kind ∈ changedKinds →
      decide (kind = "field_removed") = false := by
    intro kind hkind
    simp only [changedKinds, List.mem_cons, List.not_mem_nil, or_false] at hkind
    rcases hkind with rfl | rfl | rfl <;> decide
  rw [told_diff, toldIn_diff,
    append_inj_of_kind (p := fun y => decide (y.1 ∈ addedKinds))
      (List.forall_mem_flatMap.mpr fun _ _ y hy => decide_eq_true (addedTold_kind y hy).2)
      (List.forall_mem_flatMap.mpr fun f _ y hy => decide_eq_true (addedToldIn_kind f y hy).2)
      (List.forall_mem_append.mpr
        ⟨List.forall_mem_flatMap.mpr fun _ _ y hy => hsplit (.inl (removedTold_kind y hy).2),
          List.forall_mem_flatMap.mpr fun _ _ y hy => hsplit (.inr (changedTold_kind y hy).2)⟩)
      (List.forall_mem_append.mpr
        ⟨List.forall_mem_flatMap.mpr fun f _ y hy => hsplit (.inl (hremovedIn f y hy)),
          List.forall_mem_flatMap.mpr fun _ _ y hy => hsplit (.inr (changedToldIn_kind y hy).2)⟩),
    append_inj_of_kind (p := fun y => decide (y.1 = "field_removed"))
      (List.forall_mem_flatMap.mpr fun _ _ y hy => decide_eq_true (removedTold_kind y hy).2)
      (List.forall_mem_flatMap.mpr fun f _ y hy => decide_eq_true (hremovedIn f y hy))
      (List.forall_mem_flatMap.mpr fun _ _ y hy => hsplit' (changedTold_kind y hy).2)
      (List.forall_mem_flatMap.mpr fun _ _ y hy => hsplit' (changedToldIn_kind y hy).2),
    added_iff hold hnew, removed_iff hold hnew, changed_iff hold hnew]
  constructor
  · rintro ⟨hadded, hremoved, hchanged⟩
    exact ⟨hadded, hremoved, fun name o n ho hn => (hchanged name o n ho hn).1,
      fun name o n ho hn => (hchanged name o n ho hn).2⟩
  · rintro ⟨hadded, hremoved, hdefaults, hrepeated⟩
    exact ⟨hadded, hremoved, fun name o n ho hn =>
      ⟨hdefaults name o n ho hn, hrepeated name o n ho hn⟩⟩

omit hold in
/-- What is told decides the verdict. -/
theorem compatible_eq (formatted : SchemaChangeType → String) (fingerprint : SchemaIn → String)
    (h : (Schema.CompatibilityValidator.diff old new).map told = (diff old' new').map toldIn) :
    (Schema.CompatibilityValidator.validate formatted old new).compatible =
      (validate fingerprint old' new').compatible := by
  have hlevel : ∀ (level : CompatibilityLevel) (t : SchemaChangeType),
      t ∈ rules level ↔ changeValue t ∈ allowedChanges level.value := by
    intro level t
    cases level <;> cases t <;> decide
  have htold : ∀ P : String → Prop,
      (∀ c ∈ Schema.CompatibilityValidator.diff old new, P (changeValue c.type)) ↔
        ∀ c ∈ diff old' new', P c.type := by
    intro P
    have hpairs := congrArg (fun pairs => ∀ y ∈ pairs, P y.1) h
    simpa only [List.forall_mem_map, told, toldIn, eq_iff_iff] using hpairs
  rw [Bool.eq_iff_iff, Schema.compatible_iff]
  simp only [hlevel]
  rw [htold fun kind => kind ∈ allowedChanges new.compatibility.value, ← hnew.compatibility]
  simp [validate, List.filter_eq_nil_iff]

end Told

/-- **Main theorem.** The port and Python agree on compatibility and on the changes, in
their order, exactly for schemas that are compared alike. -/
theorem validate_agrees_iff (R : Reader) (formatted : SchemaChangeType → String)
    (fingerprint : SchemaIn → String) (old new : ArtifactSchema Plain) (old' new' : SchemaIn)
    (hold : ReadsSchema R old old') (hnew : ReadsSchema R new new') :
    SameReport (Schema.CompatibilityValidator.validate formatted old new)
        (validate fingerprint old' new') ↔ ComparedAlike R old new := by
  rw [← told_eq_iff hold hnew]
  constructor
  · exact fun h => h.2
  · exact fun h => ⟨compatible_eq hnew formatted fingerprint h, h⟩

def fieldWith (default : Plain) : FieldSchema Plain := ⟨"a", "bool", true, default, none⟩

def fieldInWith (default : Value) : FieldIn := ⟨"a", "bool", true, default, "", none⟩

def schemaWith (fields : List (FieldSchema Plain)) : ArtifactSchema Plain :=
  ⟨fields, .backward, ⟨""⟩⟩

def schemaInWith (fields : List FieldIn) : SchemaIn := ⟨"s", "1", fields, "backward"⟩

theorem validate_agrees_added :
    SameReport
      (Schema.CompatibilityValidator.validate changeValue (schemaWith [])
        (schemaWith [fieldWith .none]))
      (validate (fun _ => "") (schemaInWith []) (schemaInWith [fieldInWith .null])) := by
  refine (validate_agrees_iff nearestReader changeValue (fun _ => "") (schemaWith [])
    (schemaWith [fieldWith .none]) (schemaInWith []) (schemaInWith [fieldInWith .null])
    ⟨.nil, rfl⟩ ⟨.cons ⟨rfl, rfl, rfl, rfl, rfl⟩ .nil, rfl⟩).mpr ?_
  exact ⟨by decide, fun _ h => (nomatch h), fun _ _ _ h => (nomatch h), fun _ _ _ h => (nomatch h)⟩

/-- The default goes from `1` to `true`, which is a change to the port only; and an added
field that is declared twice is one change or two. -/
theorem validate_apart :
    (ReadsSchema nearestReader (schemaWith [fieldWith (.int 1)])
        (schemaInWith [fieldInWith (.number (.posInt 1))]) ∧
      ReadsSchema nearestReader (schemaWith [fieldWith (.bool true)])
        (schemaInWith [fieldInWith (.bool true)]) ∧
      ¬ SameReport
        (Schema.CompatibilityValidator.validate changeValue (schemaWith [fieldWith (.int 1)])
          (schemaWith [fieldWith (.bool true)]))
        (validate (fun _ => "") (schemaInWith [fieldInWith (.number (.posInt 1))])
          (schemaInWith [fieldInWith (.bool true)]))) ∧
    (ReadsSchema nearestReader (schemaWith []) (schemaInWith []) ∧
      ReadsSchema nearestReader (schemaWith [fieldWith .none, fieldWith .none])
        (schemaInWith [fieldInWith .null, fieldInWith .null]) ∧
      ¬ SameReport
        (Schema.CompatibilityValidator.validate changeValue (schemaWith [])
          (schemaWith [fieldWith .none, fieldWith .none]))
        (validate (fun _ => "") (schemaInWith [])
          (schemaInWith [fieldInWith .null, fieldInWith .null]))) := by
  refine ⟨⟨⟨.cons ⟨rfl, rfl, rfl, ?_, rfl⟩ .nil, rfl⟩,
    ⟨.cons ⟨rfl, rfl, rfl, rfl, rfl⟩ .nil, rfl⟩, ?_⟩, ⟨.nil, rfl⟩,
    ⟨.cons ⟨rfl, rfl, rfl, rfl, rfl⟩ (.cons ⟨rfl, rfl, rfl, rfl, rfl⟩ .nil), rfl⟩, ?_⟩
  · show Value.number (.posInt 1) = .number (nearestReader.number 1)
    simp [Reader.number]
  · rintro ⟨-, h⟩
    revert h
    decide
  · rintro ⟨-, h⟩
    revert h
    decide

end PiPlatform.EventFabric.Port
