import PiPlatform.Library.Dict

/-! Schema compatibility.

The validator compares two schemas field by field, each field under its last
declaration, and permits the changes its level lists. What the changes are for is a
statement about records: that what is valid for one schema is valid for the other.

`Covers` is that statement at the level of declarations (`covers_iff`), and
`compatible_iff_permitted` says what the validator has checked. The two do not meet: a
field can become required without a change being reported, and a required one can be
removed. So a report is sound exactly when the changes it permits also cover
(`sound_iff`). Defaults are compared with `==`, values typed by a parameter
`HasType`, since types are only names. -/
namespace PiPlatform.EventFabric.Schema

open Library

inductive CompatibilityLevel where
  | none
  /-- New readers can read old data. -/
  | backward
  /-- Old readers can read new data. -/
  | forward
  /-- Both directions. -/
  | full
  deriving DecidableEq

def CompatibilityLevel.value : CompatibilityLevel → String
  | .none => "none"
  | .backward => "backward"
  | .forward => "forward"
  | .full => "full"

inductive SchemaChangeType where
  | fieldAddedOptional
  | fieldAddedRequired
  | fieldRemoved
  | fieldTypeChanged
  | fieldDefaultChanged
  | nestedSchemaChanged
  | constraintChanged
  | enumVariantAdded
  | enumVariantRemoved
  deriving DecidableEq

/-- Fingerprints are compared by value. -/
structure SchemaFingerprint where
  value : String
  deriving DecidableEq

structure FieldSchema (D : Type) where
  name : String
  type : String
  required : Bool
  default : D
  nestedSchemaFingerprint : Option SchemaFingerprint

structure ArtifactSchema (D : Type) where
  fields : List (FieldSchema D)
  compatibility : CompatibilityLevel
  fingerprint : SchemaFingerprint

structure SchemaChange where
  type : SchemaChangeType
  field : String
  required : Option Bool
  deriving DecidableEq

structure CompatibilityReport where
  oldFingerprint : String
  newFingerprint : String
  compatible : Bool
  level : CompatibilityLevel
  changes : List SchemaChange
  violations : List String

/-! ### The validator -/

namespace CompatibilityValidator

/-- `RULES` -/
def rules : CompatibilityLevel → List SchemaChangeType
  | .none =>
    [.fieldAddedOptional, .fieldAddedRequired, .fieldRemoved, .fieldTypeChanged,
      .fieldDefaultChanged, .nestedSchemaChanged, .constraintChanged, .enumVariantAdded,
      .enumVariantRemoved]
  | .backward =>
    [.fieldAddedOptional, .fieldDefaultChanged, .enumVariantAdded, .nestedSchemaChanged]
  | .forward => [.fieldRemoved, .enumVariantRemoved, .fieldDefaultChanged, .nestedSchemaChanged]
  | .full => []

/-- `{f.name: f for f in fields}` -/
def fieldMap {D : Type} (fields : List (FieldSchema D)) : Dict String (FieldSchema D) :=
  .ofList (fields.map fun f => (f.name, f))

variable {D : Type} [BEq D]

def addedType (f : FieldSchema D) : SchemaChangeType :=
  if f.required then .fieldAddedRequired else .fieldAddedOptional

/-- The changes to a field that both schemas declare. -/
def modified (name : String) (o n : FieldSchema D) : List SchemaChange :=
  (if o.type ≠ n.type then [⟨.fieldTypeChanged, name, none⟩] else []) ++
    (if o.default != n.default then [⟨.fieldDefaultChanged, name, none⟩] else []) ++
    (if o.nestedSchemaFingerprint ≠ n.nestedSchemaFingerprint
      then [⟨.nestedSchemaChanged, name, none⟩] else [])

/-- `_diff` -/
def diff (old new : ArtifactSchema D) : List SchemaChange :=
  let oldFields := fieldMap old.fields
  let newFields := fieldMap new.fields
  let added := newFields.items.filterMap fun p =>
    if oldFields.contains p.1 then none else some ⟨addedType p.2, p.1, some p.2.required⟩
  let removed := oldFields.items.filterMap fun p =>
    if newFields.contains p.1 then none else some ⟨.fieldRemoved, p.1, none⟩
  let changed := oldFields.items.flatMap fun p =>
    match newFields.get? p.1 with
    | none => []
    | some n => modified p.1 p.2 n
  added ++ removed ++ changed

/-- `validate`; how a member of an enumeration is formatted is the interpreter's
choice, which its versions have made differently. -/
def validate (formatted : SchemaChangeType → String) (old new : ArtifactSchema D) :
    CompatibilityReport :=
  let changes := diff old new
  let violations := (changes.filter fun c => c.type ∉ rules new.compatibility).map fun c =>
    formatted c.type ++ " not allowed under " ++ new.compatibility.value ++ " compatibility"
  { oldFingerprint := old.fingerprint.value, newFingerprint := new.fingerprint.value
    compatible := violations.length == 0, level := new.compatibility, changes, violations }

end CompatibilityValidator

open CompatibilityValidator

/-! ### Records -/

section Records
variable {D V : Type} (HasType : String → V → Prop)

/-- Every required field is present, and every present field has its declared type;
other keys do not matter. -/
structure Valid (s : ArtifactSchema D) (r : Dict String V) : Prop where
  present : ∀ f ∈ s.fields, f.required = true → (r.get? f.name).isSome = true
  typed : ∀ f ∈ s.fields, ∀ v, r.get? f.name = some v → HasType f.type v

/-- What the declarations of a name allow it to be. -/
def Allowed (s : ArtifactSchema D) (name : String) (v : V) : Prop :=
  ∀ f ∈ s.fields, f.name = name → HasType f.type v

/-- A required field has the name. -/
def Requires (s : ArtifactSchema D) (name : String) : Prop :=
  ∃ f ∈ s.fields, f.required = true ∧ f.name = name

/-- What one schema asks for, the other asks for too, unless it asks for the
impossible. -/
def Covers (s t : ArtifactSchema D) : Prop :=
  (∀ name, Requires s name → ∃ v : V, Allowed HasType s name v) →
    ∀ f ∈ t.fields, (f.required = true → Requires s f.name) ∧
      ∀ v : V, Allowed HasType s f.name v → HasType f.type v

variable {HasType} {s t : ArtifactSchema D} {r : Dict String V}

theorem Valid.allowed (h : Valid HasType s r) {name : String} {v : V} (hv : r.get? name = some v) :
    Allowed HasType s name v := by
  rintro f hf rfl
  exact h.typed f hf v hv

theorem Valid.requires (h : Valid HasType s r) {name : String} (hname : Requires s name) :
    (r.get? name).isSome = true := by
  obtain ⟨f, hf, hrequired, rfl⟩ := hname
  exact h.present f hf hrequired

/-- A record with what a schema requires and nothing else. -/
theorem exists_least (h : ∀ name, Requires s name → ∃ v : V, Allowed HasType s name v) :
    ∃ r : Dict String V, Valid HasType s r ∧
      ∀ name, (r.get? name).isSome = true → Requires s name := by
  have hbuild : ∀ fields : List (FieldSchema D), (∀ f ∈ fields, f ∈ s.fields) → ∃ r : Dict String V,
      (∀ f ∈ fields, f.required = true → (r.get? f.name).isSome = true) ∧
      (∀ name v, r.get? name = some v → Requires s name ∧ Allowed HasType s name v) := by
    intro fields hfields
    induction fields with
    | nil => exact ⟨.empty, fun f hf => (nomatch hf), fun name v hv => (nomatch hv)⟩
    | cons f fields ih =>
      obtain ⟨hf, hrest⟩ := List.forall_mem_cons.mp hfields
      obtain ⟨r, hpresent, hallowed⟩ := ih hrest
      cases hrequired : f.required with
      | false =>
        refine ⟨r, List.forall_mem_cons.mpr ⟨fun h => ?_, hpresent⟩, hallowed⟩
        rw [hrequired] at h
        cases h
      | true =>
        have hname : Requires s f.name := ⟨f, hf, hrequired, rfl⟩
        obtain ⟨v, hv⟩ := h f.name hname
        refine ⟨r.set f.name v, List.forall_mem_cons.mpr ⟨fun _ => by simp, ?_⟩, ?_⟩
        · intro g hg hgrequired
          rw [Dict.get?_set]
          split
          · rfl
          · exact hpresent g hg hgrequired
        · intro name w hw
          rw [Dict.get?_set] at hw
          split at hw
          · next heq =>
            cases hw
            exact heq ▸ ⟨hname, hv⟩
          · exact hallowed name w hw
  obtain ⟨r, hpresent, hallowed⟩ := hbuild s.fields fun f hf => hf
  refine ⟨r, ⟨hpresent, fun f hf v hv => (hallowed f.name v hv).2 f hf rfl⟩, fun name hsome => ?_⟩
  obtain ⟨v, hv⟩ := Option.isSome_iff_exists.mp hsome
  exact (hallowed name v hv).1

/-- One schema covers another exactly if its records are records of the other. -/
theorem covers_iff :
    (∀ r : Dict String V, Valid HasType s r → Valid HasType t r) ↔ Covers HasType s t := by
  constructor
  · intro h hpossible f hf
    obtain ⟨r, hr, hleast⟩ := exists_least hpossible
    refine ⟨fun hrequired => hleast f.name ((h r hr).present f hf hrequired), fun v hv => ?_⟩
    have hset : Valid HasType s (r.set f.name v) := by
      refine ⟨fun g hg hrequired => ?_, fun g hg w hw => ?_⟩
      · rw [Dict.get?_set]
        split
        · rfl
        · exact hr.present g hg hrequired
      · rw [Dict.get?_set] at hw
        split at hw
        · next heq =>
          cases hw
          exact hv g hg heq.symm
        · exact hr.typed g hg w hw
    exact (h _ hset).typed f hf v (Dict.get?_set_self ..)
  · intro h r hr
    have hcovers := h fun name hname => by
      obtain ⟨v, hv⟩ := Option.isSome_iff_exists.mp (hr.requires hname)
      exact ⟨v, hr.allowed hv⟩
    exact ⟨fun f hf hrequired => hr.requires ((hcovers f hf).1 hrequired),
      fun f hf v hv => (hcovers f hf).2 v (hr.allowed hv)⟩

end Records

/-! ### What is reported -/

section Changes
variable {D : Type}

/-- The last declaration of a name. -/
def declared (s : ArtifactSchema D) (name : String) : Option (FieldSchema D) :=
  (fieldMap s.fields).get? name

/-- No field is removed or retyped, and none is added that is required. -/
structure BackwardChanges (old new : ArtifactSchema D) : Prop where
  added : ∀ name f, declared new name = some f → declared old name = none → f.required = false
  kept : ∀ name f, declared old name = some f → (declared new name).isSome = true
  types : ∀ name o, declared old name = some o → ∀ n, declared new name = some n → o.type = n.type

/-- No field is added or retyped. -/
structure ForwardChanges (old new : ArtifactSchema D) : Prop where
  added : ∀ name f, declared new name = some f → (declared old name).isSome = true
  types : ∀ name o, declared old name = some o → ∀ n, declared new name = some n → o.type = n.type

/-- No field is added, removed or retyped, and no default or nested schema is changed. -/
structure NoChanges [BEq D] (old new : ArtifactSchema D) : Prop where
  added : ∀ name f, declared new name = some f → (declared old name).isSome = true
  kept : ∀ name f, declared old name = some f → (declared new name).isSome = true
  same : ∀ name o, declared old name = some o → ∀ n, declared new name = some n →
    o.type = n.type ∧ (o.default == n.default) = true ∧
      o.nestedSchemaFingerprint = n.nestedSchemaFingerprint

variable [BEq D] {old new : ArtifactSchema D}

theorem forall_modified {P : SchemaChangeType → Prop} (name : String) {o n : FieldSchema D} :
    (∀ change ∈ modified name o n, P change.type) ↔
      (o.type = n.type ∨ P .fieldTypeChanged) ∧
      ((o.default == n.default) = true ∨ P .fieldDefaultChanged) ∧
      (o.nestedSchemaFingerprint = n.nestedSchemaFingerprint ∨ P .nestedSchemaChanged) := by
  simp only [modified, List.forall_mem_append, and_assoc]
  refine and_congr ?_ (and_congr ?_ ?_)
  · by_cases h : o.type = n.type <;> simp [h]
  · by_cases h : (o.default == n.default) = true <;> simp [h, bne]
  · by_cases h : o.nestedSchemaFingerprint = n.nestedSchemaFingerprint <;> simp [h]

/-- What holds of every change reported, said of the declarations. -/
theorem forall_diff {P : SchemaChangeType → Prop} :
    (∀ change ∈ diff old new, P change.type) ↔
      (∀ name f, declared new name = some f → declared old name = none → P (addedType f)) ∧
      (∀ name f, declared old name = some f → declared new name = none → P .fieldRemoved) ∧
      (∀ name o, declared old name = some o → ∀ n, declared new name = some n →
        (o.type = n.type ∨ P .fieldTypeChanged) ∧
        ((o.default == n.default) = true ∨ P .fieldDefaultChanged) ∧
        (o.nestedSchemaFingerprint = n.nestedSchemaFingerprint ∨ P .nestedSchemaChanged)) := by
  simp only [diff, List.forall_mem_append, and_assoc]
  refine and_congr ?_ (and_congr ?_ ?_)
  · refine Iff.trans ?_ (Dict.forall_items (fieldMap new.fields)
      (P := fun name f => declared old name = none → P (addedType f)))
    simp only [List.mem_filterMap, Dict.contains, declared]
    constructor
    · intro h p hp hnone
      exact h ⟨addedType p.2, p.1, some p.2.required⟩ ⟨p, hp, by simp [hnone]⟩
    · rintro h change ⟨p, hp, hchange⟩
      cases hget : (fieldMap old.fields).get? p.1 with
      | none =>
        obtain rfl : _ = change := by simpa [hget] using hchange
        exact h p hp hget
      | some f => simp [hget] at hchange
  · refine Iff.trans ?_ (Dict.forall_items (fieldMap old.fields)
      (P := fun name _ => declared new name = none → P .fieldRemoved))
    simp only [List.mem_filterMap, Dict.contains, declared]
    constructor
    · intro h p hp hnone
      exact h ⟨.fieldRemoved, p.1, none⟩ ⟨p, hp, by simp [hnone]⟩
    · rintro h change ⟨p, hp, hchange⟩
      cases hget : (fieldMap new.fields).get? p.1 with
      | none =>
        obtain rfl : _ = change := by simpa [hget] using hchange
        exact h p hp hget
      | some f => simp [hget] at hchange
  · refine Iff.trans ?_ (Dict.forall_items (fieldMap old.fields)
      (P := fun name o => ∀ n, declared new name = some n →
        (o.type = n.type ∨ P .fieldTypeChanged) ∧
        ((o.default == n.default) = true ∨ P .fieldDefaultChanged) ∧
        (o.nestedSchemaFingerprint = n.nestedSchemaFingerprint ∨ P .nestedSchemaChanged)))
    simp only [List.mem_flatMap, declared]
    constructor
    · intro h p hp n hn
      refine (forall_modified p.1).mp fun change hchange => h change ⟨p, hp, ?_⟩
      simpa only [hn] using hchange
    · rintro h change ⟨p, hp, hchange⟩
      cases hget : (fieldMap new.fields).get? p.1 with
      | none => simp [hget] at hchange
      | some n =>
        simp only [hget] at hchange
        exact (forall_modified p.1).mpr (h p hp n hget) change hchange

theorem compatible_iff (formatted : SchemaChangeType → String) :
    (validate formatted old new).compatible = true ↔
      ∀ change ∈ diff old new, change.type ∈ rules new.compatibility := by
  simp [validate, List.filter_eq_nil_iff]

/-- What a report is compatible with, level by level. -/
def Permitted (old new : ArtifactSchema D) : Prop :=
  match new.compatibility with
  | .none => True
  | .backward => BackwardChanges old new
  | .forward => ForwardChanges old new
  | .full => NoChanges old new

omit [BEq D] in
theorem isSome_of_refused {P : Prop} {x : Option (FieldSchema D)} (h : x = none → P) (hP : ¬ P) :
    x.isSome = true := by
  cases x with
  | none => exact absurd (h rfl) hP
  | some f => rfl

omit [BEq D] in
theorem refused_of_isSome {P : Prop} {x : Option (FieldSchema D)} (h : x.isSome = true)
    (hx : x = none) : P := by
  rw [hx] at h
  cases h

/-- The report says what the rules are for: nothing a level forbids has changed. -/
theorem compatible_iff_permitted (formatted : SchemaChangeType → String) :
    (validate formatted old new).compatible = true ↔ Permitted old new := by
  have hoptional : ∀ f : FieldSchema D,
      addedType f ∈ rules .backward ↔ f.required = false := by
    intro f
    unfold addedType
    cases f.required <;> simp [rules]
  have hrefused : ∀ (f : FieldSchema D) (level : CompatibilityLevel),
      level = .forward ∨ level = .full → addedType f ∉ rules level := by
    rintro f level (rfl | rfl) <;> unfold addedType <;> cases f.required <;> simp [rules]
  rw [compatible_iff, forall_diff, Permitted]
  cases new.compatibility with
  | none =>
    have hall : ∀ t, t ∈ rules .none := by
      intro t
      cases t <;> decide
    exact ⟨fun _ => trivial, fun _ => ⟨fun _ _ _ _ => hall _, fun _ _ _ _ => hall _,
      fun _ _ _ _ _ => ⟨.inr (hall _), .inr (hall _), .inr (hall _)⟩⟩⟩
  | backward =>
    constructor
    · rintro ⟨hadded, hremoved, hsame⟩
      exact ⟨fun name f hf hn => (hoptional f).mp (hadded name f hf hn),
        fun name f hf => isSome_of_refused (hremoved name f hf) (by decide),
        fun name o ho n hn => (hsame name o ho n hn).1.resolve_right (by decide)⟩
    · rintro ⟨hadded, hkept, htypes⟩
      exact ⟨fun name f hf hn => (hoptional f).mpr (hadded name f hf hn),
        fun name f hf => refused_of_isSome (hkept name f hf),
        fun name o ho n hn =>
          ⟨.inl (htypes name o ho n hn), .inr (by decide), .inr (by decide)⟩⟩
  | forward =>
    constructor
    · rintro ⟨hadded, -, hsame⟩
      exact ⟨fun name f hf => isSome_of_refused (hadded name f hf) (hrefused f _ (.inl rfl)),
        fun name o ho n hn => (hsame name o ho n hn).1.resolve_right (by decide)⟩
    · rintro ⟨hadded, htypes⟩
      exact ⟨fun name f hf => refused_of_isSome (hadded name f hf), fun _ _ _ _ => by decide,
        fun name o ho n hn =>
          ⟨.inl (htypes name o ho n hn), .inr (by decide), .inr (by decide)⟩⟩
  | full =>
    constructor
    · rintro ⟨hadded, hremoved, hsame⟩
      refine ⟨fun name f hf => isSome_of_refused (hadded name f hf) (hrefused f _ (.inr rfl)),
        fun name f hf => isSome_of_refused (hremoved name f hf) (by decide),
        fun name o ho n hn => ?_⟩
      obtain ⟨htype, hdefault, hnested⟩ := hsame name o ho n hn
      exact ⟨htype.resolve_right (by decide), hdefault.resolve_right (by decide),
        hnested.resolve_right (by decide)⟩
    · rintro ⟨hadded, hkept, hsame⟩
      refine ⟨fun name f hf => refused_of_isSome (hadded name f hf),
        fun name f hf => refused_of_isSome (hkept name f hf), fun name o ho n hn => ?_⟩
      obtain ⟨htype, hdefault, hnested⟩ := hsame name o ho n hn
      exact ⟨.inl htype, .inl hdefault, .inl hnested⟩

/-! ### Soundness -/

section Sound
variable {V : Type} (HasType : String → V → Prop)

/-- A compatible report keeps its promise: what its level says is readable is. -/
def KeepsPromise (formatted : SchemaChangeType → String) (old new : ArtifactSchema D) : Prop :=
  (validate formatted old new).compatible = true →
    ((new.compatibility = .backward ∨ new.compatibility = .full) →
      ∀ r : Dict String V, Valid HasType old r → Valid HasType new r) ∧
    ((new.compatibility = .forward ∨ new.compatibility = .full) →
      ∀ r : Dict String V, Valid HasType new r → Valid HasType old r)

/-- What the changes a level lets through must also do. -/
def MustCover (old new : ArtifactSchema D) : Prop :=
  match new.compatibility with
  | .none => True
  | .backward => BackwardChanges old new → Covers HasType old new
  | .forward => ForwardChanges old new → Covers HasType new old
  | .full => NoChanges old new → Covers HasType old new ∧ Covers HasType new old

/-- **Main theorem.** Compatibility is sound for two schemas exactly if the changes
between them that the level permits cover, in the direction the level promises. -/
theorem sound_iff (formatted : SchemaChangeType → String) (old new : ArtifactSchema D) :
    KeepsPromise HasType formatted old new ↔ MustCover HasType old new := by
  rw [KeepsPromise, compatible_iff_permitted, Permitted, MustCover]
  cases new.compatibility <;> simp [covers_iff]

end Sound

end Changes

/-- An optional field becomes required, which is no change at all; and a required
field is removed, which old readers are told they can live without. -/
theorem required_flag_unreported :
    let optional : ArtifactSchema Unit := ⟨[⟨"a", "str", false, (), none⟩], .backward, ⟨"1"⟩⟩
    let required : ArtifactSchema Unit := ⟨[⟨"a", "str", true, (), none⟩], .backward, ⟨"2"⟩⟩
    let without : ArtifactSchema Unit := ⟨[], .forward, ⟨"3"⟩⟩
    let isText : String → String → Prop := fun type _ => type = "str"
    (validate (fun _ => "") optional required).changes = [] ∧
      ¬ KeepsPromise isText (fun _ => "") optional required ∧
      ¬ KeepsPromise isText (fun _ => "") required without := by
  intro optional required without isText
  refine ⟨by decide, fun h => ?_, fun h => ?_⟩
  · have hempty : Valid isText required (.empty : Dict String String) :=
      (h (by decide)).1 (.inl rfl) _ ⟨fun f hf => ?_, fun f hf v hv => (nomatch hv)⟩
    · exact absurd (hempty.present _ (List.mem_singleton_self _) rfl) (by decide)
    · obtain rfl := List.mem_singleton.mp hf
      exact fun hrequired => (nomatch hrequired)
  · have hempty : Valid isText required (.empty : Dict String String) :=
      (h (by decide)).2 (.inl rfl) _ ⟨fun f hf => (nomatch hf), fun f hf => (nomatch hf)⟩
    exact absurd (hempty.present _ (List.mem_singleton_self _) rfl) (by decide)

end PiPlatform.EventFabric.Schema
