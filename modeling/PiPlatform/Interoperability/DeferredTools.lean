import Mathlib.Data.List.Sort
import PiPlatform.Library.Python.Canonical
import PiPlatform.Library.System

/-! Tools whose schemas are loaded late.

A row has the text of a schema and a flag. `register_eager` writes no text for a schema that is
falsy, and clears the flag unless the schema is `None`: given the empty object it registers a
tool that counts as loaded and has no schema. After every other call the flag says whether there
is a text, and the text is read as the schema that was supplied last (`Backed`). `coherent_iff`:
the one call is all that ever breaks it. -/
namespace PiPlatform.Interoperability.Deferred

open Library Library.Json Library.Python

/-- A value that JSON has a form for: string keys, no key twice, no split surrogates. -/
structure JsonObject (F : Type) where
  items : List (Key × PyValue F)
  json : (PyValue.dict items).json = true

def JsonObject.value {F : Type} (schema : JsonObject F) : PyValue F := .dict schema.items

structure DeferredTool (F : Type) where
  name : String
  description : String
  category : String
  toolSchema : Option (PyValue F)
  isDeferred : Bool

/-- What stands in the table beside the name. -/
structure ToolRow where
  description : String
  category : String
  schemaJson : Option String
  isDeferred : Bool

/-- The rows by their names. -/
abbrev Table := Dict String ToolRow

variable {F : Type} [FloatCodec F] [SetText F]

/-! ### Calls -/

/-- `json.dumps(schema, sort_keys=True) if schema else None` -/
def schemaText : Option (JsonObject F) → Except PyError (Option String)
  | none => .ok none
  | some schema =>
    if schema.items = [] then .ok none else (dumps .spaced schema.value).map some

def registerDeferred (table : Table) (name description category : String) :
    Except PyError (DeferredTool F) × Table :=
  if name = "" then (.error (.valueError "Tool name must not be empty"), table)
  else
    (.ok ⟨name, description, category, none, true⟩,
      table.set name ⟨description, category, none, true⟩)

def registerEager (table : Table) (name description category : String)
    (schema : Option (JsonObject F)) : Except PyError (DeferredTool F) × Table :=
  if name = "" then (.error (.valueError "Tool name must not be empty"), table)
  else
    match schemaText schema with
    | .error error => (.error error, table)
    | .ok schemaJson =>
      let isDeferred := schema.isNone
      (.ok ⟨name, description, category, schema.map (·.value), isDeferred⟩,
        table.set name ⟨description, category, schemaJson, isDeferred⟩)

/-- The error names the tool. -/
def promoteToLoaded (table : Table) (name : String) (schema : JsonObject F) :
    Except PyError (DeferredTool F) × Table :=
  match dumps .spaced schema.value with
  | .error error => (.error error, table)
  | .ok schemaJson =>
    match table.get? name with
    | none => (.error (.keyError name), table)
    | some row =>
      (.ok ⟨name, row.description, row.category, some schema.value, false⟩,
        table.set name { row with schemaJson := some schemaJson, isDeferred := false })

/-! ### Queries -/

/-- `json.loads(text) if text else None` -/
def loadSchema : Option String → Except PyError (Option (PyValue F))
  | none => .ok none
  | some text => if text = "" then .ok none else (loads text).map some

def fetchSchema (table : Table) (name : String) : Except PyError (Option (PyValue F)) :=
  match table.get? name with
  | none => .ok none
  | some row => loadSchema row.schemaJson

/-- `SELECT name FROM deferred_tools WHERE is_deferred = ? ORDER BY name` -/
def namesWhere (isDeferred : Bool) (table : Table) : List String :=
  ((table.items.filter fun p => p.2.isDeferred = isDeferred).map Prod.fst).insertionSort (· ≤ ·)

def listDeferred : Table → List String := namesWhere true

def listLoaded : Table → List String := namesWhere false

/-! ### The store -/

inductive ToolCall (F : Type) where
  | registerDeferred (name description category : String)
  | registerEager (name description category : String) (schema : Option (JsonObject F))
  | promoteToLoaded (name : String) (schema : JsonObject F)

def ToolCall.run (table : Table) : ToolCall F → Except PyError (DeferredTool F) × Table
  | .registerDeferred name description category =>
    Deferred.registerDeferred table name description category
  | .registerEager name description category schema =>
    Deferred.registerEager table name description category schema
  | .promoteToLoaded name schema => Deferred.promoteToLoaded table name schema

/-- The schema that a call supplies, and for which tool. -/
def ToolCall.supplies : ToolCall F → Option (String × JsonObject F)
  | .registerDeferred .. => none
  | .registerEager name _ _ schema => schema.map (name, ·)
  | .promoteToLoaded name schema => some (name, schema)

/-- The table, and what was supplied last for each name. -/
structure Stored (F : Type) where
  table : Table
  supplied : Dict String (JsonObject F)

/-- A call that raises supplies nothing. -/
def Stored.step (s : Stored F) (call : ToolCall F) : Stored F where
  table := (call.run s.table).2
  supplied :=
    match (call.run s.table).1, call.supplies with
    | .ok _, some (name, schema) => s.supplied.set name schema
    | _, _ => s.supplied

variable (F) in
def toolSchemaStore : System (Stored F) (ToolCall F) where
  initial := ⟨.empty, .empty⟩
  step := Stored.step

/-- What is loaded can be fetched, and is what was supplied last. -/
structure Coherent (s : Stored F) : Prop where
  loaded : ∀ name, s.table.contains name = true →
    (name ∈ listLoaded s.table ↔ ∃ v : PyValue F, fetchSchema s.table name = .ok (some v))
  schema : ∀ name (v : PyValue F), fetchSchema s.table name = .ok (some v) →
    ∃ schema, s.supplied.get? name = some schema ∧ schema.value.same v
  registered : ∀ name, s.table.contains name = true ↔
    name ∈ listDeferred s.table ∨ name ∈ listLoaded s.table
  disjoint : (listDeferred s.table).Disjoint (listLoaded s.table)
  raising : ∀ (call : ToolCall F) error,
    (call.run s.table).1 = .error error → (call.run s.table).2 = s.table

/-- Not an empty object for a tool with a name. -/
def ToolCall.Filled : ToolCall F → Prop
  | .registerEager name _ _ (some schema) => name ≠ "" → schema.items ≠ []
  | _ => True

/-! ### Texts of schemas -/

omit [SetText F] in
theorem loads_empty : loads (F := F) "" = .error .jsonDecodeError := rfl

/-- An object is written as a text that is read as it. -/
theorem exists_text (schema : JsonObject F) : ∃ text v,
    dumps .spaced schema.value = .ok text ∧ loadSchema (some text) = .ok (some v) ∧
      schema.value.same v := by
  obtain ⟨t, ht, hsame⟩ := same_reread schema.value schema.json
  have hload : loads (F := F) (String.ofList (t.render .spaced)) = .ok (load t.join) := by
    rw [loads, String.toList_ofList, parse_render]
  refine ⟨String.ofList (t.render .spaced), load t.join, ?_, ?_, hsame⟩
  · rw [dumps, ht]
    rfl
  · have hsome : String.ofList (t.render .spaced) ≠ "" := by
      intro hnone
      rw [hnone, loads_empty] at hload
      cases hload
    rw [loadSchema, if_neg hsome, hload]
    rfl

/-- The text was written for the schema. -/
def Wrote (schema : JsonObject F) (text : String) : Prop := dumps .spaced schema.value = .ok text

theorem Wrote.load {schema : JsonObject F} {text : String} (h : Wrote schema text) :
    ∃ v, loadSchema (some text) = .ok (some v) ∧ schema.value.same v := by
  obtain ⟨text', v, htext, hload, hsame⟩ := exists_text schema
  obtain rfl : text' = text := Except.ok.inj (htext.symm.trans h)
  exact ⟨v, hload, hsame⟩

theorem exists_wrote (schema : JsonObject F) : ∃ text, Wrote schema text :=
  (exists_text schema).imp fun _ h => h.choose_spec.1

/-! ### Queries -/

section Queries
variable {table : Table} {name : String} {row : ToolRow}

theorem mem_namesWhere {isDeferred : Bool} : name ∈ namesWhere isDeferred table ↔
    ∃ row, table.get? name = some row ∧ row.isDeferred = isDeferred := by
  rw [namesWhere, List.mem_insertionSort, List.mem_map]
  constructor
  · rintro ⟨⟨name, row⟩, hp, rfl⟩
    obtain ⟨hmem, hflag⟩ := List.mem_filter.mp hp
    exact ⟨row, table.mem_items.mp hmem, of_decide_eq_true hflag⟩
  · rintro ⟨row, hrow, hflag⟩
    exact ⟨(name, row), List.mem_filter.mpr ⟨table.mem_items.mpr hrow, decide_eq_true hflag⟩, rfl⟩

theorem mem_listLoaded (h : table.get? name = some row) :
    name ∈ listLoaded table ↔ row.isDeferred = false := by
  rw [listLoaded, mem_namesWhere, h]
  simp

omit [SetText F] in
theorem fetchSchema_of_get? (h : table.get? name = some row) :
    fetchSchema (F := F) table name = loadSchema row.schemaJson := by
  rw [fetchSchema, h]

theorem registered_iff (table : Table) (name : String) : table.contains name = true ↔
    name ∈ listDeferred table ∨ name ∈ listLoaded table := by
  rw [Dict.contains_iff, listDeferred, listLoaded, mem_namesWhere, mem_namesWhere, ← exists_or]
  refine exists_congr fun row => ?_
  rw [← and_or_left, and_iff_left (Bool.eq_false_or_eq_true row.isDeferred)]

theorem disjoint_lists (table : Table) : (listDeferred table).Disjoint (listLoaded table) := by
  intro name hdeferred hloaded
  obtain ⟨row, hrow, hflag⟩ := mem_namesWhere.mp hdeferred
  rw [mem_listLoaded hrow, hflag] at hloaded
  cases hloaded

end Queries

/-! ### What calls do -/

section Calls
variable {table : Table} {s : Stored F}

/-- What raises leaves the table. -/
theorem run_error (call : ToolCall F) (table : Table) (error : PyError)
    (h : (call.run table).1 = .error error) : (call.run table).2 = table := by
  cases call with
  | registerDeferred name description category =>
    simp only [ToolCall.run, registerDeferred] at h ⊢
    split_ifs at h ⊢
    rfl
  | registerEager name description category schema =>
    simp only [ToolCall.run, registerEager] at h ⊢
    split_ifs at h ⊢
    · rfl
    · split at h
      · rfl
      · cases h
  | promoteToLoaded name schema =>
    simp only [ToolCall.run, promoteToLoaded] at h ⊢
    split at h
    · rfl
    · split at h
      · rfl
      · cases h

/-- A deferred tool has no text; a loaded one has the text of what was supplied last. -/
def Backed (s : Stored F) (name : String) (row : ToolRow) : Prop :=
  if row.isDeferred = true then row.schemaJson = none
  else ∃ schema text, s.supplied.get? name = some schema ∧ row.schemaJson = some text ∧
    Wrote schema text

/-- Every row of the table is backed. -/
def AllBacked (s : Stored F) : Prop := ∀ name row, s.table.get? name = some row → Backed s name row

theorem AllBacked.coherent (h : AllBacked s) : Coherent s where
  loaded name hname := by
    obtain ⟨row, hrow⟩ := Dict.contains_iff.mp hname
    have hbacked := h name row hrow
    rw [mem_listLoaded hrow, fetchSchema_of_get? hrow]
    rw [Backed] at hbacked
    split_ifs at hbacked with hflag
    · rw [hbacked]
      exact iff_of_false (by simp [hflag]) (by simp [loadSchema])
    · obtain ⟨schema, text, -, htext, hwrote⟩ := hbacked
      obtain ⟨v, hload, -⟩ := hwrote.load
      exact iff_of_true (by simpa using hflag) ⟨v, by rw [htext, hload]⟩
  schema name v hfetch := by
    cases hrow : s.table.get? name with
    | none =>
      rw [fetchSchema, hrow] at hfetch
      cases hfetch
    | some row =>
      have hbacked := h name row hrow
      rw [fetchSchema_of_get? hrow] at hfetch
      rw [Backed] at hbacked
      split_ifs at hbacked
      · rw [hbacked] at hfetch
        cases hfetch
      · obtain ⟨schema, text, hsupplied, htext, hwrote⟩ := hbacked
        obtain ⟨v', hload, hsame⟩ := hwrote.load
        rw [htext, hload] at hfetch
        obtain rfl : v' = v := Option.some.inj (Except.ok.inj hfetch)
        exact ⟨schema, hsupplied, hsame⟩
  registered := registered_iff s.table
  disjoint := disjoint_lists s.table
  raising := fun call error => run_error call s.table error

/-- A step that writes one row, and with it what backs it. -/
theorem AllBacked.write (h : AllBacked s) {s' : Stored F} (name : String) (row : ToolRow)
    (htable : s'.table = s.table.set name row)
    (hsupplied : ∀ other, other ≠ name → s'.supplied.get? other = s.supplied.get? other)
    (hrow : Backed s' name row) : AllBacked s' := by
  intro other row' hget
  rw [htable, Dict.get?_set] at hget
  split_ifs at hget with heq
  · obtain rfl := Option.some.inj hget
    exact heq ▸ hrow
  · have hbacked := h other row' hget
    rwa [Backed, hsupplied other (Ne.symm heq)]

theorem schemaText_filled {schema : JsonObject F} {text : String} (hwrote : Wrote schema text)
    (hitems : schema.items ≠ []) : schemaText (some schema) = .ok (some text) := by
  rw [schemaText, if_neg hitems, hwrote]
  rfl

theorem AllBacked.step (h : AllBacked s) (call : ToolCall F) (hfilled : call.Filled) :
    AllBacked (s.step call) := by
  cases call with
  | registerDeferred name description category =>
    by_cases hname : name = ""
    · have hstep : s.step (.registerDeferred name description category) = s := by
        simp [Stored.step, ToolCall.run, registerDeferred, hname]
      rwa [hstep]
    · refine h.write name ⟨description, category, none, true⟩ ?_
        (fun _ _ => ?_) rfl
      · simp [Stored.step, ToolCall.run, registerDeferred, hname]
      · simp [Stored.step, ToolCall.run, registerDeferred, hname, ToolCall.supplies]
  | registerEager name description category schema =>
    by_cases hname : name = ""
    · have hstep : s.step (.registerEager name description category schema) = s := by
        simp [Stored.step, ToolCall.run, registerEager, hname]
      rwa [hstep]
    · cases schema with
      | none =>
        refine h.write name ⟨description, category, none, true⟩ ?_
          (fun _ _ => ?_) rfl
        · simp [Stored.step, ToolCall.run, registerEager, hname, schemaText]
        · simp [Stored.step, ToolCall.run, registerEager, hname, schemaText, ToolCall.supplies]
      | some schema =>
        obtain ⟨text, hwrote⟩ := exists_wrote schema
        have htext := schemaText_filled hwrote (hfilled hname)
        have hstep : s.step (.registerEager name description category (some schema)) =
            ⟨s.table.set name ⟨description, category, some text, false⟩,
              s.supplied.set name schema⟩ := by
          simp [Stored.step, ToolCall.run, registerEager, hname, htext, ToolCall.supplies]
        rw [hstep]
        refine h.write _ _ rfl (fun other hne => Dict.get?_set_ne (Ne.symm hne) _ _) ?_
        exact ⟨schema, text, Dict.get?_set_self .., rfl, hwrote⟩
  | promoteToLoaded name schema =>
    obtain ⟨text, hwrote⟩ := exists_wrote schema
    have htext : dumps .spaced schema.value = .ok text := hwrote
    cases hrow : s.table.get? name with
    | none =>
      have hstep : s.step (.promoteToLoaded name schema) = s := by
        simp [Stored.step, ToolCall.run, promoteToLoaded, htext, hrow]
      rwa [hstep]
    | some row =>
      have hstep : s.step (.promoteToLoaded name schema) =
          ⟨s.table.set name { row with schemaJson := some text, isDeferred := false },
            s.supplied.set name schema⟩ := by
        simp [Stored.step, ToolCall.run, promoteToLoaded, htext, hrow, ToolCall.supplies]
      rw [hstep]
      refine h.write _ _ rfl (fun other hne => Dict.get?_set_ne (Ne.symm hne) _ _) ?_
      exact ⟨schema, text, Dict.get?_set_self .., rfl, hwrote⟩

/-- The tool counts as loaded and has no schema. -/
theorem not_coherent_of_not_filled {call : ToolCall F} (hcall : ¬ call.Filled) :
    ¬ Coherent (s.step call) := by
  intro hcoherent
  cases call with
  | registerDeferred name description category | promoteToLoaded name schema => exact hcall trivial
  | registerEager name description category schema =>
    cases schema with
    | none => exact hcall trivial
    | some schema =>
      simp only [ToolCall.Filled, Classical.not_imp, not_not] at hcall
      obtain ⟨hname, hitems⟩ := hcall
      have htable : (s.step (.registerEager name description category (some schema))).table =
          s.table.set name ⟨description, category, none, false⟩ := by
        simp [Stored.step, ToolCall.run, registerEager, hname, schemaText, hitems]
      have hloaded := hcoherent.loaded name
      rw [htable] at hloaded
      have hrow := Dict.get?_set_self s.table name ⟨description, category, none, false⟩
      obtain ⟨v, hv⟩ := (hloaded (Dict.contains_iff.mpr ⟨_, hrow⟩)).mp
        ((mem_listLoaded hrow).mpr rfl)
      rw [fetchSchema_of_get? hrow] at hv
      cases hv

end Calls

/-- Loaded means fetchable, in every state of a run, exactly if no tool is registered with an
empty schema. -/
theorem coherent_iff (calls : List (ToolCall F)) :
    (toolSchemaStore F).Always Coherent calls ↔ ∀ call ∈ calls, call.Filled := by
  rw [System.always_iff_admits (toolSchemaStore F) (fun _ call => call.Filled) AllBacked Coherent
    (fun _ _ hrow => by cases hrow) (fun s call hfilled h => h.step call hfilled)
    (fun s h => h.coherent) (fun s call _ hcall => not_coherent_of_not_filled hcall)]
  constructor
  · intro h call hcall
    obtain ⟨before, behind, heq⟩ := List.append_of_mem hcall
    exact h before call behind heq
  · rintro h before call behind rfl
    exact h call (by simp)

/-- A tool without parameters, registered with the empty object. -/
def emptySchema : JsonObject Literal := ⟨[], rfl⟩

theorem not_coherent_emptySchema :
    ¬ (toolSchemaStore Literal).Always Coherent
      [.registerEager "Now" "the time" "clock" (some emptySchema)] := by
  intro h
  have hcoherent := h [.registerEager "Now" "the time" "clock" (some emptySchema)] [] rfl
  have hempty : ¬ (ToolCall.registerEager "Now" "the time" "clock" (some emptySchema)).Filled :=
    fun hfilled => hfilled (by decide) rfl
  exact not_coherent_of_not_filled hempty hcoherent

end PiPlatform.Interoperability.Deferred
