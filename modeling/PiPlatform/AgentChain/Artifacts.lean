import PiPlatform.AgentChain.Models

/-! Semantic artifacts.

`derive_artifact` takes the volatile fields of a record away, writes what is left with sorted
keys, and hashes the text. It looks at the record's own fields only, so a time further inside
stays in the text: the hash is the same by every clock when there is none
that never agree (`sameAddress_of_no_time`, `no_time_of_sameAddress`). -/
namespace PiPlatform.AgentChain

open Library Library.Json

/-- `_VOLATILE_HASH_FIELDS` -/
def volatileHashFields : List String :=
  ["frozen_at", "synthesized_at", "verified_at", "generated_at", "measured_at", "observed_at",
    "detected_at", "first_observed_at", "last_observed_at", "first_detected", "captured_at",
    "timestamp", "session_window_id", "semantic_hash"]

/-- `str` of the time of a field. -/
abbrev Clock := String → Nat → String

variable {R : Type}

section Write
variable (floatRepr : R → Fl Literal) (clock : Clock)

mutual

/-- What `json.dumps(v, sort_keys=True, default=str)` writes. -/
def Datum.document : Datum R → Document Literal
  | .null => .null
  | .bool b => .bool b
  | .int i => .int i
  | .float x => .float (floatRepr x)
  | .text s => .str (ofString s)
  | .time field position => .str (ofString (clock field position))
  | .list xs => .arr (documentElems xs)
  | .dict items => .obj ((documentItems items).insertionSort fun a b => a.1 ≤ b.1)

def documentElems : List (Datum R) → List (Document Literal)
  | [] => []
  | x :: xs => x.document :: documentElems xs

def documentItems : List (String × Datum R) → List (Text × Document Literal)
  | [] => []
  | (k, v) :: items => (ofString k, v.document) :: documentItems items

end

/-- The fields of a record that are hashed. -/
def hashedFields (dump : List (String × Datum R)) : List (String × Datum R) :=
  dump.filter fun item => item.1 ∉ volatileHashFields

structure SemanticArtifact where
  artifactId : String
  semanticHash : String
  generatedBy : String
  payloadJson : String

/-- `sha256` is the hex digest of a text. -/
def deriveArtifact (sha256 : String → String) (dump : List (String × Datum R))
    (generatedBy : String) : SemanticArtifact :=
  let payload := String.ofList
    (((Datum.dict (hashedFields dump)).document floatRepr clock).render .spaced)
  let semHash := sha256 payload
  { artifactId := String.ofList ((sha256 (semHash ++ generatedBy)).toList.take 16)
    semanticHash := semHash
    generatedBy := generatedBy
    payloadJson := payload }

end Write

/-! ### Times -/

mutual

@[grind =] def Datum.hasTime : Datum R → Bool
  | .time _ _ => true
  | .list xs => hasTimeElems xs
  | .dict items => hasTimeItems items
  | _ => false

def hasTimeElems : List (Datum R) → Bool
  | [] => false
  | x :: xs => x.hasTime || hasTimeElems xs

def hasTimeItems : List (String × Datum R) → Bool
  | [] => false
  | (_, v) :: items => v.hasTime || hasTimeItems items

end

theorem hasTimeElems_iff {xs : List (Datum R)} :
    hasTimeElems xs = true ↔ ∃ x ∈ xs, x.hasTime = true := by
  induction xs with
  | nil => simp [hasTimeElems]
  | cons x xs ih => simp [hasTimeElems, ih]

theorem hasTimeItems_iff {items : List (String × Datum R)} :
    hasTimeItems items = true ↔ ∃ item ∈ items, item.2.hasTime = true := by
  induction items with
  | nil => simp [hasTimeItems]
  | cons item items ih => simp [hasTimeItems, ih]

section Documents
variable (floatRepr : R → Fl Literal)

theorem documentItems_eq_map (clock : Clock) (items : List (String × Datum R)) :
    documentItems floatRepr clock items =
      items.map fun item => (ofString item.1, item.2.document floatRepr clock) := by
  induction items with
  | nil => rfl
  | cons item items ih => rw [documentItems, ih, List.map_cons]

variable (clock₁ clock₂ : Clock)

mutual

theorem document_congr : ∀ d : Datum R, d.hasTime = false →
    d.document floatRepr clock₁ = d.document floatRepr clock₂
  | .null, _ | .bool _, _ | .int _, _ | .float _, _ | .text _, _ => rfl
  | .time _ _, h => nomatch h
  | .list xs, h => congrArg Document.arr (documentElems_congr xs h)
  | .dict items, h => by
    rw [Datum.document, Datum.document, documentItems_congr items h]

theorem documentElems_congr : ∀ xs : List (Datum R), hasTimeElems xs = false →
    documentElems floatRepr clock₁ xs = documentElems floatRepr clock₂ xs
  | [], _ => rfl
  | x :: xs, h => by
    obtain ⟨hx, hxs⟩ := Bool.or_eq_false_iff.mp h
    rw [documentElems, documentElems, document_congr x hx, documentElems_congr xs hxs]

theorem documentItems_congr : ∀ items : List (String × Datum R), hasTimeItems items = false →
    documentItems floatRepr clock₁ items = documentItems floatRepr clock₂ items
  | [], _ => rfl
  | (k, v) :: items, h => by
    obtain ⟨hv, hitems⟩ := Bool.or_eq_false_iff.mp h
    rw [documentItems, documentItems, document_congr v hv, documentItems_congr items hitems]

end

/-- Sorting looks at the keys only, which are the same by both clocks. -/
theorem join_items_of_join_dict {items : List (String × Datum R)}
    (h : ((Datum.dict items).document floatRepr clock₁).join =
      ((Datum.dict items).document floatRepr clock₂).join) :
    ∀ item ∈ items, (item.2.document floatRepr clock₁).join =
      (item.2.document floatRepr clock₂).join := by
  let sorted := items.insertionSort fun a b => ofString a.1 ≤ ofString b.1
  have hsorted : ∀ clock : Clock, ((Datum.dict items).document floatRepr clock).join =
      .obj (sorted.map fun item =>
        (ofString item.1, (item.2.document floatRepr clock).join)) := by
    intro clock
    have hsort : sorted.map (fun item => (ofString item.1, item.2.document floatRepr clock)) =
        (documentItems floatRepr clock items).insertionSort fun a b => a.1 ≤ b.1 := by
      rw [documentItems_eq_map]
      exact List.map_insertionSort _ _ _ _ fun _ _ _ _ => Iff.rfl
    rw [Datum.document, ← hsort, Document.join, joinMembers_eq_map, List.map_map]
    simp [Function.comp_def]
  rw [hsorted, hsorted, Document.obj.injEq, List.map_inj_left] at h
  intro item hitem
  have hmem : item ∈ sorted := (List.perm_insertionSort _ items).mem_iff.mpr hitem
  exact (Prod.ext_iff.mp (h item hmem)).2

variable {clock₁ clock₂}

mutual

/-- By two clocks that never agree, documents are the same only without a time. -/
theorem hasTime_of_join (hapart : ∀ field position, clock₁ field position ≠ clock₂ field position) :
    ∀ d : Datum R, (d.document floatRepr clock₁).join = (d.document floatRepr clock₂).join →
      d.hasTime = false
  | .null, _ | .bool _, _ | .int _, _ | .float _, _ | .text _, _ => rfl
  | .time field position, h => by
    simp only [Datum.document, Document.join, joinSurrogates_ofString, Document.str.injEq,
      ofString_inj] at h
    exact absurd h (hapart field position)
  | .list xs, h => by
    simp only [Datum.document, Document.join, Document.arr.injEq] at h
    exact hasTimeElems_of_join hapart xs h
  | .dict items, h =>
    hasTimeItems_of_join hapart items (join_items_of_join_dict floatRepr clock₁ clock₂ h)

theorem hasTimeElems_of_join
    (hapart : ∀ field position, clock₁ field position ≠ clock₂ field position) :
    ∀ xs : List (Datum R), joinElems (documentElems floatRepr clock₁ xs) =
      joinElems (documentElems floatRepr clock₂ xs) → hasTimeElems xs = false
  | [], _ => rfl
  | x :: xs, h => by
    obtain ⟨hx, hxs⟩ := List.cons.inj h
    rw [hasTimeElems, hasTime_of_join hapart x hx, hasTimeElems_of_join hapart xs hxs, Bool.or_self]

theorem hasTimeItems_of_join
    (hapart : ∀ field position, clock₁ field position ≠ clock₂ field position) :
    ∀ items : List (String × Datum R), (∀ item ∈ items,
      (item.2.document floatRepr clock₁).join = (item.2.document floatRepr clock₂).join) →
      hasTimeItems items = false
  | [], _ => rfl
  | (k, v) :: items, h => by
    obtain ⟨hv, hitems⟩ := List.forall_mem_cons.mp h
    rw [hasTimeItems, hasTime_of_join hapart v hv, hasTimeItems_of_join hapart items hitems,
      Bool.or_self]

end

/-! ### Artifacts by two clocks -/

variable {sha256 : String → String} {dump : List (String × Datum R)} {generatedBy : String}

/-- The hash and the id are the same. -/
structure SameAddress (a₁ a₂ : SemanticArtifact) : Prop where
  semanticHash : a₁.semanticHash = a₂.semanticHash
  artifactId : a₁.artifactId = a₂.artifactId

variable (clock₁ clock₂) in
theorem sameAddress_of_no_time (h : hasTimeItems (hashedFields dump) = false) :
    SameAddress (deriveArtifact floatRepr clock₁ sha256 dump generatedBy)
      (deriveArtifact floatRepr clock₂ sha256 dump generatedBy) := by
  have hdocument := document_congr floatRepr clock₁ clock₂ (.dict (hashedFields dump)) h
  constructor
  · simp only [deriveArtifact, hdocument]
  · simp only [deriveArtifact, hdocument]

theorem no_time_of_sameAddress (hsha : Function.Injective sha256)
    (hapart : ∀ field position, clock₁ field position ≠ clock₂ field position)
    (h : SameAddress (deriveArtifact floatRepr clock₁ sha256 dump generatedBy)
      (deriveArtifact floatRepr clock₂ sha256 dump generatedBy)) :
    hasTimeItems (hashedFields dump) = false := by
  have htext := String.ofList_inj.mp (hsha h.semanticHash)
  exact hasTime_of_join floatRepr hapart (.dict (hashedFields dump)) (render_eq_iff _ |>.mp htext)

end Documents

end PiPlatform.AgentChain
