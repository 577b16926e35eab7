import Mathlib.Algebra.Order.Ring.Rat
import Mathlib.Data.String.Basic
import PiPlatform.Library.Python.Value
import PiPlatform.Library.StableSort
import PiPlatform.Library.System

/-! The registry of semantic artifacts.

Rows are only ever added, and a promotion adds a copy with the new state. The copy keeps the
capture time of the original, and a lookup by hash takes the newest by that time, the first of
them when there are several: the original stays in front of its promotion
(`not_latest_of_promoted`). `latest_iff` says when the answer is what was stored last: nothing
of the hash was captured later, and what came first of the same time is the same artifact. -/
namespace PiPlatform.AgentChain.Registry

open Library Library.Json Library.Python

/-! ### Artifacts and rows -/

/-- The score is checked when the object is made. -/
structure SemanticArtifact (R : Type) [LinearOrder R] [Zero R] [One R] where
  artifactId : String
  artifactType : String
  epistemicState : String
  trustScore : R
  trust_nonneg : 0 ≤ trustScore
  trust_le_one : trustScore ≤ 1
  provenance : List Text
  semanticHash : String
  generatedBy : String
  verificationStatus : String
  payloadJson : String
  capturedAt : String
  parentArtifactIds : List Text
  sourceExecutionId : String
  originatingRuntimeState : String
  inputHash : String
  outputHash : String
  traceHash : String
  evidenceRefs : List Text
  schemaVersion : String
  deriving DecidableEq

/-- The columns, lists as JSON. -/
structure Row (R : Type) where
  artifactId : String
  artifactType : String
  epistemicState : String
  trustScore : R
  provenance : String
  semanticHash : String
  generatedBy : String
  verificationStatus : String
  payloadJson : String
  capturedAt : String
  parentArtifactIds : String
  sourceExecutionId : String
  originatingRuntimeState : String
  inputHash : String
  outputHash : String
  traceHash : String
  evidenceRefs : String
  schemaVersion : String

/-- `json.dumps(texts, sort_keys=True)` -/
def dumpTexts (texts : List Text) : String :=
  String.ofList ((Document.arr (F := Literal) (texts.map .str)).render .spaced)

def asText : Document Literal → Option Text
  | .str s => some s
  | _ => none

/-- `json.loads(column)`, where a list of texts is asked for. -/
def loadTexts (column : String) : Except PyError (List Text) :=
  match parse (F := Literal) column.toList with
  | none => .error .jsonDecodeError
  | some (.arr docs) =>
    match docs.mapM asText with
    | none => .error (.valueError "Input should be a valid string")
    | some texts => .ok texts
  | some _ => .error (.valueError "Input should be a valid list")

/-- `json.loads(column) if column else []` -/
def loadTextsOrNone (column : String) : Except PyError (List Text) :=
  if column = "" then .ok [] else loadTexts column

section Registry
variable {R : Type} [LinearOrder R] [Zero R] [One R]

def SemanticArtifact.toRow (a : SemanticArtifact R) : Row R where
  artifactId := a.artifactId
  artifactType := a.artifactType
  epistemicState := a.epistemicState
  trustScore := a.trustScore
  provenance := dumpTexts a.provenance
  semanticHash := a.semanticHash
  generatedBy := a.generatedBy
  verificationStatus := a.verificationStatus
  payloadJson := a.payloadJson
  capturedAt := a.capturedAt
  parentArtifactIds := dumpTexts a.parentArtifactIds
  sourceExecutionId := a.sourceExecutionId
  originatingRuntimeState := a.originatingRuntimeState
  inputHash := a.inputHash
  outputHash := a.outputHash
  traceHash := a.traceHash
  evidenceRefs := dumpTexts a.evidenceRefs
  schemaVersion := a.schemaVersion

/-- `_row_to_artifact` -/
def Row.toArtifact (row : Row R) : Except PyError (SemanticArtifact R) := do
  let provenance ← loadTexts row.provenance
  let parentArtifactIds ← loadTextsOrNone row.parentArtifactIds
  let evidenceRefs ← loadTextsOrNone row.evidenceRefs
  if h : 0 ≤ row.trustScore ∧ row.trustScore ≤ 1 then
    .ok
      { artifactId := row.artifactId
        artifactType := row.artifactType
        epistemicState := row.epistemicState
        trustScore := row.trustScore
        trust_nonneg := h.1
        trust_le_one := h.2
        provenance := provenance
        semanticHash := row.semanticHash
        generatedBy := row.generatedBy
        verificationStatus := row.verificationStatus
        payloadJson := row.payloadJson
        capturedAt := row.capturedAt
        parentArtifactIds := parentArtifactIds
        sourceExecutionId := row.sourceExecutionId
        originatingRuntimeState := row.originatingRuntimeState
        inputHash := row.inputHash
        outputHash := row.outputHash
        traceHash := row.traceHash
        evidenceRefs := evidenceRefs
        schemaVersion := if row.schemaVersion = "" then "1.0.0" else row.schemaVersion }
  else .error (.valueError "Input should be between 0 and 1")

/-! ### Calls -/

def store (rows : List (Row R)) (artifact : SemanticArtifact R) : List (Row R) :=
  rows ++ [artifact.toRow]

/-- The copy that `promote` makes. It raises where the score would be below zero. -/
def promoted [Add R] (artifact : SemanticArtifact R) (newState : String) (trustDelta : R) :
    Except PyError (SemanticArtifact R) :=
  let newTrust := min 1 (artifact.trustScore + trustDelta)
  if h : 0 ≤ newTrust then
    .ok
      { artifact with
        epistemicState := newState
        trustScore := newTrust
        trust_nonneg := h
        trust_le_one := min_le_left _ _
        provenance := artifact.provenance ++ [ofString ("promoted:" ++ newState)]
        evidenceRefs :=
          artifact.evidenceRefs ++ [ofString ("promotion_evidence:" ++ newState)] }
  else .error (.valueError "Input should be greater than or equal to 0")

/-- `SELECT * FROM artifacts WHERE semantic_hash = ? ORDER BY captured_at DESC LIMIT 1` -/
def selectNewest (rows : List (Row R)) (semanticHash : String) : Option (Row R) :=
  (sortBy (fun row => OrderDual.toDual row.capturedAt)
    (rows.filter fun row => row.semanticHash = semanticHash)).head?

def findByHash (rows : List (Row R)) (semanticHash : String) :
    Except PyError (Option (SemanticArtifact R)) :=
  match selectNewest rows semanticHash with
  | none => .ok none
  | some row => row.toArtifact.map some

inductive RegistryCall (R : Type) [LinearOrder R] [Zero R] [One R] where
  | store (artifact : SemanticArtifact R)
  | promote (artifact : SemanticArtifact R) (newState : String) (trustDelta : R)

variable [Add R]

/-- What a call stores: nothing where it raises. -/
def RegistryCall.stored : RegistryCall R → List (SemanticArtifact R)
  | .store artifact => [artifact]
  | .promote artifact newState trustDelta =>
    match promoted artifact newState trustDelta with
    | .ok artifact => [artifact]
    | .error _ => []

variable (R) in
def registry : System (List (Row R)) (RegistryCall R) where
  initial := []
  step rows
    | .store artifact => store rows artifact
    | .promote artifact newState trustDelta =>
      match promoted artifact newState trustDelta with
      | .ok artifact => store rows artifact
      | .error _ => rows

end Registry

/-! ### What a row keeps -/

section Rows
variable {R : Type} [LinearOrder R] [Zero R] [One R] {a p : SemanticArtifact R}
variable {xs : List (SemanticArtifact R)}

/-- The artifact that is read where this one was stored. -/
def SemanticArtifact.reread (a : SemanticArtifact R) : SemanticArtifact R :=
  { a with
    provenance := a.provenance.map joinSurrogates
    parentArtifactIds := a.parentArtifactIds.map joinSurrogates
    evidenceRefs := a.evidenceRefs.map joinSurrogates
    schemaVersion := if a.schemaVersion = "" then "1.0.0" else a.schemaVersion }

theorem joinElems_str (texts : List Text) :
    joinElems (F := Literal) (texts.map .str) = (texts.map joinSurrogates).map .str := by
  induction texts with
  | nil => rfl
  | cons t texts ih => rw [List.map_cons, joinElems, ih]; rfl

theorem mapM_asText (texts : List Text) : (texts.map .str).mapM asText = some texts := by
  induction texts with
  | nil => rfl
  | cons t texts ih => rw [List.map_cons, List.mapM_cons, ih]; rfl

theorem loadTexts_dumpTexts (texts : List Text) :
    loadTexts (dumpTexts texts) = .ok (texts.map joinSurrogates) := by
  rw [loadTexts, dumpTexts, String.toList_ofList, parse_render, Document.join, joinElems_str]
  show (match ((texts.map joinSurrogates).map Document.str).mapM asText with
    | none => Except.error _
    | some texts => .ok texts) = _
  rw [mapM_asText]

theorem loadTextsOrNone_dumpTexts (texts : List Text) :
    loadTextsOrNone (dumpTexts texts) = .ok (texts.map joinSurrogates) := by
  have hsome : dumpTexts texts ≠ "" := by
    intro hnone
    have hload := loadTexts_dumpTexts texts
    rw [hnone] at hload
    cases hload
  rw [loadTextsOrNone, if_neg hsome, loadTexts_dumpTexts]

/-- What was stored is read back. -/
theorem toArtifact_toRow (a : SemanticArtifact R) : a.toRow.toArtifact = .ok a.reread := by
  have hbounds : 0 ≤ a.toRow.trustScore ∧ a.toRow.trustScore ≤ 1 :=
    ⟨a.trust_nonneg, a.trust_le_one⟩
  have hprovenance : loadTexts a.toRow.provenance = _ := loadTexts_dumpTexts a.provenance
  have hparents : loadTextsOrNone a.toRow.parentArtifactIds = _ :=
    loadTextsOrNone_dumpTexts a.parentArtifactIds
  have hevidence : loadTextsOrNone a.toRow.evidenceRefs = _ :=
    loadTextsOrNone_dumpTexts a.evidenceRefs
  rw [Row.toArtifact, hprovenance, hparents, hevidence]
  exact dif_pos hbounds

/-! ### The newest of several -/

def newestFirst (xs : List (SemanticArtifact R)) : List (SemanticArtifact R) :=
  sortBy (fun a => OrderDual.toDual a.capturedAt) xs

def ofHash (semanticHash : String) (xs : List (SemanticArtifact R)) : List (SemanticArtifact R) :=
  xs.filter fun a => a.semanticHash = semanticHash

theorem sortBy_map_toRow (xs : List (SemanticArtifact R)) :
    sortBy (fun row => OrderDual.toDual row.capturedAt) (xs.map SemanticArtifact.toRow) =
      (newestFirst xs).map SemanticArtifact.toRow :=
  (List.map_insertionSort
    (fun a b : SemanticArtifact R => OrderDual.toDual a.capturedAt ≤ OrderDual.toDual b.capturedAt)
    (fun a b : Row R => OrderDual.toDual a.capturedAt ≤ OrderDual.toDual b.capturedAt)
    SemanticArtifact.toRow xs fun _ _ _ _ => Iff.rfl).symm

theorem filter_map_toRow (semanticHash : String) (xs : List (SemanticArtifact R)) :
    ((xs.map SemanticArtifact.toRow).filter fun row => row.semanticHash = semanticHash) =
      (ofHash semanticHash xs).map SemanticArtifact.toRow := by
  rw [List.filter_map]
  rfl

/-- A lookup reads the first of the newest. -/
theorem findByHash_map_toRow (xs : List (SemanticArtifact R)) (semanticHash : String) :
    findByHash (xs.map SemanticArtifact.toRow) semanticHash =
      .ok ((newestFirst (ofHash semanticHash xs)).head?.map SemanticArtifact.reread) := by
  rw [findByHash, selectNewest, filter_map_toRow, sortBy_map_toRow, List.head?_map]
  cases (newestFirst (ofHash semanticHash xs)).head? with
  | none => rfl
  | some a =>
    show (a.toRow.toArtifact.map some) = _
    rw [toArtifact_toRow]
    rfl

/-- Nothing was captured after the last one, and the first of its time is read as the last. -/
def Foremost (xs : List (SemanticArtifact R)) : Prop :=
  ∀ last, xs.getLast? = some last →
    (∀ a ∈ xs, a.capturedAt ≤ last.capturedAt) ∧
      ∀ first, (xs.find? fun a => a.capturedAt = last.capturedAt) = some first →
        first.reread = last

/-- The first of the newest is the first to come of its time, and nothing is newer. -/
theorem head?_newestFirst {w : SemanticArtifact R} (h : (newestFirst xs).head? = some w) :
    (xs.find? fun a => a.capturedAt = w.capturedAt) = some w ∧
      ∀ a ∈ xs, a.capturedAt ≤ w.capturedAt := by
  have hsorted := stableSort_sortBy (fun a => OrderDual.toDual a.capturedAt) xs
  obtain ⟨hfirst, hnewest⟩ := hsorted.head? h
  rw [List.head?_filter] at hfirst
  exact ⟨hfirst, hnewest⟩

theorem foremost_iff :
    (newestFirst xs).head?.map SemanticArtifact.reread = xs.getLast? ↔ Foremost xs := by
  cases hw : (newestFirst xs).head? with
  | none =>
    have hnone : xs = [] := by
      have hperm := (stableSort_sortBy (fun a => OrderDual.toDual a.capturedAt) xs).perm
      rw [← newestFirst, List.head?_eq_none_iff.mp hw] at hperm
      exact hperm.nil_eq.symm
    subst hnone
    exact iff_of_true rfl nofun
  | some w =>
    obtain ⟨hfirst, hnewest⟩ := head?_newestFirst hw
    constructor
    · intro heq last hlast
      rw [hlast] at heq
      obtain rfl := Option.some.inj heq
      refine ⟨hnewest, fun first hfound => ?_⟩
      have hsame : some w = some first := hfirst.symm.trans hfound
      rw [← Option.some.inj hsame]
    · intro hforemost
      have hmem : w ∈ xs := List.mem_of_find?_eq_some hfirst
      obtain ⟨last, hlast⟩ := Option.ne_none_iff_exists'.mp
        (mt List.getLast?_eq_none_iff.mp (List.ne_nil_of_mem hmem))
      obtain ⟨hle, hread⟩ := hforemost last hlast
      have htime : w.capturedAt = last.capturedAt :=
        le_antisymm (hle w hmem) (hnewest last (List.mem_of_getLast? hlast))
      rw [htime] at hfirst
      rw [hlast, ← hread w hfirst]
      rfl

end Rows

/-! ### Histories -/

section Histories
variable {R : Type} [LinearOrder R] [Zero R] [One R] [Add R]
variable {calls front : List (RegistryCall R)} {artifact p : SemanticArtifact R} {newState : String}

/-- Everything that was stored, in order. -/
def history (calls : List (RegistryCall R)) : List (SemanticArtifact R) :=
  calls.flatMap RegistryCall.stored

theorem history_append (front back : List (RegistryCall R)) :
    history (front ++ back) = history front ++ history back :=
  List.flatMap_append

theorem history_snoc (front : List (RegistryCall R)) (call : RegistryCall R) :
    history (front ++ [call]) = history front ++ call.stored := by
  rw [history_append]
  exact congrArg _ (List.flatMap_singleton _ _)

/-- A call adds the rows of what it stores. -/
theorem step_eq (rows : List (Row R)) (call : RegistryCall R) :
    (registry R).step rows call = rows ++ call.stored.map SemanticArtifact.toRow := by
  cases call with
  | store artifact => rfl
  | promote artifact newState trustDelta =>
    simp only [registry, RegistryCall.stored]
    split
    · rfl
    · rw [List.map_nil, List.append_nil]

theorem after_eq (calls : List (RegistryCall R)) :
    (registry R).after calls = (history calls).map SemanticArtifact.toRow := by
  induction calls using List.reverseRecOn with
  | nil => rfl
  | append_singleton calls call ih =>
    rw [System.after_snoc, step_eq, ih, ← List.map_append, history_snoc]

theorem findByHash_after (calls : List (RegistryCall R)) (semanticHash : String) :
    findByHash ((registry R).after calls) semanticHash =
      .ok ((newestFirst (ofHash semanticHash (history calls))).head?.map
        SemanticArtifact.reread) := by
  rw [after_eq, findByHash_map_toRow]

theorem history_promote {trustDelta : R} (hp : promoted artifact newState trustDelta = .ok p) :
    history (front ++ [.promote artifact newState trustDelta]) = history front ++ [p] := by
  rw [history_snoc, RegistryCall.stored, hp]

/-- What a promotion makes of an artifact. -/
theorem promoted_spec {trustDelta : R} (hp : promoted artifact newState trustDelta = .ok p) :
    p.epistemicState = newState ∧ p.trustScore = min 1 (artifact.trustScore + trustDelta) ∧
      p.semanticHash = artifact.semanticHash ∧ p.capturedAt = artifact.capturedAt ∧
      p.provenance = artifact.provenance ++ [ofString ("promoted:" ++ newState)] := by
  rw [promoted] at hp
  split_ifs at hp
  cases hp
  exact ⟨rfl, rfl, rfl, rfl, rfl⟩

/-- The registry answers with the latest state. -/
structure Latest (calls : List (RegistryCall R)) : Prop where
  found : ∀ semanticHash, findByHash ((registry R).after calls) semanticHash =
    .ok (ofHash semanticHash (history calls)).getLast?
  promotion : ∀ front artifact newState trustDelta p,
    calls = front ++ [.promote artifact newState trustDelta] →
    promoted artifact newState trustDelta = .ok p →
      findByHash ((registry R).after calls) artifact.semanticHash = .ok (some p) ∧
        p.epistemicState = newState ∧ p.trustScore = min 1 (artifact.trustScore + trustDelta)
  kept : ∀ front back, calls = front ++ back →
    (registry R).after front <+: (registry R).after calls

theorem found_iff (calls : List (RegistryCall R)) (semanticHash : String) :
    findByHash ((registry R).after calls) semanticHash =
        .ok (ofHash semanticHash (history calls)).getLast? ↔
      Foremost (ofHash semanticHash (history calls)) := by
  rw [findByHash_after, Except.ok.injEq, foremost_iff]

theorem getLast?_ofHash_promote
    {trustDelta : R} (hp : promoted artifact newState trustDelta = .ok p) :
    (ofHash artifact.semanticHash
      (history (front ++ [.promote artifact newState trustDelta]))).getLast? = some p := by
  have hhash := (promoted_spec hp).2.2.1
  rw [history_promote hp, ofHash, List.filter_append,
    List.filter_cons_of_pos (by simpa using hhash)]
  exact List.getLast?_concat

/-- Rows are only added. -/
theorem after_prefix (front back : List (RegistryCall R)) :
    (registry R).after front <+: (registry R).after (front ++ back) := by
  rw [after_eq, after_eq, history_append, List.map_append]
  exact List.prefix_append _ _

/-- The latest state is found exactly if, of each hash, nothing was captured after what was
stored last, and what came first of the same time is the same artifact. -/
theorem latest_iff (calls : List (RegistryCall R)) :
    Latest calls ↔ ∀ semanticHash, Foremost (ofHash semanticHash (history calls)) := by
  constructor
  · exact fun h semanticHash => (found_iff calls semanticHash).mp (h.found semanticHash)
  · intro h
    have hfound := fun semanticHash => (found_iff calls semanticHash).mpr (h semanticHash)
    refine ⟨hfound, ?_, ?_⟩
    · rintro front artifact newState trustDelta p rfl hp
      obtain ⟨hstate, htrust, -⟩ := promoted_spec hp
      refine ⟨?_, hstate, htrust⟩
      rw [hfound, getLast?_ofHash_promote hp]
    · rintro front back rfl
      exact after_prefix front back

end Histories

def observedTrace : SemanticArtifact ℚ where
  artifactId := "a1"
  artifactType := "SemanticIRTrace"
  epistemicState := "OBSERVED"
  trustScore := 1 / 2
  trust_nonneg := by decide +kernel
  trust_le_one := by decide +kernel
  provenance := []
  semanticHash := "beef"
  generatedBy := "normalizer"
  verificationStatus := "UNVERIFIED"
  payloadJson := "\x7b\x7d"
  capturedAt := "2026-01-01T00:00:00"
  parentArtifactIds := []
  sourceExecutionId := ""
  originatingRuntimeState := ""
  inputHash := ""
  outputHash := ""
  traceHash := ""
  evidenceRefs := []
  schemaVersion := "1.0.0"

/-- The original is found instead of its promotion. -/
theorem not_latest_observedTrace :
    ¬ Latest [.store observedTrace, .promote observedTrace "VERIFIED" (1 / 5)] := by
  intro h
  have hscore : (0 : ℚ) ≤ min 1 (observedTrace.trustScore + 1 / 5) := by decide +kernel
  obtain ⟨p, hp⟩ : ∃ p, promoted observedTrace "VERIFIED" (1 / 5) = .ok p := ⟨_, dif_pos hscore⟩
  obtain ⟨hstate, -, hhash, htime, -⟩ := promoted_spec hp
  have hhistory : history [.store observedTrace, .promote observedTrace "VERIFIED" (1 / 5)] =
      [observedTrace, p] := by
    show history ([.store observedTrace] ++ [.promote observedTrace "VERIFIED" (1 / 5)]) = _
    rw [history_promote hp]
    rfl
  have hforemost := (found_iff _ observedTrace.semanticHash).mp (h.found _)
  rw [hhistory, ofHash, List.filter_eq_self.mpr (by simp [hhash])] at hforemost
  have hread := (hforemost p rfl).2 observedTrace (by simp [htime])
  rw [← hread] at hstate
  exact absurd hstate (by decide +kernel)

end PiPlatform.AgentChain.Registry
