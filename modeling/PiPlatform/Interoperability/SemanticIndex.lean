import Mathlib.Data.Prod.Lex
import Mathlib.Data.String.Basic
import PiPlatform.Interoperability.CompatibilityGraph
import PiPlatform.Library.Json.Document
import PiPlatform.Library.StableSort

/-! The inverted index of artifacts.

`index` replaces the entry of an artifact and adds its id under the text `name:value` of each
field; nothing is ever taken from these lists. A query intersects them and checks type and
source, but not the fields. So it finds what it should and, besides, what once was indexed under
texts that are the same (`mem_candidates`): an entry that has other fields now, or one whose name
and value are divided elsewhere. An empty filter is none. `exact_iff` says when nothing else is
found. -/
namespace PiPlatform.Interoperability.SemanticIndex

open Library Library.Json
open Compatibility (addTo mem_addTo nodup_addTo)

structure IndexEntry where
  artifactId : String
  artifactType : String
  sourceExtensionId : String
  indexFields : List (String × String)
  provenanceHash : String
  indexedAt : String
  entryHash : String
  deriving DecidableEq

/-- `hashlib.sha256(payload.encode()).hexdigest()` -/
abbrev Sha256 := String → String

/-- The fields are sorted by their names already. -/
def IndexEntry.computeHash (sha256 : Sha256) (e : IndexEntry) : String :=
  let fields : Document Literal :=
    .obj (e.indexFields.map fun p => (ofString p.1, .str (ofString p.2)))
  sha256 (":".intercalate [e.artifactId, e.artifactType, e.sourceExtensionId,
    String.ofList (fields.render .spaced), e.provenanceHash])

structure IndexCall where
  artifactId : String
  artifactType : String
  sourceExtensionId : String
  fields : Dict String String
  provenanceHash : String
  now : String

/-- The entries, and the ids under each text. -/
structure SemanticIndexWorker where
  entries : Dict String IndexEntry
  inverted : Dict String (List String)

/-- `f"{k}:{v}"` -/
def keyText (p : String × String) : String := p.1 ++ ":" ++ p.2

def IndexCall.entry (sha256 : Sha256) (call : IndexCall) : IndexEntry :=
  let e : IndexEntry :=
    { artifactId := call.artifactId
      artifactType := call.artifactType
      sourceExtensionId := call.sourceExtensionId
      indexFields := sortBy toLex call.fields.items
      provenanceHash := call.provenanceHash
      indexedAt := call.now
      entryHash := "" }
  { e with entryHash := e.computeHash sha256 }

/-- `self._inverted.setdefault(key, set()).add(artifact_id)` -/
def addId (artifactId : String) (inverted : Dict String (List String)) (p : String × String) :
    Dict String (List String) :=
  inverted.set (keyText p) (addTo artifactId ((inverted.get? (keyText p)).getD []))

namespace SemanticIndexWorker
variable (w : SemanticIndexWorker)

/-- Whether the file can be written or not: that comes afterwards. -/
def index (sha256 : Sha256) (call : IndexCall) : SemanticIndexWorker where
  entries := w.entries.set call.artifactId (call.entry sha256)
  inverted := call.fields.items.foldl (addId call.artifactId) w.inverted

/-- `self._inverted.get(key, set())` -/
def ids (p : String × String) : List String := (w.inverted.get? (keyText p)).getD []

/-- One more field narrows the candidates. -/
def narrow (candidates : Option (List String)) (p : String × String) : Option (List String) :=
  match candidates with
  | none => some (w.ids p)
  | some candidates => some (candidates.filter (· ∈ w.ids p))

end SemanticIndexWorker

structure Query where
  artifactType : Option String
  fields : Dict String String
  sourceExtensionId : Option String

/-- `filter and value != filter` does not hold. -/
def passes (filter : Option String) (value : String) : Bool :=
  match filter with
  | none => true
  | some wanted => wanted = "" || value = wanted

def Query.accepts (q : Query) (e : IndexEntry) : Bool :=
  passes q.artifactType e.artifactType && passes q.sourceExtensionId e.sourceExtensionId

/-- The loop over the candidates. None where an id has no entry. -/
def gather (entries : Dict String IndexEntry) (accepts : IndexEntry → Bool) (limit : Int) :
    List IndexEntry → List String → Option (List IndexEntry)
  | results, [] => some results
  | results, eid :: rest =>
    match entries.get? eid with
    | none => none
    | some e =>
      if accepts e then
        if limit ≤ (results ++ [e]).length then some (results ++ [e])
        else gather entries accepts limit (results ++ [e]) rest
      else gather entries accepts limit results rest

namespace SemanticIndexWorker
variable (w : SemanticIndexWorker)

def candidates (fields : Dict String String) : List String :=
  (fields.items.foldl w.narrow none).getD (w.entries.items.map Prod.fst)

def query (q : Query) (limit : Int) : Option (List IndexEntry) :=
  gather w.entries q.accepts limit [] (w.candidates q.fields)

end SemanticIndexWorker

def indexes (sha256 : Sha256) : System SemanticIndexWorker IndexCall where
  initial := ⟨.empty, .empty⟩
  step w call := w.index sha256 call

/-! ### What is asked for -/

/-- The filter, if there is one, is the value. -/
def Matches (filter : Option String) (value : String) : Prop :=
  ∀ wanted, filter = some wanted → value = wanted

/-- The entry has the queried fields, the type and the source. -/
structure Wanted (q : Query) (e : IndexEntry) : Prop where
  fields : ∀ p ∈ q.fields.items, p ∈ e.indexFields
  artifactType : Matches q.artifactType e.artifactType
  source : Matches q.sourceExtensionId e.sourceExtensionId

/-- Whatever limit leaves room for all entries, the results are the current entries that are
wanted. -/
def Exact (w : SemanticIndexWorker) (q : Query) : Prop :=
  ∀ limit : Int, w.entries.items.length ≤ limit → ∃ results, w.query q limit = some results ∧
    results.Nodup ∧ ∀ e, e ∈ results ↔ (∃ eid, w.entries.get? eid = some e) ∧ Wanted q e

/-- Some call gave the artifact a field of this text. -/
def EverIndexed (calls : List IndexCall) (artifactId : String) (p : String × String) : Prop :=
  ∃ call ∈ calls, call.artifactId = artifactId ∧ ∃ p' ∈ call.fields.items, keyText p' = keyText p

/-- An entry that the filters let pass, and that was ever indexed under all the texts, is
wanted now. -/
def Clear (calls : List IndexCall) (w : SemanticIndexWorker) (q : Query) : Prop :=
  ∀ eid e, w.entries.get? eid = some e → q.accepts e = true →
    (∀ p ∈ q.fields.items, EverIndexed calls eid p) → Wanted q e

/-! ### The lists of ids -/

section Ids
variable {inverted : Dict String (List String)} {eid artifactId : String}
variable {p : String × String}

/-- The ids under the text of a pair. -/
def idsIn (inverted : Dict String (List String)) (p : String × String) : List String :=
  (inverted.get? (keyText p)).getD []

theorem mem_addId {p' : String × String} : eid ∈ idsIn (addId artifactId inverted p') p ↔
    eid ∈ idsIn inverted p ∨ keyText p' = keyText p ∧ eid = artifactId := by
  rw [idsIn, addId, Dict.get?_set]
  split_ifs with h
  · rw [h, and_iff_right rfl]
    exact mem_addTo
  · simp [h, idsIn]

theorem mem_foldl_addId {ps : List (String × String)} :
    eid ∈ idsIn (ps.foldl (addId artifactId) inverted) p ↔
      eid ∈ idsIn inverted p ∨ (∃ p' ∈ ps, keyText p' = keyText p) ∧ eid = artifactId := by
  induction ps generalizing inverted with
  | nil => simp
  | cons p' ps ih =>
    rw [List.foldl_cons, ih, mem_addId, or_assoc, ← or_and_right, List.exists_mem_cons_iff]

theorem nodup_foldl_addId {ps : List (String × String)} (h : ∀ p, (idsIn inverted p).Nodup) :
    ∀ p, (idsIn (ps.foldl (addId artifactId) inverted) p).Nodup := by
  induction ps generalizing inverted with
  | nil => exact h
  | cons p' ps ih =>
    refine ih fun p => ?_
    rw [idsIn, addId, Dict.get?_set]
    split_ifs
    · exact nodup_addTo (h p')
    · exact h p

end Ids

/-! ### What the calls leave -/

/-- The ids under a text are those it was ever indexed for, and all have entries, with fields
that were indexed. -/
structure Held (calls : List IndexCall) (w : SemanticIndexWorker) : Prop where
  own : ∀ eid e, w.entries.get? eid = some e → e.artifactId = eid
  present : ∀ call ∈ calls, ∃ e, w.entries.get? call.artifactId = some e
  indexed : ∀ eid e p, w.entries.get? eid = some e → p ∈ e.indexFields → EverIndexed calls eid p
  ids : ∀ eid p, eid ∈ idsIn w.inverted p ↔ EverIndexed calls eid p
  nodup : ∀ p, (idsIn w.inverted p).Nodup

section Run
variable {calls : List IndexCall} {w : SemanticIndexWorker} {eid : String} {p : String × String}
variable {sha256 : Sha256}

theorem everIndexed_snoc {call : IndexCall} : EverIndexed (calls ++ [call]) eid p ↔
    EverIndexed calls eid p ∨
      (∃ p' ∈ call.fields.items, keyText p' = keyText p) ∧ eid = call.artifactId := by
  simp only [EverIndexed, List.mem_append, List.mem_singleton, or_and_right, exists_or,
    exists_eq_left]
  exact or_congr_right (and_comm.trans (and_congr_right fun _ => eq_comm))

theorem mem_indexFields {call : IndexCall} :
    p ∈ (call.entry sha256).indexFields ↔ p ∈ call.fields.items :=
  (stableSort_sortBy toLex call.fields.items).mem_iff

theorem Held.index (h : Held calls w) (call : IndexCall) :
    Held (calls ++ [call]) (w.index sha256 call) where
  own eid e hget := by
    rw [SemanticIndexWorker.index, Dict.get?_set] at hget
    split_ifs at hget with heq
    · obtain rfl := Option.some.inj hget
      exact heq
    · exact h.own eid e hget
  present call' hcall' := by
    rw [SemanticIndexWorker.index, Dict.get?_set]
    split_ifs with heq
    · exact ⟨_, rfl⟩
    · rcases List.mem_append.mp hcall' with hcall' | hcall'
      · exact h.present call' hcall'
      · exact absurd (congrArg _ (List.mem_singleton.mp hcall')).symm heq
  indexed eid e p hget hp := by
    rw [SemanticIndexWorker.index, Dict.get?_set] at hget
    rw [everIndexed_snoc]
    split_ifs at hget with heq
    · obtain rfl := Option.some.inj hget
      exact .inr ⟨⟨p, mem_indexFields.mp hp, rfl⟩, heq.symm⟩
    · exact .inl (h.indexed eid e p hget hp)
  ids eid p := by
    rw [everIndexed_snoc, ← h.ids]
    exact mem_foldl_addId
  nodup := nodup_foldl_addId h.nodup

theorem held (sha256 : Sha256) (calls : List IndexCall) :
    Held calls ((indexes sha256).after calls) := by
  induction calls using List.reverseRecOn with
  | nil =>
    exact
      { own := fun _ _ h => by cases h
        present := fun _ h => by cases h
        indexed := fun _ _ _ h => by cases h
        ids := fun _ _ => iff_of_false (by simp [idsIn, indexes]) fun ⟨_, h, _⟩ => by cases h
        nodup := fun _ => List.nodup_nil }
  | append_singleton calls call ih =>
    rw [System.after_snoc]
    exact ih.index call

/-! ### What a query finds -/

theorem foldl_narrow (w : SemanticIndexWorker) (candidates : List String)
    (ps : List (String × String)) :
    ps.foldl w.narrow (some candidates) =
      some (candidates.filter fun eid => ∀ p ∈ ps, eid ∈ w.ids p) := by
  induction ps generalizing candidates with
  | nil => simp
  | cons p ps ih =>
    rw [List.foldl_cons, SemanticIndexWorker.narrow, ih, List.filter_filter]
    refine congrArg some (List.filter_congr fun eid _ => ?_)
    rw [← Bool.decide_and]
    exact decide_eq_decide.mpr (by rw [List.forall_mem_cons, and_comm])

/-- The ids that have an entry, and were ever indexed under each text. -/
theorem Held.mem_candidates (h : Held calls w) {fields : Dict String String} :
    eid ∈ w.candidates fields ↔ (∃ e, w.entries.get? eid = some e) ∧
      ∀ p ∈ fields.items, EverIndexed calls eid p := by
  have hids : ∀ p, eid ∈ w.ids p ↔ EverIndexed calls eid p := h.ids eid
  have hentry : ∀ p, EverIndexed calls eid p → ∃ e, w.entries.get? eid = some e := by
    rintro p ⟨call, hcall, rfl, -⟩
    exact h.present call hcall
  rw [SemanticIndexWorker.candidates]
  cases fields.items with
  | nil => simp [← Dict.mem_items]
  | cons p ps =>
    show eid ∈ (ps.foldl w.narrow (some (w.ids p))).getD _ ↔ _
    rw [foldl_narrow, Option.getD_some, List.mem_filter, hids]
    simp only [hids, decide_eq_true_eq, List.forall_mem_cons]
    exact ⟨fun hever => ⟨hentry p hever.1, hever⟩, And.right⟩

theorem Held.nodup_candidates (h : Held calls w) (fields : Dict String String) :
    (w.candidates fields).Nodup := by
  rw [SemanticIndexWorker.candidates]
  cases fields.items with
  | nil => exact w.entries.nodup
  | cons p ps =>
    show ((ps.foldl w.narrow (some (w.ids p))).getD _).Nodup
    rw [foldl_narrow]
    exact (h.nodup p).filter _

/-- With room for all of them the loop comes to the end. -/
theorem gather_eq {entries : Dict String IndexEntry} {accepts : IndexEntry → Bool} {limit : Int}
    {eids : List String} (hentries : ∀ eid ∈ eids, ∃ e, entries.get? eid = some e)
    {results : List IndexEntry} (hlimit : (results.length + eids.length : Int) ≤ limit) :
    gather entries accepts limit results eids =
      some (results ++ (eids.filterMap entries.get?).filter accepts) := by
  induction eids generalizing results with
  | nil => simp [gather]
  | cons eid eids ih =>
    obtain ⟨⟨e, he⟩, hrest⟩ := List.forall_mem_cons.mp hentries
    rw [List.length_cons] at hlimit
    rw [gather, he, List.filterMap_cons_some he]
    by_cases haccepts : accepts e = true
    · rw [List.filter_cons_of_pos haccepts]
      simp only [haccepts, if_true]
      split_ifs with hfull
      · rw [List.length_append, List.length_singleton] at hfull
        have hlast : eids = [] := List.eq_nil_of_length_eq_zero (by omega)
        rw [hlast]
        rfl
      · rw [ih hrest (by rw [List.length_append, List.length_singleton]; omega),
          List.append_assoc]
        rfl
    · rw [List.filter_cons_of_neg haccepts]
      simp only [haccepts, Bool.false_eq_true, if_false]
      exact ih hrest (by omega)

theorem Held.query_eq (h : Held calls w) (q : Query) {limit : Int}
    (hlimit : w.entries.items.length ≤ limit) : w.query q limit =
      some (((w.candidates q.fields).filterMap w.entries.get?).filter q.accepts) := by
  have hentries : ∀ eid ∈ w.candidates q.fields, ∃ e, w.entries.get? eid = some e :=
    fun eid heid => (h.mem_candidates.mp heid).1
  have hsubset : w.candidates q.fields ⊆ w.entries.items.map Prod.fst := by
    intro eid heid
    obtain ⟨e, he⟩ := hentries eid heid
    exact List.mem_map_of_mem (w.entries.mem_items.mpr he)
  have hlength := (List.subperm_of_subset (h.nodup_candidates q.fields) hsubset).length_le
  rw [List.length_map] at hlength
  have hroom : (([] : List IndexEntry).length + (w.candidates q.fields).length : Int) ≤ limit := by
    rw [List.length_nil]
    omega
  rw [SemanticIndexWorker.query, gather_eq hentries hroom, List.nil_append]

theorem passes_iff {filter : Option String} {value : String} :
    passes filter value = true ↔ ∀ wanted, filter = some wanted → wanted = "" ∨ value = wanted := by
  cases filter with
  | none | some wanted => simp [passes]

theorem Wanted.accepts {q : Query} {e : IndexEntry} (h : Wanted q e) : q.accepts e = true := by
  rw [Query.accepts, Bool.and_eq_true]
  exact ⟨passes_iff.mpr fun wanted hwanted => .inr (h.artifactType wanted hwanted),
    passes_iff.mpr fun wanted hwanted => .inr (h.source wanted hwanted)⟩

theorem Held.exact_iff_clear (h : Held calls w) (q : Query) : Exact w q ↔ Clear calls w q := by
  have hmem : ∀ e, e ∈ ((w.candidates q.fields).filterMap w.entries.get?).filter q.accepts ↔
      ∃ eid, w.entries.get? eid = some e ∧ q.accepts e = true ∧
        ∀ p ∈ q.fields.items, EverIndexed calls eid p := by
    intro e
    rw [List.mem_filter, List.mem_filterMap]
    constructor
    · rintro ⟨⟨eid, heid, he⟩, haccepts⟩
      exact ⟨eid, he, haccepts, (h.mem_candidates.mp heid).2⟩
    · rintro ⟨eid, he, haccepts, hever⟩
      exact ⟨⟨eid, h.mem_candidates.mpr ⟨⟨e, he⟩, hever⟩, he⟩, haccepts⟩
  constructor
  · intro hexact eid e he haccepts hever
    obtain ⟨results, hresults, -, hiff⟩ := hexact _ le_rfl
    obtain rfl := Option.some.inj ((h.query_eq q le_rfl).symm.trans hresults)
    exact ((hiff e).mp ((hmem e).mpr ⟨eid, he, haccepts, hever⟩)).2
  · intro hclear limit hlimit
    refine ⟨_, h.query_eq q hlimit, ?_, fun e => (hmem e).trans ⟨?_, ?_⟩⟩
    · refine ((h.nodup_candidates q.fields).filterMap fun eid eid' e he he' => ?_).filter _
      exact (h.own eid e he).symm.trans (h.own eid' e he')
    · rintro ⟨eid, he, haccepts, hever⟩
      exact ⟨⟨eid, he⟩, hclear eid e he haccepts hever⟩
    · rintro ⟨⟨eid, he⟩, hwanted⟩
      exact ⟨eid, he, hwanted.accepts, fun p hp => h.indexed eid e p he (hwanted.fields p hp)⟩

end Run

/-- A query is exact exactly if every current entry that its filters let pass, and that was ever
indexed under the texts of all its fields, has these fields, the type and the source. -/
theorem exact_iff (sha256 : Sha256) (calls : List IndexCall) (q : Query) :
    Exact ((indexes sha256).after calls) q ↔ Clear calls ((indexes sha256).after calls) q :=
  (held sha256 calls).exact_iff_clear q

/-- One artifact, indexed with a name that has a colon. -/
def colonCall : IndexCall where
  artifactId := "a1"
  artifactType := "SemanticIRTrace"
  sourceExtensionId := "charts"
  fields := .ofList [("endpoint:v1", "orders")]
  provenanceHash := ""
  now := "2026-01-01T00:00:00Z"

/-- The query divides the same text elsewhere. -/
def dividedQuery : Query := ⟨none, .ofList [("endpoint", "v1:orders")], none⟩

theorem not_exact_colonCall :
    ¬ Exact ((indexes id).after [colonCall]) dividedQuery := by
  intro h
  obtain ⟨results, hresults, -, hiff⟩ := h 1 (by decide +kernel)
  have hfound : ((indexes id).after [colonCall]).query dividedQuery 1 =
      some [colonCall.entry id] := by decide +kernel
  obtain rfl := Option.some.inj (hfound.symm.trans hresults)
  have hwanted := ((hiff _).mp (List.mem_singleton_self _)).2
  have hfield := mem_indexFields.mp (hwanted.fields ("endpoint", "v1:orders") (by decide +kernel))
  exact absurd hfield (by decide +kernel)

end PiPlatform.Interoperability.SemanticIndex
