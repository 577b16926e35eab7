import PiPlatform.Interoperability.CompatibilityGraph
import PiPlatform.Library.StableSort

/-! The capability registry and its index.

`register` and `update_status` keep, beside the entries, a set of ids for each class, zone and
status. A registration leaves the id under the key of the entry it replaces, and an update
empties sets and removes them; what stays (`Indexed`) is that the id of every entry is under the
key of the entry. So the fast path of `query` finds what a scan of all entries finds
(`query_scan`). A call raises when the manifest cannot be written as JSON or a text that is
hashed cannot be encoded, and then nothing has changed; or when the file of its entry cannot
be written, and then the entry counts all the same. -/
namespace PiPlatform.Interoperability.Capability

open Library
open Compatibility (addTo mem_addTo nodup_addTo)

inductive RegistryEntryStatus where
  | registered | validated | active | deprecated | revoked
  deriving DecidableEq

def RegistryEntryStatus.value : RegistryEntryStatus → String
  | registered => "registered"
  | validated => "validated"
  | active => "active"
  | deprecated => "deprecated"
  | revoked => "revoked"

inductive TrustScoringBasis where
  | policyEvidence | determinismProof | replayVerification | staticAnalysis | manualReview
  deriving DecidableEq

structure RegistryFingerprints where
  manifestHash : String
  sourceHash : String
  determinismFingerprint : String
  policyHash : String
  normalizationHash : String
  provenanceChainHash : String
  deriving DecidableEq

structure TrustScore where
  policyPassed : Int
  determinismVerified : Int
  replaySafe : Int
  staticClean : Int
  manualReviewed : Int
  basis : List TrustScoringBasis
  deriving DecidableEq

namespace TrustScore

/-- `TrustScore()` -/
def none : TrustScore := ⟨0, 0, 0, 0, 0, []⟩

def compositeScore (t : TrustScore) : Int :=
  min 100 (t.policyPassed + t.determinismVerified + t.replaySafe + t.staticClean +
    t.manualReviewed)

/-- The other scores start again from zero: the new object gets one of them only. -/
def withEvidence (t : TrustScore) (basis : TrustScoringBasis) (value : Int) : TrustScore :=
  let scored := { none with basis := addTo basis t.basis }
  match basis with
  | .policyEvidence => { scored with policyPassed := min 100 (t.policyPassed + value) }
  | .determinismProof =>
    { scored with determinismVerified := min 100 (t.determinismVerified + value) }
  | .replayVerification => { scored with replaySafe := min 100 (t.replaySafe + value) }
  | .staticAnalysis => { scored with staticClean := min 100 (t.staticClean + value) }
  | .manualReview => { scored with manualReviewed := min 100 (t.manualReviewed + value) }

end TrustScore

/-- `RegistryIndexKey` -/
structure RegistryIndexKey where
  capabilityClass : CapabilityClass
  trustZone : TrustZone
  status : RegistryEntryStatus
  deriving DecidableEq

/-- The class is the one of the manifest: both operations always give one. -/
structure RegistryEntry where
  extensionId : String
  name : String
  version : String
  registeredAt : String
  fingerprints : RegistryFingerprints
  trustScore : TrustScore
  status : RegistryEntryStatus
  capabilityClass : CapabilityClass
  trustZone : TrustZone
  manifestSnapshot : String
  previousEntryHash : String
  entryHash : String
  deriving DecidableEq

/-- `hashlib.sha256(text.encode()).hexdigest()` -/
abbrev Sha256 := String → String

section Hashes
variable (sha256 : Sha256)

/-- The text that `combined_hash` encodes. -/
def RegistryFingerprints.payload (f : RegistryFingerprints) : String :=
  ":".intercalate [f.manifestHash, f.sourceHash, f.determinismFingerprint, f.policyHash,
    f.normalizationHash, f.provenanceChainHash]

def RegistryFingerprints.combinedHash (f : RegistryFingerprints) : String := sha256 f.payload

namespace RegistryEntry

/-- The text that `compute_hash` encodes. -/
def payload (e : RegistryEntry) : String :=
  ":".intercalate [e.extensionId, e.name, e.version, e.fingerprints.combinedHash sha256,
    toString e.trustScore.compositeScore, e.status.value, e.previousEntryHash]

def computeHash (e : RegistryEntry) : String := sha256 (e.payload sha256)

/-- Whether `compute_hash` can encode what it hashes. -/
def encodable (encodes : String → Bool) (e : RegistryEntry) : Bool :=
  encodes e.fingerprints.payload && encodes (e.payload sha256)

/-- `__post_init__` -/
def hashed (e : RegistryEntry) : RegistryEntry := { e with entryHash := e.computeHash sha256 }

end RegistryEntry
end Hashes

def RegistryEntry.key (e : RegistryEntry) : RegistryIndexKey :=
  ⟨e.capabilityClass, e.trustZone, e.status⟩

/-- The index by key, each set of ids a list. -/
abbrev Index := Dict RegistryIndexKey (List String)

namespace Index

/-- `index.setdefault(key, set()).add(extension_id)` -/
def add (key : RegistryIndexKey) (extensionId : String) (index : Index) : Index :=
  index.set key (addTo extensionId ((index.get? key).getD []))

/-- The set under the key loses the id, and goes when it is empty. -/
def discard (key : RegistryIndexKey) (extensionId : String) (ids : List String) (index : Index) :
    Index :=
  let rest := ids.filter fun id => id ≠ extensionId
  if rest = [] then index.erase key else index.set key rest

end Index

structure SemanticCapabilityRegistry where
  entries : Dict String RegistryEntry
  index : Index
  auditLog : List String

/-- Why a call raises. -/
inductive Fault where
  /-- `KeyError`: there is no such entry, or nothing under the key. -/
  | notRegistered (extensionId : String)
  | notIndexed (key : RegistryIndexKey)
  /-- `model_dump_json` raises, of a text with a lone surrogate. -/
  | notSerialized
  /-- `UnicodeEncodeError` -/
  | notEncoded
  /-- `OSError`: the file of the entry cannot be written. -/
  | notSaved (file : String)
  deriving DecidableEq

/-- Which files of the root directory can be written. -/
abbrev Disk := String → Bool

/-- `f"{entry.extension_id}.json"` -/
def fileOf (extensionId : String) : String := extensionId ++ ".json"

def saveEntry (disk : Disk) (entry : RegistryEntry) : Except Fault RegistryEntry :=
  if disk (fileOf entry.extensionId) then .ok entry
  else .error (.notSaved (fileOf entry.extensionId))

/-- The entry of a registration, before it is hashed. -/
def RegistryEntry.ofManifest (now snapshot : String) (manifest : ExtensionManifest)
    (fingerprints : RegistryFingerprints) (trustScore : TrustScore) (status : RegistryEntryStatus)
    (previousEntryHash : String) : RegistryEntry where
  extensionId := manifest.extensionId
  name := manifest.packageName
  version := manifest.packageVersion
  registeredAt := now
  fingerprints
  trustScore
  status
  capabilityClass := manifest.capabilityClass
  trustZone := manifest.trustZone
  manifestSnapshot := snapshot
  previousEntryHash
  entryHash := ""

/-- The next entry of an extension. -/
def RegistryEntry.updated (sha256 : Sha256) (old : RegistryEntry) (newStatus : RegistryEntryStatus)
    (trustScore : Option TrustScore) : RegistryEntry :=
  RegistryEntry.hashed sha256
    { old with
      trustScore := trustScore.getD old.trustScore
      status := newStatus
      previousEntryHash := old.entryHash }

namespace SemanticCapabilityRegistry

def empty : SemanticCapabilityRegistry := ⟨.empty, .empty, []⟩

variable (sha256 : Sha256)

/-- `register` from where the entry is made: the entry, and the registry afterwards. It has the
entry whether it is saved or not. -/
def register (r : SemanticCapabilityRegistry) (disk : Disk) (now snapshot : String)
    (manifest : ExtensionManifest) (fingerprints : RegistryFingerprints) (trustScore : TrustScore)
    (status : RegistryEntryStatus) (previousEntryHash : String) :
    Except Fault RegistryEntry × SemanticCapabilityRegistry :=
  let entry := RegistryEntry.hashed sha256
    (.ofManifest now snapshot manifest fingerprints trustScore status previousEntryHash)
  (saveEntry disk entry,
    { entries := r.entries.set entry.extensionId entry
      index := r.index.add entry.key entry.extensionId
      auditLog := r.auditLog ++ ["REGISTER " ++ entry.extensionId ++ " " ++ entry.entryHash] })

/-- `update_status`, of an entry that can be hashed. -/
def updateStatus (r : SemanticCapabilityRegistry) (disk : Disk) (extensionId : String)
    (newStatus : RegistryEntryStatus) (trustScore : Option TrustScore) :
    Except Fault RegistryEntry × SemanticCapabilityRegistry :=
  match r.entries.get? extensionId with
  | none => (.error (.notRegistered extensionId), r)
  | some old =>
    let entry := old.updated sha256 newStatus trustScore
    let r := { r with entries := r.entries.set extensionId entry }
    match r.index.get? old.key with
    | none => (.error (.notIndexed old.key), r)
    | some ids =>
      (saveEntry disk entry,
        { r with
          index := (r.index.discard old.key extensionId ids).add entry.key extensionId
          auditLog := r.auditLog ++
            ["UPDATE " ++ extensionId ++ " " ++ newStatus.value ++ " " ++ entry.entryHash] })

def lookup (r : SemanticCapabilityRegistry) (extensionId : String) : Option RegistryEntry :=
  r.entries.get? extensionId

end SemanticCapabilityRegistry

/-- The arguments of `query`. -/
structure Query where
  capabilityClass : Option CapabilityClass
  trustZone : Option TrustZone
  status : Option RegistryEntryStatus
  minTrustScore : Int

/-- `_match` -/
def Query.accepts (q : Query) (e : RegistryEntry) : Bool :=
  q.capabilityClass.all (fun c => e.capabilityClass = c) &&
  q.trustZone.all (fun z => e.trustZone = z) &&
  q.status.all (fun s => e.status = s) &&
  decide (q.minTrustScore ≤ e.trustScore.compositeScore)

namespace SemanticCapabilityRegistry

/-- `listing` is the order in which a set is gone through. -/
def candidates (r : SemanticCapabilityRegistry) (listing : List String → List String) (q : Query) :
    List String :=
  match q.capabilityClass, q.trustZone, q.status with
  | some capabilityClass, some trustZone, some status =>
    listing ((r.index.get? ⟨capabilityClass, trustZone, status⟩).getD [])
  | _, _, _ => r.entries.items.map Prod.fst

/-- None where a candidate has no entry: a `KeyError`. -/
def query (r : SemanticCapabilityRegistry) (listing : List String → List String) (q : Query) :
    Option (List RegistryEntry) := do
  let entries ← (r.candidates listing q).mapM r.entries.get?
  some (sortBy (fun e => -e.trustScore.compositeScore) (entries.filter q.accepts))

/-- Every entry that the query accepts. -/
def scan (r : SemanticCapabilityRegistry) (q : Query) : List RegistryEntry :=
  (r.entries.items.map Prod.snd).filter q.accepts

end SemanticCapabilityRegistry

/-! ### What is in the index -/

/-- The id is in the set under the key. -/
def Listed (index : Index) (key : RegistryIndexKey) (extensionId : String) : Prop :=
  ∃ ids, index.get? key = some ids ∧ extensionId ∈ ids

/-- No set lists an id twice. -/
def Distinct (index : Index) : Prop := ∀ key ids, index.get? key = some ids → ids.Nodup

section Index
variable {index : Index} {key k : RegistryIndexKey} {extensionId x : String} {ids : List String}

theorem mem_getD_iff : x ∈ (index.get? key).getD [] ↔ Listed index key x := by
  rw [Listed]
  cases index.get? key with
  | none => simp
  | some ids => simp

theorem listed_add : Listed (index.add key extensionId) k x ↔
    Listed index k x ∨ (key = k ∧ x = extensionId) := by
  rw [← mem_getD_iff, Index.add, Dict.get?_set]
  by_cases hk : key = k
  · subst hk
    rw [if_pos rfl, Option.getD_some, mem_addTo, mem_getD_iff]
    simp
  · rw [if_neg hk, mem_getD_iff]
    simp [hk]

theorem listed_discard (hids : index.get? key = some ids) :
    Listed (index.discard key extensionId ids) k x ↔
      Listed index k x ∧ ¬ (key = k ∧ x = extensionId) := by
  have hget : ((index.discard key extensionId ids).get? k).getD [] =
      if key = k then ids.filter (fun id => id ≠ extensionId) else (index.get? k).getD [] := by
    simp only [Index.discard]
    split
    · next hrest =>
      rw [Dict.get?_erase]
      split
      · exact hrest.symm
      · rfl
    · rw [Dict.get?_set]
      split <;> rfl
  rw [← mem_getD_iff, hget, ← mem_getD_iff]
  by_cases hk : key = k
  · subst hk
    rw [if_pos rfl, hids]
    simp
  · rw [if_neg hk]
    simp [hk]

theorem Distinct.add (h : Distinct index) : Distinct (index.add key extensionId) := by
  intro k ids hget
  rw [Index.add, Dict.get?_set] at hget
  split at hget
  · obtain rfl := Option.some.inj hget
    refine nodup_addTo ?_
    cases hkey : index.get? key with
    | none => exact List.nodup_nil
    | some ids => exact h key ids hkey
  · exact h k ids hget

theorem Distinct.discard (h : Distinct index) (hids : index.get? key = some ids) :
    Distinct (index.discard key extensionId ids) := by
  intro k ids' hget
  simp only [Index.discard] at hget
  split at hget
  · rw [Dict.get?_erase] at hget
    split at hget
    · cases hget
    · exact h k ids' hget
  · rw [Dict.get?_set] at hget
    split at hget
    · obtain rfl := Option.some.inj hget
      exact (h key ids hids).filter _
    · exact h k ids' hget

end Index

/-- Entries are under their ids and their keys, and nothing else is in the index. -/
structure Indexed (r : SemanticCapabilityRegistry) : Prop where
  own : ∀ id entry, r.entries.get? id = some entry → entry.extensionId = id
  listed : ∀ id entry, r.entries.get? id = some entry → Listed r.index entry.key id
  known : ∀ key id, Listed r.index key id → ∃ entry, r.entries.get? id = some entry
  distinct : Distinct r.index

section Operations
variable {sha256 : Sha256} {r : SemanticCapabilityRegistry}

theorem Indexed.empty : Indexed .empty where
  own _ _ h := by cases h
  listed _ _ h := by cases h
  known _ _ h := by
    obtain ⟨ids, hids, -⟩ := h
    cases hids
  distinct _ _ h := by cases h

/-- An entry is set, and listed, over an index that has lost at most its own id. -/
theorem Indexed.put (h : Indexed r) {index : Index} (entry : RegistryEntry) (log : List String)
    (hkept : ∀ k x, Listed r.index k x → x ≠ entry.extensionId → Listed index k x)
    (hknown : ∀ k x, Listed index k x → Listed r.index k x) (hdistinct : Distinct index) :
    Indexed ⟨r.entries.set entry.extensionId entry, index.add entry.key entry.extensionId,
      log⟩ where
  own id e he := by
    rw [Dict.get?_set] at he
    split at he
    · next heq => exact Option.some.inj he ▸ heq
    · exact h.own id e he
  listed id e he := by
    rw [listed_add]
    rw [Dict.get?_set] at he
    split at he
    · next heq => exact .inr ⟨congrArg _ (Option.some.inj he), heq.symm⟩
    · next hne => exact .inl (hkept _ _ (h.listed id e he) (Ne.symm hne))
  known k x hlisted := by
    rw [Dict.get?_set]
    split
    · exact ⟨entry, rfl⟩
    · next hne =>
      rcases listed_add.mp hlisted with hlisted | ⟨-, heq⟩
      · exact h.known k x (hknown k x hlisted)
      · exact absurd heq.symm hne
  distinct := hdistinct.add

theorem Indexed.register (h : Indexed r) (disk : Disk) (now snapshot : String)
    (manifest : ExtensionManifest) (fingerprints : RegistryFingerprints) (trustScore : TrustScore)
    (status : RegistryEntryStatus) (previousEntryHash : String) :
    Indexed (r.register sha256 disk now snapshot manifest fingerprints trustScore status
      previousEntryHash).2 :=
  h.put _ _ (fun _ _ hlisted _ => hlisted) (fun _ _ => id) h.distinct

/-- What an update of a registered id does: the key of its entry is in the index. -/
theorem updateStatus_eq (h : Indexed r) {extensionId : String} {old : RegistryEntry}
    (hold : r.entries.get? extensionId = some old) (disk : Disk) (newStatus : RegistryEntryStatus)
    (trustScore : Option TrustScore) :
    ∃ ids, r.index.get? old.key = some ids ∧
      r.updateStatus sha256 disk extensionId newStatus trustScore =
        (saveEntry disk (old.updated sha256 newStatus trustScore),
          ⟨r.entries.set extensionId (old.updated sha256 newStatus trustScore),
            (r.index.discard old.key extensionId ids).add
              (old.updated sha256 newStatus trustScore).key extensionId,
            r.auditLog ++ ["UPDATE " ++ extensionId ++ " " ++ newStatus.value ++ " " ++
              (old.updated sha256 newStatus trustScore).entryHash]⟩) := by
  obtain ⟨ids, hids, -⟩ := h.listed extensionId old hold
  refine ⟨ids, hids, ?_⟩
  simp only [SemanticCapabilityRegistry.updateStatus, hold, hids]

theorem Indexed.updateStatus (h : Indexed r) {extensionId : String} {old : RegistryEntry}
    (hold : r.entries.get? extensionId = some old) (disk : Disk) (newStatus : RegistryEntryStatus)
    (trustScore : Option TrustScore) :
    Indexed (r.updateStatus sha256 disk extensionId newStatus trustScore).2 := by
  obtain ⟨ids, hids, heq⟩ := updateStatus_eq h hold disk newStatus trustScore
  obtain rfl : old.extensionId = extensionId := h.own extensionId old hold
  rw [heq]
  refine h.put (old.updated sha256 newStatus trustScore) _ (fun k x hlisted hne => ?_)
    (fun k x hlisted => ?_) (h.distinct.discard hids)
  · exact (listed_discard hids).mpr ⟨hlisted, fun heq => hne heq.2⟩
  · exact ((listed_discard hids).mp hlisted).1

end Operations

/-! ### Queries -/

section Queries
variable {r : SemanticCapabilityRegistry} {listing : List String → List String} {q : Query}

/-- Of all ids, the candidates are those whose entries could be accepted. -/
theorem mem_candidates (h : Indexed r) (hlisting : ∀ ids, (listing ids).Perm ids) {id : String}
    {entry : RegistryEntry} (hentry : r.entries.get? id = some entry)
    (haccepts : q.accepts entry = true) : id ∈ r.candidates listing q := by
  rw [SemanticCapabilityRegistry.candidates]
  split
  · next c z s hc hz hs =>
    simp only [Query.accepts, hc, hz, hs, Option.all_some, Bool.and_eq_true, decide_eq_true_eq]
      at haccepts
    obtain ⟨⟨⟨rfl, rfl⟩, rfl⟩, -⟩ := haccepts
    exact (hlisting _).mem_iff.mpr (mem_getD_iff.mpr (h.listed id entry hentry))
  · exact List.mem_map.mpr ⟨(id, entry), r.entries.mem_items.mpr hentry, rfl⟩

theorem candidates_known (h : Indexed r) (hlisting : ∀ ids, (listing ids).Perm ids) {id : String}
    (hid : id ∈ r.candidates listing q) : ∃ entry, r.entries.get? id = some entry := by
  rw [SemanticCapabilityRegistry.candidates] at hid
  split at hid
  · exact h.known _ id (mem_getD_iff.mp ((hlisting _).mem_iff.mp hid))
  · obtain ⟨⟨id, entry⟩, hmem, rfl⟩ := List.mem_map.mp hid
    exact ⟨entry, r.entries.mem_items.mp hmem⟩

theorem nodup_candidates (h : Indexed r) (hlisting : ∀ ids, (listing ids).Perm ids) :
    (r.candidates listing q).Nodup := by
  rw [SemanticCapabilityRegistry.candidates]
  split
  · next c z s _ _ _ =>
    refine (hlisting _).nodup_iff.mpr ?_
    cases hids : r.index.get? ⟨c, z, s⟩ with
    | none => exact List.nodup_nil
    | some ids => exact h.distinct _ ids hids
  · exact r.entries.nodup

theorem mem_scan {e : RegistryEntry} (h : Indexed r) :
    e ∈ r.scan q ↔ r.entries.get? e.extensionId = some e ∧ q.accepts e = true := by
  rw [SemanticCapabilityRegistry.scan, List.mem_filter]
  refine and_congr_left fun _ => ?_
  rw [← r.entries.mem_items]
  constructor
  · intro hmem
    obtain ⟨⟨id, e⟩, hitem, rfl⟩ := List.mem_map.mp hmem
    rwa [h.own id e (r.entries.mem_items.mp hitem)]
  · exact fun hitem => List.mem_map.mpr ⟨_, hitem, rfl⟩

theorem nodup_scan (h : Indexed r) : (r.scan q).Nodup := by
  refine List.Nodup.filter _ (List.Nodup.of_map RegistryEntry.extensionId ?_)
  have hids : (r.entries.items.map Prod.snd).map RegistryEntry.extensionId =
      r.entries.items.map Prod.fst := by
    rw [List.map_map]
    exact List.map_congr_left fun p hp => h.own p.1 p.2 (r.entries.mem_items.mp hp)
  rw [hids]
  exact r.entries.nodup

/-- The fast path and the scan accept the same entries. -/
theorem candidates_perm_scan (h : Indexed r) (hlisting : ∀ ids, (listing ids).Perm ids) :
    (((r.candidates listing q).filterMap r.entries.get?).filter q.accepts).Perm (r.scan q) := by
  refine (List.perm_ext_iff_of_nodup ?_ (nodup_scan h)).mpr fun e => ?_
  · refine List.Nodup.filter _ ((nodup_candidates h hlisting).filterMap fun id id' e he he' => ?_)
    exact (h.own id e he).symm.trans (h.own id' e he')
  · rw [mem_scan h, List.mem_filter, List.mem_filterMap]
    refine and_congr_left fun haccepts => ?_
    constructor
    · rintro ⟨id, -, he⟩
      rwa [h.own id e he]
    · exact fun he => ⟨e.extensionId, mem_candidates h hlisting he haccepts, he⟩

/-- A query answers, with what the scan finds, the better scores first. -/
theorem query_scan (h : Indexed r) (hlisting : ∀ ids, (listing ids).Perm ids) :
    ∃ entries, r.query listing q = some entries ∧ entries.Perm (r.scan q) ∧
      entries.Pairwise fun e e' => e'.trustScore.compositeScore ≤ e.trustScore.compositeScore := by
  have hmap : (r.candidates listing q).mapM r.entries.get? =
      some ((r.candidates listing q).filterMap r.entries.get?) :=
    mapM_eq_filterMap fun id hid => candidates_known h hlisting hid
  have hsorted := stableSort_sortBy (fun e : RegistryEntry => -e.trustScore.compositeScore)
    (((r.candidates listing q).filterMap r.entries.get?).filter q.accepts)
  refine ⟨_, ?_, hsorted.perm.trans (candidates_perm_scan h hlisting), ?_⟩
  · rw [SemanticCapabilityRegistry.query, hmap]
    rfl
  · exact hsorted.sorted.imp fun hle => Int.neg_le_neg_iff.mp hle

end Queries

/-! ### Runs -/

inductive Call where
  /-- The snapshot is none where `model_dump_json` raises. -/
  | register (disk : Disk) (now : String) (snapshot : Option String)
      (manifest : ExtensionManifest) (fingerprints : RegistryFingerprints)
      (trustScore : TrustScore) (status : RegistryEntryStatus) (previousEntryHash : String)
  | updateStatus (disk : Disk) (extensionId : String) (newStatus : RegistryEntryStatus)
      (trustScore : Option TrustScore)

namespace Call

variable (sha256 : Sha256) (encodes : String → Bool)

/-- What raises before anything is changed, and the operation after that. -/
def run (r : SemanticCapabilityRegistry) :
    Call → Except Fault RegistryEntry × SemanticCapabilityRegistry
  | register _ _ none .. => (.error .notSerialized, r)
  | register disk now (some snapshot) manifest fingerprints trustScore status previousEntryHash =>
    let entry := RegistryEntry.ofManifest now snapshot manifest fingerprints trustScore status
      previousEntryHash
    if entry.encodable sha256 encodes then
      r.register sha256 disk now snapshot manifest fingerprints trustScore status previousEntryHash
    else (.error .notEncoded, r)
  | updateStatus disk extensionId newStatus trustScore =>
    match r.entries.get? extensionId with
    | none => (.error (.notRegistered extensionId), r)
    | some old =>
      if (old.updated sha256 newStatus trustScore).encodable sha256 encodes then
        r.updateStatus sha256 disk extensionId newStatus trustScore
      else (.error .notEncoded, r)

/-- The entry that a call makes can be written, hashed and saved. -/
def Storable (r : SemanticCapabilityRegistry) : Call → Prop
  | register disk now snapshot manifest fingerprints trustScore status previousEntryHash =>
    ∃ text, snapshot = some text ∧
      (RegistryEntry.ofManifest now text manifest fingerprints trustScore status
        previousEntryHash).encodable sha256 encodes = true ∧
      disk (fileOf manifest.extensionId) = true
  | updateStatus disk extensionId newStatus trustScore =>
    ∃ old, r.entries.get? extensionId = some old ∧
      (old.updated sha256 newStatus trustScore).encodable sha256 encodes = true ∧
      disk (fileOf extensionId) = true

end Call

variable (sha256 : Sha256) (encodes : String → Bool)

def calls : System SemanticCapabilityRegistry Call where
  initial := .empty
  step r call := (call.run sha256 encodes r).2

/-- Only the status of what is registered is updated. -/
def OnRegistered (r : SemanticCapabilityRegistry) : Call → Prop
  | .register .. => True
  | .updateStatus _ extensionId .. => (r.entries.get? extensionId).isSome

instance (r : SemanticCapabilityRegistry) (call : Call) : Decidable (OnRegistered r call) := by
  unfold OnRegistered
  split <;> infer_instance

section Runs
variable {sha256} {encodes} {r : SemanticCapabilityRegistry}

theorem Indexed.step (h : Indexed r) {call : Call} (hcall : OnRegistered r call) :
    Indexed ((calls sha256 encodes).step r call) := by
  cases call with
  | register disk now snapshot manifest fingerprints trustScore status previousEntryHash =>
    cases snapshot with
    | none => exact h
    | some snapshot =>
      simp only [calls, Call.run]
      split
      · exact h.register ..
      · exact h
  | updateStatus disk extensionId newStatus trustScore =>
    obtain ⟨old, hold⟩ := Option.isSome_iff_exists.mp hcall
    simp only [calls, Call.run, hold]
    split
    · exact h.updateStatus hold disk newStatus trustScore
    · exact h

/-- A call raises where its entry cannot be written, hashed and saved, and nowhere else. -/
theorem run_raises_iff (h : Indexed r) {call : Call} (hcall : OnRegistered r call) :
    (∃ fault, (call.run sha256 encodes r).1 = .error fault) ↔
      ¬ call.Storable sha256 encodes r := by
  have hsave : ∀ (disk : Disk) (entry : RegistryEntry), (∃ fault, saveEntry disk entry =
      .error fault) ↔ ¬ disk (fileOf entry.extensionId) = true := by
    intro disk entry
    rw [saveEntry]
    cases disk (fileOf entry.extensionId) <;> simp
  cases call with
  | register disk now snapshot manifest fingerprints trustScore status previousEntryHash =>
    cases snapshot with
    | none => simp [Call.run, Call.Storable]
    | some snapshot =>
      simp only [Call.run, Call.Storable, Option.some.injEq, exists_eq_left']
      split
      · next hencodes => exact (hsave ..).trans (by rw [hencodes, and_iff_right rfl]; rfl)
      · next hencodes => simp [hencodes]
  | updateStatus disk extensionId newStatus trustScore =>
    obtain ⟨old, hold⟩ := Option.isSome_iff_exists.mp hcall
    obtain ⟨ids, -, heq⟩ := updateStatus_eq h hold disk newStatus trustScore
    obtain rfl : old.extensionId = extensionId := h.own extensionId old hold
    simp only [Call.run, Call.Storable, hold, Option.some.injEq, exists_eq_left']
    split
    · next hencodes =>
      rw [heq]
      exact (hsave ..).trans (by rw [hencodes, and_iff_right rfl]; rfl)
    · next hencodes => simp [hencodes]

theorem indexed_after {acts : List Call} (h : (calls sha256 encodes).Admits OnRegistered acts) :
    Indexed ((calls sha256 encodes).after acts) :=
  (calls sha256 encodes).invariant_under OnRegistered Indexed .empty
    (fun _ _ hcall h => h.step hcall) acts h

end Runs

/-- Whatever is registered, registered again and updated: a call raises exactly when its entry
cannot be written, hashed and saved, and a query for a class, a zone and a status answers with
the entries that a scan finds, the better scores first. -/
theorem registry_faithful (listing : List String → List String)
    (hlisting : ∀ ids, (listing ids).Perm ids) (acts : List Call)
    (h : (calls sha256 encodes).Admits OnRegistered acts) :
    (∀ before call behind, acts = before ++ call :: behind →
      ((∃ fault, (call.run sha256 encodes ((calls sha256 encodes).after before)).1 =
          .error fault) ↔
        ¬ call.Storable sha256 encodes ((calls sha256 encodes).after before))) ∧
    ∀ capabilityClass trustZone status minTrustScore, ∃ entries,
      ((calls sha256 encodes).after acts).query listing
        ⟨some capabilityClass, some trustZone, some status, minTrustScore⟩ = some entries ∧
      entries.Perm (((calls sha256 encodes).after acts).scan
        ⟨some capabilityClass, some trustZone, some status, minTrustScore⟩) ∧
      entries.Pairwise fun e e' =>
        e'.trustScore.compositeScore ≤ e.trustScore.compositeScore := by
  constructor
  · rintro before call behind rfl
    exact run_raises_iff (indexed_after ((calls sha256 encodes).admits_of_append h))
      (h before call behind rfl)
  · exact fun capabilityClass trustZone status minTrustScore =>
      query_scan (indexed_after h) hlisting

/-- A registration under a name that is no file of the root directory. -/
def nested : Call :=
  .register (fun file => '/' ∉ file.toList) "2026-01-01T00:00:00Z" "{}"
    (Compatibility.extension "acme/charts" .governedExtension) ⟨"", "", "", "", "", ""⟩ .none
    .active ""

theorem registration_raises :
    (calls id fun _ => true).Admits OnRegistered [nested] ∧
      (nested.run id (fun _ => true) ((calls id fun _ => true).after [])).1 =
        .error (.notSaved "acme/charts.json") :=
  ⟨System.admits_of_checks _ (by decide +kernel), by decide +kernel⟩

def registerCharts (snapshot : Option String) (trustZone : TrustZone) : Call :=
  .register (fun _ => true) "2026-01-01T00:00:00Z" snapshot
    (Compatibility.extension "charts" trustZone) ⟨"", "", "", "", "", ""⟩ .none .active ""

/-- A registration is replaced in another zone and revoked; between, one whose manifest cannot be
written. -/
def replaced : List Call :=
  [registerCharts "{}" .governedExtension, registerCharts none .sandboxExperimental,
    registerCharts "{}" .coreTrusted, .updateStatus (fun _ => true) "charts" .revoked none]

/-- The manifest that cannot be written raises, and the entry that is left is found. -/
theorem registry_faithful_replaced :
    (∃ fault, ((registerCharts none .sandboxExperimental).run id (fun _ => true)
      ((calls id fun _ => true).after [registerCharts "{}" .governedExtension])).1 =
        .error fault) ∧
    (∃ entries, ((calls id fun _ => true).after replaced).query id
        ⟨some .visualization, some .coreTrusted, some .revoked, 0⟩ = some entries ∧
      entries.Perm (((calls id fun _ => true).after replaced).scan
        ⟨some .visualization, some .coreTrusted, some .revoked, 0⟩)) ∧
    (((calls id fun _ => true).after replaced).scan
      ⟨some .visualization, some .coreTrusted, some .revoked, 0⟩).length = 1 := by
  obtain ⟨hraises, hquery⟩ := registry_faithful id (fun _ => true) id (fun ids => .refl ids)
    replaced (System.admits_of_checks _ (by decide +kernel))
  obtain ⟨entries, hentries, hperm, -⟩ := hquery .visualization .coreTrusted .revoked 0
  refine ⟨(hraises [registerCharts "{}" .governedExtension] _ _ rfl).mpr ?_,
    ⟨entries, hentries, hperm⟩, by decide +kernel⟩
  rintro ⟨text, hnone, -⟩
  cases hnone

end PiPlatform.Interoperability.Capability
