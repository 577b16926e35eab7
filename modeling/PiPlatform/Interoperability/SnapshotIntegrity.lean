import Mathlib.Data.List.Chain
import PiPlatform.Interoperability.SnapshotRegistry

/-! What the integrity check of snapshots sees.

An artifact has two hashes: one of its payload, and one of its other fields and the first. The
registry holds the second once more, in the list of the artifact's chain. `verify_integrity`
recomputes the second hash of what the chains list, and counts the lists. It neither recomputes
a payload's hash, nor compares a list's hashes, nor follows the links, nor looks at an artifact
that no list has. `complete_iff`: the check is complete exactly where there is a fault that it
sees, or none of those that it does not. -/
namespace PiPlatform.Interoperability.Snapshot

open Library Library.Json Library.Python

/-! ### Hashes -/

/-- `hashlib.sha256(text.encode()).hexdigest()` -/
abbrev Sha256 := String → String

/-- How a float is written. -/
abbrev FloatRepr := Dyadic → Literal

section Documents
variable (repr : FloatRepr)

mutual

/-- With the keys sorted. -/
def document : Plain → Document Literal
  | .none => .null
  | .bool b => .bool b
  | .int i => .int i
  | .float x => .float (.finite (repr x))
  | .str s => .str (ofString s)
  | .list xs => .arr (documents xs)
  | .dict items => .obj ((sortBy Prod.fst (members items)).map fun m => (ofString m.1, m.2))

def documents : List Plain → List (Document Literal)
  | [] => []
  | x :: xs => document x :: documents xs

def members : List (String × Plain) → List (String × Document Literal)
  | [] => []
  | (k, v) :: items => (k, document v) :: members items

end

/-- `json.dumps(self.data, sort_keys=True, separators=(",", ":"), default=str)` -/
def SnapshotPayload.canonicalDataJson (payload : SnapshotPayload) : String :=
  String.ofList ((document repr (.dict payload.data)).render .compact)

variable (sha256 : Sha256)

def SnapshotArtifact.computePayloadHash (a : SnapshotArtifact) : String :=
  sha256 (a.payload.canonicalDataJson repr)

end Documents

/-- What the artifact's hash is of. -/
def SnapshotArtifact.hashed (a : SnapshotArtifact) : Document Literal :=
  .obj
    [(ofString "base_snapshot_id", a.baseSnapshotId.elim .null fun id => .str (ofString id)),
      (ofString "ordering_clock_id", .str (ofString a.timestampMarker.clockId)),
      (ofString "ordering_sequence", .int a.timestampMarker.sequenceNumber),
      (ofString "payload_hash", .str (ofString a.payloadHash)),
      (ofString "previous_snapshot_hash", .str (ofString a.previousSnapshotHash)),
      (ofString "snapshot_id", .str (ofString a.snapshotId))]

def SnapshotArtifact.computeArtifactHash (sha256 : Sha256) (a : SnapshotArtifact) : String :=
  sha256 (String.ofList (a.hashed.render .compact))

/-! ### The check -/

section Check
variable (sha256 : Sha256) (r : SnapshotRegistry)

/-- What is wrong with one id of a chain. -/
def SnapshotRegistry.idErrors (snapId : String) : List String :=
  match r.artifacts.get? snapId with
  | none => ["Missing artifact for snapshot_id " ++ snapId]
  | some artifact =>
    if artifact.computeArtifactHash sha256 ≠ artifact.artifactHash then
      ["Artifact " ++ snapId ++ ": hash mismatch (tampered)"]
    else []

def SnapshotRegistry.chainErrors (chain : SnapshotChain) : List String :=
  (if chain.snapshotIds.length ≠ chain.snapshotHashes.length then
    ["Chain " ++ chain.chainId ++ ": id/hash count mismatch"] else []) ++
  chain.snapshotIds.flatMap (r.idErrors sha256)

def SnapshotRegistry.verifyIntegrity : Bool × List String :=
  let errors := r.chains.items.flatMap fun p => r.chainErrors sha256 p.2
  (errors.length = 0, errors)

end Check

/-! ### Integrity -/

section Integrity
variable (repr : FloatRepr) (sha256 : Sha256)

/-- Both hashes are what they are computed to be. -/
structure SnapshotArtifact.Computed (a : SnapshotArtifact) : Prop where
  payload : a.payloadHash = a.computePayloadHash repr sha256
  artifact : a.artifactHash = a.computeArtifactHash sha256

/-- The chain's hashes are those of its ids. -/
def SnapshotRegistry.Lists (r : SnapshotRegistry) (chain : SnapshotChain) : Prop :=
  chain.snapshotIds.map (fun id => (r.artifacts.get? id).map (·.artifactHash)) =
    chain.snapshotHashes.map some

/-- Each artifact has the hash of the one before. -/
def SnapshotRegistry.Links (r : SnapshotRegistry) (chain : SnapshotChain) : Prop :=
  chain.snapshotIds.IsChain fun before id => ∀ b a, r.artifacts.get? before = some b →
    r.artifacts.get? id = some a → a.previousSnapshotHash = b.artifactHash

/-- Snapshots have their hashes, and chains list and link them. -/
structure SnapshotRegistry.Intact (r : SnapshotRegistry) : Prop where
  computed : ∀ id a, r.artifacts.get? id = some a → a.Computed repr sha256
  listed : ∀ key chain, r.chains.get? key = some chain → r.Lists chain
  linked : ∀ key chain, r.chains.get? key = some chain → r.Links chain

/-- The check finds nothing exactly if there is nothing. -/
def SnapshotRegistry.Complete (r : SnapshotRegistry) : Prop :=
  (r.verifyIntegrity sha256).1 = true ↔ r.Intact repr sha256

/-! ### What is seen -/

/-- An id of a chain has no artifact, or one whose hash is wrong. -/
def SnapshotRegistry.BadId (r : SnapshotRegistry) (snapId : String) : Prop :=
  ∀ a, r.artifacts.get? snapId = some a → a.artifactHash ≠ a.computeArtifactHash sha256

/-- There are more ids than hashes, or fewer, or one is bad. -/
def SnapshotRegistry.Seen (r : SnapshotRegistry) : Prop :=
  ∃ key chain, r.chains.get? key = some chain ∧
    (chain.snapshotIds.length ≠ chain.snapshotHashes.length ∨
      ∃ id ∈ chain.snapshotIds, r.BadId sha256 id)

/-- The faults that no check is for. -/
structure SnapshotRegistry.NoneUnseen (r : SnapshotRegistry) : Prop where
  payloads : ∀ id a, r.artifacts.get? id = some a → a.payloadHash = a.computePayloadHash repr sha256
  unlisted : ∀ id a, r.artifacts.get? id = some a →
    (∀ key chain, r.chains.get? key = some chain → id ∉ chain.snapshotIds) →
      a.artifactHash = a.computeArtifactHash sha256
  hashes : ∀ key chain, r.chains.get? key = some chain → r.Lists chain
  links : ∀ key chain, r.chains.get? key = some chain → r.Links chain

end Integrity

section Seen
variable {repr : FloatRepr} {sha256 : Sha256} {r : SnapshotRegistry}

theorem idErrors_eq_nil {snapId : String} :
    r.idErrors sha256 snapId = [] ↔ ¬ r.BadId sha256 snapId := by
  rw [SnapshotRegistry.idErrors, SnapshotRegistry.BadId]
  cases r.artifacts.get? snapId with
  | none => simp
  | some a =>
    simp only [Option.some.injEq, forall_eq', not_not]
    rw [ite_eq_right_iff]
    constructor
    · intro h
      by_contra hne
      exact absurd (h (Ne.symm hne)) (List.cons_ne_nil _ _)
    · exact fun heq hne => absurd heq.symm hne

theorem chainErrors_eq_nil {chain : SnapshotChain} : r.chainErrors sha256 chain = [] ↔
    chain.snapshotIds.length = chain.snapshotHashes.length ∧
      ∀ id ∈ chain.snapshotIds, ¬ r.BadId sha256 id := by
  rw [SnapshotRegistry.chainErrors, List.append_eq_nil_iff, ite_singleton_eq_nil, not_not,
    List.flatMap_eq_nil_iff]
  simp only [idErrors_eq_nil]

/-- The check finds what it sees. -/
theorem verifyIntegrity_iff : (r.verifyIntegrity sha256).1 = true ↔ ¬ r.Seen sha256 := by
  have hnone : (r.verifyIntegrity sha256).1 = true ↔
      ∀ p ∈ r.chains.items, r.chainErrors sha256 p.2 = [] := by
    rw [SnapshotRegistry.verifyIntegrity, decide_eq_true_eq, List.length_eq_zero_iff,
      List.flatMap_eq_nil_iff]
  have hchains := r.chains.forall_items (P := fun _ chain => r.chainErrors sha256 chain = [])
  rw [hnone, hchains, SnapshotRegistry.Seen]
  simp only [chainErrors_eq_nil]
  push Not
  rfl

theorem exists_of_lists {chain : SnapshotChain} (h : r.Lists chain) {id : String}
    (hid : id ∈ chain.snapshotIds) : ∃ a, r.artifacts.get? id = some a := by
  have hmem := List.mem_map_of_mem (f := fun id => (r.artifacts.get? id).map (·.artifactHash)) hid
  rw [h] at hmem
  obtain ⟨hash, -, heq⟩ := List.mem_map.mp hmem
  obtain ⟨a, ha, -⟩ := Option.map_eq_some_iff.mp heq.symm
  exact ⟨a, ha⟩

/-- In an intact registry there is nothing to see. -/
theorem SnapshotRegistry.Intact.not_seen (h : r.Intact repr sha256) : ¬ r.Seen sha256 := by
  rintro ⟨key, chain, hchain, hcount | ⟨id, hid, hbad⟩⟩
  · have hlength := congrArg List.length (h.listed key chain hchain)
    rw [List.length_map, List.length_map] at hlength
    exact hcount hlength
  · obtain ⟨a, ha⟩ := exists_of_lists (h.listed key chain hchain) hid
    exact hbad a ha (h.computed id a ha).artifact

theorem SnapshotRegistry.Intact.noneUnseen (h : r.Intact repr sha256) :
    r.NoneUnseen repr sha256 where
  payloads id a ha := (h.computed id a ha).payload
  unlisted id a ha _ := (h.computed id a ha).artifact
  hashes := h.listed
  links := h.linked

theorem SnapshotRegistry.NoneUnseen.intact (h : r.NoneUnseen repr sha256)
    (hseen : ¬ r.Seen sha256) : r.Intact repr sha256 where
  computed id a ha := by
    refine ⟨h.payloads id a ha, ?_⟩
    by_contra hne
    -- a wrong hash is seen if any chain lists the id
    refine hne (h.unlisted id a ha fun key chain hchain hid => ?_)
    refine hseen ⟨key, chain, hchain, .inr ⟨id, hid, fun a' ha' => ?_⟩⟩
    obtain rfl := Option.some.inj (ha.symm.trans ha')
    exact hne
  listed := h.hashes
  linked := h.links

end Seen

/-- The check is complete exactly where it sees a fault, or there is none that it does not see. -/
theorem complete_iff (repr : FloatRepr) (sha256 : Sha256) (r : SnapshotRegistry) :
    r.Complete repr sha256 ↔ r.Seen sha256 ∨ r.NoneUnseen repr sha256 := by
  rw [SnapshotRegistry.Complete, verifyIntegrity_iff]
  by_cases hseen : r.Seen sha256
  · exact iff_of_true (iff_of_false (not_not.mpr hseen) fun h => h.not_seen hseen) (.inl hseen)
  · rw [iff_true_left hseen, or_iff_right hseen]
    exact ⟨fun h => h.noneUnseen, fun h => h.intact hseen⟩

/-! ### Before any change -/

section Stored
variable {repr : FloatRepr} {sha256 : Sha256} {r r' : SnapshotRegistry} {chain : SnapshotChain}
  {artifact : SnapshotArtifact}

theorem SnapshotRegistry.Lists.congr (h : r.Lists chain)
    (hget : ∀ id ∈ chain.snapshotIds, r'.artifacts.get? id = r.artifacts.get? id) :
    r'.Lists chain := by
  rw [SnapshotRegistry.Lists, ← h]
  refine List.map_congr_left fun id hid => ?_
  rw [hget id hid]

theorem SnapshotRegistry.Links.congr (h : r.Links chain)
    (hget : ∀ id ∈ chain.snapshotIds, r'.artifacts.get? id = r.artifacts.get? id) :
    r'.Links chain := by
  refine List.IsChain.imp_of_mem_imp (fun before id hbefore hid hlink b a hb ha => ?_) h
  exact hlink b a (hget before hbefore ▸ hb) (hget id hid ▸ ha)

/-- The chain goes on with the artifact. -/
theorem SnapshotRegistry.Lists.extended (h : r.Lists chain)
    (hself : r.artifacts.get? artifact.snapshotId = some artifact) :
    r.Lists (chain.extended artifact) := by
  show (chain.snapshotIds ++ [artifact.snapshotId]).map _ =
    (chain.snapshotHashes ++ [artifact.artifactHash]).map some
  rw [List.map_append, List.map_append, h, List.map_singleton, hself]
  rfl

theorem SnapshotRegistry.Links.extended (h : r.Links chain) (hlists : r.Lists chain)
    (hself : r.artifacts.get? artifact.snapshotId = some artifact)
    (hprevious : ∀ hash ∈ chain.snapshotHashes.getLast?, artifact.previousSnapshotHash = hash) :
    r.Links (chain.extended artifact) := by
  refine List.isChain_append.mpr ⟨h, List.isChain_singleton _, ?_⟩
  intro before hbefore id hid b a hb ha
  obtain rfl := Option.some.inj hid
  obtain rfl := Option.some.inj (hself.symm.trans ha)
  refine hprevious _ ?_
  have hlast := congrArg List.getLast? hlists
  rw [List.getLast?_map, List.getLast?_map, hbefore, Option.map_some, hb] at hlast
  obtain ⟨hash, hhash, heq⟩ := Option.map_eq_some_iff.mp hlast.symm
  rw [hhash]
  exact heq

/-- An artifact with its computed hashes and a new id leaves the registry intact. -/
theorem SnapshotRegistry.Intact.store (h : r.Intact repr sha256) (hr : r.Sound)
    (hcontinues : Continues r artifact) (hcomputed : artifact.Computed repr sha256)
    (hnew : r.artifacts.get? artifact.snapshotId = none) :
    (r.store artifact).2.Intact repr sha256 := by
  obtain ⟨r', hstore, hartifacts, hchains⟩ := hr.store_ok hcontinues
  have hself : r'.artifacts.get? artifact.snapshotId = some artifact := by
    rw [hartifacts, Dict.get?_set_self]
  have hkept : ∀ key chain, r.chains.get? key = some chain → ∀ id ∈ chain.snapshotIds,
      r'.artifacts.get? id = r.artifacts.get? id := by
    intro key chain hchain id hid
    obtain ⟨a, ha⟩ := exists_of_lists (h.listed key chain hchain) hid
    rw [hartifacts, Dict.get?_set, if_neg]
    rintro rfl
    rw [hnew] at ha
    cases ha
  have hlisted : ∀ key chain, r.chains.get? key = some chain → r'.Lists chain := by
    intro key chain hchain
    exact (h.listed key chain hchain).congr (hkept key chain hchain)
  have hlinked : ∀ key chain, r.chains.get? key = some chain → r'.Links chain := by
    intro key chain hchain
    exact (h.linked key chain hchain).congr (hkept key chain hchain)
  rw [hstore]
  refine ⟨fun id a ha => ?_, fun key chain hchain => ?_, fun key chain hchain => ?_⟩
  · rw [hartifacts, Dict.get?_set] at ha
    split at ha
    · rw [← Option.some.inj ha]
      exact hcomputed
    · exact h.computed id a ha
  · rw [hchains] at hchain
    split at hchain
    · next heq =>
      subst heq
      rw [← Option.some.inj hchain]
      cases hold : r.chains.get? artifact.key with
      | none => exact SnapshotRegistry.Lists.extended rfl hself
      | some chain => exact (hlisted _ chain hold).extended hself
    · exact hlisted key chain hchain
  · rw [hchains] at hchain
    split at hchain
    · next heq =>
      subst heq
      rw [← Option.some.inj hchain]
      cases hold : r.chains.get? artifact.key with
      | none =>
        refine SnapshotRegistry.Links.extended List.isChain_nil rfl hself fun hash hhash => ?_
        exact absurd hhash (Option.not_mem_none hash)
      | some chain =>
        rw [Continues, hold] at hcontinues
        exact (hlinked _ chain hold).extended (hlisted _ chain hold) hself hcontinues.2
    · exact hlinked key chain hchain

end Stored

/-- A history keeps what a call returned. -/
theorem stored_step (h : History) (artifact : SnapshotArtifact) :
    ∀ a ∈ (histories.step h artifact).stored, a ∈ h.stored ∨ a = artifact := by
  intro a ha
  by_cases hcontinues : ∃ e, (h.registry.store artifact).1 = .error e
  · obtain ⟨e, he⟩ := hcontinues
    simp only [histories, he] at ha
    exact .inl ha
  · cases hresult : (h.registry.store artifact).1 with
    | error e => exact absurd ⟨e, hresult⟩ hcontinues
    | ok stored =>
      have hsame : stored = artifact := by
        simp only [SnapshotRegistry.store] at hresult
        split at hresult <;> cases hresult
        rfl
      simp only [histories, hresult, hsame] at ha
      exact (List.mem_append.mp ha).imp_right List.mem_singleton.mp

/-- What a history keeps came with a call. -/
theorem stored_subset (acts : List SnapshotArtifact) :
    ∀ a ∈ (histories.after acts).stored, a ∈ acts := by
  induction acts using List.reverseRecOn with
  | nil => exact fun a ha => absurd ha List.not_mem_nil
  | append_singleton acts artifact ih =>
    intro a ha
    rw [System.after_snoc] at ha
    rcases stored_step _ artifact a ha with ha | rfl
    · exact List.mem_append_left _ (ih a ha)
    · exact List.mem_append_right _ (List.mem_singleton_self _)

/-- Calls with computed hashes and different ids leave a registry intact. -/
theorem intact_after {repr : FloatRepr} {sha256 : Sha256} (acts : List SnapshotArtifact)
    (hids : (acts.map (·.snapshotId)).Nodup) (hcomputed : ∀ a ∈ acts, a.Computed repr sha256) :
    (histories.after acts).registry.Intact repr sha256 := by
  have hrun : (Held (histories.after acts) ∧ (histories.after acts).stored.Nodup) ∧
      (histories.after acts).registry.Intact repr sha256 := by
    induction acts using List.reverseRecOn with
    | nil =>
      refine ⟨histories_initial, fun _ _ h => ?_, fun _ _ h => ?_, fun _ _ h => ?_⟩ <;> cases h
    | append_singleton acts artifact ih =>
      rw [List.map_append, List.nodup_append] at hids
      obtain ⟨hheld, hintact⟩ := ih hids.1 fun a ha =>
        hcomputed a (List.mem_append_left _ ha)
      have hnew : (histories.after acts).registry.get artifact.snapshotId = none := by
        refine Option.eq_none_iff_forall_ne_some.mpr fun a ha => ?_
        obtain ⟨hstored, hid⟩ := hheld.1.known _ a ha
        exact hids.2.2 _ (List.mem_map_of_mem (stored_subset acts a hstored)) _
          (List.mem_singleton_self _) hid
      rw [System.after_snoc]
      refine ⟨histories_fresh _ artifact (fun _ => hnew) hheld, ?_⟩
      by_cases hcontinues : Continues (histories.after acts).registry artifact
      · have hself := hcomputed artifact (List.mem_append_right _ (List.mem_singleton_self _))
        exact hintact.store hheld.1.sound hcontinues hself hnew
      · obtain ⟨e, hstore⟩ := store_refused hcontinues
        show ((histories.after acts).registry.store artifact).2.Intact repr sha256
        rw [hstore]
        exact hintact
  exact hrun.2

/-! ### Changes -/

section Changes
variable {repr : FloatRepr} {sha256 : Sha256} {r r' : SnapshotRegistry}

end Changes

/-! ### A payload changed -/

def zeros : FloatRepr := fun _ => ⟨"0.0".toList, by decide⟩

def replicas (count : Int) : SnapshotPayload :=
  ⟨.state, "acme", "k8s", "general", [("replicas", .int count)], []⟩

def oneReplica : SnapshotArtifact :=
  let a : SnapshotArtifact :=
    { snapshotId := "s1"
      baseSnapshotId := none
      timestampMarker := ⟨0, 1, "clock", "1970-01-01T00:00:00.000000Z:000000000001:clock", ""⟩
      payload := replicas 1
      payloadHash := (replicas 1).canonicalDataJson zeros
      artifactHash := ""
      previousSnapshotHash := ""
      compression := .none
      retentionClass := .hot }
  { a with artifactHash := a.computeArtifactHash id }

/-- Once it is stored, there are two. -/
def twoReplicas : SnapshotRegistry :=
  let r := (histories.after [oneReplica]).registry
  { r with artifacts := r.artifacts.set "s1" { oneReplica with payload := replicas 2 } }

/-- The registry is intact; then a payload is changed, and the check does not see it. -/
theorem not_complete_twoReplicas : (histories.after [oneReplica]).registry.Intact zeros id ∧
    ¬ twoReplicas.Complete zeros id := by
  have hcomputed : oneReplica.Computed zeros id := ⟨by decide +kernel, by decide +kernel⟩
  refine ⟨intact_after _ (List.nodup_singleton _) fun a ha => ?_, fun h => ?_⟩
  · rwa [List.mem_singleton.mp ha]
  · have hintact := h.mp (by decide +kernel)
    have hpayload := (hintact.computed "s1" { oneReplica with payload := replicas 2 } rfl).payload
    exact absurd hpayload (by decide +kernel)

end PiPlatform.Interoperability.Snapshot
