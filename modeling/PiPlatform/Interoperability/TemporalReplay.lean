import PiPlatform.Interoperability.SnapshotRegistry
import PiPlatform.Library.Calendar

/-! Reconstruction from the snapshot registry.

The target time becomes a marker with the sequence number 0 and a clock of its own, and what is
listed is what comes strictly before that marker, a thousand snapshots at most; of these the last
is taken. So a snapshot of the very time asked for is left out unless its sequence number is 0
too and its clock sorts before `replay_query`, and with more than a thousand snapshots it is the
thousandth that is found. Otherwise reconstruction is right, and monotone (`reconstruct_iff`). -/
namespace PiPlatform.Interoperability.Snapshot

open Library Library.Json Library.Calendar

variable (sha256 : String → String)

/-! ### Markers -/

/-- 1970-01-01, from which wall times are counted. -/
def unixEpoch : Nat := 719162 * day

def wallTimeOf (t : Instant) : Int := (t.val : Int) - unixEpoch

def canonicalTimestamp (wallTime : Int) : String :=
  String.ofList (isoText (wallTime + unixEpoch).toNat)

/-- `f"{n:012d}"` -/
def twelveDigits (n : Nat) : String :=
  String.ofList (List.replicate (12 - (toString n).length) '0') ++ toString n

/-- A marker that is given no ordering key and no hash. -/
def TimestampMarker.new (t : Instant) (sequenceNumber : Nat) (clockId : String) :
    TimestampMarker :=
  let orderingKey := canonicalTimestamp (wallTimeOf t) ++ ":" ++ twelveDigits sequenceNumber ++
    ":" ++ clockId
  ⟨wallTimeOf t, sequenceNumber, clockId, orderingKey, sha256 orderingKey⟩

/-! ### The engine -/

structure ReplayCheckpoint where
  checkpointId : String
  tenantId : String
  sourceId : String
  snapshotType : SnapshotType
  reconstructedSnapshot : SnapshotArtifact
  sourceSnapshotIds : List String
  targetTimestamp : Int
  nearestSnapshotTimestamp : Int
  checkpointHash : String
  readOnly : Bool

/-- `_compute_hash`, of a checkpoint that has none yet. -/
def ReplayCheckpoint.computeHash (cp : ReplayCheckpoint) : String :=
  let text (s : String) : Document Literal := .str (ofString s)
  let ids := (cp.sourceSnapshotIds.insertionSort (· ≤ ·)).map text
  let payload : Document Literal := .obj
    [(ofString "checkpoint_id", text cp.checkpointId),
      (ofString "nearest_snapshot_timestamp",
        text (canonicalTimestamp cp.nearestSnapshotTimestamp)),
      (ofString "read_only", .bool cp.readOnly),
      (ofString "snapshot_type", text cp.snapshotType.value),
      (ofString "source_id", text cp.sourceId),
      (ofString "source_snapshot_ids", .arr ids),
      (ofString "target_timestamp", text (canonicalTimestamp cp.targetTimestamp)),
      (ofString "tenant_id", text cp.tenantId)]
  sha256 (String.ofList (payload.render .compact))

/-- `_marker_from_timestamp` -/
def markerFromTimestamp (t : Instant) : TimestampMarker := .new sha256 t 0 "replay_query"

/-- The checkpoint made of the snapshot that was found. -/
def ReplayCheckpoint.of (tenantId sourceId : String) (snapshotType : SnapshotType)
    (target : Instant) (nearest : SnapshotArtifact) : ReplayCheckpoint :=
  let checkpoint : ReplayCheckpoint :=
    { checkpointId := "replay_" ++ tenantId ++ "_" ++ sourceId ++ "_" ++ snapshotType.value ++
        "_" ++ canonicalTimestamp (wallTimeOf target)
      tenantId, sourceId, snapshotType
      reconstructedSnapshot := nearest
      sourceSnapshotIds := [nearest.snapshotId]
      targetTimestamp := wallTimeOf target
      nearestSnapshotTimestamp := nearest.timestampMarker.wallTime
      checkpointHash := ""
      readOnly := true }
  { checkpoint with checkpointHash := checkpoint.computeHash sha256 }

/-- None is a `KeyError`, of an id without an artifact. -/
def SnapshotRegistry.reconstructStateAt (r : SnapshotRegistry) (tenantId sourceId : String)
    (snapshotType : SnapshotType) (target : Instant) : Option (Option ReplayCheckpoint) := do
  let filters : Filters :=
    { sourceId := some sourceId
      snapshotType := some snapshotType
      domain := none
      afterMarker := none
      beforeMarker := some (markerFromTimestamp sha256 target) }
  let snapshots ← r.listSnapshots tenantId filters 1000
  return snapshots.getLast?.map (ReplayCheckpoint.of sha256 tenantId sourceId snapshotType target)

/-! ### What is asked for -/

def SnapshotArtifact.wallTime (a : SnapshotArtifact) : Int := a.timestampMarker.wallTime

/-- The stored snapshots of a chain that are not later than a time. -/
def History.until (h : History) (key : ChainKey) (target : Instant) : List SnapshotArtifact :=
  h.stored.filter fun a => a.key = key ∧ a.wallTime ≤ wallTimeOf target

/-- Of the snapshots at or before a time the one with the greatest marker, and none where
there are none. -/
def Right (h : History) (key : ChainKey) (target : Instant) :
    Option (Option ReplayCheckpoint) → Prop
  | none => False
  | some none => h.until key target = []
  | some (some cp) => cp.reconstructedSnapshot ∈ h.until key target ∧
    ∀ a ∈ h.until key target, a.orderingKey ≤ cp.reconstructedSnapshot.orderingKey

/-- What is found for a later time is not before what is found for an earlier one. -/
def Monotone (h : History) (key : ChainKey) (target target' : Instant) : Prop :=
  ∀ cp, h.registry.reconstructStateAt sha256 key.tenantId key.sourceId key.snapshotType target =
      some (some cp) →
    ∃ cp', h.registry.reconstructStateAt sha256 key.tenantId key.sourceId key.snapshotType
        target' = some (some cp') ∧
      cp.reconstructedSnapshot.orderingKey ≤ cp'.reconstructedSnapshot.orderingKey

/-- No snapshot of the time itself is behind the query, and the limit has room for all. -/
def Reached (h : History) (key : ChainKey) (target : Instant) : Prop :=
  (∀ a ∈ h.stored, a.key = key → a.wallTime = wallTimeOf target →
    a.orderingKey < (markerFromTimestamp sha256 target).orderingKey) ∧
  (h.until key target).length ≤ 1000

/-- What is stored has a new id, a marker of its own making, and one that is greater than those
in its chain. -/
def Regular (h : History) (a : SnapshotArtifact) : Prop :=
  Fresh h a ∧ (Continues h.registry a →
    (∃ t n clockId, a.timestampMarker = .new sha256 t n clockId) ∧
    ∀ b ∈ h.stored, b.key = a.key → b.orderingKey < a.orderingKey)

/-! ### Markers in order -/

variable {sha256}

theorem canonicalTimestamp_wallTimeOf (t : Instant) :
    canonicalTimestamp (wallTimeOf t) = String.ofList (isoText t) := by
  have hinstant : (wallTimeOf t + unixEpoch).toNat = t.val := by
    rw [wallTimeOf]
    omega
  rw [canonicalTimestamp, hinstant]

theorem orderingKey_toList (t : Instant) (n : Nat) (clockId : String) :
    (TimestampMarker.new sha256 t n clockId).orderingKey.toList =
      isoText t ++ (":" ++ twelveDigits n ++ ":" ++ clockId).toList := by
  rw [TimestampMarker.new, canonicalTimestamp_wallTimeOf]
  simp only [String.toList_append, String.toList_ofList, List.append_assoc]

/-- The time decides first. -/
theorem marker_lt {t t' : Instant} (h : t < t') (n n' : Nat) (clockId clockId' : String) :
    (TimestampMarker.new sha256 t n clockId).orderingKey <
      (TimestampMarker.new sha256 t' n' clockId').orderingKey := by
  rw [String.lt_iff_toList_lt, orderingKey_toList, orderingKey_toList]
  exact append_lt_append (by rw [isoText_length, isoText_length]) (isoText_lt h t'.isLt)

theorem wallTimeOf_le {t t' : Instant} : wallTimeOf t ≤ wallTimeOf t' ↔ t ≤ t' := by
  rw [wallTimeOf, wallTimeOf, Fin.le_def]
  omega

/-- A marker before the query is not of a later time; of an earlier one it is before it. -/
theorem before_query {a : SnapshotArtifact} {target : Instant}
    (h : ∃ t n clockId, a.timestampMarker = .new sha256 t n clockId) :
    (a.orderingKey < (markerFromTimestamp sha256 target).orderingKey →
      a.wallTime ≤ wallTimeOf target) ∧
    (a.wallTime < wallTimeOf target →
      a.orderingKey < (markerFromTimestamp sha256 target).orderingKey) := by
  obtain ⟨t, n, clockId, hmarker⟩ := h
  have hwall : a.wallTime = wallTimeOf t := by rw [SnapshotArtifact.wallTime, hmarker]; rfl
  rw [SnapshotArtifact.orderingKey, hmarker, hwall, markerFromTimestamp]
  constructor
  · intro hlt
    by_contra hlater
    have ht : target < t := lt_of_not_ge fun hle => hlater (wallTimeOf_le.mpr hle)
    exact absurd (hlt.trans (marker_lt ht 0 n "replay_query" clockId)) (lt_irrefl _)
  · intro hearlier
    have ht : t < target := lt_of_not_ge fun hle =>
      absurd hearlier (not_lt.mpr (wallTimeOf_le.mpr hle))
    exact marker_lt ht n 0 clockId "replay_query"

/-! ### The last of a sorted list -/

section Lists
variable {α β : Type} [LinearOrder β] {key : α → β} {xs : List α}

/-- Among the first `n` of a list that ascends strictly the greatest of all is the last one
exactly when there are no more. -/
theorem greatest_take_iff {n : Nat} (hsorted : xs.Pairwise fun a b => key a < key b) {a : α}
    (ha : (xs.take n).getLast? = some a) : (∀ b ∈ xs, key b ≤ key a) ↔ xs.length ≤ n := by
  constructor
  · intro hgreatest
    by_contra hmore
    obtain ⟨b, hb⟩ := List.exists_mem_of_ne_nil (xs.drop n)
      (List.drop_eq_nil_iff.not.mpr (by omega))
    rw [← List.take_append_drop n xs] at hsorted
    have hlater := (List.pairwise_append.mp hsorted).2.2 a (List.mem_of_getLast? ha) b hb
    exact absurd (hgreatest b (List.mem_of_mem_drop hb)) (not_le.mpr hlater)
  · intro hlength b hb
    rw [List.take_of_length_le hlength] at ha
    obtain ⟨front, rfl⟩ := List.getLast?_eq_some_iff.mp ha
    rcases List.mem_append.mp hb with hb | hb
    · exact ((List.pairwise_append.mp hsorted).2.2 b hb a (List.mem_singleton_self a)).le
    · rw [List.mem_singleton.mp hb]

end Lists

/-! ### What is listed -/

section Reconstruction
variable {h : History} {key : ChainKey} {target : Instant}

variable (sha256) in
/-- What the histories of regular calls keep. -/
structure Ascending (h : History) : Prop where
  held : Held h
  nodup : h.stored.Nodup
  made : ∀ a ∈ h.stored, ∃ t n clockId, a.timestampMarker = .new sha256 t n clockId
  distinct : ∀ a ∈ h.stored, ∀ b ∈ h.stored, a.key = b.key → a.orderingKey = b.orderingKey → a = b

/-- The snapshots before the query. -/
def History.before (h : History) (key : ChainKey) (marker : TimestampMarker) :
    List SnapshotArtifact :=
  h.stored.filter fun a => a.key = key ∧ a.orderingKey < marker.orderingKey

theorem Ascending.listed (hasc : Ascending sha256 h) (tenantId sourceId : String)
    (snapshotType : SnapshotType) (marker : TimestampMarker) :
    ∃ results : List SnapshotArtifact, h.registry.listSnapshots tenantId
        ⟨some sourceId, some snapshotType, none, none, some marker⟩ 1000 =
          some (results.take 1000) ∧
      results.Perm (h.before ⟨tenantId, sourceId, snapshotType⟩ marker) ∧
      results.Pairwise fun a b => a.orderingKey < b.orderingKey := by
  let filters : Filters := ⟨some sourceId, some snapshotType, none, none, some marker⟩
  have hpassing :
      h.passing tenantId filters = h.before ⟨tenantId, sourceId, snapshotType⟩ marker := by
    refine List.filter_congr fun a _ => ?_
    obtain ⟨tenant, source, type⟩ := a.key
    simp [filters, Filters.selects, Filters.passes]
  have hcollected := nodup_collected hasc.nodup tenantId filters
  have hperm : (h.collected tenantId filters).Perm
      (h.before ⟨tenantId, sourceId, snapshotType⟩ marker) := by
    rw [← hpassing]
    exact (List.perm_ext_iff_of_nodup hcollected (hasc.nodup.filter _)).mpr fun a =>
      hasc.held.mem_collected
  have hsorted := stableSort_sortBy SnapshotArtifact.orderingKey (h.collected tenantId filters)
  refine ⟨sortBy (·.orderingKey) (h.collected tenantId filters), ?_, hsorted.perm.trans hperm, ?_⟩
  · exact hasc.held.listSnapshots tenantId filters 1000
  · have hmem : ∀ a ∈ sortBy (·.orderingKey) (h.collected tenantId filters),
        a ∈ h.stored ∧ a.key = ⟨tenantId, sourceId, snapshotType⟩ := by
      intro a ha
      have hbefore := List.mem_filter.mp (hperm.mem_iff.mp (hsorted.mem_iff.mp ha))
      exact ⟨hbefore.1, (of_decide_eq_true hbefore.2).1⟩
    have hdiffer := hsorted.sorted.and (hsorted.perm.nodup_iff.mpr hcollected)
    refine hdiffer.imp_of_mem fun {a b} ha hb hab => lt_of_le_of_ne hab.1 fun heq => hab.2 ?_
    obtain ⟨hastored, hakey⟩ := hmem a ha
    obtain ⟨hbstored, hbkey⟩ := hmem b hb
    exact hasc.distinct a hastored b hbstored (hakey.trans hbkey.symm) heq

/-- Where no snapshot of the time itself is behind the query, what is before it is what is asked
for. -/
theorem Ascending.before_eq_iff (hasc : Ascending sha256 h) :
    h.before key (markerFromTimestamp sha256 target) = h.until key target ↔
      ∀ a ∈ h.stored, a.key = key → a.wallTime = wallTimeOf target →
        a.orderingKey < (markerFromTimestamp sha256 target).orderingKey := by
  constructor
  · intro heq a ha hkey hwall
    have huntil : a ∈ h.until key target :=
      List.mem_filter.mpr ⟨ha, decide_eq_true ⟨hkey, hwall.le⟩⟩
    rw [← heq] at huntil
    exact (of_decide_eq_true (List.mem_filter.mp huntil).2).2
  · intro htimed
    refine List.filter_congr fun a ha => decide_eq_decide.mpr ?_
    obtain ⟨hbefore, hearlier⟩ : _ ∧ (a.wallTime < wallTimeOf target → _) :=
      before_query (hasc.made a ha)
    refine and_congr_right fun hkey => ⟨hbefore, fun hle => ?_⟩
    rcases hle.lt_or_eq with hlt | heq
    · exact hearlier hlt
    · exact htimed a ha hkey heq

theorem Ascending.right_iff (hasc : Ascending sha256 h) (tenantId sourceId : String)
    (snapshotType : SnapshotType) (target : Instant) :
    Right h ⟨tenantId, sourceId, snapshotType⟩ target
        (h.registry.reconstructStateAt sha256 tenantId sourceId snapshotType target) ↔
      Reached sha256 h ⟨tenantId, sourceId, snapshotType⟩ target := by
  obtain ⟨results, hlisted, hperm, hsorted⟩ :=
    hasc.listed tenantId sourceId snapshotType (markerFromTimestamp sha256 target)
  have hresult : h.registry.reconstructStateAt sha256 tenantId sourceId snapshotType target =
      some ((results.take 1000).getLast?.map
        (ReplayCheckpoint.of sha256 tenantId sourceId snapshotType target)) := by
    rw [SnapshotRegistry.reconstructStateAt, hlisted]
    rfl
  rw [hresult, Reached, ← hasc.before_eq_iff]
  cases hlast : (results.take 1000).getLast? with
  | none =>
    have hempty : results = [] := by
      simpa using List.getLast?_eq_none_iff.mp hlast
    rw [hempty, List.nil_perm] at hperm
    rw [hperm]
    exact ⟨fun hnone => ⟨hnone.symm, by rw [hnone]; exact Nat.zero_le _⟩, fun h => h.1.symm⟩
  | some a =>
    have ha := List.mem_filter.mp
      (hperm.mem_iff.mp (List.mem_of_mem_take (List.mem_of_getLast? hlast)))
    have hgreatest := greatest_take_iff hsorted hlast
    constructor
    · rintro ⟨-, hle⟩
      have heq := hasc.before_eq_iff.mpr fun b hb hkey hwall =>
        (hle b (List.mem_filter.mpr ⟨hb, decide_eq_true ⟨hkey, hwall.le⟩⟩)).trans_lt
          (of_decide_eq_true ha.2).2
      refine ⟨heq, ?_⟩
      rw [← heq, ← hperm.length_eq]
      refine hgreatest.mp fun b hb => hle b ?_
      rw [← heq]
      exact hperm.mem_iff.mp hb
    · rintro ⟨heq, hlength⟩
      rw [← heq, ← hperm.length_eq] at hlength
      have hmem := hgreatest.mpr hlength
      refine ⟨heq ▸ List.mem_filter.mpr ha, fun b hb => hmem b ?_⟩
      rw [← heq] at hb
      exact hperm.mem_iff.mpr hb

/-! ### Runs -/

theorem Ascending.initial : Ascending sha256 histories.initial where
  held := histories_initial.1
  nodup := histories_initial.2
  made _ h := by cases h
  distinct _ h := by cases h

theorem Ascending.step (hasc : Ascending sha256 h) {a : SnapshotArtifact}
    (hregular : Regular sha256 h a) : Ascending sha256 (histories.step h a) := by
  obtain ⟨hheld, hnodup⟩ := histories_fresh h a hregular.1 ⟨hasc.held, hasc.nodup⟩
  by_cases hcontinues : Continues h.registry a
  · obtain ⟨hmade, hgreater⟩ := hregular.2 hcontinues
    have hstored : (histories.step h a).stored = h.stored ++ [a] := by
      obtain ⟨r', hstore, -⟩ := hasc.held.sound.store_ok hcontinues
      simp only [histories, hstore]
    refine ⟨hheld, hnodup, fun b hb => ?_, fun b hb c hc hkey hord => ?_⟩
    · rw [hstored] at hb
      rcases List.mem_append.mp hb with hb | hb
      · exact hasc.made b hb
      · rwa [List.mem_singleton.mp hb]
    · rw [hstored] at hb hc
      rcases List.mem_append.mp hb with hb' | hb' <;> rcases List.mem_append.mp hc with hc' | hc'
      · exact hasc.distinct b hb' c hc' hkey hord
      · rw [List.mem_singleton.mp hc'] at hkey hord
        exact absurd (hgreater b hb' hkey) (not_lt.mpr hord.ge)
      · rw [List.mem_singleton.mp hb'] at hkey hord
        exact absurd (hgreater c hc' hkey.symm) (not_lt.mpr hord.le)
      · rw [List.mem_singleton.mp hb', List.mem_singleton.mp hc']
  · obtain ⟨e, hstore⟩ := store_refused hcontinues
    have hstored : (histories.step h a).stored = h.stored := by
      simp only [histories, hstore]
    exact ⟨hheld, hnodup, hstored ▸ hasc.made, hstored ▸ hasc.distinct⟩

/-- What is right for a later time has all that is right for an earlier one behind it. -/
theorem Ascending.monotone (hasc : Ascending sha256 h) (key : ChainKey)
    {target target' : Instant} (hle : target ≤ target') (hreached : Reached sha256 h key target)
    (hreached' : Reached sha256 h key target') : Monotone sha256 h key target target' := by
  intro cp hcp
  have hright := (hasc.right_iff key.tenantId key.sourceId key.snapshotType target).mpr hreached
  have hright' := (hasc.right_iff key.tenantId key.sourceId key.snapshotType target').mpr hreached'
  rw [hcp] at hright
  have hlater : cp.reconstructedSnapshot ∈ h.until key target' := by
    obtain ⟨hstored, hwithin⟩ := List.mem_filter.mp hright.1
    obtain ⟨hkey, hwall⟩ := of_decide_eq_true hwithin
    exact List.mem_filter.mpr
      ⟨hstored, decide_eq_true ⟨hkey, hwall.trans (wallTimeOf_le.mpr hle)⟩⟩
  cases hcp' : h.registry.reconstructStateAt sha256 key.tenantId key.sourceId key.snapshotType
      target' with
  | none =>
    rw [hcp'] at hright'
    exact hright'.elim
  | some found =>
    rw [hcp'] at hright'
    cases found with
    | none => exact absurd hlater (hright' ▸ List.not_mem_nil)
    | some cp' => exact ⟨cp', rfl, hright'.2 _ hlater⟩

end Reconstruction

variable (sha256)

/-- As long as ids are new and markers ascend, in every registry that is reached
reconstruction is right for exactly the times that no snapshot of their own is left out of and
that the limit has room for; between such times it is monotone. -/
theorem reconstruct_iff (acts : List SnapshotArtifact)
    (hregular : histories.Admits (Regular sha256) acts) (tenantId sourceId : String)
    (snapshotType : SnapshotType) (target : Instant) :
    let h := histories.after acts
    let key : ChainKey := ⟨tenantId, sourceId, snapshotType⟩
    (Right h key target
        (h.registry.reconstructStateAt sha256 tenantId sourceId snapshotType target) ↔
      Reached sha256 h key target) ∧
    ∀ target', target ≤ target' → Reached sha256 h key target → Reached sha256 h key target' →
      Monotone sha256 h key target target' := by
  intro h key
  have hasc : Ascending sha256 h :=
    histories.invariant_under (Regular sha256) (Ascending sha256) Ascending.initial
      (fun _ _ hregular hasc => hasc.step hregular) acts hregular
  exact ⟨hasc.right_iff tenantId sourceId snapshotType target,
    fun _ hle hreached hreached' => hasc.monotone key hle hreached hreached'⟩

/-! ### A snapshot of the time asked for -/

def midnight : Instant := ⟨unixEpoch, by decide +kernel⟩

def oneOClock : Instant := ⟨unixEpoch + 3600000000, by decide +kernel⟩

/-- The first snapshot of a source, taken at midnight. -/
def first : SnapshotArtifact :=
  { nightly "acme" with timestampMarker := .new id midnight 1 "clock" }

theorem first_stored : (histories.after [first]).stored = [first] := rfl

theorem first_regular : histories.Admits (Regular id) [first] := by
  have hregular : Regular id histories.initial first := by
    refine ⟨fun _ => rfl, fun _ => ⟨⟨midnight, 1, "clock", rfl⟩, ?_⟩⟩
    intro b hb
    cases hb
  rw [← List.nil_append [first], System.admits_snoc]
  refine ⟨?_, hregular⟩
  intro before a behind hnil
  cases before <;> cases hnil

/-- Its number keeps it behind the query for its own time. -/
theorem query_lt_first : (markerFromTimestamp id midnight).orderingKey < first.orderingKey := by
  have hnumbers : (":" ++ twelveDigits 0 ++ ":" ++ "replay_query").toList <
      (":" ++ twelveDigits 1 ++ ":" ++ "clock").toList := by
    decide +kernel
  rw [SnapshotArtifact.orderingKey, String.lt_iff_toList_lt, markerFromTimestamp, first,
    orderingKey_toList, orderingKey_toList]
  exact List.append_left_lt hnumbers

/-- An hour later it is found. -/
theorem reconstruct_first :
    Right (histories.after [first]) ⟨"acme", "k8s", .topology⟩ oneOClock
      ((histories.after [first]).registry.reconstructStateAt id "acme" "k8s" .topology
        oneOClock) := by
  refine (reconstruct_iff id [first] first_regular "acme" "k8s" .topology oneOClock).1.mpr ⟨?_, ?_⟩
  · rw [first_stored]
    intro a ha _ hsame
    rw [List.mem_singleton.mp ha] at hsame
    exact absurd hsame (by decide +kernel)
  · rw [History.until, first_stored]
    decide +kernel

/-- The registry is reached by regular calls, and the snapshot of the very time is not found. -/
theorem first_not_found :
    histories.Admits (Regular id) [first] ∧
      (histories.after [first]).until ⟨"acme", "k8s", .topology⟩ midnight = [first] ∧
      ¬ Right (histories.after [first]) ⟨"acme", "k8s", .topology⟩ midnight
        ((histories.after [first]).registry.reconstructStateAt id "acme" "k8s" .topology
          midnight) := by
  refine ⟨first_regular, ?_, fun hright => ?_⟩
  · rw [History.until, first_stored]
    rfl
  · have hasc : Ascending id (histories.after [first]) :=
      histories.invariant_under (Regular id) (Ascending id) Ascending.initial
        (fun _ _ hregular hasc => hasc.step hregular) [first] first_regular
    have hreached := (hasc.right_iff "acme" "k8s" .topology midnight).mp hright
    have hlt := hreached.1 first (first_stored ▸ List.mem_singleton_self first) rfl rfl
    exact absurd (hlt.trans query_lt_first) (lt_irrefl _)

end PiPlatform.Interoperability.Snapshot
