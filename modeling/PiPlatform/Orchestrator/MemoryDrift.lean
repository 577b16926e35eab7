import Mathlib.Data.String.Basic
import PiPlatform.Library.Dict
import PiPlatform.Orchestrator.Memory

/-! Entries that are older than the file they were taken from.

A refresh writes the new content as a new row and leaves the old row where it is, so the
next scan finds that one stale again. `scan_after_refresh_iff`: refreshing everything that
is stale leaves nothing stale exactly when nothing was. Pruning does not help: in a store
below its cap it removes fewer rows than were refreshed (`Survives`). -/
namespace PiPlatform.Orchestrator.MemoryDrift

open Library Orchestrator.Memory

variable {entries : List MemoryEntry}

/-! ### The store -/

/-- A memory that one caller uses; no entry id stands twice. -/
structure Store where
  entries : List MemoryEntry
  fts : List FtsRow
  primaryKey : (entries.map (·.entryId)).Nodup

theorem nodup_insertEntry (entry : MemoryEntry) (h : (entries.map (·.entryId)).Nodup) :
    ((insertEntry entry entries).map (·.entryId)).Nodup := by
  rw [insertEntry, List.map_append]
  refine (h.sublist (List.filter_sublist.map _)).append (List.nodup_singleton _) ?_
  simp

theorem nodup_deleteEntries (ids : List String) (h : (entries.map (·.entryId)).Nodup) :
    ((deleteEntries ids entries).map (·.entryId)).Nodup :=
  h.sublist (List.filter_sublist.map _)

variable (maxRows : Nat)

/-- `remember`, its statements one after the other. -/
def Store.remember (entry : MemoryEntry) (s : Store) : Store :=
  let entries := insertEntry entry s.entries
  let fts := s.fts ++ [entry.ftsRow]
  if entries.length ≤ maxRows then ⟨entries, fts, nodup_insertEntry entry s.primaryKey⟩
  else
    let ids := oldest (entries.length - maxRows) entries
    ⟨deleteEntries ids entries, deleteRows ids fts,
      nodup_deleteEntries ids (nodup_insertEntry entry s.primaryKey)⟩

/-! ### Drift -/

/-- What is outside: the files, the search of the store, and `fingerprint`. -/
structure World where
  /-- `os.path.getmtime`, none where it raises. -/
  mtime : String → Option ℚ
  /-- The text of a file, none where it cannot be read. -/
  readText : String → Option String
  /-- `recall(key, 100)` -/
  recalled : Store → String → List MemoryEntry
  fingerprint : String → String → String

structure DriftResult where
  entryId : String
  sourcePath : String
  memoryMtime : ℚ
  sourceMtime : ℚ
  isStale : Bool
  stalenessSeconds : ℚ

variable (W : World)

def checkDrift (entry : MemoryEntry) (sourcePath : String) : DriftResult :=
  match W.mtime sourcePath with
  | none => ⟨entry.entryId, sourcePath, entry.createdAt, 0, false, 0⟩
  | some sourceMtime =>
    let staleness := sourceMtime - entry.createdAt
    ⟨entry.entryId, sourcePath, entry.createdAt, sourceMtime, decide (0 < staleness),
      max 0 staleness⟩

/-- `sorted(source_map.items())` -/
def sortedItems (sourceMap : Dict String String) : List (String × String) :=
  sourceMap.items.insertionSort fun a b => a.1 ≤ b.1

/-- The entries that are looked at for a key. -/
def entriesOf (s : Store) (key : String) : List MemoryEntry :=
  (W.recalled s key).filter fun entry => entry.key = key

def scanAllStale (s : Store) (sourceMap : Dict String String) : List DriftResult :=
  (sortedItems sourceMap).flatMap fun (key, sourcePath) =>
    ((entriesOf W s key).map fun entry => checkDrift W entry sourcePath).filter (·.isStale)

def getStaleEntries (s : Store) (sourceMap : Dict String String) : List MemoryEntry :=
  (sortedItems sourceMap).flatMap fun (key, sourcePath) =>
    (entriesOf W s key).filter fun entry => (checkDrift W entry sourcePath).isStale

/-- `entryId` and `now` are the id and the time the new entry gets. -/
def autoRefresh (entryId : String) (now : ℚ) (entry : MemoryEntry) (sourcePath : String)
    (s : Store) : Store :=
  match W.readText sourcePath with
  | none => s
  | some currentContent =>
    if currentContent = entry.body then s
    else s.remember maxRows
      { entryId := entryId
        key := entry.key
        body := currentContent
        chainId := entry.chainId
        agentName := entry.agentName
        riskScore := entry.riskScore
        createdAt := now
        bodyHash := W.fingerprint entry.key currentContent }

/-- An entry refreshed from its source, the `i`th with the `i`th id and time. -/
def refreshEntry (sourceMap : Dict String String) (ids : Nat → String) (times : Nat → ℚ)
    (s : Store) (p : MemoryEntry × Nat) : Store :=
  match sourceMap.get? p.1.key with
  | none => s
  | some sourcePath => autoRefresh maxRows W (ids p.2) (times p.2) p.1 sourcePath s

/-- Every entry of a list refreshed, one after the other. -/
def refreshAll (sourceMap : Dict String String) (ids : Nat → String) (times : Nat → ℚ)
    (stale : List MemoryEntry) (s : Store) : Store :=
  stale.zipIdx.foldl (refreshEntry maxRows W sourceMap ids times) s

/-! ### What is stale -/

/-- A search for a key of the map finds every entry with that key, once. -/
def RecallsAll (s : Store) (sourceMap : Dict String String) : Prop :=
  ∀ key sourcePath, sourceMap.get? key = some sourcePath →
    (entriesOf W s key).Perm (s.entries.filter fun entry => entry.key = key)

/-- No entry is older than its source. -/
def UpToDate (s : Store) (sourceMap : Dict String String) : Prop :=
  ∀ key sourcePath, sourceMap.get? key = some sourcePath → ∀ entry ∈ s.entries, entry.key = key →
    ∀ sourceMtime, W.mtime sourcePath = some sourceMtime → sourceMtime ≤ entry.createdAt

section Scans
variable {W} {s : Store} {sourceMap : Dict String String} {entry : MemoryEntry}

theorem isStale_iff {sourcePath : String} :
    (checkDrift W entry sourcePath).isStale = true ↔
      ∃ sourceMtime, W.mtime sourcePath = some sourceMtime ∧ entry.createdAt < sourceMtime := by
  rw [checkDrift]
  cases W.mtime sourcePath with
  | none => simp
  | some sourceMtime => simp

theorem mem_sortedItems {p : String × String} :
    p ∈ sortedItems sourceMap ↔ sourceMap.get? p.1 = some p.2 := by
  rw [sortedItems, List.mem_insertionSort, ← sourceMap.mem_items]

theorem mem_getStaleEntries (hrecall : RecallsAll W s sourceMap) :
    entry ∈ getStaleEntries W s sourceMap ↔ entry ∈ s.entries ∧ ∃ sourcePath sourceMtime,
      sourceMap.get? entry.key = some sourcePath ∧ W.mtime sourcePath = some sourceMtime ∧
        entry.createdAt < sourceMtime := by
  simp only [getStaleEntries, List.mem_flatMap, List.mem_filter, mem_sortedItems, isStale_iff]
  constructor
  · rintro ⟨⟨key, sourcePath⟩, hsource, hentry, sourceMtime, hmtime, hlt⟩
    have hstored := ((hrecall key sourcePath hsource).mem_iff).mp hentry
    obtain ⟨hmem, hkey⟩ := List.mem_filter.mp hstored
    obtain rfl := of_decide_eq_true hkey
    exact ⟨hmem, sourcePath, sourceMtime, hsource, hmtime, hlt⟩
  · rintro ⟨hmem, sourcePath, sourceMtime, hsource, hmtime, hlt⟩
    refine ⟨(entry.key, sourcePath), hsource, ?_, sourceMtime, hmtime, hlt⟩
    exact ((hrecall entry.key sourcePath hsource).mem_iff).mpr
      (List.mem_filter.mpr ⟨hmem, decide_eq_true rfl⟩)

theorem getStaleEntries_eq_nil_iff (hrecall : RecallsAll W s sourceMap) :
    getStaleEntries W s sourceMap = [] ↔ UpToDate W s sourceMap := by
  rw [List.eq_nil_iff_forall_not_mem]
  constructor
  · rintro h key sourcePath hsource entry hentry rfl sourceMtime hmtime
    by_contra hlt
    exact h entry ((mem_getStaleEntries hrecall).mpr
      ⟨hentry, sourcePath, sourceMtime, hsource, hmtime, not_le.mp hlt⟩)
  · intro h entry hentry
    obtain ⟨hmem, sourcePath, sourceMtime, hsource, hmtime, hlt⟩ :=
      (mem_getStaleEntries hrecall).mp hentry
    exact absurd (h entry.key sourcePath hsource entry hmem rfl sourceMtime hmtime) (not_le.mpr hlt)

/-- Both scans look for the same. -/
theorem scanAllStale_eq_nil_iff :
    scanAllStale W s sourceMap = [] ↔ getStaleEntries W s sourceMap = [] := by
  simp only [scanAllStale, getStaleEntries, List.flatMap_eq_nil_iff, List.filter_eq_nil_iff,
    List.forall_mem_map]

theorem key_of_mem_entriesOf {key : String} (h : entry ∈ entriesOf W s key) : entry.key = key :=
  of_decide_eq_true (List.mem_filter.mp h).2

/-- Each stale entry comes once. -/
theorem nodup_getStaleEntries (hrecall : RecallsAll W s sourceMap) :
    ((getStaleEntries W s sourceMap).map (·.entryId)).Nodup := by
  have hkeys : ((sortedItems sourceMap).map Prod.fst).Nodup :=
    ((List.perm_insertionSort _ _).map Prod.fst).nodup_iff.mpr sourceMap.nodup
  have hstale : (getStaleEntries W s sourceMap).Nodup := by
    refine List.nodup_flatMap.mpr ⟨fun p hp => ?_, ?_⟩
    · have hentries := (hrecall p.1 p.2 (mem_sortedItems.mp hp)).nodup_iff.mpr
        (s.primaryKey.of_map.filter _)
      exact hentries.filter _
    · refine (List.pairwise_map.mp hkeys).imp fun hne entry hp hq => hne ?_
      exact (key_of_mem_entriesOf (List.mem_filter.mp hp).1).symm.trans
        (key_of_mem_entriesOf (List.mem_filter.mp hq).1)
  refine hstale.map_on fun x hx y hy heq => ?_
  exact List.inj_on_of_nodup_map s.primaryKey ((mem_getStaleEntries hrecall).mp hx).1
    ((mem_getStaleEntries hrecall).mp hy).1 heq

end Scans

/-! ### What survives the refreshes -/

theorem length_deleteOldest (h : (entries.map (·.entryId)).Nodup) (excess : Nat) :
    (deleteEntries (oldest excess entries) entries).length = entries.length - excess := by
  have hperm := List.perm_insertionSort (fun a b : MemoryEntry => a.createdAt ≤ b.createdAt) entries
  have hnodup := (hperm.map (·.entryId)).nodup_iff.mpr h
  have hcut := filter_drop_cut (k := 0) (c := excess) hnodup
    (fun x hx _ => List.mem_map_of_mem hx) fun id hid => List.mem_map.mp hid
  rw [List.drop_zero, Nat.zero_max] at hcut
  rw [deleteEntries, ← (hperm.filter _).length_eq]
  exact (congrArg List.length hcut).trans (by rw [List.length_drop, hperm.length_eq])

/-- At most one row is replaced. -/
theorem length_le_insertEntry (entry : MemoryEntry) (h : (entries.map (·.entryId)).Nodup) :
    entries.length ≤ (insertEntry entry entries).length := by
  have hnodup := h.sublist ((List.filter_sublist (p := fun e : MemoryEntry =>
    !decide (e.entryId ≠ entry.entryId))).map (·.entryId))
  have hsame : ∀ id ∈ (entries.filter fun e => !decide (e.entryId ≠ entry.entryId)).map
      (·.entryId), id ∈ [entry.entryId] := by
    intro id hid
    obtain ⟨e, he, rfl⟩ := List.mem_map.mp hid
    simpa using (List.mem_filter.mp he).2
  have hone := (List.subperm_of_subset hnodup hsame).length_le
  rw [List.length_map, List.length_singleton] at hone
  have hsplit := List.length_eq_length_filter_add
    (l := entries) fun e => decide (e.entryId ≠ entry.entryId)
  rw [insertEntry, List.length_append, List.length_singleton]
  omega

/-- After `refreshed` refreshes every row of `s` is there but for those that were `pruned`,
and rows were pruned only once the table was full. -/
structure Survives (s t : Store) (refreshed : Nat) (pruned : List String) : Prop where
  still : ∀ entry ∈ s.entries, entry.entryId ∉ pruned → entry ∈ t.entries
  count : t.entries.length + pruned.length ≤ s.entries.length + refreshed
  full : pruned = [] ∨ maxRows ≤ t.entries.length

theorem Survives.start (s : Store) : Survives maxRows s s 0 [] where
  still _ he _ := he
  count := le_refl _
  full := .inl rfl

theorem Survives.unchanged {maxRows : Nat} {s t : Store} {refreshed : Nat} {pruned : List String}
    (h : Survives maxRows s t refreshed pruned) : Survives maxRows s t (refreshed + 1) pruned where
  still := h.still
  count := h.count.trans (by omega)
  full := h.full

theorem Survives.remember {s t : Store} {refreshed : Nat} {pruned : List String}
    (h : Survives maxRows s t refreshed pruned) {entry : MemoryEntry}
    (hfresh : ∀ e ∈ s.entries, e.entryId ≠ entry.entryId) :
    ∃ pruned', Survives maxRows s (t.remember maxRows entry) (refreshed + 1) pruned' := by
  have hinserted : ∀ e ∈ s.entries, e.entryId ∉ pruned → e ∈ insertEntry entry t.entries :=
    fun e he hpruned => List.mem_append_left _
      (List.mem_filter.mpr ⟨h.still e he hpruned, decide_eq_true (hfresh e he)⟩)
  have hlength : (insertEntry entry t.entries).length ≤ t.entries.length + 1 := by
    rw [insertEntry, List.length_append]
    exact Nat.add_le_add_right (List.length_filter_le ..) 1
  have hmore := length_le_insertEntry entry t.primaryKey
  have hcount := h.count
  rw [Store.remember]
  split
  · refine ⟨pruned, hinserted, ?_, h.full.imp_right hmore.trans'⟩
    simp only
    omega
  · next hover =>
    have hkept := length_deleteOldest (nodup_insertEntry entry t.primaryKey)
      ((insertEntry entry t.entries).length - maxRows)
    refine ⟨pruned ++ oldest ((insertEntry entry t.entries).length - maxRows)
      (insertEntry entry t.entries), fun e he hnot => ?_, ?_, .inr ?_⟩
    · obtain ⟨hpruned, hold⟩ := not_or.mp (List.mem_append.not.mp hnot)
      exact List.mem_filter.mpr ⟨hinserted e he hpruned, decide_eq_true hold⟩
    · have hids : (oldest ((insertEntry entry t.entries).length - maxRows)
          (insertEntry entry t.entries)).length ≤
            (insertEntry entry t.entries).length - maxRows := by
        rw [oldest, List.length_map]
        exact List.length_take_le ..
      simp only [List.length_append, hkept]
      omega
    · simp only [hkept]
      omega

section Refreshes
variable {maxRows} {W} {s t : Store}

theorem Survives.autoRefresh {refreshed : Nat} {pruned : List String}
    (h : Survives maxRows s t refreshed pruned) {entryId : String}
    (hfresh : ∀ e ∈ s.entries, e.entryId ≠ entryId) (now : ℚ) (entry : MemoryEntry)
    (sourcePath : String) :
    ∃ pruned', Survives maxRows s (autoRefresh maxRows W entryId now entry sourcePath t)
      (refreshed + 1) pruned' := by
  rw [MemoryDrift.autoRefresh]
  split
  · exact ⟨pruned, h.unchanged⟩
  · split
    · exact ⟨pruned, h.unchanged⟩
    · exact h.remember maxRows hfresh

variable (W) in
theorem Survives.refreshes (sourceMap : Dict String String) {ids : Nat → String}
    (hfresh : ∀ i, ∀ e ∈ s.entries, e.entryId ≠ ids i) (times : Nat → ℚ)
    (stale : List (MemoryEntry × Nat)) {refreshed : Nat} {pruned : List String}
    (h : Survives maxRows s t refreshed pruned) :
    ∃ pruned', Survives maxRows s (stale.foldl (refreshEntry maxRows W sourceMap ids times) t)
      (refreshed + stale.length) pruned' := by
  induction stale generalizing t refreshed pruned with
  | nil => exact ⟨pruned, h⟩
  | cons p stale ih =>
    have hnext : ∃ pruned', Survives maxRows s (refreshEntry maxRows W sourceMap ids times t p)
        (refreshed + 1) pruned' := by
      rw [refreshEntry]
      split
      · exact ⟨pruned, h.unchanged⟩
      · exact h.autoRefresh (hfresh p.2) (times p.2) p.1 _
    obtain ⟨pruned', hnext⟩ := hnext
    obtain ⟨pruned'', hlast⟩ := ih hnext
    refine ⟨pruned'', ?_⟩
    rwa [List.length_cons, show refreshed + (stale.length + 1) = refreshed + 1 + stale.length by
      omega]

variable (W) in
/-- A store below its cap loses fewer rows than were refreshed. -/
theorem exists_mem_refreshAll (sourceMap : Dict String String) {ids : Nat → String}
    (hfresh : ∀ i, ∀ e ∈ s.entries, e.entryId ≠ ids i) (times : Nat → ℚ)
    (hcap : s.entries.length < maxRows) {stale : List MemoryEntry} (hstale : stale ≠ [])
    (hstored : ∀ e ∈ stale, e ∈ s.entries) (hnodup : (stale.map (·.entryId)).Nodup) :
    ∃ entry ∈ stale, entry ∈ (refreshAll maxRows W sourceMap ids times stale s).entries := by
  obtain ⟨pruned, h⟩ := (Survives.start maxRows s).refreshes W sourceMap hfresh times
    stale.zipIdx
  rw [List.length_zipIdx, Nat.zero_add] at h
  have hpruned : pruned.length < stale.length := by
    rcases h.full with rfl | hfull
    · exact List.length_pos_iff.mpr hstale
    · have hcount := h.count
      omega
  by_contra hnone
  have hall : stale.map (·.entryId) ⊆ pruned := by
    intro id hid
    obtain ⟨e, he, rfl⟩ := List.mem_map.mp hid
    by_contra hout
    exact hnone ⟨e, he, h.still e (hstored e he) hout⟩
  have hle := (List.subperm_of_subset hnodup hall).length_le
  rw [List.length_map] at hle
  omega

end Refreshes

/-- Refreshing all that is stale leaves nothing stale exactly when nothing was. -/
theorem scan_after_refresh_iff {s : Store} {sourceMap : Dict String String}
    {ids : Nat → String} (times : Nat → ℚ) (hcap : s.entries.length < maxRows)
    (hfresh : ∀ i, ∀ e ∈ s.entries, e.entryId ≠ ids i) (hbefore : RecallsAll W s sourceMap)
    (hafter : RecallsAll W (refreshAll maxRows W sourceMap ids times
      (getStaleEntries W s sourceMap) s) sourceMap) :
    scanAllStale W (refreshAll maxRows W sourceMap ids times (getStaleEntries W s sourceMap) s)
      sourceMap = [] ↔ UpToDate W s sourceMap := by
  rw [scanAllStale_eq_nil_iff]
  constructor
  · intro hclean
    by_contra hdrift
    have hstale := (getStaleEntries_eq_nil_iff hbefore).not.mpr hdrift
    obtain ⟨entry, hentry, hstill⟩ := exists_mem_refreshAll W sourceMap hfresh times hcap
      hstale (fun e he => ((mem_getStaleEntries hbefore).mp he).1) (nodup_getStaleEntries hbefore)
    have hagain : entry ∈ getStaleEntries W (refreshAll maxRows W sourceMap ids times
        (getStaleEntries W s sourceMap) s) sourceMap :=
      (mem_getStaleEntries hafter).mpr ⟨hstill, ((mem_getStaleEntries hbefore).mp hentry).2⟩
    rw [hclean] at hagain
    cases hagain
  · intro hupToDate
    have hnone := (getStaleEntries_eq_nil_iff hbefore).mpr hupToDate
    rw [hnone]
    exact hnone

/-! ### A note that was edited -/

/-- `vault.md` was modified at 10 and says something else now. -/
def edited : World where
  mtime sourcePath := if sourcePath = "vault.md" then some 10 else none
  readText sourcePath := if sourcePath = "vault.md" then some "audited again" else none
  recalled s key := s.entries.filter fun entry => entry.key = key
  fingerprint key body := key ++ ":" ++ body

def notes : Store where
  entries := [fact "a" 1]
  fts := [(fact "a" 1).ftsRow]
  primaryKey := List.nodup_singleton _

def sources : Dict String String := Dict.empty.set "vault" "vault.md"

/-- The store after every stale note was refreshed at 20. -/
def refreshedNotes : Store :=
  refreshAll 5 edited sources (fun _ => "b") (fun _ => 20) (getStaleEntries edited notes sources)
    notes

theorem edited_recallsAll (s : Store) (sourceMap : Dict String String) :
    RecallsAll edited s sourceMap := by
  intro key sourcePath _
  simp only [entriesOf, edited, List.filter_filter, Bool.and_self, List.Perm.refl]

theorem scan_after_refresh_iff_edited :
    scanAllStale edited refreshedNotes sources ≠ [] ∧ ¬ UpToDate edited notes sources := by
  have hstale : scanAllStale edited refreshedNotes sources ≠ [] := by decide +kernel
  have hiff := scan_after_refresh_iff 5 edited (fun _ => 20) (by decide) (fun _ => by decide)
    (edited_recallsAll notes sources) (edited_recallsAll refreshedNotes sources)
  exact ⟨hstale, hiff.not.mp hstale⟩

/-- Below the cap, with the file readable and the clock past its modification time: the new
row is there, and the old row is stale as before. -/
theorem stale_after_refresh :
    notes.entries.length < 5 ∧ RecallsAll edited notes sources ∧
      RecallsAll edited refreshedNotes sources ∧
      refreshedNotes.entries.map (·.createdAt) = [1, 20] ∧
      (scanAllStale edited refreshedNotes sources).map (·.entryId) = ["a"] :=
  ⟨by decide, edited_recallsAll _ _, edited_recallsAll _ _, by decide +kernel,
    by decide +kernel⟩

end PiPlatform.Orchestrator.MemoryDrift
