import Mathlib.Algebra.Order.Ring.Rat
import Mathlib.Data.List.Sort
import PiPlatform.Library.Lists
import PiPlatform.Library.System

/-! The chain memory: a bounded table and its full-text index.

Every statement of `remember` is a step of its own, and any number of memories write to one
file, each under a lock that only it holds. Entries come newer and newer, so whatever is
deleted the table stays the newest part of what was inserted. Under-pruning cannot happen:
the last call to count sees everything (`bounded`). What can go wrong is that a count is
stale when the victims are picked, and that an entry is pruned before it is indexed;
`keeps_newest`: without these two, a memory at rest holds exactly the newest entries and
indexes exactly those. -/
namespace PiPlatform.Orchestrator.Memory

open Library

structure MemoryEntry where
  entryId : String
  key : String
  body : String
  chainId : Option String
  agentName : Option String
  riskScore : ℚ
  createdAt : ℚ
  bodyHash : String
  deriving DecidableEq

/-- A row of `memory_fts`. -/
structure FtsRow where
  entryId : String
  key : String
  body : String
  agentName : String

def MemoryEntry.ftsRow (entry : MemoryEntry) : FtsRow where
  entryId := entry.entryId
  key := entry.key
  body := entry.body
  agentName := entry.agentName.getD ""

/-! ### Statements -/

/-- `INSERT OR REPLACE INTO memory_entries` -/
def insertEntry (entry : MemoryEntry) (entries : List MemoryEntry) : List MemoryEntry :=
  (entries.filter fun e => e.entryId ≠ entry.entryId) ++ [entry]

/-- `SELECT entry_id FROM memory_entries ORDER BY created_at ASC LIMIT ?` -/
def oldest (excess : Nat) (entries : List MemoryEntry) : List String :=
  ((entries.insertionSort fun a b => a.createdAt ≤ b.createdAt).take excess).map (·.entryId)

/-- `DELETE FROM memory_entries WHERE entry_id IN (..)` -/
def deleteEntries (ids : List String) (entries : List MemoryEntry) : List MemoryEntry :=
  entries.filter fun e => e.entryId ∉ ids

/-- `DELETE FROM memory_fts WHERE entry_id IN (..)` -/
def deleteRows (ids : List String) (fts : List FtsRow) : List FtsRow :=
  fts.filter fun row => row.entryId ∉ ids

/-! ### Calls -/

/-- What a call of `remember` is about to do, once it has inserted its entry. -/
inductive Call where
  | indexing (entry : MemoryEntry)
  | counting
  | selecting (excess : Nat)
  | deleting (ids : List String)
  | unindexing (ids : List String)
  | returned
  deriving DecidableEq

structure State where
  entries : List MemoryEntry
  fts : List FtsRow
  calls : List Call

variable (maxRows : Nat)

/-- The next statement of a call. -/
def Call.next (s : State) : Call → State × Call
  | indexing entry => ({ s with fts := s.fts ++ [entry.ftsRow] }, counting)
  | counting =>
    (s, if s.entries.length ≤ maxRows then returned else selecting (s.entries.length - maxRows))
  | selecting excess =>
    let ids := oldest excess s.entries
    (s, if ids = [] then returned else deleting ids)
  | deleting ids => ({ s with entries := deleteEntries ids s.entries }, unindexing ids)
  | unindexing ids => ({ s with fts := deleteRows ids s.fts }, returned)
  | returned => (s, returned)

inductive Action where
  /-- `remember` inserts its entry. -/
  | remember (entry : MemoryEntry)
  | advance (call : Nat)

def State.advance (s : State) (c : Nat) : State :=
  match s.calls[c]? with
  | none => s
  | some call =>
    { (call.next maxRows s).1 with calls := s.calls.set c (call.next maxRows s).2 }

def step (s : State) : Action → State
  | .remember entry =>
    { s with
      entries := insertEntry entry s.entries
      calls := s.calls ++ [.indexing entry] }
  | .advance c => s.advance maxRows c

/-- The memory, with every entry ever inserted beside it. -/
def memory : System (State × List MemoryEntry) Action where
  initial := (⟨[], [], []⟩, [])
  step p a := (step maxRows p.1 a, match a with
    | .remember entry => p.2 ++ [entry]
    | .advance _ => p.2)

/-- A new entry has a new id and is newer than all before. -/
def Newer (inserted : List MemoryEntry) (entry : MemoryEntry) : Prop :=
  ∀ e ∈ inserted, e.entryId ≠ entry.entryId ∧ e.createdAt < entry.createdAt

/-- The ids whose rows the call has still to delete from the index. -/
def Call.unindexes : Call → List String
  | deleting ids => ids
  | unindexing ids => ids
  | _ => []

/-- Entries come newer and newer; an entry is indexed while it is stored or while its row is
still to be deleted; and victims are picked only for what is over the cap then. -/
def Careful (p : State × List MemoryEntry) : Action → Prop
  | .remember entry => Newer p.2 entry
  | .advance c =>
    match p.1.calls[c]? with
    | some (.indexing entry) =>
      entry ∈ p.1.entries ∨ ∃ call ∈ p.1.calls, entry.entryId ∈ call.unindexes
    | some (.selecting excess) => excess ≤ p.1.entries.length - maxRows
    | _ => True

instance (p : State × List MemoryEntry) (a : Action) : Decidable (Careful maxRows p a) := by
  unfold Careful Newer
  split
  · infer_instance
  · split <;> infer_instance

/-- The `min(n, max_rows)` entries inserted last. -/
def newest (inserted : List MemoryEntry) : List MemoryEntry :=
  inserted.drop (inserted.length - maxRows)

/-- At rest: the newest entries are stored, and the index has a row for each and no other. -/
def AtRest (p : State × List MemoryEntry) : Prop :=
  (∀ call ∈ p.1.calls, call = .returned) →
    p.1.entries = newest maxRows p.2 ∧
      (p.1.fts.map (·.entryId)).Perm (p.1.entries.map (·.entryId))

/-! ### The table -/

/-- The ids strike out what is still stored of the first `c` entries, which are over the cap. -/
def Cuts (p : State × List MemoryEntry) (ids : List String) (c : Nat) : Prop :=
  c ≤ p.2.length - maxRows ∧ (∀ x ∈ p.2.take c, x ∈ p.1.entries → x.entryId ∈ ids) ∧
    ∀ id ∈ ids, ∃ x ∈ p.2.take c, x.entryId = id

/-- What the call is still to do brings the table under the cap. -/
def Call.covers (p : State × List MemoryEntry) : Call → Prop
  | indexing _ => True
  | counting => True
  | selecting excess => p.1.entries.length ≤ maxRows + excess
  | deleting ids => ∀ x ∈ p.2.take (p.2.length - maxRows), x ∈ p.1.entries → x.entryId ∈ ids
  | _ => False

/-- The table is the newest part of what was inserted, with all that is under the cap; the
ids that are about to go are its oldest; and somebody sees to what is over the cap. -/
structure Bounded (p : State × List MemoryEntry) : Prop where
  nodup : (p.2.map (·.entryId)).Nodup
  newer : p.2.Pairwise fun a b => a.createdAt < b.createdAt
  stored : ∃ k ≤ p.2.length - maxRows, p.1.entries = p.2.drop k
  cuts : ∀ ids, .deleting ids ∈ p.1.calls → ∃ c, Cuts maxRows p ids c
  covered : p.1.entries.length ≤ maxRows ∨ ∃ call ∈ p.1.calls, call.covers maxRows p

section Table
variable {maxRows} {s : State} {inserted : List MemoryEntry}

theorem oldest_eq {entries : List MemoryEntry} (excess : Nat)
    (h : entries.Pairwise fun a b => a.createdAt < b.createdAt) :
    oldest excess entries = (entries.take excess).map (·.entryId) := by
  rw [oldest, List.Pairwise.insertionSort_eq (h.imp le_of_lt)]

theorem insertEntry_eq {entry : MemoryEntry} {entries : List MemoryEntry}
    (h : ∀ e ∈ entries, e.entryId ≠ entry.entryId) :
    insertEntry entry entries = entries ++ [entry] := by
  rw [insertEntry, List.filter_eq_self.mpr fun e he => decide_eq_true (h e he)]

theorem Bounded.mem (h : Bounded maxRows (s, inserted)) {x : MemoryEntry} (hx : x ∈ s.entries) :
    x ∈ inserted := by
  obtain ⟨k, -, hk⟩ := h.stored
  exact List.mem_of_mem_drop (hk ▸ hx : x ∈ inserted.drop k)

theorem Bounded.remember (h : Bounded maxRows (s, inserted)) {entry : MemoryEntry}
    (hnewer : Newer inserted entry) :
    Bounded maxRows (step maxRows s (.remember entry), inserted ++ [entry]) := by
  have hentries : (step maxRows s (.remember entry)).entries = s.entries ++ [entry] :=
    insertEntry_eq fun e he => (hnewer e (h.mem he)).1
  have hlength : inserted.length - maxRows ≤ (inserted ++ [entry]).length - maxRows := by
    simp only [List.length_append]
    omega
  refine ⟨?_, ?_, ?_, fun ids hids => ?_, .inr ⟨.indexing entry, by simp [step], trivial⟩⟩
  · rw [List.map_append]
    refine h.nodup.append (List.nodup_singleton _) ?_
    simpa using fun e he heq => (hnewer e he).1 heq
  · refine List.pairwise_append.mpr ⟨h.newer, List.pairwise_singleton .., ?_⟩
    simpa using fun e he => (hnewer e he).2
  · obtain ⟨k, hk, heq⟩ := h.stored
    refine ⟨k, hk.trans hlength, ?_⟩
    rw [hentries, heq, List.drop_append_of_le_length (hk.trans (Nat.sub_le _ _))]
  · have hold : .deleting ids ∈ s.calls := by simpa [step] using hids
    obtain ⟨c, hc, hin, hout⟩ := h.cuts ids hold
    have htake : (inserted ++ [entry]).take c = inserted.take c :=
      List.take_append_of_le_length (hc.trans (Nat.sub_le ..))
    refine ⟨c, hc.trans hlength, ?_, by simpa only [htake] using hout⟩
    intro x hx hstored
    simp only [htake, hentries, List.mem_append, List.mem_singleton] at hx hstored
    refine hin x hx (hstored.resolve_right ?_)
    rintro rfl
    exact (hnewer x (List.mem_of_mem_take hx)).1 rfl

/-- A call goes on and leaves the table as it is. -/
theorem Bounded.goOn (h : Bounded maxRows (s, inserted)) {c : Nat} {call call' : Call}
    (hc : s.calls[c]? = some call) (fts : List FtsRow)
    (hcuts : ∀ ids, call' = .deleting ids → ∃ c, Cuts maxRows (s, inserted) ids c)
    (hcovers : call.covers maxRows (s, inserted) →
      s.entries.length ≤ maxRows ∨ call'.covers maxRows (s, inserted)) :
    Bounded maxRows ({ s with fts := fts, calls := s.calls.set c call' }, inserted) where
  nodup := h.nodup
  newer := h.newer
  stored := h.stored
  cuts ids hids := by
    rcases List.mem_or_eq_of_mem_set hids with hids | heq
    · exact h.cuts ids hids
    · exact hcuts ids heq.symm
  covered := by
    rcases h.covered with hunder | ⟨other, hother, hcovered⟩
    · exact .inl hunder
    · by_cases hne : other = call
      · subst hne
        exact (hcovers hcovered).imp_right fun h => ⟨call', mem_set_self hc call', h⟩
      · exact .inr ⟨other, mem_set_of_ne hc hother hne call', hcovered⟩

theorem Bounded.sorted (h : Bounded maxRows (s, inserted)) :
    s.entries.Pairwise fun a b => a.createdAt < b.createdAt := by
  obtain ⟨k, -, heq⟩ := h.stored
  exact (heq : s.entries = inserted.drop k) ▸ h.newer.sublist (List.drop_sublist k inserted)

theorem Bounded.mem_oldest (h : Bounded maxRows (s, inserted)) {k excess : Nat}
    (heq : s.entries = inserted.drop k) {x : MemoryEntry} (hx : x ∈ inserted.take (k + excess))
    (hstored : x ∈ s.entries) : x.entryId ∈ oldest excess s.entries := by
  rw [oldest_eq excess h.sorted]
  refine List.mem_map_of_mem ?_
  rw [List.take_add] at hx
  rcases List.mem_append.mp hx with hfront | hx
  · have hinserted : (inserted.take k ++ inserted.drop k).Nodup := by
      rw [List.take_append_drop]
      exact h.nodup.of_map
    exact absurd (heq ▸ hstored) (List.disjoint_of_nodup_append hinserted hfront)
  · rwa [heq]

/-- The victims picked are the oldest that are stored. -/
theorem Bounded.cuts_oldest (h : Bounded maxRows (s, inserted)) {excess : Nat}
    (hexcess : excess ≤ s.entries.length - maxRows) :
    ∃ c, Cuts maxRows (s, inserted) (oldest excess s.entries) c := by
  obtain ⟨k, hk, heq⟩ := h.stored
  simp only at heq hk
  have hlength : s.entries.length = inserted.length - k := by rw [heq, List.length_drop]
  have htake : s.entries.take excess = (inserted.take (k + excess)).drop k := by
    rw [heq, List.take_drop]
  refine ⟨k + excess, by simp only; omega, fun x hx => h.mem_oldest heq hx, fun id hid => ?_⟩
  rw [oldest_eq excess h.sorted, htake] at hid
  obtain ⟨x, hx, rfl⟩ := List.mem_map.mp hid
  exact ⟨x, List.mem_of_mem_drop hx, rfl⟩

/-- The victims picked cover what was over the cap when they were counted. -/
theorem Bounded.covers_oldest (h : Bounded maxRows (s, inserted)) {excess : Nat}
    (hexcess : s.entries.length ≤ maxRows + excess) :
    (Call.deleting (oldest excess s.entries)).covers maxRows (s, inserted) := by
  intro x hx hstored
  obtain ⟨k, hk, heq⟩ := h.stored
  simp only at heq hx
  have hlength : s.entries.length = inserted.length - k := by rw [heq, List.length_drop]
  have hmore : inserted.length - maxRows ≤ k + excess := by omega
  exact h.mem_oldest heq (List.take_subset_take_left inserted hmore hx) hstored

/-- Victims go, and the table stays the newest part. -/
theorem Bounded.delete (h : Bounded maxRows (s, inserted)) {c : Nat} {ids : List String}
    (hc : s.calls[c]? = some (.deleting ids)) :
    Bounded maxRows ({ s with
      entries := deleteEntries ids s.entries
      calls := s.calls.set c (.unindexing ids) }, inserted) := by
  obtain ⟨k, hk, heq⟩ := h.stored
  obtain ⟨cut, hcut, hin, hout⟩ := h.cuts ids (List.mem_of_getElem? hc)
  simp only at heq hk hcut hin hout
  have hdeleted : deleteEntries ids s.entries = inserted.drop (max k cut) := by
    rw [deleteEntries, heq]
    exact filter_drop_cut h.nodup (fun x hx hstored => hin x hx (heq ▸ hstored)) hout
  have hsubset : ∀ x ∈ deleteEntries ids s.entries, x ∈ s.entries := fun x hx =>
    (List.mem_filter.mp hx).1
  refine ⟨h.nodup, h.newer, ⟨max k cut, max_le hk hcut, hdeleted⟩, fun ids' hids' => ?_, ?_⟩
  · have hold : .deleting ids' ∈ s.calls :=
      (List.mem_or_eq_of_mem_set hids').resolve_right nofun
    obtain ⟨cut', hcut', hin', hout'⟩ := h.cuts ids' hold
    exact ⟨cut', hcut', fun x hx hstored => hin' x hx (hsubset x hstored), hout'⟩
  · rcases h.covered with hunder | ⟨other, hother, hcovers⟩
    · exact .inl ((List.length_filter_le ..).trans hunder)
    · by_cases hne : other = .deleting ids
      · -- what this call was to cover is gone
        subst hne
        left
        simp only [hdeleted, List.length_drop]
        have hgone : ∀ x ∈ inserted.take (inserted.length - maxRows),
            x ∉ deleteEntries ids s.entries := fun x hx hstored => by
          have hid := hcovers x hx (hsubset x hstored)
          simpa [hid] using (List.mem_filter.mp hstored).2
        by_contra hover
        have hlt : max k cut < inserted.length - maxRows := by omega
        have hbound : max k cut < inserted.length := by omega
        have hx : inserted[max k cut] ∈ inserted.take (inserted.length - maxRows) :=
          List.mem_take_iff_getElem.mpr ⟨max k cut, by omega, rfl⟩
        refine hgone _ hx ?_
        rw [hdeleted]
        exact List.mem_drop_iff_getElem.mpr ⟨0, by omega, rfl⟩
      · refine .inr ⟨other, mem_set_of_ne hc hother hne _, ?_⟩
        cases other with
        | indexing entry | counting => trivial
        | selecting excess => exact (List.length_filter_le ..).trans hcovers
        | deleting ids' => exact fun x hx hstored => hcovers x hx (hsubset x hstored)
        | unindexing ids' | returned => exact hcovers

theorem Bounded.advance (h : Bounded maxRows (s, inserted)) (c : Nat)
    (hcareful : Careful maxRows (s, inserted) (.advance c)) :
    Bounded maxRows (s.advance maxRows c, inserted) := by
  rw [State.advance]
  simp only [Careful] at hcareful
  cases hc : s.calls[c]? with
  | none => exact h
  | some call =>
    rw [hc] at hcareful
    cases call with
    | indexing entry => exact h.goOn hc _ nofun fun _ => .inr trivial
    | counting =>
      refine h.goOn hc s.fts (fun ids heq => ?_) fun _ => ?_
      · simp only [Call.next] at heq
        split at heq <;> cases heq
      · by_cases hunder : s.entries.length ≤ maxRows
        · exact .inl hunder
        · simp only [Call.next, if_neg hunder, Call.covers]
          omega
    | selecting excess =>
      refine h.goOn hc s.fts (fun ids heq => ?_) fun hcovers => ?_
      · obtain ⟨-, rfl⟩ : oldest excess s.entries ≠ [] ∧ oldest excess s.entries = ids := by
          simp only [Call.next] at heq
          split at heq
          · cases heq
          · next hids => exact ⟨hids, Call.deleting.inj heq⟩
        exact h.cuts_oldest hcareful
      · simp only [Call.next]
        split
        · next hids =>
          rw [oldest_eq excess h.sorted, List.map_eq_nil_iff, List.take_eq_nil_iff] at hids
          rcases hids with rfl | hnone
          · exact .inl hcovers
          · exact .inl (by simp [hnone])
        · exact .inr (h.covers_oldest hcovers)
    | deleting ids => exact h.delete hc
    | unindexing ids => exact h.goOn hc _ nofun nofun
    | returned => exact h.goOn hc s.fts nofun nofun

end Table

/-! ### The index -/

def rowIds (s : State) : List String := s.fts.map (·.entryId)

/-- Every row of the index belongs to a stored entry or is still to be deleted, and every
stored entry has a row or is about to get one. -/
structure Indexed (p : State × List MemoryEntry) : Prop where
  nodup : (rowIds p.1).Nodup
  owned : ∀ id ∈ rowIds p.1,
    (∃ x ∈ p.1.entries, x.entryId = id) ∨ ∃ call ∈ p.1.calls, id ∈ call.unindexes
  present : ∀ x ∈ p.1.entries, x.entryId ∈ rowIds p.1 ∨ .indexing x ∈ p.1.calls
  waiting : ∀ x, .indexing x ∈ p.1.calls → x ∈ p.2 ∧ x.entryId ∉ rowIds p.1
  once : ∀ (c d : Nat) (x y : MemoryEntry), p.1.calls[c]? = some (.indexing x) →
    p.1.calls[d]? = some (.indexing y) → x.entryId = y.entryId → c = d
  gone : ∀ ids, .unindexing ids ∈ p.1.calls → ∀ x ∈ p.1.entries, x.entryId ∉ ids
  known : ∀ call ∈ p.1.calls, ∀ id ∈ call.unindexes, ∃ x ∈ p.2, x.entryId = id

section Index
variable {maxRows} {s : State} {inserted : List MemoryEntry}

theorem Indexed.row_known (h : Indexed (s, inserted)) (hstored : ∀ x ∈ s.entries, x ∈ inserted)
    {id : String} (hid : id ∈ rowIds s) : ∃ x ∈ inserted, x.entryId = id := by
  rcases h.owned id hid with ⟨x, hx, rfl⟩ | ⟨call, hcall, hid⟩
  · exact ⟨x, hstored x hx, rfl⟩
  · exact h.known call hcall id hid

theorem Indexed.remember (h : Indexed (s, inserted)) (hbounded : Bounded maxRows (s, inserted))
    {entry : MemoryEntry} (hnewer : Newer inserted entry) :
    Indexed (step maxRows s (.remember entry), inserted ++ [entry]) := by
  have hentries : (step maxRows s (.remember entry)).entries = s.entries ++ [entry] :=
    insertEntry_eq fun e he => (hnewer e (hbounded.mem he)).1
  have hfresh : ∀ id, (∃ x ∈ inserted, x.entryId = id) → entry.entryId ≠ id := by
    rintro id ⟨x, hx, rfl⟩ heq
    exact (hnewer x hx).1 heq.symm
  have hcalls : (step maxRows s (.remember entry)).calls = s.calls ++ [.indexing entry] := rfl
  refine ⟨h.nodup, fun id hid => ?_, fun x hx => ?_, fun x hx => ?_, fun c d x y hc hd heq => ?_,
    fun ids hids x hx => ?_, fun call hcall id hid => ?_⟩
  · refine (h.owned id hid).imp (fun ⟨x, hx, heq⟩ => ⟨x, ?_, heq⟩) fun ⟨call, hcall, hid⟩ =>
      ⟨call, List.mem_append_left _ hcall, hid⟩
    exact hentries ▸ List.mem_append_left _ hx
  · rw [hentries] at hx
    rw [hcalls]
    rcases List.mem_append.mp hx with hx | hx
    · exact (h.present x hx).imp_right (List.mem_append_left _)
    · rw [List.mem_singleton.mp hx]
      exact .inr (List.mem_append_right _ (List.mem_singleton_self _))
  · rcases List.mem_append.mp (hcalls ▸ hx) with hx | hx
    · exact ⟨List.mem_append_left _ (h.waiting x hx).1, (h.waiting x hx).2⟩
    · obtain rfl : x = entry := Call.indexing.inj (List.mem_singleton.mp hx)
      refine ⟨List.mem_append_right _ (List.mem_singleton_self _), fun hid => ?_⟩
      exact hfresh _ (h.row_known (fun y => hbounded.mem) hid) rfl
  · have hlast : ∀ {c : Nat} {x : MemoryEntry},
        (s.calls ++ [Call.indexing entry])[c]? = some (.indexing x) →
          s.calls[c]? = some (.indexing x) ∨ c = s.calls.length ∧ x = entry := by
      intro c x hc
      rcases lt_trichotomy c s.calls.length with hlt | heq | hgt
      · exact .inl (by rwa [List.getElem?_append_left hlt] at hc)
      · exact .inr ⟨heq, by simpa [heq, eq_comm] using hc⟩
      · rw [List.getElem?_eq_none (by simp; omega)] at hc
        cases hc
    rcases hlast hc with hx | ⟨rfl, rfl⟩ <;> rcases hlast hd with hy | ⟨rfl, rfl⟩
    · exact h.once c d x y hx hy heq
    · exact absurd heq.symm (hfresh _ ⟨x, (h.waiting x (List.mem_of_getElem? hx)).1, rfl⟩)
    · exact absurd heq (hfresh _ ⟨y, (h.waiting y (List.mem_of_getElem? hy)).1, rfl⟩)
    · rfl
  · have hold : .unindexing ids ∈ s.calls := by simpa [hcalls] using hids
    rw [hentries] at hx
    rcases List.mem_append.mp hx with hx | hx
    · exact h.gone ids hold x hx
    · rw [List.mem_singleton.mp hx]
      exact fun hid => hfresh _ (h.known _ hold _ hid) rfl
  · rcases List.mem_append.mp (hcalls ▸ hcall) with hcall | hcall
    · obtain ⟨x, hx, heq⟩ := h.known call hcall id hid
      exact ⟨x, List.mem_append_left _ hx, heq⟩
    · rw [List.mem_singleton.mp hcall] at hid
      cases hid

/-- What a call is replaced by, seen from the calls that index. -/
theorem indexing_of_set {c d : Nat} {call call' : Call} (hc : s.calls[c]? = some call)
    (hindexing : ∀ x, call' ≠ .indexing x) {x : MemoryEntry}
    (hd : (s.calls.set c call')[d]? = some (.indexing x)) :
    c ≠ d ∧ s.calls[d]? = some (.indexing x) := by
  have hcd : c ≠ d := by
    rintro rfl
    rw [List.getElem?_set_self (List.getElem?_eq_some_iff.mp hc).1] at hd
    exact hindexing x (Option.some.inj hd)
  exact ⟨hcd, by rwa [List.getElem?_set_ne hcd] at hd⟩

/-- A call goes on without indexing; what it deletes it is still to delete from the index. -/
theorem Indexed.goOn (h : Indexed (s, inserted)) {c : Nat} {call call' : Call}
    (hc : s.calls[c]? = some call) {entries : List MemoryEntry}
    (hindexing : ∀ x, call ≠ .indexing x) (hindexing' : ∀ x, call' ≠ .indexing x)
    (hsubset : ∀ x ∈ entries, x ∈ s.entries)
    (hdeleted : ∀ x ∈ s.entries, x ∈ entries ∨ x.entryId ∈ call'.unindexes)
    (hgone : ∀ ids, call' = .unindexing ids → ∀ x ∈ entries, x.entryId ∉ ids)
    (hunindexes : ∀ id ∈ call.unindexes, id ∈ call'.unindexes)
    (hknown : ∀ id ∈ call'.unindexes, ∃ x ∈ inserted, x.entryId = id) :
    Indexed ({ s with entries := entries, calls := s.calls.set c call' }, inserted) where
  nodup := h.nodup
  owned id hid := by
    rcases h.owned id hid with ⟨x, hx, rfl⟩ | ⟨other, hother, hid⟩
    · exact (hdeleted x hx).imp (fun hx => ⟨x, hx, rfl⟩) fun hid =>
        ⟨call', mem_set_self hc call', hid⟩
    · right
      by_cases hne : other = call
      · exact ⟨call', mem_set_self hc call', hunindexes id (hne ▸ hid)⟩
      · exact ⟨other, mem_set_of_ne hc hother hne call', hid⟩
  present x hx := (h.present x (hsubset x hx)).imp_right fun hmem =>
    mem_set_of_ne hc hmem (hindexing x).symm call'
  waiting x hx := h.waiting x
    ((List.mem_or_eq_of_mem_set hx).resolve_right fun heq => hindexing' x heq.symm)
  once d e x y hd he heq := h.once d e x y (indexing_of_set hc hindexing' hd).2
    (indexing_of_set hc hindexing' he).2 heq
  gone ids hids x hx := by
    rcases List.mem_or_eq_of_mem_set hids with hids | heq
    · exact h.gone ids hids x (hsubset x hx)
    · exact hgone ids heq.symm x hx
  known other hother := by
    rcases List.mem_or_eq_of_mem_set hother with hother | rfl
    · exact h.known other hother
    · exact hknown

/-- An entry that is stored, or whose row is still to be deleted, gets its row. -/
theorem Indexed.index (h : Indexed (s, inserted)) {c : Nat} {entry : MemoryEntry}
    (hc : s.calls[c]? = some (.indexing entry))
    (howned : entry ∈ s.entries ∨ ∃ call ∈ s.calls, entry.entryId ∈ call.unindexes) :
    Indexed ({ s with
      fts := s.fts ++ [entry.ftsRow]
      calls := s.calls.set c .counting }, inserted) := by
  have hcounting : ∀ x, Call.counting ≠ .indexing x := nofun
  obtain ⟨-, hnew⟩ := h.waiting entry (List.mem_of_getElem? hc)
  have hrows : rowIds { s with fts := s.fts ++ [entry.ftsRow], calls := s.calls.set c .counting } =
      rowIds s ++ [entry.entryId] := List.map_append
  have hstill : ∀ call ∈ s.calls, ∀ id ∈ call.unindexes,
      ∃ other ∈ s.calls.set c .counting, id ∈ other.unindexes := by
    intro call hcall id hid
    refine ⟨call, mem_set_of_ne hc hcall ?_ _, hid⟩
    rintro rfl
    cases hid
  refine ⟨?_, fun id hid => ?_, fun x hx => ?_, fun x hx => ?_, fun d e x y hd he heq => ?_,
    fun ids hids => ?_, fun call hcall => ?_⟩
  · exact hrows ▸ nodup_snoc h.nodup hnew
  · rcases List.mem_append.mp (hrows ▸ hid) with hid | hid
    · exact (h.owned id hid).imp_right fun ⟨call, hcall, hid⟩ => hstill call hcall id hid
    · rw [List.mem_singleton.mp hid]
      exact howned.imp (fun hx => ⟨entry, hx, rfl⟩) fun ⟨call, hcall, hid⟩ =>
        hstill call hcall _ hid
  · rw [hrows]
    by_cases hx' : x = entry
    · exact .inl (hx' ▸ List.mem_append_right _ (List.mem_singleton_self _))
    · refine (h.present x hx).imp (List.mem_append_left _) fun hmem => ?_
      exact mem_set_of_ne hc hmem (fun heq => hx' (Call.indexing.inj heq)) _
  · obtain ⟨d, hd⟩ := List.mem_iff_getElem?.mp hx
    obtain ⟨hcd, hold⟩ := indexing_of_set hc hcounting hd
    refine ⟨(h.waiting x (List.mem_of_getElem? hold)).1, fun hid => ?_⟩
    rcases List.mem_append.mp (hrows ▸ hid) with hid | hid
    · exact (h.waiting x (List.mem_of_getElem? hold)).2 hid
    · exact hcd (h.once c d entry x hc hold (List.mem_singleton.mp hid).symm)
  · exact h.once d e x y (indexing_of_set hc hcounting hd).2 (indexing_of_set hc hcounting he).2 heq
  · exact h.gone ids ((List.mem_or_eq_of_mem_set hids).resolve_right nofun)
  · rcases List.mem_or_eq_of_mem_set hcall with hcall | rfl
    · exact h.known call hcall
    · exact nofun

/-- The rows of what was deleted go. -/
theorem Indexed.unindex (h : Indexed (s, inserted)) {c : Nat} {ids : List String}
    (hc : s.calls[c]? = some (.unindexing ids)) :
    Indexed ({ s with fts := deleteRows ids s.fts, calls := s.calls.set c .returned },
      inserted) := by
  have hreturned : ∀ x, Call.returned ≠ .indexing x := nofun
  have hrows : ∀ id, id ∈ (deleteRows ids s.fts).map (·.entryId) ↔ id ∈ rowIds s ∧ id ∉ ids := by
    intro id
    simp only [rowIds, deleteRows, List.mem_map, List.mem_filter, decide_eq_true_eq]
    exact ⟨fun ⟨row, ⟨hrow, hnot⟩, heq⟩ => ⟨⟨row, hrow, heq⟩, heq ▸ hnot⟩,
      fun ⟨⟨row, hrow, heq⟩, hnot⟩ => ⟨row, ⟨hrow, heq ▸ hnot⟩, heq⟩⟩
  refine ⟨h.nodup.sublist (List.filter_sublist.map _), fun id hid => ?_, fun x hx => ?_,
    fun x hx => ?_, fun d e x y hd he heq => ?_, fun ids' hids' => ?_, fun call hcall => ?_⟩
  · obtain ⟨hid, hnot⟩ := (hrows id).mp hid
    refine (h.owned id hid).imp_right fun ⟨call, hcall, hunindexes⟩ => ?_
    refine ⟨call, mem_set_of_ne hc hcall ?_ _, hunindexes⟩
    rintro rfl
    exact hnot hunindexes
  · have hnot := h.gone ids (List.mem_of_getElem? hc) x hx
    have hother : Call.indexing x ≠ .unindexing ids := nofun
    exact (h.present x hx).imp (fun hid => (hrows _).mpr ⟨hid, hnot⟩) fun hmem =>
      mem_set_of_ne hc hmem hother _
  · obtain ⟨d, hd⟩ := List.mem_iff_getElem?.mp hx
    have hold := List.mem_of_getElem? (indexing_of_set hc hreturned hd).2
    exact ⟨(h.waiting x hold).1, fun hid => (h.waiting x hold).2 ((hrows _).mp hid).1⟩
  · exact h.once d e x y (indexing_of_set hc hreturned hd).2 (indexing_of_set hc hreturned he).2 heq
  · exact h.gone ids' ((List.mem_or_eq_of_mem_set hids').resolve_right nofun)
  · rcases List.mem_or_eq_of_mem_set hcall with hcall | rfl
    · exact h.known call hcall
    · exact nofun

theorem Indexed.advance (h : Indexed (s, inserted)) (hbounded : Bounded maxRows (s, inserted))
    (c : Nat) (hcareful : Careful maxRows (s, inserted) (.advance c)) :
    Indexed (s.advance maxRows c, inserted) := by
  rw [State.advance]
  simp only [Careful] at hcareful
  cases hc : s.calls[c]? with
  | none => exact h
  | some call =>
    rw [hc] at hcareful
    have hknown := h.known call (List.mem_of_getElem? hc)
    cases call with
    | indexing entry => exact h.index hc hcareful
    | counting =>
      simp only [Call.next]
      split <;> exact h.goOn hc nofun nofun (fun _ => id) (fun _ => .inl) nofun nofun nofun
    | selecting excess =>
      simp only [Call.next]
      split
      · exact h.goOn hc nofun nofun (fun _ => id) (fun _ => .inl) nofun nofun nofun
      · refine h.goOn hc nofun nofun (fun _ => id) (fun _ => .inl) nofun nofun fun id hid => ?_
        obtain ⟨cut, -, -, hout⟩ := hbounded.cuts_oldest hcareful
        obtain ⟨x, hx, heq⟩ := hout id hid
        exact ⟨x, List.mem_of_mem_take hx, heq⟩
    | deleting ids =>
      refine h.goOn hc nofun nofun (fun x hx => (List.mem_filter.mp hx).1) (fun x hx => ?_)
        (fun ids' heq x hx => ?_) (fun _ => id) hknown
      · by_cases hid : x.entryId ∈ ids
        · exact .inr hid
        · exact .inl (List.mem_filter.mpr ⟨hx, decide_eq_true hid⟩)
      · obtain rfl := Call.unindexing.inj heq
        exact of_decide_eq_true (List.mem_filter.mp hx).2
    | unindexing ids => exact h.unindex hc
    | returned => exact h.goOn hc nofun nofun (fun _ => id) (fun _ => .inl) nofun nofun nofun

end Index

/-! ### At rest -/

theorem memory_step (p : State × List MemoryEntry) (a : Action) (hcareful : Careful maxRows p a)
    (h : Bounded maxRows p ∧ Indexed p) :
    Bounded maxRows ((memory maxRows).step p a) ∧ Indexed ((memory maxRows).step p a) := by
  obtain ⟨s, inserted⟩ := p
  cases a with
  | remember entry => exact ⟨h.1.remember hcareful, h.2.remember h.1 hcareful⟩
  | advance c => exact ⟨h.1.advance c hcareful, h.2.advance h.1 c hcareful⟩

theorem atRest_of_invariants {p : State × List MemoryEntry} (hbounded : Bounded maxRows p)
    (hindexed : Indexed p) : AtRest maxRows p := by
  intro hreturned
  have hover : p.1.entries.length ≤ maxRows := by
    refine hbounded.covered.resolve_right ?_
    rintro ⟨call, hcall, hcovers⟩
    rw [hreturned call hcall] at hcovers
    exact hcovers
  obtain ⟨k, hk, heq⟩ := hbounded.stored
  have hstored : p.1.entries = newest maxRows p.2 := by
    rw [heq, List.length_drop] at hover
    rcases le_total (p.2.length - maxRows) k with hle | hle
    · rw [heq, newest, le_antisymm hk hle]
    · rw [heq, newest, show k = p.2.length - maxRows by omega]
  refine ⟨hstored, ?_⟩
  have hids : (p.1.entries.map (·.entryId)).Nodup := by
    rw [heq]
    exact hbounded.nodup.sublist ((List.drop_sublist k p.2).map _)
  refine (List.perm_ext_iff_of_nodup hindexed.nodup hids).mpr fun id => ?_
  constructor
  · intro hid
    rcases hindexed.owned id hid with ⟨x, hx, rfl⟩ | ⟨call, hcall, hunindexes⟩
    · exact List.mem_map_of_mem hx
    · rw [hreturned call hcall] at hunindexes
      cases hunindexes
  · intro hid
    obtain ⟨x, hx, rfl⟩ := List.mem_map.mp hid
    exact (hindexed.present x hx).resolve_right fun hmem => nomatch hreturned _ hmem

theorem memory_initial :
    Bounded maxRows (memory maxRows).initial ∧ Indexed (memory maxRows).initial := by
  constructor
  · exact ⟨List.nodup_nil, .nil, ⟨0, Nat.zero_le _, rfl⟩, fun _ h => (by cases h),
      .inl (Nat.zero_le _)⟩
  · exact ⟨List.nodup_nil, fun _ h => (by cases h), fun _ h => (by cases h),
      fun _ h => (by cases h), fun _ _ _ _ h => (by cases h), fun _ h => (by cases h),
      fun _ h => (by cases h)⟩

/-- In a run whose steps all meet the condition, a memory at rest holds exactly the newest
entries and indexes each of them once. -/
theorem keeps_newest (acts : List Action) (h : (memory maxRows).Admits (Careful maxRows) acts) :
    (memory maxRows).Always (AtRest maxRows) acts :=
  System.always_under _ (Careful maxRows) (fun p => Bounded maxRows p ∧ Indexed p) _
    (memory_initial maxRows) (memory_step maxRows)
    (fun _ h => atRest_of_invariants maxRows h.1 h.2) acts h

/-! ### Two memories on one file -/

def fact (entryId : String) (createdAt : ℚ) : MemoryEntry where
  entryId := entryId
  key := "vault"
  body := "audited"
  chainId := none
  agentName := none
  riskScore := 0
  createdAt := createdAt
  bodyHash := ""

/-- One call after the other. -/
theorem keeps_newest_in_turn :
    (memory 1).Always (AtRest 1)
      [.remember (fact "a" 1), .advance 0, .advance 0, .remember (fact "b" 2), .advance 1,
        .advance 1, .advance 1, .advance 1, .advance 1] := by
  exact keeps_newest 1 _ (System.admits_of_checks _ (by decide +kernel))

/-- Both count two entries before either prunes, and both prune one. -/
theorem both_pruned :
    ¬ AtRest 1 ((memory 1).after
      [.remember (fact "a" 1), .remember (fact "b" 2), .advance 0, .advance 1, .advance 0,
        .advance 1, .advance 0, .advance 0, .advance 0, .advance 1, .advance 1, .advance 1]) := by
  intro h
  have hentries := (h (by decide +kernel)).1
  exact absurd hentries (by decide +kernel)

end PiPlatform.Orchestrator.Memory
