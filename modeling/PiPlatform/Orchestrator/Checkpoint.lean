import Mathlib.Algebra.Order.Ring.Rat
import Mathlib.Data.List.Sort
import PiPlatform.Library.Dict
import PiPlatform.Library.System

/-! Chain checkpoints, kept until they expire.

A load selects a row, looks at the clock, and deletes by chain, each a step of its own, so
it may delete a row that was saved after the one it read. And at the moment a checkpoint
expires a load still takes it for live while a list and a purge take it for expired.
`checkpoints_kept_iff`: apart from these two cases no checkpoint is lost before it expires
and the three agree on what is expired. -/
namespace PiPlatform.Orchestrator.Checkpoint

open Library

structure ChainCheckpoint where
  chainId : String
  goal : String
  goalHash : String
  stepIndex : Int
  contextSnapshot : String
  completedSteps : String
  totalSteps : Int
  createdAt : ℚ
  expiresAt : ℚ
  deriving DecidableEq

def ChainCheckpoint.isExpired (now : ℚ) (checkpoint : ChainCheckpoint) : Bool :=
  decide (checkpoint.expiresAt < now)

/-- The table by its primary key. -/
abbrev Table := Dict String ChainCheckpoint

/-- `INSERT OR REPLACE` -/
def save (checkpoint : ChainCheckpoint) (table : Table) : Table :=
  table.set checkpoint.chainId checkpoint

def list (now : ℚ) (includeExpired : Bool) (table : Table) : List ChainCheckpoint :=
  ((table.items.map Prod.snd).filter fun checkpoint =>
    includeExpired || decide (now < checkpoint.expiresAt)).insertionSort
      fun a b => b.createdAt ≤ a.createdAt

def purgeExpired (now : ℚ) (table : Table) : Table :=
  table.filter fun _ checkpoint => !decide (checkpoint.expiresAt ≤ now)

/-! ### Calls -/

inductive Loaded where
  | missing
  | goalMismatch
  | found (checkpoint : ChainCheckpoint)

/-- What a call is about to do. -/
inductive Call where
  /-- About to look whether the row it read is expired. -/
  | checking (row : ChainCheckpoint) (currentGoal : Option String)
  | deleting (chainId : String)
  | loaded (result : Loaded)
  /-- About to purge what was expired then. -/
  | purging (now : ℚ)
  | purged

structure State where
  clock : ℚ
  table : Table
  calls : List Call

variable (goalHash : String → String)

/-- `load` once the row is known to be live. -/
def validate (row : ChainCheckpoint) : Option String → Loaded
  | none => .found row
  | some goal => if goalHash goal ≠ row.goalHash then .goalMismatch else .found row

def Call.next (s : State) : Call → Table × Call
  | checking row currentGoal =>
    (s.table, if row.isExpired s.clock then deleting row.chainId
      else loaded (validate goalHash row currentGoal))
  | deleting chainId => (s.table.erase chainId, loaded .missing)
  | purging now => (purgeExpired now s.table, purged)
  | loaded result => (s.table, loaded result)
  | purged => (s.table, purged)

inductive Action where
  /-- The clock comes to `now`, unless it is past it. -/
  | tick (now : ℚ)
  | save (checkpoint : ChainCheckpoint)
  | delete (chainId : String)
  /-- A load selects its row. -/
  | load (chainId : String) (currentGoal : Option String)
  /-- A purge reads the clock. -/
  | purgeExpired
  | advance (call : Nat)

def State.advance (s : State) (c : Nat) : State :=
  match s.calls[c]? with
  | none => s
  | some call =>
    { s with
      table := (call.next goalHash s).1
      calls := s.calls.set c (call.next goalHash s).2 }

def step (s : State) : Action → State
  | .tick now => { s with clock := max s.clock now }
  | .save checkpoint => { s with table := save checkpoint s.table }
  | .delete chainId => { s with table := s.table.erase chainId }
  | .load chainId currentGoal =>
    let call := match s.table.get? chainId with
      | none => .loaded .missing
      | some row => .checking row currentGoal
    { s with calls := s.calls ++ [call] }
  | .purgeExpired => { s with calls := s.calls ++ [.purging s.clock] }
  | .advance c => s.advance goalHash c

/-! ### What is to be kept -/

/-- The latest save of each chain that no delete followed. -/
def remember (latest : Table) : Action → Table
  | .save checkpoint => save checkpoint latest
  | .delete chainId => latest.erase chainId
  | _ => latest

/-- The store, with what it is to keep beside it. -/
def checkpoints (start : ℚ) : System (State × Table) Action where
  initial := (⟨start, .empty, []⟩, .empty)
  step p a := (step goalHash p.1 a, remember p.2 a)

/-- Nothing is lost before it expires. -/
def Kept (p : State × Table) : Prop :=
  ∀ chainId checkpoint, p.2.get? chainId = some checkpoint → p.1.clock < checkpoint.expiresAt →
    p.1.table.get? chainId = some checkpoint

/-- `load`, `list` and `purge_expired` agree on what is expired now. -/
def Agree (p : State × Table) : Prop :=
  ∀ chainId checkpoint, p.1.table.get? chainId = some checkpoint →
    (checkpoint.isExpired p.1.clock = true ↔ checkpoint ∉ list p.1.clock false p.1.table) ∧
      (checkpoint.isExpired p.1.clock = true ↔
        (purgeExpired p.1.clock p.1.table).get? chainId = none)

/-- A load deletes only what has expired, and the clock never meets an expiry. -/
def Careful (p : State × Table) : Action → Prop
  | .advance c => ∀ chainId, p.1.calls[c]? = some (.deleting chainId) →
    ∀ checkpoint, p.1.table.get? chainId = some checkpoint → checkpoint.expiresAt ≤ p.1.clock
  | .tick now => ∀ chainId checkpoint, p.1.table.get? chainId = some checkpoint →
    checkpoint.expiresAt ≠ max p.1.clock now
  | .save checkpoint => checkpoint.expiresAt ≠ p.1.clock
  | _ => True

/-- What is stored is what was saved last, nothing that is to be kept is missing before it
expires, nothing expires this very moment, and no purge is ahead of the clock. -/
structure Sound (p : State × Table) : Prop where
  saved : ∀ chainId checkpoint, p.1.table.get? chainId = some checkpoint →
    p.2.get? chainId = some checkpoint
  kept : Kept p
  apart : ∀ chainId checkpoint, p.1.table.get? chainId = some checkpoint →
    checkpoint.expiresAt ≠ p.1.clock
  purging : ∀ now, .purging now ∈ p.1.calls → now ≤ p.1.clock

/-! ### Expiry -/

theorem mem_list {now : ℚ} {table : Table} {checkpoint : ChainCheckpoint} :
    checkpoint ∈ list now false table ↔
      (∃ chainId, table.get? chainId = some checkpoint) ∧ now < checkpoint.expiresAt := by
  rw [list, List.mem_insertionSort, List.mem_filter, List.mem_map]
  simp only [← Dict.mem_items, Bool.false_or, decide_eq_true_eq]
  refine and_congr_left fun _ => ?_
  constructor
  · rintro ⟨q, hq, heq⟩
    exact ⟨q.1, heq ▸ hq⟩
  · rintro ⟨k, hk⟩
    exact ⟨(k, _), hk, rfl⟩

theorem get?_purgeExpired {now : ℚ} {table : Table} {chainId : String}
    {checkpoint : ChainCheckpoint} :
    (purgeExpired now table).get? chainId = some checkpoint ↔
      table.get? chainId = some checkpoint ∧ now < checkpoint.expiresAt := by
  rw [purgeExpired, Dict.get?_filter, Option.filter_eq_some_iff]
  simp

/-- The three agree except at the very moment of expiry. -/
theorem agree_iff {p : State × Table} :
    Agree p ↔ ∀ chainId checkpoint, p.1.table.get? chainId = some checkpoint →
      checkpoint.expiresAt ≠ p.1.clock := by
  refine forall₂_congr fun chainId checkpoint => imp_congr_right fun hstored => ?_
  have hlist : checkpoint ∉ list p.1.clock false p.1.table ↔ checkpoint.expiresAt ≤ p.1.clock := by
    rw [mem_list, and_iff_right ⟨chainId, hstored⟩, not_lt]
  have hpurge : (purgeExpired p.1.clock p.1.table).get? chainId = none ↔
      checkpoint.expiresAt ≤ p.1.clock := by
    rw [Option.eq_none_iff_forall_ne_some]
    constructor
    · intro h
      by_contra hlive
      exact h checkpoint (get?_purgeExpired.mpr ⟨hstored, not_le.mp hlive⟩)
    · intro h other hother
      obtain ⟨hother, hlive⟩ := get?_purgeExpired.mp hother
      obtain rfl : other = checkpoint := Option.some.inj (hother.symm.trans hstored)
      exact absurd h (not_le.mpr hlive)
  rw [hlist, hpurge, and_self, ChainCheckpoint.isExpired, decide_eq_true_eq]
  constructor
  · intro h heq
    exact absurd (h.mpr heq.le) heq.not_lt
  · exact fun h => ⟨le_of_lt, fun hle => lt_of_le_of_ne hle h⟩

theorem Sound.good {p : State × Table} (h : Sound p) : Kept p ∧ Agree p :=
  ⟨h.kept, agree_iff.mpr h.apart⟩

/-! ### Steps -/

section Steps
variable {s : State} {latest : Table}

/-- Rows may go once they have expired. -/
theorem Sound.withTable (h : Sound (s, latest)) {table : Table} {calls : List Call}
    (hstill : ∀ chainId checkpoint, table.get? chainId = some checkpoint →
      s.table.get? chainId = some checkpoint)
    (hgone : ∀ chainId checkpoint, s.table.get? chainId = some checkpoint →
      s.clock < checkpoint.expiresAt → table.get? chainId = some checkpoint)
    (hpurging : ∀ now, .purging now ∈ calls → now ≤ s.clock) :
    Sound ({ s with table := table, calls := calls }, latest) where
  saved chainId checkpoint hstored := h.saved chainId checkpoint (hstill chainId checkpoint hstored)
  kept chainId checkpoint hlatest hlive :=
    hgone chainId checkpoint (h.kept chainId checkpoint hlatest hlive) hlive
  apart chainId checkpoint hstored := h.apart chainId checkpoint (hstill chainId checkpoint hstored)
  purging := hpurging

theorem Sound.tick (h : Sound (s, latest)) (now : ℚ) (hcareful : Careful (s, latest) (.tick now)) :
    Sound ({ s with clock := max s.clock now }, latest) where
  saved := h.saved
  kept chainId checkpoint hlatest hlive :=
    h.kept chainId checkpoint hlatest ((le_max_left _ _).trans_lt hlive)
  apart := hcareful
  purging earlier hcall := (h.purging earlier hcall).trans (le_max_left _ _)

theorem Sound.save (h : Sound (s, latest)) (checkpoint : ChainCheckpoint)
    (hcareful : checkpoint.expiresAt ≠ s.clock) :
    Sound ({ s with table := save checkpoint s.table }, save checkpoint latest) where
  saved chainId other hstored := by
    simp only [Checkpoint.save, Dict.get?_set] at hstored ⊢
    split
    · next hid => rwa [if_pos hid] at hstored
    · next hid =>
      rw [if_neg hid] at hstored
      exact h.saved chainId other hstored
  kept chainId other hlatest hlive := by
    simp only [Checkpoint.save, Dict.get?_set] at hlatest ⊢
    split
    · next hid => rwa [if_pos hid] at hlatest
    · next hid =>
      rw [if_neg hid] at hlatest
      exact h.kept chainId other hlatest hlive
  apart chainId other hstored := by
    simp only [Checkpoint.save, Dict.get?_set] at hstored
    split at hstored
    · exact Option.some.inj hstored ▸ hcareful
    · exact h.apart chainId other hstored
  purging := h.purging

theorem Sound.delete (h : Sound (s, latest)) (chainId : String) :
    Sound ({ s with table := s.table.erase chainId }, latest.erase chainId) where
  saved other checkpoint hstored := by
    simp only [Dict.get?_erase] at hstored ⊢
    split
    · next hid => simp [hid] at hstored
    · next hid =>
      rw [if_neg hid] at hstored
      exact h.saved other checkpoint hstored
  kept other checkpoint hlatest hlive := by
    simp only [Dict.get?_erase] at hlatest ⊢
    split
    · next hid => simp [hid] at hlatest
    · next hid =>
      rw [if_neg hid] at hlatest
      exact h.kept other checkpoint hlatest hlive
  apart other checkpoint hstored := by
    simp only [Dict.get?_erase] at hstored
    split at hstored
    · cases hstored
    · exact h.apart other checkpoint hstored
  purging := h.purging

theorem Sound.advance (h : Sound (s, latest)) (c : Nat)
    (hcareful : Careful (s, latest) (.advance c)) : Sound (s.advance goalHash c, latest) := by
  rw [State.advance]
  cases hc : s.calls[c]? with
  | none => exact h
  | some call =>
    have hpurging : ∀ call' : Call, (∀ now, call' ≠ .purging now) →
        ∀ now, .purging now ∈ s.calls.set c call' → now ≤ s.clock := by
      intro call' hcall' now hmem
      rcases List.mem_or_eq_of_mem_set hmem with hmem | heq
      · exact h.purging now hmem
      · exact absurd heq.symm (hcall' now)
    simp only
    cases call with
    | checking row currentGoal =>
      refine h.withTable (fun _ _ => id) (fun _ _ hstored _ => hstored) (hpurging _ ?_)
      intro now
      simp only [Call.next]
      split
      · intro heq
        cases heq
      · intro heq
        cases heq
    | deleting chainId =>
      refine h.withTable (fun other checkpoint hstored => ?_)
        (fun other checkpoint hstored hlive => ?_) (hpurging _ fun _ heq => by cases heq)
      · simp only [Call.next, Dict.get?_erase] at hstored
        split at hstored
        · cases hstored
        · exact hstored
      · have hne : chainId ≠ other := by
          rintro rfl
          exact absurd (hcareful chainId hc checkpoint hstored) (not_le.mpr hlive)
        exact (Dict.get?_erase ..).trans ((if_neg hne).trans hstored)
    | loaded result =>
      exact h.withTable (fun _ _ => id) (fun _ _ hstored _ => hstored)
        (hpurging _ fun _ heq => by cases heq)
    | purging now =>
      have hnow : now ≤ s.clock := h.purging now (List.mem_of_getElem? hc)
      refine h.withTable (fun chainId checkpoint hstored => (get?_purgeExpired.mp hstored).1)
        (fun chainId checkpoint hstored hlive => ?_) (hpurging _ fun _ heq => by cases heq)
      exact get?_purgeExpired.mpr ⟨hstored, hnow.trans_lt hlive⟩
    | purged =>
      exact h.withTable (fun _ _ => id) (fun _ _ hstored _ => hstored)
        (hpurging _ fun _ heq => by cases heq)

theorem sound_step (p : State × Table) (a : Action) (hcareful : Careful p a) (h : Sound p) :
    Sound (step goalHash p.1 a, remember p.2 a) := by
  obtain ⟨s, latest⟩ := p
  have hbegin : ∀ call : Call, (∀ now, call = .purging now → now ≤ s.clock) →
      Sound ({ s with calls := s.calls ++ [call] }, latest) := by
    intro call hcall
    refine h.withTable (fun _ _ => id) (fun _ _ hstored _ => hstored) fun now hmem => ?_
    rcases List.mem_append.mp hmem with hmem | hmem
    · exact h.purging now hmem
    · exact hcall now (List.mem_singleton.mp hmem).symm
  cases a with
  | tick now => exact h.tick now hcareful
  | save checkpoint => exact h.save checkpoint hcareful
  | delete chainId => exact h.delete chainId
  | load chainId currentGoal =>
    refine hbegin _ fun now heq => ?_
    split at heq <;> cases heq
  | purgeExpired => exact hbegin _ fun now heq => (Call.purging.inj heq).ge
  | advance c => exact h.advance goalHash c hcareful

/-- A careless step loses a checkpoint or meets an expiry. -/
theorem not_good_of_careless (p : State × Table) (a : Action) (h : Sound p) (ha : ¬ Careful p a) :
    ¬ (Kept (step goalHash p.1 a, remember p.2 a) ∧
      Agree (step goalHash p.1 a, remember p.2 a)) := by
  obtain ⟨s, latest⟩ := p
  rintro ⟨hkept, hagree⟩
  rw [agree_iff] at hagree
  cases a with
  | tick now => exact ha hagree
  | save checkpoint => exact ha (hagree checkpoint.chainId checkpoint (Dict.get?_set_self ..))
  | advance c =>
    simp only [Careful, not_forall, not_le] at ha
    obtain ⟨chainId, hc, checkpoint, hstored, hlive⟩ := ha
    have hlost : (s.advance goalHash c).table.get? chainId = none := by
      simp [State.advance, hc, Call.next, Dict.get?_erase]
    have hclock : (s.advance goalHash c).clock = s.clock := by simp [State.advance, hc]
    have hfound := hkept chainId checkpoint (h.saved chainId checkpoint hstored)
      (hclock.trans_lt hlive)
    cases hlost.symm.trans hfound
  | delete chainId | load chainId currentGoal | purgeExpired => exact ha trivial

end Steps

theorem sound_initial (start : ℚ) : Sound (checkpoints goalHash start).initial where
  saved _ _ h := by cases h
  kept _ _ h := by cases h
  apart _ _ h := by cases h
  purging _ h := by cases h

/-- In a run no checkpoint is lost before it expires, and load, list and purge agree, exactly
when each load's delete finds a row that has expired or none, and the clock never stands at
the expiry of a stored checkpoint. -/
theorem checkpoints_kept_iff (start : ℚ) (acts : List Action) :
    (checkpoints goalHash start).Always (fun p => Kept p ∧ Agree p) acts ↔
      (checkpoints goalHash start).Admits Careful acts := by
  exact System.always_iff_admits _ Careful Sound _ (sound_initial goalHash start)
    (sound_step goalHash) (fun _ => Sound.good) (not_good_of_careless goalHash) acts

def chainCheckpoint (expiresAt : ℚ) : ChainCheckpoint where
  chainId := "chain_1"
  goal := "audit"
  goalHash := "audit"
  stepIndex := 1
  contextSnapshot := "\x7b\x7d"
  completedSteps := "[]"
  totalSteps := 2
  createdAt := 0
  expiresAt := expiresAt

/-- A load reads an expired row; the chain is saved anew; the load deletes what was saved. -/
theorem newer_save_lost :
    ¬ (checkpoints id 0).Always (fun p => Kept p ∧ Agree p)
      [.save (chainCheckpoint 5), .tick 10, .load "chain_1" none, .advance 0,
        .save (chainCheckpoint 100), .advance 0] := by
  intro h
  have hkept := (h _ [] (List.append_nil _).symm).1 "chain_1" (chainCheckpoint 100) rfl
    (by decide +kernel)
  cases hkept

end PiPlatform.Orchestrator.Checkpoint
