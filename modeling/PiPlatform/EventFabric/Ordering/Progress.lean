import PiPlatform.EventFabric.Bus.Tamper
import PiPlatform.EventFabric.Ordering.Shard

/-! Whether shard progress ever goes back.

A count made from the shard's own row goes up. The epoch a caller gives and the offset
another store's tail has need not: nothing compares them with what the row holds. So a
step takes a shard back exactly when it establishes an epoch below one of its shards',
or writes a recovered offset below the shard's sequence (`grows_next_iff`), and a run
moves forward at every step exactly when it has no such step. -/
namespace PiPlatform.EventFabric.Ordering

open Library Library.Json Library.Python

variable {P F : Type} [DecidableEq P] [FloatCodec F] [SetText F] {H : Digest} {w : Callers P}
  {sequence sequence' epoch epoch' : Int}

/-! ### Going forward -/

/-- Every stored row is still there, with a sequence and an epoch not below what they were. -/
def Grows (db db' : Coordinator) : Prop :=
  ∀ s row, db.shardSequences.get? s = some row →
    ∃ row', db'.shardSequences.get? s = some row' ∧
      row.currentSequence ≤ row'.currentSequence ∧ row.epochNumber ≤ row'.epochNumber

theorem Grows.refl (db : Coordinator) : Grows db db :=
  fun _ row hrow => ⟨row, hrow, le_rfl, le_rfl⟩

/-- What is stored of a shard's progress, sequence and epoch. -/
def Coordinator.progress (db : Coordinator) (s : String) : Option (Int × Int) :=
  (db.shardSequences.get? s).map fun row => (row.currentSequence, row.epochNumber)

theorem Grows.progress {db db' : Coordinator} (h : Grows db db') {s : String}
    (hold : db.progress s = some (sequence, epoch))
    (hnew : db'.progress s = some (sequence', epoch')) :
    sequence ≤ sequence' ∧ epoch ≤ epoch' := by
  obtain ⟨row, hrow, heq⟩ := Option.map_eq_some_iff.mp hold
  obtain ⟨row', hrow', hle⟩ := h s row hrow
  rw [Coordinator.progress, hrow', Option.map_some, Option.some.injEq] at hnew
  obtain ⟨rfl, rfl⟩ := Prod.mk.inj heq
  obtain ⟨rfl, rfl⟩ := Prod.mk.inj hnew
  exact hle

/-- The epoch given is not below that of a shard it names, and the offset recovered not
below the shard's sequence. -/
def Forward (w : Callers P) : CallStep P F H → Prop
  | .establish p n shards _ =>
    w.pending p = none → Storable n →
      ∀ s ∈ shards, ∀ row ∈ w.db.shardSequences.get? s, row.epochNumber ≤ n
  | .write p _ =>
    ∀ s sequence eventId eventHash,
      w.pending p = some (.recovering s sequence eventId eventHash) → Storable sequence →
        ∀ row ∈ w.db.shardSequences.get? s, row.currentSequence ≤ sequence
  | _ => True

theorem grows_commit_iff (p : P) (shardId : String) (sequence : Int)
    (eventId eventHash updatedAt : String) :
    Grows w.db (w.commit p shardId sequence eventId eventHash updatedAt).db ↔
      (Storable sequence →
        ∀ row ∈ w.db.shardSequences.get? shardId, row.currentSequence ≤ sequence) := by
  constructor
  · intro h hq row hrow
    obtain ⟨row', hrow', hle, -⟩ := h shardId row hrow
    rw [get?_commit, if_pos ⟨hq, rfl⟩, hrow, Option.some.injEq] at hrow'
    rw [← hrow'] at hle
    exact hle
  · intro h s row hrow
    rw [get?_commit]
    split
    · next hq =>
      obtain ⟨hq, rfl⟩ := hq
      rw [hrow]
      exact ⟨_, rfl, h hq row hrow, le_rfl⟩
    · exact ⟨row, hrow, le_rfl, le_rfl⟩

omit [SetText F] in
theorem grows_establish_iff (p : P) (n : Int) (shards : List String) (establishedAt : String) :
    Grows w.db (w.establish H F p n shards establishedAt).db ↔
      (Storable n → ∀ s ∈ shards, ∀ row ∈ w.db.shardSequences.get? s, row.epochNumber ≤ n) := by
  constructor
  · intro h hn s hs row hrow
    obtain ⟨row', hrow', -, hle⟩ := h s row hrow
    rw [get?_establish, if_pos ⟨hn, hs⟩, hrow, Option.map_some, Option.some.injEq] at hrow'
    rw [← hrow'] at hle
    exact hle
  · intro h s row hrow
    rw [get?_establish]
    split
    · next hn =>
      rw [hrow]
      exact ⟨_, rfl, le_rfl, h hn.1 s hn.2 row hrow⟩
    · exact ⟨row, hrow, le_rfl, le_rfl⟩

omit [DecidableEq P] in
theorem nextSequence_le (s : String) :
    ∀ row ∈ w.db.shardSequences.get? s, row.currentSequence ≤ w.db.nextSequence s := by
  intro row hrow
  rw [Coordinator.nextSequence, Option.mem_def.mp hrow, Option.elim_some]
  omega

/-- One step takes no shard back exactly when it is `Forward`. -/
theorem grows_next_iff (w : Callers P) (a : CallStep P F H) :
    Grows w.db (w.next H a).db ↔ Forward w a := by
  cases a with
  | advance p s eventId eventHash =>
    refine iff_of_true ?_ trivial
    rw [Callers.next]
    unfold Callers.advance
    split
    · exact Grows.refl _
    · split <;> exact Grows.refl _
  | establish p n shards establishedAt =>
    rw [Callers.next, Forward]
    cases hp : w.pending p with
    | some q => exact iff_of_true (Grows.refl _) fun h => absurd h (Option.some_ne_none q)
    | none =>
      rw [if_neg (by simp), grows_establish_iff]
      exact ⟨fun h _ => h, fun h => h rfl⟩
  | recover p s store =>
    refine iff_of_true ?_ trivial
    rw [Callers.next, recover_eq]
    split <;> exact Grows.refl _
  | write p updatedAt =>
    rw [Callers.next, Forward]
    split
    · next s eventId eventHash hp =>
      refine iff_of_true ?_ fun _ _ _ _ h => by simp [hp] at h
      exact (grows_commit_iff ..).mpr fun _ => nextSequence_le s
    · next s sequence eventId eventHash hp =>
      rw [grows_commit_iff]
      constructor
      · intro h s' sequence' eventId' eventHash' hp'
        rw [hp, Option.some.injEq, Pending.recovering.injEq] at hp'
        obtain ⟨rfl, rfl, -⟩ := hp'
        exact h
      · exact fun h => h s sequence eventId eventHash hp
    · next hrecovering =>
      exact iff_of_true (Grows.refl _) fun s sequence eventId eventHash hp =>
        absurd hp (hrecovering s sequence eventId eventHash)
  | close p | abort p error =>
    refine iff_of_true ?_ trivial
    rw [Callers.next]
    split <;> exact Grows.refl _

/-- **Main theorem.** In a run, whatever the callers do and in whatever order, no shard's
sequence or epoch ever decreases from one state to the next if and only if every step is
`Forward`. -/
theorem progress_monotonic_iff (steps : List (CallStep P F H)) :
    ((callers P F H).Admits (fun w a => Grows w.db (w.next H a).db) steps) ↔
      (callers P F H).Admits Forward steps :=
  (callers P F H).admits_congr grows_next_iff steps

theorem not_forwards {steps : List (CallStep P F H)} {a : CallStep P F H} {s : String}
    (hold : ((callers P F H).after steps).db.progress s = some (sequence, epoch))
    (hnew : ((callers P F H).after (steps ++ [a])).db.progress s = some (sequence', epoch'))
    (hlt : sequence' < sequence ∨ epoch' < epoch) :
    ¬ (callers P F H).Admits (fun w a => Grows w.db (w.next H a).db) (steps ++ [a]) := by
  intro h
  obtain ⟨-, hgrows⟩ := (callers P F H).admits_snoc.mp h
  rw [(callers P F H).after_snoc] at hnew
  obtain ⟨hsequence, hepoch⟩ := hgrows.progress hold hnew
  omega

/-- The store of one event in `"p"`. -/
def oneEvent : EventStorage Literal prefixDigest :=
  ⟨oneCall.db, Unit, inferInstance, _, rfl⟩

/-- Two advances of `"p"`, and a store with one event for it read to recover it from. -/
def recovering : List (CallStep Unit Literal prefixDigest) :=
  [.advance () "p" "e1" "h1", .write () "09:00", .close (),
    .advance () "p" "e2" "h2", .write () "09:01", .close (), .recover () "p" oneEvent]

/-- An advance of `"p"`, and epoch 5. -/
def establishing : List (CallStep Unit Literal prefixDigest) :=
  [.advance () "p" "e1" "h1", .write () "09:00", .close (), .establish () 5 ["p"] "09:01"]

/-- The recovery takes `"p"` from 2 back to 1, and epoch 3 takes it back from 5. -/
theorem progress_goes_back :
    let M := callers Unit Literal prefixDigest
    let Forwards := M.Admits fun w a => Grows w.db (w.next prefixDigest a).db
    ¬ Forwards (recovering ++ [.write () "09:02"]) ∧
      ¬ Forwards (establishing ++ [.establish () 3 ["p"] "09:02"]) := by
  intro M Forwards
  constructor
  · have hold : (M.after recovering).db.progress "p" = some (2, 0) := by decide +kernel
    have hnew : (M.after (recovering ++ [.write () "09:02"])).db.progress "p" = some (1, 0) := by
      decide +kernel
    exact not_forwards hold hnew (.inl (by decide))
  · have hold : (M.after establishing).db.progress "p" = some (1, 5) := by decide +kernel
    have hnew : (M.after (establishing ++ [.establish () 3 ["p"] "09:02"])).db.progress "p" =
        some (1, 3) := by decide +kernel
    exact not_forwards hold hnew (.inr (by decide))

end PiPlatform.EventFabric.Ordering
