import PiPlatform.EventFabric.Ordering.Progress

/-! Whether an established epoch freezes its shards.

Establishing an epoch sets the flag of the rows there are, and only the check at the
start of `advance_sequence` ever looks at it. So a shard stays frozen when it had a row
to set the flag on, when nobody had passed the check before the flag was set, and when
no recovery writes another number into its row (`Freezes`). In a run of such steps the
frozen shards are an invariant (`Frozen`), and each step keeps their sequence. -/
namespace PiPlatform.EventFabric.Ordering

open Library Library.Json Library.Python

variable {P F : Type} [DecidableEq P] [FloatCodec F] [SetText F] {H : Digest} {w : Callers P}

/-- The sequence stored for a shard, if any is. -/
def Coordinator.storedSequence (db : Coordinator) (s : String) : Option Int :=
  (db.shardSequences.get? s).map fun row => row.currentSequence

/-- Nobody has passed the check of `advance_sequence` and not written yet. -/
def NoneAdvancing (w : Callers P) (s : String) : Prop :=
  ∀ p eventId eventHash, w.pending p ≠ some (.advancing s eventId eventHash)

/-- The shard's row has the flag, and nobody is about to write over it. -/
structure Frozen (w : Callers P) (s : String) : Prop where
  flag : ∃ row ∈ w.db.shardSequences.get? s, row.frozen = true
  quiet : NoneAdvancing w s

/-- Every shard an epoch names has a row and nobody about to advance it, and a recovery
of a frozen shard writes the sequence that is there. -/
def Freezes (w : Callers P) : CallStep P F H → Prop
  | .establish p n shards _ =>
    w.pending p = none → Storable n →
      ∀ s ∈ shards, (w.db.shardSequences.get? s).isSome ∧ NoneAdvancing w s
  | .write p _ =>
    ∀ s sequence eventId eventHash,
      w.pending p = some (.recovering s sequence eventId eventHash) → Storable sequence →
        ∀ row ∈ w.db.shardSequences.get? s, row.frozen = true → row.currentSequence = sequence
  | _ => True

/-! ### Frozen shards -/

variable {s : String} {w' : Callers P}

theorem NoneAdvancing.finish (h : NoneAdvancing w s) (p : P) (outcome : Outcome)
    (db : Coordinator) : NoneAdvancing (w.finish p outcome db) s := by
  intro p' eventId eventHash hp'
  by_cases heq : p' = p
  · simp [Callers.finish, heq] at hp'
  · exact h p' eventId eventHash (by simpa [Callers.finish, heq] using hp')

/-- A call that is not about to advance the shard may be under way. -/
theorem NoneAdvancing.update (h : NoneAdvancing w s) (p : P) {q : Pending}
    (hq : ∀ eventId eventHash, q ≠ .advancing s eventId eventHash)
    (hw' : w'.pending = Function.update w.pending p (some q)) : NoneAdvancing w' s := by
  intro p' eventId eventHash hp'
  rw [hw'] at hp'
  by_cases heq : p' = p
  · rw [heq, Function.update_self, Option.some.injEq] at hp'
    exact hq eventId eventHash hp'
  · rw [Function.update_of_ne heq] at hp'
    exact h p' eventId eventHash hp'

theorem NoneAdvancing.commit (h : NoneAdvancing w s) (p : P) (shardId : String) (sequence : Int)
    (eventId eventHash updatedAt : String) :
    NoneAdvancing (w.commit p shardId sequence eventId eventHash updatedAt) s := by
  unfold Callers.commit
  split
  · exact h.update p (q := .reading shardId) (fun _ _ => by simp) rfl
  · exact h.finish p _ _

/-- What a frozen shard keeps: its row, its flag and its sequence. -/
def StaysFrozen (s : String) (w w' : Callers P) : Prop :=
  Frozen w s → Frozen w' s ∧ w'.db.storedSequence s = w.db.storedSequence s

omit [DecidableEq P] in
theorem StaysFrozen.refl (s : String) (w : Callers P) : StaysFrozen s w w := fun h => ⟨h, rfl⟩

omit [DecidableEq P] in
theorem StaysFrozen.trans {w' w'' : Callers P} (h : StaysFrozen s w w')
    (h' : StaysFrozen s w' w'') : StaysFrozen s w w'' := by
  intro hw
  obtain ⟨hw', hsequence⟩ := h hw
  obtain ⟨hw'', hsequence'⟩ := h' hw'
  exact ⟨hw'', hsequence'.trans hsequence⟩

omit [DecidableEq P] in
theorem staysFrozen_of_row (hrow : ∀ row ∈ w.db.shardSequences.get? s, row.frozen = true →
      ∃ row' ∈ w'.db.shardSequences.get? s, row'.frozen = true ∧
        row'.currentSequence = row.currentSequence)
    (hquiet : NoneAdvancing w s → NoneAdvancing w' s) : StaysFrozen s w w' := by
  rintro ⟨⟨row, hmem, hflag⟩, hnone⟩
  obtain ⟨row', hmem', hflag', hsequence⟩ := hrow row hmem hflag
  refine ⟨⟨⟨row', hmem', hflag'⟩, hquiet hnone⟩, ?_⟩
  rw [Coordinator.storedSequence, Coordinator.storedSequence, Option.mem_def.mp hmem,
    Option.mem_def.mp hmem', Option.map_some, Option.map_some, hsequence]

omit [DecidableEq P] in
/-- Nothing that leaves the rows alone and lets nobody past the check matters. -/
theorem staysFrozen_of_db (hdb : w'.db = w.db)
    (hquiet : NoneAdvancing w s → NoneAdvancing w' s) : StaysFrozen s w w' :=
  staysFrozen_of_row (fun row hrow hflag => ⟨row, by rwa [hdb], hflag, rfl⟩) hquiet

omit [DecidableEq P] in
theorem getSequence_frozen (h : Frozen w s) : (w.db.getSequence s).frozen = true := by
  obtain ⟨row, hrow, hflag⟩ := h.flag
  rw [Coordinator.getSequence, Option.mem_def.mp hrow]
  exact hflag

/-- The check raises for a frozen shard. -/
theorem Frozen.advance (h : Frozen w s) (p : P) (eventId eventHash : String) :
    w.advance p s eventId eventHash =
      w.finish p (.sequence s (.error (.sequenceFrozen (frozenMessage s)))) w.db := by
  rw [Callers.advance, if_pos (getSequence_frozen h)]

omit [SetText F] in
theorem staysFrozen_establish (p : P) (n : Int) (shards : List String) (establishedAt : String) :
    StaysFrozen s w (w.establish H F p n shards establishedAt) := by
  refine staysFrozen_of_row (fun row hrow hflag => ?_) fun hquiet => ?_
  · rw [get?_establish, Option.mem_def.mp hrow]
    split
    · exact ⟨_, rfl, rfl, rfl⟩
    · exact ⟨row, rfl, hflag, rfl⟩
  · unfold Callers.establish
    split <;> exact hquiet.finish p _ _

/-- A write to another shard, or of the sequence that is there. -/
theorem staysFrozen_commit (p : P) (shardId : String) (sequence : Int)
    (eventId eventHash updatedAt : String)
    (h : shardId = s → Storable sequence → ∀ row ∈ w.db.shardSequences.get? s,
      row.frozen = true → row.currentSequence = sequence) :
    StaysFrozen s w (w.commit p shardId sequence eventId eventHash updatedAt) := by
  refine staysFrozen_of_row (fun row hrow hflag => ?_) fun hquiet =>
    hquiet.commit p shardId sequence eventId eventHash updatedAt
  rw [get?_commit]
  split
  · next hq =>
    rw [Option.mem_def.mp hrow]
    exact ⟨_, rfl, hflag, (h hq.2 hq.1 row hrow hflag).symm⟩
  · exact ⟨row, hrow, hflag, rfl⟩

/-- A step that `Freezes` keeps every frozen shard frozen, at its sequence. -/
theorem staysFrozen_next (a : CallStep P F H) (ha : Freezes w a) :
    StaysFrozen s w (w.next H a) := by
  intro h
  have heffect := effect_next w a
  generalize w.next H a = w' at heffect ⊢
  cases heffect with
  | idle => exact ⟨h, rfl⟩
  | ended _ p s' result => exact staysFrozen_of_db rfl (fun hquiet => hquiet.finish p _ _) h
  | waiting _ p q hunfrozen =>
    refine staysFrozen_of_db rfl (fun hquiet => hquiet.update p (fun eventId eventHash heq => ?_)
      rfl) h
    exact absurd (getSequence_frozen h) (by simp [hunfrozen s eventId eventHash heq])
  | advanced p updatedAt s' eventId eventHash hp =>
    refine staysFrozen_commit _ _ _ _ _ _ (fun hs => ?_) h
    exact absurd (hs ▸ hp) (h.quiet p eventId eventHash)
  | recovered p updatedAt s' sequence eventId eventHash hp =>
    refine staysFrozen_commit _ _ _ _ _ _ (fun hs hq row hrow hflag => ?_) h
    exact ha s' sequence eventId eventHash hp hq row (hs ▸ hrow) hflag
  | established p n shards establishedAt hp => exact staysFrozen_establish p n shards _ h

/-! ### Established epochs -/

/-- The shards of every epoch that was established are frozen. -/
def Established (w : Callers P) : Prop :=
  ∀ p n shards answer, (p, .epoch n shards (.ok answer)) ∈ w.ended → ∀ s ∈ shards, Frozen w s

section Ended
variable {p p' : P} {n : Int} {shards : List String} {answer : EpochAnswer}

theorem mem_ended_finish {shardId : String} {result : Except ShardError ShardSequence}
    {db : Coordinator}
    (h : (p, .epoch n shards (.ok answer)) ∈ (w.finish p' (.sequence shardId result) db).ended) :
    (p, .epoch n shards (.ok answer)) ∈ w.ended := by
  simpa [Callers.finish] using h

theorem mem_ended_commit {shardId eventId eventHash updatedAt : String} {sequence : Int}
    (h : (p, .epoch n shards (.ok answer)) ∈
      (w.commit p' shardId sequence eventId eventHash updatedAt).ended) :
    (p, .epoch n shards (.ok answer)) ∈ w.ended := by
  unfold Callers.commit at h
  split at h
  · exact h
  · exact mem_ended_finish h

omit [SetText F] in
theorem mem_ended_establish {m : Int} {named : List String} {establishedAt : String}
    (h : (p, .epoch n shards (.ok answer)) ∈ (w.establish H F p' m named establishedAt).ended) :
    (p, .epoch n shards (.ok answer)) ∈ w.ended ∨ Storable m ∧ named = shards := by
  unfold Callers.establish Coordinator.establishEpoch at h
  by_cases hm : Storable m
  · rw [if_pos hm] at h
    rcases List.mem_append.mp h with h | h
    · exact .inl h
    · have hentry := (Prod.mk.inj (List.mem_singleton.mp h)).2
      exact .inr ⟨hm, (Outcome.epoch.inj hentry).2.1.symm⟩
  · rw [if_neg hm] at h
    exact .inl (by simpa [Callers.finish] using h)

/-- Only `establish_epoch` ends with an epoch. -/
theorem mem_ended_next {a : CallStep P F H}
    (h : (p, .epoch n shards (.ok answer)) ∈ (w.next H a).ended) :
    (p, .epoch n shards (.ok answer)) ∈ w.ended ∨
      ∃ p' m establishedAt, a = .establish p' m shards establishedAt ∧ Storable m ∧
        w.pending p' = none := by
  have heffect := effect_next w a
  generalize w.next H a = w' at h heffect
  cases heffect with
  | idle => exact .inl h
  | ended _ p' s result => exact .inl (mem_ended_finish h)
  | waiting _ p' q hunfrozen => exact .inl h
  | advanced p' updatedAt s eventId eventHash hp
  | recovered p' updatedAt s sequence eventId eventHash hp =>
    exact .inl (mem_ended_commit h)
  | established p' m named establishedAt hp =>
    rcases mem_ended_establish h with h | ⟨hm, rfl⟩
    · exact .inl h
    · exact .inr ⟨p', m, establishedAt, rfl, hm, hp⟩

end Ended

omit [SetText F] in
/-- An epoch freezes the shards that have a row and nobody about to advance them. -/
theorem frozen_establish {p : P} {n : Int} {shards : List String} {establishedAt : String}
    (hn : Storable n) (hs : s ∈ shards) (hrow : (w.db.shardSequences.get? s).isSome)
    (hquiet : NoneAdvancing w s) : Frozen (w.establish H F p n shards establishedAt) s where
  flag := by
    obtain ⟨row, hrow⟩ := Option.isSome_iff_exists.mp hrow
    rw [get?_establish, if_pos ⟨hn, hs⟩, hrow]
    exact ⟨_, rfl, rfl⟩
  quiet := by
    unfold Callers.establish
    split <;> exact hquiet.finish p _ _

theorem Established.next (h : Established w) (a : CallStep P F H) (ha : Freezes w a) :
    Established (w.next H a) := by
  intro p n shards answer hmem s hs
  rcases mem_ended_next hmem with hold | ⟨p', m, establishedAt, rfl, hm, hp'⟩
  · exact (staysFrozen_next a ha (h p n shards answer hold s hs)).1
  · obtain ⟨hrow, hquiet⟩ := ha hp' hm s hs
    rw [Callers.next, if_neg (by simp [hp'])]
    exact frozen_establish hm hs hrow hquiet

/-- What an established epoch owes a shard in every later state: the sequence it had,
nobody about to advance it, and the error for whoever begins to. -/
structure Held (F : Type) [FloatCodec F] [SetText F] (H : Digest) (s : String)
    (sequence : Option Int) (w : Callers P) : Prop where
  sequence : w.db.storedSequence s = sequence
  quiet : NoneAdvancing w s
  raises : ∀ p eventId eventHash, w.pending p = none →
    w.next (F := F) H (.advance p s eventId eventHash) =
      w.finish p (.sequence s (.error (.sequenceFrozen (frozenMessage s)))) w.db

theorem Frozen.held (h : Frozen w s) : Held F H s (w.db.storedSequence s) w where
  sequence := rfl
  quiet := h.quiet
  raises := fun p eventId eventHash hp => by
    rw [Callers.next, if_neg (by simp [hp]), h.advance]

/-- The shards of the epochs established by the end of `steps` are held at the sequences
they had then when `more` has followed. -/
def EpochsHold (steps more : List (CallStep P F H)) : Prop :=
  ∀ p n shards answer, (p, .epoch n shards (.ok answer)) ∈ ((callers P F H).after steps).ended →
    ∀ s ∈ shards, Held F H s (((callers P F H).after steps).db.storedSequence s)
      ((callers P F H).after (steps ++ more))

theorem established_after (steps : List (CallStep P F H))
    (h : (callers P F H).Admits Freezes steps) : Established ((callers P F H).after steps) :=
  (callers P F H).invariant_under Freezes Established (fun _ _ _ _ hmem => nomatch hmem)
    (fun _ a ha hw => hw.next a ha) steps h

theorem epochsHold_of_freezes (steps more : List (CallStep P F H))
    (h : (callers P F H).Admits Freezes (steps ++ more)) : EpochsHold steps more := by
  intro p n shards answer hmem s hs
  have hsteps : (callers P F H).Admits Freezes steps := by
    rintro before a behind rfl
    exact h before a (behind ++ more) (by simp)
  have hfrozen : Frozen ((callers P F H).after steps) s :=
    established_after steps hsteps p n shards answer hmem s hs
  have hstays : StaysFrozen s ((callers P F H).after steps)
      ((callers P F H).after (steps ++ more)) :=
    (callers P F H).kept_under Freezes (fun _ => True) (StaysFrozen s) trivial
      (fun _ _ _ _ => trivial) (StaysFrozen.refl s) (fun _ _ _ => StaysFrozen.trans)
      (fun _ a ha _ => staysFrozen_next a ha) steps more h
  obtain ⟨hfrozen', hsequence⟩ := hstays hfrozen
  rw [← hsequence]
  exact hfrozen'.held

/-! ### No other step will do -/

/-- Only an epoch sets a flag. -/
def FlagsNamed (w : Callers P) : Prop :=
  ∀ s, ∀ row ∈ w.db.shardSequences.get? s, row.frozen = true →
    ∃ p n shards answer, (p, .epoch n shards (.ok answer)) ∈ w.ended ∧ s ∈ shards

omit [DecidableEq P] in
theorem FlagsNamed.of_rows (h : FlagsNamed w)
    (hrows : ∀ s, ∀ row' ∈ w'.db.shardSequences.get? s, row'.frozen = true →
      ∃ row ∈ w.db.shardSequences.get? s, row.frozen = true)
    (hended : w.ended ⊆ w'.ended) : FlagsNamed w' := by
  intro s row' hrow' hflag'
  obtain ⟨row, hrow, hflag⟩ := hrows s row' hrow' hflag'
  obtain ⟨p, n, shards, answer, hmem, hs⟩ := h s row hrow hflag
  exact ⟨p, n, shards, answer, hended hmem, hs⟩

theorem FlagsNamed.finish (h : FlagsNamed w) (p : P) (outcome : Outcome) :
    FlagsNamed (w.finish p outcome w.db) :=
  h.of_rows (fun _ row hrow hflag => ⟨row, hrow, hflag⟩) (List.subset_append_left ..)

theorem FlagsNamed.await (h : FlagsNamed w) (p : P) (q : Pending) : FlagsNamed (w.await p q) :=
  h.of_rows (fun _ row hrow hflag => ⟨row, hrow, hflag⟩) (List.Subset.refl _)

theorem FlagsNamed.commit (h : FlagsNamed w) (p : P) (shardId : String) (sequence : Int)
    (eventId eventHash updatedAt : String) :
    FlagsNamed (w.commit p shardId sequence eventId eventHash updatedAt) := by
  refine h.of_rows (fun s row' hrow' hflag' => ?_) ?_
  · rw [get?_commit] at hrow'
    split at hrow'
    · cases hrow : w.db.shardSequences.get? s with
      | none =>
        rw [hrow, Option.mem_def, Option.some.injEq] at hrow'
        rw [← hrow'] at hflag'
        cases hflag'
      | some row =>
        rw [hrow, Option.mem_def, Option.some.injEq] at hrow'
        rw [← hrow'] at hflag'
        exact ⟨row, rfl, hflag'⟩
    · exact ⟨row', hrow', hflag'⟩
  · unfold Callers.commit
    split
    · exact List.Subset.refl _
    · exact List.subset_append_left ..

omit [SetText F] in
theorem mem_ended_of_establish {p : P} {n : Int} (hn : Storable n) (shards : List String)
    (establishedAt : String) : ∃ answer,
      (p, .epoch n shards (.ok answer)) ∈ (w.establish H F p n shards establishedAt).ended := by
  unfold Callers.establish Coordinator.establishEpoch
  rw [if_pos hn]
  exact ⟨_, List.mem_append_right _ (List.mem_singleton_self _)⟩

omit [SetText F] in
theorem FlagsNamed.establish (h : FlagsNamed w) (p : P) (n : Int) (shards : List String)
    (establishedAt : String) : FlagsNamed (w.establish H F p n shards establishedAt) := by
  intro s row' hrow' hflag'
  rw [get?_establish] at hrow'
  by_cases hs : Storable n ∧ s ∈ shards
  · obtain ⟨answer, hmem⟩ := mem_ended_of_establish (F := F) (H := H) (w := w) (p := p) hs.1
      shards establishedAt
    exact ⟨p, n, shards, answer, hmem, hs.2⟩
  · rw [if_neg hs] at hrow'
    obtain ⟨p', m, named, answer, hmem, hs'⟩ := h s row' hrow' hflag'
    refine ⟨p', m, named, answer, ?_, hs'⟩
    unfold Callers.establish
    split <;> exact List.mem_append_left _ hmem

theorem FlagsNamed.next (h : FlagsNamed w) (a : CallStep P F H) : FlagsNamed (w.next H a) := by
  have heffect := effect_next w a
  generalize w.next H a = w' at heffect ⊢
  cases heffect with
  | idle => exact h
  | ended _ p s result => exact h.finish p _
  | waiting _ p q hunfrozen => exact h.await p q
  | advanced p updatedAt s eventId eventHash hp
  | recovered p updatedAt s sequence eventId eventHash hp =>
    exact h.commit p s _ _ _ _
  | established p n shards establishedAt hp => exact h.establish p n shards _

theorem flagsNamed_after (steps : List (CallStep P F H)) :
    FlagsNamed ((callers P F H).after steps) :=
  (callers P F H).invariant FlagsNamed (fun _ _ hrow => nomatch hrow) (fun _ a h => h.next a) steps

/-- Whoever is told that a shard is frozen was told so by its row. -/
theorem Held.isSome {sequence : Option Int} (h : Held F H s sequence w) {p : P}
    (hp : w.pending p = none) : (w.db.shardSequences.get? s).isSome := by
  have hraise := h.raises p "" "" hp
  rw [Callers.next, if_neg (by simp [hp]), Callers.advance, Coordinator.getSequence] at hraise
  cases hrow : w.db.shardSequences.get? s with
  | some row => rfl
  | none =>
    rw [hrow] at hraise
    have hpending := congrArg (fun w' => w'.pending p) hraise
    simp [Callers.await, Callers.finish] at hpending

omit [SetText F] in
theorem pending_establish {p : P} (hp : w.pending p = none) (n : Int) (shards : List String)
    (establishedAt : String) :
    (w.establish H F p n shards establishedAt).pending = w.pending := by
  unfold Callers.establish
  split <;> exact Function.update_eq_self_iff.mpr hp.symm

/-- The step behind `steps` is one that `Freezes` when the epochs established before it, and
by it, hold behind it. -/
theorem freezes_of_epochsHold {steps : List (CallStep P F H)} {a : CallStep P F H}
    (hbefore : EpochsHold steps [a]) (hbehind : EpochsHold (steps ++ [a]) []) :
    Freezes ((callers P F H).after steps) a := by
  rw [EpochsHold, List.append_nil] at hbehind
  rw [EpochsHold] at hbefore
  rw [(callers P F H).after_snoc] at hbefore hbehind
  generalize hw : (callers P F H).after steps = w at hbefore hbehind ⊢
  cases a with
  | establish p n shards establishedAt =>
    intro hp hn s hs
    have hnext : (callers P F H).step w (.establish p n shards establishedAt) =
        w.establish H F p n shards establishedAt := if_neg (by simp [hp])
    rw [hnext] at hbehind
    obtain ⟨answer, hmem⟩ := mem_ended_of_establish (F := F) (H := H) (w := w) (p := p) hn shards
      establishedAt
    have hheld := hbehind p n shards answer hmem s hs
    have hpending := pending_establish (F := F) (H := H) hp n shards establishedAt
    constructor
    · have hrow := hheld.isSome (hpending ▸ hp)
      rwa [get?_establish, if_pos ⟨hn, hs⟩, Option.isSome_map] at hrow
    · intro p' eventId eventHash
      rw [← hpending]
      exact hheld.quiet p' eventId eventHash
  | write p updatedAt =>
    intro s sequence eventId eventHash hp hq row hrow hflag
    have hflags : FlagsNamed ((callers P F H).after steps) := flagsNamed_after steps
    rw [hw] at hflags
    obtain ⟨p', n, shards, answer, hmem, hs⟩ := hflags s row hrow hflag
    have hsequence := (hbefore p' n shards answer hmem s hs).sequence
    have hnext : (callers P F H).step w (.write p updatedAt) =
        w.commit p s sequence eventId eventHash updatedAt := by
      show w.next (F := F) H (.write p updatedAt) = _
      rw [Callers.next, hp]
    rw [hnext, Coordinator.storedSequence, Coordinator.storedSequence, get?_commit,
      if_pos ⟨hq, rfl⟩, Option.mem_def.mp hrow] at hsequence
    exact (Option.some.inj hsequence).symm
  | advance p shardId eventId eventHash | recover p shardId store | close p | abort p error =>
    trivial

/-- **Main theorem.** Whatever the callers do and in whatever order, the epochs that are
established hold in all the states that follow if and only if every step `Freezes`. -/
theorem established_epochs_hold_iff (acts : List (CallStep P F H)) :
    (∀ steps more, steps ++ more <+: acts → EpochsHold steps more) ↔
      (callers P F H).Admits Freezes acts := by
  constructor
  · rintro h before a behind rfl
    have hbefore : before ++ [a] <+: before ++ a :: behind := ⟨behind, by simp⟩
    exact freezes_of_epochsHold (h before [a] hbefore)
      (h (before ++ [a]) [] (by rwa [List.append_nil]))
  · rintro h steps more ⟨behind, rfl⟩
    refine epochsHold_of_freezes steps more ?_
    rintro before a behind' heq
    exact h before a (behind' ++ behind) (by simp [heq])

/-! ### Epochs that do not hold -/

theorem not_epochsHold {steps more : List (CallStep P F H)} {p : P} {n : Int}
    {shards : List String} {establishedAt : String}
    (hp : ((callers P F H).after steps).pending p = none) (hn : Storable n) (hs : s ∈ shards)
    (hne : ((callers P F H).after
          (steps ++ [.establish p n shards establishedAt] ++ more)).db.storedSequence s ≠
        ((callers P F H).after
          (steps ++ [.establish p n shards establishedAt])).db.storedSequence s) :
    ¬ EpochsHold (steps ++ [.establish p n shards establishedAt]) more := by
  intro h
  have hafter : (callers P F H).after (steps ++ [.establish p n shards establishedAt]) =
      ((callers P F H).after steps).establish H F p n shards establishedAt := by
    rw [(callers P F H).after_snoc]
    exact if_neg (by simp [hp])
  obtain ⟨answer, hmem⟩ := mem_ended_of_establish (F := F) (H := H)
    (w := (callers P F H).after steps) (p := p) hn shards establishedAt
  exact hne (h p n shards answer (hafter ▸ hmem) s hs).sequence

/-- An advance of `"p"` by one caller, and another that has found it not frozen. -/
def racing : List (CallStep Bool Literal prefixDigest) :=
  [.advance true "p" "e1" "h1", .write true "09:00", .close true, .advance false "p" "e2" "h2"]

/-- Two advances of `"p"`. -/
def advancedTwice : List (CallStep Bool Literal prefixDigest) :=
  [.advance true "p" "e1" "h1", .write true "09:00", .close true,
    .advance true "p" "e2" "h2", .write true "09:01", .close true]

/-- Epoch 1 does not hold `"p"` against an advance that has made its check, against a first
advance when the shard had no row, or against a recovery. -/
theorem epoch_does_not_hold :
    ¬ EpochsHold (racing ++ [.establish true 1 ["p"] "09:02"]) [.write false "09:03"] ∧
      ¬ EpochsHold ([] ++ [.establish true 1 ["p"] "09:02"] :
          List (CallStep Bool Literal prefixDigest))
        [.advance false "p" "e1" "h1", .write false "09:03"] ∧
      ¬ EpochsHold (advancedTwice ++ [.establish true 1 ["p"] "09:02"])
        [.recover false "p" oneEvent, .write false "09:03"] :=
  ⟨not_epochsHold (by decide +kernel) (by decide) (List.mem_singleton_self "p")
      (by decide +kernel),
    not_epochsHold rfl (by decide) (List.mem_singleton_self "p") (by decide +kernel),
    not_epochsHold (by decide +kernel) (by decide) (List.mem_singleton_self "p")
      (by decide +kernel)⟩

end PiPlatform.EventFabric.Ordering
