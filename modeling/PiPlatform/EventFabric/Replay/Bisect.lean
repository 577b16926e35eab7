import PiPlatform.EventFabric.Bus.Event
import PiPlatform.Library.Bisect

/-! Bisecting a trajectory for its first invalid event.

Each turn replays the trajectory from its start up to the middle of the window. Whether some event
up to an index is rejected only ever turns from no to yes as the index grows, whatever the
validator does afterwards, so the bisection agrees with a scan from the start. -/
namespace PiPlatform.EventFabric

open Library Library.Python

inductive BisectStatus where
  | emptyTrajectory | failureIsolated | noFailureDetected
  deriving DecidableEq

structure FailedEvent (F : Type) where
  eventId : String
  eventHash : String
  eventType : String
  payload : PyValue F

structure BisectReport (F : Type) where
  status : BisectStatus
  failedIndex : Int
  failed : Option (FailedEvent F)

section Bisect
variable {F S : Type} (stateBuilder : S → DomainEvent F → S)
  (validatorFn : S → DomainEvent F → Bool)

/-- `failed` after the inner loop over these events. -/
def stepReplay (state : S) : List (DomainEvent F) → Bool
  | [] => false
  | ev :: rest =>
    let state := stateBuilder state ev
    if !validatorFn state ev then true else stepReplay state rest

def failedEvent (e : DomainEvent F) : FailedEvent F :=
  ⟨e.header.eventId, e.eventHash, e.header.eventType.value, e.payload⟩

/-- `failed` for this middle of the window. -/
def failsUpTo (events : List (DomainEvent F)) (initialState : S) (mid : Nat) : Bool :=
  stepReplay stateBuilder validatorFn initialState (events.take (mid + 1))

def firstFailedIndex (events : List (DomainEvent F)) (initialState : S) : Int :=
  bisect (failsUpTo stateBuilder validatorFn events initialState) 0 (events.length - 1) (-1)

/-- `bisect_failure` -/
def bisectFailure (events : List (DomainEvent F)) (initialState : S) : BisectReport F :=
  if events.isEmpty then ⟨.emptyTrajectory, -1, none⟩
  else
    let first := firstFailedIndex stateBuilder validatorFn events initialState
    if first ≠ -1 then ⟨.failureIsolated, first, events[first.toNat]?.map failedEvent⟩
    else ⟨.noFailureDetected, -1, none⟩

/-- The validator refuses this event in the state after it. -/
def Rejects (events : List (DomainEvent F)) (initialState : S) (i : Nat) : Prop :=
  ∃ ev, events[i]? = some ev ∧
    validatorFn ((events.take (i + 1)).foldl stateBuilder initialState) ev = false

variable {stateBuilder validatorFn} {events : List (DomainEvent F)} {state : S}

theorem stepReplay_iff :
    stepReplay stateBuilder validatorFn state events = true ↔
      ∃ i, Rejects stateBuilder validatorFn events state i := by
  induction events generalizing state with
  | nil => exact iff_of_false nofun fun ⟨i, ev, hev, _⟩ => nomatch hev
  | cons ev rest ih =>
    rw [stepReplay]
    constructor
    · intro h
      split_ifs at h with hvalid
      · exact ⟨0, ev, rfl, by simpa using hvalid⟩
      · obtain ⟨i, ev', hev', hrejected⟩ := ih.mp h
        exact ⟨i + 1, ev', hev', hrejected⟩
    · intro ⟨i, ev', hev', hrejected⟩
      split_ifs with hvalid
      · rfl
      · cases i with
        | zero =>
          obtain rfl : ev = ev' := Option.some.inj hev'
          exact absurd (by simpa using hrejected) hvalid
        | succ i => exact ih.mpr ⟨i, ev', hev', hrejected⟩

/-- Within the first so many events. -/
theorem failsUpTo_iff (k : Nat) :
    failsUpTo stateBuilder validatorFn events state k = true ↔
      ∃ i ≤ k, Rejects stateBuilder validatorFn events state i := by
  rw [failsUpTo, stepReplay_iff]
  refine exists_congr fun i => ?_
  rw [Rejects, Rejects]
  by_cases hi : i ≤ k
  · rw [List.getElem?_take_of_lt (Nat.lt_succ_of_le hi), List.take_take,
      min_eq_left (Nat.succ_le_succ hi), and_iff_right hi]
  · refine iff_of_false (fun ⟨ev, hev, _⟩ => ?_) fun h => hi h.1
    rw [List.getElem?_take_eq_none (Nat.succ_le_of_lt (not_le.mp hi))] at hev
    cases hev

/-- What the report says when this event is the first to be rejected. -/
def isolated (i : Nat) (e : DomainEvent F) : BisectReport F :=
  ⟨.failureIsolated, i, some (failedEvent e)⟩

theorem Rejects.lt_length {i : Nat} (h : Rejects stateBuilder validatorFn events state i) :
    i < events.length := by
  obtain ⟨ev, hev, -⟩ := h
  exact (List.getElem?_eq_some_iff.mp hev).1

/-- Once an event was rejected, the test succeeds at every later index. -/
theorem failsUpTo_mono {i j : Nat} (hij : i ≤ j)
    (hi : failsUpTo stateBuilder validatorFn events state i = true) :
    failsUpTo stateBuilder validatorFn events state j = true := by
  obtain ⟨k, hk, hrejected⟩ := (failsUpTo_iff i).mp hi
  exact (failsUpTo_iff j).mpr ⟨k, hk.trans hij, hrejected⟩

theorem not_rejects {i : Nat} (h : failsUpTo stateBuilder validatorFn events state i = false) :
    ¬ Rejects stateBuilder validatorFn events state i := by
  intro hrejected
  rw [(failsUpTo_iff i).mpr ⟨i, Nat.le_refl i, hrejected⟩] at h
  cases h

theorem firstFailedIndex_isFirst (hne : events ≠ []) :
    IsFirst (failsUpTo stateBuilder validatorFn events state) events.length
      (firstFailedIndex stateBuilder validatorFn events state) := by
  have hpos := List.length_pos_of_ne_nil hne
  refine bisect_isFirst (fun _ _ => failsUpTo_mono) ?_
  exact ⟨le_rfl, by omega, fun i hi => absurd hi (by omega), .inl ⟨rfl, by omega⟩⟩

/-- Either no event is rejected, or the report has the first one that is. -/
theorem bisectFailure_cases (hne : events ≠ []) :
    ((∀ i, ¬ Rejects stateBuilder validatorFn events state i) ∧
        bisectFailure stateBuilder validatorFn events state = ⟨.noFailureDetected, -1, none⟩) ∨
      ∃ i ev, events[i]? = some ev ∧ Rejects stateBuilder validatorFn events state i ∧
        (∀ j < i, ¬ Rejects stateBuilder validatorFn events state j) ∧
        bisectFailure stateBuilder validatorFn events state = isolated i ev := by
  rw [bisectFailure, if_neg (by simpa using hne)]
  rcases firstFailedIndex_isFirst hne with ⟨hnone, hall⟩ | ⟨k, hk, hfound, hfails, hbefore⟩
  · refine .inl ⟨fun i hi => not_rejects (hall i hi.lt_length) hi, ?_⟩
    rw [hnone]
    rfl
  · obtain ⟨i, hi, hrejected⟩ := (failsUpTo_iff k).mp hfails
    obtain rfl : i = k :=
      Nat.le_antisymm hi (not_lt.mp fun hlt => not_rejects (hbefore i hlt) hrejected)
    have hev : events[i]? = some (events.get ⟨i, hk⟩) := List.getElem?_eq_getElem hk
    refine .inr ⟨i, _, hev, hrejected, fun j hj => not_rejects (hbefore j hj), ?_⟩
    rw [hfound, if_pos (by omega), Int.toNat_natCast, hev]
    rfl

/-- The bisection reports what a scan from the start would find first. -/
theorem bisectFailure_scans (stateBuilder : S → DomainEvent F → S)
    (validatorFn : S → DomainEvent F → Bool) (events : List (DomainEvent F)) (state : S) :
    ((bisectFailure stateBuilder validatorFn events state).status = .emptyTrajectory ↔
      events = []) ∧
    ((bisectFailure stateBuilder validatorFn events state).status = .noFailureDetected ↔
      events ≠ [] ∧ ∀ i, ¬ Rejects stateBuilder validatorFn events state i) ∧
    ∀ i ev, events[i]? = some ev →
      (bisectFailure stateBuilder validatorFn events state = isolated i ev ↔
        Rejects stateBuilder validatorFn events state i ∧
          ∀ j < i, ¬ Rejects stateBuilder validatorFn events state j) := by
  by_cases hne : events = []
  · have hempty : bisectFailure stateBuilder validatorFn events state =
        ⟨.emptyTrajectory, -1, none⟩ := by
      rw [bisectFailure, hne]
      rfl
    rw [hempty]
    refine ⟨iff_of_true rfl hne, iff_of_false nofun fun h => h.1 hne, fun i ev hev => ?_⟩
    rw [hne] at hev
    cases hev
  · rcases bisectFailure_cases hne with ⟨hnot, hreport⟩ | ⟨k, ev, hev, hrejected, hfirst, hreport⟩
    · rw [hreport]
      refine ⟨iff_of_false nofun hne, iff_of_true rfl ⟨hne, hnot⟩, fun i ev _ => ?_⟩
      exact iff_of_false nofun fun h => hnot i h.1
    · rw [hreport]
      refine ⟨iff_of_false nofun hne, iff_of_false nofun fun h => h.2 k hrejected,
        fun i ev' hev' => ⟨fun heq => ?_, fun h => ?_⟩⟩
      · obtain rfl : k = i := Int.ofNat_inj.mp (congrArg BisectReport.failedIndex heq)
        exact ⟨hrejected, hfirst⟩
      · have hki : k = i := by
          rcases Nat.lt_trichotomy k i with hlt | heq | hgt
          · exact absurd hrejected (h.2 k hlt)
          · exact heq
          · exact absurd h.1 (hfirst i hgt)
        subst hki
        rw [Option.some.inj (hev.symm.trans hev')]

end Bisect

end PiPlatform.EventFabric
