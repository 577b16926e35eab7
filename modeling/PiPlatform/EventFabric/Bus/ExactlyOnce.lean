import PiPlatform.EventFabric.Bus.Consumer
import PiPlatform.EventFabric.Bus.Reproducible

/-! One consumer without a tenant filter, while the log grows.

A call of `consume` is taken apart into what it does to the store: `start` reads the
checkpoint, `fetch` the batch, each `handle` is a handler that returns, `finish`
writes the checkpoint. Between any two of them processes may append. `raise` ends a
call early, because the handler raised or because the store did.

What has been handled is the view up to the checkpoint and then the part of the
batch already delivered, as long as no call has been interrupted behind its first
event. After such a call the checkpoint is behind what has been handled, and the next
event a handler returns on is one it has seen: so `Uninterrupted` is exactly the rule
under which the log is consumed in order and once (`consumed_in_order_iff`). -/
namespace PiPlatform.EventFabric

open Library Library.Json Library.Python

variable {P F σ : Type}

/-- Where a call of `consume` is: behind its checkpoint, or in its loop. -/
inductive Progress (F : Type) where
  | idle
  | begun (start batchSize : Int)
  | handling (events : List (DomainEvent F)) (processed : Nat)

namespace Progress

/-- The event the handler is called with next. -/
def event : Progress F → Option (DomainEvent F)
  | .handling events processed => events[processed]?
  | _ => none

def processed : Progress F → Nat
  | .handling _ processed => processed
  | _ => 0

/-- `processed += 1` -/
def advance : Progress F → Progress F
  | .handling events processed => .handling events (processed + 1)
  | p => p

end Progress

/-- The store and its writers, the consumer, the events on which its handler returned,
and whether a call has ended with an exception behind its first event. -/
structure Consumption (P F : Type) where
  world : World P F
  progress : Progress F
  handled : List (DomainEvent F)
  interrupted : Bool

/-- The call ends with an exception. -/
def Consumption.stop (s : Consumption P F) : Consumption P F :=
  { s with progress := .idle, interrupted := s.interrupted || decide (0 < s.progress.processed) }

inductive ConsumeStep (P F : Type) where
  | append (step : Step P F)
  | start (batchSize : Int)
  | fetch
  | handle
  | raise
  | finish (now : String)

variable [DecidableEq P] [FloatCodec F] [SetText F]

/-- One step of a writer or of the consumer. -/
def Consumption.next (H : Digest) (c : DeterministicConsumer) (key : String)
    (s : Consumption P F) : ConsumeStep P F → Consumption P F
  | .append a => { s with world := World.next H s.world a }
  | .start batchSize =>
    match s.progress with
    | .idle => { s with progress := .begun (c.startOffset s.world.db key) batchSize }
    | _ => s
  | .fetch =>
    match s.progress with
    | .begun start batchSize =>
      match c.fetch H s.world.db key start batchSize with
      | .ok events => { s with progress := .handling events 0 }
      | .error _ => s.stop
    | _ => s
  | .handle =>
    match s.progress.event with
    | some e => { s with progress := s.progress.advance, handled := s.handled ++ [e] }
    | none => s
  | .raise => s.stop
  | .finish now =>
    match s.progress with
    | .handling events processed =>
      if processed = events.length then
        match c.saveProgress H s.world.db key events now with
        | .ok db => { s with world := { s.world with db := db }, progress := .idle }
        | .error _ => s.stop
      else s
    | _ => s

/-- One consumer without a tenant filter on one partition, and the writers. -/
def consuming (P F : Type) [DecidableEq P] [FloatCodec F] [SetText F] (H : Digest)
    (consumerId key : String) : System (Consumption P F) (ConsumeStep P F) where
  initial := ⟨World.start, .idle, [], false⟩
  step := Consumption.next H ⟨consumerId, none⟩ key

/-! ### Whole calls -/

/-- The handler, with the events on which it has returned. -/
def recording (handler : Handler F σ) : Handler F (σ × List (DomainEvent F)) :=
  fun e s =>
    match handler e s.1 with
    | (.ok (), s') => (.ok (), s', s.2 ++ [e])
    | (.error err, s') => (.error err, s', s.2)

section Calls
variable (H : Digest) (c : DeterministicConsumer) (key : String)

/-- Some steps, without any of a writer, lead from one state to the other. -/
inductive Reaches : Consumption P F → Consumption P F → Prop where
  | refl (s) : Reaches s s
  | step {s t} (a : ConsumeStep P F) (own : ∀ b, a ≠ .append b) :
      Reaches (Consumption.next H c key s a) t → Reaches s t

variable {H c key} {s : Consumption P F}

theorem Reaches.trans {s t u : Consumption P F} (h : Reaches H c key s t)
    (h' : Reaches H c key t u) : Reaches H c key s u := by
  induction h with
  | refl => exact h'
  | step a own _ ih => exact .step a own (ih h')

variable (H c key) in
/-- The loop is a row of `handle` steps, cut short by a `raise` if the handler raises. -/
theorem deliver_run (handler : Handler F σ) (x : σ) (done rest : List (DomainEvent F))
    (hs : s.progress = .handling (done ++ rest) done.length) :
    ∃ t, Reaches H c key s t ∧ t.world = s.world ∧
      t.handled = (deliver (recording handler) rest done.length (x, s.handled)).2.2 ∧
      t.progress =
        match (deliver (recording handler) rest done.length (x, s.handled)).1 with
        | .ok _ => .handling (done ++ rest) (done ++ rest).length
        | .error _ => .idle := by
  induction rest generalizing s x done with
  | nil =>
    rw [List.append_nil] at hs ⊢
    exact ⟨s, .refl s, rfl, rfl, hs⟩
  | cons e rest ih =>
    rcases hcall : handler e x with ⟨err | ⟨⟩, x'⟩
    · refine ⟨s.stop, .step .raise (fun _ h => nomatch h) (.refl _), rfl, ?_, ?_⟩ <;>
        simp [deliver, recording, hcall, Consumption.stop]
    · have hevent : s.progress.event = some e := by
        rw [hs]
        simp [Progress.event]
      obtain ⟨t, hreach, hworld, hhandled, hprogress⟩ :=
        ih (s := { s with progress := s.progress.advance, handled := s.handled ++ [e] }) x'
          (done ++ [e]) (by simp [hs, Progress.advance])
      have hnext : Consumption.next H c key s .handle =
          { s with progress := s.progress.advance, handled := s.handled ++ [e] } := by
        simp only [Consumption.next, hevent]
      refine ⟨t, .step .handle (fun _ h => nomatch h) (hnext ▸ hreach), hworld, ?_, ?_⟩
      · rw [hhandled]
        simp [deliver, recording, hcall]
      · rw [hprogress]
        simp [deliver, recording, hcall]

/-- A whole call, whatever its handler does, is a run of its steps. -/
theorem consume_run (handler : Handler F σ) (x : σ) (batchSize : Int) (now : String)
    (hs : s.progress = .idle) :
    let call := c.consume H s.world.db key (recording handler) batchSize now (x, s.handled)
    ∃ t, Reaches H c key s t ∧ t.world = { s.world with db := call.2.2 } ∧
      t.handled = call.2.1.2 ∧ t.progress = .idle := by
  intro call
  let fetching := { s with progress := .begun (c.startOffset s.world.db key) batchSize }
  have hstart : Consumption.next H c key s (.start batchSize) = fetching := by
    simp only [Consumption.next, hs, fetching]
  suffices h : ∃ t, Reaches H c key fetching t ∧ t.world = { s.world with db := call.2.2 } ∧
      t.handled = call.2.1.2 ∧ t.progress = .idle by
    obtain ⟨t, hreach, hrest⟩ := h
    exact ⟨t, .step (.start batchSize) (fun _ h => nomatch h) (hstart ▸ hreach), hrest⟩
  cases hfetch : c.fetch (F := F) H s.world.db key (c.startOffset s.world.db key) batchSize with
  | error err =>
    have hnext : Consumption.next H c key fetching .fetch = fetching.stop := by
      simp only [Consumption.next, fetching, hfetch]
    refine ⟨fetching.stop, .step .fetch (fun _ h => nomatch h) (hnext ▸ .refl _), ?_, ?_, rfl⟩ <;>
      simp [call, DeterministicConsumer.consume, hfetch, Consumption.stop, fetching]
  | ok events =>
    let looping := { s with progress := Progress.handling events 0 }
    have hnext : Consumption.next H c key fetching .fetch = looping := by
      simp only [Consumption.next, fetching, hfetch, looping]
    obtain ⟨t, hreach, hworld, hhandled, hprogress⟩ :=
      deliver_run H c key (s := looping) handler x [] events rfl
    have hloop : Reaches H c key fetching t :=
      .step .fetch (fun _ h => nomatch h) (hnext ▸ hreach)
    rcases hdeliver : deliver (recording handler) events 0 (x, s.handled) with ⟨err | n, y⟩
    · simp only [List.length_nil, looping, hdeliver] at hworld hhandled hprogress
      refine ⟨t, hloop, ?_, ?_, hprogress⟩
      · simp [call, DeterministicConsumer.consume, hfetch, hdeliver, hworld]
      · simp [call, DeterministicConsumer.consume, hfetch, hdeliver, hhandled]
    · simp only [List.length_nil, looping, hdeliver] at hworld hhandled hprogress
      obtain ⟨checkpoints, hsave, -⟩ := saveProgress_eq (H := H) c s.world.db key events now
      have hfinish : Consumption.next H c key t (.finish now) =
          { t with
            world := { s.world with db := { s.world.db with checkpoints := checkpoints } },
            progress := .idle } := by
        simp only [Consumption.next, hprogress, List.nil_append, if_true, hworld, hsave]
      refine ⟨_, hloop.trans (.step (.finish now) (fun _ h => nomatch h) (.refl _)), ?_, ?_, ?_⟩
      · simp [hfinish, call, DeterministicConsumer.consume, hfetch, hdeliver, hsave]
      · simp [hfinish, call, DeterministicConsumer.consume, hfetch, hdeliver, hsave, hhandled]
      · simp [hfinish]

end Calls

/-! ### In order and once -/

/-- What the handler has returned on is the front of the partition, no event twice. -/
structure InOrder (H : Digest) (key : String) (s : Consumption P F) : Prop where
  reads : readPartition H s.world.db key 1 (-1) none = .ok (partitionView (F := F) H s.world.db key)
  front : s.handled <+: partitionView H s.world.db key
  once : (s.handled.map fun e => e.header.eventId).Nodup

/-- No handler returns on an event any more once a call has ended with an exception
behind its first event. -/
def Uninterrupted (s : Consumption P F) (a : ConsumeStep P F) : Prop :=
  a = .handle → s.progress.event.isSome = true → s.interrupted = false

/-- A call under way has read the current checkpoint, and its batch is the view behind
it. -/
def Tracks (view : List (DomainEvent F)) (n : Nat) : Progress F → Prop
  | .idle => True
  | .begun start _ => start = 1 + n
  | .handling events processed => events <+: view.drop n ∧ processed ≤ events.length

/-- The checkpoint stands behind `n` events, and the handler has returned on these and
on what has been processed of the batch; an interrupted call leaves it ahead. -/
structure Consistent (H : Digest) (c : DeterministicConsumer) (key : String)
    (s : Consumption P F) (n : Nat) : Prop where
  safe : Safe H s.world
  position : Position H F c s.world.db key n
  tracks : Tracks (partitionView H s.world.db key) n s.progress
  front : s.handled <+: partitionView H s.world.db key
  count : if s.interrupted then s.progress.processed = 0 ∧ n < s.handled.length
    else s.handled.length = n + s.progress.processed

section Steps
variable {H : Digest} {c : DeterministicConsumer} {key : String} {s : Consumption P F} {n : Nat}

omit [DecidableEq P] in
theorem Consistent.inOrder (h : Consistent H c key s n) : InOrder H key s where
  reads := h.safe.stored.readPartition_whole key
  front := h.front
  once := (h.safe.stored.view_nodup key).sublist (h.front.sublist.map _)

omit [FloatCodec F] [SetText F] in
theorem Tracks.grow {view view' : List (DomainEvent F)} {p : Progress F} (h : Tracks view n p)
    (hview : view <+: view') : Tracks view' n p := by
  cases p with
  | idle => trivial
  | begun start batchSize => exact h
  | handling events processed => exact ⟨h.1.trans (List.IsPrefix.drop hview n), h.2⟩

omit [FloatCodec F] [SetText F] in
/-- The next event of a batch stands where the checkpoint and the count say, and is the
one that is counted next. -/
theorem Tracks.event {view : List (DomainEvent F)} {p : Progress F} (h : Tracks view n p)
    {e : DomainEvent F} (he : p.event = some e) :
    view[n + p.processed]? = some e ∧ Tracks view n p.advance ∧
      p.advance.processed = p.processed + 1 := by
  cases p with
  | idle => cases he
  | begun start batchSize => cases he
  | handling events processed =>
    obtain ⟨⟨rest, hrest⟩, -⟩ := h
    have hlt := (List.getElem?_eq_some_iff.mp he).1
    refine ⟨?_, ⟨⟨rest, hrest⟩, hlt⟩, rfl⟩
    rw [Progress.processed, ← List.getElem?_drop, ← hrest, List.getElem?_append_left hlt]
    exact he

theorem Consistent.append (h : Consistent H c key s n) (a : Step P F) :
    Consistent H c key (Consumption.next H c key s (.append a)) n := by
  have hsafe := h.safe.next a
  obtain ⟨hrows, hcheckpoints⟩ := h.safe.next_grows a
  have hview := h.safe.stored.view_grows hsafe.stored hrows key
  refine ⟨hsafe, ⟨?_, h.position.within.trans hview.length_le⟩, h.tracks.grow hview,
    h.front.trans hview, h.count⟩
  rw [← h.position.start]
  exact startOffset_congr hcheckpoints c key

omit [DecidableEq P] in
theorem Consistent.stop (h : Consistent H c key s n) : Consistent H c key s.stop n := by
  refine ⟨h.safe, h.position, trivial, h.front, ?_⟩
  have hcount := h.count
  show if (s.interrupted || decide (0 < s.progress.processed)) = true then
    0 = 0 ∧ n < s.handled.length else s.handled.length = n + 0
  by_cases hinterrupted : s.interrupted = true
  · rw [if_pos hinterrupted] at hcount
    rw [if_pos (by simp [hinterrupted])]
    exact ⟨rfl, hcount.2⟩
  · rw [if_neg hinterrupted] at hcount
    by_cases hzero : 0 < s.progress.processed
    · rw [if_pos (by simp [hzero])]
      exact ⟨rfl, by omega⟩
    · rw [if_neg (by simp [hinterrupted, hzero])]
      omega

/-- The batch read from a position is the view behind it. -/
theorem Position.fetch_front {db : Database} {es : List (DomainEvent F)} (hc : c.tenantId = none)
    (h : Position H F c db key n) (hs : Stored H db es) (batchSize : Int) :
    ∃ events, c.fetch H db key (1 + n) batchSize = .ok events ∧
      events <+: (partitionView (F := F) H db key).drop n := by
  have hfetch := h.fetch hs batchSize
  have hall : ((partitionView (F := F) H db key).drop n).filter (eventAdmits c.tenantId) =
      (partitionView (F := F) H db key).drop n := by
    rw [hc]
    exact List.filter_eq_self.mpr fun e _ => rfl
  obtain ⟨k, hk⟩ := limitRows_eq_take batchSize ((partitionView (F := F) H db key).drop n)
  rw [hall, hk, h.start] at hfetch
  exact ⟨_, hfetch, List.take_prefix _ _⟩

theorem Consistent.start (h : Consistent H c key s n) (batchSize : Int) :
    Consistent H c key (Consumption.next H c key s (.start batchSize)) n := by
  cases hprogress : s.progress with
  | begun start batchSize | handling events processed =>
    simpa only [Consumption.next, hprogress] using h
  | idle =>
    have hcount := h.count
    rw [hprogress] at hcount
    simp only [Consumption.next, hprogress]
    exact ⟨h.safe, h.position, h.position.start, h.front, hcount⟩

theorem Consistent.fetch (hc : c.tenantId = none) (h : Consistent H c key s n) :
    Consistent H c key (Consumption.next H c key s .fetch) n := by
  cases hprogress : s.progress with
  | idle | handling events processed => simpa only [Consumption.next, hprogress] using h
  | begun start batchSize =>
    have htracks := h.tracks
    have hcount := h.count
    rw [hprogress] at htracks hcount
    obtain rfl : start = 1 + n := htracks
    obtain ⟨events, hfetch, hfront⟩ := h.position.fetch_front hc h.safe.stored batchSize
    simp only [Consumption.next, hprogress, hfetch]
    exact ⟨h.safe, h.position, ⟨hfront, Nat.zero_le _⟩, h.front, hcount⟩

theorem Consistent.handle (h : Consistent H c key s n)
    (hrule : Uninterrupted s (.handle : ConsumeStep P F)) :
    Consistent H c key (Consumption.next H c key s .handle) n := by
  cases he : s.progress.event with
  | none => simpa only [Consumption.next, he] using h
  | some e =>
    obtain ⟨hevent, htracks, hprocessed⟩ := h.tracks.event he
    have hinterrupted : ¬ s.interrupted = true := by
      rw [hrule rfl (by rw [he]; rfl)]
      exact Bool.false_ne_true
    have hcount := h.count
    rw [if_neg hinterrupted] at hcount
    simp only [Consumption.next, he]
    refine ⟨h.safe, h.position, htracks, front_snoc_iff.mpr ⟨h.front, by rw [hcount, hevent]⟩, ?_⟩
    rw [if_neg hinterrupted, List.length_append, List.length_singleton, hprocessed, hcount]
    rfl

/-- A finished call moves the checkpoint to what has been handled. -/
theorem Consistent.finish (h : Consistent H c key s n) (now : String) :
    ∃ m, Consistent H c key (Consumption.next H c key s (.finish now)) m := by
  cases hprogress : s.progress with
  | idle | begun start batchSize => exact ⟨n, by simpa only [Consumption.next, hprogress] using h⟩
  | handling events processed =>
    by_cases hend : processed = events.length
    · obtain ⟨checkpoints, hsave, hstart⟩ := saveProgress_eq (H := H) c s.world.db key events now
      have htracks := h.tracks
      have hcount := h.count
      rw [hprogress] at htracks hcount
      have hsafe : Safe H { s.world with
          db := { s.world.db with checkpoints := checkpoints } } :=
        ⟨h.safe.stored.checkpoints checkpoints, h.safe.pending⟩
      simp only [Consumption.next, hprogress, hend, if_true, hsave]
      cases hlast : events.getLast? with
      | none =>
        rw [List.getLast?_eq_none_iff] at hlast
        subst hlast hend
        refine ⟨n, hsafe, ⟨?_, h.position.within⟩, trivial, h.front, hcount⟩
        exact (hstart c key).trans h.position.start
      | some last =>
        have hoffset := h.safe.stored.piece htracks.1 hlast
        have hlength : 0 < events.length := by
          rw [List.length_pos_iff]
          rintro rfl
          cases hlast
        have hinterrupted : ¬ s.interrupted = true := by
          intro hinterrupted
          rw [if_pos hinterrupted] at hcount
          have hzero : processed = 0 := hcount.1
          omega
        rw [if_neg hinterrupted] at hcount
        have hcount' : s.handled.length = n + processed := hcount
        refine ⟨n + events.length, hsafe, ⟨?_, ?_⟩, trivial, h.front, ?_⟩
        · rw [hstart c key, hlast]
          simp only [and_self, if_true, hoffset]
          omega
        · have hle := h.front.length_le
          show _ ≤ (partitionView (F := F) H s.world.db key).length
          omega
        · rw [if_neg hinterrupted]
          show s.handled.length = _ + 0
          omega
    · exact ⟨n, by simpa only [Consumption.next, hprogress, if_neg hend] using h⟩

theorem Consistent.next (hc : c.tenantId = none) (h : Consistent H c key s n)
    (a : ConsumeStep P F) (hrule : Uninterrupted s a) :
    ∃ m, Consistent H c key (Consumption.next H c key s a) m := by
  cases a with
  | append a => exact ⟨n, h.append a⟩
  | start batchSize => exact ⟨n, h.start batchSize⟩
  | fetch => exact ⟨n, h.fetch hc⟩
  | handle => exact ⟨n, h.handle hrule⟩
  | raise => exact ⟨n, h.stop⟩
  | finish now => exact h.finish now

/-- A handler that returns after an interrupted call has been given an event again. -/
theorem Consistent.repeated (h : Consistent H c key s n) {a : ConsumeStep P F}
    (hrule : ¬ Uninterrupted s a) : ¬ InOrder H key (Consumption.next H c key s a) := by
  simp only [Uninterrupted, Classical.not_imp, Bool.not_eq_false] at hrule
  obtain ⟨rfl, hsome, hinterrupted⟩ := hrule
  obtain ⟨e, he⟩ := Option.isSome_iff_exists.mp hsome
  obtain ⟨hevent, -⟩ := h.tracks.event he
  obtain ⟨hzero, hbehind⟩ := (if_pos hinterrupted).mp h.count
  intro horder
  have hfront := horder.front
  simp only [Consumption.next, he] at hfront
  have hoffset := h.safe.stored.view_offset key hevent
  have hoffset' := h.safe.stored.view_offset key (front_snoc_iff.mp hfront).2
  omega

end Steps

omit [DecidableEq P] in
theorem consistent_initial (H : Digest) (c : DeterministicConsumer) (key : String) :
    Consistent (P := P) (F := F) H c key ⟨World.start, .idle, [], false⟩ 0 where
  safe := safe_start H
  position := ⟨rfl, Nat.zero_le _⟩
  tracks := trivial
  front := List.nil_prefix
  count := rfl

variable (P F) in
/-- **Main theorem.** In every run of one consumer and any writers, however the calls
and the appends interleave, the events handled are at all times the front of the
partition, none twice and none left out, exactly if no handler returns any more once a
call has been interrupted behind its first event. -/
theorem consumed_in_order_iff (H : Digest) (consumerId key : String)
    (steps : List (ConsumeStep P F)) :
    (consuming P F H consumerId key).Always (InOrder H key) steps ↔
      (consuming P F H consumerId key).Admits Uninterrupted steps := by
  refine (consuming P F H consumerId key).always_iff_admits Uninterrupted
    (fun s => ∃ n, Consistent H ⟨consumerId, none⟩ key s n) (InOrder H key)
    ⟨0, consistent_initial H _ key⟩ ?_ ?_ ?_ steps
  · rintro s a hrule ⟨n, h⟩
    exact h.next rfl a hrule
  · rintro s ⟨n, h⟩
    exact h.inOrder
  · rintro s a ⟨n, h⟩ hrule
    exact h.repeated hrule

/-- Two events in one batch, and a handler that raises on the second. -/
def raiseOnSecond : List (ConsumeStep Unit Literal) :=
  [.append (.read () (sampleCall "p" "1" onePayload)), .append (.transact ()),
    .append (.read () (sampleCall "p" "2" onePayload)), .append (.transact ()),
    .start 2, .fetch, .handle, .raise]

/-- The next call hands the first event to the handler again. -/
theorem first_event_repeated :
    ((consuming Unit Literal prefixDigest "c" "p").after
        (raiseOnSecond ++ [.start 2, .fetch, .handle])).handled.map
          (fun e => e.header.partitionOffset) = [1, 1] ∧
      ¬ (consuming Unit Literal prefixDigest "c" "p").Always (InOrder prefixDigest "p")
        (raiseOnSecond ++ [.start 2, .fetch, .handle]) := by
  refine ⟨by decide +kernel, fun halways => ?_⟩
  have honce := (halways _ [] (List.append_nil _).symm).once
  revert honce
  decide +kernel

end PiPlatform.EventFabric
