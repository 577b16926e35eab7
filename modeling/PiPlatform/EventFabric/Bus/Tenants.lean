import PiPlatform.EventFabric.Bus.Consumer
import PiPlatform.EventFabric.Bus.Reproducible

/-! Many consumers, each for a tenant, on one store.

Progress is one checkpoint for each consumer id and partition; which events a consumer
is given depends on its tenant too. So what a consumer has handled is what its tenant
has in the view up to the last event it handled (`Progressed`), while the checkpoint
may have been moved further by a consumer that shares the id. The next call continues
from the checkpoint, and what it skips is what the tenant has in between.

`Fair` says that there is nothing in between, that a call of no batch size leaves
nothing behind it, and that an empty tenant id, which does not filter, meets no other
tenant's event. It is the exact rule under which no consumer loses an event of its
tenant or sees one of another's (`tenants_isolated_iff`). -/
namespace PiPlatform.EventFabric

open Library Library.Json Library.Python

variable {P F : Type}

def authoredBy (tenant : String) (e : DomainEvent F) : Bool := e.header.authorTenantId = tenant

/-- A handler that does not raise, and remembers what it was given. -/
def remember : Handler F (List (DomainEvent F)) := fun e handled => (.ok (), handled ++ [e])

/-- A completed call of `consume`, with the events its handler was given. -/
structure ConsumeCall (F : Type) where
  consumer : DeterministicConsumer
  partitionKey : String
  result : Except PyError Nat
  handled : List (DomainEvent F)

/-- The store and its writers, the completed calls, and the last of them unless an
append came after it. -/
structure Consumers (P F : Type) where
  world : World P F
  calls : List (ConsumeCall F)
  latest : Option (ConsumeCall F)

inductive ConsumersStep (P F : Type) where
  | append (step : Step P F)
  | consume (consumer : DeterministicConsumer) (partitionKey : String) (batchSize : Int)
      (now : String)

/-- What the consumers with these ids have handled in a partition. -/
def Consumers.handledBy (s : Consumers P F) (c : DeterministicConsumer) (key : String) :
    List (DomainEvent F) :=
  (s.calls.filter fun call => call.consumer = c ∧ call.partitionKey = key).flatMap
    fun call => call.handled

/-- The offset of the last event they handled there. -/
def Consumers.lastHandled (s : Consumers P F) (c : DeterministicConsumer) (key : String) : Int :=
  ((s.handledBy c key).getLast?.map fun e => e.header.partitionOffset).getD 0

variable [DecidableEq P] [FloatCodec F] [SetText F]

def Consumers.next (H : Digest) (s : Consumers P F) : ConsumersStep P F → Consumers P F
  | .append a => { s with world := World.next H s.world a, latest := none }
  | .consume c key batchSize now =>
    let outcome := c.consume H s.world.db key remember batchSize now []
    let call := ⟨c, key, outcome.1, outcome.2.1⟩
    { world := { s.world with db := outcome.2.2 }, calls := s.calls ++ [call], latest := some call }

/-- Any consumers and any writers on one store. -/
def consumers (P F : Type) [DecidableEq P] [FloatCodec F] [SetText F] (H : Digest) :
    System (Consumers P F) (ConsumersStep P F) where
  initial := ⟨World.start, [], none⟩
  step := Consumers.next H

/-- What the consumers of a tenant have handled is the front of what the tenant has in
the partition, none twice, and all of it right after a call that returned 0. -/
structure TenantSound (H : Digest) (s : Consumers P F) : Prop where
  reads : ∀ key, readPartition H s.world.db key 1 (-1) none =
    .ok (partitionView (F := F) H s.world.db key)
  front : ∀ c key tenant, c.tenantId = some tenant →
    s.handledBy c key <+: (partitionView H s.world.db key).filter (authoredBy tenant)
  once : ∀ c key tenant, c.tenantId = some tenant →
    ((s.handledBy c key).map fun e => e.header.eventId).Nodup
  all : ∀ call tenant, s.latest = some call → call.result = .ok 0 →
    call.consumer.tenantId = some tenant →
    s.handledBy call.consumer call.partitionKey =
      (partitionView H s.world.db call.partitionKey).filter (authoredBy tenant)

/-- What a call of a tenant's consumer must find: no event of the tenant between the
last one handled and the checkpoint, none behind the checkpoint if the batch size is 0,
and no other tenant's event in the batch if the tenant id is empty. -/
structure Fair (H : Digest) (s : Consumers P F) (c : DeterministicConsumer) (key tenant : String)
    (batchSize : Int) : Prop where
  checkpoint : ∀ e ∈ partitionView (F := F) H s.world.db key, e.header.authorTenantId = tenant →
    e.header.partitionOffset < c.startOffset s.world.db key →
    e.header.partitionOffset ≤ s.lastHandled c key
  batch : batchSize = 0 → ∀ e ∈ partitionView (F := F) H s.world.db key,
    e.header.authorTenantId = tenant →
    e.header.partitionOffset < c.startOffset s.world.db key
  tenant : tenant = "" → ∀ e ∈ limitRows batchSize ((partitionView (F := F) H s.world.db key).drop
    (c.startOffset s.world.db key - 1).toNat), e.header.authorTenantId = tenant

def Undisturbed (H : Digest) (s : Consumers P F) : ConsumersStep P F → Prop
  | .append _ => True
  | .consume c key batchSize _ =>
    ∀ tenant, c.tenantId = some tenant → Fair H s c key tenant batchSize

/-! ### One call -/

section Call
variable {H : Digest} {c : DeterministicConsumer} {key : String} {db : Database}
  {es : List (DomainEvent F)} {n : Nat}

omit [FloatCodec F] [SetText F] in
theorem deliver_remember (events : List (DomainEvent F)) (processed : Nat)
    (handled : List (DomainEvent F)) : deliver remember events processed handled =
      (.ok (processed + events.length), handled ++ events) := by
  induction events generalizing processed handled with
  | nil => simp [deliver]
  | cons e events ih =>
    simp only [deliver, remember, ih, List.length_cons, List.append_assoc, List.singleton_append]
    congr 2
    omega

/-- The events a call reads from a position. -/
def batchAt (H : Digest) (c : DeterministicConsumer) (db : Database) (key : String) (n : Nat)
    (batchSize : Int) : List (DomainEvent F) :=
  limitRows batchSize
    (((partitionView H db key).drop n).filter (eventAdmits c.tenantId))

/-- A call that nothing disturbs hands over its batch and moves its checkpoint to the
end of it. -/
theorem Position.consume (h : Position H F c db key n) (hs : Stored H db es) (batchSize : Int)
    (now : String) :
    ∃ checkpoints, c.consume H db key (remember (F := F)) batchSize now [] =
        (.ok (batchAt (F := F) H c db key n batchSize).length, batchAt H c db key n batchSize,
          { db with checkpoints := checkpoints }) ∧
      Moves c key (batchAt (F := F) H c db key n batchSize) db
        { db with checkpoints := checkpoints } := by
  obtain ⟨checkpoints, hsave, hmoves⟩ :=
    saveProgress_eq (H := H) c db key (batchAt (F := F) H c db key n batchSize) now
  refine ⟨checkpoints, ?_, hmoves⟩
  rw [DeterministicConsumer.consume, h.fetch hs batchSize]
  rw [batchAt] at hsave
  simp only [deliver_remember, Nat.zero_add, List.nil_append, hsave, batchAt]

/-- Every consumer's checkpoint stands where it stood, or further on if the id and the
partition are those of the call. -/
theorem Position.moved (h : Position H F c db key n) (hs : Stored H db es) {batchSize : Int}
    {checkpoints : Dict (String × String) CheckpointRow}
    (hmoves : Moves c key (batchAt (F := F) H c db key n batchSize) db
      { db with checkpoints := checkpoints })
    {c' : DeterministicConsumer} {key' : String} {k : Nat} (h' : Position H F c' db key' k) :
    ∃ k', k ≤ k' ∧ Position H F c' { db with checkpoints := checkpoints } key' k' := by
  have hmoved := hmoves c' key'
  cases hlast : (batchAt (F := F) H c db key n batchSize).getLast? with
  | none =>
    rw [hlast] at hmoved
    exact ⟨k, Nat.le_refl k, hmoved.trans h'.start, h'.within⟩
  | some last =>
    rw [hlast] at hmoved
    by_cases hsame : c.consumerId = c'.consumerId ∧ key = key'
    · obtain ⟨hid, rfl⟩ := hsame
      obtain ⟨m, hlt, hle, hoffset, -⟩ := hs.batch hlast
      have hstarts : c.startOffset db key = c'.startOffset db key := by
        simp only [DeterministicConsumer.startOffset, hid]
      have hn := h.start
      have hk := h'.start
      refine ⟨m, by omega, ?_, hle⟩
      rw [hmoved]
      simp only [hid, and_self, if_true, hoffset]
      omega
    · refine ⟨k, Nat.le_refl k, ?_, h'.within⟩
      rw [hmoved]
      simp only [hsame, if_false]
      exact h'.start

theorem Position.unique {k : Nat} (h : Position H F c db key n) (h' : Position H F c db key k) :
    n = k := by
  have hn := h.start
  have hk := h'.start
  omega

end Call

/-! ### A tenant's part of a batch -/

section Tenant
variable {H : Digest} {c : DeterministicConsumer} {key tenant : String} {n : Nat}

omit [FloatCodec F] [SetText F] in
theorem admits_of_authoredBy (hc : c.tenantId = some tenant) {e : DomainEvent F}
    (he : authoredBy tenant e = true) : eventAdmits c.tenantId e = true := by
  rw [hc]
  simpa [eventAdmits, authoredBy] using Or.inr he

omit [FloatCodec F] [SetText F] in
theorem authoredBy_of_admits (hc : c.tenantId = some tenant) (htenant : tenant ≠ "")
    {e : DomainEvent F} (he : eventAdmits c.tenantId e = true) : authoredBy tenant e = true := by
  rw [hc] at he
  simpa [eventAdmits, authoredBy, htenant] using he

theorem mem_limitRows {α : Type} {k : Int} {rows : List α} {x : α} (h : x ∈ limitRows k rows) :
    x ∈ rows := by
  obtain ⟨j, hj⟩ := limitRows_eq_take k rows
  rw [hj] at h
  exact List.mem_of_mem_take h

variable {s : Consumers P F} {batchSize : Int}

omit [DecidableEq P] in
/-- An empty tenant id does not filter. -/
theorem batchAt_empty (hc : c.tenantId = some "") (hn : Position H F c s.world.db key n) :
    batchAt (F := F) H c s.world.db key n batchSize =
      limitRows batchSize ((partitionView (F := F) H s.world.db key).drop
        (c.startOffset s.world.db key - 1).toNat) := by
  have hall : ((partitionView (F := F) H s.world.db key).drop n).filter (eventAdmits c.tenantId) =
      (partitionView (F := F) H s.world.db key).drop n := by
    rw [hc]
    exact List.filter_eq_self.mpr fun e _ => rfl
  have hplace : (c.startOffset s.world.db key - 1).toNat = n := by
    rw [hn.start]
    omega
  rw [batchAt, hall, hplace]

omit [DecidableEq P] in
/-- All that a fair call is given is its tenant's. -/
theorem Fair.authored (h : Fair H s c key tenant batchSize) (hc : c.tenantId = some tenant)
    (hn : Position H F c s.world.db key n) :
    ∀ e ∈ batchAt (F := F) H c s.world.db key n batchSize, authoredBy tenant e = true := by
  intro e he
  by_cases htenant : tenant = ""
  · subst htenant
    rw [batchAt_empty hc hn] at he
    simpa [authoredBy] using h.tenant rfl e he
  · exact authoredBy_of_admits hc htenant (List.mem_filter.mp (mem_limitRows he)).2

omit [DecidableEq P] in
/-- A fair call that is given nothing has nothing left behind its checkpoint. -/
theorem Fair.drained (h : Fair H s c key tenant batchSize) (hs : Safe H s.world)
    (hc : c.tenantId = some tenant) (hn : Position H F c s.world.db key n)
    (hbatch : batchAt (F := F) H c s.world.db key n batchSize = []) :
    ((partitionView (F := F) H s.world.db key).drop n).filter (authoredBy tenant) = [] := by
  rw [List.filter_eq_nil_iff]
  intro e he hauthored
  by_cases hsize : batchSize = 0
  · obtain ⟨hmem, hlt⟩ := (hs.stored.mem_drop_view key n).mp he
    have hbefore := h.batch hsize e hmem (by simpa [authoredBy] using hauthored)
    rw [hn.start] at hbefore
    omega
  · have hnil := limitRows_eq_nil hsize hbatch
    have hmem := List.mem_filter.mpr ⟨he, admits_of_authoredBy hc hauthored⟩
    rw [hnil] at hmem
    cases hmem

omit [DecidableEq P] in
/-- One that is given something has been given all its tenant has up to a later
place. -/
theorem Fair.advanced (h : Fair H s c key tenant batchSize) (hs : Safe H s.world)
    (hc : c.tenantId = some tenant) (hn : Position H F c s.world.db key n) (last : DomainEvent F)
    (hlast : (batchAt (F := F) H c s.world.db key n batchSize).getLast? = some last) :
    ∃ m : Nat, n < m ∧ m ≤ (partitionView (F := F) H s.world.db key).length ∧
      last.header.partitionOffset = m ∧
      ((partitionView (F := F) H s.world.db key).take m).filter (authoredBy tenant) =
        ((partitionView H s.world.db key).take n).filter (authoredBy tenant) ++
          batchAt H c s.world.db key n batchSize := by
  obtain ⟨m, hlt, hle, hoffset, hpart⟩ := hs.stored.batch hlast
  refine ⟨m, hlt, hle, hoffset, ?_⟩
  have hfilter : ∀ es : List (DomainEvent F),
      (es.filter (eventAdmits c.tenantId)).filter (authoredBy tenant) =
        es.filter (authoredBy tenant) := by
    intro es
    rw [List.filter_filter]
    refine List.filter_congr fun e _ => ?_
    cases he : authoredBy tenant e with
    | false => rfl
    | true => rw [admits_of_authoredBy hc he, Bool.true_and]
  have hwhole := congrArg (List.filter (authoredBy tenant)) hpart
  rw [List.filter_append, hfilter, hfilter] at hwhole
  rw [hwhole]
  congr 1
  exact List.filter_eq_self.mpr (h.authored hc hn)

end Tenant

/-! ### Progress -/

/-- What the consumers of a tenant have handled is what the tenant has up to place `m`,
where the last of it stands; their checkpoint stands at `n`. -/
structure Progressed (H : Digest) (s : Consumers P F) (c : DeterministicConsumer)
    (key tenant : String) (m n : Nat) : Prop where
  position : Position H F c s.world.db key n
  last : s.lastHandled c key = m
  le : m ≤ n
  handled : s.handledBy c key =
    ((partitionView H s.world.db key).take m).filter (authoredBy tenant)

/-- What every step keeps: a consumer has handled the events of its tenant up to a position. -/
structure Balanced (H : Digest) (s : Consumers P F) : Prop where
  safe : Safe H s.world
  positions : ∀ c key, ∃ n, Position H F c s.world.db key n
  progressed : ∀ c key tenant, c.tenantId = some tenant → ∃ m n, Progressed H s c key tenant m n
  all : ∀ call tenant, s.latest = some call → call.result = .ok 0 →
    call.consumer.tenantId = some tenant →
    s.handledBy call.consumer call.partitionKey =
      (partitionView H s.world.db call.partitionKey).filter (authoredBy tenant)

section Steps
variable {H : Digest} {s : Consumers P F} {c : DeterministicConsumer} {key tenant : String}
  {batchSize : Int} {checkpoints : Dict (String × String) CheckpointRow}

omit [DecidableEq P] in
theorem Balanced.tenantSound (h : Balanced H s) : TenantSound H s where
  reads := h.safe.stored.readPartition_whole
  front := fun c key tenant hc => by
    obtain ⟨m, n, hprogress⟩ := h.progressed c key tenant hc
    rw [hprogress.handled]
    exact (List.take_prefix m _).filter _
  once := fun c key tenant hc => by
    obtain ⟨m, n, hprogress⟩ := h.progressed c key tenant hc
    rw [hprogress.handled]
    refine (h.safe.stored.view_nodup key).sublist (List.Sublist.map _ ?_)
    exact List.filter_sublist.trans (List.take_sublist m _)
  all := h.all

omit [DecidableEq P] in
/-- Nothing of the tenant lies between the last event handled and the checkpoint. -/
theorem Progressed.passed {m n : Nat} (h : Progressed H s c key tenant m n) (hs : Safe H s.world)
    (hfair : Fair H s c key tenant batchSize) :
    s.handledBy c key =
      ((partitionView H s.world.db key).take n).filter (authoredBy tenant) := by
  obtain ⟨k, rfl⟩ := Nat.exists_eq_add_of_le h.le
  have hnone : (((partitionView (F := F) H s.world.db key).drop m).take k).filter
      (authoredBy tenant) = [] := by
    rw [List.filter_eq_nil_iff]
    intro e he hauthored
    have hmem : e ∈ (partitionView (F := F) H s.world.db key).take (m + k) := by
      rw [List.take_add]
      exact List.mem_append_right _ he
    obtain ⟨hview, hbefore⟩ := (hs.stored.mem_take_view key (m + k)).mp hmem
    obtain ⟨-, hbehind⟩ := (hs.stored.mem_drop_view key m).mp (List.mem_of_mem_take he)
    have hstart := h.position.start
    have hhandled := hfair.checkpoint e hview (by simpa [authoredBy] using hauthored) (by omega)
    have hlast := h.last
    omega
  rw [List.take_add, List.filter_append, hnone, List.append_nil, h.handled]

/-- The state a completed call leaves. -/
def Consumers.called (s : Consumers P F) (call : ConsumeCall F)
    (checkpoints : Dict (String × String) CheckpointRow) : Consumers P F where
  world := { s.world with db := { s.world.db with checkpoints := checkpoints } }
  calls := s.calls ++ [call]
  latest := some call

section Called
omit [DecidableEq P] [FloatCodec F] [SetText F]
variable (s : Consumers P F) (call : ConsumeCall F)
  (checkpoints : Dict (String × String) CheckpointRow)

theorem handledBy_called : (s.called call checkpoints).handledBy call.consumer call.partitionKey =
    s.handledBy call.consumer call.partitionKey ++ call.handled := by
  simp [Consumers.handledBy, Consumers.called]

theorem handledBy_called_other (h : ¬ (call.consumer = c ∧ call.partitionKey = key)) :
    (s.called call checkpoints).handledBy c key = s.handledBy c key := by
  simp [Consumers.handledBy, Consumers.called, h]

end Called

/-- What a call leaves behind: its batch handled, and its checkpoint moved. -/
theorem Balanced.call (h : Balanced H s) (c : DeterministicConsumer) (key : String)
    (batchSize : Int) (now : String) :
    ∃ n checkpoints, Position H F c s.world.db key n ∧
      Moves c key (batchAt (F := F) H c s.world.db key n batchSize) s.world.db
        { s.world.db with checkpoints := checkpoints } ∧
      Consumers.next H s (.consume c key batchSize now) =
        s.called ⟨c, key, .ok (batchAt (F := F) H c s.world.db key n batchSize).length,
          batchAt H c s.world.db key n batchSize⟩ checkpoints := by
  obtain ⟨n, hn⟩ := h.positions c key
  obtain ⟨checkpoints, hconsume, hmoves⟩ := hn.consume h.safe.stored batchSize now
  exact ⟨n, checkpoints, hn, hmoves, by simp only [Consumers.next, hconsume, Consumers.called]⟩

theorem Balanced.append (h : Balanced H s) (a : Step P F) :
    Balanced H (Consumers.next H s (.append a)) := by
  have hsafe := h.safe.next a
  obtain ⟨hrows, hcheckpoints⟩ := h.safe.next_grows a
  have hposition : ∀ {c key n}, Position H F c s.world.db key n →
      Position H F c (World.next H s.world a).db key n := by
    intro c key n hn
    refine ⟨(startOffset_congr hcheckpoints c key).trans hn.start, hn.within.trans ?_⟩
    exact (h.safe.stored.view_grows hsafe.stored hrows key).length_le
  refine ⟨hsafe, fun c key => ?_, fun c key tenant hc => ?_,
    fun call tenant hlatest => nomatch hlatest⟩
  · obtain ⟨n, hn⟩ := h.positions c key
    exact ⟨n, hposition hn⟩
  · obtain ⟨m, n, hprogress⟩ := h.progressed c key tenant hc
    obtain ⟨more, hmore⟩ := h.safe.stored.view_grows hsafe.stored hrows key
    have hwithin := hprogress.position.within
    have hle := hprogress.le
    refine ⟨m, n, hposition hprogress.position, hprogress.last, hle, ?_⟩
    show s.handledBy c key = ((partitionView H (World.next H s.world a).db key).take m).filter _
    rw [← hmore, List.take_append_of_le_length (by omega)]
    exact hprogress.handled

omit [DecidableEq P] in
/-- A fair call takes its own tenant's progress along. -/
theorem Progressed.called {m n : Nat} (h : Progressed H s c key tenant m n) (hs : Safe H s.world)
    (hfair : Fair H s c key tenant batchSize) (hc : c.tenantId = some tenant)
    {result : Except PyError Nat}
    (hmoves : Moves c key (batchAt (F := F) H c s.world.db key n batchSize) s.world.db
      { s.world.db with checkpoints := checkpoints }) :
    ∃ m' n', Progressed H
      (s.called ⟨c, key, result, batchAt H c s.world.db key n batchSize⟩ checkpoints)
      c key tenant m' n' := by
  have hadvanced := fun last => hfair.advanced hs hc h.position last
  have hpassed := h.passed hs hfair
  generalize batchAt (F := F) H c s.world.db key n batchSize = events at *
  let call : ConsumeCall F := ⟨c, key, result, events⟩
  have hhandled : (s.called call checkpoints).handledBy c key = s.handledBy c key ++ events :=
    handledBy_called s call checkpoints
  have hmoved := hmoves c key
  cases hlast : events.getLast? with
  | none =>
    rw [hlast] at hmoved
    rw [List.getLast?_eq_none_iff.mp hlast, List.append_nil] at hhandled
    refine ⟨m, n, ⟨hmoved.trans h.position.start, h.position.within⟩, ?_, h.le, ?_⟩
    · rw [Consumers.lastHandled, hhandled]
      exact h.last
    · rw [hhandled]
      exact h.handled
  | some last =>
    obtain ⟨p, -, hle, hoffset, hpart⟩ := hadvanced last hlast
    rw [hlast] at hmoved
    refine ⟨p, p, ⟨?_, hle⟩, ?_, Nat.le_refl p, ?_⟩
    · refine hmoved.trans ?_
      simp only [and_self, if_true, hoffset]
      omega
    · rw [Consumers.lastHandled, hhandled, List.getLast?_append, hlast]
      simpa using hoffset
    · rw [hhandled, hpassed]
      exact hpart.symm

omit [DecidableEq P] in
/-- Other consumers' progress is what it was, whatever has become of the checkpoint. -/
theorem Progressed.called_other {m n k : Nat} (h : Progressed H s c key tenant m n)
    {call : ConsumeCall F} (hother : ¬ (call.consumer = c ∧ call.partitionKey = key)) (hle : n ≤ k)
    (hk : Position H F c { s.world.db with checkpoints := checkpoints } key k) :
    Progressed H (s.called call checkpoints) c key tenant m k := by
  have hhandled := handledBy_called_other s call checkpoints hother
  refine ⟨hk, ?_, h.le.trans hle, ?_⟩
  · rw [Consumers.lastHandled, hhandled]
    exact h.last
  · rw [hhandled]
    exact h.handled

theorem Balanced.consume (h : Balanced H s) (c : DeterministicConsumer) (key : String)
    (batchSize : Int) (now : String) (hrule : Undisturbed H s (.consume c key batchSize now)) :
    Balanced H (Consumers.next H s (.consume c key batchSize now)) := by
  obtain ⟨n, checkpoints, hn, hmoves, hnext⟩ := h.call c key batchSize now
  rw [hnext]
  refine ⟨⟨h.safe.stored.checkpoints checkpoints, h.safe.pending⟩, fun c' key' => ?_,
    fun c' key' tenant hc' => ?_, ?_⟩
  · obtain ⟨k, hk⟩ := h.positions c' key'
    obtain ⟨k', -, hk'⟩ := hn.moved h.safe.stored hmoves hk
    exact ⟨k', hk'⟩
  · obtain ⟨m, k, hprogress⟩ := h.progressed c' key' tenant hc'
    by_cases hself : c = c' ∧ key = key'
    · obtain ⟨rfl, rfl⟩ := hself
      obtain rfl := hn.unique hprogress.position
      exact hprogress.called h.safe (hrule tenant hc') hc' hmoves
    · obtain ⟨k', hle, hk'⟩ := hn.moved h.safe.stored hmoves hprogress.position
      exact ⟨m, k', hprogress.called_other hself hle hk'⟩
  · rintro call tenant ⟨rfl⟩ hresult hc
    obtain ⟨m, k, hprogress⟩ := h.progressed c key tenant hc
    obtain rfl := hn.unique hprogress.position
    have hnil : batchAt (F := F) H c s.world.db key n batchSize = [] :=
      List.length_eq_zero_iff.mp (Except.ok.inj hresult)
    have hfair := hrule tenant hc
    have hrest := hfair.drained h.safe hc hn hnil
    rw [handledBy_called]
    show s.handledBy c key ++ batchAt H c s.world.db key n batchSize =
      (partitionView H s.world.db key).filter (authoredBy tenant)
    rw [hnil, List.append_nil, hprogress.passed h.safe hfair,
      ← List.take_append_drop n (partitionView H s.world.db key), List.filter_append, hrest,
      List.append_nil, List.take_append_drop]

/-- A call that is not fair loses an event of its tenant, or is given another's. -/
theorem Balanced.unfair (h : Balanced H s) (c : DeterministicConsumer) (key : String)
    (batchSize : Int) (now : String)
    (hsound : TenantSound H (Consumers.next H s (.consume c key batchSize now)))
    (hc : c.tenantId = some tenant) : Fair H s c key tenant batchSize := by
  obtain ⟨n, checkpoints, hn, -, hnext⟩ := h.call c key batchSize now
  obtain ⟨m, k, hprogress⟩ := h.progressed c key tenant hc
  obtain rfl := hn.unique hprogress.position
  rw [hnext] at hsound
  have hbehind : ∀ x ∈ batchAt (F := F) H c s.world.db key n batchSize,
      (n : Int) < x.header.partitionOffset := fun x hx =>
    ((h.safe.stored.mem_drop_view key n).mp
      (List.mem_filter.mp (mem_limitRows hx)).1).2
  have hzero : batchSize = 0 → batchAt (F := F) H c s.world.db key n batchSize = [] := by
    rintro rfl
    rfl
  have hempty : tenant = "" → ∀ e ∈ limitRows batchSize
      ((partitionView (F := F) H s.world.db key).drop (c.startOffset s.world.db key - 1).toNat),
      e ∈ batchAt (F := F) H c s.world.db key n batchSize := by
    rintro rfl e he
    rwa [batchAt_empty hc hn]
  generalize batchAt (F := F) H c s.world.db key n batchSize = events at *
  let call : ConsumeCall F := ⟨c, key, .ok events.length, events⟩
  have hhandled : (s.called call checkpoints).handledBy c key =
      ((partitionView H s.world.db key).take m).filter (authoredBy tenant) ++ events := by
    rw [← hprogress.handled]
    exact handledBy_called s call checkpoints
  have hfront : (s.called call checkpoints).handledBy c key <+:
      (partitionView H s.world.db key).filter (authoredBy tenant) := hsound.front c key tenant hc
  have hall : events = [] → (s.called call checkpoints).handledBy c key =
      (partitionView H s.world.db key).filter (authoredBy tenant) := by
    rintro rfl
    exact hsound.all _ tenant rfl rfl hc
  rw [hhandled] at hfront hall
  -- with nothing handed over, all the tenant has stands up to `m`
  have hdone : events = [] → ∀ e ∈ partitionView (F := F) H s.world.db key,
      e.header.authorTenantId = tenant → e.header.partitionOffset ≤ m := by
    intro hnil e he hauthor
    have hmem : e ∈ (partitionView H s.world.db key).filter (authoredBy tenant) :=
      List.mem_filter.mpr ⟨he, by simpa [authoredBy] using hauthor⟩
    rw [← hall hnil, hnil, List.append_nil] at hmem
    exact ((h.safe.stored.mem_take_view key m).mp (List.mem_filter.mp hmem).1).2
  have hstart := hn.start
  have hlast := hprogress.last
  have hle := hprogress.le
  refine ⟨fun e he hauthor hbefore => ?_, fun hsize e he hauthor => ?_, fun htenant e he => ?_⟩
  · by_contra hgt
    cases events with
    | nil =>
      have := hdone rfl e he hauthor
      omega
    | cons x rest =>
      -- the first event handed over is the tenant's next behind `m`, which `e` is not behind
      have hmem : e ∈ ((partitionView H s.world.db key).drop m).filter (authoredBy tenant) :=
        List.mem_filter.mpr ⟨(h.safe.stored.mem_drop_view key m).mpr ⟨he, by omega⟩,
          by simpa [authoredBy] using hauthor⟩
      have hsorted := ((h.safe.stored.view_pairwise (F := F) key).drop (i := m)).filter
        (authoredBy tenant)
      rw [← List.take_append_drop m (partitionView H s.world.db key), List.filter_append,
        List.take_append_drop, List.prefix_append_right_inj] at hfront
      obtain ⟨more, hmore⟩ := hfront
      rw [← hmore] at hmem hsorted
      have hx := hbehind x (List.mem_cons_self ..)
      rcases List.mem_cons.mp hmem with rfl | hmem
      · omega
      · have hlt := List.rel_of_pairwise_cons hsorted hmem
        omega
  · have := hdone (hzero hsize) e he hauthor
    omega
  · have hmem := hfront.subset (List.mem_append_right _ (hempty htenant e he))
    simpa [authoredBy] using (List.mem_filter.mp hmem).2

theorem Balanced.next (h : Balanced H s) (a : ConsumersStep P F) (hrule : Undisturbed H s a) :
    Balanced H (Consumers.next H s a) := by
  cases a with
  | append a => exact h.append a
  | consume c key batchSize now => exact h.consume c key batchSize now hrule

theorem Balanced.disturbed (h : Balanced H s) {a : ConsumersStep P F}
    (hrule : ¬ Undisturbed H s a) : ¬ TenantSound H (Consumers.next H s a) := by
  intro hsound
  refine hrule ?_
  cases a with
  | append a => trivial
  | consume c key batchSize now => exact fun tenant hc => h.unfair c key batchSize now hsound hc

end Steps

omit [DecidableEq P] in
theorem balanced_initial (H : Digest) :
    Balanced H (⟨World.start, [], none⟩ : Consumers P F) where
  safe := safe_start H
  positions := fun _ _ => ⟨0, rfl, Nat.zero_le _⟩
  progressed := fun _ _ _ _ => ⟨0, 0, ⟨rfl, Nat.zero_le _⟩, rfl, Nat.le_refl 0, rfl⟩
  all := fun _ _ h => nomatch h

/-- An event of tenant `b`, one of tenant `a`, and a consumer of `a`. -/
def sharedId : List (ConsumersStep Unit Literal) :=
  [.append (.read () { sampleCall "p" "1" onePayload with tenantId := "b" }),
    .append (.transact ()),
    .append (.read () { sampleCall "p" "2" onePayload with tenantId := "a" }),
    .append (.transact ()),
    .consume ⟨"c", some "a"⟩ "p" 100 "3"]

end PiPlatform.EventFabric
