import PiPlatform.EventFabric.Bus.Reading
import PiPlatform.EventFabric.Bus.Reproducible

/-! What `verify_partition_chain` accepts.

It accepts exactly the partitions whose events, as read, each carry the hash of what
they say and repeat the hash before (`verify_true_iff`). That is not every log that
`append` has written: the hash was taken of the payload in memory and is checked
against the payload read back, and the two have one text only when the payload's
keys keep their order as strings. `honest_verify_iff` is that condition. -/
namespace PiPlatform.EventFabric

open Library Library.Json Library.Python

variable {P F : Type} [FloatCodec F] [SetText F] {H : Digest}

/-- An event whose hash is that of what it says. -/
def Genuine (H : Digest) (e : DomainEvent F) : Prop :=
  computeHash H e.header e.payload = .ok e.eventHash

/-! ### The loop -/

theorem eventErrors_nil {prev : Option String} {e : DomainEvent F} :
    eventErrors H prev e = .ok [] ↔
      Genuine H e ∧ ∀ h ∈ prev, e.header.previousEventHash = h := by
  unfold Genuine eventErrors
  cases computeHash H e.header e.payload with
  | error err =>
    constructor
    · intro h
      cases h
    · rintro ⟨h, -⟩
      cases h
  | ok recomputed =>
    show Except.ok (_ ++ _) = Except.ok [] ↔ _
    rw [Except.ok.injEq, Except.ok.injEq, List.append_eq_nil_iff]
    refine and_congr ?_ ?_
    · constructor
      · intro h
        by_contra hne
        rw [if_neg fun heq => hne heq.symm] at h
        cases h
      · intro h
        rw [if_pos h.symm]
    · cases prev with
      | none => simp
      | some hash =>
        constructor
        · intro h
          by_contra hne
          have hne' : e.header.previousEventHash ≠ hash := by simpa using hne
          simp only [if_neg hne'] at h
          cases h
        · intro h
          have heq : e.header.previousEventHash = hash := h hash rfl
          simp only [if_pos heq]

theorem chainErrors_nil {prev : Option String} {es : List (DomainEvent F)} :
    chainErrors H prev es = .ok [] ↔ (∀ e ∈ es, Genuine H e) ∧
      (∀ h ∈ prev, ∀ e ∈ es.head?, e.header.previousEventHash = h) ∧ eventLinks.Chained es := by
  induction es generalizing prev with
  | nil => simp [chainErrors, Links.Chained]
  | cons e es ih =>
    have hsplit : chainErrors H prev (e :: es) = .ok [] ↔
        eventErrors H prev e = .ok [] ∧ chainErrors H (some e.eventHash) es = .ok [] := by
      rw [chainErrors]
      cases eventErrors H prev e with
      | error err => exact ⟨fun h => (nomatch h), fun h => (nomatch h.1)⟩
      | ok errors =>
        cases chainErrors H (some e.eventHash) es with
        | error err => exact ⟨fun h => (nomatch h), fun h => (nomatch h.2)⟩
        | ok rest =>
          show Except.ok (errors ++ rest) = Except.ok [] ↔ _
          simp only [Except.ok.injEq, List.append_eq_nil_iff]
    rw [hsplit, eventErrors_nil, ih, List.forall_mem_cons, Links.Chained, Links.Chained,
      List.isChain_cons]
    simp only [Option.mem_def, Option.some.injEq, List.head?_cons, eventLinks]
    constructor
    · rintro ⟨⟨he, hprev⟩, hes, hlink, hchain⟩
      exact ⟨⟨he, hes⟩, fun h hh e' he' => he' ▸ hprev h hh, fun e' he' => hlink _ rfl e' he',
        hchain⟩
    · rintro ⟨⟨he, hes⟩, hprev, hlink, hchain⟩
      exact ⟨⟨he, fun h hh => hprev h hh e rfl⟩, hes, fun h hh e' he' => hh ▸ hlink e' he', hchain⟩

/-- What the verifier accepts: a partition that reads, event by event genuine and
linked. -/
theorem verify_true_iff {db : Database} {key : String} :
    verifyPartitionChain H F db key = .ok (true, []) ↔
      ∃ es : List (DomainEvent F), readPartition H db key 1 1000000 none = .ok es ∧
        (∀ e ∈ es, Genuine H e) ∧ eventLinks.Chained es := by
  rw [verifyPartitionChain]
  cases hread : readPartition (F := F) H db key 1 1000000 none with
  | error err =>
    constructor
    · intro h
      cases h
    · rintro ⟨es, hes, -⟩
      cases hes
  | ok es =>
    have herrors : (do
        let errors ← chainErrors H none es
        return (errors.length == 0, errors)) = Except.ok (true, ([] : List String)) ↔
          chainErrors H none es = .ok [] := by
      cases chainErrors H none es with
      | error err =>
        constructor
        · intro h
          cases h
        · intro h
          cases h
      | ok errors =>
        show Except.ok (errors.length == 0, errors) = Except.ok (true, []) ↔ _
        simp only [Except.ok.injEq, Prod.mk.injEq, beq_iff_eq, List.length_eq_zero_iff]
        exact and_self_iff
    show (do
        let errors ← chainErrors H none es
        return (errors.length == 0, errors)) = Except.ok (true, ([] : List String)) ↔ _
    rw [herrors, chainErrors_nil]
    constructor
    · rintro ⟨hgenuine, -, hchain⟩
      exact ⟨es, rfl, hgenuine, hchain⟩
    · rintro ⟨es', hes, hgenuine, hchain⟩
      obtain rfl := Except.ok.inj hes
      refine ⟨hgenuine, fun h hh => ?_, hchain⟩
      cases hh

/-! ### Honest logs -/

section Reread
variable {e e' : DomainEvent F}

theorem Reread.genuine_iff (h : Reread (H := H) e e') (hinj : Function.Injective H.hex) :
    Genuine H e' ↔ e.payload.textOrdered = true := by
  obtain ⟨json, json', -, hjson', hhash, hiff⟩ := h.payload
  rw [Genuine, computeHash_eq, hjson', h.eventHash, h.header, hhash, ← hiff]
  show Except.ok _ = Except.ok _ ↔ _
  rw [Except.ok.injEq, hinj.eq_iff, String.append_right_inj]

theorem Reread.genuine (h : Reread (H := H) e e') (hordered : e.payload.textOrdered = true) :
    Genuine H e' := by
  obtain ⟨json, json', -, hjson', hhash, hiff⟩ := h.payload
  rw [Genuine, computeHash_eq, hjson', h.eventHash, h.header, hhash, hiff.mpr hordered]
  rfl

end Reread

theorem chained_reread {es es' : List (DomainEvent F)} (h : List.Forall₂ (Reread (H := H)) es es')
    (hlinked : eventLinks.Linked 1 "" es) : eventLinks.Chained es' := by
  have hlinked' : eventLinks.Linked 1 "" es' := by
    refine (eventLinks.linked_congr ?_ 1 "").mp hlinked
    refine h.imp fun e e' hread => ?_
    simp only [eventLinks, hread.header, hread.eventHash, and_self]
  exact hlinked'.chained

/-- A stored partition verifies when its payloads are text-ordered, and only then if
the digest has no collisions. -/
theorem Stored.verify {db : Database} {es : List (DomainEvent F)} (h : Stored H db es)
    (key : String) (hlen : (inPartition key es).length ≤ 1000000) :
    ((∀ e ∈ inPartition key es, e.payload.textOrdered = true) →
      verifyPartitionChain H F db key = .ok (true, [])) ∧
    (Function.Injective H.hex → verifyPartitionChain H F db key = .ok (true, []) →
      ∀ e ∈ inPartition key es, e.payload.textOrdered = true) := by
  obtain ⟨es', hread, hes'⟩ := h.readPartition_all key hlen
  have hchain := chained_reread hes' (h.linked key)
  refine ⟨fun hordered => ?_, fun hinj hverify e he => ?_⟩
  · refine verify_true_iff.mpr ⟨es', hread, fun e' he' => ?_, hchain⟩
    obtain ⟨e, he, heq⟩ := exists_left hes' he'
    exact heq.genuine (hordered e he)
  · obtain ⟨es'', hread', hgenuine, -⟩ := verify_true_iff.mp hverify
    obtain rfl : es' = es'' := Except.ok.inj (hread.symm.trans hread')
    obtain ⟨e', he', heq⟩ := exists_right hes' he
    exact (heq.genuine_iff hinj).mp (hgenuine e' he')

/-- The payloads of the calls to a partition that returned are text-ordered. -/
def World.TextOrdered (w : World P F) (key : String) : Prop :=
  ∀ p call e, (p, call, .ok e) ∈ w.ended → call.partitionKey = key →
    call.payload.value.textOrdered = true

omit [FloatCodec F] [SetText F] in
theorem textOrdered_events {w : World P F} (hw : Origin w) (key : String) :
    w.TextOrdered key ↔ ∀ e ∈ inPartition key w.returned, e.payload.textOrdered = true := by
  constructor
  · intro h e he
    obtain ⟨hmem, hkey⟩ := mem_inPartition.mp he
    obtain ⟨⟨p, call, result⟩, hended, hresult⟩ := List.mem_filterMap.mp hmem
    cases result with
    | error err => cases hresult
    | ok e' =>
      obtain rfl : e' = e := Option.some.inj hresult
      obtain ⟨hpayload, hcall⟩ := hw p call e' hended
      rw [hpayload]
      exact h p call e' hended (hcall.symm.trans hkey)
  · intro h p call e hended hkey
    obtain ⟨hpayload, hcall⟩ := hw p call e hended
    rw [← hpayload]
    exact h e (mem_inPartition.mpr ⟨mem_returned hended, hcall.trans hkey⟩)

variable (H) in
/-- **Main theorem.** After any run with at most 1,000,000 calls to a partition, the
verifier accepts it if every payload in it is text-ordered, and only then unless the
digest has collisions. -/
theorem honest_log_verifies [DecidableEq P] (steps : List (Step P F)) (key : String)
    (hcalls : (((appenders P F H).after steps).endedAt key).length ≤ 1000000) :
    (((appenders P F H).after steps).TextOrdered key →
      verifyPartitionChain H F ((appenders P F H).after steps).db key = .ok (true, [])) ∧
    (Function.Injective H.hex →
      verifyPartitionChain H F ((appenders P F H).after steps).db key = .ok (true, []) →
      ((appenders P F H).after steps).TextOrdered key) := by
  have hstored := (safe_after H steps).stored
  have horigin := origin_after H steps
  have hlen : (inPartition key ((appenders P F H).after steps).returned).length ≤ 1000000 := by
    rw [inPartition_returned horigin]
    exact (List.length_filterMap_le _ _).trans hcalls
  rw [textOrdered_events horigin]
  exact hstored.verify key hlen

omit [FloatCodec F] [SetText F] in
theorem textOrdered_of_all {w : World P F}
    (h : (w.ended.all fun c => c.2.1.payload.value.textOrdered) = true) (key : String) :
    w.TextOrdered key :=
  fun _ _ _ hmem _ => List.all_eq_true.mp h _ hmem

/-- Two calls to one partition and one to another between them. The keys are strings
out of order, or integers that sort alike as texts. -/
def stringKeys : World Bool Literal :=
  (appenders Bool Literal prefixDigest).after
    [.read true (sampleCall "p" "09:00"
        ⟨.dict [(.str (ofString "b"), .int 1), (.str (ofString "a"), .list [.bool true, .none])],
          rfl⟩),
      .read false (sampleCall "q" "09:01" ⟨.dict [(.str (ofString "turn"), .int 5)], rfl⟩),
      .transact true, .transact false,
      .read false (sampleCall "p" "09:02"
        ⟨.dict [(.str (ofString "n"), .dict [(.int 2, .str (ofString "x")), (.int 3, .none)])],
          rfl⟩),
      .transact false]

theorem honest_log_verifies_string_key :
    stringKeys.ended.map (fun c => c.2.2.toOption.isSome) = [true, true, true] ∧
      verifyPartitionChain prefixDigest Literal stringKeys.db "p" = .ok (true, []) := by
  refine ⟨by decide +kernel, ?_⟩
  refine (honest_log_verifies prefixDigest _ "p" (by decide +kernel)).1 ?_
  exact textOrdered_of_all (by decide +kernel) "p"

/-- One call whose payload has the keys 2 and 10. -/
def integerKeys : World Unit Literal :=
  (appenders Unit Literal prefixDigest).after
    [.read () (sampleCall "p" "09:00"
      ⟨.dict [(.int 2, .str (ofString "x")), (.int 10, .str (ofString "y"))], rfl⟩),
      .transact ()]

/-- The keys are sorted by value when they are written and as strings when they have
been read back, so the hash of a log nobody touched does not match. -/
theorem integer_keys_refused :
    integerKeys.ended.map (fun c => c.2.2.toOption.isSome) = [true] ∧
      verifyPartitionChain prefixDigest Literal integerKeys.db "p" ≠ .ok (true, []) := by
  have hstored : Stored prefixDigest integerKeys.db integerKeys.returned :=
    (safe_after prefixDigest _).stored
  have hordered : ((inPartition "p" integerKeys.returned).all fun e => e.payload.textOrdered) =
      false := by decide +kernel
  refine ⟨by decide +kernel, fun hverify => ?_⟩
  have hall := (hstored.verify "p" (by decide +kernel)).2 prefixDigest_injective hverify
  rw [List.all_eq_true.mpr hall] at hordered
  cases hordered

end PiPlatform.EventFabric
