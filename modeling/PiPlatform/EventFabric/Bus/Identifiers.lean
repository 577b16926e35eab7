import PiPlatform.EventFabric.Bus.Reproducible

/-! When an event id is taken.

An event id joins tenant, partition and offset with underscores, and nothing keeps
underscores out of the first two. The offset is what stands behind the last one, so
an id is tenant, underscore, partition as one string, and the offset (`eventId_inj`).
Two partitions can then claim the same id with different tenants, and the table's
`UNIQUE(event_id)` refuses the second event although its place is free.

`numbered` gives each call its place from the calls alone. With one process no call
is refused exactly when no two partitions reach the same id (`no_violation_iff`). -/
namespace PiPlatform.EventFabric

open Library Library.Json Library.Python

variable {F : Type}

/-! ### Ids -/

theorem eventId_inj {tenant tenant' key key' : String} {n n' : Int} :
    eventId tenant key n = eventId tenant' key' n' ↔
      tenant ++ "_" ++ key = tenant' ++ "_" ++ key' ∧ n = n' := by
  have hid : ∀ (tenant key : String) (n : Int), (eventId tenant key n).toList =
      "evt_".toList ++ ((tenant ++ "_" ++ key).toList ++ '_' :: intText n) := by
    intro tenant key n
    simp [eventId]
  constructor
  · intro h
    have hlist := congrArg String.toList h
    rw [hid, hid, List.append_cancel_left_eq] at hlist
    obtain ⟨hfront, hoffset⟩ := append_cons_cancel (underscore_not_mem_intText n)
      (underscore_not_mem_intText n') hlist
    exact ⟨String.toList_injective hfront, intText_injective hoffset⟩
  · rintro ⟨h, rfl⟩
    apply String.toList_injective
    rw [hid, hid, h]

/-! ### One process -/

variable [FloatCodec F] [SetText F] (H : Digest)

/-- The steps of one process that makes one call after another. -/
def callSteps (calls : List (AppendCall F)) : List (Step Unit F) :=
  calls.flatMap fun call => [.read () call, .transact ()]

def oneProcess (calls : List (AppendCall F)) : World Unit F :=
  (appenders Unit F H).after (callSteps calls)

theorem oneProcess_snoc (calls : List (AppendCall F)) (call : AppendCall F) :
    oneProcess H (calls ++ [call]) =
      World.next H (World.next H (oneProcess H calls) (.read () call)) (.transact ()) := by
  simp [oneProcess, callSteps, System.after, appenders]

theorem oneProcess_safe (calls : List (AppendCall F)) : Safe H (oneProcess H calls) :=
  safe_after H _

theorem oneProcess_idle (calls : List (AppendCall F)) : (oneProcess H calls).pending () = none := by
  induction calls using List.reverseRecOn with
  | nil => rfl
  | append_singleton calls call ih =>
    rw [oneProcess_snoc, next_append H ih]
    simp [World.finish]

/-- One call more. -/
theorem oneProcess_append (calls : List (AppendCall F)) (call : AppendCall F) :
    oneProcess H (calls ++ [call]) = (oneProcess H calls).finish () call
      (append H (oneProcess H calls).db call).1 (append H (oneProcess H calls).db call).2 := by
  rw [oneProcess_snoc, next_append H (oneProcess_idle H calls)]

/-! ### Numbering the calls -/

/-- A call with a payload that can be written goes to the end of its partition. -/
def number (acc : List (AppendCall F × Nat)) (call : AppendCall F) :
    List (AppendCall F × Nat) :=
  match canonicalJson call.payload.value with
  | .error _ => acc
  | .ok _ =>
    acc ++ [(call, (acc.filter fun x => x.1.partitionKey = call.partitionKey).length + 1)]

def numbered (calls : List (AppendCall F)) : List (AppendCall F × Nat) := calls.foldl number []

theorem numbered_snoc (calls : List (AppendCall F)) (call : AppendCall F) :
    numbered (calls ++ [call]) = number (numbered calls) call := by
  simp [numbered]

/-- Two calls, to two partitions, that reach one id. -/
def Clash (x y : AppendCall F × Nat) : Prop :=
  x.1.partitionKey ≠ y.1.partitionKey ∧ x.2 = y.2 ∧
    x.1.tenantId ++ "_" ++ x.1.partitionKey = y.1.tenantId ++ "_" ++ y.1.partitionKey

/-- No call so far was refused for a constraint. -/
def World.NoViolation {P : Type} (w : World P F) : Prop :=
  ∀ p call, (p, call, .error .integrityError) ∉ w.ended

variable {H} {w : World Unit F}

/-- What one more call does to a store that refused none before. -/
theorem append_cases (hw : Safe H w) (call : AppendCall F) :
    (∃ e, canonicalJson call.payload.value = .error e ∧
      (append H w.db call).1 = .error .typeError) ∨
    (∃ json, canonicalJson call.payload.value = .ok json ∧
      (append H w.db call).1 = .ok (call.event H json (headOf (inPartition call.partitionKey
        w.returned)))) ∨
    (∃ json, canonicalJson call.payload.value = .ok json ∧
      (call.event H json (headOf (inPartition call.partitionKey w.returned))).header.eventId ∈
        w.returned.map (fun e => e.header.eventId) ∧
      (append H w.db call).1 = .error .integrityError) := by
  cases hjson : canonicalJson call.payload.value with
  | error e =>
    refine .inl ⟨e, rfl, ?_⟩
    simp only [append, hjson, canonicalJson_error hjson]
  | ok json =>
    refine .inr ?_
    have hhead := hw.stored.readHead call.partitionKey
    simp only [append, hjson, hhead]
    by_cases hcan : CanCommit (H := H) w.db call json
        (headOf (inPartition call.partitionKey w.returned))
    · exact .inl ⟨json, rfl, by rw [writes_commits hjson hcan]⟩
    · refine .inr ⟨json, rfl, ?_, by rw [writes_rolls_back hjson hcan]⟩
      -- the head is current and the place is free, so it is the id that is taken
      by_contra hid
      refine hcan ⟨fun hnone => ?_, ?_, ?_⟩
      · rw [hw.stored.get?_isNone]
        rwa [headOf, Option.map_eq_none_iff, List.getLast?_eq_none_iff] at hnone
      · rwa [hw.stored.ids]
      · rw [hw.stored.places]
        intro hplace
        obtain ⟨e, he, heq⟩ := List.mem_map.mp hplace
        obtain ⟨hkey, hoffset⟩ := Prod.mk.inj heq
        have hlinked := hw.stored.linked call.partitionKey
        have hbound := (hlinked.place_mem (mem_inPartition.mpr ⟨he, hkey⟩)).2
        have hnew := offset_event H call json hlinked rfl
        have hplace' : eventLinks.place e = e.header.partitionOffset := rfl
        have hcolumn : ((call.event H json (headOf (inPartition call.partitionKey
            w.returned))).columns json).partitionOffset = (call.event H json (headOf
              (inPartition call.partitionKey w.returned))).header.partitionOffset := rfl
        omega

/-- Tenant, partition and place. -/
def DomainEvent.tag (e : DomainEvent F) : String × String × Int :=
  (e.header.authorTenantId, e.header.partitionKey, e.header.partitionOffset)

def callTag (x : AppendCall F × Nat) : String × String × Int :=
  (x.1.tenantId, x.1.partitionKey, (x.2 : Int))

omit [FloatCodec F] [SetText F] in
/-- A new event's place and number, once the calls before it have been placed. -/
theorem number_eq {es : List (DomainEvent F)} {xs : List (AppendCall F × Nat)}
    (h : es.map DomainEvent.tag = xs.map callTag) (key : String) :
    (inPartition key es).length = (xs.filter fun x => x.1.partitionKey = key).length := by
  have hfilter := congrArg (fun tags => (tags.filter fun t => t.2.1 = key).length) h
  simp only [List.filter_map, List.length_map] at hfilter
  exact hfilter

theorem tag_event (hw : Safe H w) (call : AppendCall F) (json : String)
    {xs : List (AppendCall F × Nat)} (h : w.returned.map DomainEvent.tag = xs.map callTag) :
    (call.event H json (headOf (inPartition call.partitionKey w.returned))).tag =
      callTag (call, (xs.filter fun x => x.1.partitionKey = call.partitionKey).length + 1) := by
  have hoffset := offset_event H call json (hw.stored.linked call.partitionKey) rfl
  rw [number_eq h] at hoffset
  refine Prod.ext rfl (Prod.ext rfl ?_)
  simp only [DomainEvent.tag, callTag, hoffset]
  omega

theorem NoViolation.of_snoc {calls : List (AppendCall F)} {call : AppendCall F}
    (h : (oneProcess H (calls ++ [call])).NoViolation) : (oneProcess H calls).NoViolation := by
  intro p c hmem
  rw [oneProcess_append] at h
  exact h p c (List.mem_append_left _ hmem)

/-- While no call has been refused, every event stands where its call was numbered. -/
theorem returned_tags (calls : List (AppendCall F)) (hno : (oneProcess H calls).NoViolation) :
    (oneProcess H calls).returned.map DomainEvent.tag = (numbered calls).map callTag := by
  induction calls using List.reverseRecOn with
  | nil => rfl
  | append_singleton calls call ih =>
    have htags := ih (NoViolation.of_snoc hno)
    have hsafe := oneProcess_safe H calls
    rw [numbered_snoc, number]
    rw [oneProcess_append] at hno ⊢
    rcases append_cases hsafe call with ⟨e, hjson, hresult⟩ | ⟨json, hjson, hresult⟩ |
      ⟨json, -, -, hresult⟩
    · rw [hresult, returned_finish_error, hjson, htags]
    · rw [hresult, returned_finish_ok, hjson, List.map_append, List.map_append, htags]
      simp only [List.map_cons, List.map_nil, tag_event hsafe call json htags]
    · rw [hresult] at hno
      exact absurd (List.mem_append_right _ (List.mem_singleton_self _)) (hno () call)

theorem mem_numbered_snoc {calls : List (AppendCall F)} {call : AppendCall F}
    {x : AppendCall F × Nat} (h : x ∈ numbered calls) : x ∈ numbered (calls ++ [call]) := by
  rw [numbered_snoc, number]
  split
  · exact h
  · exact List.mem_append_left _ h

theorem eventId_of_mem (hw : Safe H w) {e : DomainEvent F}
    (he : e ∈ w.returned) : e.header.eventId =
      eventId e.header.authorTenantId e.header.partitionKey e.header.partitionOffset := by
  obtain ⟨row, -, hrow⟩ := exists_left hw.stored.rows he
  exact hrow.eventId

/-- Without a clash no call is refused: an id that is taken was claimed from another
partition. -/
theorem noViolation_of_not_clash (calls : List (AppendCall F))
    (h : ∀ x ∈ numbered calls, ∀ y ∈ numbered calls, ¬ Clash x y) :
    (oneProcess H calls).NoViolation := by
  induction calls using List.reverseRecOn with
  | nil => exact fun p call hmem => (nomatch hmem)
  | append_singleton calls call ih =>
    have hno := ih fun x hx y hy => h x (mem_numbered_snoc hx) y (mem_numbered_snoc hy)
    have hsafe := oneProcess_safe H calls
    have hsnoc : ∀ {result db}, result ≠ .error .integrityError →
        ((oneProcess H calls).finish () call result db).NoViolation := by
      intro result db hne p c hmem
      rcases List.mem_append.mp hmem with hmem | hmem
      · exact hno p c hmem
      · simp only [List.mem_singleton, Prod.mk.injEq] at hmem
        exact hne hmem.2.2.symm
    rw [oneProcess_append]
    rcases append_cases hsafe call with ⟨e, -, hresult⟩ | ⟨json, -, hresult⟩ |
      ⟨json, hjson, hid, -⟩
    · exact hsnoc (by rw [hresult]; simp)
    · exact hsnoc (by rw [hresult]; simp)
    · exfalso
      have htags := returned_tags calls hno
      obtain ⟨e, he, hsame⟩ := List.mem_map.mp hid
      have hplace := tag_event hsafe call json htags
      rw [eventId_of_mem hsafe he] at hsame
      obtain ⟨hjoined, hsum⟩ := eventId_inj.mp hsame
      have hoffset : e.header.partitionOffset = (call.event H json (headOf (inPartition
          call.partitionKey (oneProcess H calls).returned))).header.partitionOffset := hsum
      obtain ⟨x, hx, hxtag⟩ := List.mem_map.mp (htags ▸ List.mem_map_of_mem he)
      obtain ⟨hxtenant, hxrest⟩ := Prod.mk.inj hxtag
      obtain ⟨hxkey, hxoffset⟩ := Prod.mk.inj hxrest
      have hlinked := hsafe.stored.linked call.partitionKey
      have hnew := offset_event H call json hlinked rfl
      by_cases hkey : x.1.partitionKey = call.partitionKey
      · have hmem := mem_inPartition.mpr ⟨he, hxkey.symm.trans hkey⟩
        have hbound : e.header.partitionOffset < _ := (hlinked.place_mem hmem).2
        omega
      · have hk := (Prod.mk.inj (Prod.mk.inj hplace).2).2
        refine h x (mem_numbered_snoc hx)
          (call, ((numbered calls).filter fun x => x.1.partitionKey = call.partitionKey).length + 1)
          ?_ ⟨hkey, ?_, ?_⟩
        · rw [numbered_snoc, number, hjson]
          exact List.mem_append_right _ (List.mem_singleton_self _)
        · exact Int.ofNat.inj (hxoffset.trans (hoffset.trans hk))
        · rw [hxtenant, hxkey, hjoined]

variable (H) in
/-- **Main theorem.** One process is refused no event for a constraint exactly when no
two of its calls to different partitions, each as far into its own, have the same
tenant, underscore, partition. -/
theorem no_violation_iff (calls : List (AppendCall F)) :
    (oneProcess H calls).NoViolation ↔
      ∀ x ∈ numbered calls, ∀ y ∈ numbered calls, ¬ Clash x y := by
  refine ⟨fun hno x hx y hy hclash => ?_, noViolation_of_not_clash calls⟩
  have hsafe := oneProcess_safe H calls
  have htags := returned_tags calls hno
  obtain ⟨e, he, hetag⟩ := List.mem_map.mp (htags.symm ▸ List.mem_map_of_mem hx)
  obtain ⟨e', he', hetag'⟩ := List.mem_map.mp (htags.symm ▸ List.mem_map_of_mem hy)
  obtain ⟨htenant, hrest⟩ := Prod.mk.inj hetag
  obtain ⟨hkey, hoffset⟩ := Prod.mk.inj hrest
  obtain ⟨htenant', hrest'⟩ := Prod.mk.inj hetag'
  obtain ⟨hkey', hoffset'⟩ := Prod.mk.inj hrest'
  obtain ⟨hne, hnumber, hjoined⟩ := hclash
  have hid : e.header.eventId = e'.header.eventId := by
    rw [eventId_of_mem hsafe he, eventId_of_mem hsafe he', eventId_inj, htenant, htenant', hkey,
      hkey', hoffset, hoffset', hnumber]
    exact ⟨hjoined, rfl⟩
  have hnodup := (oneProcess H calls).db.events.ids_nodup
  rw [hsafe.stored.ids] at hnodup
  have heq : e = e' := List.inj_on_of_nodup_map hnodup he he' hid
  exact hne (by rw [← hkey, heq, hkey'])

/-- Tenant `a_b` in partition `c`, then tenant `a` in partition `b_c`: both events are
the first of their partitions, and both would be `evt_a_b_c_1`. -/
theorem first_event_refused :
    (oneProcess prefixDigest
        [{ sampleCall "c" "1" onePayload with tenantId := "a_b" },
          { sampleCall "b_c" "2" onePayload with tenantId := "a" }]).ended.map
      (fun c => match c.2.2 with
        | .ok _ => none
        | .error e => some e) = [none, some .integrityError] := by
  decide +kernel

end PiPlatform.EventFabric
