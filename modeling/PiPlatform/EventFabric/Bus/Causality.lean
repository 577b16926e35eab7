import PiPlatform.EventFabric.Bus.Fabrics
import PiPlatform.EventFabric.Bus.Reading

/-! The causes of an event.

They are the hashes in the `causality_chain` of its metadata, and `expand` reads them off the
stored row. In a run whose calls check their causes, each of them is stored when the check
finds it and stays stored, so an event's causes always stand before it (`Causal`). -/
namespace PiPlatform.EventFabric

open Library Library.Json Library.Python

variable {P F : Type}

/-! ### Reading a row -/

structure DagNode (F : Type) where
  eventId : String
  eventType : String
  eventHash : String
  semanticIntent : PyValue F
  trustLevel : PyValue F
  schemaVersion : PyValue F
  policyClassification : PyValue F

def textChar? (c : CodePoint) : Option Char :=
  if c.val.isValidChar then some (Char.ofNat c.val) else none

/-- A hash of the chain, as SQLite is given it. -/
def hash? : PyValue F → Option String
  | .str t => (t.mapM textChar?).map String.ofList
  | _ => none

def hashes : PyValue F → Except ReadError (List String)
  | .list xs =>
    match xs.mapM hash? with
    | some hs => .ok hs
    | none => .error .notHashes
  | _ => .error .notHashes

variable [FloatCodec F] [SetText F]

/-- The node of a row, and the parents its metadata names. -/
def expand (F : Type) [FloatCodec F] (row : EventRow) :
    Except ReadError (DagNode F × List String) := do
  let payload ← busError (loads row.payloadJson)
  let semantic ← dictGet payload "_semantic" (.dict [])
  let semanticIntent ← dictGet semantic "semantic_intent" (.str (ofString "unknown"))
  let trustLevel ← dictGet semantic "trust_level" (.float (FloatCodec.read ['1', '.', '0']))
  let schemaVersion ← dictGet semantic "schema_version" (.str (ofString "1.0.0"))
  let policyClassification ←
    dictGet semantic "policy_classification" (.str (ofString "standard"))
  let parents ← hashes (← dictGet semantic "causality_chain" (.list []))
  return (⟨row.eventId, row.eventType, row.eventHash, semanticIntent, trustLevel, schemaVersion,
    policyClassification⟩, parents)

/-! ### What a row of the fabric shows -/

theorem textChar?_ofChar (c : Char) : textChar? (ofChar c) = some c := by
  have hvalid : (ofChar c).val.isValidChar := c.valid
  rw [textChar?, if_pos hvalid]
  exact congrArg some (Char.ofNat_toNat c)

theorem mapM_textChar? (cs : List Char) : (cs.map ofChar).mapM textChar? = some cs := by
  induction cs with
  | nil => rfl
  | cons c cs ih =>
    rw [List.map_cons, List.mapM_cons, textChar?_ofChar, ih]
    rfl

omit [FloatCodec F] [SetText F] in
theorem hash?_str (s : String) : hash? (.str (ofString s) : PyValue F) = some s := by
  rw [hash?, ofString, mapM_textChar?, Option.map_some, String.ofList_toList]

omit [FloatCodec F] [SetText F] in
theorem hashes_stringList (xs : List String) : hashes (stringList xs : PyValue F) = .ok xs := by
  have hmap : (xs.map fun s => (.str (ofString s) : PyValue F)).mapM hash? = some xs := by
    induction xs with
    | nil => rfl
    | cons x xs ih =>
      rw [List.map_cons, List.mapM_cons, hash?_str, ih]
      rfl
  rw [stringList, hashes, hmap]

omit [FloatCodec F] [SetText F] in
theorem same_stringList {xs : List String} {v : PyValue F} (h : (stringList xs).same v) :
    v = stringList xs := by
  have helems : ∀ (xs : List String) (ys : List (PyValue F)),
      sameElems (xs.map fun s => .str (ofString s)) ys →
        ys = xs.map fun s => .str (ofString s) := by
    intro xs
    induction xs with
    | nil =>
      intro ys hys
      cases ys with
      | nil => rfl
      | cons y ys => cases hys
    | cons x xs ih =>
      intro ys hys
      cases ys with
      | nil => cases hys
      | cons y ys =>
        obtain ⟨hy, hys⟩ := hys
        cases y with
        | str s => rw [List.map_cons, ih ys hys, show ofString x = s from hy]
        | _ => cases hy
  cases v with
  | list ys => rw [stringList, helems xs ys h]
  | _ => cases h

/-- A row with the text of a call's payload shows the call's causes. -/
theorem expand_call {H : Digest} {call : SemanticCall F} {append : AppendCall F} (row : EventRow)
    (happend : call.appendCall H = .ok append)
    (hjson : canonicalJson append.payload.value = .ok row.payloadJson) :
    ∃ node, expand F row = .ok (node, call.causalityChain) ∧ node.eventHash = row.eventHash := by
  obtain ⟨m, hm, happend⟩ := bind_ok happend
  cases happend
  have hchain : m.causalityChain = call.causalityChain := by
    obtain ⟨c, -, hm⟩ := bind_ok hm
    obtain ⟨reproJson, -, hm⟩ := bind_ok hm
    cases hm
    rfl
  have hwell := (semanticPayload call m).wellFormed
  simp only [semanticPayload, PyValue.wellFormed, Bool.and_eq_true, decide_eq_true_eq] at hwell
  have hmember : (semanticKey, m.dict) ∈ setItem semanticKey m.dict call.payload := by
    rw [mem_items_iff hwell.1, lookupItem_setItem, if_pos rfl]
  obtain ⟨items', hloads, hlookup⟩ := lookup_payload hwell.1 hjson
  obtain ⟨semantic, hsemantic, hsame⟩ := hlookup "_semantic" m.dict hmember (by decide)
    (json_metadata m)
  cases semantic with
  | dict items =>
    obtain ⟨v, hv, hlist⟩ := sameItems_iff.mp hsame.2
      (.str (ofString "causality_chain"), stringList m.causalityChain)
      (by simp [SemanticMetadata.items])
    rw [same_stringList hlist, hchain] at hv
    simp only [expand, hloads, busError, dictGet, hsemantic, hv, Option.getD_some, bind,
      Except.bind, hashes_stringList]
    exact ⟨_, rfl, rfl⟩
  | _ => cases hsame

/-! ### Causes stand before their effects -/

section Causal
variable [DecidableEq P] {H : Digest} {s : Fabrics P F}

/-- An event with this hash is stored. -/
def Known (db : Database) (eventHash : String) : Prop :=
  ∃ q ∈ db.events.rows, q.eventHash = eventHash

omit [FloatCodec F] [SetText F] in
theorem known_of_exists {db : Database} {eventHash : String}
    (h : checkEventHashExists db eventHash = true) : Known db eventHash := by
  obtain ⟨q, hq, heq⟩ := List.any_eq_true.mp h
  exact ⟨q, hq, of_decide_eq_true heq⟩

theorem Known.grow {db db' : Database} {eventHash : String}
    (hrows : db.events.rows <+: db'.events.rows) (h : Known db eventHash) :
    Known db' eventHash := by
  obtain ⟨q, hq, heq⟩ := h
  exact ⟨q, hrows.subset hq, heq⟩

/-- The row holds what the call appends. -/
def SemanticCall.Fills (H : Digest) (call : SemanticCall F) (row : EventRow) : Prop :=
  ∃ append, call.appendCall H = .ok append ∧
    canonicalJson append.payload.value = .ok row.payloadJson

/-- A call of the run, in the terms of the fabric. -/
def Begun (H : Digest) (run : List (FabricStep P F)) (semantic : SemanticCall F) : Prop :=
  ∃ p fabric call, FabricStep.begin p fabric call ∈ run ∧ call.semantic H = .ok semantic

/-- A row of a call of the run, with the call's causes stored before it. -/
structure RowCaused (H : Digest) (run : List (FabricStep P F)) (db : Database) (row : EventRow) :
    Prop where
  before : ∃ call node, Begun H run call ∧ call.Fills H row ∧
    expand F row = .ok (node, call.causalityChain) ∧ node.eventHash = row.eventHash ∧
    ∀ parentHash ∈ call.causalityChain,
      ∃ q ∈ db.events.rows, q.eventHash = parentHash ∧ q.globalOffset < row.globalOffset

variable {run : List (FabricStep P F)}

omit [DecidableEq P] in
theorem RowCaused.grow {db db' : Database} {row : EventRow}
    (hrows : db.events.rows <+: db'.events.rows) (h : RowCaused H run db row) :
    RowCaused H run db' row := by
  obtain ⟨call, node, hbegun, hfills, hexpand, hhash, hparents⟩ := h.before
  refine ⟨call, node, hbegun, hfills, hexpand, hhash, fun parentHash hmem => ?_⟩
  obtain ⟨q, hq, heq, hlt⟩ := hparents parentHash hmem
  exact ⟨q, hrows.subset hq, heq, hlt⟩

/-- What a call of the run has looked up is stored, and every stored event's causes stand before
it. -/
structure Causal (H : Digest) (run : List (FabricStep P F)) (s : Fabrics P F) : Prop where
  begun : ∀ p u, s.underway p = some u → Begun H run u.semantic
  checked : ∀ p u, s.underway p = some u → ∀ parentHash ∈ u.semantic.causalityChain,
    parentHash ∈ u.unchecked ∨ Known s.world.db parentHash
  rows : ∀ r ∈ s.world.db.events.rows, RowCaused H run s.world.db r

/-- A call of `append_semantic` that does not bypass the causal check, or a snapshot. -/
def FabricStep.Checked : FabricStep P F → Prop
  | .begin _ _ (.appendSemantic call) => call.bypassCausalCheck = false
  | _ => True

omit [DecidableEq P] in
/-- Every cause of such a call is among those to be looked up. -/
theorem parents_of_checked {p : P} {fabric : PiSemanticEventFabric F} {call : FabricCall F}
    {semantic : SemanticCall F} (h : FabricStep.Checked (.begin p fabric call))
    (hsemantic : call.semantic H = .ok semantic) : semantic.parents = semantic.causalityChain := by
  cases call with
  | appendSemantic call =>
    cases hsemantic
    exact if_neg (Bool.eq_false_iff.mp h)
  | writeAgentSnapshot call =>
    obtain ⟨c, -, hsemantic⟩ := bind_ok hsemantic
    obtain ⟨stateJson, -, hsemantic⟩ := bind_ok hsemantic
    cases hsemantic
    rfl

/-- What a transaction adds to the events: nothing, or the pending call's. -/
theorem transact_rows {w : World P F} (hw : Safe H w) {p : P} {q : Pending F}
    (hq : w.pending p = some q) :
    (World.next H w (.transact p)).db.events.rows = w.db.events.rows ∨
      (World.next H w (.transact p)).db.events.rows = w.db.events.rows ++
        [⟨(q.call.event H q.payloadJson q.head).columns q.payloadJson,
          w.db.events.sequence + 1⟩] := by
  obtain ⟨hjson, -⟩ := hw.pending p q hq
  simp only [World.next, hq]
  by_cases hcan : CanCommit (H := H) w.db q.call q.payloadJson q.head
  · rw [writes_commits hjson hcan]
    exact .inr rfl
  · rw [writes_rolls_back hjson hcan]
    exact .inl rfl

omit [DecidableEq P] in
/-- With the same processes' calls, or fewer, and more events of whose causes as much is
known, nothing is lost. -/
theorem Causal.grow (h : Causal H run s) {s' : Fabrics P F}
    (hrows : s.world.db.events.rows <+: s'.world.db.events.rows)
    (hunderway : ∀ p u, s'.underway p = some u → s.underway p = some u)
    (hnew : ∀ r ∈ s'.world.db.events.rows, r ∉ s.world.db.events.rows →
      RowCaused H run s'.world.db r) : Causal H run s' where
  begun p u hu := h.begun p u (hunderway p u hu)
  checked p u hu parentHash hmem :=
    (h.checked p u (hunderway p u hu) parentHash hmem).imp_right (Known.grow hrows)
  rows r hr := by
    by_cases hold : r ∈ s.world.db.events.rows
    · exact (h.rows r hold).grow hrows
    · exact hnew r hr hold

omit [FloatCodec F] [SetText F] in
theorem underway_drop {p p' : P} {u : Underway F} (h : (s.drop p).underway p' = some u) :
    s.underway p' = some u := by
  by_cases hp : p' = p
  · subst hp
    simp [Fabrics.drop] at h
  · simpa [Fabrics.drop, Function.update_of_ne hp] using h

theorem Causal.transact (h : Causal H run s) (hsafe : Safe H s.world) (hwired : Wired H s)
    (p : P) : Causal H run (s.next H (.transact p)) := by
  simp only [Fabrics.next]
  split
  next u q hu hq =>
    obtain ⟨v, hv, hchecked, happend⟩ := hwired.pending p q hq
    cases hu.symm.trans hv
    have hjson := (hsafe.pending p q hq).json
    have hgrow := (hsafe.next_grows (.transact p)).1
    refine h.grow hgrow (fun p' u' hu' => underway_drop hu') fun r hr hnew => ?_
    obtain hrows | hrows := transact_rows hsafe hq
    · exact absurd (hrows ▸ hr) hnew
    · have hr' := hr
      rw [show _ = _ from hrows] at hr'
      obtain rfl := List.mem_singleton.mp ((List.mem_append.mp hr').resolve_left hnew)
      obtain ⟨node, hexpand, hhash⟩ := expand_call
        ⟨(q.call.event H q.payloadJson q.head).columns q.payloadJson,
          s.world.db.events.sequence + 1⟩ happend hjson
      refine ⟨u.semantic, node, h.begun p u hu, ⟨q.call, happend, hjson⟩, hexpand, hhash,
        fun parentHash hmem => ?_⟩
      obtain hunchecked | ⟨c, hc, hcause⟩ := h.checked p u hu parentHash hmem
      · rw [hchecked] at hunchecked
        cases hunchecked
      · exact ⟨c, hgrow.subset hc, hcause, Nat.lt_succ_of_le (s.world.db.events.bounded c hc)⟩
  · exact h

theorem Causal.next (h : Causal H run s) (hsafe : Safe H s.world) (hwired : Wired H s)
    {a : FabricStep P F} (hrun : a ∈ run) (ha : a.Checked) : Causal H run (s.next H a) := by
  cases a with
  | begin p fabric call =>
    simp only [Fabrics.next]
    split
    · exact h
    · split
      · exact h
      · next semantic hsemantic =>
        split
        · exact h
        · refine ⟨fun p' u hu => ?_, fun p' u hu parentHash hmem => ?_, h.rows⟩
          all_goals by_cases hp : p' = p
          · subst hp
            obtain rfl : _ = u := by simpa using hu
            exact ⟨p', fabric, call, hrun, hsemantic⟩
          · exact h.begun p' u (by simpa [Function.update_of_ne hp] using hu)
          · subst hp
            obtain rfl : _ = u := by simpa using hu
            exact .inl ((parents_of_checked ha hsemantic).symm ▸ hmem)
          · exact h.checked p' u (by simpa [Function.update_of_ne hp] using hu) parentHash hmem
  | check p =>
    simp only [Fabrics.next]
    split
    next call semantic looked rest hu =>
      split
      · next hknown =>
        refine ⟨fun p' u hu' => ?_, fun p' u hu' parentHash hmem => ?_, h.rows⟩
        all_goals by_cases hp : p' = p
        · subst hp
          obtain rfl : _ = u := by simpa using hu'
          exact h.begun p' ⟨call, semantic, looked :: rest⟩ hu
        · exact h.begun p' u (by simpa [Function.update_of_ne hp] using hu')
        · subst hp
          obtain rfl : _ = u := by simpa using hu'
          rcases h.checked p' _ hu parentHash hmem with hunchecked | hfound
          · rcases List.mem_cons.mp hunchecked with rfl | hrest
            · exact .inr (known_of_exists hknown)
            · exact .inl hrest
          · exact .inr hfound
        · exact h.checked p' u (by simpa [Function.update_of_ne hp] using hu') parentHash hmem
      · exact h.grow List.prefix_rfl (fun p' u => underway_drop) fun r hr hnew => absurd hr hnew
    · exact h
  | read p =>
    have hrows : (s.next H (.read p)).world.db = s.world.db := by
      simp only [Fabrics.next]
      split
      · split
        · rfl
        · next append _ =>
          have hread : (World.next H s.world (.read p append)).db = s.world.db := by
            simp only [World.next]
            split
            · rfl
            · split <;> rfl
          split <;> exact hread
      · rfl
    refine h.grow (by rw [hrows]) (fun p' u hu => ?_) fun r hr hnew => ?_
    · simp only [Fabrics.next] at hu
      split at hu
      · split at hu
        · exact underway_drop hu
        · split at hu
          · exact hu
          · exact underway_drop hu
      · exact hu
    · rw [hrows] at hr
      exact absurd hr hnew
  | transact p => exact h.transact hsafe hwired p
  | abort p e =>
    have hrows : (World.next H s.world (.abort p e)).db = s.world.db := by
      simp only [World.next]
      split <;> rfl
    refine h.grow (by simp only [Fabrics.next, hrows, List.prefix_rfl])
      (fun p' u => underway_drop) fun r hr hnew => ?_
    simp only [Fabrics.next, hrows] at hr
    exact absurd hr hnew

variable (H) in
theorem causal_after (run : List (FabricStep P F))
    (h : (fabrics P F H).Admits (fun _ a => a.Checked) run) :
    Causal H run ((fabrics P F H).after run) := by
  have hstart : Causal H run (Fabrics.start : Fabrics P F) :=
    ⟨fun _ _ h => (nomatch h), fun _ _ h => (nomatch h), fun _ h => (nomatch h)⟩
  have hmem : (fabrics P F H).Admits (fun _ a => a ∈ run ∧ a.Checked) run :=
    fun before a behind heq => ⟨by simp [heq], h before a behind heq⟩
  exact ((fabrics P F H).invariant_under (fun _ a => a ∈ run ∧ a.Checked)
    (fun s => (Safe H s.world ∧ Wired H s) ∧ Causal H run s)
    ⟨⟨safe_start H, wired_start⟩, hstart⟩
    (fun s a ha hs => ⟨⟨safe_next hs.1.1 a, hs.1.2.next a⟩, hs.2.next hs.1.1 hs.1.2 ha.1 ha.2⟩)
    run hmem).2

end Causal

end PiPlatform.EventFabric
