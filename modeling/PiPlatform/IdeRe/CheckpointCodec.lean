import PiPlatform.Library.Python.JsonForm

/-! Checkpoints of a campaign as texts with a marker and a hash.

The hash is taken of the Python value when it is packed and of the value read back when it is
unpacked. Integer keys are sorted by value the first time and by their decimals the second, so a
checkpoint is refused where the two orders differ, though nobody touched it (`checkpoint_iff`). -/
namespace PiPlatform.IdeRe.Checkpoint

open Library Library.Json Library.Python

inductive CheckpointError where
  | typeError
  | attributeError
  | keyError (key : String)
  | validationError
  | checkpointMismatch (message : String)
  deriving DecidableEq

/-- `sorted` of what is not all strings. None where it raises a `TypeError`. -/
class SortOther (F : Type) where
  sorted : List (PyValue F) → Option (List (PyValue F))

variable {F : Type}

/-! ### Canonical values -/

section Canonical
variable [SortOther F]

def sortedElems (xs : List (PyValue F)) : Option (List (PyValue F)) :=
  match xs.mapM PyValue.str? with
  | some texts => some (sortTexts texts)
  | none => SortOther.sorted xs

/-- `sorted(value)`, with the values. -/
def sortKeyed {V : Type} (items : List (Key × V)) : Option (List (Key × V)) :=
  match items.mapM fun p => p.1.str?.map (·, p.2) with
  | some texts => some ((texts.insertionSort fun a b => a.1 ≤ b.1).map fun p => (.str p.1, p.2))
  | none =>
    match items.mapM fun p => p.1.int?.map (·, p.2) with
    | some ints => some ((ints.insertionSort fun a b => a.1 ≤ b.1).map fun p => (.int p.1, p.2))
    | none => none

mutual

/-- `_canonical(value)`. None where it raises a `TypeError`. -/
def canonicalValue : PyValue F → Option (PyValue F)
  | .dict items => do
    let canon ← canonicalPairs items
    some (.dict (← sortKeyed canon))
  | .set xs => do
    let canon ← canonicalValues xs
    some (.list (← sortedElems canon))
  | .list xs => (canonicalValues xs).map .list
  | .tuple xs => (canonicalValues xs).map .list
  | v => some v

def canonicalValues : List (PyValue F) → Option (List (PyValue F))
  | [] => some []
  | x :: xs => do
    let canon ← canonicalValue x
    some (canon :: (← canonicalValues xs))

def canonicalPairs : List (Key × PyValue F) → Option (List (Key × PyValue F))
  | [] => some []
  | (k, v) :: items => do
    let canon ← canonicalValue v
    some ((k, canon) :: (← canonicalPairs items))

end

end Canonical

/-! ### The codec -/

section Codec
variable [FloatCodec F] [SetText F] [SortOther F]

def key (s : String) : Key := .str (ofString s)

def marker : String := "__pi_re_checkpoint__"

/-- `json.dumps(v, sort_keys=True, separators=(",", ":"), default=str)` -/
def dumpsCompact (v : PyValue F) : Except CheckpointError String :=
  match dumps .compact v with
  | .ok text => .ok text
  | .error _ => .error .typeError

def canon (v : PyValue F) : Except CheckpointError (PyValue F) :=
  match canonicalValue v with
  | some canon => .ok canon
  | none => .error .typeError

/-- `content_hash(payload)`, where `digest` is the hash's first 16 hexadecimal digits. -/
def hashContent (digest : String → String) (payload : PyValue F) :
    Except CheckpointError String := do
  return digest (← dumpsCompact (← canon payload))

/-- What is dumped of a state. -/
def checkpoint (state : PyValue F) (hash : String) : PyValue F :=
  .dict [(key marker, .bool true), (key "state", state), (key "state_hash", .str (ofString hash))]

def packState (digest : String → String) (state : PyValue F) : Except CheckpointError String := do
  let canon ← canon state
  dumpsCompact (checkpoint canon (← hashContent digest state))

/-- The members of a text that `is_checkpoint_marker`. -/
def marked (content : String) : Option (List (Key × PyValue F)) :=
  match loads content with
  | .ok (.dict doc) =>
    match lookupItem (key marker) doc with
    | some (.bool true) => some doc
    | _ => none
  | _ => none

def mismatch : CheckpointError :=
  .checkpointMismatch "checkpoint state_hash mismatch - state was tampered with or corrupted"

def isText (v : Option (PyValue F)) (s : String) : Bool :=
  match v with
  | some (.str t) => t = ofString s
  | _ => false

/-- None if the text is no checkpoint. -/
def unpackState (digest : String → String) (content : String) :
    Except CheckpointError (Option (PyValue F)) :=
  match marked content with
  | none => .ok none
  | some doc =>
    match (lookupItem (key "state") doc).getD (.dict []) with
    | .dict state => do
      if isText (lookupItem (key "state_hash") doc)
          (← hashContent digest (.dict state)) then
        return some (.dict state)
      else .error mismatch
    | _ => .error .attributeError

end Codec

/-! ### Campaigns -/

/-- What pydantic does with knowledge graphs, which are equal in any order of their nodes. -/
structure Graphs (F G : Type) where
  /-- `model_dump(mode="json")` -/
  modelDump : G → PyValue F
  modelValidate : PyValue F → Option G
  json_modelDump : ∀ graph, (modelDump graph).json = true
  modelValidate_same : ∀ graph v, (modelDump graph).same v → modelValidate v = some graph

structure PhaseRecord (F : Type) where
  phase : PyValue F
  stage : PyValue F
  nodeCount : PyValue F
  summary : PyValue F

structure Campaign (F G : Type) where
  target : Text
  graph : G
  records : List (PhaseRecord F)
  transitions : List (PyValue F)

/-- `vars(record)` -/
def PhaseRecord.vars (r : PhaseRecord F) : PyValue F :=
  .dict [(key "phase", r.phase), (key "stage", r.stage), (key "node_count", r.nodeCount),
    (key "summary", r.summary)]

def recordKeys : List Key := [key "phase", key "stage", key "node_count", key "summary"]

/-- `PhaseRecord(**r)` -/
def PhaseRecord.make : PyValue F → Except CheckpointError (PhaseRecord F)
  | .dict items =>
    if items.all fun p => p.1 ∈ recordKeys then
      match lookupItem (key "phase") items, lookupItem (key "stage") items,
        lookupItem (key "node_count") items with
      | some phase, some stage, some nodeCount =>
        .ok ⟨phase, stage, nodeCount, (lookupItem (key "summary") items).getD (.dict [])⟩
      | _, _, _ => .error .typeError
    else .error .typeError
  | _ => .error .typeError

/-- What a loop over the value sees. -/
def iterate : PyValue F → Except CheckpointError (List (PyValue F))
  | .list xs => .ok xs
  | .tuple xs => .ok xs
  | .set xs => .ok xs
  | .str s => .ok (s.map fun c => .str [c])
  | .dict items => .ok (items.map fun p => match p.1 with
    | .str s => .str s
    | .int i => .int i)
  | _ => .error .typeError

section Campaigns
variable {G : Type} [FloatCodec F] [SetText F] [SortOther F] (graphs : Graphs F G)
  (digest : String → String)

def Campaign.state (c : Campaign F G) : PyValue F :=
  .dict [(key "target", .str c.target), (key "graph", graphs.modelDump c.graph),
    (key "records", .list (c.records.map PhaseRecord.vars)),
    (key "transitions", .list c.transitions)]

def packCampaign (c : Campaign F G) : Except CheckpointError String :=
  packState digest (c.state graphs)

/-- `state[name]` -/
def getItem (state : List (Key × PyValue F)) (name : String) : Except CheckpointError (PyValue F) :=
  match lookupItem (key name) state with
  | some v => .ok v
  | none => .error (.keyError name)

/-- Target, graph, records and transitions, read in this order. -/
def restoreCampaign (content : String) : Except CheckpointError (Campaign F G) := do
  match ← unpackState digest content with
  | some (.dict state) =>
    match ← getItem state "target" with
    | .str target =>
      match graphs.modelValidate (← getItem state "graph") with
      | some graph =>
        let records ← iterate ((lookupItem (key "records") state).getD (.list []))
        let records ← records.mapM PhaseRecord.make
        let transitions ← iterate ((lookupItem (key "transitions") state).getD (.list []))
        return ⟨target, graph, records, transitions⟩
      | none => .error .validationError
    | _ => .error .typeError
  | _ => .error (.checkpointMismatch "content is not a pi-re checkpoint")

end Campaigns

/-! ### What checkpoints are for -/

section Purpose
variable {G : Type} [FloatCodec F] [SetText F] [SortOther F] (graphs : Graphs F G)
  (digest : String → String)

/-- What was packed is unpacked in its JSON form. -/
def Survives (state : PyValue F) : Prop :=
  ∃ content state', packState digest state = .ok content ∧
    unpackState digest content = .ok (some state') ∧ state'.same state.jsonForm

/-- Field by field what Python calls equal. -/
structure PhaseRecord.Same (r r' : PhaseRecord F) : Prop where
  phase : r.phase.same r'.phase
  stage : r.stage.same r'.stage
  nodeCount : r.nodeCount.same r'.nodeCount
  summary : r.summary.same r'.summary

/-- The same campaign, its records and transitions by `==`. -/
structure Campaign.Same (c c' : Campaign F G) : Prop where
  target : c.target = c'.target
  graph : c.graph = c'.graph
  records : List.Forall₂ PhaseRecord.Same c.records c'.records
  transitions : List.Forall₂ PyValue.same c.transitions c'.transitions

/-- What was packed is restored. -/
def Restores (c : Campaign F G) : Prop :=
  ∃ content c', packCampaign graphs digest c = .ok content ∧
    restoreCampaign graphs digest content = .ok c' ∧ c'.Same c

/-- The second text is the first with another object for its state. -/
structure Tampered (content content' : String) : Prop where
  replaced : ∃ doc doc' state state', marked content = some doc ∧ marked content' = some doc' ∧
    lookupItem (key "state") doc = some (.dict state) ∧
    lookupItem (key "state") doc' = some (.dict state') ∧
    lookupItem (key "state_hash") doc' = lookupItem (key "state_hash") doc ∧
    ¬ (PyValue.dict state').same (PyValue.dict state : PyValue F)

/-- The form has no split surrogates, and the keys of each dictionary, in their own order, ascend
as texts. -/
def Ordered (state : PyValue F) : Prop :=
  state.jsonForm.json = true ∧ state.textOrdered = true

/-- What is built from JSON already. -/
def Campaign.json (c : Campaign F G) : Prop :=
  joinSurrogates c.target = c.target ∧ (∀ r ∈ c.records, r.vars.json = true) ∧
    jsonElems c.transitions = true

end Purpose

/-! ### Canonical values are written alike -/

section Sorting

theorem insertionSort_twice {T V : Type} [LinearOrder T] (ms : List (T × V)) :
    ((ms.insertionSort fun a b => a.1 ≤ b.1).insertionSort fun a b => a.1 ≤ b.1) =
      ms.insertionSort fun a b => a.1 ≤ b.1 := by
  have : Std.Total fun a b : T × V => a.1 ≤ b.1 := ⟨fun a b => le_total a.1 b.1⟩
  have : IsTrans (T × V) fun a b => a.1 ≤ b.1 := ⟨fun a b c => le_trans⟩
  exact (List.pairwise_insertionSort _ ms).insertionSort_eq

/-- Items that have been sorted are sorted again into the same. -/
theorem sortItems_sortKeyed {V : Type} {items sorted : List (Key × V)}
    (h : sortKeyed items = some sorted) : sortItems sorted = sortItems items := by
  have hstr : ∀ texts : List (Text × V),
      (texts.map fun p => (Key.str p.1, p.2)).mapM (fun p => p.1.str?.map (·, p.2)) =
        some texts := by
    intro texts
    induction texts with
    | nil => rfl
    | cons p texts ih =>
      rw [List.map_cons, List.mapM_cons, ih]
      rfl
  have hint : ∀ ints : List (Int × V),
      (ints.map fun p => (Key.int p.1, p.2)).mapM (fun p => p.1.int?.map (·, p.2)) =
        some ints := by
    intro ints
    induction ints with
    | nil => rfl
    | cons p ints ih =>
      rw [List.map_cons, List.mapM_cons, ih]
      rfl
  rw [sortKeyed] at h
  split at h
  · next texts htexts =>
    cases h
    rw [sortItems, hstr, sortItems, htexts]
    exact congrArg Except.ok (insertionSort_twice texts)
  · next hnone =>
    split at h
    · next ints hints =>
      cases h
      -- an integer key is no string, before and after
      have hnone' : ((ints.insertionSort fun a b => a.1 ≤ b.1).map fun p =>
          (Key.int p.1, p.2)).mapM (fun p => p.1.str?.map (·, p.2)) = none := by
        have hperm : ((ints.insertionSort fun a b => a.1 ≤ b.1).map fun p =>
            (Key.int p.1, p.2)).Perm items := by
          rw [mapM_int_eq hints]
          exact (List.perm_insertionSort _ ints).map _
        rw [← Option.not_isSome_iff_eq_none, mapM_keys_isSome] at hnone ⊢
        rwa [hperm.all_eq]
      rw [sortItems, hnone', hint, sortItems, hnone, hints]
      dsimp only
      rw [insertionSort_twice]
    · cases h

theorem mem_sortKeyed {V : Type} {items sorted : List (Key × V)} (h : sortKeyed items = some sorted)
    {p : Key × V} : p ∈ sorted ↔ p ∈ items := by
  rw [sortKeyed] at h
  split at h
  · next texts htexts =>
    cases h
    rw [mapM_str_items htexts]
    exact ((List.perm_insertionSort _ texts).map _).mem_iff
  · split at h
    · next ints hints =>
      cases h
      rw [mapM_int_eq hints]
      exact ((List.perm_insertionSort _ ints).map _).mem_iff
    · cases h

theorem exists_sortKeyed {V : Type} {items : List (Key × V)} (h : keysSortable items = true) :
    ∃ sorted, sortKeyed items = some sorted := by
  rw [keysSortable, ← mapM_keys_isSome, ← mapM_keys_isSome, Bool.or_eq_true] at h
  rw [sortKeyed]
  split
  · exact ⟨_, rfl⟩
  · next hnone =>
    rw [hnone] at h
    obtain ⟨ints, hints⟩ := Option.isSome_iff_exists.mp (h.resolve_left Bool.false_ne_true)
    rw [hints]
    exact ⟨_, rfl⟩

theorem eq_map_str {xs : List (PyValue F)} {texts : List Text}
    (h : xs.mapM PyValue.str? = some texts) : xs = texts.map .str := by
  induction xs generalizing texts with
  | nil =>
    cases h
    rfl
  | cons x xs ih =>
    simp only [List.mapM_cons, Option.bind_eq_bind, Option.bind_eq_some_iff] at h
    obtain ⟨s, hs, rest, hrest, h⟩ := h
    cases h
    cases x <;> cases hs
    rw [List.map_cons, ← ih hrest]

theorem canonicalValues_map_str [SortOther F] (texts : List Text) :
    canonicalValues (texts.map .str : List (PyValue F)) = some (texts.map .str) := by
  induction texts with
  | nil => rfl
  | cons s texts ih =>
    rw [List.map_cons, canonicalValues, ih]
    rfl

end Sorting

section Written
variable [SetText F]

/-- What is written of values, one by one. -/
theorem emitItems_eq_map {items : List (Key × PyValue F)} {ts : List (Key × Document F)}
    (h : emitItems items = .ok ts) {g : PyValue F → Document F}
    (hg : ∀ p ∈ items, emit p.2 = .ok (g p.2)) : ts = items.map fun p => (p.1, g p.2) := by
  induction items generalizing ts with
  | nil =>
    cases h
    rfl
  | cons p items ih =>
    obtain ⟨k, v⟩ := p
    obtain ⟨hv, hg⟩ := List.forall_mem_cons.mp hg
    obtain ⟨t, ht, h⟩ := bind_ok h
    obtain ⟨rest, hrest, h⟩ := bind_ok h
    cases h
    rw [List.map_cons, ← ih hrest hg, Except.ok.inj (ht.symm.trans hv)]

theorem emitItems_map {items : List (Key × PyValue F)} {g : PyValue F → Document F}
    (hg : ∀ p ∈ items, emit p.2 = .ok (g p.2)) :
    emitItems items = .ok (items.map fun p => (p.1, g p.2)) := by
  induction items with
  | nil => rfl
  | cons p items ih =>
    obtain ⟨k, v⟩ := p
    obtain ⟨hv, hg⟩ := List.forall_mem_cons.mp hg
    rw [emitItems, hv, ih hg]
    rfl

/-- Sorted items are written in the same order. -/
theorem emitItems_sortKeyed {items sorted : List (Key × PyValue F)}
    (h : sortKeyed items = some sorted) {ts : List (Key × Document F)}
    (hts : emitItems items = .ok ts) : ∃ ts', emitItems sorted = .ok ts' ∧
      sortItems ts' = sortItems ts := by
  have hg : ∀ p ∈ items, emit p.2 = .ok ((emit p.2).toOption.getD .null) := by
    intro p hp
    obtain ⟨t, ht, -⟩ := mem_emitItems hts (k := p.1) (x := p.2) hp
    rw [ht]
    rfl
  have hg' : ∀ p ∈ sorted, emit p.2 = .ok ((emit p.2).toOption.getD .null) := fun p hp =>
    hg p ((mem_sortKeyed h).mp hp)
  refine ⟨_, emitItems_map (g := fun v => (emit v).toOption.getD .null) hg', ?_⟩
  rw [emitItems_eq_map (g := fun v => (emit v).toOption.getD .null) hts hg]
  refine (sortItems_map (fun v => (emit v).toOption.getD .null) sorted).trans ?_
  rw [sortItems_sortKeyed h]
  exact (sortItems_map (fun v => (emit v).toOption.getD .null) items).symm

end Written

section Canonical
variable [SetText F] [SortOther F]

mutual

theorem emit_canonicalValue : ∀ v : PyValue F, v.packable = true →
    ∃ c, canonicalValue v = some c ∧ emit c = emit v.listed
  | .none, _ | .bool _, _ | .int _, _ | .float _, _ | .str _, _ => ⟨_, rfl, rfl⟩
  | .list xs, h | .tuple xs, h => by
    obtain ⟨cs, hcs, hemit⟩ := emitElems_canonicalValues xs h
    refine ⟨.list cs, by rw [canonicalValue, hcs]; rfl, ?_⟩
    rw [emit, hemit]
    rfl
  | .set xs, h => by
    obtain ⟨texts, htexts⟩ := Option.isSome_iff_exists.mp h
    have hxs := eq_map_str htexts
    refine ⟨.list (sortTexts texts), ?_, ?_⟩
    · rw [canonicalValue, hxs, canonicalValues_map_str, ← hxs, Option.bind_eq_bind,
        Option.bind_some, sortedElems, htexts]
      rfl
    · rw [PyValue.listed, listSet, htexts]
  | .dict items, h => by
    obtain ⟨d, hd⟩ := exists_emit_listed (.dict items) h
    rw [PyValue.packable, Bool.and_eq_true, Bool.and_eq_true] at h
    obtain ⟨cs, hcs, hkeys, hemit⟩ := emitItems_canonicalPairs items h.2
    obtain ⟨sorted, hsorted⟩ := exists_sortKeyed ((keysSortable_congr hkeys).trans h.1.2)
    obtain ⟨ts, hts, -⟩ := bind_ok hd
    obtain ⟨ts', hts', hsame⟩ := emitItems_sortKeyed hsorted (hemit.trans hts)
    refine ⟨.dict sorted, ?_, ?_⟩
    · rw [canonicalValue, hcs, Option.bind_eq_bind, Option.bind_some, hsorted]
      rfl
    rw [PyValue.listed, emit, emit, hts, hts']
    show (do return Document.obj (← sortItems ts')) = (do return Document.obj (← sortItems ts))
    rw [hsame]

theorem emitElems_canonicalValues : ∀ xs : List (PyValue F), packableElems xs = true →
    ∃ cs, canonicalValues xs = some cs ∧ emitElems cs = emitElems (listedElems xs)
  | [], _ => ⟨[], rfl, rfl⟩
  | x :: xs, h => by
    rw [packableElems, Bool.and_eq_true] at h
    obtain ⟨c, hc, hx⟩ := emit_canonicalValue x h.1
    obtain ⟨cs, hcs, hxs⟩ := emitElems_canonicalValues xs h.2
    refine ⟨c :: cs, by rw [canonicalValues, hc, hcs]; rfl, ?_⟩
    rw [emitElems, hx, hxs]
    rfl

theorem emitItems_canonicalPairs : ∀ items : List (Key × PyValue F), packableItems items = true →
    ∃ cs, canonicalPairs items = some cs ∧ cs.map Prod.fst = items.map Prod.fst ∧
      emitItems cs = emitItems (listedItems items)
  | [], _ => ⟨[], rfl, rfl, rfl⟩
  | (k, v) :: items, h => by
    rw [packableItems, Bool.and_eq_true] at h
    obtain ⟨c, hc, hv⟩ := emit_canonicalValue v h.1
    obtain ⟨cs, hcs, hkeys, hitems⟩ := emitItems_canonicalPairs items h.2
    refine ⟨(k, c) :: cs, by rw [canonicalPairs, hc, hcs]; rfl,
      by rw [List.map_cons, List.map_cons, hkeys], ?_⟩
    rw [emitItems, hv, hitems]
    rfl

end

end Canonical

/-! ### Packed and unpacked -/

section Texts
variable [FloatCodec F]

def compactText (d : Document F) : String := String.ofList (d.render .compact)

theorem dumpsCompact_eq [SetText F] {v : PyValue F} {d : Document F} (h : emit v = .ok d) :
    dumpsCompact v = .ok (compactText d) := by
  rw [dumpsCompact, dumps, h]
  rfl

/-- The document of a checkpoint. -/
def checkpointDocument (d : Document F) (hash : String) : Document F :=
  .obj [(ofString marker, .bool true), (ofString "state", d),
    (ofString "state_hash", .str (ofString hash))]

omit [FloatCodec F] in
/-- The members of a checkpoint, in the order of their names. -/
theorem sortItems_checkpoint (d : Document F) (hash : String) :
    sortItems [(key marker, .bool true), (key "state", d),
        (key "state_hash", .str (ofString hash))] =
      .ok [(ofString marker, .bool true), (ofString "state", d),
        (ofString "state_hash", .str (ofString hash))] := by
  have hmatches : List.Forall₂ (Matches Key.str Eq)
      [(ofString marker, .bool true), (ofString "state", d),
        (ofString "state_hash", .str (ofString hash))]
      [(key marker, .bool true), (key "state", d), (key "state_hash", .str (ofString hash))] :=
    .cons ⟨rfl, rfl⟩ (.cons ⟨rfl, rfl⟩ (.cons ⟨rfl, rfl⟩ .nil))
  rw [sortItems_str hmatches, insertionSort_of_pairwise]
  show [ofString marker, ofString "state", ofString "state_hash"].Pairwise (· < ·)
  decide

omit [FloatCodec F] in
theorem emit_checkpoint [SetText F] {v : PyValue F} {d : Document F} (h : emit v = .ok d)
    (hash : String) : emit (checkpoint v hash) = .ok (checkpointDocument d hash) := by
  have hitems : emitItems [(key marker, .bool true), (key "state", v),
      (key "state_hash", .str (ofString hash))] =
      .ok [(key marker, .bool true), (key "state", d),
        (key "state_hash", .str (ofString hash))] := by
    rw [emitItems, emitItems, h]
    rfl
  have hsort := sortItems_checkpoint d hash
  rw [checkpoint, emit, hitems]
  show (do return Document.obj (← sortItems [(key marker, Document.bool true), (key "state", d),
    (key "state_hash", .str (ofString hash))])) = _
  rw [hsort]
  rfl

theorem marked_eq (d : Document F) (hash : String) :
    marked (compactText (checkpointDocument d hash)) =
      some [(key marker, .bool true), (key "state", load d.join),
        (key "state_hash", .str (ofString hash))] := by
  have hmembers : loadMembers (joinMembers [(ofString marker, .bool true), (ofString "state", d),
      (ofString "state_hash", .str (ofString hash))]) =
      [(key marker, .bool true), (key "state", load d.join),
        (key "state_hash", .str (ofString hash))] := by
    simp only [joinMembers, loadMembers, joinSurrogates_ofString, Document.join, load]
    rfl
  have hloads : loads (compactText (checkpointDocument d hash)) =
      .ok (.dict [(key marker, .bool true), (key "state", load d.join),
        (key "state_hash", .str (ofString hash))]) := by
    rw [loads, compactText, String.toList_ofList, parse_render, checkpointDocument, Document.join]
    show Except.ok (load (Document.obj (joinMembers _))) = _
    rw [load, hmembers, setItems_of_nodup]
    · rfl
    · show [key marker, key "state", key "state_hash"].Nodup
      decide
  rw [marked, hloads]
  rfl

theorem json_of_marked {content : String} {doc : List (Key × PyValue F)}
    (h : marked content = some doc) : (PyValue.dict doc).json = true := by
  rw [marked] at h
  split at h
  · next doc' hloads =>
    split at h
    · cases h
      exact json_of_loads hloads
    · cases h
  · cases h

omit [FloatCodec F] in
theorem isText_iff (v : PyValue F) (s : String) :
    isText (some v) s = true ↔ v = .str (ofString s) := by
  cases v <;> simp [isText]

end Texts

/-- The document of a dictionary is an object. -/
theorem exists_load [SetText F] {items : List (Key × PyValue F)} {d : Document F}
    (hd : emit (PyValue.dict items).listed = .ok d) :
    ∃ state, load d.join = .dict state := by
  obtain ⟨ts, -, h⟩ := bind_ok hd
  obtain ⟨ms, -, h⟩ := bind_ok h
  cases h
  exact ⟨_, rfl⟩

section Packing
variable [FloatCodec F] [SetText F] [SortOther F] {digest : String → String}

theorem hashContent_eq {v : PyValue F} (h : v.packable = true) {d : Document F}
    (hd : emit v.listed = .ok d) : hashContent digest v = .ok (digest (compactText d)) := by
  obtain ⟨c, hc, hemit⟩ := emit_canonicalValue v h
  rw [hashContent, canon, hc]
  show (do return digest (← dumpsCompact c)) = _
  rw [dumpsCompact_eq (hemit.trans hd)]
  rfl

theorem packState_eq {v : PyValue F} (h : v.packable = true) {d : Document F}
    (hd : emit v.listed = .ok d) :
    packState digest v = .ok (compactText (checkpointDocument d (digest (compactText d)))) := by
  obtain ⟨c, hc, hemit⟩ := emit_canonicalValue v h
  rw [packState, canon, hc]
  show (do dumpsCompact (checkpoint c (← hashContent digest v))) = _
  rw [hashContent_eq h hd]
  exact dumpsCompact_eq (emit_checkpoint (hemit.trans hd) _)

/-- A checkpoint is unpacked if the hash of its state, as it was read, is the one in it. -/
theorem unpackState_eq {content : String} {doc state : List (Key × PyValue F)} {hash : PyValue F}
    (hmarked : marked content = some doc)
    (hstate : lookupItem (key "state") doc = some (.dict state))
    (hhash : lookupItem (key "state_hash") doc = some hash) {e : Document F}
    (he : emit (.dict state) = .ok e) :
    unpackState digest content = if isText (some hash) (digest (compactText e)) then
      .ok (some (.dict state)) else .error mismatch := by
  have hjson := json_of_lookup (json_of_marked hmarked) hstate
  have hhashed : hashContent digest (.dict state) = .ok (digest (compactText e)) :=
    hashContent_eq (packable_of_json _ hjson) ((congrArg emit (listed_of_json _ hjson)).trans he)
  rw [unpackState, hmarked]
  dsimp only
  rw [hstate, hhash, Option.getD_some]
  dsimp only
  rw [hhashed]
  rfl

section State
variable {items : List (Key × PyValue F)} {d : Document F}

theorem unpack_packed (digest : String → String) (h : (PyValue.dict items).packable = true)
    (hd : emit (PyValue.dict items).listed = .ok d) :
    ∃ content, packState digest (.dict items) = .ok content ∧
      unpackState digest content =
        if digest (compactText (normal d.join)) = digest (compactText d) then
          .ok (some (load d.join)) else .error mismatch := by
  obtain ⟨state, hstate⟩ := exists_load hd
  have hmarked := marked_eq d (digest (compactText d))
  have hfound : lookupItem (key "state") [(key marker, .bool true), (key "state", load d.join),
      (key "state_hash", .str (ofString (digest (compactText d))))] = some (.dict state) := by
    rw [← hstate]
    rfl
  refine ⟨_, packState_eq h hd, ?_⟩
  rw [unpackState_eq hmarked hfound rfl (hstate ▸ emit_load d.join), hstate]
  refine if_congr ?_ rfl rfl
  rw [isText_iff, PyValue.str.injEq, ofString_inj]
  exact eq_comm

/-- What is unpacked has the hash of what was packed, and is the form of it. -/
theorem survives_of_ordered (digest : String → String) (h : (PyValue.dict items).packable = true)
    (hordered : Ordered (PyValue.dict items)) :
    ∃ content state, packState digest (.dict items) = .ok content ∧
      unpackState digest content = .ok (some state) ∧ state.json = true ∧
      state.same (PyValue.dict items).jsonForm ∧ (PyValue.dict items).jsonForm.same state := by
  obtain ⟨d, hd⟩ := exists_emit_listed _ h
  obtain ⟨hform, hjoin⟩ := emit_jsonForm _ hd hordered.1
  have hnormal : normal d = d := by
    rw [normal_eq_iff, ← hjoin, ascending_emit _ d hd, textOrdered_listed]
    exact hordered.2
  obtain ⟨content, hpack, hunpack⟩ := unpack_packed digest h hd
  have hjson := json_load d hjoin
  have hemit : emit (load d) = emit (PyValue.dict items).jsonForm := (emit_load d).trans hform.symm
  refine ⟨content, load d, hpack, ?_, hjson, (emit_eq_iff _ _ hjson hordered.1).mp hemit,
    (emit_eq_iff _ _ hordered.1 hjson).mp hemit.symm⟩
  rw [hunpack, hjoin, hnormal, if_pos rfl]

/-- Where no two texts have one hash, an unpacked checkpoint was written in the order in which it
is written again. -/
theorem ordered_of_survives (hdigest : Function.Injective digest)
    (h : (PyValue.dict items).packable = true) (hsurvives : Survives digest (.dict items)) :
    Ordered (PyValue.dict items) := by
  obtain ⟨d, hd⟩ := exists_emit_listed _ h
  obtain ⟨content, hpack, hunpack⟩ := unpack_packed digest h hd
  obtain ⟨content', state', hpack', hunpack', hsame⟩ := hsurvives
  obtain rfl := Except.ok.inj (hpack.symm.trans hpack')
  rw [hunpack] at hunpack'
  split_ifs at hunpack' with heq
  obtain rfl := Option.some.inj (Except.ok.inj hunpack')
  have hjoined : d.join.join = d.join := join_of_parse (@parse_render F _ .compact d)
  constructor
  · exact json_of_same _ (wellFormed_jsonForm _ h) (json_load d.join hjoined) hsame
  · have hrender : (normal d.join).render .compact = d.render .compact :=
      String.ofList_inj.mp (hdigest heq)
    rw [render_eq_iff, join_normal _ hjoined] at hrender
    rw [← textOrdered_listed, ← ascending_emit _ d hd, ← normal_eq_iff]
    exact hrender

/-- No other object goes with the hash. -/
theorem mismatch_of_tampered (hdigest : Function.Injective digest)
    (h : (PyValue.dict items).packable = true) {content content' : String}
    (hpack : packState digest (.dict items) = .ok content)
    (htampered : Tampered (F := F) content content') :
    unpackState (F := F) digest content' = .error mismatch := by
  obtain ⟨d, hd⟩ := exists_emit_listed _ h
  obtain rfl := Except.ok.inj ((packState_eq h hd).symm.trans hpack)
  obtain ⟨doc, doc', state, state', hdoc, hdoc', hstate, hstate', hhash, hdiff⟩ :=
    htampered.replaced
  obtain rfl := Option.some.inj ((marked_eq d _).symm.trans hdoc)
  have hloaded : load d.join = .dict state := Option.some.inj hstate
  have hjson := json_of_lookup (json_of_marked hdoc) hstate
  have hjson' := json_of_lookup (json_of_marked hdoc') hstate'
  obtain ⟨e, he, -⟩ := same_reread _ hjson'
  rw [unpackState_eq hdoc' hstate' (hhash.trans rfl) he, if_neg]
  intro htext
  rw [isText_iff, PyValue.str.injEq, ofString_inj] at htext
  have hrender : d.render .compact = e.render .compact := String.ofList_inj.mp (hdigest htext)
  rw [render_eq_iff, join_emit _ hjson' e he] at hrender
  refine hdiff ((emit_eq_iff _ _ hjson' hjson).mp ?_)
  rw [he, ← hloaded, emit_load, hrender, normal_emit hjson' he]

end State

end Packing

/-! ### Records and campaigns -/

section Records

theorem same_symm [SetText F] {v w : PyValue F} (hv : v.json = true) (hw : w.json = true)
    (h : v.same w) : w.same v :=
  (emit_eq_iff w v hw hv).mp ((emit_eq_iff v w hv hw).mpr h).symm

variable {r : PhaseRecord F}

theorem json_vars : r.vars.json = true ↔ r.phase.json = true ∧ r.stage.json = true ∧
    r.nodeCount.json = true ∧ r.summary.json = true := by
  have hkeys : ([key "phase", key "stage", key "node_count", key "summary"] : List Key).Nodup := by
    decide
  have hplain : ∀ s : String, (key s).plain = true := fun s => decide_eq_true (joined_ofString s)
  simp [PhaseRecord.vars, PyValue.json, jsonItems, hkeys, hplain]

theorem wellFormed_vars : r.vars.wellFormed = true ↔ r.phase.wellFormed = true ∧
    r.stage.wellFormed = true ∧ r.nodeCount.wellFormed = true ∧ r.summary.wellFormed = true := by
  have hkeys : ([key "phase", key "stage", key "node_count", key "summary"] : List Key).Nodup := by
    decide
  simp [PhaseRecord.vars, PyValue.wellFormed, wellFormedItems, hkeys]

/-- A record is made of what its variables come back as. -/
theorem make_of_same [SetText F] {v : PyValue F} (hr : r.vars.json = true) (hv : v.json = true)
    (h : r.vars.same v) : ∃ r', PhaseRecord.make v = .ok r' ∧ r'.Same r := by
  cases v <;> try cases h
  rename_i items hlength hfound
  have hnodup : (items.map Prod.fst).Nodup := by
    rw [PyValue.json, Bool.and_eq_true, Bool.and_eq_true, decide_eq_true_eq] at hv
    exact hv.1.1
  have hnodup' : recordKeys.Nodup := by decide
  have hboth := @same_dict_iff F [(key "phase", r.phase), (key "stage", r.stage),
    (key "node_count", r.nodeCount), (key "summary", r.summary)] items hnodup' hnodup
  have hback := (hboth.mp ⟨hlength, hfound⟩).2
  have hall : (items.all fun p => p.1 ∈ recordKeys) = true := by
    rw [List.all_eq_true]
    intro p hp
    exact decide_eq_true (hback (List.mem_map_of_mem hp))
  rw [sameItems_iff] at hfound
  simp only [List.forall_mem_cons] at hfound
  obtain ⟨⟨phase, hphase, hsame₁⟩, ⟨stage, hstage, hsame₂⟩, ⟨nodeCount, hcount, hsame₃⟩,
    ⟨summary, hsummary, hsame₄⟩, -⟩ := hfound
  obtain ⟨hr₁, hr₂, hr₃, hr₄⟩ := json_vars.mp hr
  refine ⟨⟨phase, stage, nodeCount, summary⟩, ?_, same_symm hr₁ (json_of_lookup hv hphase) hsame₁,
    same_symm hr₂ (json_of_lookup hv hstage) hsame₂,
    same_symm hr₃ (json_of_lookup hv hcount) hsame₃,
    same_symm hr₄ (json_of_lookup hv hsummary) hsame₄⟩
  rw [PhaseRecord.make, if_pos hall, hphase, hstage, hcount, hsummary]
  rfl

theorem mapM_make [SetText F] {records : List (PhaseRecord F)} {vs : List (PyValue F)}
    (hrecords : ∀ r ∈ records, r.vars.json = true) (hvs : jsonElems vs = true)
    (h : sameElems (records.map PhaseRecord.vars) vs) :
    ∃ records', vs.mapM PhaseRecord.make = .ok records' ∧
      List.Forall₂ PhaseRecord.Same records' records := by
  induction records generalizing vs with
  | nil =>
    cases vs with
    | nil => exact ⟨[], rfl, .nil⟩
    | cons v vs => cases h
  | cons r records ih =>
    cases vs with
    | nil => cases h
    | cons v vs =>
      rw [jsonElems, Bool.and_eq_true] at hvs
      rw [List.forall_mem_cons] at hrecords
      obtain ⟨r', hr', hsame⟩ := make_of_same hrecords.1 hvs.1 h.1
      obtain ⟨records', hmake, hall⟩ := ih hrecords.2 hvs.2 h.2
      refine ⟨r' :: records', ?_, .cons hsame hall⟩
      rw [List.mapM_cons, hr', hmake]
      rfl

/-- What a record is made of comes from JSON. -/
theorem json_of_make {v : PyValue F} (hv : v.json = true) {r' : PhaseRecord F}
    (h : PhaseRecord.make v = .ok r') : r'.vars.json = true := by
  cases v <;> try cases h
  rename_i items
  rw [PhaseRecord.make] at h
  split_ifs at h
  split at h
  · next phase stage nodeCount hphase hstage hcount =>
    cases h
    refine json_vars.mpr ⟨json_of_lookup hv hphase, json_of_lookup hv hstage,
      json_of_lookup hv hcount, ?_⟩
    show ((lookupItem (key "summary") items).getD (.dict [])).json = true
    cases hsummary : lookupItem (key "summary") items with
    | none => rfl
    | some summary => exact json_of_lookup hv hsummary
  · cases h

/-- A record that is the same as one from JSON is from JSON. -/
theorem json_of_sameRecord {r' : PhaseRecord F} (hr : r.vars.wellFormed = true)
    (hr' : r'.vars.json = true) (h : r'.Same r) : r.vars.json = true := by
  obtain ⟨hw₁, hw₂, hw₃, hw₄⟩ := wellFormed_vars.mp hr
  obtain ⟨hj₁, hj₂, hj₃, hj₄⟩ := json_vars.mp hr'
  exact json_vars.mpr ⟨json_of_same _ hw₁ hj₁ h.phase, json_of_same _ hw₂ hj₂ h.stage,
    json_of_same _ hw₃ hj₃ h.nodeCount, json_of_same _ hw₄ hj₄ h.summary⟩

end Records

section Restoring
variable {G : Type} [FloatCodec F] [SetText F] [SortOther F] {graphs : Graphs F G}
  {digest : String → String} {c : Campaign F G}

omit [FloatCodec F] [SetText F] [SortOther F] in
theorem jsonElems_map_vars {records : List (PhaseRecord F)}
    (h : ∀ r ∈ records, r.vars.json = true) : jsonElems (records.map PhaseRecord.vars) = true := by
  induction records with
  | nil => rfl
  | cons r records ih =>
    rw [List.forall_mem_cons] at h
    rw [List.map_cons, jsonElems, h.1, ih h.2, Bool.and_self]

omit [FloatCodec F] [SetText F] [SortOther F] in
theorem json_state (h : c.json) : (c.state graphs).json = true := by
  have hkeys : ([key "target", key "graph", key "records", key "transitions"] :
      List Key).Nodup := by decide
  have hplain : ∀ s : String, (key s).plain = true := fun s => decide_eq_true (joined_ofString s)
  simp [Campaign.state, PyValue.json, jsonItems, hkeys, hplain, h.1, graphs.json_modelDump,
    jsonElems_map_vars h.2.1, h.2.2]

theorem restores_of_json (h : c.json) : Restores graphs digest c := by
  have hjson : (c.state graphs).json = true := json_state h
  have hform := jsonForm_of_json _ hjson
  have hordered : Ordered (c.state graphs) := ⟨hform.symm ▸ hjson,
    textOrdered_of_stringKeyed _ (wellFormed_of_json _ hjson) (stringKeyed_of_json _ hjson)⟩
  obtain ⟨content, state', hpack, hunpack, hjson', -, hsame⟩ :=
    survives_of_ordered digest (packable_of_json _ hjson) hordered
  replace hsame : (c.state graphs).same state' := hform ▸ hsame
  cases state' <;> try cases hsame
  rename_i state hlength hfound
  rw [sameItems_iff] at hfound
  simp only [List.forall_mem_cons] at hfound
  obtain ⟨⟨target, htarget, hsame₁⟩, ⟨graph, hgraph, hsame₂⟩, ⟨records, hrecords, hsame₃⟩,
    ⟨transitions, htransitions, hsame₄⟩, -⟩ := hfound
  cases target <;> try cases hsame₁
  cases records <;> try cases hsame₃
  cases transitions <;> try cases hsame₄
  rename_i records transitions
  have hjson₃ : jsonElems records = true := json_of_lookup hjson' hrecords
  have hjson₄ : jsonElems transitions = true := json_of_lookup hjson' htransitions
  obtain ⟨records', hmake, hall⟩ := mapM_make h.2.1 hjson₃ hsame₃
  have hback : sameElems transitions c.transitions :=
    same_symm (v := .list c.transitions) (w := .list transitions) h.2.2 hjson₄ hsame₄
  refine ⟨content, ⟨c.target, c.graph, records', transitions⟩, hpack, ?_,
    ⟨rfl, rfl, hall, sameElems_iff.mp hback⟩⟩
  rw [restoreCampaign, hunpack]
  simp only [getItem, htarget, hgraph, hrecords, htransitions,
    graphs.modelValidate_same c.graph graph hsame₂, Option.getD_some, iterate, hmake, bind,
    Except.bind, pure, Except.pure]

theorem json_of_unpackState {content : String} {v : PyValue F}
    (h : unpackState digest content = .ok (some v)) : v.json = true := by
  rw [unpackState] at h
  cases hmarked : marked (F := F) content with
  | none =>
    rw [hmarked] at h
    cases h
  | some doc =>
    rw [hmarked] at h
    dsimp only at h
    have hdoc := json_of_marked hmarked
    have hstate : ((lookupItem (key "state") doc).getD (.dict [])).json = true := by
      cases hlookup : lookupItem (key "state") doc with
      | none => rfl
      | some state => exact json_of_lookup hdoc hlookup
    split at h
    · next state hdict =>
      obtain ⟨hash, -, h⟩ : ∃ hash, hashContent digest (.dict state) = .ok hash ∧
          (if isText (lookupItem (key "state_hash") doc) hash then
            Except.ok (some (PyValue.dict state)) else .error mismatch) = .ok (some v) := by
        cases hhash : hashContent digest (PyValue.dict state) with
        | error e =>
          rw [hhash] at h
          cases h
        | ok hash =>
          rw [hhash] at h
          exact ⟨hash, rfl, h⟩
      split_ifs at h
      obtain rfl := Option.some.inj (Except.ok.inj h)
      exact hdict ▸ hstate
    · cases h

omit [FloatCodec F] [SetText F] [SortOther F] in
theorem json_of_getItem {state : List (Key × PyValue F)} (hstate : (PyValue.dict state).json = true)
    {name : String} {v : PyValue F} (h : getItem state name = .ok v) : v.json = true := by
  rw [getItem] at h
  split at h
  · next v' hv =>
    cases h
    exact json_of_lookup hstate hv
  · cases h

omit [FloatCodec F] [SetText F] [SortOther F] in
/-- A loop over a value from JSON sees values from JSON. -/
theorem json_of_iterate {v : PyValue F} (hv : v.json = true) {xs : List (PyValue F)}
    (h : iterate v = .ok xs) : jsonElems xs = true := by
  cases v with
  | none | bool _ | int _ | float _ => cases h
  | tuple _ | set _ => cases hv
  | list ys =>
    cases h
    exact hv
  | str s =>
    cases h
    rw [jsonElems_iff, List.forall_mem_map]
    exact fun c _ => decide_eq_true rfl
  | dict items =>
    cases h
    rw [PyValue.json, Bool.and_eq_true, Bool.and_eq_true, List.all_eq_true] at hv
    rw [jsonElems_iff, List.forall_mem_map]
    intro p hp
    have hplain := hv.1.2 p hp
    obtain ⟨k, v⟩ := p
    cases k with
    | str s => exact hplain
    | int i => cases hplain

omit [FloatCodec F] [SetText F] [SortOther F] in
theorem json_of_mapM_make {vs : List (PyValue F)} {records : List (PhaseRecord F)}
    (hvs : jsonElems vs = true) (h : vs.mapM PhaseRecord.make = .ok records) :
    ∀ r ∈ records, r.vars.json = true := by
  induction vs generalizing records with
  | nil =>
    cases h
    exact List.forall_mem_nil _
  | cons v vs ih =>
    rw [jsonElems, Bool.and_eq_true] at hvs
    rw [List.mapM_cons] at h
    obtain ⟨r, hr, h⟩ := bind_ok h
    obtain ⟨rest, hrest, h⟩ := bind_ok h
    cases h
    exact List.forall_mem_cons.mpr ⟨json_of_make hvs.1 hr, ih hvs.2 hrest⟩

/-- What is restored comes from JSON. -/
theorem json_of_restoreCampaign {content : String} {c' : Campaign F G}
    (h : restoreCampaign graphs digest content = .ok c') : c'.json := by
  rw [restoreCampaign] at h
  obtain ⟨state, hunpack, h⟩ := bind_ok h
  split at h
  · next state =>
    have hjson := json_of_unpackState hunpack
    obtain ⟨target, htarget, h⟩ := bind_ok h
    split at h
    · next target =>
      obtain ⟨graph, -, h⟩ := bind_ok h
      split at h
      · next graph _ =>
        obtain ⟨records, hrecords, h⟩ := bind_ok h
        obtain ⟨records', hmake, h⟩ := bind_ok h
        obtain ⟨transitions, htransitions, h⟩ := bind_ok h
        cases h
        have hdefault : ∀ name, ((lookupItem (key name) state).getD (.list [])).json = true := by
          intro name
          cases hlookup : lookupItem (key name) state with
          | none => rfl
          | some v => exact json_of_lookup hjson hlookup
        exact ⟨of_decide_eq_true (json_of_getItem hjson htarget),
          json_of_mapM_make (json_of_iterate (hdefault "records") hrecords) hmake,
          json_of_iterate (hdefault "transitions") htransitions⟩
      · cases h
    · cases h
  · cases h

theorem json_of_restores (hrecords : ∀ r ∈ c.records, r.vars.wellFormed = true)
    (htransitions : wellFormedElems c.transitions = true) (h : Restores graphs digest c) :
    c.json := by
  obtain ⟨content, c', -, hrestore, hsame⟩ := h
  obtain ⟨htarget, hjsonRecords, hjsonTransitions⟩ := json_of_restoreCampaign hrestore
  refine ⟨hsame.target ▸ htarget, fun r hr => ?_, ?_⟩
  · obtain ⟨r', hr', hrsame⟩ := exists_left hsame.records hr
    exact json_of_sameRecord (hrecords r hr) (hjsonRecords r' hr') hrsame
  · exact json_of_same (.list _) htransitions (w := .list _) hjsonTransitions
      (sameElems_iff.mpr hsame.transitions)

/-- Untouched checkpoints are refused where integer keys go by value in another order than as
texts; others are what they were, and no other state goes with a hash. -/
theorem checkpoint_iff (graphs : Graphs F G) (digest : String → String) :
    (∀ items, (PyValue.dict items : PyValue F).packable = true → Ordered (.dict items) →
      Survives digest (.dict items)) ∧
    (∀ c : Campaign F G, c.json → Restores graphs digest c) ∧
    (Function.Injective digest →
      (∀ items, (PyValue.dict items : PyValue F).packable = true →
        Survives digest (.dict items) → Ordered (.dict items)) ∧
      (∀ c : Campaign F G, (∀ r ∈ c.records, r.vars.wellFormed = true) →
        wellFormedElems c.transitions = true → Restores graphs digest c → c.json) ∧
      ∀ items content content', (PyValue.dict items : PyValue F).packable = true →
        packState digest (.dict items) = .ok content → Tampered (F := F) content content' →
        unpackState (F := F) digest content' = .error mismatch) := by
  refine ⟨fun items h hordered => ?_, fun c => restores_of_json, fun hdigest => ⟨fun items h =>
    ordered_of_survives hdigest h, fun c => json_of_restores, fun items content content' h hpack =>
    mismatch_of_tampered hdigest h hpack⟩⟩
  obtain ⟨content, state, hpack, hunpack, -, hsame, -⟩ := survives_of_ordered digest h hordered
  exact ⟨content, state, hpack, hunpack, hsame⟩

end Restoring

/-! ### Two and ten -/

section TwoAndTen

/-- No set of the states below holds anything but strings. -/
instance : SortOther Literal := ⟨fun _ => none⟩

/-- The empty graph alone. -/
def emptyGraph : Graphs Literal Unit where
  modelDump _ := .dict [(key "nodes", .dict []), (key "edges", .list []),
    (key "version", .str (ofString "1.2"))]
  modelValidate _ := some ()
  json_modelDump _ := by decide
  modelValidate_same _ _ _ := rfl

/-- Counts under two integers. -/
def counts (i j : Int) : List (Key × PyValue Literal) := [(.int i, .int 1), (.int j, .int 1)]

/-- The document of two counts. -/
def countsDocument (i j : String) : Document Literal :=
  .obj [(ofString i, .int 1), (ofString j, .int 1)]

/-- A checkpoint of the counts under 2 and `j` with the hash of those under 2 and 3. -/
def hashedAsTwoThree (j : String) : String :=
  compactText (checkpointDocument (countsDocument "2" j) (compactText (countsDocument "2" "3")))

/-- A campaign of two phases and the transition between them. -/
def scanned : Campaign Literal Unit where
  target := ofString "https://example.test"
  graph := ()
  records :=
    [⟨.str (ofString "recon"), .str (ofString "done"), .int 2, .dict []⟩,
      ⟨.str (ofString "exploit"), .str (ofString "running"), .int 3,
        .dict [(key "found", .list [.bool true, .none])]⟩]
  transitions := [.dict [(key "from", .str (ofString "recon")),
    (key "to", .str (ofString "exploit"))]]

theorem packState_two_three :
    packState id (.dict (counts 2 3)) = .ok (hashedAsTwoThree "3") :=
  packState_eq (by decide) rfl

theorem tampered_two_four :
    Tampered (F := Literal) (hashedAsTwoThree "3") (hashedAsTwoThree "4") where
  replaced := ⟨_, _, _, _, marked_eq _ _, marked_eq _ _, rfl, rfl, rfl, fun h => h.2.2.1⟩

/-- Integer keys in the order of their texts, a campaign, and a count moved from 3 to 4. -/
theorem survives_two_three :
    Survives id (.dict (counts 2 3)) ∧ Restores emptyGraph id scanned ∧
      unpackState (F := Literal) id (hashedAsTwoThree "4") = .error mismatch := by
  obtain ⟨hsurvives, hrestores, hdigest⟩ := checkpoint_iff emptyGraph id
  refine ⟨hsurvives (counts 2 3) (by decide) ⟨by decide, by decide⟩, hrestores scanned ?_, ?_⟩
  · exact ⟨by decide, by decide, by decide⟩
  · exact (hdigest Function.injective_id).2.2 (counts 2 3) _ _ (by decide) packState_two_three
      tampered_two_four

theorem not_survives_two_ten :
    (PyValue.dict (counts 2 10)).packable = true ∧ ¬ Survives id (.dict (counts 2 10)) := by
  have hpackable : (PyValue.dict (counts 2 10)).packable = true := by decide
  refine ⟨hpackable, fun h => ?_⟩
  have hordered := ordered_of_survives Function.injective_id hpackable h
  exact absurd hordered.2 (by decide)

end TwoAndTen

end PiPlatform.IdeRe.Checkpoint
