import PiPlatform.EventFabric.Bus.Causality
import PiPlatform.Library.Worklist

/-! The causality graph and its traversal.

As an event's causes stand before it, the graph has no cycle. `get_causality_dag` walks it
backwards with a worklist (`traverse_eq`) and meets exactly the event and its ancestors, each
once, as no two events have one hash (`causality_exact`). -/
namespace PiPlatform.EventFabric

open Library Library.Json Library.Python

variable {P F : Type} [FloatCodec F] [SetText F]

/-! ### The traversal -/

/-- An edge from a cause to its effect. -/
structure DagEdge where
  source : String
  target : String
  deriving DecidableEq

structure Dag (F : Type) where
  nodes : List (DagNode F)
  edges : List DagEdge

/-- `SELECT * FROM events WHERE event_hash = ?`, the first row. -/
def eventWithHash (db : Database) (eventHash : String) : Option EventRow :=
  db.events.rows.find? fun r => r.eventHash = eventHash

/-- The variables of the loop. -/
structure Traversal (F : Type) where
  toVisit : List String
  visited : List String
  nodes : Dict String (DagNode F)
  edges : List DagEdge

/-- The loop, for at most so many turns. -/
def traverse (db : Database) : Nat → Traversal F → Option (Except ReadError (Dag F))
  | 0, _ => none
  | turns + 1, s =>
    match s.toVisit with
    | [] => some (.ok ⟨s.nodes.items.map Prod.snd, s.edges⟩)
    | currHash :: rest =>
      if currHash ∈ s.visited then traverse db turns { s with toVisit := rest }
      else
        let visited := s.visited ++ [currHash]
        match eventWithHash db currHash with
        | none => traverse db turns { s with toVisit := rest, visited }
        | some row =>
          match expand F row with
          | .error e => some (.error e)
          | .ok (node, parents) =>
            traverse db turns
              { toVisit := rest ++ parents.filter (· ∉ visited)
                visited
                nodes := s.nodes.set currHash node
                edges := s.edges ++ parents.map fun parentHash => ⟨parentHash, currHash⟩ }

/-- `get_causality_dag`, if so many turns of its loop are enough. -/
def getCausalityDag (F : Type) [FloatCodec F] (db : Database) (turns : Nat)
    (startEventHash : String) : Option (Except ReadError (Dag F)) :=
  traverse db turns ⟨[startEventHash], [], .empty, []⟩

/-! ### The loop is a worklist -/

/-- The parents of the event with a hash, where it is stored. -/
def parentHashes (F : Type) [FloatCodec F] (db : Database) (eventHash : String) : List String :=
  match eventWithHash db eventHash with
  | none => []
  | some row =>
    match expand F row with
    | .error _ => []
    | .ok (_, parents) => parents

/-- The node of the event with a hash. -/
def nodeOf (F : Type) [FloatCodec F] (db : Database) (eventHash : String) :
    Option (DagNode F) :=
  (eventWithHash db eventHash).bind fun row =>
    match expand F row with
    | .error _ => none
    | .ok (node, _) => some node

/-- What the loop has collected when it has visited these. -/
def dagOf (F : Type) [FloatCodec F] (db : Database) (visited : List String) : Dag F where
  nodes := visited.filterMap (nodeOf F db)
  edges := visited.flatMap fun h => (parentHashes F db h).map fun parentHash => ⟨parentHash, h⟩

/-- The variables agree with what has been visited. -/
structure Collected (db : Database) (s : Traversal F) : Prop where
  nodes : s.nodes.items = s.visited.filterMap fun h => (nodeOf F db h).map (h, ·)
  edges : s.edges = (dagOf F db s.visited).edges

omit [SetText F] in
theorem traverse_eq {db : Database} (hrows : ∀ r ∈ db.events.rows, ∃ p, expand F r = .ok p)
    (turns : Nat) (s : Traversal F) (h : Collected db s) :
    traverse db turns s = (Worklist.run .queue (parentHashes F db) turns ⟨s.toVisit, s.visited⟩).map
      fun visited => .ok (dagOf F db visited) := by
  induction turns generalizing s with
  | zero => rfl
  | succ turns ih =>
    cases htodo : s.toVisit with
    | nil =>
      have hnodes : s.nodes.items.map Prod.snd = s.visited.filterMap (nodeOf F db) := by
        rw [h.nodes, List.map_filterMap]
        refine List.filterMap_congr fun hash _ => ?_
        cases nodeOf F db hash <;> rfl
      simp only [traverse, htodo, Worklist.run, Option.map_some, dagOf, hnodes, h.edges]
    | cons currHash rest =>
      rw [traverse, htodo]
      show _ = (Worklist.run _ _ turns (Worklist.turn _ _ ⟨currHash :: rest, s.visited⟩)).map _
      by_cases hseen : currHash ∈ s.visited
      · rw [Worklist.turn_seen rfl hseen]
        exact (if_pos hseen).trans (ih { s with toVisit := rest } ⟨h.nodes, h.edges⟩)
      · rw [Worklist.turn_new rfl hseen]
        refine (if_neg hseen).trans ?_
        cases hrow : eventWithHash db currHash with
        | none =>
          have hparents : parentHashes F db currHash = [] := by rw [parentHashes, hrow]
          have hnode : nodeOf F db currHash = none := by rw [nodeOf, hrow, Option.bind_none]
          rw [hparents, Discipline.put_queue, List.filter_nil, List.append_nil]
          refine ih _ ⟨?_, ?_⟩
          · simp [h.nodes, hnode]
          · simp [h.edges, dagOf, hparents]
        | some row =>
          obtain ⟨⟨node, parents⟩, hexpand⟩ := hrows row (List.mem_of_find?_eq_some hrow)
          have hparents : parentHashes F db currHash = parents := by
            simp only [parentHashes, hrow, hexpand]
          have hnode : nodeOf F db currHash = some node := by
            simp only [nodeOf, hrow, hexpand, Option.bind_some]
          rw [hparents]
          simp only [hexpand]
          refine ih _ ⟨?_, ?_⟩
          · have hfresh : currHash ∉ s.nodes.items.map Prod.fst := by
              rw [h.nodes, List.map_filterMap]
              intro hmem
              obtain ⟨hash, hvisited, heq⟩ := List.mem_filterMap.mp hmem
              cases hfound : nodeOf F db hash with
              | none => simp [hfound] at heq
              | some n =>
                obtain rfl : hash = currHash := by simpa [hfound] using heq
                exact hseen hvisited
            show setItem currHash node s.nodes.items = _
            rw [setItem_of_not_mem node hfresh, List.filterMap_append, h.nodes]
            simp [hnode]
          · simp [h.edges, dagOf, hparents]

/-! ### Ancestors -/

/-- The first event is a cause of the second. -/
def Causes (F : Type) [FloatCodec F] (db : Database) (q r : EventRow) : Prop :=
  q ∈ db.events.rows ∧ r ∈ db.events.rows ∧
    ∃ node parents, expand F r = .ok (node, parents) ∧ q.eventHash ∈ parents

/-- An event, or a transitive cause of it. -/
def Ancestor (F : Type) [FloatCodec F] (db : Database) (r q : EventRow) : Prop :=
  Relation.ReflTransGen (fun a b => Causes F db b a) r q

/-- The nodes are those of the event and its ancestors, each once, and the edges are
between them. -/
structure ExactDag (F : Type) [FloatCodec F] (db : Database) (r : EventRow) (dag : Dag F) :
    Prop where
  nodes : ∃ rows : List EventRow, rows.Nodup ∧ (∀ q, q ∈ rows ↔ Ancestor F db r q) ∧
    List.Forall₂ (fun q node => ∃ parents, expand F q = .ok (node, parents) ∧
      node.eventHash = q.eventHash) rows dag.nodes
  distinct : (dag.nodes.map fun n => n.eventHash).Nodup
  edges : ∀ e ∈ dag.edges, e.source ∈ dag.nodes.map (fun n => n.eventHash) ∧
    e.target ∈ dag.nodes.map fun n => n.eventHash

/-- Where the digest has no collision, no two events have one hash. -/
theorem Stored.hash_injective {H : Digest} (hinj : Function.Injective H.hex) {db : Database}
    {es : List (DomainEvent F)} (h : Stored H db es) {q r : EventRow} (hq : q ∈ db.events.rows)
    (hr : r ∈ db.events.rows) (heq : q.eventHash = r.eventHash) : q = r := by
  obtain ⟨e, -, he⟩ := exists_right h.rows hq
  obtain ⟨e', -, he'⟩ := exists_right h.rows hr
  have htext : e.header.identity.text F ++ q.payloadJson =
      e'.header.identity.text F ++ r.payloadJson := by
    refine hinj ?_
    rw [← he.eventHash, ← he'.eventHash, ← he.hash_eq, ← he'.hash_eq, heq]
  obtain ⟨hidentity, -⟩ := text_append_inj htext
  refine List.inj_on_of_nodup_map db.events.places_nodup hq hr ?_
  rw [he.place_eq, he'.place_eq]
  exact Prod.ext (congrArg Identity.partitionKey hidentity)
    (congrArg Identity.partitionOffset hidentity)

/-- A store in which every event's causes stand before it and no hash is there twice. -/
structure CausalStore (F : Type) [FloatCodec F] (db : Database) : Prop where
  before : ∀ r ∈ db.events.rows, ∃ node parents, expand F r = .ok (node, parents) ∧
    node.eventHash = r.eventHash ∧ ∀ parentHash ∈ parents,
      ∃ q ∈ db.events.rows, q.eventHash = parentHash ∧ q.globalOffset < r.globalOffset
  unique : ∀ q ∈ db.events.rows, ∀ r ∈ db.events.rows, q.eventHash = r.eventHash → q = r

section CausalStore
omit [SetText F]
variable {db : Database} {q r : EventRow}

theorem CausalStore.find (h : CausalStore F db) (hr : r ∈ db.events.rows) :
    eventWithHash db r.eventHash = some r := by
  cases hfind : eventWithHash db r.eventHash with
  | none => simpa using List.find?_eq_none.mp hfind r hr
  | some q =>
    have hhash : q.eventHash = r.eventHash := by simpa using List.find?_some hfind
    rw [h.unique q (List.mem_of_find?_eq_some hfind) r hr hhash]

theorem CausalStore.parents (h : CausalStore F db) (hr : r ∈ db.events.rows)
    {node : DagNode F} {parents : List String} (hexpand : expand F r = .ok (node, parents)) :
    parentHashes F db r.eventHash = parents ∧ nodeOf F db r.eventHash = some node := by
  simp only [parentHashes, nodeOf, h.find hr, hexpand, Option.bind_some, and_self]

theorem CausalStore.earlier (h : CausalStore F db) (hqr : Causes F db q r) :
    q.globalOffset < r.globalOffset := by
  obtain ⟨hq, hr, node, parents, hexpand, hmem⟩ := hqr
  obtain ⟨node', parents', hexpand', -, hbefore⟩ := h.before r hr
  cases hexpand.symm.trans hexpand'
  obtain ⟨q', hq', hhash, hlt⟩ := hbefore q.eventHash hmem
  rwa [h.unique q' hq' q hq hhash] at hlt

theorem CausalStore.cause (h : CausalStore F db) (hr : r ∈ db.events.rows) {hash : String}
    (hmem : hash ∈ parentHashes F db r.eventHash) : ∃ q, Causes F db q r ∧ q.eventHash = hash := by
  obtain ⟨node, parents, hexpand, -, hbefore⟩ := h.before r hr
  rw [(h.parents hr hexpand).1] at hmem
  obtain ⟨q, hq, rfl, -⟩ := hbefore hash hmem
  exact ⟨q, ⟨hq, hr, node, parents, hexpand, hmem⟩, rfl⟩

theorem Ancestor.mem (h : Ancestor F db r q) (hr : r ∈ db.events.rows) : q ∈ db.events.rows := by
  induction h with
  | refl => exact hr
  | tail _ hcause _ => exact hcause.1

/-- The hashes an event's hash leads to are those of its ancestors. -/
theorem CausalStore.leads_iff (h : CausalStore F db) (hr : r ∈ db.events.rows) {hash : String} :
    Worklist.Leads (parentHashes F db) r.eventHash hash ↔
      ∃ q, Ancestor F db r q ∧ q.eventHash = hash := by
  constructor
  · intro hleads
    induction hleads with
    | refl => exact ⟨r, .refl, rfl⟩
    | tail _ hstep ih =>
      obtain ⟨q, hq, rfl⟩ := ih
      obtain ⟨c, hcause, rfl⟩ := h.cause (hq.mem hr) hstep
      exact ⟨c, hq.tail hcause, rfl⟩
  · rintro ⟨q, hq, rfl⟩
    induction hq with
    | refl => exact .refl
    | tail _ hcause ih =>
      obtain ⟨-, hr', node, parents, hexpand, hmem⟩ := hcause
      refine ih.tail ?_
      rwa [(h.parents hr' hexpand).1]

theorem exists_rows {visited : List String}
    (h : ∀ hash ∈ visited, ∃ q ∈ db.events.rows, q.eventHash = hash) :
    ∃ rows : List EventRow, (∀ q ∈ rows, q ∈ db.events.rows) ∧
      rows.map (fun q => q.eventHash) = visited := by
  induction visited with
  | nil => exact ⟨[], List.forall_mem_nil _, rfl⟩
  | cons hash visited ih =>
    obtain ⟨⟨q, hq, hhash⟩, hrest⟩ := List.forall_mem_cons.mp h
    obtain ⟨rows, hrows, hmap⟩ := ih hrest
    exact ⟨q :: rows, List.forall_mem_cons.mpr ⟨hq, hrows⟩, by rw [List.map_cons, hhash, hmap]⟩

/-- The nodes collected for the hashes of rows are the rows' nodes. -/
theorem CausalStore.nodes (h : CausalStore F db) {rows : List EventRow}
    (hrows : ∀ q ∈ rows, q ∈ db.events.rows) :
    List.Forall₂ (fun q node => ∃ parents, expand F q = .ok (node, parents) ∧
        node.eventHash = q.eventHash) rows
      ((rows.map fun q => q.eventHash).filterMap (nodeOf F db)) := by
  induction rows with
  | nil => exact .nil
  | cons q rows ih =>
    obtain ⟨hq, hrest⟩ := List.forall_mem_cons.mp hrows
    obtain ⟨node, parents, hexpand, hhash, -⟩ := h.before q hq
    rw [List.map_cons, List.filterMap_cons, (h.parents hq hexpand).2]
    exact .cons ⟨parents, hexpand, hhash⟩ (ih hrest)

/-- In such a store the traversal from an event ends with exactly its ancestors. -/
theorem CausalStore.exact (h : CausalStore F db) (hr : r ∈ db.events.rows) :
    ∃ turns dag, (∀ k, turns ≤ k → getCausalityDag F db k r.eventHash = some (.ok dag)) ∧
      ExactDag F db r dag := by
  have hclosed : ∀ hash ∈ db.events.rows.map (fun q => q.eventHash),
      ∀ parent ∈ parentHashes F db hash, parent ∈ db.events.rows.map fun q => q.eventHash := by
    intro hash hhash parent hparent
    obtain ⟨q, hq, rfl⟩ := List.mem_map.mp hhash
    obtain ⟨c, hcause, rfl⟩ := h.cause hq hparent
    exact List.mem_map_of_mem hcause.1
  obtain ⟨turns, visited, hrun, hdistinct, hexact⟩ := Worklist.exists_run .queue hclosed
    (List.mem_map_of_mem (f := fun q => q.eventHash) hr)
  have hancestor : ∀ hash ∈ visited, ∃ q, Ancestor F db r q ∧ q.eventHash = hash :=
    fun hash hmem => (h.leads_iff hr).mp ((hexact hash).mp hmem)
  have hfound : ∀ hash ∈ visited, ∃ q ∈ db.events.rows, q.eventHash = hash := fun hash hmem => by
    obtain ⟨q, hq, hhash⟩ := hancestor hash hmem
    exact ⟨q, hq.mem hr, hhash⟩
  obtain ⟨rows, hrows, rfl⟩ := exists_rows hfound
  have hnodes := h.nodes hrows
  have hhashes : (dagOf F db (rows.map fun q => q.eventHash)).nodes.map (fun n => n.eventHash) =
      rows.map fun q => q.eventHash :=
    (map_eq_of_forall₂ hnodes fun q node hnode => by
      obtain ⟨parents, -, hhash⟩ := hnode
      exact hhash.symm).symm
  refine ⟨turns, dagOf F db _, fun k hk => ?_, ⟨rows, hdistinct.of_map _, fun q => ?_, hnodes⟩, ?_,
    fun e he => ?_⟩
  · have hexpand : ∀ q ∈ db.events.rows, ∃ p, expand F q = .ok p := fun q hq => by
      obtain ⟨node, parents, hq', -⟩ := h.before q hq
      exact ⟨_, hq'⟩
    rw [getCausalityDag, traverse_eq hexpand k _ ⟨rfl, rfl⟩]
    show (Worklist.run _ _ k (Worklist.start r.eventHash)).map _ = _
    rw [hrun k hk, Option.map_some]
  · constructor
    · intro hq
      obtain ⟨q', hq', hhash⟩ := hancestor q.eventHash (List.mem_map_of_mem hq)
      rwa [h.unique q' (hq'.mem hr) q (hrows q hq) hhash] at hq'
    · intro hq
      have hvisited := (hexact q.eventHash).mpr ((h.leads_iff hr).mpr ⟨q, hq, rfl⟩)
      obtain ⟨q', hq', hhash⟩ := List.mem_map.mp hvisited
      rwa [h.unique q' (hrows q' hq') q (hq.mem hr) hhash] at hq'
  · rwa [hhashes]
  · obtain ⟨hash, hhash, he⟩ := List.mem_flatMap.mp he
    obtain ⟨parent, hparent, rfl⟩ := List.mem_map.mp he
    rw [hhashes]
    exact ⟨(hexact parent).mpr (((hexact hash).mp hhash).tail hparent), hhash⟩

end CausalStore

variable [DecidableEq P] {H : Digest}

variable (P F) in
/-- **Main theorem.** In a store written by calls that check their causes and by snapshots, an
event's causes are those of the call it comes from, each is stored before it, and the traversal
from an event ends and gives exactly the event and its ancestors, each once, with edges between
them. -/
theorem causality_exact (hinj : Function.Injective H.hex) (run : List (FabricStep P F))
    (h : (fabrics P F H).Admits (fun _ a => a.Checked) run) :
    (∀ r ∈ ((fabrics P F H).after run).world.db.events.rows, ∃ call node,
      Begun H run call ∧ call.Fills H r ∧ expand F r = .ok (node, call.causalityChain) ∧
        ∀ parentHash ∈ call.causalityChain,
          ∃ q, Causes F ((fabrics P F H).after run).world.db q r ∧ q.eventHash = parentHash) ∧
    (∀ q r, Causes F ((fabrics P F H).after run).world.db q r →
      q.globalOffset < r.globalOffset) ∧
    ∀ r ∈ ((fabrics P F H).after run).world.db.events.rows, ∃ turns dag,
      (∀ k, turns ≤ k →
        getCausalityDag F ((fabrics P F H).after run).world.db k r.eventHash = some (.ok dag)) ∧
      ExactDag F ((fabrics P F H).after run).world.db r dag := by
  have hstored := (fabrics_safe H run).stored
  have hcausal := causal_after H run h
  have hstore : CausalStore F ((fabrics P F H).after run).world.db := by
    refine ⟨fun r hr => ?_, fun q hq r hr => hstored.hash_injective hinj hq hr⟩
    obtain ⟨call, node, -, -, hexpand⟩ := (hcausal.rows r hr).before
    exact ⟨node, call.causalityChain, hexpand⟩
  refine ⟨fun r hr => ?_, fun q r => hstore.earlier, fun r hr => hstore.exact hr⟩
  obtain ⟨call, node, hbegun, hfills, hexpand, -⟩ := (hcausal.rows r hr).before
  refine ⟨call, node, hbegun, hfills, hexpand, fun parentHash hmem => hstore.cause hr ?_⟩
  rwa [(hstore.parents hr hexpand).1]

/-! ### A cause and its effect -/

/-- An event with these causes. -/
def sampleSemantic (causalityChain : List String) : SemanticCall Literal where
  eventType := .artifactCreated
  partitionKey := "a"
  payload := []
  wellFormed := rfl
  semanticIntent := "i"
  executionLineage := []
  trustLevel := FloatCodec.read ['1', '.', '0']
  causalityChain := causalityChain
  schemaVersion := "1.0.0"
  policyClassification := "standard"
  tenantId := "t"
  actorId := "u"
  correlationId := "c"
  moment := ⟨"09:00", "09:00", "09:00"⟩
  bypassCausalCheck := false

/-- The steps that store an event without causes. -/
def causeSteps : List (FabricStep Unit Literal) :=
  (FabricCall.appendSemantic (sampleSemantic [])).steps () openFabric 0

def causeHashes : List String :=
  ((fabrics Unit Literal prefixDigest).after causeSteps).world.db.events.rows.map
    fun r => r.eventHash

/-- Then those of an event it causes. -/
def effectSteps : List (FabricStep Unit Literal) :=
  causeSteps ++ (FabricCall.appendSemantic (sampleSemantic causeHashes)).steps () openFabric 1

theorem causality_exact_effect :
    causeHashes.length = 1 ∧
    ∀ r ∈ ((fabrics Unit Literal prefixDigest).after effectSteps).world.db.events.rows,
      ∃ turns dag, (∀ k, turns ≤ k → getCausalityDag Literal
        ((fabrics Unit Literal prefixDigest).after effectSteps).world.db k r.eventHash =
          some (.ok dag)) ∧
      ExactDag Literal ((fabrics Unit Literal prefixDigest).after effectSteps).world.db r dag := by
  have hchecked : ∀ a ∈ effectSteps, a.Checked := by
    simp [effectSteps, causeSteps, FabricCall.steps, FabricStep.Checked, sampleSemantic]
  refine ⟨rfl, (causality_exact Unit Literal prefixDigest_injective effectSteps ?_).2.2⟩
  rintro before a behind heq
  exact hchecked a (by simp [heq])

end PiPlatform.EventFabric
