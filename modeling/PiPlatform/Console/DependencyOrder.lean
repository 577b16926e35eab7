import Mathlib.Data.List.Chain
import Mathlib.Data.List.Perm.Subperm
import PiPlatform.Console.CoreAdapter

/-! Compositions are executed in dependency order, or not.

Once every edge comes from a node, the adjacency has the edges (`adjacency_ok`), the search finds
a cycle if there is one, and without one the walks along first edges are as long as such paths
get (`walkDepth_le_iff`). All that stands between `can_execute` and a sound composition is then
what the walks do not see, and the order the nodes are listed in. -/
namespace PiPlatform.Console

open Library Relation

variable {edges : List CompositionEdge}

/-! ### The adjacency -/

def targetsOf (edges : List CompositionEdge) (v : String) : List String :=
  (edges.filter (·.source = v)).map (·.target)

theorem targetsOf_cons (e : CompositionEdge) (edges : List CompositionEdge) (v : String) :
    targetsOf (e :: edges) v =
      (if e.source = v then [e.target] else []) ++ targetsOf edges v := by
  rw [targetsOf, List.filter_cons]
  by_cases h : e.source = v
  · rw [if_pos (decide_eq_true h), if_pos h]
    rfl
  · rw [if_neg (by simpa using h), if_neg h]
    rfl

theorem mem_targetsOf {v w : String} :
    w ∈ targetsOf edges v ↔ ∃ e ∈ edges, e.source = v ∧ e.target = w := by
  simp [targetsOf, and_assoc]

theorem links_known {adj adj' : Dict String (List String)} (h : edges.foldlM link adj = .ok adj') :
    (∀ e ∈ edges, ∃ targets, adj.get? e.source = some targets) ∧
      ∀ v, adj'.get? v = (adj.get? v).map (· ++ targetsOf edges v) := by
  induction edges generalizing adj with
  | nil =>
    obtain rfl : adj = adj' := Except.ok.inj h
    refine ⟨List.forall_mem_nil _, fun v => ?_⟩
    cases adj.get? v with
    | none => rfl
    | some targets => exact congrArg some (List.append_nil targets).symm
  | cons e edges ih =>
    rw [List.foldlM_cons, link] at h
    cases hget : adj.get? e.source with
    | none =>
      rw [hget] at h
      cases h
    | some targets =>
      rw [hget] at h
      obtain ⟨hknown, hadj⟩ := ih h
      constructor
      · refine List.forall_mem_cons.mpr ⟨⟨targets, hget⟩, fun e' he' => ?_⟩
        obtain ⟨targets', htargets'⟩ := hknown e' he'
        rw [Dict.get?_set] at htargets'
        split_ifs at htargets' with heq
        · exact ⟨targets, heq ▸ hget⟩
        · exact ⟨targets', htargets'⟩
      · intro v
        rw [hadj v, Dict.get?_set, targetsOf_cons]
        split_ifs with heq
        · rw [← heq, hget, Option.map_some, Option.map_some, List.append_assoc]
        · rfl

theorem links_ok {adj : Dict String (List String)}
    (h : ∀ e ∈ edges, ∃ targets, adj.get? e.source = some targets) :
    ∃ adj', edges.foldlM link adj = .ok adj' := by
  induction edges generalizing adj with
  | nil => exact ⟨adj, rfl⟩
  | cons e edges ih =>
    obtain ⟨⟨targets, hget⟩, hknown⟩ := List.forall_mem_cons.mp h
    rw [List.foldlM_cons, link, hget]
    refine ih fun e' he' => ?_
    rw [Dict.get?_set]
    split_ifs
    · exact ⟨_, rfl⟩
    · exact hknown e' he'

namespace ExplicitCompositionRequest

variable {r : ExplicitCompositionRequest} {adj : Dict String (List String)}

theorem get?_nodes (r : ExplicitCompositionRequest) (v : String) :
    (Dict.ofList (r.nodeIds.map fun id => (id, ([] : List String)))).get? v =
      if v ∈ r.nodeIds then some [] else none :=
  Dict.get?_ofList_map r.nodeIds (fun _ => []) v

/-- The adjacency is built when every edge comes from a node. -/
theorem adjacency_ok (r : ExplicitCompositionRequest) :
    (∃ adj, r.adjacency = .ok adj) ↔ ∀ e ∈ r.edges, e.source ∈ r.nodeIds := by
  constructor
  · intro ⟨adj, hadj⟩ e he
    obtain ⟨targets, hget⟩ := (links_known hadj).1 e he
    rw [get?_nodes] at hget
    split_ifs at hget with hmem
    exact hmem
  · intro h
    refine links_ok fun e he => ⟨[], ?_⟩
    rw [get?_nodes, if_pos (h e he)]

theorem neighbors_eq (h : r.adjacency = .ok adj) (v : String) :
    neighbors adj v = targetsOf r.edges v := by
  rw [neighbors, (links_known h).2 v, get?_nodes]
  split_ifs with hmem
  · rfl
  · -- no edge comes from what is not a node
    have hnone : targetsOf r.edges v = [] := by
      refine List.eq_nil_iff_forall_not_mem.mpr fun w hw => ?_
      obtain ⟨e, he, rfl, -⟩ := mem_targetsOf.mp hw
      exact hmem ((adjacency_ok r).mp ⟨adj, h⟩ e he)
    rw [hnone]
    rfl

/-! ### Paths -/

/-- A declared edge from node to node. -/
def Edge (r : ExplicitCompositionRequest) (a b : String) : Prop :=
  ∃ e ∈ r.edges, e.source = a ∧ e.target = b

/-- The first of the edges listed from `a`. -/
def FirstEdge (r : ExplicitCompositionRequest) (a b : String) : Prop :=
  (targetsOf r.edges a).head? = some b

/-- No node leads back to itself. -/
def Acyclic (r : ExplicitCompositionRequest) : Prop := ∀ v, ¬ TransGen r.Edge v v

/-- No path of the relation has more edges than `max_depth`. -/
def DepthBounded (r : ExplicitCompositionRequest) (R : String → String → Prop) : Prop :=
  ∀ v rest, (v :: rest).IsChain R → (rest.length : Int) ≤ r.maxDepth

theorem FirstEdge.edge {a b : String} (h : r.FirstEdge a b) : r.Edge a b :=
  mem_targetsOf.mp (List.mem_of_mem_head? h)

theorem edge_neighbors (h : r.adjacency = .ok adj) :
    DepthFirst.Edge (neighbors adj) = r.Edge := by
  funext a b
  rw [DepthFirst.Edge, neighbors_eq h]
  exact propext mem_targetsOf

theorem hasCycle_iff (h : r.adjacency = .ok adj) :
    r.hasCycle adj = true ↔ ¬ r.Acyclic := by
  have hnext : ∀ v, ∀ n ∈ neighbors adj v, ∃ e ∈ r.edges, e.source = v ∧ e.target = n := by
    intro v n hn
    rw [neighbors_eq h] at hn
    exact mem_targetsOf.mp hn
  rw [hasCycle, DepthFirst.sweep_iff (U := (r.nodeIds ++ r.edges.map (·.target)).toFinset),
    edge_neighbors h]
  · rw [Acyclic, not_forall]
    exact exists_congr fun u => not_not.symm
  · intro v n hn
    obtain ⟨e, he, -, rfl⟩ := hnext v n hn
    exact List.mem_toFinset.mpr (List.mem_append_right _ (List.mem_map_of_mem he))
  · refine (List.toFinset_card_le _).trans (le_of_eq ?_)
    rw [List.length_append, nodeIds, List.length_map, List.length_map]
  · intro v hv
    exact List.mem_toFinset.mpr (List.mem_append_left _ hv)
  · intro v n hn
    obtain ⟨e, he, rfl, -⟩ := hnext v n hn
    exact (adjacency_ok r).mp ⟨adj, h⟩ e he

/-! ### Walks along first edges -/

theorem neighbors_cons (h : r.adjacency = .ok adj) {a first : String} {others : List String}
    (heq : neighbors adj a = first :: others) : r.FirstEdge a first := by
  rw [FirstEdge, ← neighbors_eq h, heq]
  rfl

theorem walkDepth_end {v : String} (heq : neighbors adj v = []) (k : Nat) (seen : List String) :
    walkDepth adj k v seen = 0 := by
  cases k with
  | zero => rfl
  | succ k => rw [walkDepth, heq]

theorem walkDepth_step {v first : String} {others : List String}
    (heq : neighbors adj v = first :: others) (k : Nat) (seen : List String) :
    walkDepth adj (k + 1) v seen =
      if v ∈ seen then 0 else walkDepth adj k first (v :: seen) + 1 := by
  rw [walkDepth, heq]

/-- A walk is a path. -/
theorem exists_walk (h : r.adjacency = .ok adj) (k : Nat) :
    ∀ v seen, ∃ rest, (v :: rest).IsChain r.FirstEdge ∧ rest.length = walkDepth adj k v seen := by
  induction k with
  | zero => exact fun v seen => ⟨[], List.isChain_singleton v, rfl⟩
  | succ k ih =>
    intro v seen
    cases heq : neighbors adj v with
    | nil => exact ⟨[], List.isChain_singleton v, (walkDepth_end heq _ seen).symm⟩
    | cons first others =>
      rw [walkDepth_step heq]
      split_ifs with hseen
      · exact ⟨[], List.isChain_singleton v, rfl⟩
      · obtain ⟨rest, hchain, hlength⟩ := ih first (v :: seen)
        exact ⟨first :: rest, .cons_cons (neighbors_cons h heq) hchain,
          congrArg Nat.succ hlength⟩

/-- Without a cycle a walk is not cut short by what it has seen. -/
theorem length_le_walkDepth (h : r.adjacency = .ok adj) (hacyclic : r.Acyclic)
    (rest : List String) : ∀ k v seen, (v :: rest).IsChain r.FirstEdge →
      (∀ u ∈ seen, TransGen r.Edge u v) → rest.length ≤ k →
      rest.length ≤ walkDepth adj k v seen := by
  induction rest with
  | nil => exact fun k v seen _ _ _ => Nat.zero_le _
  | cons w rest ih =>
    intro k v seen hchain hseen hk
    obtain ⟨hfirst, hchain⟩ := List.isChain_cons_cons.mp hchain
    cases k with
    | zero => exact absurd hk (Nat.not_succ_le_zero _)
    | succ k =>
      have hnew : v ∉ seen := fun hmem => hacyclic v (hseen v hmem)
      cases heq : neighbors adj v with
      | nil =>
        rw [FirstEdge, ← neighbors_eq h, heq] at hfirst
        cases hfirst
      | cons first others =>
        obtain rfl : first = w := by
          rw [FirstEdge, ← neighbors_eq h, heq] at hfirst
          exact Option.some.inj hfirst
        rw [walkDepth_step heq, if_neg hnew]
        refine Nat.succ_le_succ (ih k first (v :: seen) hchain ?_ (Nat.le_of_succ_le_succ hk))
        intro u hu
        rcases List.mem_cons.mp hu with rfl | hu
        · exact .single hfirst.edge
        · exact (hseen u hu).tail hfirst.edge

/-- The nodes that a step may still be taken from. -/
def unwalked (r : ExplicitCompositionRequest) (seen : List String) : Finset String :=
  (r.edges.map (·.source)).toFinset \ seen.toFinset

theorem walkDepth_succ (h : r.adjacency = .ok adj) (k : Nat) :
    ∀ v seen, (r.unwalked seen).card ≤ k →
      walkDepth adj (k + 1) v seen = walkDepth adj k v seen := by
  have hsource : ∀ v first others seen, neighbors adj v = first :: others → v ∉ seen →
      v ∈ r.unwalked seen := by
    intro v first others seen heq hseen
    obtain ⟨e, he, rfl, -⟩ := (neighbors_cons h heq).edge
    exact Finset.mem_sdiff.mpr ⟨List.mem_toFinset.mpr (List.mem_map_of_mem he),
      fun hmem => hseen (List.mem_toFinset.mp hmem)⟩
  induction k with
  | zero =>
    intro v seen hcard
    cases heq : neighbors adj v with
    | nil => rw [walkDepth_end heq, walkDepth_end heq]
    | cons first others =>
      have hseen : v ∈ seen := by
        by_contra hnew
        exact absurd (Finset.card_pos.mpr ⟨v, hsource v first others seen heq hnew⟩)
          (Nat.not_lt.mpr hcard)
      rw [walkDepth_step heq, if_pos hseen]
      rfl
  | succ k ih =>
    intro v seen hcard
    cases heq : neighbors adj v with
    | nil => rw [walkDepth_end heq, walkDepth_end heq]
    | cons first others =>
      rw [walkDepth_step heq, walkDepth_step heq]
      split_ifs with hseen
      · rfl
      · have hmem := hsource v first others seen heq hseen
        have hless : r.unwalked (v :: seen) = (r.unwalked seen).erase v := by
          rw [unwalked, List.toFinset_cons, Finset.sdiff_insert]
          rfl
        rw [ih first (v :: seen) (by rw [hless, Finset.card_erase_of_mem hmem]; omega)]

/-- A walk ends within as many steps as there are edges. -/
theorem walkDepth_enough (h : r.adjacency = .ok adj) (v : String) {k : Nat}
    (hk : r.edges.length ≤ k) :
    walkDepth adj k v [] = walkDepth adj r.edges.length v [] := by
  induction k, hk using Nat.le_induction with
  | base => rfl
  | succ k hk ih =>
    refine (walkDepth_succ h k v [] ((Finset.card_le_card Finset.sdiff_subset).trans ?_)).trans ih
    have hle := List.toFinset_card_le (r.edges.map (·.source))
    rw [List.length_map] at hle
    exact hle.trans hk

/-- A path without a cycle has no more edges than there are. -/
theorem length_le_edges (hacyclic : r.Acyclic) {v : String} {rest : List String}
    (hchain : (v :: rest).IsChain r.Edge) : rest.length ≤ r.edges.length := by
  have hpairs : (v :: rest).Pairwise (TransGen r.Edge) :=
    (hchain.imp fun _ _ hab => TransGen.single hab).pairwise
  have hnodup : rest.Nodup :=
    (List.pairwise_cons.mp hpairs).2.imp fun {a b} (hab : TransGen r.Edge a b) (heq : a = b) =>
      hacyclic b (heq ▸ hab)
  have hsubset : rest ⊆ r.edges.map (·.target) := by
    intro w hw
    obtain ⟨u, -, e, he, -, rfl⟩ :=
      TransGen.tail'_iff.mp ((List.pairwise_cons.mp hpairs).1 w hw)
    exact List.mem_map_of_mem he
  simpa using (List.subperm_of_subset hnodup hsubset).length_le

theorem depth_le_iff (r : ExplicitCompositionRequest) (adj : Dict String (List String)) {d : Int} :
    (r.depth adj : Int) ≤ d ↔
      0 ≤ d ∧ ∀ id ∈ r.nodeIds, (walkDepth adj r.edges.length id [] : Int) ≤ d := by
  have hfold : ∀ (l : List Nat) (m : Nat),
      ((l.foldl max m : Nat) : Int) ≤ d ↔ (m : Int) ≤ d ∧ ∀ n ∈ l, (n : Int) ≤ d := by
    intro l
    induction l with
    | nil => simp
    | cons n l ih =>
      intro m
      rw [List.foldl_cons, ih, List.forall_mem_cons, ← and_assoc]
      refine and_congr_left fun _ => ?_
      omega
  rw [depth, hfold, List.forall_mem_map]
  rfl

/-- Without a cycle `max_depth` is kept exactly when it is on paths of first edges. -/
theorem walkDepth_le_iff (h : r.adjacency = .ok adj) (hacyclic : r.Acyclic) :
    (r.depth adj : Int) ≤ r.maxDepth ↔ r.DepthBounded r.FirstEdge := by
  rw [depth_le_iff]
  constructor
  · intro ⟨hzero, hwalks⟩ v rest hchain
    cases rest with
    | nil => exact hzero
    | cons w rest =>
      obtain ⟨e, he, rfl, -⟩ := (List.isChain_cons_cons.mp hchain).1.edge
      have hedges := length_le_edges hacyclic (hchain.imp fun _ _ hab => hab.edge)
      have hwalk := length_le_walkDepth h hacyclic (w :: rest) r.edges.length e.source [] hchain
        (List.forall_mem_nil _) hedges
      exact (Int.ofNat_le.mpr hwalk).trans
        (hwalks _ ((adjacency_ok r).mp ⟨adj, h⟩ e he))
  · intro hbounded
    refine ⟨hbounded "" [] (List.isChain_singleton _), fun id _ => ?_⟩
    obtain ⟨rest, hchain, hlength⟩ := exists_walk h r.edges.length id []
    rw [← hlength]
    exact hbounded id rest hchain

/-! ### What may be executed -/

/-- What `simulate` finds nothing against. -/
structure Passes (r : ExplicitCompositionRequest) : Prop where
  targets : ∀ e ∈ r.edges, e.target ∈ r.nodeIds
  acyclic : r.Acyclic
  total : (r.nodes.length : Int) ≤ r.maxTotalNodes
  first_edges : r.DepthBounded r.FirstEdge

/-- A text that is said on a condition. -/
theorem endpointErrors_eq_nil (r : ExplicitCompositionRequest) :
    r.endpointErrors = [] ↔ ∀ e ∈ r.edges, e.source ∈ r.nodeIds ∧ e.target ∈ r.nodeIds := by
  rw [endpointErrors, List.flatMap_eq_nil_iff]
  refine forall₂_congr fun e _ => ?_
  rw [List.append_eq_nil_iff]
  exact and_congr (ite_singleton_eq_nil.trans not_not) (ite_singleton_eq_nil.trans not_not)

theorem dagErrors_eq_nil (h : r.adjacency = .ok adj) :
    r.dagErrors adj = [] ↔ (∀ e ∈ r.edges, e.target ∈ r.nodeIds) ∧ r.Acyclic := by
  have hsources := (adjacency_ok r).mp ⟨adj, h⟩
  rw [dagErrors, List.append_eq_nil_iff, endpointErrors_eq_nil]
  refine and_congr ⟨fun hall e he => (hall e he).2, fun hall e he => ⟨hsources e he, hall e he⟩⟩ ?_
  exact ite_singleton_eq_nil.trans ((not_congr (hasCycle_iff h)).trans not_not)

theorem boundsViolations_eq_nil (r : ExplicitCompositionRequest) (adj : Dict String (List String)) :
    r.boundsViolations adj = [] ↔
      (r.nodes.length : Int) ≤ r.maxTotalNodes ∧ (r.depth adj : Int) ≤ r.maxDepth := by
  rw [boundsViolations, List.append_eq_nil_iff]
  exact and_congr (ite_singleton_eq_nil.trans not_lt) (ite_singleton_eq_nil.trans not_lt)

theorem canExecute_iff (h : r.adjacency = .ok adj) :
    (r.respond adj).canExecute = true ↔ r.Passes := by
  have hrespond : (r.respond adj).canExecute = true ↔
      r.dagErrors adj = [] ∧ r.boundsViolations adj = [] := by
    simp [respond, reportOn]
  rw [hrespond, dagErrors_eq_nil h, boundsViolations_eq_nil]
  constructor
  · intro ⟨⟨htargets, hacyclic⟩, htotal, hdepth⟩
    exact ⟨htargets, hacyclic, htotal, (walkDepth_le_iff h hacyclic).mp hdepth⟩
  · intro hpasses
    exact ⟨⟨hpasses.targets, hpasses.acyclic⟩, hpasses.total,
      (walkDepth_le_iff h hpasses.acyclic).mpr hpasses.first_edges⟩

end ExplicitCompositionRequest

open ExplicitCompositionRequest

/-- Wherever the two occur, `a` comes before `b`. -/
def Before (order : List String) (a b : String) : Prop :=
  ∀ i j : Nat, order[i]? = some a → order[j]? = some b → i < j

/-- A composition that may be executed, by this plan and in this order. -/
structure Executable (r : ExplicitCompositionRequest) (plan ran : List String) : Prop where
  endpoints : ∀ e ∈ r.edges, e.source ∈ r.nodeIds ∧ e.target ∈ r.nodeIds
  acyclic : r.Acyclic
  depth : r.DepthBounded r.Edge
  total : (r.nodes.length : Int) ≤ r.maxTotalNodes
  planned : ∀ e ∈ r.edges, Before plan e.source e.target
  run : ∀ e ∈ r.edges, Before ran e.source e.target

/-- Simulation returns, and what it lets through is executable. -/
def Simulated {σ : Type} (core : Option (PiCore σ)) (state : σ)
    (r : ExplicitCompositionRequest) : Prop :=
  ∃ response, simulate r = .ok response ∧ (response.canExecute = true →
    Executable r response.report.executionPlan (submit core state r).2.ran)

/-- Every edge comes from a node; and where nothing else can be found against the composition,
paths that leave first edges are not too long either, and the nodes are listed in order. -/
def Foreseen (r : ExplicitCompositionRequest) : Prop :=
  (∀ e ∈ r.edges, e.source ∈ r.nodeIds) ∧
    (r.Passes → r.DepthBounded r.Edge ∧ ∀ e ∈ r.edges, Before r.nodeIds e.source e.target)

theorem simulate_ok {r : ExplicitCompositionRequest} {response : SimulateCompositionResponse} :
    simulate r = .ok response ↔ ∃ adj, r.adjacency = .ok adj ∧ r.respond adj = response := by
  rw [simulate]
  cases r.adjacency with
  | error e => exact iff_of_false nofun (by rintro ⟨adj, hadj, -⟩; cases hadj)
  | ok adj =>
    constructor
    · intro h
      exact ⟨adj, rfl, Except.ok.inj h⟩
    · intro ⟨adj', hadj, hrespond⟩
      obtain rfl := Except.ok.inj hadj
      exact congrArg Except.ok hrespond

/-- With or without a core, simulation returns and lets through only what is executable, in
dependency order, exactly when that is foreseen. -/
theorem executes_in_order_iff {σ : Type} (core : Option (PiCore σ)) (state : σ)
    (r : ExplicitCompositionRequest) : Simulated core state r ↔ Foreseen r := by
  constructor
  · intro ⟨response, hok, hexecutable⟩
    obtain ⟨adj, hadj, rfl⟩ := simulate_ok.mp hok
    refine ⟨(adjacency_ok r).mp ⟨adj, hadj⟩, fun hpasses => ?_⟩
    have hsound := hexecutable ((canExecute_iff hadj).mpr hpasses)
    exact ⟨hsound.depth, hsound.planned⟩
  · intro ⟨hsources, hforeseen⟩
    obtain ⟨adj, hadj⟩ := (adjacency_ok r).mpr hsources
    refine ⟨r.respond adj, simulate_ok.mpr ⟨adj, hadj, rfl⟩, fun hcan => ?_⟩
    have hpasses := (canExecute_iff hadj).mp hcan
    obtain ⟨hdepth, hlisted⟩ := hforeseen hpasses
    refine ⟨fun e he => ⟨hsources e he, hpasses.targets e he⟩, hpasses.acyclic, hdepth,
      hpasses.total, hlisted, fun e he => ?_⟩
    rw [ran_submit]
    split_ifs
    · exact hlisted e he
    · exact nofun

/-! ### A node listed before the one it depends on -/

def auditNode (nodeId : String) : CompositionNode :=
  ⟨nodeId, .semanticValidator, .audit, [], ""⟩

/-- The report of the validation is composed before it. -/
def reversed : ExplicitCompositionRequest where
  requestId := "ecr_1"
  tenantId := "acme"
  nodes := [auditNode "report", auditNode "validate"]
  edges := [⟨"validate", "report"⟩]
  globalBounds := .empty

theorem reversed_not_simulated : ¬ Simulated (none : Option (PiCore Unit)) () reversed := by
  intro ⟨response, hok, hexecutable⟩
  obtain ⟨adj, hadj, rfl⟩ := simulate_ok.mp hok
  have hcan : ∀ adj ∈ reversed.adjacency.toOption, (reversed.respond adj).canExecute = true := by
    decide +kernel
  have hplanned := (hexecutable (hcan adj (by rw [hadj]; rfl))).planned
    ⟨"validate", "report"⟩ (List.mem_singleton_self _)
  exact absurd (hplanned 1 0 rfl rfl) (by decide)

end PiPlatform.Console
