import Mathlib.Data.List.Sort
import PiPlatform.AgentChain.StateTransitions
import PiPlatform.Library.Separated

/-! The state machine against the traffic it is extracted from.

The traces are put in the order of the last packet of their endpoints, so all visits of an
endpoint come together. `mirrors_iff`: the edges are the steps of the traffic exactly if no
endpoint is left and come back to. -/
namespace PiPlatform.AgentChain.Transitions

open Library Library.Python
open Auth (SemanticIRTrace NormalizedTrafficPacket AuthConsistencyReport AuthInvariant)

/-! ### Traffic -/

/-- Method and path template. -/
abbrev Endpoint := String × String

def endpointOf (t : SemanticIRTrace) : Endpoint := (t.method, t.endpointTemplate)

def packetEndpoint (p : NormalizedTrafficPacket) : Endpoint := (p.method, p.endpointPathTemplate)

def methods : List String := ["GET", "POST", "PUT", "DELETE", "PATCH", "OPTIONS", "HEAD"]

/-- Packets in the order of their times, and their traces. -/
structure Traffic where
  packets : List NormalizedTrafficPacket
  traces : List SemanticIRTrace
  times : packets.Pairwise fun p q => p.timestamp < q.timestamp
  sameOrder : traces.map endpointOf = packets.map packetEndpoint
  methods : ∀ t ∈ traces, t.method ∈ methods

def Traffic.visits (tr : Traffic) : List Endpoint := tr.traces.map endpointOf

/-- The pairs of different endpoints that follow each other. -/
def steps (visits : List Endpoint) : List (Endpoint × Endpoint) :=
  (visits.zip visits.tail).filter fun p => p.1 ≠ p.2

section Mirrors
variable {R : Type} (hash : String → String)

def nodeIdOf (x : Endpoint) : String := hash (x.1 ++ ":" ++ x.2)

/-- The nodes are the endpoints and the edges their steps, each once and with its number. -/
structure Mirrors (visits : List Endpoint) (fsm : ProtocolStateMachine R) : Prop where
  edges : (fsm.edges.map fun e => (e.fromNode, e.toNode, e.observedCount)).Perm
    ((steps visits).dedup.map fun p =>
      (nodeIdOf hash p.1, nodeIdOf hash p.2, (steps visits).count p))
  joined : ∀ e ∈ fsm.edges, e.fromNode ∈ fsm.nodes.map (·.nodeId) ∧
    e.toNode ∈ fsm.nodes.map (·.nodeId) ∧ e.fromNode ≠ e.toNode
  nodes : (fsm.nodes.map fun n => (n.method, n.endpointTemplate)).Nodup ∧
    (fsm.nodes.map (·.nodeId)).Nodup ∧
    ∀ x, x ∈ fsm.nodes.map (fun n => (n.method, n.endpointTemplate)) ↔ x ∈ visits

/-- The truncated digests of the run's node and edge names are different. -/
structure NoCollisions (executionId : String) (visits : List Endpoint) : Prop where
  nodes : ∀ x ∈ visits, ∀ y ∈ visits, nodeIdOf hash x = nodeIdOf hash y →
    x.1 ++ ":" ++ x.2 = y.1 ++ ":" ++ y.2
  edges : ∀ x ∈ visits, ∀ y ∈ visits, ∀ x' ∈ visits, ∀ y' ∈ visits,
    hash ("edge:" ++ nodeIdOf hash x ++ "->" ++ nodeIdOf hash y ++ ":" ++ executionId) =
      hash ("edge:" ++ nodeIdOf hash x' ++ "->" ++ nodeIdOf hash y' ++ ":" ++ executionId) →
    nodeIdOf hash x = nodeIdOf hash x' ∧ nodeIdOf hash y = nodeIdOf hash y'

/-- No endpoint is left and come back to. -/
def Unrevisited (visits : List Endpoint) : Prop :=
  ∀ x y, x ≠ y → ¬ [x, y, x].Sublist visits

end Mirrors

/-! ### Order -/

section Order
variable {packets : List NormalizedTrafficPacket} {x y : Endpoint} {visits : List Endpoint}

/-- The time of the last packet of an endpoint. -/
def lastTime (packets : List NormalizedTrafficPacket) (x : Endpoint) : Int :=
  ((packets.reverse.find? fun p => packetEndpoint p = x).map (·.timestamp)).getD 0

theorem traceTime_eq (t : SemanticIRTrace) :
    traceTime packets t = lastTime packets (endpointOf t) := by
  rw [traceTime, lastTime]
  refine congrArg (fun p => ((packets.reverse.find? p).map (·.timestamp)).getD 0) ?_
  funext p
  rw [packetEndpoint, endpointOf, decide_eq_decide, Prod.mk.injEq]
  exact and_comm

/-- A last packet there is, at that time, and none of the endpoint later. -/
theorem exists_last (hx : x ∈ packets.map packetEndpoint)
    (htimes : packets.Pairwise fun p q => p.timestamp < q.timestamp) :
    ∃ p ∈ packets, packetEndpoint p = x ∧ lastTime packets x = p.timestamp ∧
      ∀ q ∈ packets, packetEndpoint q = x → q.timestamp ≤ p.timestamp := by
  obtain ⟨p, hp, rfl⟩ := List.mem_map.mp hx
  rw [lastTime]
  cases hfound : packets.reverse.find? fun q => packetEndpoint q = packetEndpoint p with
  | none =>
    have hnot := List.find?_eq_none.mp hfound p (List.mem_reverse.mpr hp)
    exact absurd (decide_eq_true rfl) hnot
  | some r =>
    obtain ⟨hr, before, after, hsplit, hbefore⟩ := List.find?_eq_some_iff_append.mp hfound
    have hmem : r ∈ packets := List.mem_reverse.mp (List.mem_of_find?_eq_some hfound)
    refine ⟨r, hmem, of_decide_eq_true hr, rfl, fun q hq hsame => ?_⟩
    have hreverse : (before ++ r :: after).Pairwise fun p q => q.timestamp < p.timestamp := by
      rw [← hsplit]
      exact List.pairwise_reverse.mpr htimes
    have hq' : q ∈ before ++ r :: after := hsplit ▸ List.mem_reverse.mpr hq
    rcases List.mem_append.mp hq' with hearly | hlate
    · have hnot := hbefore q hearly
      rw [hsame, decide_eq_true rfl] at hnot
      cases hnot
    · rcases List.mem_cons.mp hlate with rfl | hlate
      · exact le_rfl
      · exact ((List.pairwise_cons.mp (List.pairwise_append.mp hreverse).2.1).1 q hlate).le

theorem eq_of_timestamp (htimes : packets.Pairwise fun p q => p.timestamp < q.timestamp)
    {p q : NormalizedTrafficPacket} (hp : p ∈ packets) (hq : q ∈ packets)
    (h : p.timestamp = q.timestamp) : p = q := by
  have hnodup : (packets.map (·.timestamp)).Nodup :=
    List.pairwise_map.mpr (htimes.imp fun hlt => hlt.ne)
  exact List.inj_on_of_nodup_map hnodup hp hq h

theorem lastTime_injOn (htimes : packets.Pairwise fun p q => p.timestamp < q.timestamp)
    (hx : x ∈ packets.map packetEndpoint) (hy : y ∈ packets.map packetEndpoint)
    (h : lastTime packets x = lastTime packets y) : x = y := by
  obtain ⟨p, hp, rfl, hlast, -⟩ := exists_last hx htimes
  obtain ⟨q, hq, rfl, hlast', -⟩ := exists_last hy htimes
  rw [eq_of_timestamp htimes hp hq (hlast.symm.trans (h.trans hlast'))]

/-- Where no endpoint is come back to, the visits are in the order of the last ones. -/
theorem sorted_of_unrevisited (htimes : packets.Pairwise fun p q => p.timestamp < q.timestamp)
    (h : Unrevisited (packets.map packetEndpoint)) :
    (packets.map packetEndpoint).Pairwise fun x y => lastTime packets x ≤ lastTime packets y := by
  refine List.pairwise_map.mpr (List.pairwise_iff_forall_sublist.mpr fun {p q} hsub => ?_)
  have hp : p ∈ packets := hsub.subset (List.mem_cons_self ..)
  have hq : q ∈ packets := hsub.subset (List.mem_cons_of_mem _ (List.mem_cons_self ..))
  obtain ⟨r, hr, hendpoint, hlast, -⟩ := exists_last (List.mem_map_of_mem hp) htimes
  obtain ⟨s, hs, -, hlast', hlatest⟩ := exists_last (List.mem_map_of_mem hq) htimes
  rw [hlast, hlast']
  by_contra hlate
  have hqs := hlatest q hq rfl
  have hpq : p.timestamp < q.timestamp := List.pairwise_iff_forall_sublist.mp htimes hsub
  have hqr : q.timestamp < r.timestamp := by omega
  have hthree : [p, q, r].Sublist packets := by
    have hpairwise : [p, q, r].Pairwise fun a b : NormalizedTrafficPacket =>
        a.timestamp < b.timestamp := by
      simp only [List.pairwise_cons, List.mem_cons, List.not_mem_nil, or_false, forall_eq_or_imp,
        forall_eq, List.Pairwise.nil, and_true, IsEmpty.forall_iff, implies_true]
      exact ⟨⟨hpq, hpq.trans hqr⟩, hqr⟩
    have hnodup : [p, q, r].Nodup := hpairwise.imp fun hlt heq => by
      rw [heq] at hlt
      exact lt_irrefl _ hlt
    have hsubset : [p, q, r] ⊆ packets := by
      simp only [List.cons_subset, List.nil_subset, and_true]
      exact ⟨hp, hq, hr⟩
    have hantisymm : Std.Antisymm fun a b : NormalizedTrafficPacket => a.timestamp < b.timestamp :=
      ⟨fun _ _ hlt hgt => absurd (hlt.trans hgt) (lt_irrefl _)⟩
    exact List.sublist_of_subperm_of_pairwise (List.subperm_of_subset hnodup hsubset) hpairwise
      htimes
  refine h (packetEndpoint p) (packetEndpoint q) (fun heq => ?_)
    (by simpa [hendpoint] using hthree.map packetEndpoint)
  have hrs := hlatest r hr (hendpoint.trans heq)
  omega

theorem mem_steps_cons {p : Endpoint × Endpoint} :
    p ∈ steps (x :: y :: visits) ↔ p = (x, y) ∧ x ≠ y ∨ p ∈ steps (y :: visits) := by
  simp only [steps, List.tail_cons, List.zip_cons_cons, List.mem_filter, List.mem_cons,
    decide_eq_true_eq, or_and_right]
  refine or_congr_left (and_congr_right fun heq => ?_)
  rw [heq]

/-- Steps that ascend make an order that ascends. -/
theorem pairwise_of_steps (f : Endpoint → Int)
    (h : ∀ p ∈ steps visits, f p.1 ≤ f p.2) : visits.Pairwise fun x y => f x ≤ f y := by
  induction visits with
  | nil => exact .nil
  | cons x visits ih =>
    cases visits with
    | nil => exact List.pairwise_singleton _ _
    | cons y visits =>
      have hrest := ih fun p hp => h p (mem_steps_cons.mpr (.inr hp))
      have hstep : f x ≤ f y := by
        by_cases heq : x = y
        · rw [heq]
        · exact h (x, y) (mem_steps_cons.mpr (.inl ⟨rfl, heq⟩))
      refine .cons (fun z hz => ?_) hrest
      rcases List.mem_cons.mp hz with rfl | hz
      · exact hstep
      · exact hstep.trans ((List.pairwise_cons.mp hrest).1 z hz)

/-- Where each step leads to an endpoint that ends later, none is come back to. -/
theorem unrevisited_of_steps (htimes : packets.Pairwise fun p q => p.timestamp < q.timestamp)
    (h : ∀ p ∈ steps (packets.map packetEndpoint), lastTime packets p.1 ≤ lastTime packets p.2) :
    Unrevisited (packets.map packetEndpoint) := by
  intro x y hne hsub
  have hpairwise := (pairwise_of_steps _ h).sublist hsub
  simp only [List.pairwise_cons, List.mem_cons, List.not_mem_nil, or_false, forall_eq_or_imp,
    forall_eq] at hpairwise
  refine hne (lastTime_injOn htimes (hsub.subset (List.mem_cons_self ..))
    (hsub.subset (List.mem_cons_of_mem _ (List.mem_cons_self ..))) ?_)
  exact le_antisymm hpairwise.1.1 hpairwise.2.1

theorem mem_of_mem_steps {p : Endpoint × Endpoint} (h : p ∈ steps visits) :
    p.1 ∈ visits ∧ p.2 ∈ visits ∧ p.1 ≠ p.2 := by
  obtain ⟨hzip, hne⟩ := List.mem_filter.mp h
  obtain ⟨h₁, h₂⟩ := List.of_mem_zip hzip
  exact ⟨h₁, List.mem_of_mem_tail h₂, of_decide_eq_true hne⟩

end Order

/-! ### Nodes -/

section Nodes
variable {hash : String → String} {traces : List SemanticIRTrace}

theorem buildNodes_nodeIds : (buildNodes hash traces).map (·.nodeId) =
    (firstsBy nodeKey [] traces).map fun t => nodeIdOf hash (endpointOf t) := by
  rw [buildNodes, List.map_map]
  rfl

/-- A method has no colon, so the keys of different endpoints are different. -/
theorem eq_of_key {x y : Endpoint} (hx : x.1 ∈ methods) (hy : y.1 ∈ methods)
    (h : x.1 ++ ":" ++ x.2 = y.1 ++ ":" ++ y.2) : x = y := by
  have hcolon : ∀ m ∈ methods, ':' ∉ m.toList := by decide
  have hlists := congrArg String.toList h
  simp only [String.toList_append] at hlists
  rw [List.append_assoc, List.append_assoc] at hlists
  have hsplit := congrArg (List.splitOn ':') hlists
  rw [show ":".toList = [':'] from rfl, List.singleton_append, List.singleton_append,
    List.splitOn_append_cons_self_of_not_mem (hcolon _ hx),
    List.splitOn_append_cons_self_of_not_mem (hcolon _ hy)] at hsplit
  obtain ⟨hfirst, hsecond⟩ := List.cons.inj hsplit
  exact Prod.ext (String.toList_inj.mp hfirst)
    (String.toList_inj.mp (splitOn_injective ':' hsecond))

variable {executionId : String}

/-- Different endpoints have different nodes. -/
theorem nodeIdOf_injOn (h : NoCollisions hash executionId (traces.map endpointOf))
    (hmethods : ∀ t ∈ traces, t.method ∈ methods) {x y : Endpoint}
    (hx : x ∈ traces.map endpointOf) (hy : y ∈ traces.map endpointOf)
    (heq : nodeIdOf hash x = nodeIdOf hash y) : x = y := by
  have hkey := h.nodes x hx y hy heq
  obtain ⟨t, ht, rfl⟩ := List.mem_map.mp hx
  obtain ⟨u, hu, rfl⟩ := List.mem_map.mp hy
  exact eq_of_key (hmethods t ht) (hmethods u hu) hkey

theorem mem_firsts {x : Endpoint} :
    x ∈ (firstsBy nodeKey [] traces).map endpointOf → x ∈ traces.map endpointOf := by
  intro hx
  obtain ⟨t, ht, rfl⟩ := List.mem_map.mp hx
  exact List.mem_map_of_mem ((firstsBy_sublist _).mem ht)

/-- Every trace's endpoint is the first trace's that has it. -/
theorem mem_firsts_iff (hmethods : ∀ t ∈ traces, t.method ∈ methods) {x : Endpoint} :
    x ∈ (firstsBy nodeKey [] traces).map endpointOf ↔ x ∈ traces.map endpointOf := by
  refine ⟨mem_firsts, fun hx => ?_⟩
  obtain ⟨t, ht, rfl⟩ := List.mem_map.mp hx
  have hkey : nodeKey t ∈ (firstsBy nodeKey [] traces).map nodeKey ++ [] :=
    (mem_keys_firstsBy traces).mpr (List.mem_append_left _ (List.mem_map_of_mem ht))
  rw [List.append_nil] at hkey
  obtain ⟨u, hu, hsame⟩ := List.mem_map.mp hkey
  have hmem : u ∈ traces := (firstsBy_sublist _).mem hu
  have heq : endpointOf u = endpointOf t := eq_of_key (hmethods u hmem) (hmethods t ht) hsame
  exact heq ▸ List.mem_map_of_mem hu

theorem nodup_firsts : ((firstsBy nodeKey [] traces).map endpointOf).Nodup := by
  have hkeys : ((firstsBy nodeKey [] traces).map nodeKey).Nodup := nodup_firstsBy traces
  rw [show nodeKey = (fun x : Endpoint => x.1 ++ ":" ++ x.2) ∘ endpointOf from rfl,
    ← List.map_map] at hkeys
  exact hkeys.of_map _

end Nodes

/-! ### Edges -/

section Edges
variable {R : Type} {N : Floats R} {hash : String → String} {executionId : String}
  {nodes : List StateNode} {traces : List SemanticIRTrace}

/-- What is claimed of an edge. -/
def triple (e : TransitionEdge R) : String × String × Nat := (e.fromNode, e.toNode, e.observedCount)

/-- The edge of a step, before it is merged. -/
def edgeOf (N : Floats R) (hash : String → String) (executionId : String)
    (p : Endpoint × Endpoint) : TransitionEdge R where
  edgeId := hash ("edge:" ++ nodeIdOf hash p.1 ++ "->" ++ nodeIdOf hash p.2 ++ ":" ++ executionId)
  fromNode := nodeIdOf hash p.1
  toNode := nodeIdOf hash p.2
  observedCount := 1
  replayConfirmedCount := 0
  authDependencies := []
  replayConfidence := N.dec 0 1
  epistemicState := EpistemicState.observed

theorem rawEdges_eq (hnodes : ∀ x ∈ traces.map endpointOf, nodeIdOf hash x ∈ nodes.map (·.nodeId))
    (hinj : ∀ x ∈ traces.map endpointOf, ∀ y ∈ traces.map endpointOf,
      nodeIdOf hash x = nodeIdOf hash y → x = y) :
    rawEdges N hash executionId nodes traces =
      (steps (traces.map endpointOf)).map (edgeOf N hash executionId) := by
  rw [rawEdges, steps, ← List.map_tail, List.zip_map, List.filter_map, List.map_map,
    ← List.filterMap_eq_map (f := _ ∘ _), List.filterMap_filter]
  refine List.filterMap_congr fun ⟨curr, nxt⟩ hpair => ?_
  obtain ⟨hcurr, hnxt⟩ := List.of_mem_zip hpair
  have hcurr : endpointOf curr ∈ traces.map endpointOf := List.mem_map_of_mem hcurr
  have hnxt : endpointOf nxt ∈ traces.map endpointOf :=
    List.mem_map_of_mem (List.mem_of_mem_tail hnxt)
  have hcond : (hash (nodeKey curr) ∈ nodes.map (·.nodeId) ∧
      hash (nodeKey nxt) ∈ nodes.map (·.nodeId) ∧ hash (nodeKey curr) ≠ hash (nodeKey nxt)) ↔
      endpointOf curr ≠ endpointOf nxt := by
    constructor
    · rintro ⟨-, -, hne⟩ heq
      exact hne (congrArg (nodeIdOf hash) heq)
    · intro hne
      exact ⟨hnodes _ hcurr, hnodes _ hnxt, fun heq => hne (hinj _ hcurr _ hnxt heq)⟩
  dsimp only [Function.comp_apply, Prod.map]
  by_cases hne : endpointOf curr = endpointOf nxt
  · rw [if_neg (fun h => hcond.mp h hne), if_neg (by simpa using hne)]
  · rw [if_pos (hcond.mpr hne), if_pos (by simpa using hne)]
    rfl

/-- The steps of the sorted traces, each once and with its number. -/
theorem buildEdges_perm {packets : List NormalizedTrafficPacket}
    (hnodes : ∀ x ∈ traces.map endpointOf, nodeIdOf hash x ∈ nodes.map (·.nodeId))
    (hinj : ∀ x ∈ traces.map endpointOf, ∀ y ∈ traces.map endpointOf,
      nodeIdOf hash x = nodeIdOf hash y → x = y)
    (hcollisions : NoCollisions hash executionId (traces.map endpointOf)) :
    ((buildEdges N hash executionId nodes traces packets).map triple).Perm
      ((steps ((sortBy (traceTime packets) traces).map endpointOf)).dedup.map fun p =>
        (nodeIdOf hash p.1, nodeIdOf hash p.2,
          (steps ((sortBy (traceTime packets) traces).map endpointOf)).count p)) := by
  set sorted := sortBy (traceTime packets) traces with hsorted
  have hmem : ∀ x, x ∈ sorted.map endpointOf ↔ x ∈ traces.map endpointOf := fun x =>
    ((stableSort_sortBy (traceTime packets) traces).perm.map endpointOf).mem_iff
  set followed := steps (sorted.map endpointOf) with hfollowed
  have hbuilt : rawEdges N hash executionId nodes sorted =
      followed.map (edgeOf N hash executionId) := by
    refine rawEdges_eq (fun x hx => hnodes x ((hmem x).mp hx)) fun x hx y hy => ?_
    exact hinj x ((hmem x).mp hx) y ((hmem y).mp hy)
  have hids : ∀ p ∈ followed, ∀ q ∈ followed,
      (edgeOf N hash executionId p).edgeId = (edgeOf N hash executionId q).edgeId → p = q := by
    intro p hp q hq heq
    obtain ⟨hp₁, hp₂, -⟩ := mem_of_mem_steps hp
    obtain ⟨hq₁, hq₂, -⟩ := mem_of_mem_steps hq
    rw [hmem] at hp₁ hp₂ hq₁ hq₂
    obtain ⟨hfrom, hto⟩ := hcollisions.edges _ hp₁ _ hp₂ _ hq₁ _ hq₂ heq
    exact Prod.ext (hinj _ hp₁ _ hq₁ hfrom) (hinj _ hp₂ _ hq₂ hto)
  -- The first of the edges of one id stands for the step.
  set firsts := firstsBy (fun p => (edgeOf N hash executionId p).edgeId) [] followed with hfirsts
  have hmerged : (buildEdges N hash executionId nodes traces packets).map triple =
      firsts.map fun p => (nodeIdOf hash p.1, nodeIdOf hash p.2, followed.count p) := by
    have hgroups : groupBy (·.edgeId) (followed.map (edgeOf N hash executionId)) =
        firsts.map fun p => ((edgeOf N hash executionId p).edgeId,
          (followed.filter fun q => (edgeOf N hash executionId q).edgeId =
            (edgeOf N hash executionId p).edgeId).map (edgeOf N hash executionId)) := by
      rw [groupBy, List.map_map, firstsBy_map, List.map_map]
      refine List.map_congr_left fun p _ => ?_
      rw [Function.comp_apply, List.filter_map]
      rfl
    rw [buildEdges, ← hsorted, hbuilt]
    dsimp only
    rw [hgroups, List.flatMap_map, List.map_flatMap, List.map_eq_flatMap]
    refine List.flatMap_congr fun p hp => ?_
    have hmem : p ∈ followed := (firstsBy_sublist _).mem hp
    have hsame : (followed.filter fun q => (edgeOf N hash executionId q).edgeId =
        (edgeOf N hash executionId p).edgeId) = List.replicate (followed.count p) p := by
      rw [← List.filter_eq]
      refine List.filter_congr fun q hq => decide_eq_decide.mpr ⟨hids q hq p hmem, fun heq => ?_⟩
      rw [heq]
    obtain ⟨count, hcount⟩ := Nat.exists_eq_succ_of_ne_zero (List.count_pos_iff.mpr hmem).ne'
    rw [hsame, hcount]
    simp [List.replicate_succ, triple, edgeOf]
  have hperm : firsts.Perm followed.dedup := by
    refine (List.perm_ext_iff_of_nodup (nodup_firstsBy followed).of_map
      (List.nodup_dedup _)).mpr fun p => ?_
    rw [List.mem_dedup]
    refine ⟨fun hp => (firstsBy_sublist _).mem hp, fun hp => ?_⟩
    have hid := List.mem_append_left [] (List.mem_map_of_mem
      (f := fun p => (edgeOf N hash executionId p).edgeId) hp)
    rw [← mem_keys_firstsBy, List.append_nil] at hid
    obtain ⟨q, hq, heq⟩ := List.mem_map.mp hid
    rwa [← hids q ((firstsBy_sublist _).mem hq) p hp heq]
  rw [hmerged]
  exact hperm.map _

end Edges

/-! ### Extraction -/

section Extract
variable {R : Type} {N : Floats R} {hash : String → String} {bounds : ValidationBounds}
  {executionId : String} {order : SetOrder} {traces : List SemanticIRTrace}
  {packets : List NormalizedTrafficPacket} {authReport : AuthConsistencyReport R}

theorem contestFrom_triples (node : String) (position : Nat) (edges : List (TransitionEdge R)) :
    (contestFrom node position edges).map triple = edges.map triple := by
  fun_induction contestFrom node position edges with
  | case1 => rfl
  | case2 e rest _ ih | case3 e rest _ position ih | case4 position e rest _ ih =>
    exact congrArg (triple e :: ·) ih

theorem checkFanout_triples (node : StateNode)
    (state : List (TransitionEdge R) × List (Violation R)) :
    (checkFanout hash bounds executionId node state).1.map triple = state.1.map triple := by
  rw [checkFanout]
  split
  · exact contestFrom_triples _ _ _
  · rfl

theorem checkFanouts_triples (nodes : List StateNode)
    (state : List (TransitionEdge R) × List (Violation R)) :
    (nodes.foldl (fun state node => checkFanout hash bounds executionId node state) state).1.map
      triple = state.1.map triple := by
  induction nodes generalizing state with
  | nil => rfl
  | cons node rest ih => exact (ih _).trans (checkFanout_triples node state)

theorem applyReplayGate_triples (edges : List (TransitionEdge R)) :
    (applyReplayGate N hash executionId edges).1.map triple = edges.map triple := by
  rw [applyReplayGate, List.map_map]
  refine List.map_congr_left fun e _ => ?_
  rw [Function.comp_apply]
  split
  · rfl
  · split <;> rfl

theorem linkAuthDependencies_triples (nodes : List StateNode) (invariants : List (AuthInvariant R))
    (edges : List (TransitionEdge R)) :
    (linkAuthDependencies nodes invariants edges).map triple = edges.map triple := by
  rw [linkAuthDependencies, List.map_map]
  refine List.map_congr_left fun e _ => ?_
  rw [Function.comp_apply]
  split
  · rfl
  · dsimp only
    split <;> rfl

variable (order authReport) in
/-- Within the bounds the nodes and edges that were built are returned. -/
theorem extractFsm_built (hnodes : (buildNodes hash traces).length ≤ bounds.maxFsmNodes)
    (hedges : (buildEdges N hash executionId (buildNodes hash traces) traces packets).length ≤
      bounds.maxFsmEdges) :
    let fsm := (extractFsm N hash bounds executionId order traces packets authReport).1
    fsm.nodes = buildNodes hash traces ∧
      fsm.edges.map triple =
        (buildEdges N hash executionId (buildNodes hash traces) traces packets).map triple := by
  rw [extractFsm]
  simp only [not_lt.mpr hnodes, decide_false, Bool.false_eq_true, if_false, not_lt.mpr hedges]
  refine ⟨trivial, ?_⟩
  rw [linkAuthDependencies_triples, applyReplayGate_triples, checkFanouts_triples]

theorem steps_of_pairwise {f : Endpoint → Int} {visits : List Endpoint}
    (h : visits.Pairwise fun x y => f x ≤ f y) : ∀ p ∈ steps visits, f p.1 ≤ f p.2 := by
  induction visits with
  | nil => exact fun p hp => absurd hp List.not_mem_nil
  | cons x visits ih =>
    cases visits with
    | nil => exact fun p hp => absurd hp List.not_mem_nil
    | cons y visits =>
      intro p hp
      obtain ⟨hfirst, hrest⟩ := List.pairwise_cons.mp h
      rcases mem_steps_cons.mp hp with ⟨rfl, -⟩ | hp
      · exact hfirst y (List.mem_cons_self ..)
      · exact ih hrest p hp

end Extract

/-! ### Traffic and state machine -/

section Traffic
variable {R : Type} {N : Floats R} {hash : String → String} {bounds : ValidationBounds}
  {executionId : String} {order : SetOrder} {authReport : AuthConsistencyReport R} {tr : Traffic}

theorem Traffic.sorted_visits (tr : Traffic) :
    ((sortBy (traceTime tr.packets) tr.traces).map endpointOf).Pairwise fun x y =>
      lastTime tr.packets x ≤ lastTime tr.packets y := by
  refine List.pairwise_map.mpr ((stableSort_sortBy (traceTime tr.packets) tr.traces).sorted.imp ?_)
  intro t u hle
  rwa [traceTime_eq, traceTime_eq] at hle

theorem Traffic.sortBy_eq (h : Unrevisited tr.visits) :
    sortBy (traceTime tr.packets) tr.traces = tr.traces := by
  refine List.Pairwise.insertionSort_eq ?_
  rw [Traffic.visits, tr.sameOrder] at h
  have hsorted := sorted_of_unrevisited tr.times h
  rw [← tr.sameOrder] at hsorted
  refine (List.pairwise_map.mp hsorted).imp ?_
  intro t u hle
  rwa [traceTime_eq, traceTime_eq]

theorem visits_nodeIds {x : Endpoint} (hx : x ∈ tr.visits) :
    nodeIdOf hash x ∈ (buildNodes hash tr.traces).map (·.nodeId) := by
  rw [buildNodes_nodeIds]
  obtain ⟨t, ht, rfl⟩ := List.mem_map.mp ((mem_firsts_iff tr.methods).mpr hx)
  exact List.mem_map.mpr ⟨t, ht, rfl⟩

variable (order authReport) in
/-- Without collisions and within the bounds the edges are the steps of the sorted traces. -/
theorem edges_perm (hcollisions : NoCollisions hash executionId tr.visits)
    (hnodes : (buildNodes hash tr.traces).length ≤ bounds.maxFsmNodes)
    (hedges : (buildEdges N hash executionId (buildNodes hash tr.traces) tr.traces
      tr.packets).length ≤ bounds.maxFsmEdges) :
    ((extractFsm N hash bounds executionId order tr.traces tr.packets authReport).1.edges.map
        triple).Perm
      ((steps ((sortBy (traceTime tr.packets) tr.traces).map endpointOf)).dedup.map fun p =>
        (nodeIdOf hash p.1, nodeIdOf hash p.2,
          (steps ((sortBy (traceTime tr.packets) tr.traces).map endpointOf)).count p)) := by
  obtain ⟨-, htriples⟩ :=
    extractFsm_built order authReport hnodes hedges
  rw [htriples]
  exact buildEdges_perm (fun x hx => visits_nodeIds hx)
    (fun x hx y hy => nodeIdOf_injOn hcollisions tr.methods hx hy) hcollisions

theorem unrevisited_of_mirrors (hcollisions : NoCollisions hash executionId tr.visits)
    (hnodes : (buildNodes hash tr.traces).length ≤ bounds.maxFsmNodes)
    (hedges : (buildEdges N hash executionId (buildNodes hash tr.traces) tr.traces
      tr.packets).length ≤ bounds.maxFsmEdges)
    (h : Mirrors hash tr.visits
      (extractFsm N hash bounds executionId order tr.traces tr.packets authReport).1) :
    Unrevisited tr.visits := by
  have hinj : ∀ x ∈ tr.visits, ∀ y ∈ tr.visits, nodeIdOf hash x = nodeIdOf hash y → x = y :=
    fun x hx y hy => nodeIdOf_injOn hcollisions tr.methods hx hy
  have hvisits : ∀ x ∈ (sortBy (traceTime tr.packets) tr.traces).map endpointOf, x ∈ tr.visits :=
    fun x hx =>
      ((stableSort_sortBy (traceTime tr.packets) tr.traces).perm.map endpointOf).mem_iff.mp hx
  rw [Traffic.visits, tr.sameOrder]
  refine unrevisited_of_steps tr.times fun p hp => ?_
  rw [← tr.sameOrder] at hp
  obtain ⟨hp₁, hp₂, -⟩ := mem_of_mem_steps hp
  have hperm := h.edges.symm.trans (edges_perm order authReport hcollisions hnodes hedges)
  have hmem := hperm.mem_iff.mp (List.mem_map.mpr ⟨p, List.mem_dedup.mpr hp, rfl⟩)
  obtain ⟨q, hq, heq⟩ := List.mem_map.mp hmem
  obtain ⟨hq₁, hq₂, -⟩ := mem_of_mem_steps (List.mem_dedup.mp hq)
  have hsame : q = p := Prod.ext
    (hinj _ (hvisits _ hq₁) _ hp₁ (congrArg Prod.fst heq))
    (hinj _ (hvisits _ hq₂) _ hp₂ (congrArg (fun t => t.2.1) heq))
  exact hsame ▸ steps_of_pairwise tr.sorted_visits q (List.mem_dedup.mp hq)

theorem mirrors_of_unrevisited (hcollisions : NoCollisions hash executionId tr.visits)
    (hnodes : (buildNodes hash tr.traces).length ≤ bounds.maxFsmNodes)
    (hedges : (buildEdges N hash executionId (buildNodes hash tr.traces) tr.traces
      tr.packets).length ≤ bounds.maxFsmEdges)
    (h : Unrevisited tr.visits) :
    Mirrors hash tr.visits
      (extractFsm N hash bounds executionId order tr.traces tr.packets authReport).1 := by
  obtain ⟨hbuilt, -⟩ :=
    extractFsm_built order authReport hnodes hedges
  have hperm := edges_perm order authReport hcollisions hnodes hedges
  set fsm := (extractFsm N hash bounds executionId order tr.traces tr.packets authReport).1
  have hinj : ∀ x ∈ tr.visits, ∀ y ∈ tr.visits, nodeIdOf hash x = nodeIdOf hash y → x = y :=
    fun x hx y hy => nodeIdOf_injOn hcollisions tr.methods hx hy
  rw [tr.sortBy_eq h] at hperm
  refine ⟨hperm, fun e he => ?_, ?_⟩
  · obtain ⟨p, hp, heq⟩ := List.mem_map.mp (hperm.mem_iff.mp (List.mem_map_of_mem he))
    obtain ⟨hp₁, hp₂, hne⟩ := mem_of_mem_steps (List.mem_dedup.mp hp)
    have hfrom : e.fromNode = nodeIdOf hash p.1 := (congrArg Prod.fst heq).symm
    have hto : e.toNode = nodeIdOf hash p.2 := (congrArg (fun t => t.2.1) heq).symm
    rw [hbuilt, hfrom, hto]
    exact ⟨visits_nodeIds hp₁, visits_nodeIds hp₂, fun hsame => hne (hinj _ hp₁ _ hp₂ hsame)⟩
  · have hendpoints : fsm.nodes.map (fun n => (n.method, n.endpointTemplate)) =
        (firstsBy nodeKey [] tr.traces).map endpointOf := by
      rw [hbuilt, buildNodes, List.map_map]
      rfl
    rw [hendpoints]
    refine ⟨nodup_firsts, ?_, fun x => mem_firsts_iff tr.methods⟩
    rw [hbuilt, buildNodes_nodeIds, ← Function.comp_def (nodeIdOf hash), ← List.map_map]
    exact nodup_firsts.map_on fun x hx y hy => hinj x (mem_firsts hx) y (mem_firsts hy)

/-- Without collisions and within the bounds, the state machine mirrors the traffic exactly if no
endpoint is left and come back to. -/
theorem mirrors_iff (hcollisions : NoCollisions hash executionId tr.visits)
    (hnodes : (buildNodes hash tr.traces).length ≤ bounds.maxFsmNodes)
    (hedges : (buildEdges N hash executionId (buildNodes hash tr.traces) tr.traces
      tr.packets).length ≤ bounds.maxFsmEdges) :
    Mirrors hash tr.visits
        (extractFsm N hash bounds executionId order tr.traces tr.packets authReport).1 ↔
      Unrevisited tr.visits :=
  ⟨unrevisited_of_mirrors hcollisions hnodes hedges,
    mirrors_of_unrevisited hcollisions hnodes hedges⟩

def packetAt (timestamp : Int) (method uri : String) : NormalizedTrafficPacket :=
  ⟨timestamp, method, uri, [], 200, [], ""⟩

/-- Three requests, the last one of the given endpoint. -/
def threeRequests (method uri : String) (h : method ∈ methods) : Traffic where
  packets := [packetAt 1 "GET" "/a", packetAt 2 "POST" "/b", packetAt 3 method uri]
  traces := [packetAt 1 "GET" "/a", packetAt 2 "POST" "/b", packetAt 3 method uri].map fun p =>
    ⟨p.endpointPathTemplate, p.method, []⟩
  times := by simp [packetAt]
  sameOrder := rfl
  methods := by
    simp only [List.map_cons, List.map_nil, List.forall_mem_cons]
    exact ⟨by decide, by decide, h, by simp⟩

def wide : ValidationBounds := ⟨64, 64, 16, 32⟩

theorem mirrors_forth :
    Mirrors id (threeRequests "GET" "/c" (by decide)).visits
        (extractFsm exact id wide "run" SetOrder.reversed
          (threeRequests "GET" "/c" (by decide)).traces
          (threeRequests "GET" "/c" (by decide)).packets ⟨"", [], [], [], [], 0, 0⟩).1 := by
  refine (mirrors_iff ⟨by decide, by decide⟩ (by decide) (by decide)).mpr fun x y _ hagain => ?_
  have hnodup : (threeRequests "GET" "/c" (by decide)).visits.Nodup := by decide
  have hthree := hnodup.sublist hagain
  simp at hthree

theorem not_mirrors_back :
    ¬ Mirrors id (threeRequests "GET" "/a" (by decide)).visits
      (extractFsm exact id wide "run" SetOrder.reversed
        (threeRequests "GET" "/a" (by decide)).traces
        (threeRequests "GET" "/a" (by decide)).packets ⟨"", [], [], [], [], 0, 0⟩).1 := by
  intro h
  have hunrevisited := unrevisited_of_mirrors ⟨by decide, by decide⟩ (by decide) (by decide) h
  exact hunrevisited ("GET", "/a") ("POST", "/b") (by decide) (by decide)

end Traffic

end PiPlatform.AgentChain.Transitions
