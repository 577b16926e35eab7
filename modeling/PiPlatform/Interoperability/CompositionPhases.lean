import PiPlatform.Library.Dict
import PiPlatform.Library.Layers

/-! The phases of a composition.

They are the layers of the `depends_on` edges, taken one after another until one is empty.
A node on a cycle, or behind one, comes in no layer (`phases_spec`). -/
namespace PiPlatform.Interoperability.Composition

open Library Relation

structure CompositionEdge where
  sourceNodeId : String
  targetNodeId : String
  edgeType : String
  required : Bool
  deriving DecidableEq

/-- The target depends on the source. -/
def DependsOn (edges : List CompositionEdge) (u v : String) : Prop :=
  ∃ edge ∈ edges, edge.edgeType = "depends_on" ∧ edge.sourceNodeId = u ∧ edge.targetNodeId = v

structure Graph where
  inDegree : Dict String Int
  adj : Dict String (List String)

def Graph.ofNodes (nodeIds : List String) : Graph where
  inDegree := .ofList (nodeIds.map fun id => (id, 0))
  adj := .ofList (nodeIds.map fun id => (id, []))

def Graph.addEdge (g : Graph) (edge : CompositionEdge) : Graph :=
  if edge.edgeType = "depends_on" ∧ g.inDegree.contains edge.sourceNodeId then
    { inDegree := g.inDegree.set edge.targetNodeId
        ((g.inDegree.get? edge.targetNodeId).getD 0 + 1)
      adj := g.adj.set edge.sourceNodeId
        ((g.adj.get? edge.sourceNodeId).getD [] ++ [edge.targetNodeId]) }
  else g

def composed (nodeIds : List String) (edges : List CompositionEdge) : Graph :=
  edges.foldl Graph.addEdge (.ofNodes nodeIds)

/-- A phase that is under way. -/
structure Phase where
  inDegree : Dict String Int
  visited : List String
  nextQueue : List String

/-- One edge less to the neighbor. -/
def Phase.release (p : Phase) (neighbor : String) : Phase :=
  let degree := (p.inDegree.get? neighbor).getD 0 - 1
  { p with
    inDegree := p.inDegree.set neighbor degree
    nextQueue :=
      if degree = 0 ∧ neighbor ∉ p.visited then p.nextQueue ++ [neighbor] else p.nextQueue }

def Phase.visit (adj : Dict String (List String)) (p : Phase) (nid : String) : Phase :=
  ((adj.get? nid).getD []).foldl Phase.release { p with visited := nid :: p.visited }

/-- The loop over the queues, `remaining` what is left of the depth; none beyond it. -/
def layers (adj : Dict String (List String)) :
    (remaining : Nat) → Dict String Int → List String → List String → Nat → Option Nat
  | _, _, _, [], phases => some phases
  | 0, _, _, _ :: _, _ => none
  | remaining + 1, inDegree, visited, nid :: queue, phases =>
    let p := (nid :: queue).foldl (Phase.visit adj) ⟨inDegree, visited, []⟩
    layers adj remaining p.inDegree p.visited p.nextQueue (phases + 1)

/-- Kahn's algorithm. -/
def Graph.phases (g : Graph) (maxDepth : Int) : Option Nat :=
  layers g.adj maxDepth.toNat g.inDegree []
    ((g.inDegree.items.filter fun p => p.2 = 0).map Prod.fst) 0

/-! ### Edges that are waited for -/

/-- The edges to the node from what was not visited. -/
def waits (edges : List CompositionEdge) (visited : List String) (v : String) : Nat :=
  edges.countP fun edge =>
    edge.edgeType = "depends_on" ∧ edge.targetNodeId = v ∧ edge.sourceNodeId ∉ visited

def targetsOf (edges : List CompositionEdge) (u : String) : List String :=
  (edges.filter fun edge => edge.edgeType = "depends_on" ∧ edge.sourceNodeId = u).map
    (·.targetNodeId)

section Edges
variable {edges : List CompositionEdge} {nodeIds visited : List String} {u v : String}

theorem mem_targetsOf : v ∈ targetsOf edges u ↔ DependsOn edges u v := by
  simp only [targetsOf, DependsOn, List.mem_map, List.mem_filter, decide_eq_true_eq, and_assoc]

theorem waits_eq_zero_iff :
    waits edges visited v = 0 ↔ ∀ u, DependsOn edges u v → u ∈ visited := by
  simp only [waits, List.countP_eq_zero, decide_eq_true_eq]
  constructor
  · rintro h u ⟨edge, hedge, htype, rfl, htarget⟩
    by_contra hu
    exact h edge hedge ⟨htype, htarget, hu⟩
  · rintro h edge hedge ⟨htype, htarget, hu⟩
    exact hu (h _ ⟨edge, hedge, htype, rfl, htarget⟩)

theorem waits_cons (edge : CompositionEdge) : waits (edge :: edges) visited v =
    waits edges visited v + if edge.edgeType = "depends_on" ∧ edge.targetNodeId = v ∧
      edge.sourceNodeId ∉ visited then 1 else 0 := by
  simp only [waits, List.countP_cons, decide_eq_true_eq]

theorem targetsOf_cons (edge : CompositionEdge) : targetsOf (edge :: edges) u =
    (if edge.edgeType = "depends_on" ∧ edge.sourceNodeId = u then [edge.targetNodeId] else []) ++
      targetsOf edges u := by
  simp only [targetsOf, List.filter_cons, decide_eq_true_eq]
  split <;> rfl

/-- A visit is waited for as often as there are edges. -/
theorem waits_visited (hu : u ∉ visited) (v : String) :
    waits edges visited v = waits edges (u :: visited) v + (targetsOf edges u).count v := by
  induction edges with
  | nil => rfl
  | cons edge edges ih =>
    rw [waits_cons, waits_cons, targetsOf_cons, List.count_append, ih]
    by_cases hsource : edge.sourceNodeId = u
    · subst hsource
      by_cases htype : edge.edgeType = "depends_on"
      · by_cases htarget : edge.targetNodeId = v
        · simp [htype, htarget, hu]
          omega
        · simp [htype, htarget]
      · simp [htype]
    · by_cases hvisited : edge.sourceNodeId ∈ visited
      · simp [hsource, hvisited]
      · simp [hsource, hvisited]
        omega

/-- Every edge ends in nodes. -/
def EdgesIn (nodeIds : List String) (edges : List CompositionEdge) : Prop :=
  ∀ edge ∈ edges, edge.sourceNodeId ∈ nodeIds ∧ edge.targetNodeId ∈ nodeIds

theorem DependsOn.mem (h : DependsOn edges u v) (hedges : EdgesIn nodeIds edges) :
    u ∈ nodeIds ∧ v ∈ nodeIds := by
  obtain ⟨edge, hedge, -, rfl, rfl⟩ := h
  exact hedges edge hedge

/-! ### The graph -/

/-- The tables that the nodes and edges come to. -/
structure Graph.Of (nodeIds : List String) (edges : List CompositionEdge) (g : Graph) : Prop where
  degree : ∀ v ∈ nodeIds, g.inDegree.get? v = some (waits edges [] v : Int)
  outside : ∀ v, v ∉ nodeIds → g.inDegree.get? v = none
  adj : ∀ u ∈ nodeIds, (g.adj.get? u).getD [] = targetsOf edges u

theorem graph_ofNodes (nodeIds : List String) : Graph.Of nodeIds [] (.ofNodes nodeIds) where
  degree v hv := (Dict.get?_ofList_map nodeIds (fun _ => 0) v).trans (if_pos hv)
  outside v hv := (Dict.get?_ofList_map nodeIds (fun _ => 0) v).trans (if_neg hv)
  adj u hu := by
    rw [Graph.ofNodes, Dict.get?_ofList_map, if_pos hu]
    rfl

theorem Graph.Of.addEdge {g : Graph} (h : g.Of nodeIds edges) {edge : CompositionEdge}
    (hsource : edge.sourceNodeId ∈ nodeIds) (htarget : edge.targetNodeId ∈ nodeIds) :
    (g.addEdge edge).Of nodeIds (edges ++ [edge]) := by
  have hwaits : ∀ v, waits (edges ++ [edge]) [] v = waits edges [] v +
      if edge.edgeType = "depends_on" ∧ edge.targetNodeId = v then 1 else 0 := by
    intro v
    simp [waits, List.countP_append, List.countP_singleton]
  have htargets : ∀ u, targetsOf (edges ++ [edge]) u = targetsOf edges u ++
      if edge.edgeType = "depends_on" ∧ edge.sourceNodeId = u then [edge.targetNodeId]
      else [] := by
    intro u
    rw [targetsOf, List.filter_append, List.map_append]
    congr 1
    exact (targetsOf_cons edge).trans (List.append_nil _)
  by_cases htype : edge.edgeType = "depends_on"
  · have hcontains : g.inDegree.contains edge.sourceNodeId = true := by
      rw [Dict.contains, h.degree _ hsource]
      rfl
    rw [Graph.addEdge, if_pos ⟨htype, hcontains⟩]
    refine ⟨fun v hv => ?_, fun v hv => ?_, fun u hu => ?_⟩
    · rw [Dict.get?_set, hwaits]
      by_cases heq : edge.targetNodeId = v
      · subst heq
        rw [if_pos rfl, if_pos ⟨htype, rfl⟩, h.degree _ hv]
        rfl
      · rw [if_neg heq, if_neg fun h => heq h.2]
        exact h.degree v hv
    · rw [Dict.get?_set, if_neg fun heq : edge.targetNodeId = v => hv (heq ▸ htarget)]
      exact h.outside v hv
    · rw [Dict.get?_set, htargets]
      by_cases heq : edge.sourceNodeId = u
      · subst heq
        rw [if_pos rfl, if_pos ⟨htype, rfl⟩, h.adj _ hu]
        rfl
      · rw [if_neg heq, if_neg fun h => heq h.2, List.append_nil]
        exact h.adj u hu
  · rw [Graph.addEdge, if_neg fun h => htype h.1]
    refine ⟨fun v hv => ?_, h.outside, fun u hu => ?_⟩
    · rw [hwaits, if_neg fun h => htype h.1]
      exact h.degree v hv
    · rw [htargets, if_neg fun h => htype h.1, List.append_nil]
      exact h.adj u hu

theorem composed_of (hedges : EdgesIn nodeIds edges) :
    (composed nodeIds edges).Of nodeIds edges := by
  induction edges using List.reverseRecOn with
  | nil => exact graph_ofNodes nodeIds
  | append_singleton edges edge ih =>
    rw [composed, List.foldl_append]
    obtain ⟨hsource, htarget⟩ := hedges edge (by simp)
    exact (ih fun e he => hedges e (List.mem_append_left _ he)).addEdge hsource htarget

end Edges

/-! ### Phases -/

/-- The queue holds what waits for nothing more, each node once; `D` counts what is waited for. -/
structure Ready (nodeIds : List String) (D : String → Nat) (visited : List String)
    (inDegree : Dict String Int) (queue : List String) : Prop where
  degree : ∀ v ∈ nodeIds, inDegree.get? v = some (D v : Int)
  mem : ∀ v, v ∈ queue ↔ v ∈ nodeIds ∧ v ∉ visited ∧ D v = 0
  nodup : queue.Nodup

section Phases
variable {edges : List CompositionEdge} {nodeIds : List String} {p : Phase} {rest : List String}
  {adj : Dict String (List String)}

/-- One edge less. -/
theorem Ready.release {D E : String → Nat} {t : String}
    (h : Ready nodeIds D p.visited p.inDegree (p.nextQueue ++ rest)) (ht : t ∈ nodeIds)
    (hD : ∀ v, D v = E v + if t = v then 1 else 0) :
    Ready nodeIds E (p.release t).visited (p.release t).inDegree ((p.release t).nextQueue ++ rest) ∧
      (p.release t).visited = p.visited := by
  have hone : D t = E t + 1 := by simpa using hD t
  have hdegree : (p.inDegree.get? t).getD 0 - 1 = E t := by
    rw [h.degree t ht, Option.getD_some, hone]
    omega
  have hother : ∀ v, t ≠ v → D v = E v := fun v hne => by simpa [hne] using hD v
  have hwaiting : t ∉ p.nextQueue ++ rest := fun hmem => by
    have hzero := ((h.mem t).mp hmem).2.2
    omega
  have hdegrees : ∀ v ∈ nodeIds, (p.release t).inDegree.get? v = some (E v : Int) := by
    intro v hv
    simp only [Phase.release, hdegree, Dict.get?_set]
    by_cases heq : t = v
    · rw [if_pos heq, heq]
    · rw [if_neg heq, h.degree v hv, hother v heq]
  refine ⟨?_, rfl⟩
  by_cases hready : E t = 0 ∧ t ∉ p.visited
  · have hqueue : ((p.release t).nextQueue ++ rest).Perm (t :: (p.nextQueue ++ rest)) := by
      simp only [Phase.release, hdegree, Int.natCast_eq_zero, if_pos hready]
      rw [List.append_assoc, List.singleton_append]
      exact List.perm_middle
    refine ⟨hdegrees, fun v => ?_, hqueue.nodup_iff.mpr (List.nodup_cons.mpr ⟨hwaiting, h.nodup⟩)⟩
    rw [hqueue.mem_iff, List.mem_cons]
    by_cases heq : v = t
    · subst heq
      exact ⟨fun _ => ⟨ht, hready.2, hready.1⟩, fun _ => .inl rfl⟩
    · rw [or_iff_right heq, h.mem v, hother v (Ne.symm heq)]
      rfl
  · have hqueue : (p.release t).nextQueue = p.nextQueue := by
      simp only [Phase.release, hdegree, Int.natCast_eq_zero, if_neg hready]
    refine ⟨hdegrees, fun v => ?_, hqueue ▸ h.nodup⟩
    rw [hqueue]
    by_cases heq : v = t
    · subst heq
      exact iff_of_false hwaiting fun hv => hready ⟨hv.2.2, hv.2.1⟩
    · rw [h.mem v, hother v (Ne.symm heq)]
      rfl

/-- One edge less for each that leads on. -/
theorem Ready.releases {D E : String → Nat} {ts : List String}
    (h : Ready nodeIds D p.visited p.inDegree (p.nextQueue ++ rest)) (hts : ∀ t ∈ ts, t ∈ nodeIds)
    (hD : ∀ v, D v = E v + ts.count v) :
    let p' := ts.foldl Phase.release p
    Ready nodeIds E p'.visited p'.inDegree (p'.nextQueue ++ rest) ∧ p'.visited = p.visited := by
  induction ts generalizing p D with
  | nil =>
    obtain rfl : D = E := funext fun v => by simpa using hD v
    exact ⟨h, rfl⟩
  | cons t ts ih =>
    obtain ⟨ht, hts⟩ := List.forall_mem_cons.mp hts
    obtain ⟨hnext, hvisited⟩ := h.release (E := fun v => E v + ts.count v) ht fun v => by
      rw [hD, List.count_cons]
      simp only [beq_iff_eq]
      omega
    obtain ⟨hlast, heq⟩ := ih hnext hts fun _ => rfl
    exact ⟨hlast, heq.trans hvisited⟩

/-- A node is visited, and what waited for it alone is queued. -/
theorem Ready.visit {nid : String}
    (h : Ready nodeIds (waits edges p.visited) p.visited p.inDegree (p.nextQueue ++ nid :: rest))
    (hedges : EdgesIn nodeIds edges)
    (hadj : ∀ u ∈ nodeIds, (adj.get? u).getD [] = targetsOf edges u) :
    let p' := p.visit adj nid
    Ready nodeIds (waits edges p'.visited) p'.visited p'.inDegree (p'.nextQueue ++ rest) ∧
      p'.visited = nid :: p.visited := by
  obtain ⟨hnode, hnew, -⟩ := (h.mem nid).mp (by simp)
  have hperm : (p.nextQueue ++ nid :: rest).Perm (nid :: (p.nextQueue ++ rest)) := List.perm_middle
  obtain ⟨hout, hnodup⟩ := List.nodup_cons.mp (hperm.nodup_iff.mp h.nodup)
  have hentered : Ready nodeIds (waits edges p.visited) (nid :: p.visited) p.inDegree
      (p.nextQueue ++ rest) := by
    refine ⟨h.degree, fun v => ?_, hnodup⟩
    have hmem := h.mem v
    rw [hperm.mem_iff, List.mem_cons] at hmem
    rw [List.mem_cons, not_or]
    constructor
    · intro hv
      obtain ⟨hin, hunseen, hzero⟩ := hmem.mp (.inr hv)
      exact ⟨hin, ⟨fun heq => hout (heq ▸ hv), hunseen⟩, hzero⟩
    · rintro ⟨hin, ⟨hne, hunseen⟩, hzero⟩
      exact (hmem.mpr ⟨hin, hunseen, hzero⟩).resolve_left hne
  have htargets : ∀ t ∈ (adj.get? nid).getD [], t ∈ nodeIds := by
    intro t ht
    rw [hadj nid hnode] at ht
    exact ((mem_targetsOf.mp ht).mem hedges).2
  obtain ⟨hready, hvisited⟩ := Ready.releases (p := { p with visited := nid :: p.visited })
    hentered htargets (hadj nid hnode ▸ waits_visited hnew)
  simp only [Phase.visit]
  rw [hvisited] at hready ⊢
  exact ⟨hready, rfl⟩

/-- A whole queue is visited. -/
theorem Ready.visits {queue : List String}
    (h : Ready nodeIds (waits edges p.visited) p.visited p.inDegree (p.nextQueue ++ queue))
    (hedges : EdgesIn nodeIds edges)
    (hadj : ∀ u ∈ nodeIds, (adj.get? u).getD [] = targetsOf edges u) :
    let p' := queue.foldl (Phase.visit adj) p
    Ready nodeIds (waits edges p'.visited) p'.visited p'.inDegree p'.nextQueue ∧
      ∀ v, v ∈ p'.visited ↔ v ∈ queue ∨ v ∈ p.visited := by
  induction queue generalizing p with
  | nil => exact ⟨by simpa using h, by simp⟩
  | cons nid queue ih =>
    obtain ⟨hready, hvisited⟩ := h.visit hedges hadj
    obtain ⟨hlast, hall⟩ := ih hready
    refine ⟨hlast, fun v => ?_⟩
    rw [List.foldl_cons, hall v, hvisited, List.mem_cons, List.mem_cons]
    exact or_left_comm.trans or_assoc.symm

/-! ### Layers -/

/-- After so many phases the layers so far are visited. -/
def Layered (nodeIds : List String) (edges : List CompositionEdge) (visited : List String)
    (phases : Nat) : Prop :=
  ∀ v, v ∈ visited ↔ v ∈ nodeIds ∧ Within (DependsOn edges) phases v

/-- The queue is the next layer. -/
theorem Ready.mem_layer {visited : List String} {inDegree : Dict String Int} {queue : List String}
    {phases : Nat} (h : Ready nodeIds (waits edges visited) visited inDegree queue)
    (hlayered : Layered nodeIds edges visited phases) (hedges : EdgesIn nodeIds edges)
    (v : String) :
    v ∈ queue ↔ v ∈ nodeIds ∧ Within (DependsOn edges) (phases + 1) v ∧
      ¬ Within (DependsOn edges) phases v := by
  have hzero : waits edges visited v = 0 ↔ Within (DependsOn edges) (phases + 1) v := by
    rw [waits_eq_zero_iff, within_succ]
    refine forall₂_congr fun u huv => ?_
    rw [hlayered u, and_iff_right (huv.mem hedges).1]
  rw [h.mem v, hzero]
  constructor
  · rintro ⟨hv, hunseen, hwithin⟩
    exact ⟨hv, hwithin, fun hlow => hunseen ((hlayered v).mpr ⟨hv, hlow⟩)⟩
  · rintro ⟨hv, hwithin, hlow⟩
    exact ⟨hv, fun hseen => hlow ((hlayered v).mp hseen).2, hwithin⟩

/-- The loop ends at the first empty layer, unless it is too deep. -/
def Ends (nodeIds : List String) (edges : List CompositionEdge) (phases remaining : Nat) :
    Option Nat → Prop
  | some last => phases ≤ last ∧ last ≤ phases + remaining ∧
      (∀ v ∈ nodeIds, Within (DependsOn edges) (last + 1) v → Within (DependsOn edges) last v) ∧
      (phases < last → ∃ v ∈ nodeIds, Within (DependsOn edges) last v ∧
        ¬ Within (DependsOn edges) (last - 1) v)
  | none => ∃ v ∈ nodeIds, Within (DependsOn edges) (phases + remaining + 1) v ∧
      ¬ Within (DependsOn edges) (phases + remaining) v

theorem ends_of_nil {phases : Nat} (hlayer : ∀ v, v ∈ ([] : List String) ↔ v ∈ nodeIds ∧
    Within (DependsOn edges) (phases + 1) v ∧ ¬ Within (DependsOn edges) phases v)
    (remaining : Nat) : Ends nodeIds edges phases remaining (some phases) := by
  refine ⟨Nat.le_refl _, Nat.le_add_right _ _, fun v hv hwithin => ?_,
    fun h => absurd h (lt_irrefl _)⟩
  by_contra hlow
  exact List.not_mem_nil ((hlayer v).mpr ⟨hv, hwithin, hlow⟩)

theorem layers_ends (hedges : EdgesIn nodeIds edges)
    (hadj : ∀ u ∈ nodeIds, (adj.get? u).getD [] = targetsOf edges u) (remaining : Nat)
    {inDegree : Dict String Int} {visited queue : List String} {phases : Nat}
    (hready : Ready nodeIds (waits edges visited) visited inDegree queue)
    (hlayered : Layered nodeIds edges visited phases) :
    Ends nodeIds edges phases remaining (layers adj remaining inDegree visited queue phases) := by
  have hlayer := hready.mem_layer hlayered hedges
  induction remaining generalizing inDegree visited queue phases with
  | zero =>
    cases queue with
    | nil => exact ends_of_nil hlayer 0
    | cons nid queue => exact ⟨nid, (hlayer nid).mp (List.mem_cons_self ..)⟩
  | succ remaining ih =>
    cases queue with
    | nil => exact ends_of_nil hlayer (remaining + 1)
    | cons nid queue =>
      obtain ⟨hnext, hvisited⟩ := Ready.visits (p := ⟨inDegree, visited, []⟩) hready hedges hadj
      have hlayered' : Layered nodeIds edges
          ((nid :: queue).foldl (Phase.visit adj) ⟨inDegree, visited, []⟩).visited
          (phases + 1) := by
        intro v
        rw [hvisited v, hlayer v, hlayered v]
        constructor
        · rintro (⟨hv, hwithin, -⟩ | ⟨hv, hwithin⟩)
          · exact ⟨hv, hwithin⟩
          · exact ⟨hv, hwithin.mono (Nat.le_succ _)⟩
        · rintro ⟨hv, hwithin⟩
          by_cases hlow : Within (DependsOn edges) phases v
          · exact .inr ⟨hv, hlow⟩
          · exact .inl ⟨hv, hwithin, hlow⟩
      have hends := ih hnext hlayered' (hnext.mem_layer hlayered' hedges)
      rw [layers]
      cases hresult : layers adj remaining _ _ _ (phases + 1) with
      | none =>
        rw [hresult] at hends
        rwa [Ends, show phases + (remaining + 1) = phases + 1 + remaining by omega]
      | some last =>
        rw [hresult] at hends
        obtain ⟨hle, hupper, hsaturated, hreached⟩ := hends
        refine ⟨by omega, by omega, hsaturated, fun _ => ?_⟩
        rcases Nat.eq_or_lt_of_le hle with rfl | hlt
        · exact ⟨nid, (hlayer nid).mp (List.mem_cons_self ..)⟩
        · exact hreached hlt

end Phases

/-- What Kahn's algorithm ends with. -/
theorem phases_ends {nodeIds : List String} {edges : List CompositionEdge}
    (hedges : EdgesIn nodeIds edges) (maxDepth : Int) :
    Ends nodeIds edges 0 maxDepth.toNat ((composed nodeIds edges).phases maxDepth) := by
  have hgraph := composed_of hedges
  refine layers_ends hedges hgraph.adj _ ⟨hgraph.degree, fun v => ?_, ?_⟩ fun v => ?_
  · simp only [List.mem_map, List.mem_filter, decide_eq_true_eq]
    constructor
    · rintro ⟨⟨id, degree⟩, ⟨hmem, rfl⟩, rfl⟩
      have hget := (Dict.mem_items _).mp hmem
      have hid : id ∈ nodeIds := by
        by_contra hout
        rw [hgraph.outside id hout] at hget
        cases hget
      rw [hgraph.degree id hid, Option.some.injEq, Int.natCast_eq_zero] at hget
      exact ⟨hid, List.not_mem_nil, hget⟩
    · rintro ⟨hv, -, hzero⟩
      have hget := hgraph.degree v hv
      rw [hzero] at hget
      exact ⟨(v, 0), ⟨(Dict.mem_items _).mpr hget, rfl⟩, rfl⟩
  · exact (composed nodeIds edges).inDegree.nodup.sublist (List.filter_sublist.map _)
  · exact iff_of_false List.not_mem_nil fun h => not_within_zero v h.2

end PiPlatform.Interoperability.Composition
