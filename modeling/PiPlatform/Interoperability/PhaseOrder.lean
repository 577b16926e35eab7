import PiPlatform.Interoperability.CompatibilityGraph

/-! The phases in which installed extensions would run.

`topological_phase_order` counts the `DEPENDS_ON` edges into each node and takes the nodes
without one, turn after turn. An edge leads from the dependent to its dependency, so what comes
first is the dependent (`Peeled.earlier`); an edge from what is not installed is never taken
away, and what has no edges at all is no node. The phases are in order exactly if there is
nothing to order (`ordered_iff`): every installed extension has edges, and none is depended on. -/
namespace PiPlatform.Interoperability.Compatibility

open Library

/-! ### The counts -/

/-- `in_degree.setdefault(src, 0)` -/
def enter (inDegree : Dict String Int) (src : String) : Dict String Int :=
  if inDegree.contains src then inDegree else inDegree.set src 0

def degree (inDegree : Dict String Int) (k : String) : Int := (inDegree.get? k).getD 0

def countEdge (inDegree : Dict String Int) (e : CompatibilityEdge) : Dict String Int :=
  if e.edgeType = .dependsOn then inDegree.set e.targetId (degree inDegree e.targetId + 1)
  else inDegree

/-- `in_degree[dep] -= 1` -/
def release (inDegree : Dict String Int) (dep : String) : Dict String Int :=
  if inDegree.contains dep then inDegree.set dep (degree inDegree dep - 1) else inDegree

/-! ### The turns -/

structure Peeling where
  phases : List (List String)
  remaining : List String
  inDegree : Dict String Int

namespace Peeling
variable (adjacency : Dict String (List String))

def phase (p : Peeling) : List String := p.remaining.filter fun k => degree p.inDegree k = 0

def turn (p : Peeling) : Peeling where
  phases := p.phases ++ [p.phase]
  remaining := p.remaining.filter (· ∉ p.phase)
  inDegree := p.phase.foldl (fun d k => ((adjacency.get? k).getD []).foldl release d) p.inDegree

/-- The loop, for at most so many turns. -/
def run : Nat → Peeling → Peeling
  | 0, p => p
  | turns + 1, p => if p.phase = [] then p else run turns (p.turn adjacency)

end Peeling

namespace ExtensionCompatibilityGraph
variable (g : ExtensionCompatibilityGraph)

def inDegree : Dict String Int :=
  g.edges.items.foldl (fun d p => p.2.foldl countEdge (enter d p.1)) .empty

def adjacency : Dict String (List String) :=
  g.edges.mapValues fun edges =>
    (edges.filter fun e => e.edgeType = .dependsOn).map (·.targetId)

def toPeel : Peeling where
  phases := []
  remaining := (g.inDegree.items.map Prod.fst).filter (· ∈ g.installed)
  inDegree := g.inDegree

/-- Each turn that is not the last takes one of those that remain. -/
def topologicalPhaseOrder : List (List String) :=
  (g.toPeel.run g.adjacency g.toPeel.remaining.length).phases

end ExtensionCompatibilityGraph

/-! ### The system -/

inductive GraphCall where
  | declareEdge (edge : CompatibilityEdge)
  | registerInstalled (extensionId : String)
  | deregister (extensionId : String)

def graphs (lower : Lower) : System ExtensionCompatibilityGraph GraphCall where
  initial := ⟨.empty, .empty, []⟩
  step g
    | .declareEdge edge => g.declareEdge lower edge
    | .registerInstalled extensionId => g.registerInstalled extensionId
    | .deregister extensionId => g.deregister extensionId

/-- The one needs the other. -/
def DependsOn (g : ExtensionCompatibilityGraph) (dependent dependency : String) : Prop :=
  ∃ e ∈ g.edgesOf dependent, e.edgeType = .dependsOn ∧ e.targetId = dependency

/-- The node is in the `i`-th phase. -/
def InPhase (phases : List (List String)) (i : Nat) (x : String) : Prop :=
  ∃ phase, phases[i]? = some phase ∧ x ∈ phase

/-- Each installed extension is in one phase, behind all that it depends on. -/
structure Ordered (g : ExtensionCompatibilityGraph) : Prop where
  disjoint : g.topologicalPhaseOrder.Pairwise List.Disjoint
  union : ∀ x, (∃ i, InPhase g.topologicalPhaseOrder i x) ↔ x ∈ g.installed
  earlier : ∀ x ∈ g.installed, ∀ y ∈ g.installed, DependsOn g x y →
    ∃ i j, i < j ∧ InPhase g.topologicalPhaseOrder i y ∧ InPhase g.topologicalPhaseOrder j x

/-- There are no cycles among what is installed. -/
def Acyclic (g : ExtensionCompatibilityGraph) : Prop :=
  ∀ x, ¬ Relation.TransGen
    (fun x y => x ∈ g.installed ∧ y ∈ g.installed ∧ DependsOn g x y) x x

/-- Each installed extension has edges, and nothing depends on it. -/
def Unneeded (g : ExtensionCompatibilityGraph) : Prop :=
  ∀ x ∈ g.installed, (∃ edges, g.edges.get? x = some edges) ∧ ∀ y, ¬ DependsOn g y x

/-! ### Edges that are counted -/

section Counts
variable {pairs : List (String × String)} {visited : List String} {u v : String}
  {d : Dict String Int}

/-- The edges into `v` from what was not taken. -/
def waits (pairs : List (String × String)) (visited : List String) (v : String) : Nat :=
  pairs.countP fun p => p.2 = v ∧ p.1 ∉ visited

def targetsOf (pairs : List (String × String)) (u : String) : List String :=
  (pairs.filter fun p => p.1 = u).map Prod.snd

theorem waits_eq_zero_iff : waits pairs visited v = 0 ↔ ∀ u, (u, v) ∈ pairs → u ∈ visited := by
  simp only [waits, List.countP_eq_zero, decide_eq_true_eq, Prod.forall]
  constructor
  · intro h u hpair
    by_contra hu
    exact h u v hpair ⟨rfl, hu⟩
  · rintro h u _ hpair ⟨rfl, hu⟩
    exact hu (h u hpair)

/-- A node is waited for as often as it has edges. -/
theorem waits_visited (hu : u ∉ visited) (v : String) :
    waits pairs visited v = waits pairs (u :: visited) v + (targetsOf pairs u).count v := by
  induction pairs with
  | nil => rfl
  | cons p pairs ih =>
    obtain ⟨source, target⟩ := p
    simp only [waits, targetsOf, List.countP_cons, List.filter_cons, decide_eq_true_eq] at ih ⊢
    rw [ih]
    by_cases hsource : source = u
    · subst hsource
      by_cases htarget : target = v
      · simp [htarget, hu]
        omega
      · simp [htarget]
    · by_cases hvisited : source ∈ visited
      · simp [hsource, hvisited]
      · simp [hsource, hvisited]
        omega

theorem degree_set (d : Dict String Int) (k v : String) (n : Int) :
    degree (d.set k n) v = if k = v then n else degree d v := by
  rw [degree, Dict.get?_set]
  split_ifs <;> rfl

theorem degree_of_not_contains (h : ¬ d.contains v = true) :
    degree d v = 0 := by
  rw [degree, Option.not_isSome_iff_eq_none.mp h]
  rfl

theorem degree_enter (d : Dict String Int) (src v : String) :
    degree (enter d src) v = degree d v := by
  rw [enter]
  split_ifs with h
  · rfl
  · rw [degree_set]
    split_ifs with heq
    · rw [← heq, degree_of_not_contains h]
    · rfl

theorem degree_countEdge (d : Dict String Int) (e : CompatibilityEdge) (v : String) :
    degree (countEdge d e) v =
      degree d v + if e.edgeType = .dependsOn ∧ e.targetId = v then 1 else 0 := by
  rw [countEdge]
  by_cases htype : e.edgeType = .dependsOn
  · rw [if_pos htype, degree_set]
    by_cases htarget : e.targetId = v
    · simp [htype, htarget]
    · simp [htarget]
  · simp [htype]

theorem contains_enter {src : String} :
    (enter d src).contains v = true ↔ d.contains v = true ∨ src = v := by
  rw [enter]
  split_ifs with h
  · exact ⟨.inl, fun hv => hv.elim id fun heq => heq ▸ h⟩
  · exact Dict.contains_set

theorem contains_countEdge {e : CompatibilityEdge} :
    (countEdge d e).contains v = true ↔
      d.contains v = true ∨ e.edgeType = .dependsOn ∧ e.targetId = v := by
  rw [countEdge]
  split_ifs with h
  · rw [Dict.contains_set, and_iff_right h]
  · simp [h]

theorem contains_release {dep : String} :
    (release d dep).contains v = true ↔ d.contains v = true := by
  rw [release]
  split_ifs with h
  · rw [Dict.contains_set]
    exact ⟨fun hv => hv.elim id fun heq => heq ▸ h, .inl⟩
  · rfl

theorem contains_foldl_release {deps : List String} :
    (deps.foldl release d).contains v = true ↔ d.contains v = true := by
  induction deps generalizing d with
  | nil => rfl
  | cons dep deps ih => exact ih.trans contains_release

theorem degree_foldl_release {deps : List String}
    (h : ∀ dep ∈ deps, d.contains dep = true) (v : String) :
    degree (deps.foldl release d) v = degree d v - deps.count v := by
  induction deps generalizing d with
  | nil => simp
  | cons dep deps ih =>
    obtain ⟨hdep, hdeps⟩ := List.forall_mem_cons.mp h
    rw [List.foldl_cons, ih fun x hx => contains_release.mpr (hdeps x hx), release, if_pos hdep,
      degree_set, List.count_cons]
    by_cases heq : dep = v
    · subst heq
      simp
      omega
    · simp [heq]

end Counts

/-! ### The table of counts -/

/-- The edges of a source that are counted. -/
def pairsOf (p : String × List CompatibilityEdge) : List (String × String) :=
  ((p.2.filter fun e => e.edgeType = .dependsOn).map (·.targetId)).map fun target => (p.1, target)

def ExtensionCompatibilityGraph.pairs (g : ExtensionCompatibilityGraph) :
    List (String × String) :=
  g.edges.items.flatMap pairsOf

section Table
variable {g : ExtensionCompatibilityGraph} {x y : String}

theorem mem_pairsOf {p : String × List CompatibilityEdge} :
    (x, y) ∈ pairsOf p ↔ p.1 = x ∧ ∃ e ∈ p.2, e.edgeType = .dependsOn ∧ e.targetId = y := by
  simp only [pairsOf, List.mem_map, List.mem_filter, decide_eq_true_eq, Prod.mk.injEq]
  constructor
  · rintro ⟨target, ⟨e, ⟨he, htype⟩, rfl⟩, hsource, rfl⟩
    exact ⟨hsource, e, he, htype, rfl⟩
  · rintro ⟨hsource, e, he, htype, rfl⟩
    exact ⟨_, ⟨e, ⟨he, htype⟩, rfl⟩, hsource, rfl⟩

theorem mem_pairs : (x, y) ∈ g.pairs ↔ DependsOn g x y := by
  rw [ExtensionCompatibilityGraph.pairs, List.mem_flatMap, DependsOn,
    ExtensionCompatibilityGraph.edgesOf]
  constructor
  · rintro ⟨⟨source, edges⟩, hitem, hpair⟩
    obtain ⟨rfl, hedge⟩ := mem_pairsOf.mp hpair
    rwa [g.edges.mem_items.mp hitem]
  · intro hedge
    cases hget : g.edges.get? x with
    | none =>
      rw [hget] at hedge
      simp at hedge
    | some edges =>
      rw [hget] at hedge
      exact ⟨(x, edges), g.edges.mem_items.mpr hget, mem_pairsOf.mpr ⟨rfl, hedge⟩⟩

theorem targetsOf_append (pairs more : List (String × String)) (u : String) :
    targetsOf (pairs ++ more) u = targetsOf pairs u ++ targetsOf more u := by
  rw [targetsOf, List.filter_append, List.map_append]
  rfl

theorem targetsOf_pairsOf (p : String × List CompatibilityEdge) (u : String) :
    targetsOf (pairsOf p) u = if p.1 = u then
      (p.2.filter fun e => e.edgeType = .dependsOn).map (·.targetId) else [] := by
  rw [targetsOf, pairsOf, List.filter_map]
  split_ifs with h
  · simp [Function.comp_def, h]
  · simp [Function.comp_def, h]

theorem targetsOf_flatMap {items : List (String × List CompatibilityEdge)}
    (h : (items.map Prod.fst).Nodup) (u : String) :
    targetsOf (items.flatMap pairsOf) u = (lookupItem u (items.map fun p =>
      (p.1, (p.2.filter fun e => e.edgeType = .dependsOn).map (·.targetId)))).getD [] := by
  induction items with
  | nil => rfl
  | cons p items ih =>
    obtain ⟨hp, hitems⟩ := List.nodup_cons.mp h
    rw [List.flatMap_cons, targetsOf_append, targetsOf_pairsOf, ih hitems, List.map_cons,
      lookupItem]
    split_ifs with hu
    · subst hu
      rw [lookupItem_of_not_mem]
      · simp
      · simpa [Function.comp_def] using hp
    · rfl

theorem targetsOf_pairs (g : ExtensionCompatibilityGraph) (u : String) :
    targetsOf g.pairs u = (g.adjacency.get? u).getD [] :=
  targetsOf_flatMap g.edges.nodup u

theorem degree_foldl_countEdge (edges : List CompatibilityEdge) (d : Dict String Int)
    (v : String) : degree (edges.foldl countEdge d) v =
      degree d v + edges.countP fun e => e.edgeType = .dependsOn ∧ e.targetId = v := by
  induction edges generalizing d with
  | nil => simp
  | cons e edges ih =>
    rw [List.foldl_cons, ih, degree_countEdge, List.countP_cons]
    by_cases h : e.edgeType = .dependsOn ∧ e.targetId = v
    · simp [h]
      omega
    · simp [h]

theorem waits_pairsOf (p : String × List CompatibilityEdge) (v : String) :
    waits (pairsOf p) [] v = p.2.countP fun e => e.edgeType = .dependsOn ∧ e.targetId = v := by
  rw [waits, pairsOf, List.countP_map, List.countP_map, List.countP_filter]
  refine List.countP_congr fun e _ => ?_
  simp [and_comm]

theorem degree_inDegree (g : ExtensionCompatibilityGraph) (v : String) :
    degree g.inDegree v = waits g.pairs [] v := by
  have hitems : ∀ (items : List (String × List CompatibilityEdge)) (d : Dict String Int),
      degree (items.foldl (fun d p => p.2.foldl countEdge (enter d p.1)) d) v =
        degree d v + waits (items.flatMap pairsOf) [] v := by
    intro items
    induction items with
    | nil => simp [waits]
    | cons p items ih =>
      intro d
      have happend : waits (pairsOf p ++ items.flatMap pairsOf) [] v =
          waits (pairsOf p) [] v + waits (items.flatMap pairsOf) [] v := List.countP_append
      rw [List.foldl_cons, ih, degree_foldl_countEdge, degree_enter, List.flatMap_cons, happend,
        waits_pairsOf]
      omega
  have hnone : degree .empty v = 0 := rfl
  rw [ExtensionCompatibilityGraph.inDegree, hitems, hnone, Int.zero_add]
  rfl

theorem contains_foldl_countEdge {edges : List CompatibilityEdge} {d : Dict String Int} :
    (edges.foldl countEdge d).contains y = true ↔
      d.contains y = true ∨ ∃ e ∈ edges, e.edgeType = .dependsOn ∧ e.targetId = y := by
  induction edges generalizing d with
  | nil => simp
  | cons e edges ih =>
    rw [List.foldl_cons, ih, contains_countEdge, List.exists_mem_cons_iff, or_assoc]

/-- The nodes: what has edges, and what is depended on. -/
theorem contains_inDegree : g.inDegree.contains y = true ↔
    (∃ edges, g.edges.get? y = some edges) ∨ ∃ x, DependsOn g x y := by
  have hitems : ∀ (items : List (String × List CompatibilityEdge)) (d : Dict String Int),
      (items.foldl (fun d p => p.2.foldl countEdge (enter d p.1)) d).contains y = true ↔
        d.contains y = true ∨ ∃ p ∈ items, p.1 = y ∨ ∃ x, (x, y) ∈ pairsOf p := by
    intro items
    induction items with
    | nil => simp
    | cons p items ih =>
      intro d
      have hp : (∃ x, (x, y) ∈ pairsOf p) ↔
          ∃ e ∈ p.2, e.edgeType = .dependsOn ∧ e.targetId = y := by
        simp only [mem_pairsOf, exists_eq_left']
      rw [List.foldl_cons, ih, contains_foldl_countEdge, contains_enter,
        List.exists_mem_cons_iff, hp, or_assoc, or_assoc, or_assoc]
  rw [ExtensionCompatibilityGraph.inDegree, hitems]
  constructor
  · rintro (h | ⟨p, hp, rfl | ⟨x, hpair⟩⟩)
    · cases h
    · exact .inl ⟨p.2, g.edges.mem_items.mp hp⟩
    · exact .inr ⟨x, mem_pairs.mp (List.mem_flatMap.mpr ⟨p, hp, hpair⟩)⟩
  · rintro (⟨edges, hget⟩ | ⟨x, hx⟩)
    · exact .inr ⟨(y, edges), g.edges.mem_items.mpr hget, .inl rfl⟩
    · obtain ⟨p, hp, hpair⟩ := List.mem_flatMap.mp (mem_pairs.mpr hx)
      exact .inr ⟨p, hp, .inr ⟨x, hpair⟩⟩

end Table

/-! ### Phases -/

section Phases
variable {phases : List (List String)} {phase : List String} {i j : Nat} {x : String}

theorem InPhase.lt (h : InPhase phases i x) : i < phases.length :=
  (List.getElem?_eq_some_iff.mp h.choose_spec.1).1

theorem inPhase_snoc :
    InPhase (phases ++ [phase]) i x ↔ InPhase phases i x ∨ i = phases.length ∧ x ∈ phase := by
  rcases lt_trichotomy i phases.length with hi | rfl | hi
  · rw [InPhase, List.getElem?_append_left hi]
    exact ⟨.inl, fun h => h.elim id fun ⟨heq, _⟩ => absurd hi heq.not_lt⟩
  · rw [InPhase, List.getElem?_concat_length]
    constructor
    · rintro ⟨_, heq, hx⟩
      obtain rfl := Option.some.inj heq
      exact .inr ⟨rfl, hx⟩
    · rintro (h | ⟨-, hx⟩)
      · exact absurd h.lt (lt_irrefl _)
      · exact ⟨phase, rfl, hx⟩
  · constructor
    · intro h
      have hlt := h.lt
      rw [List.length_append, List.length_singleton] at hlt
      omega
    · rintro (h | ⟨heq, -⟩)
      · exact absurd h.lt hi.not_gt
      · exact absurd heq hi.ne'

theorem exists_inPhase : (∃ i, InPhase phases i x) ↔ x ∈ phases.flatten := by
  rw [List.mem_flatten]
  constructor
  · rintro ⟨i, phase, hphase, hx⟩
    exact ⟨phase, List.mem_of_getElem? hphase, hx⟩
  · rintro ⟨phase, hphase, hx⟩
    obtain ⟨i, hi⟩ := List.getElem?_of_mem hphase
    exact ⟨i, phase, hi, hx⟩

theorem InPhase.unique (hphases : phases.Pairwise List.Disjoint) (hi : InPhase phases i x)
    (hj : InPhase phases j x) : i = j := by
  obtain ⟨p, hp, hxp⟩ := hi
  obtain ⟨q, hq, hxq⟩ := hj
  obtain ⟨hilt, rfl⟩ := List.getElem?_eq_some_iff.mp hp
  obtain ⟨hjlt, rfl⟩ := List.getElem?_eq_some_iff.mp hq
  rw [List.pairwise_iff_getElem] at hphases
  rcases lt_trichotomy i j with hlt | heq | hgt
  · exact absurd hxq (hphases i j hilt hjlt hlt hxp)
  · exact heq
  · exact absurd hxp (hphases j i hjlt hilt hgt hxq)

end Phases

/-! ### What the turns keep -/

/-- What has been taken and what remains are the nodes there were, the counts are of what has not
been taken, and what depends on a node was taken before it. -/
structure Peeled (g : ExtensionCompatibilityGraph) (p : Peeling) : Prop where
  perm : (p.phases.flatten ++ p.remaining).Perm g.toPeel.remaining
  counts : ∀ v, degree p.inDegree v = waits g.pairs p.phases.flatten v
  nodes : ∀ x y, DependsOn g x y → p.inDegree.contains y = true
  earlier : ∀ i x y, InPhase p.phases i y → DependsOn g x y → ∃ j < i, InPhase p.phases j x

section Turns
variable {g : ExtensionCompatibilityGraph} {p : Peeling} {x y : String}

theorem toPeel_nodup (g : ExtensionCompatibilityGraph) : g.toPeel.remaining.Nodup :=
  g.inDegree.nodup.filter _

theorem mem_toPeel : x ∈ g.toPeel.remaining ↔
    ((∃ edges, g.edges.get? x = some edges) ∨ ∃ y, DependsOn g y x) ∧ x ∈ g.installed := by
  rw [← contains_inDegree, Dict.contains, Option.isSome_iff_exists]
  simp [ExtensionCompatibilityGraph.toPeel, ← Dict.mem_items]

theorem peeled_toPeel (g : ExtensionCompatibilityGraph) : Peeled g g.toPeel where
  perm := .refl _
  counts := degree_inDegree g
  nodes x _ h := contains_inDegree.mpr (.inr ⟨x, h⟩)
  earlier _ _ _ h _ := absurd h.lt (Nat.not_lt_zero _)

theorem waits_congr {pairs : List (String × String)} {visited visited' : List String}
    (h : ∀ x, x ∈ visited ↔ x ∈ visited') (v : String) :
    waits pairs visited v = waits pairs visited' v :=
  List.countP_congr fun p _ => by simp only [h]

/-- Taking nodes that were not taken keeps the counts right. -/
theorem degree_taken {ks : List String} (visited : List String) {d : Dict String Int}
    (hks : ks.Nodup) (hnew : ∀ k ∈ ks, k ∉ visited)
    (hnodes : ∀ x y, DependsOn g x y → d.contains y = true)
    (hd : ∀ v, degree d v = waits g.pairs visited v) (v : String) :
    degree (ks.foldl (fun d k => ((g.adjacency.get? k).getD []).foldl release d) d) v =
      waits g.pairs (ks ++ visited) v := by
  induction ks generalizing visited d with
  | nil => exact hd v
  | cons k ks ih =>
    obtain ⟨hk, hks⟩ := List.nodup_cons.mp hks
    obtain ⟨hknew, hksnew⟩ := List.forall_mem_cons.mp hnew
    have htargets : ∀ dep ∈ targetsOf g.pairs k, d.contains dep = true := by
      intro dep hdep
      obtain ⟨⟨source, target⟩, hpair, rfl⟩ := List.mem_map.mp hdep
      exact hnodes source target (mem_pairs.mp (List.mem_of_mem_filter hpair))
    rw [List.foldl_cons, ← targetsOf_pairs, ih (k :: visited) hks]
    · have hsame : ∀ x, x ∈ ks ++ k :: visited ↔ x ∈ k :: ks ++ visited := by
        simp [or_left_comm]
      rw [waits_congr hsame]
    · intro x hx
      rw [List.mem_cons, not_or]
      exact ⟨fun heq => hk (heq ▸ hx), hksnew x hx⟩
    · exact fun x y h => contains_foldl_release.mpr (hnodes x y h)
    · intro v
      rw [degree_foldl_release htargets, hd, waits_visited hknew]
      omega

theorem contains_taken {ks : List String} {d : Dict String Int} {v : String} :
    (ks.foldl (fun d k => ((g.adjacency.get? k).getD []).foldl release d) d).contains v = true ↔
      d.contains v = true := by
  induction ks generalizing d with
  | nil => rfl
  | cons k ks ih => exact ih.trans contains_foldl_release

theorem Peeled.nodup (h : Peeled g p) : (p.phases.flatten ++ p.remaining).Nodup :=
  h.perm.nodup_iff.mpr (toPeel_nodup g)

theorem Peeled.turn (h : Peeled g p) : Peeled g (p.turn g.adjacency) where
  perm := by
    have hsplit : (p.phase ++ p.remaining.filter (· ∉ p.phase)).Perm p.remaining := by
      have hrest : p.remaining.filter (· ∉ p.phase) =
          p.remaining.filter fun k => !decide (degree p.inDegree k = 0) := by
        refine List.filter_congr fun k hk => ?_
        simp [Peeling.phase, hk]
      rw [hrest]
      exact List.filter_append_perm _ _
    refine List.Perm.trans ?_ h.perm
    simpa [Peeling.turn] using hsplit.append_left p.phases.flatten
  counts v := by
    obtain ⟨-, hremaining, hdisjoint⟩ := List.nodup_append'.mp h.nodup
    have hnew : ∀ k ∈ p.phase, k ∉ p.phases.flatten := fun k hk htaken =>
      hdisjoint htaken (List.mem_of_mem_filter hk)
    have htaken := degree_taken _ (hremaining.filter _) hnew h.nodes h.counts v
    have hsame : ∀ x, x ∈ p.phase ++ p.phases.flatten ↔
        x ∈ (p.turn g.adjacency).phases.flatten := by
      simp [Peeling.turn, or_comm]
    rw [← waits_congr hsame]
    exact htaken
  nodes x y hxy := contains_taken.mpr (h.nodes x y hxy)
  earlier i x y hi hxy := by
    rcases inPhase_snoc.mp hi with hi | ⟨rfl, hy⟩
    · obtain ⟨j, hlt, hj⟩ := h.earlier i x y hi hxy
      exact ⟨j, hlt, inPhase_snoc.mpr (.inl hj)⟩
    · -- nothing that depends on it is left
      have hzero := of_decide_eq_true (List.mem_filter.mp hy).2
      rw [h.counts] at hzero
      have htaken := waits_eq_zero_iff.mp (Int.natCast_eq_zero.mp hzero) x (mem_pairs.mpr hxy)
      obtain ⟨j, hj⟩ := exists_inPhase.mpr htaken
      exact ⟨j, hj.lt, inPhase_snoc.mpr (.inl hj)⟩

theorem Peeled.run (h : Peeled g p) (turns : Nat) : Peeled g (p.run g.adjacency turns) := by
  induction turns generalizing p with
  | zero => exact h
  | succ turns ih =>
    rw [Peeling.run]
    split_ifs
    · exact h
    · exact ih h.turn

theorem peeled (g : ExtensionCompatibilityGraph) :
    Peeled g (g.toPeel.run g.adjacency g.toPeel.remaining.length) :=
  (peeled_toPeel g).run _

theorem run_of_phase_nil {adjacency : Dict String (List String)} (h : p.phase = [])
    (turns : Nat) : p.run adjacency turns = p := by
  cases turns with
  | zero => rfl
  | succ turns => exact if_pos h

end Turns

/-! ### Order -/

section Order
variable {g : ExtensionCompatibilityGraph}

/-- An order that is as it should be has no edges to keep. -/
theorem Ordered.unneeded (h : Ordered g) : Unneeded g := by
  have hnone : ∀ x ∈ g.installed, ∀ y, ¬ DependsOn g y x := by
    intro x hx y hyx
    obtain ⟨i, hi⟩ := (h.union x).mpr hx
    obtain ⟨j, hji, hj⟩ := (peeled g).earlier i y x hi hyx
    have hy : y ∈ g.installed := (h.union y).mp ⟨j, hj⟩
    obtain ⟨i', j', hij', hi', hj'⟩ := h.earlier y hy x hx hyx
    have hi' := InPhase.unique h.disjoint hi hi'
    have hj' := InPhase.unique h.disjoint hj hj'
    omega
  intro x hx
  refine ⟨?_, hnone x hx⟩
  have hphase := exists_inPhase.mp ((h.union x).mpr hx)
  have hnode := (peeled g).perm.subset (List.mem_append_left _ hphase)
  obtain ⟨hedges | ⟨y, hyx⟩, -⟩ := mem_toPeel.mp hnode
  · exact hedges
  · exact absurd hyx (hnone x hx y)

theorem Unneeded.mem_toPeel (h : Unneeded g) {x : String} :
    x ∈ g.toPeel.remaining ↔ x ∈ g.installed :=
  Compatibility.mem_toPeel.trans ⟨And.right, fun hx => ⟨.inl (h x hx).1, hx⟩⟩

/-- All are taken in the first turn. -/
theorem Unneeded.phase (h : Unneeded g) : g.toPeel.phase = g.toPeel.remaining := by
  refine List.filter_eq_self.mpr fun x hx => decide_eq_true ?_
  rw [(peeled_toPeel g).counts, Int.natCast_eq_zero]
  exact waits_eq_zero_iff.mpr fun u hu =>
    absurd (mem_pairs.mp hu) ((h x (h.mem_toPeel.mp hx)).2 u)

theorem Unneeded.flatten (h : Unneeded g) :
    g.topologicalPhaseOrder.flatten = g.toPeel.remaining := by
  rw [ExtensionCompatibilityGraph.topologicalPhaseOrder]
  cases hturns : g.toPeel.remaining.length with
  | zero =>
    rw [List.eq_nil_of_length_eq_zero hturns]
    rfl
  | succ turns =>
    have hsome : g.toPeel.phase ≠ [] := by
      rw [h.phase, ← List.length_pos_iff]
      omega
    have hdone : (g.toPeel.turn g.adjacency).phase = [] := by
      have hnothing : (g.toPeel.turn g.adjacency).remaining = [] := by
        refine List.filter_eq_nil_iff.mpr fun x hx => ?_
        simpa [h.phase] using hx
      rw [Peeling.phase, hnothing]
      rfl
    rw [Peeling.run, if_neg hsome, run_of_phase_nil hdone]
    show ([] ++ [g.toPeel.phase]).flatten = g.toPeel.remaining
    rw [h.phase]
    exact List.append_nil _

theorem Unneeded.ordered (h : Unneeded g) : Ordered g where
  disjoint := (List.nodup_flatten.mp (List.nodup_append'.mp (peeled g).nodup).1).2
  union x := by rw [exists_inPhase, h.flatten, h.mem_toPeel]
  earlier x _ y hy hxy := absurd hxy ((h y hy).2 x)

theorem Unneeded.acyclic (h : Unneeded g) : Acyclic g := by
  intro x hcycle
  obtain ⟨y, -, -, hx, hyx⟩ := Relation.TransGen.tail'_iff.mp hcycle
  exact (h x hx).2 y hyx

end Order

/-- The phases are in order exactly if no installed extension is depended on, and each has
edges: whether there are cycles or not. -/
theorem ordered_iff (lower : Lower) (calls : List GraphCall) :
    Ordered ((graphs lower).after calls) ↔ Unneeded ((graphs lower).after calls) :=
  ⟨Ordered.unneeded, Unneeded.ordered⟩

/-- Charts that need plots, both installed. -/
def chartsOnPlots : List GraphCall :=
  [.declareEdge ⟨"charts", "plots", .dependsOn, "draws with it"⟩,
    .registerInstalled "charts", .registerInstalled "plots"]

def asciiLower : Lower := fun text => text.map Char.toLower

theorem dependsOn_chartsOnPlots {x y : String}
    (h : DependsOn ((graphs asciiLower).after chartsOnPlots) x y) : x = "charts" ∧ y = "plots" := by
  obtain ⟨e, he, -, rfl⟩ := h
  by_cases hx : x = "charts"
  · subst hx
    obtain rfl : e = ⟨"charts", "plots", .dependsOn, "draws with it"⟩ := List.mem_singleton.mp he
    exact ⟨rfl, rfl⟩
  · have hnone : ((graphs asciiLower).after chartsOnPlots).edgesOf x = [] := by
      show ((Dict.empty.set "charts" _).get? x).getD [] = []
      rw [Dict.get?_set_ne (Ne.symm hx)]
      rfl
    rw [hnone] at he
    cases he

/-- The charts come first. -/
theorem not_ordered_chartsOnPlots :
    Acyclic ((graphs asciiLower).after chartsOnPlots) ∧
      ((graphs asciiLower).after chartsOnPlots).topologicalPhaseOrder = [["charts"], ["plots"]] ∧
      ¬ Ordered ((graphs asciiLower).after chartsOnPlots) := by
  refine ⟨fun x hcycle => ?_, by decide +kernel, fun h => ?_⟩
  · obtain ⟨_, ⟨-, -, hfirst⟩, -⟩ := Relation.TransGen.head'_iff.mp hcycle
    obtain ⟨_, -, -, -, hlast⟩ := Relation.TransGen.tail'_iff.mp hcycle
    have hcharts := (dependsOn_chartsOnPlots hfirst).1
    have hplots := (dependsOn_chartsOnPlots hlast).2
    exact absurd (hcharts.symm.trans hplots) (by decide)
  · have hplots := (h.unneeded "plots" (by decide)).2 "charts"
    exact hplots ⟨_, List.mem_singleton_self _, rfl, rfl⟩

end PiPlatform.Interoperability.Compatibility
