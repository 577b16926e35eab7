import PiPlatform.Interoperability.PhaseOrder
import PiPlatform.Library.DepthFirst
import PiPlatform.Library.Layers
import PiPlatform.Library.StableSort
import Mathlib.Data.String.Basic

/-! Plans for composing catalog packages.

A node waits for what its dependencies find. The counts of the phases are of what is still waited
for (`Counted`), so a phase is a level of what was found (`inPhase_phases`). But a dependency is
cut at its first `@`, so one on a package with a scope finds nothing, and the class of manifests has
no field `name` to compare with. So a plan follows what is declared exactly if what is found does
(`respects_iff`). -/
namespace PiPlatform.Interoperability.Planner

open Library Relation
open Compatibility (ExtensionCompatibilityGraph InPhase exists_inPhase release targetsOf waits
  waits_eq_zero_iff waits_visited waits_congr)

structure CatalogManifest extends ExtensionManifest where
  /-- The class has no such field; `model_copy(update=...)` can set it. -/
  name : Option String
  dependencies : List String

structure CompositionNode where
  nodeId : String
  manifestId : String
  capabilityClass : String
  workerType : String
  inputs : List String

structure CompositionPlan where
  planId : String
  nodes : List CompositionNode
  executionOrder : List (List String)
  valid : Bool
  reason : Option String
  planHash : String

/-- The digest of a text, `compute_hash`, and the order in which a set is gone through. -/
structure Runtime where
  sha256 : String → String
  computeHash : CompositionPlan → String
  order : List String → List String
  perm : ∀ xs, (order xs).Perm xs

/-! ### Nodes -/

/-- `dep_string.split("@")[0]`, or all of it if there is no `@`. -/
def depName (depString : String) : String :=
  String.ofList (depString.toList.takeWhile (· ≠ '@'))

/-- `m.name` raises if there is no such attribute. -/
def findManifestId (depString : String) : List CatalogManifest → Option (Option String)
  | [] => some none
  | m :: manifests =>
    match m.name with
    | none => none
    | some name =>
      if name = depName depString ∨ m.extensionId = depName depString then some m.extensionId
      else findManifestId depString manifests

section Model
variable (R : Runtime)

/-- An empty id counts as none. -/
def depInputs (manifests : List CatalogManifest) (manifest : CatalogManifest) :
    Option (List String) := do
  let found ← manifest.dependencies.mapM fun dep => findManifestId dep manifests
  some (sortBy id ((found.filterMap id).filter (· ≠ "")).dedup)

def nodeOf (manifests : List CatalogManifest) (manifest : CatalogManifest) :
    Option CompositionNode := do
  let inputs ← depInputs manifests manifest
  some
    { nodeId := manifest.extensionId
      manifestId := manifest.extensionId
      capabilityClass := manifest.capabilityClass.value
      workerType := manifest.capabilityClass.value ++ "_worker"
      inputs := inputs }

/-! ### Cycles -/

def neighbors (nodes : List CompositionNode) (nodeId : String) : List String :=
  R.order (((Dict.ofList (nodes.map fun n => (n.nodeId, n.inputs))).get? nodeId).getD [])

/-- No more nodes can be entered than there are. -/
def hasCycle (nodes : List CompositionNode) : Bool :=
  (DepthFirst.sweep (neighbors R nodes) nodes.length (nodes.map (·.nodeId)) .none).1

/-! ### Phases -/

structure Degrees where
  inDegree : Dict String Int
  adj : Dict String (List String)

def link (nodeId : String) (d : Degrees) (input : String) : Degrees :=
  match d.adj.get? input with
  | none => d
  | some out =>
    { inDegree := d.inDegree.set nodeId ((d.inDegree.get? nodeId).getD 0 + 1)
      adj := d.adj.set input (out ++ [nodeId]) }

def degrees (nodes : List CompositionNode) : Degrees :=
  nodes.foldl (fun d n => n.inputs.foldl (link n.nodeId) d)
    ⟨.ofList (nodes.map fun n => (n.nodeId, 0)), .ofList (nodes.map fun n => (n.nodeId, []))⟩

def zeroIn (inDegree : Dict String Int) : List String :=
  (inDegree.items.filter fun item => item.2 = 0).map Prod.fst

def take (adj : Dict String (List String)) (inDegree : Dict String Int) (nid : String) :
    Dict String Int :=
  ((adj.get? nid).getD []).foldl release (inDegree.erase nid)

/-- The loop, for at most so many turns. -/
def phasesFrom (adj : Dict String (List String)) : Nat → Dict String Int → List (List String)
  | 0, _ => []
  | turns + 1, inDegree =>
    if zeroIn inDegree = [] then []
    else zeroIn inDegree :: phasesFrom adj turns ((zeroIn inDegree).foldl (take adj) inDegree)

def topologicalPhases (nodes : List CompositionNode) : List (List String) :=
  phasesFrom (degrees nodes).adj nodes.length (degrees nodes).inDegree

/-! ### Plans -/

/-- Each node of a phase with those behind it. -/
def pairs : List String → List (String × String)
  | [] => []
  | a :: rest => rest.map (a, ·) ++ pairs rest

def firstConflict (graph : ExtensionCompatibilityGraph) (phases : List (List String)) :
    Option Compatibility.CompatibilityCheck :=
  ((phases.flatMap pairs).map fun p => graph.checkCompatibility p.1 p.2).find?
    fun check => check.verdict ≠ .compatible

def invalidPlan (reason : String) : CompositionPlan where
  planId := "invalid"
  nodes := []
  executionOrder := []
  valid := false
  reason := some reason
  planHash := R.sha256 reason

/-- Cycles and conflicts within a phase make a plan invalid. -/
def plan (graph : ExtensionCompatibilityGraph) (manifests : List CatalogManifest) :
    Option CompositionPlan :=
  if manifests = [] then some (invalidPlan R "No manifests provided")
  else do
    let nodes ← manifests.mapM (nodeOf manifests)
    if hasCycle R nodes then some (invalidPlan R "Dependency cycle detected in composition")
    else
      let phases := topologicalPhases nodes
      match firstConflict graph phases with
      | some check =>
        some (invalidPlan R ("Incompatible nodes in same phase: " ++ check.sourceId ++ " vs " ++
          check.targetId ++ ": " ++ check.evidence))
      | none =>
        let ids := sortBy id (manifests.map (·.extensionId)).dedup
        let plan : CompositionPlan :=
          { planId := "plan_" ++
              String.ofList ((R.sha256 (",".intercalate ids)).toList.take 16)
            nodes := nodes
            executionOrder := phases.map (sortBy id)
            valid := true
            reason := none
            planHash := "" }
        some { plan with planHash := R.computeHash plan }

end Model

/-! ### What is declared -/

/-- The name alone, or with a version. -/
def Names (depString name : String) : Prop :=
  depString = name ∨ ∃ version, depString = name ++ "@" ++ version

/-- The second depends on the first, by the name that it was given or has in the catalog. -/
def Declared (manifests : List CatalogManifest) (u v : String) : Prop :=
  ∃ a ∈ manifests, a.extensionId = u ∧ ∃ b ∈ manifests, b.extensionId = v ∧
    ∃ dep ∈ b.dependencies, Names dep (a.name.getD a.packageName)

/-- The longest ways to both are of one length. -/
def SameLevel (E : String → String → Prop) (u v : String) : Prop :=
  ∀ n, Within E n u ↔ Within E n v

/-- No cycles, and every two manifests of a phase are compatible. -/
structure Composable (graph : ExtensionCompatibilityGraph) (ids : List String)
    (E : String → String → Prop) : Prop where
  acyclic : ∀ u, ¬ TransGen E u u
  compatible : ∀ u ∈ ids, ∀ v ∈ ids, u ≠ v → SameLevel E u v →
    (graph.checkCompatibility u v).verdict = .compatible

/-- A plan is valid when the manifests can be composed, and runs each after what it needs. -/
structure Respects (graph : ExtensionCompatibilityGraph) (manifests : List CatalogManifest)
    (plan : CompositionPlan) : Prop where
  valid : plan.valid = true ↔
    Composable graph (manifests.map (·.extensionId)) (Declared manifests)
  partition : plan.valid = true →
    plan.executionOrder.flatten.Perm (manifests.map (·.extensionId))
  earlier : plan.valid = true → ∀ u v, Declared manifests u v →
    ∃ i j, i < j ∧ InPhase plan.executionOrder i u ∧ InPhase plan.executionOrder j v

/-! ### What is found -/

/-- The first manifest of which the name or the id is what stands before the `@`; those before it
have a name to compare. -/
def Finds (manifests : List CatalogManifest) (depString : String) (m : CatalogManifest) : Prop :=
  ∃ before after, manifests = before ++ m :: after ∧
    (∃ name, m.name = some name ∧
      (name = depName depString ∨ m.extensionId = depName depString)) ∧
    ∀ other ∈ before, ∃ name, other.name = some name ∧ name ≠ depName depString ∧
      other.extensionId ≠ depName depString

/-- `u` is what a dependency of `v` finds. -/
def Found (manifests : List CatalogManifest) (u v : String) : Prop :=
  ∃ b ∈ manifests, b.extensionId = v ∧ ∃ dep ∈ b.dependencies,
    ∃ a, Finds manifests dep a ∧ a.extensionId = u ∧ u ≠ ""

/-- No dependency comes to a manifest without a name. -/
def Answered (manifests : List CatalogManifest) : Prop :=
  ∀ b ∈ manifests, ∀ dep ∈ b.dependencies,
    (∃ a, Finds manifests dep a) ∨ ∀ m ∈ manifests, m.name ≠ none

/-- What is found and what is declared are both composable or neither, and if they are, what is
declared leads to higher levels of what is found. -/
structure Agrees (graph : ExtensionCompatibilityGraph) (manifests : List CatalogManifest) :
    Prop where
  answered : Answered manifests
  composable : Composable graph (manifests.map (·.extensionId)) (Found manifests) ↔
    Composable graph (manifests.map (·.extensionId)) (Declared manifests)
  levels : Composable graph (manifests.map (·.extensionId)) (Found manifests) →
    ∀ u v, Declared manifests u v → ∃ n, Within (Found manifests) n u ∧
      ¬ Within (Found manifests) n v

/-! ### Counts -/

section Counts
variable {arcs : List (String × String)} {ids visited : List String} {d : Degrees}
  {inDegree : Dict String Int} {adj : Dict String (List String)} {u v : String}

def arcsOf (nodes : List CompositionNode) : List (String × String) :=
  nodes.flatMap fun n => n.inputs.map (·, n.nodeId)

theorem get?_release (neighbor v : String) : (release inDegree neighbor).get? v =
    (inDegree.get? v).map fun degree => if neighbor = v then degree - 1 else degree := by
  by_cases hcontains : inDegree.contains neighbor = true
  · obtain ⟨degree, hdegree⟩ := Dict.contains_iff.mp hcontains
    rw [release, if_pos hcontains, Dict.get?_set, Compatibility.degree, hdegree]
    by_cases heq : neighbor = v
    · subst heq
      simp [hdegree]
    · simp [heq]
  · rw [release, if_neg hcontains]
    by_cases heq : neighbor = v
    · subst heq
      rw [Dict.contains, Bool.not_eq_true, Option.isSome_eq_false_iff, Option.isNone_iff_eq_none]
        at hcontains
      simp [hcontains]
    · simp [heq]

theorem get?_releases (neighbors : List String) (v : String) :
    (neighbors.foldl release inDegree).get? v =
      (inDegree.get? v).map fun degree => degree - (neighbors.count v : Int) := by
  induction neighbors generalizing inDegree with
  | nil => simp
  | cons neighbor neighbors ih =>
    rw [List.foldl_cons, ih, get?_release, Option.map_map, List.count_cons]
    refine congrArg (fun f => (inDegree.get? v).map f) (funext fun degree => ?_)
    by_cases heq : neighbor = v
    · simp [heq]
      omega
    · simp [heq]

/-- What the table of links has after so many arcs. -/
theorem get?_links (h : ∀ p ∈ arcs, d.adj.contains p.1 = true ∧ d.inDegree.contains p.2 = true) :
    (∀ u, (arcs.foldl (fun d p => link p.2 d p.1) d).adj.get? u =
      (d.adj.get? u).map fun out => out ++ targetsOf arcs u) ∧
    ∀ v, (arcs.foldl (fun d p => link p.2 d p.1) d).inDegree.get? v =
      (d.inDegree.get? v).map fun degree => degree + (waits arcs [] v : Int) := by
  induction arcs generalizing d with
  | nil => exact ⟨fun u => by simp [targetsOf], fun v => by simp [waits]⟩
  | cons p arcs ih =>
    obtain ⟨⟨hsource, htarget⟩, hrest⟩ := List.forall_mem_cons.mp h
    obtain ⟨out, hout⟩ := Dict.contains_iff.mp hsource
    obtain ⟨degree, hdegree⟩ := Dict.contains_iff.mp htarget
    have hlink : link p.2 d p.1 =
        ⟨d.inDegree.set p.2 (degree + 1), d.adj.set p.1 (out ++ [p.2])⟩ := by
      rw [link, hout, hdegree]
      rfl
    obtain ⟨hadj, hinDegree⟩ := ih (d := link p.2 d p.1) fun q hq => by
      rw [hlink]
      exact ⟨Dict.contains_set.mpr (.inl (hrest q hq).1),
        Dict.contains_set.mpr (.inl (hrest q hq).2)⟩
    rw [List.foldl_cons]
    refine ⟨fun u => (hadj u).trans ?_, fun v => (hinDegree v).trans ?_⟩
    · rw [hlink, Dict.get?_set, targetsOf, targetsOf, List.filter_cons]
      by_cases heq : p.1 = u
      · subst heq
        simp [hout]
      · simp [heq]
    · rw [hlink, Dict.get?_set, waits, waits, List.countP_cons]
      by_cases heq : p.2 = v
      · subst heq
        simp [hdegree]
        omega
      · simp [heq]

/-- The counts are of what has not been taken. -/
def Counted (arcs : List (String × String)) (ids visited : List String)
    (inDegree : Dict String Int) : Prop :=
  ∀ v, inDegree.get? v =
    if v ∈ ids ∧ v ∉ visited then some (waits arcs visited v : Int) else none

theorem Counted.take (h : Counted arcs ids visited inDegree)
    (hadj : (adj.get? u).getD [] = targetsOf arcs u) (hu : u ∉ visited) :
    Counted arcs ids (u :: visited) (take adj inDegree u) := by
  intro v
  rw [Planner.take, get?_releases, Dict.get?_erase, h v, hadj]
  by_cases heq : u = v
  · subst heq
    simp
  · by_cases hv : v ∈ ids ∧ v ∉ visited
    · have hv' : v ∈ ids ∧ v ∉ u :: visited := ⟨hv.1, by simp [Ne.symm heq, hv.2]⟩
      rw [if_neg heq, if_pos hv, if_pos hv', Option.map_some, waits_visited hu v]
      simp
    · have hv' : ¬ (v ∈ ids ∧ v ∉ u :: visited) := by
        simpa [Ne.symm heq] using hv
      rw [if_neg heq, if_neg hv, if_neg hv', Option.map_none]

theorem Counted.takes {taken : List String} (h : Counted arcs ids visited inDegree)
    (hadj : ∀ u ∈ taken, (adj.get? u).getD [] = targetsOf arcs u) (hnew : ∀ u ∈ taken, u ∉ visited)
    (hnodup : taken.Nodup) :
    Counted arcs ids (taken.reverse ++ visited) (taken.foldl (Planner.take adj) inDegree) := by
  induction taken generalizing visited inDegree with
  | nil => exact h
  | cons u taken ih =>
    obtain ⟨hadj, hadjs⟩ := List.forall_mem_cons.mp hadj
    obtain ⟨hnew, hnews⟩ := List.forall_mem_cons.mp hnew
    obtain ⟨hu, hnodup⟩ := List.nodup_cons.mp hnodup
    rw [List.reverse_cons, List.append_assoc, List.singleton_append]
    refine ih (h.take hadj hnew) hadjs (fun w hw => ?_) hnodup
    rw [List.mem_cons, not_or]
    exact ⟨fun heq => hu (heq ▸ hw), hnews w hw⟩

theorem nodup_zeroIn (inDegree : Dict String Int) : (zeroIn inDegree).Nodup :=
  (inDegree.nodup.sublist (List.filter_sublist.map Prod.fst))

theorem Counted.mem_zeroIn (h : Counted arcs ids visited inDegree) : v ∈ zeroIn inDegree ↔
    v ∈ ids ∧ v ∉ visited ∧ ∀ u, (u, v) ∈ arcs → u ∈ visited := by
  have hzero : v ∈ zeroIn inDegree ↔ inDegree.get? v = some 0 := by
    rw [← Dict.mem_items]
    simp [zeroIn]
  rw [hzero, h v, ← waits_eq_zero_iff, ← and_assoc]
  split_ifs with hv
  · simp [hv]
  · simp [hv]

end Counts

/-! ### Levels -/

section Levels
variable {arcs : List (String × String)} {ids visited : List String}
  {inDegree : Dict String Int} {adj : Dict String (List String)} {u v : String}

def Arc (arcs : List (String × String)) (u v : String) : Prop := (u, v) ∈ arcs

theorem inPhase_cons {phase : List String} {phases : List (List String)} {i : Nat} :
    InPhase (phase :: phases) i v ↔ i = 0 ∧ v ∈ phase ∨ ∃ j, i = j + 1 ∧ InPhase phases j v := by
  cases i with
  | zero | succ i => simp [InPhase]

/-- Turn after turn a phase is the next level. -/
theorem inPhase_phasesFrom (harcs : ∀ u v, Arc arcs u v → u ∈ ids)
    (hadj : ∀ u, (adj.get? u).getD [] = targetsOf arcs u) {turns n : Nat}
    (h : Counted arcs ids visited inDegree)
    (hvisited : ∀ v ∈ ids, v ∈ visited ↔ Within (Arc arcs) n v) (i : Nat) :
    InPhase (phasesFrom adj turns inDegree) i v ↔
      i < turns ∧ v ∈ ids ∧ Within (Arc arcs) (n + i + 1) v ∧ ¬ Within (Arc arcs) (n + i) v := by
  induction turns generalizing n visited inDegree i with
  | zero => simp [phasesFrom, InPhase]
  | succ turns ih =>
    have hzero : ∀ v, v ∈ zeroIn inDegree ↔
        v ∈ ids ∧ Within (Arc arcs) (n + 1) v ∧ ¬ Within (Arc arcs) n v := by
      intro v
      rw [h.mem_zeroIn, within_succ]
      refine and_congr_right fun hv => ?_
      rw [hvisited v hv, and_comm]
      exact and_congr_left' (forall₂_congr fun u huv => hvisited u (harcs u v huv))
    rw [phasesFrom]
    split_ifs with hnil
    · constructor
      · intro hphase
        obtain ⟨phase, hget, -⟩ := hphase
        rw [List.getElem?_nil] at hget
        cases hget
      rintro ⟨-, hv, hwithin, hnot⟩
      -- there is no further level
      refine absurd ((Within.of_saturated harcs (fun w hw hsucc => ?_) _ hv hwithin).mono
        (Nat.le_add_right n i)) hnot
      by_contra hw'
      exact List.not_mem_nil (hnil ▸ (hzero w).mpr ⟨hw, hsucc, hw'⟩)
    · have hnext := h.takes (fun u _ => hadj u) (fun u hu => (h.mem_zeroIn.mp hu).2.1)
        (nodup_zeroIn inDegree)
      have hvisited' : ∀ v ∈ ids, v ∈ (zeroIn inDegree).reverse ++ visited ↔
          Within (Arc arcs) (n + 1) v := by
        intro v hv
        rw [List.mem_append, List.mem_reverse, hzero, hvisited v hv]
        constructor
        · rintro (⟨-, hsucc, -⟩ | hwithin)
          · exact hsucc
          · exact hwithin.mono (Nat.le_succ n)
        · intro hsucc
          by_cases hwithin : Within (Arc arcs) n v
          · exact .inr hwithin
          · exact .inl ⟨hv, hsucc, hwithin⟩
      rw [inPhase_cons, hzero]
      cases i with
      | zero => simp
      | succ i =>
        have hrest := ih hnext hvisited' i
        rw [Nat.add_right_comm n 1 i] at hrest
        simp [hrest, ← Nat.add_assoc]

end Levels

/-! ### The nodes of a plan -/

section Nodes
variable {R : Runtime} {nodes : List CompositionNode} {u v : String}

/-- `u` is an input of the node `v`. -/
def Waits (nodes : List CompositionNode) (u v : String) : Prop :=
  ∃ n ∈ nodes, n.nodeId = v ∧ u ∈ n.inputs

theorem arc_arcsOf : Arc (arcsOf nodes) = Waits nodes := by
  funext u v
  simp [Arc, arcsOf, Waits, and_comm]

/-- No id twice, and every input is a node. -/
structure Closed (nodes : List CompositionNode) : Prop where
  nodup : (nodes.map (·.nodeId)).Nodup
  inputs : ∀ u v, Waits nodes u v → u ∈ nodes.map (·.nodeId)

theorem mem_of_waits (h : Waits nodes u v) : v ∈ nodes.map (·.nodeId) := by
  obtain ⟨n, hn, rfl, -⟩ := h
  exact List.mem_map_of_mem hn

theorem degrees_eq : degrees nodes =
    (arcsOf nodes).foldl (fun d p => link p.2 d p.1)
      ⟨.ofList ((nodes.map (·.nodeId)).map fun id => (id, 0)),
        .ofList ((nodes.map (·.nodeId)).map fun id => (id, []))⟩ := by
  rw [arcsOf, List.foldl_flatMap, List.map_map, List.map_map]
  simp only [List.foldl_map]
  rfl

theorem degrees_spec (h : Closed nodes) :
    (∀ u, ((degrees nodes).adj.get? u).getD [] = targetsOf (arcsOf nodes) u) ∧
      Counted (arcsOf nodes) (nodes.map (·.nodeId)) [] (degrees nodes).inDegree := by
  have hnodes : ∀ p ∈ arcsOf nodes, p.1 ∈ nodes.map (·.nodeId) ∧ p.2 ∈ nodes.map (·.nodeId) := by
    intro p hp
    have hwaits : Waits nodes p.1 p.2 := by
      rw [← arc_arcsOf]
      exact hp
    exact ⟨h.inputs _ _ hwaits, mem_of_waits hwaits⟩
  obtain ⟨hadj, hinDegree⟩ := @get?_links (arcsOf nodes)
    ⟨.ofList ((nodes.map (·.nodeId)).map fun id => (id, 0)),
      .ofList ((nodes.map (·.nodeId)).map fun id => (id, []))⟩ fun p hp => by
        rw [Dict.contains, Dict.contains, Dict.get?_ofList_map _ fun _ => [],
          Dict.get?_ofList_map _ fun _ => 0, if_pos (hnodes p hp).1, if_pos (hnodes p hp).2]
        exact ⟨rfl, rfl⟩
  rw [← degrees_eq] at hadj hinDegree
  constructor
  · intro u
    rw [hadj, Dict.get?_ofList_map _ fun _ => []]
    split_ifs with hu
    · rfl
    · have hnone : (arcsOf nodes).filter (fun p => p.1 = u) = [] :=
        List.filter_eq_nil_iff.mpr fun p hp heq =>
          hu (of_decide_eq_true heq ▸ (hnodes p hp).1)
      rw [targetsOf, hnone]
      rfl
  · intro v
    rw [hinDegree, Dict.get?_ofList_map _ fun _ => 0]
    simp only [List.not_mem_nil, not_false_eq_true, and_true]
    split_ifs <;> simp

theorem inPhase_phases (h : Closed nodes) (i : Nat) :
    InPhase (topologicalPhases nodes) i v ↔ i < nodes.length ∧ v ∈ nodes.map (·.nodeId) ∧
      Within (Waits nodes) (i + 1) v ∧ ¬ Within (Waits nodes) i v := by
  obtain ⟨hadj, hcounted⟩ := degrees_spec h
  have hphases : InPhase (topologicalPhases nodes) i v ↔ i < nodes.length ∧
      v ∈ nodes.map (·.nodeId) ∧ Within (Arc (arcsOf nodes)) (0 + i + 1) v ∧
        ¬ Within (Arc (arcsOf nodes)) (0 + i) v :=
    inPhase_phasesFrom (fun u v huv => h.inputs u v (arc_arcsOf ▸ huv)) hadj hcounted
      (fun v _ => iff_of_false List.not_mem_nil (not_within_zero v)) i
  rwa [Nat.zero_add, arc_arcsOf] at hphases

theorem get?_ofList_of_nodup {V : Type} {items : List (String × V)}
    (h : (items.map Prod.fst).Nodup) {x : V} :
    (Dict.ofList items).get? v = some x ↔ (v, x) ∈ items := by
  have hitems : setItems [] items = [] ++ items := setItems_of_nodup items h
  rw [← Dict.mem_items, Dict.ofList]
  dsimp only
  rw [hitems, List.nil_append]

theorem neighbors_iff (h : Closed nodes) : u ∈ neighbors R nodes v ↔ Waits nodes u v := by
  have hnodup : ((nodes.map fun n => (n.nodeId, n.inputs)).map Prod.fst).Nodup := by
    rw [List.map_map]
    exact h.nodup
  rw [neighbors, (R.perm _).mem_iff]
  constructor
  · intro hu
    cases hget : (Dict.ofList (nodes.map fun n => (n.nodeId, n.inputs))).get? v with
    | none =>
      rw [hget] at hu
      exact absurd hu List.not_mem_nil
    | some inputs =>
      rw [hget] at hu
      obtain ⟨n, hn, heq⟩ := List.mem_map.mp ((get?_ofList_of_nodup hnodup).mp hget)
      obtain ⟨rfl, rfl⟩ := Prod.mk.inj heq
      exact ⟨n, hn, rfl, hu⟩
  · rintro ⟨n, hn, rfl, hu⟩
    rw [(get?_ofList_of_nodup hnodup).mpr (List.mem_map.mpr ⟨n, hn, rfl⟩)]
    exact hu

theorem hasCycle_iff (h : Closed nodes) :
    hasCycle R nodes = true ↔ ∃ u, TransGen (Waits nodes) u u := by
  have hedge : DepthFirst.Edge (neighbors R nodes) = Function.swap (Waits nodes) := by
    funext v u
    exact propext (neighbors_iff h)
  rw [hasCycle, DepthFirst.sweep_iff (U := (nodes.map (·.nodeId)).toFinset), hedge]
  · exact exists_congr fun u => transGen_swap
  · exact fun v n hn => List.mem_toFinset.mpr (h.inputs n v ((neighbors_iff h).mp hn))
  · exact (List.toFinset_card_le _).trans (le_of_eq (List.length_map _))
  · exact fun v hv => List.mem_toFinset.mpr hv
  · exact fun v n hn => mem_of_waits ((neighbors_iff h).mp hn)

end Nodes

/-! ### Lookups -/

section Lookups
variable {manifests : List CatalogManifest} {m a : CatalogManifest} {dep : String}

theorem finds_cons : Finds (m :: manifests) dep a ↔ ∃ name, m.name = some name ∧
    ((name = depName dep ∨ m.extensionId = depName dep) ∧ m = a ∨
      (name ≠ depName dep ∧ m.extensionId ≠ depName dep) ∧ Finds manifests dep a) := by
  constructor
  · rintro ⟨before, after, hsplit, ⟨name, hname, hit⟩, hbefore⟩
    cases before with
    | nil =>
      obtain ⟨rfl, -⟩ := List.cons.inj hsplit
      exact ⟨name, hname, .inl ⟨hit, rfl⟩⟩
    | cons other before =>
      obtain ⟨rfl, hrest⟩ := List.cons.inj hsplit
      obtain ⟨⟨other, hother, hne⟩, hbefore⟩ := List.forall_mem_cons.mp hbefore
      exact ⟨other, hother, .inr ⟨hne, before, after, hrest, ⟨name, hname, hit⟩, hbefore⟩⟩
  · rintro ⟨name, hname, ⟨hit, rfl⟩ | ⟨hne, before, after, rfl, hit, hbefore⟩⟩
    · exact ⟨[], manifests, rfl, ⟨name, hname, hit⟩, fun other h => absurd h List.not_mem_nil⟩
    · exact ⟨m :: before, after, rfl, hit,
        List.forall_mem_cons.mpr ⟨⟨name, hname, hne⟩, hbefore⟩⟩

theorem findManifestId_eq_some {id : String} : findManifestId dep manifests = some (some id) ↔
    ∃ a, Finds manifests dep a ∧ a.extensionId = id := by
  induction manifests with
  | nil =>
    refine iff_of_false nofun ?_
    rintro ⟨a, ⟨before, after, hnil, -⟩, -⟩
    exact List.append_ne_nil_of_right_ne_nil _ (List.cons_ne_nil _ _) hnil.symm
  | cons m manifests ih =>
    simp only [finds_cons]
    rw [findManifestId]
    cases hname : m.name with
    | none => simp
    | some name =>
      dsimp only
      split_ifs with hit
      · simp [hit, ← not_or]
      · simp [ih, not_or.mp hit]

theorem isSome_findManifestId : (findManifestId dep manifests).isSome = true ↔
    (∃ a, Finds manifests dep a) ∨ ∀ m ∈ manifests, m.name ≠ none := by
  induction manifests with
  | nil => simp [findManifestId]
  | cons m manifests ih =>
    simp only [finds_cons]
    rw [findManifestId, List.forall_mem_cons]
    cases hname : m.name with
    | none => simp
    | some name =>
      dsimp only
      split_ifs with hit
      · simp [hit, ← not_or]
      · simp [ih, not_or.mp hit]

end Lookups

/-! ### From manifests to nodes -/

section Resolved
variable {manifests : List CatalogManifest} {nodes : List CompositionNode} {u v : String}

theorem isSome_depInputs {m : CatalogManifest} : (depInputs manifests m).isSome = true ↔
    ∀ dep ∈ m.dependencies, (findManifestId dep manifests).isSome = true := by
  rw [← isSome_mapM, depInputs]
  cases m.dependencies.mapM fun dep => findManifestId dep manifests <;> rfl

theorem mem_depInputs {m : CatalogManifest} {inputs : List String}
    (h : depInputs manifests m = some inputs) : u ∈ inputs ↔
      ∃ dep ∈ m.dependencies, ∃ a, Finds manifests dep a ∧ a.extensionId = u ∧ u ≠ "" := by
  obtain ⟨found, hfound, hinputs⟩ := Option.bind_eq_some_iff.mp h
  obtain rfl := Option.some.inj hinputs
  have hsome : ∀ dep ∈ m.dependencies, ∃ id, findManifestId dep manifests = some id :=
    fun dep hdep => Option.isSome_iff_exists.mp
      (isSome_mapM.mp (Option.isSome_of_eq_some hfound) dep hdep)
  rw [mapM_eq_filterMap hsome] at hfound
  obtain rfl := Option.some.inj hfound
  rw [(stableSort_sortBy id _).mem_iff, List.mem_dedup, List.mem_filter]
  simp only [List.mem_filterMap, id, decide_eq_true_eq]
  constructor
  · rintro ⟨⟨_, ⟨dep, hdep, hfind⟩, rfl⟩, hne⟩
    obtain ⟨a, ha, rfl⟩ := findManifestId_eq_some.mp hfind
    exact ⟨dep, hdep, a, ha, rfl, hne⟩
  · rintro ⟨dep, hdep, a, ha, rfl, hne⟩
    exact ⟨⟨_, ⟨dep, hdep, findManifestId_eq_some.mpr ⟨a, ha, rfl⟩⟩, rfl⟩, hne⟩

/-- There are nodes exactly if every dependency is answered. -/
theorem isSome_nodes : (manifests.mapM (nodeOf manifests)).isSome = true ↔ Answered manifests := by
  rw [isSome_mapM, Answered]
  refine forall₂_congr fun m _ => ?_
  have hnode : (nodeOf manifests m).isSome = (depInputs manifests m).isSome := by
    rw [nodeOf]
    cases depInputs manifests m <;> rfl
  rw [hnode, isSome_depInputs]
  exact forall₂_congr fun dep _ => isSome_findManifestId

theorem nodeId_nodes (h : manifests.mapM (nodeOf manifests) = some nodes) :
    nodes.map (·.nodeId) = manifests.map (·.extensionId) := by
  have hsome : ∀ m ∈ manifests, ∃ n, nodeOf manifests m = some n := fun m hm =>
    Option.isSome_iff_exists.mp (isSome_mapM.mp (Option.isSome_of_eq_some h) m hm)
  rw [mapM_eq_filterMap hsome] at h
  obtain rfl := Option.some.inj h
  rw [List.map_filterMap, ← List.filterMap_eq_map]
  refine List.filterMap_congr fun m hm => ?_
  obtain ⟨n, hn⟩ := hsome m hm
  rw [hn]
  obtain ⟨inputs, -, hnode⟩ := Option.bind_eq_some_iff.mp hn
  obtain rfl := Option.some.inj hnode
  rfl

/-- A node waits for what its dependencies find. -/
theorem waits_nodes (h : manifests.mapM (nodeOf manifests) = some nodes) :
    Waits nodes = Found manifests := by
  have hsome : ∀ m ∈ manifests, ∃ n, nodeOf manifests m = some n := fun m hm =>
    Option.isSome_iff_exists.mp (isSome_mapM.mp (Option.isSome_of_eq_some h) m hm)
  rw [mapM_eq_filterMap hsome] at h
  obtain rfl := Option.some.inj h
  funext u v
  refine propext ⟨?_, ?_⟩
  · rintro ⟨n, hn, rfl, hu⟩
    obtain ⟨m, hm, hnode⟩ := List.mem_filterMap.mp hn
    obtain ⟨inputs, hinputs, hnode⟩ := Option.bind_eq_some_iff.mp hnode
    obtain rfl := Option.some.inj hnode
    exact ⟨m, hm, rfl, (mem_depInputs hinputs).mp hu⟩
  · rintro ⟨m, hm, rfl, hu⟩
    obtain ⟨n, hn⟩ := hsome m hm
    obtain ⟨inputs, hinputs, hnode⟩ := Option.bind_eq_some_iff.mp hn
    obtain rfl := Option.some.inj hnode
    exact ⟨_, List.mem_filterMap.mpr ⟨m, hm, hn⟩, rfl, (mem_depInputs hinputs).mpr hu⟩

theorem found_mem (h : Found manifests u v) : u ∈ manifests.map (·.extensionId) := by
  obtain ⟨b, -, -, dep, -, a, ⟨before, after, rfl, -⟩, rfl, -⟩ := h
  simp

theorem closed_nodes (hids : (manifests.map (·.extensionId)).Nodup)
    (h : manifests.mapM (nodeOf manifests) = some nodes) : Closed nodes where
  nodup := by
    rw [nodeId_nodes h]
    exact hids
  inputs u v huv := by
    rw [nodeId_nodes h]
    rw [waits_nodes h] at huv
    exact found_mem huv

end Resolved

/-! ### Phases are levels -/

section Phases
variable {E : String → String → Prop} {ids : List String} {u v : String} {i j n : Nat}
  {graph : ExtensionCompatibilityGraph} {phases : List (List String)}

theorem within_iff (hwithin : Within E (i + 1) u) (hnot : ¬ Within E i u) :
    Within E n u ↔ i < n := by
  refine ⟨fun h => ?_, hwithin.mono⟩
  by_contra hlt
  exact hnot (h.mono (Nat.le_of_not_lt hlt))

theorem exists_level (h : Within E n u) : ∃ i < n, Within E (i + 1) u ∧ ¬ Within E i u := by
  induction n with
  | zero => exact absurd h (not_within_zero u)
  | succ n ih =>
    by_cases hless : Within E n u
    · obtain ⟨i, hi, hlevel⟩ := ih hless
      exact ⟨i, Nat.lt_succ_of_lt hi, hlevel⟩
    · exact ⟨n, Nat.lt_succ_self n, h, hless⟩

theorem pairs_forall {P : String → String → Prop} {xs : List String} :
    (∀ p ∈ pairs xs, P p.1 p.2) ↔ xs.Pairwise P := by
  induction xs with
  | nil => simp [pairs]
  | cons a rest ih =>
    rw [pairs, List.forall_mem_append, List.forall_mem_map, List.pairwise_cons, ih]

theorem firstConflict_eq_none : firstConflict graph phases = none ↔
    ∀ phase ∈ phases, phase.Pairwise fun u v =>
      (graph.checkCompatibility u v).verdict = .compatible := by
  rw [firstConflict, List.find?_eq_none, List.forall_mem_map, List.forall_mem_flatMap]
  refine forall₂_congr fun phase _ => ?_
  rw [← pairs_forall]
  exact forall₂_congr fun p _ => by simp

theorem compatible_symm (h : (graph.checkCompatibility u v).verdict = .compatible) :
    (graph.checkCompatibility v u).verdict = .compatible := by
  rw [ExtensionCompatibilityGraph.checkCompatibility] at h ⊢
  cases huv : graph.conflict? u v <;> cases hvu : graph.conflict? v u <;> simp_all

end Phases

/-! ### Plans -/

section Plans
variable {R : Runtime} {graph : ExtensionCompatibilityGraph} {manifests : List CatalogManifest}
  {nodes : List CompositionNode} {plan : CompositionPlan} {u v : String}

theorem nodup_phasesFrom {adj : Dict String (List String)} {turns : Nat}
    {inDegree : Dict String Int} : ∀ phase ∈ phasesFrom adj turns inDegree, phase.Nodup := by
  induction turns generalizing inDegree with
  | zero => exact fun phase h => absurd h List.not_mem_nil
  | succ turns ih =>
    rw [phasesFrom]
    split_ifs
    · exact fun phase h => absurd h List.not_mem_nil
    · exact List.forall_mem_cons.mpr ⟨nodup_zeroIn inDegree, ih⟩

/-- Without cycles every node is on a level below their number. -/
theorem exists_inPhase_phases (h : Closed nodes) (hacyclic : ∀ u, ¬ TransGen (Waits nodes) u u)
    (hv : v ∈ nodes.map (·.nodeId)) : ∃ i, InPhase (topologicalPhases nodes) i v := by
  have hgrounded : Grounded (Waits nodes) v := fun u hcycle => absurd hcycle (hacyclic u)
  obtain ⟨i, hi, hlevel⟩ := exists_level (hgrounded.within h.inputs hv)
  rw [List.length_map] at hi
  exact ⟨i, (inPhase_phases h i).mpr ⟨hi, hv, hlevel⟩⟩

theorem composable_iff (h : Closed nodes) :
    Composable graph (nodes.map (·.nodeId)) (Waits nodes) ↔
      hasCycle R nodes = false ∧ firstConflict graph (topologicalPhases nodes) = none := by
  have hcycle : hasCycle R nodes = false ↔ ∀ u, ¬ TransGen (Waits nodes) u u := by
    rw [← Bool.not_eq_true, hasCycle_iff h, not_exists]
  rw [hcycle, firstConflict_eq_none]
  constructor
  · intro hcomposable
    refine ⟨hcomposable.acyclic, fun phase hphase => ?_⟩
    obtain ⟨i, hi⟩ := List.getElem?_of_mem hphase
    refine (nodup_phasesFrom phase hphase).pairwise_of_forall_ne fun u hu v hv hne => ?_
    obtain ⟨-, hu, husucc, hunot⟩ := (inPhase_phases h i).mp ⟨phase, hi, hu⟩
    obtain ⟨-, hv, hvsucc, hvnot⟩ := (inPhase_phases h i).mp ⟨phase, hi, hv⟩
    exact hcomposable.compatible u hu v hv hne fun n =>
      (within_iff husucc hunot).trans (within_iff hvsucc hvnot).symm
  · rintro ⟨hacyclic, hphases⟩
    refine ⟨hacyclic, fun u hu v hv hne hsame => ?_⟩
    obtain ⟨i, phase, hi, hup⟩ := exists_inPhase_phases h hacyclic hu
    have hmem := List.mem_of_getElem? hi
    obtain ⟨hlt, -, hsucc, hnot⟩ := (inPhase_phases h i).mp ⟨phase, hi, hup⟩
    obtain ⟨phase', hi', hvp⟩ := (inPhase_phases h i).mpr
      ⟨hlt, hv, (hsame _).mp hsucc, fun hwithin => hnot ((hsame _).mpr hwithin)⟩
    obtain rfl := Option.some.inj (hi.symm.trans hi')
    have : Std.Symm fun u v => (graph.checkCompatibility u v).verdict = .compatible :=
      ⟨fun _ _ => compatible_symm⟩
    exact (hphases phase hmem).forall hup hvp hne

theorem inPhase_sorted {phases : List (List String)} {i : Nat} :
    InPhase (phases.map (sortBy id)) i v ↔ InPhase phases i v := by
  rw [InPhase, InPhase, List.getElem?_map]
  constructor
  · rintro ⟨_, hphase, hv⟩
    obtain ⟨phase, hget, rfl⟩ := Option.map_eq_some_iff.mp hphase
    exact ⟨phase, hget, (stableSort_sortBy id phase).mem_iff.mp hv⟩
  · rintro ⟨phase, hphase, hv⟩
    exact ⟨_, Option.map_eq_some_iff.mpr ⟨phase, hphase, rfl⟩,
      (stableSort_sortBy id phase).mem_iff.mpr hv⟩

/-- The phases hold every node once. -/
theorem perm_phases (h : Closed nodes) (hacyclic : ∀ u, ¬ TransGen (Waits nodes) u u) :
    ((topologicalPhases nodes).map (sortBy id)).flatten.Perm (nodes.map (·.nodeId)) := by
  refine (List.perm_ext_iff_of_nodup ?_ h.nodup).mpr fun v => ?_
  · rw [List.nodup_flatten, List.forall_mem_map]
    refine ⟨fun phase hphase => (stableSort_sortBy id phase).perm.nodup_iff.mpr
      (nodup_phasesFrom phase hphase), ?_⟩
    rw [List.pairwise_iff_getElem]
    intro i j hi hj hlt v hvi hvj
    have hvi' := inPhase_sorted.mp ⟨_, List.getElem?_eq_getElem hi, hvi⟩
    have hvj' := inPhase_sorted.mp ⟨_, List.getElem?_eq_getElem hj, hvj⟩
    obtain ⟨-, -, hsucc, -⟩ := (inPhase_phases h i).mp hvi'
    obtain ⟨-, -, -, hnot⟩ := (inPhase_phases h j).mp hvj'
    exact hnot (hsucc.mono hlt)
  · rw [← exists_inPhase]
    constructor
    · rintro ⟨i, hi⟩
      exact ((inPhase_phases h i).mp (inPhase_sorted.mp hi)).2.1
    · intro hv
      obtain ⟨i, hi⟩ := exists_inPhase_phases h hacyclic hv
      exact ⟨i, inPhase_sorted.mpr hi⟩

/-- A plan is valid exactly if what is found is composable. -/
theorem plan_valid_iff (hne : manifests ≠ []) (hids : (manifests.map (·.extensionId)).Nodup)
    (h : Planner.plan R graph manifests = some plan) :
    ∃ nodes, Closed nodes ∧ nodes.map (·.nodeId) = manifests.map (·.extensionId) ∧
      Waits nodes = Found manifests ∧
      (plan.valid = true ↔
        Composable graph (manifests.map (·.extensionId)) (Found manifests)) ∧
      (plan.valid = true → plan.executionOrder = (topologicalPhases nodes).map (sortBy id)) := by
  rw [Planner.plan, if_neg hne] at h
  obtain ⟨nodes, hnodes, h⟩ := Option.bind_eq_some_iff.mp h
  have hclosed := closed_nodes hids hnodes
  have hcomposable : Composable graph _ (Waits nodes) ↔ hasCycle R nodes = false ∧
      firstConflict graph (topologicalPhases nodes) = none := composable_iff hclosed
  rw [nodeId_nodes hnodes, waits_nodes hnodes] at hcomposable
  refine ⟨nodes, hclosed, nodeId_nodes hnodes, waits_nodes hnodes, ?_⟩
  rw [hcomposable]
  split_ifs at h with hcycle
  · obtain rfl := Option.some.inj h
    simp [invalidPlan, hcycle]
  · cases hconflict : firstConflict graph (topologicalPhases nodes) with
    | some check =>
      simp only [hconflict, Option.some_inj] at h
      subst h
      simp [invalidPlan]
    | none =>
      simp only [hconflict, Option.some_inj] at h
      subst h
      simpa using hcycle

theorem isSome_plan (hne : manifests ≠ []) :
    (Planner.plan R graph manifests).isSome = true ↔ Answered manifests := by
  rw [← isSome_nodes, Planner.plan, if_neg hne]
  cases manifests.mapM (nodeOf manifests) with
  | none => rfl
  | some nodes =>
    refine iff_of_true ?_ rfl
    dsimp only [Option.bind_eq_bind, Option.bind_some]
    split_ifs
    · rfl
    · split <;> rfl

/-- A plan respects what is declared exactly if that agrees with what is found. -/
theorem respects_iff (hne : manifests ≠ []) (hids : (manifests.map (·.extensionId)).Nodup) :
    (∃ plan, Planner.plan R graph manifests = some plan ∧ Respects graph manifests plan) ↔
      Agrees graph manifests := by
  constructor
  · rintro ⟨plan, hplan, h⟩
    obtain ⟨nodes, hclosed, hnodes, hwaits, hvalid, horder⟩ := plan_valid_iff hne hids hplan
    refine ⟨(isSome_plan hne).mp (Option.isSome_of_eq_some hplan), hvalid.symm.trans h.valid, ?_⟩
    intro hcomposable u v huv
    obtain ⟨i, j, hlt, hi, hj⟩ := h.earlier (hvalid.mpr hcomposable) u v huv
    rw [horder (hvalid.mpr hcomposable), inPhase_sorted, inPhase_phases hclosed, hwaits] at hi hj
    exact ⟨i + 1, hi.2.2.1, fun hwithin => hj.2.2.2 (hwithin.mono hlt)⟩
  · intro h
    obtain ⟨plan, hplan⟩ := Option.isSome_iff_exists.mp ((isSome_plan (R := R) hne).mpr h.answered)
    obtain ⟨nodes, hclosed, hnodes, hwaits, hvalid, horder⟩ := plan_valid_iff hne hids hplan
    refine ⟨plan, hplan, hvalid.trans h.composable, fun hok => ?_, fun hok u v huv => ?_⟩
    · rw [horder hok, ← hnodes]
      refine perm_phases hclosed ?_
      rw [hwaits]
      exact (hvalid.mp hok).acyclic
    · have hacyclic : ∀ u, ¬ TransGen (Waits nodes) u u := by
        rw [hwaits]
        exact (hvalid.mp hok).acyclic
      obtain ⟨n, hu, hv⟩ := h.levels (hvalid.mp hok) u v huv
      obtain ⟨a, ha, rfl, b, hb, rfl, -⟩ := huv
      obtain ⟨i, hi⟩ := exists_inPhase_phases hclosed hacyclic
        (hnodes ▸ List.mem_map_of_mem ha : a.extensionId ∈ nodes.map (·.nodeId))
      obtain ⟨j, hj⟩ := exists_inPhase_phases hclosed hacyclic
        (hnodes ▸ List.mem_map_of_mem hb : b.extensionId ∈ nodes.map (·.nodeId))
      obtain ⟨-, -, hisucc, hinot⟩ := (inPhase_phases hclosed i).mp hi
      obtain ⟨-, -, hjsucc, hjnot⟩ := (inPhase_phases hclosed j).mp hj
      rw [hwaits] at hisucc hinot hjsucc hjnot
      rw [horder hok]
      refine ⟨i, j, ?_, inPhase_sorted.mpr hi, inPhase_sorted.mpr hj⟩
      have hin : i < n := (within_iff hisucc hinot).mp hu
      have hjn : ¬ j < n := fun hlt => hv ((within_iff hjsucc hjnot).mpr hlt)
      omega

end Plans

/-! ### Plain names -/

/-- Names without an `@`, and no dependency that means the id of another manifest. -/
structure Plain (manifests : List CatalogManifest) : Prop where
  named : ∀ m ∈ manifests, ∃ name, m.name = some name ∧ '@' ∉ name.toList
  identified : ∀ m ∈ manifests, m.extensionId ≠ ""
  distinct : (manifests.map (·.name)).Nodup
  apart : ∀ a ∈ manifests, ∀ b ∈ manifests, ∀ dep ∈ b.dependencies,
    a.extensionId = depName dep → a.name = some (depName dep)

section PlainNames
variable {manifests : List CatalogManifest} {graph : ExtensionCompatibilityGraph}

theorem names_iff {dep name : String} (h : '@' ∉ name.toList) :
    Names dep name ↔ depName dep = name := by
  have hall : ∀ c ∈ name.toList, (decide (c ≠ '@')) = true :=
    fun c hc => decide_eq_true fun heq => h (heq ▸ hc)
  rw [depName, ← String.toList_inj, String.toList_ofList]
  constructor
  · rintro (rfl | ⟨version, rfl⟩)
    · rw [← List.append_nil dep.toList, List.takeWhile_append_of_pos hall]
      rfl
    · rw [String.toList_append, String.toList_append, List.append_assoc,
        List.takeWhile_append_of_pos hall]
      simp
  · intro htake
    have hsplit : dep.toList.takeWhile (· ≠ '@') ++ dep.toList.dropWhile (· ≠ '@') = dep.toList :=
      List.takeWhile_append_dropWhile
    rw [htake] at hsplit
    cases hdrop : dep.toList.dropWhile (· ≠ '@') with
    | nil =>
      rw [hdrop, List.append_nil] at hsplit
      exact .inl (String.toList_inj.mp hsplit.symm)
    | cons c version =>
      have hc := List.head?_dropWhile_not (fun c => decide (c ≠ '@')) dep.toList
      rw [hdrop] at hsplit hc
      obtain rfl : c = '@' := by simpa using hc
      refine .inr ⟨String.ofList version, String.toList_inj.mp ?_⟩
      rw [String.toList_append, String.toList_append, String.toList_ofList, ← hsplit]
      simp

theorem Plain.finds_iff (h : Plain manifests) {b a : CatalogManifest} (hb : b ∈ manifests)
    {dep : String} (hdep : dep ∈ b.dependencies) :
    Finds manifests dep a ↔ a ∈ manifests ∧ a.name = some (depName dep) := by
  constructor
  · rintro ⟨before, after, hsplit, ⟨name, hname, hit⟩, -⟩
    have ha : a ∈ manifests := hsplit ▸ List.mem_append_right _ (List.mem_cons_self ..)
    refine ⟨ha, ?_⟩
    rcases hit with rfl | hid
    · exact hname
    · exact h.apart a ha b hb dep hdep hid
  · rintro ⟨ha, hname⟩
    obtain ⟨before, after, rfl⟩ := List.append_of_mem ha
    refine ⟨before, after, rfl, ⟨_, hname, .inl rfl⟩, fun other hother => ?_⟩
    have hmem : other ∈ before ++ a :: after := List.mem_append_left _ hother
    have hdistinct := h.distinct
    rw [List.map_append, List.map_cons] at hdistinct
    have hne : other.name ≠ a.name := fun heq =>
      (List.disjoint_of_nodup_append hdistinct) (List.mem_map_of_mem hother)
        (heq ▸ List.mem_cons_self ..)
    obtain ⟨name, hother', -⟩ := h.named other hmem
    refine ⟨name, hother', ?_, ?_⟩
    · rintro rfl
      exact hne (hother'.trans hname.symm)
    · exact fun hid => hne ((h.apart other hmem b hb dep hdep hid).trans hname.symm)

theorem Plain.found_eq (h : Plain manifests) : Found manifests = Declared manifests := by
  funext u v
  refine propext ⟨?_, ?_⟩
  · rintro ⟨b, hb, rfl, dep, hdep, a, hfinds, rfl, -⟩
    obtain ⟨ha, hname⟩ := (h.finds_iff hb hdep).mp hfinds
    obtain ⟨name, hname', hplain⟩ := h.named a ha
    obtain rfl := Option.some.inj (hname'.symm.trans hname)
    refine ⟨a, ha, rfl, b, hb, rfl, dep, hdep, ?_⟩
    rw [hname, Option.getD_some]
    exact (names_iff hplain).mpr rfl
  · rintro ⟨a, ha, rfl, b, hb, rfl, dep, hdep, hnames⟩
    obtain ⟨name, hname, hplain⟩ := h.named a ha
    rw [hname, Option.getD_some, names_iff hplain] at hnames
    refine ⟨b, hb, rfl, dep, hdep, a, (h.finds_iff hb hdep).mpr ⟨ha, ?_⟩, rfl, h.identified a ha⟩
    rw [hnames, hname]

/-- With plain names a plan respects what is declared. -/
theorem Plain.agrees (h : Plain manifests) : Agrees graph manifests where
  answered b _ dep _ := .inr fun m hm hnone => by
    obtain ⟨name, hname, -⟩ := h.named m hm
    rw [hnone] at hname
    cases hname
  composable := by rw [h.found_eq]
  levels hcomposable u v huv := by
    rw [← h.found_eq] at huv
    have hgrounded : Grounded (Found manifests) u :=
      fun w hcycle => absurd hcycle (hcomposable.acyclic w)
    obtain ⟨i, -, hsucc, hnot⟩ := exists_level (hgrounded.within
      (fun _ _ h => found_mem h) (found_mem huv))
    exact ⟨i + 1, hsucc, fun hwithin => hnot (within_succ.mp hwithin u huv)⟩

end PlainNames

/-! ### A package with a scope -/

def asGiven : Runtime := ⟨id, fun _ => "", id, List.Perm.refl⟩

def noEdges : ExtensionCompatibilityGraph := ⟨.empty, .empty, []⟩

def catalogManifest (extensionId name : String) (dependencies : List String) : CatalogManifest where
  extensionId := extensionId
  packageName := name
  packageVersion := "1.0.0"
  packageHash := ""
  capabilityClass := .staticAnalyzer
  trustZone := .sandboxExperimental
  status := .admitted
  name := some name
  dependencies := dependencies

def plotting : List CatalogManifest :=
  [catalogManifest "catalog_app" "app" ["lib@1.0.0"], catalogManifest "catalog_lib" "lib" []]

/-- The names of an app and the library it depends on are plain. -/
theorem respects_plotting :
    ∃ plan, Planner.plan asGiven noEdges plotting = some plan ∧
      Respects noEdges plotting plan := by
  refine (respects_iff (List.cons_ne_nil _ _) (by decide)).mpr (Plain.agrees ?_)
  exact ⟨by decide, by decide, by decide, by decide⟩

def onScope : List CatalogManifest :=
  [catalogManifest "catalog_app" "app" ["@acme/lib@1.0.0"],
    catalogManifest "catalog_lib" "@acme/lib" []]

/-- Both come in one phase. -/
theorem not_respects_onScope : ¬ ∃ plan, Planner.plan asGiven noEdges onScope = some plan ∧
    Respects noEdges onScope plan := by
  rintro ⟨plan, hplan, h⟩
  have hrun : (Planner.plan asGiven noEdges onScope).map
      (fun plan => (plan.valid, plan.executionOrder)) =
        some (true, [["catalog_app", "catalog_lib"]]) := by
    decide +kernel
  rw [hplan, Option.map_some, Option.some_inj, Prod.mk.injEq] at hrun
  have hdeclared : Declared onScope "catalog_lib" "catalog_app" :=
    ⟨_, List.mem_cons_of_mem _ (List.mem_singleton_self _), rfl, _, List.mem_cons_self .., rfl, _,
      List.mem_singleton_self _, .inr ⟨"1.0.0", rfl⟩⟩
  obtain ⟨i, j, hlt, hi, hj⟩ := h.earlier hrun.1 _ _ hdeclared
  have hone := hj.lt
  rw [hrun.2, List.length_singleton] at hone
  omega

end PiPlatform.Interoperability.Planner
