import PiPlatform.Interoperability.CompatibilityGraph
import PiPlatform.Library.Worklist

/-! What an extension depends on, directly or not. -/
namespace PiPlatform.Interoperability.Compatibility.ExtensionCompatibilityGraph

open Relation (ReflTransGen)
open Library (Dict Worklist)

section Model
variable (g : ExtensionCompatibilityGraph)

/-- The targets of an extension's dependency edges. -/
def dependsOn (extensionId : String) : List String :=
  (g.typed extensionId .dependsOn).map CompatibilityEdge.targetId

/-- `transitive_closure(extension_id)`, if so many turns are enough. -/
def transitiveClosure (turns : Nat) (extensionId : String) : Option (List String) :=
  Worklist.run .lateStack g.dependsOn turns (Worklist.start extensionId)

/-- All that edges are declared from and to. -/
def endpoints : List String :=
  g.edges.items.flatMap fun item => item.1 :: item.2.map CompatibilityEdge.targetId

end Model

variable (g : ExtensionCompatibilityGraph) {x y : String}

theorem mem_dependsOn :
    y ∈ g.dependsOn x ↔ ∃ edge ∈ g.edgesOf x, edge.edgeType = .dependsOn ∧ edge.targetId = y := by
  simp only [dependsOn, typed, List.mem_map, List.mem_filter, decide_eq_true_eq, and_assoc]

theorem mem_endpoints (h : y ∈ g.dependsOn x) : y ∈ g.endpoints := by
  obtain ⟨edge, hedge, -, rfl⟩ := g.mem_dependsOn.mp h
  cases hget : g.edges.get? x with
  | none =>
    rw [edgesOf, hget] at hedge
    cases hedge
  | some edges =>
    rw [edgesOf, hget] at hedge
    exact List.mem_flatMap.mpr ⟨(x, edges), g.edges.mem_items.mpr hget,
      List.mem_cons_of_mem _ (List.mem_map_of_mem hedge)⟩

/-- In every graph the search ends, and has found each extension that is reached by edges that
depend, and no other. -/
theorem transitiveClosure_exact (x : String) :
    ∃ turns closure, (∀ k, turns ≤ k → g.transitiveClosure k x = some closure) ∧
      closure.Nodup ∧
      ∀ y, y ∈ closure ↔
        ReflTransGen (fun a b => ∃ edge ∈ g.edgesOf a,
          edge.edgeType = .dependsOn ∧ edge.targetId = b) x y := by
  have hclosed : ∀ a ∈ x :: g.endpoints, ∀ b ∈ g.dependsOn a, b ∈ x :: g.endpoints :=
    fun _ _ _ hb => List.mem_cons_of_mem x (g.mem_endpoints hb)
  obtain ⟨turns, closure, hrun, hdistinct, hexact⟩ :=
    Worklist.exists_run .lateStack hclosed List.mem_cons_self
  refine ⟨turns, closure, hrun, hdistinct, fun y => (hexact y).trans ?_⟩
  rw [Worklist.Leads]
  have hedges : (fun a b => b ∈ g.dependsOn a) = fun a b => ∃ edge ∈ g.edgesOf a,
      edge.edgeType = .dependsOn ∧ edge.targetId = b := by
    funext a b
    exact propext g.mem_dependsOn
  rw [hedges]

end PiPlatform.Interoperability.Compatibility.ExtensionCompatibilityGraph
