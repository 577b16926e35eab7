import PiPlatform.EventFabric.Schema.Chains
import PiPlatform.Library.ShortestPath

/-! Which migration path is found.

A way in the graph of the registered steps is a chain of them, so what is true of breadth-first
searches in general is true of `find_path`: it finds a shortest chain within the hop limit, or
there is none. -/
namespace PiPlatform.EventFabric.Schema

open Library
open MigrationDAG (ofSteps)

variable {V : Type}

theorem path_graph_iff {steps chain : List (MigrationStep V)} {start finish : String} :
    (ofSteps steps).graph.Path start chain finish ↔
      (∀ s ∈ chain, s ∈ steps) ∧ Leads chain start finish := by
  induction chain generalizing start with
  | nil => exact (and_iff_right (List.forall_mem_nil _)).symm
  | cons step chain ih =>
    show step ∈ (ofSteps steps).graph.edgesFrom start ∧
      (ofSteps steps).graph.Path step.toFingerprint chain finish ↔ _
    rw [ih, MigrationDAG.edgesFrom_graph, stepsFrom_ofSteps, List.mem_filter, List.forall_mem_cons,
      decide_eq_true_iff]
    constructor
    · intro ⟨⟨hmem, hfrom⟩, hrest, hleads⟩
      exact ⟨⟨hmem, hrest⟩, hfrom, hleads⟩
    · intro ⟨⟨hmem, hrest⟩, hfrom, hleads⟩
      exact ⟨⟨hmem, hfrom⟩, hrest, hleads⟩

/-- The search finds nothing exactly when no chain of registered steps is within the hop limit,
and otherwise a chain of them that no other is shorter than. -/
theorem findPath_finds_shortest (steps : List (MigrationStep V)) {fromFp toFp : String}
    (hne : fromFp ≠ toFp) {maxHops : Int} (hhops : 1 ≤ maxHops) :
    ((ofSteps steps).findPath fromFp toFp maxHops = [] ↔
      ¬ ∃ chain : List (MigrationStep V), (∀ s ∈ chain, s ∈ steps) ∧ Leads chain fromFp toFp ∧
        (chain.length : Int) ≤ maxHops) ∧
    ((ofSteps steps).findPath fromFp toFp maxHops ≠ [] →
      (∀ s ∈ (ofSteps steps).findPath fromFp toFp maxHops, s ∈ steps) ∧
        Leads ((ofSteps steps).findPath fromFp toFp maxHops) fromFp toFp ∧
        ∀ chain : List (MigrationStep V), (∀ s ∈ chain, s ∈ steps) → Leads chain fromFp toFp →
          ((ofSteps steps).findPath fromFp toFp maxHops).length ≤ chain.length) := by
  rw [MigrationDAG.findPath]
  have hshortest := (ofSteps steps).graph.findPath_shortest hne hhops
  refine ⟨hshortest.none_iff.trans (not_congr (exists_congr fun chain => ?_)), fun hfound => ?_⟩
  · rw [path_graph_iff, and_assoc]
  · obtain ⟨hmem, hleads⟩ := path_graph_iff.mp (hshortest.path hfound)
    exact ⟨hmem, hleads, fun chain hchain hleads' =>
      hshortest.minimal hfound chain (path_graph_iff.mpr ⟨hchain, hleads'⟩)⟩

theorem two_steps_found :
    ((ofSteps (addSteps 2)).findPath "v0" "v2" 5 = [] ↔
      ¬ ∃ chain : List (MigrationStep String), (∀ s ∈ chain, s ∈ addSteps 2) ∧
        Leads chain "v0" "v2" ∧ (chain.length : Int) ≤ 5) ∧
    ((ofSteps (addSteps 2)).findPath "v0" "v2" 5 ≠ [] →
      (∀ s ∈ (ofSteps (addSteps 2)).findPath "v0" "v2" 5, s ∈ addSteps 2) ∧
        Leads ((ofSteps (addSteps 2)).findPath "v0" "v2" 5) "v0" "v2" ∧
        ∀ chain : List (MigrationStep String), (∀ s ∈ chain, s ∈ addSteps 2) →
          Leads chain "v0" "v2" →
          ((ofSteps (addSteps 2)).findPath "v0" "v2" 5).length ≤ chain.length) :=
  findPath_finds_shortest (addSteps 2) (by decide) (by decide)

end PiPlatform.EventFabric.Schema
