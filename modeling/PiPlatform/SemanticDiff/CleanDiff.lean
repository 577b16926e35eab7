import Mathlib.Algebra.Field.Rat
import Mathlib.Algebra.Order.Ring.Rat
import PiPlatform.SemanticDiff.Exchange

/-! When a clean diff means that nothing changed.

Traces whose texts `method:endpoint` coincide stand for each other, edges are told apart by a text
of their ends, auth invariants by the number of endpoints they bind, and two snapshots without
traces are not compared at all. -/
namespace PiPlatform.SemanticDiff

open Library

/-! ### No change -/

/-- Each side has a match for everything on the other. -/
def Matched {α : Type} (P : α → α → Prop) (xs ys : List α) : Prop :=
  (∀ x ∈ xs, ∃ y ∈ ys, P x y) ∧ ∀ y ∈ ys, ∃ x ∈ xs, P x y

theorem Matched.refl {α : Type} {P : α → α → Prop} (hP : ∀ x, P x x) (xs : List α) :
    Matched P xs xs :=
  ⟨fun x hx => ⟨x, hx, hP x⟩, fun x hx => ⟨x, hx, hP x⟩⟩

/-- The same trace, its fields as a set. -/
structure SameTrace {R : Type} (b m : SemanticIRTrace R) : Prop where
  method : b.method = m.method
  endpoint : b.endpointTemplate = m.endpointTemplate
  fields : ∀ x, x ∈ b.fields.map (fun f => (f.path, f.inferredType)) ↔
    x ∈ m.fields.map fun f => (f.path, f.inferredType)
  mutationClass : b.mutationClass = m.mutationClass
  replayClass : b.replayClass = m.replayClass

/-- The same invariant, its endpoints as a set. -/
structure SameInvariant (b m : AuthInvariant) : Prop where
  id : b.invariantId = m.invariantId
  rotationClass : b.rotationClass = m.rotationClass
  affected : ∀ e, e ∈ b.affectedEndpoints ↔ e ∈ m.affectedEndpoints

/-- The same edges and nodes. -/
structure SameGraph (b m : DependencyGraph) : Prop where
  edges : ∀ e, e ∈ b.edges ↔ e ∈ m.edges
  nodes : ∀ n, n ∈ b.nodes ↔ n ∈ m.nodes

/-- The same snapshot, however its parts are listed. -/
structure Same {R : Type} (b m : FullSnapshot R) : Prop where
  traces : Matched SameTrace b.traces m.traces
  graph : SameGraph b.graph m.graph
  auth : Matched SameInvariant b.auth m.auth

/-! ### What is hidden -/

section Hidden
variable {R : Type} [Floats R]

/-- The text of the trace leads to it, and on the other side to a trace of the same endpoint. -/
def Shown (own others : List (SemanticIRTrace R)) (t : SemanticIRTrace R) : Prop :=
  (traceMap own).get? (traceKey t) = some t ∧
    ∃ t', (traceMap others).get? (traceKey t) = some t' ∧ t'.method = t.method ∧
      t'.endpointTemplate = t.endpointTemplate

/-- What the comparisons cannot tell is the same. -/
structure Unhidden (b m : FullSnapshot R) : Prop where
  baseline : ∀ t ∈ b.traces, ¬ Shown b.traces m.traces t → ∃ t' ∈ m.traces, SameTrace t t'
  modified : ∀ t ∈ m.traces, ¬ Shown m.traces b.traces t → ∃ t' ∈ b.traces, SameTrace t' t
  edges : ∀ e, e ∈ b.graph.edges ↔ e ∈ m.graph.edges
  auth : Matched SameInvariant b.auth m.auth

/-- Nothing differs where the comparison does not look. -/
structure Exposed (b m : FullSnapshot R) : Prop where
  /-- Without traces nothing is compared. -/
  untraced : b.traces = [] → m.traces = [] →
    SameGraph b.graph m.graph ∧ Matched SameInvariant b.auth m.auth
  unhidden : Alike b m → Unhidden b m

omit [Floats R] in
theorem types_of_agrees {b m : List (SemanticField R)} (hb : (b.map (·.path)).Nodup)
    (h : (fieldMap b).Agrees (fun f f' => f.inferredType = f'.inferredType) (fieldMap m))
    {x : String × String} (hx : x ∈ b.map fun f => (f.path, f.inferredType)) :
    x ∈ m.map fun f => (f.path, f.inferredType) := by
  obtain ⟨f, hf, rfl⟩ := List.mem_map.mp hx
  obtain ⟨f', hf', halike⟩ := h.get? (Dict.get?_ofList_keyed_of_nodup hb hf)
  obtain ⟨hmem, hpath⟩ := Dict.get?_ofList_keyed hf'
  exact List.mem_map.mpr ⟨f', hmem, by rw [hpath, halike]⟩

theorem sameTrace_of_alike {b m : SemanticIRTrace R} (hb : (b.fields.map (·.path)).Nodup)
    (hm : (m.fields.map (·.path)).Nodup) (hmethod : b.method = m.method)
    (hendpoint : b.endpointTemplate = m.endpointTemplate) (h : TraceAlike b m) :
    SameTrace b m := by
  have htypes : (fieldMap b.fields).Agrees (fun f f' => f.inferredType = f'.inferredType)
      (fieldMap m.fields) :=
    ⟨h.fields.keys, fun k f f' hf hf' => (h.fields.values k f f' hf hf').1⟩
  have hback : (fieldMap m.fields).Agrees (fun f f' => f.inferredType = f'.inferredType)
      (fieldMap b.fields) :=
    ⟨h.fields.swap.keys, fun k f f' hf hf' => (h.fields.values k f' f hf' hf).1.symm⟩
  exact ⟨hmethod, hendpoint, fun x => ⟨types_of_agrees hb htypes, types_of_agrees hm hback⟩,
    h.mutationClass, h.replayClass⟩

variable {round : R → R} {bounds : DiffBounds} {reportId : String} {b m : FullSnapshot R}

theorem Alike.shown (h : Alike b m) {t : SemanticIRTrace R} (ht : t ∈ b.traces)
    (hshown : Shown b.traces m.traces t) : ∃ t' ∈ m.traces, SameTrace t t' := by
  obtain ⟨hown, t', hother, hmethod, hendpoint⟩ := hshown
  have ht' : t' ∈ m.traces := (Dict.get?_ofList_keyed hother).1
  exact ⟨t', ht', sameTrace_of_alike (b.paths t ht) (m.paths t' ht') hmethod.symm hendpoint.symm
    (h.traces.values _ t t' hown hother)⟩

theorem Alike.shown_modified (h : Alike b m) {t : SemanticIRTrace R} (ht : t ∈ m.traces)
    (hshown : Shown m.traces b.traces t) : ∃ t' ∈ b.traces, SameTrace t' t := by
  obtain ⟨hown, t', hother, hmethod, hendpoint⟩ := hshown
  have ht' : t' ∈ b.traces := (Dict.get?_ofList_keyed hother).1
  exact ⟨t', ht', sameTrace_of_alike (b.paths t' ht') (m.paths t ht) hmethod hendpoint
    (h.traces.values _ t' t hother hown)⟩

/-- What is alike under its keys and hides nothing is the same. -/
theorem Alike.same (h : Alike b m) (hunhidden : Unhidden b m) : Same b m := by
  refine ⟨⟨fun t ht => ?_, fun t ht => ?_⟩, ⟨hunhidden.edges, h.nodes⟩, hunhidden.auth⟩
  · by_cases hshown : Shown b.traces m.traces t
    · exact h.shown ht hshown
    · exact hunhidden.baseline t ht hshown
  · by_cases hshown : Shown m.traces b.traces t
    · exact h.shown_modified ht hshown
    · exact hunhidden.modified t ht hshown

omit [Floats R] in
theorem Same.unhidden (h : Same b m) : Unhidden b m :=
  ⟨fun t ht _ => h.traces.1 t ht, fun t ht _ => h.traces.2 t ht, h.graph.edges, h.auth⟩

/-- With bounds that cut nothing off, a clean diff means that nothing changed, and the added and
the removed change places with the sides, exactly when what goes uncompared is the same. -/
theorem clean_means_unchanged_iff (h : Untruncated round bounds reportId b.snapshot m.snapshot)
    (h' : Untruncated round bounds reportId m.snapshot b.snapshot) :
    ((Clean (diff round bounds reportId b.snapshot m.snapshot) → Same b m) ∧
      OneForOne (diff round bounds reportId b.snapshot m.snapshot)
        (diff round bounds reportId m.snapshot b.snapshot) ∧
      OneForOne (diff round bounds reportId m.snapshot b.snapshot)
        (diff round bounds reportId b.snapshot m.snapshot)) ↔
    Exposed b m := by
  rw [and_iff_left ⟨diff_oneForOne h h', diff_oneForOne h' h⟩, clean_diff_iff h]
  constructor
  · intro hsame
    refine ⟨fun hb hm => ?_, fun halike => (hsame (Or.inr halike)).unhidden⟩
    have huntraced := hsame (Or.inl ⟨hb, hm⟩)
    exact ⟨huntraced.graph, huntraced.auth⟩
  · intro hexposed hclean
    rcases hclean with htraces | halike
    · obtain ⟨hgraph, hauth⟩ := hexposed.untraced htraces.1 htraces.2
      refine ⟨?_, hgraph, hauth⟩
      rw [htraces.1, htraces.2]
      exact Matched.refl (fun t => ⟨rfl, rfl, fun _ => Iff.rfl, rfl, rfl⟩) []
    · exact halike.same (hexposed.unhidden halike)

/-- Bounds with room for everything cut nothing off. -/
theorem untruncated_of_room (h : (roomFor b m).Within bounds) :
    Untruncated round bounds reportId b.snapshot m.snapshot := by
  intro larger hlarger
  have hroom : (roomFor b m).Within larger :=
    ⟨h.endpoint.trans hlarger.endpoint, h.dependency.trans hlarger.dependency,
      h.auth.trans hlarger.auth, h.replay.trans hlarger.replay⟩
  by_cases htraces : b.traces = [] ∧ m.traces = []
  · rw [diff_of_no_traces htraces, diff_of_no_traces htraces]
  · rw [diff_of_traces htraces, diff_of_traces htraces]
    -- a report reads the bounds only through its deltas
    simp only [assembleReport, FullSnapshot.snapshot,
      computeEndpointDeltas_eq b.traces m.traces h.endpoint,
      computeEndpointDeltas_eq b.traces m.traces hroom.endpoint,
      computeDependencyDeltas_eq b.graph m.graph h.dependency,
      computeDependencyDeltas_eq b.graph m.graph hroom.dependency,
      computeAuthDeltas_eq b.auth m.auth h.auth, computeAuthDeltas_eq b.auth m.auth hroom.auth,
      computeReplaySurfaceDeltas_eq b.traces m.traces h.replay,
      computeReplaySurfaceDeltas_eq b.traces m.traces hroom.replay]

end Hidden

/-! ### An endpoint bound anew -/

instance : Floats ℚ where
  decLT := inferInstance

def listUsers : SemanticIRTrace ℚ :=
  ⟨"/users", "GET", [⟨"id", "integer", 1⟩], "IDEMPOTENT_READ", "PURE_REPLAYABLE", false, false⟩

/-- One trace, and a token that binds these endpoints. -/
def binding (endpoints : List String) : FullSnapshot ℚ where
  traces := [listUsers]
  graph := ⟨[], ["/users"]⟩
  auth := [⟨"token", "STATIC", endpoints⟩]
  executionId := "run"
  distinct := List.nodup_singleton _
  paths := by decide

theorem binding_untruncated (es es' : List String) :
    Untruncated id .default "diff" (binding es).snapshot (binding es').snapshot := by
  refine untruncated_of_room ⟨?_, ?_, ?_, ?_⟩
  · show (5 : Int) ≤ 512
    decide
  · show (dependencyRoom ⟨[], ["/users"]⟩ ⟨[], ["/users"]⟩ : Int) ≤ 512
    decide +kernel
  · show (2 : Int) ≤ 256
    decide
  · show (1 : Int) ≤ 512
    decide

theorem binding_alike (e e' : String) : Alike (binding [e]) (binding [e']) where
  traces := by
    refine Dict.Agrees.refl _ fun k t _ => ⟨Dict.Agrees.refl _ fun path f _ => ⟨rfl, ?_⟩,
      rfl, rfl, rfl, rfl⟩
    have hsame : f.confidence - f.confidence = 0 := sub_self _
    rw [far, hsame]
    decide +kernel
  edges _ := Iff.rfl
  nodes _ := Iff.rfl
  auth := by
    have hkeys : ∀ es k, (invariantMap (binding es).auth).contains k = true ↔ k ∈ ["token"] :=
      fun _ _ => Dict.contains_ofList_keyed
    refine ⟨fun k => (hkeys [e] k).trans (hkeys [e'] k).symm, fun k v w hv hw => ?_⟩
    obtain rfl := List.mem_singleton.mp (Dict.get?_ofList_keyed hv).1
    obtain rfl := List.mem_singleton.mp (Dict.get?_ofList_keyed hw).1
    exact ⟨rfl, rfl⟩

/-- The same binding on both sides: the diff is clean, and nothing changed. -/
theorem same_binding_unchanged :
    Clean (diff id .default "diff" (binding ["/users"]).snapshot (binding ["/users"]).snapshot) ∧
    ((Clean (diff id .default "diff" (binding ["/users"]).snapshot (binding ["/users"]).snapshot) →
        Same (binding ["/users"]) (binding ["/users"])) ∧
      OneForOne
        (diff id .default "diff" (binding ["/users"]).snapshot (binding ["/users"]).snapshot)
        (diff id .default "diff" (binding ["/users"]).snapshot (binding ["/users"]).snapshot) ∧
      OneForOne
        (diff id .default "diff" (binding ["/users"]).snapshot (binding ["/users"]).snapshot)
        (diff id .default "diff" (binding ["/users"]).snapshot (binding ["/users"]).snapshot)) := by
  have hexposed : Exposed (binding ["/users"]) (binding ["/users"]) :=
    { untraced := fun htraces _ => absurd htraces (List.cons_ne_nil _ _)
      unhidden := fun _ =>
        { baseline := fun t ht _ => ⟨t, ht, rfl, rfl, fun _ => Iff.rfl, rfl, rfl⟩
          modified := fun t ht _ => ⟨t, ht, rfl, rfl, fun _ => Iff.rfl, rfl, rfl⟩
          edges := fun _ => Iff.rfl
          auth := Matched.refl (fun _ => ⟨rfl, rfl, fun _ => Iff.rfl⟩) _ } }
  exact ⟨(clean_diff_iff (binding_untruncated _ _)).mpr (Or.inr (binding_alike _ _)),
    (clean_means_unchanged_iff (binding_untruncated _ _) (binding_untruncated _ _)).mpr hexposed⟩

/-- The token binds another endpoint, one for one. -/
theorem rebound_endpoint_hidden :
    Untruncated id .default "diff" (binding ["/users"]).snapshot (binding ["/admin"]).snapshot ∧
    Untruncated id .default "diff" (binding ["/admin"]).snapshot (binding ["/users"]).snapshot ∧
    ¬ (Clean (diff id .default "diff" (binding ["/users"]).snapshot
        (binding ["/admin"]).snapshot) → Same (binding ["/users"]) (binding ["/admin"])) := by
  refine ⟨binding_untruncated _ _, binding_untruncated _ _, fun h => ?_⟩
  have hclean := (clean_diff_iff (binding_untruncated ["/users"] ["/admin"])).mpr
    (Or.inr (binding_alike "/users" "/admin"))
  obtain ⟨inv, hinv, hsame⟩ := (h hclean).auth.1 _ (List.mem_singleton_self _)
  obtain rfl := List.mem_singleton.mp hinv
  exact absurd ((hsame.affected "/users").mp (List.mem_singleton_self _)) (by decide)

end PiPlatform.SemanticDiff
