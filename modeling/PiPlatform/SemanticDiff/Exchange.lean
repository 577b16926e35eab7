import PiPlatform.SemanticDiff.Completeness

/-! Swapping the sides of a diff.

What one diff has as added the other has as removed: endpoints, dependencies and auth invariants
in the same order, fields endpoint by endpoint. -/
namespace PiPlatform.SemanticDiff

open Library

/-! ### Added and removed -/

section Picks
variable {R : Type}

def EndpointDelta.added? (d : EndpointDelta R) : Option (String × String × String) :=
  if d.presence = .added then some (d.endpointTemplate, d.method, d.modifiedMutationClass) else none

def EndpointDelta.removed? (d : EndpointDelta R) : Option (String × String × String) :=
  if d.presence = .removed then some (d.endpointTemplate, d.method, d.baselineMutationClass)
  else none

def FieldDelta.added? (d : FieldDelta R) : Option String :=
  if d.deltaType = .added then some d.fieldPath else none

def FieldDelta.removed? (d : FieldDelta R) : Option String :=
  if d.deltaType = .removed then some d.fieldPath else none

def DependencyDelta.added? : DependencyDelta → Option (StateEdge ⊕ String)
  | .edgeAdded e => some (.inl e)
  | .nodeAdded n => some (.inr n)
  | _ => none

def DependencyDelta.removed? : DependencyDelta → Option (StateEdge ⊕ String)
  | .edgeRemoved e => some (.inl e)
  | .nodeRemoved n => some (.inr n)
  | _ => none

def AuthDelta.added? (d : AuthDelta) : Option (String × Int) :=
  if d.deltaType = .added then some (d.invariantId, d.affectedEndpointsDelta) else none

def AuthDelta.removed? (d : AuthDelta) : Option (String × Int) :=
  if d.deltaType = .removed then some (d.invariantId, -d.affectedEndpointsDelta) else none

/-- The paths that the pick finds, each with the endpoint. -/
def EndpointDelta.fieldPaths (pick : FieldDelta R → Option String) (d : EndpointDelta R) :
    List (String × String) :=
  (d.fieldDeltas.filterMap pick).map fun path => (d.method ++ ":" ++ d.endpointTemplate, path)

/-- All that is added in `r` is removed in `s`. -/
structure OneForOne (r s : SemanticDiffReport R) : Prop where
  endpoints : r.endpointDeltas.filterMap EndpointDelta.added? =
    s.endpointDeltas.filterMap EndpointDelta.removed?
  fields : (r.endpointDeltas.flatMap (EndpointDelta.fieldPaths FieldDelta.added?)).Perm
    (s.endpointDeltas.flatMap (EndpointDelta.fieldPaths FieldDelta.removed?))
  dependencies : r.dependencyDeltas.filterMap DependencyDelta.added? =
    s.dependencyDeltas.filterMap DependencyDelta.removed?
  auth : r.authDeltas.filterMap AuthDelta.added? = s.authDeltas.filterMap AuthDelta.removed?

end Picks

/-! ### Endpoints -/

section Endpoints
variable {R : Type} [Floats R] (b m : List (SemanticIRTrace R))

theorem comparedEndpoint_filterMap {γ : Type} (pick : EndpointDelta R → Option γ)
    (hpick : ∀ d, d.presence = .unchanged → pick d = none) (base mod : SemanticIRTrace R) :
    (comparedEndpoint base mod).filterMap pick = [] := by
  rw [comparedEndpoint]
  split_ifs
  · exact List.filterMap_cons_none (hpick _ rfl)
  · rfl

theorem added_endpointChanges : (endpointChanges b m).filterMap EndpointDelta.added? =
    onlyIn (traceMap m) (traceMap b) fun _ t => (t.endpointTemplate, t.method,
      t.mutationClass) := by
  have hchanged := comparedEndpoint_filterMap (R := R) EndpointDelta.added?
    fun d hd => if_neg (by rw [hd]; decide)
  rw [endpointChanges, List.filterMap_append]
  exact Eq.trans (congrArg₂ (· ++ ·) (filterMap_onlyIn_none fun _ _ => rfl)
    (filterMap_comparedWith_some (fun _ _ => rfl) fun _ mod base => hchanged base mod))
    (List.nil_append _)

theorem removed_endpointChanges : (endpointChanges b m).filterMap EndpointDelta.removed? =
    onlyIn (traceMap b) (traceMap m) fun _ t => (t.endpointTemplate, t.method,
      t.mutationClass) := by
  have hchanged := comparedEndpoint_filterMap (R := R) EndpointDelta.removed?
    fun d hd => if_neg (by rw [hd]; decide)
  rw [endpointChanges, List.filterMap_append]
  exact Eq.trans (congrArg₂ (· ++ ·) (filterMap_onlyIn_some fun _ _ => rfl)
    (filterMap_comparedWith_none (fun _ _ => rfl) fun _ mod base => hchanged base mod))
    (List.append_nil _)

/-! ### Fields -/

theorem comparedField_filterMap {γ : Type} {pick : FieldDelta R → Option γ}
    (htype : ∀ key bf mf, pick (typeChanged key bf mf) = none)
    (hconfidence : ∀ key bf mf, pick (confidenceChanged key bf mf) = none) (key : String)
    (bf mf : SemanticField R) : (comparedField key bf mf).filterMap pick = [] := by
  rw [comparedField, List.filterMap_append, List.append_eq_nil_iff]
  constructor
  · split_ifs
    · exact List.filterMap_cons_none (htype key bf mf)
    · rfl
  · split_ifs
    · exact List.filterMap_cons_none (hconfidence key bf mf)
    · rfl

theorem added_fieldChanges (bf mf : List (SemanticField R)) :
    (fieldChanges bf mf).filterMap FieldDelta.added? =
      onlyIn (fieldMap mf) (fieldMap bf) fun key _ => key := by
  rw [fieldChanges, List.filterMap_append]
  exact Eq.trans (congrArg₂ (· ++ ·) (filterMap_comparedWith_none (fun _ _ => rfl)
    (comparedField_filterMap (fun _ _ _ => rfl) fun _ _ _ => rfl))
    (filterMap_onlyIn_some fun _ _ => rfl)) (List.nil_append _)

theorem removed_fieldChanges (bf mf : List (SemanticField R)) :
    (fieldChanges bf mf).filterMap FieldDelta.removed? =
      onlyIn (fieldMap bf) (fieldMap mf) fun key _ => key := by
  rw [fieldChanges, List.filterMap_append]
  exact Eq.trans (congrArg₂ (· ++ ·) (filterMap_comparedWith_some (fun _ _ => rfl)
    (comparedField_filterMap (fun _ _ _ => rfl) fun _ _ _ => rfl))
    (filterMap_onlyIn_none fun _ _ => rfl)) (List.append_nil _)

theorem comparedEndpoint_fieldPaths (pick : FieldDelta R → Option String)
    (base mod : SemanticIRTrace R) :
    (comparedEndpoint base mod).flatMap (EndpointDelta.fieldPaths pick) =
      ((fieldChanges base.fields mod.fields).filterMap pick).map fun path =>
        (traceKey mod, path) := by
  rw [comparedEndpoint]
  split_ifs with h
  · exact List.flatMap_singleton ..
  · rw [not_or, not_not] at h
    rw [h.1]
    rfl

/-- The field paths of a diff, endpoint by endpoint of the modified side. -/
theorem fieldPaths_endpointChanges (pick : FieldDelta R → Option String) :
    (endpointChanges b m).flatMap (EndpointDelta.fieldPaths pick) =
      (traceMap m).items.flatMap fun p => ((traceMap b).get? p.1).elim [] fun base =>
        ((fieldChanges base.fields p.2.fields).filterMap pick).map fun path => (p.1, path) := by
  have hremoved : (onlyIn (traceMap b) (traceMap m) fun _ t => removedEndpoint t).flatMap
      (EndpointDelta.fieldPaths pick) = [] := by
    rw [onlyIn, List.flatMap_assoc, List.flatMap_eq_nil_iff]
    intro p _
    split_ifs
    · rfl
    · rfl
  rw [endpointChanges, List.flatMap_append, hremoved, List.nil_append, comparedWith,
    List.flatMap_assoc]
  refine List.flatMap_congr fun p hp => ?_
  have hkey : traceKey p.2 = p.1 := (Dict.get?_ofList_keyed ((traceMap m).mem_items.mp hp)).2
  cases (traceMap b).get? p.1 with
  | none => rfl
  | some base =>
    show (comparedEndpoint base p.2).flatMap (EndpointDelta.fieldPaths pick) = _
    rw [comparedEndpoint_fieldPaths, hkey]
    rfl

/-- The paths of one side alone, under the endpoints of both. -/
theorem fields_exchanged :
    ((endpointChanges b m).flatMap (EndpointDelta.fieldPaths FieldDelta.added?)).Perm
      ((endpointChanges m b).flatMap (EndpointDelta.fieldPaths FieldDelta.removed?)) := by
  rw [fieldPaths_endpointChanges, fieldPaths_endpointChanges]
  simp only [added_fieldChanges, removed_fieldChanges]
  exact Dict.join_perm (traceMap m) (traceMap b) fun k mod base =>
    (onlyIn (fieldMap mod.fields) (fieldMap base.fields) fun key _ => key).map fun path => (k, path)

end Endpoints

/-! ### Dependencies and auth invariants -/

theorem added_dependencyChanges (b m : DependencyGraph) :
    (dependencyChanges b m).filterMap DependencyDelta.added? =
      (onlyIn (edgeMap m.edges) (edgeMap b.edges) fun _ e => .inl e) ++
        (nodesWithout m.nodes b.nodes).map .inr := by
  rw [dependencyChanges, List.filterMap_append, List.filterMap_append, List.filterMap_append,
    List.filterMap_map, List.filterMap_map]
  have hgone : (nodesWithout b.nodes m.nodes).filterMap
      (DependencyDelta.added? ∘ DependencyDelta.nodeRemoved) = [] :=
    List.filterMap_eq_nil_iff.mpr fun _ _ => rfl
  rw [hgone, List.append_nil]
  refine congrArg₂ (· ++ ·) (Eq.trans (congrArg₂ (· ++ ·) (filterMap_onlyIn_none fun _ _ => rfl)
    (filterMap_onlyIn_some fun _ _ => rfl)) (List.nil_append _)) ?_
  exact congrFun (List.filterMap_eq_map (f := Sum.inr)) _

theorem removed_dependencyChanges (b m : DependencyGraph) :
    (dependencyChanges b m).filterMap DependencyDelta.removed? =
      (onlyIn (edgeMap b.edges) (edgeMap m.edges) fun _ e => .inl e) ++
        (nodesWithout b.nodes m.nodes).map .inr := by
  rw [dependencyChanges, List.filterMap_append, List.filterMap_append, List.filterMap_append,
    List.filterMap_map, List.filterMap_map]
  have hnew : (nodesWithout m.nodes b.nodes).filterMap
      (DependencyDelta.removed? ∘ DependencyDelta.nodeAdded) = [] :=
    List.filterMap_eq_nil_iff.mpr fun _ _ => rfl
  rw [hnew, List.append_nil]
  refine congrArg₂ (· ++ ·) (Eq.trans (congrArg₂ (· ++ ·) (filterMap_onlyIn_some fun _ _ => rfl)
    (filterMap_onlyIn_none fun _ _ => rfl)) (List.append_nil _)) ?_
  exact congrFun (List.filterMap_eq_map (f := Sum.inr)) _

theorem comparedInvariant_filterMap {γ : Type} (pick : AuthDelta → Option γ)
    (hpick : ∀ d, d.deltaType = .rotationClassChanged ∨ d.deltaType = .bindingChanged →
      pick d = none) (id : String) (b m : AuthInvariant) :
    (comparedInvariant id b m).filterMap pick = [] := by
  rw [comparedInvariant]
  split_ifs
  · exact List.filterMap_cons_none (hpick _ (Or.inl rfl))
  · exact List.filterMap_cons_none (hpick _ (Or.inr rfl))
  · rfl

theorem added_authChanges (b m : List AuthInvariant) :
    (authChanges b m).filterMap AuthDelta.added? = onlyIn (invariantMap m) (invariantMap b)
      fun id inv => (id, (inv.affectedEndpoints.length : Int)) := by
  have hchanged := comparedInvariant_filterMap AuthDelta.added? fun d hd =>
    if_neg (by rcases hd with hd | hd <;> rw [hd] <;> decide)
  rw [authChanges, List.filterMap_append]
  exact Eq.trans (congrArg₂ (· ++ ·) (filterMap_comparedWith_none (fun _ _ => rfl) hchanged)
    (filterMap_onlyIn_some fun _ _ => rfl)) (List.nil_append _)

theorem removed_authChanges (b m : List AuthInvariant) :
    (authChanges b m).filterMap AuthDelta.removed? = onlyIn (invariantMap b) (invariantMap m)
      fun id inv => (id, (inv.affectedEndpoints.length : Int)) := by
  have hchanged := comparedInvariant_filterMap AuthDelta.removed? fun d hd =>
    if_neg (by rcases hd with hd | hd <;> rw [hd] <;> decide)
  have hremoved : ∀ (id : String) (inv : AuthInvariant),
      AuthDelta.removed? ⟨id, .removed, -inv.affectedEndpoints.length⟩ =
        some (id, (inv.affectedEndpoints.length : Int)) := by
    intro id inv
    rw [AuthDelta.removed?, if_pos rfl, neg_neg]
  rw [authChanges, List.filterMap_append]
  exact Eq.trans (congrArg₂ (· ++ ·) (filterMap_comparedWith_some hremoved hchanged)
    (filterMap_onlyIn_none fun _ _ => rfl)) (List.append_nil _)

/-! ### Reports -/

section Report
variable {R : Type} [Floats R] {round : R → R} {bounds : DiffBounds}
  {reportId : String} {b m : FullSnapshot R}

theorem FindsAll.oneForOne {r s : SemanticDiffReport R} (h : FindsAll r b m)
    (h' : FindsAll s m b) : OneForOne r s := by
  refine ⟨?_, ?_, ?_, ?_⟩
  · rw [h.endpoints, h'.endpoints, added_endpointChanges, removed_endpointChanges]
  · rw [h.endpoints, h'.endpoints]
    exact fields_exchanged b.traces m.traces
  · rw [h.dependencies, h'.dependencies, added_dependencyChanges, removed_dependencyChanges]
  · rw [h.auth, h'.auth, added_authChanges, removed_authChanges]

theorem diff_oneForOne (h : Untruncated round bounds reportId b.snapshot m.snapshot)
    (h' : Untruncated round bounds reportId m.snapshot b.snapshot) :
    OneForOne (diff round bounds reportId b.snapshot m.snapshot)
      (diff round bounds reportId m.snapshot b.snapshot) := by
  by_cases htraces : b.traces = [] ∧ m.traces = []
  · rw [diff_of_no_traces htraces, diff_of_no_traces htraces.symm]
    exact ⟨rfl, List.Perm.nil, rfl, rfl⟩
  · exact (h.findsAll htraces).oneForOne (h'.findsAll fun hnone => htraces hnone.symm)

end Report

end PiPlatform.SemanticDiff
