import PiPlatform.SemanticDiff.DiffRuntime

/-! What there is to find between two snapshots: the deltas without a bound on their number.

A bound with room for all of them changes nothing. -/
namespace PiPlatform.SemanticDiff

open Library Collected

/-! ### Two dictionaries -/

section TwoSides
variable {K V W δ γ : Type} [DecidableEq K]
variable {max : Int} {d : Dict K V} {pick : δ → Option γ} {others : Dict K W}
  {compared : K → V → W → List δ} {alone : K → V → δ} {f : K → V → δ}

/-- The items whose keys the other dictionary does not have. -/
def onlyIn (d : Dict K V) (others : Dict K W) (f : K → V → δ) : List δ :=
  d.items.flatMap fun p => if others.contains p.1 then [] else [f p.1 p.2]

theorem onlyIn_turn_le (others : Dict K W) (f : K → V → δ) (p : K × V) :
    (if others.contains p.1 then [] else [f p.1 p.2]).length ≤ 1 := by
  split_ifs <;> simp

theorem length_onlyIn_le (d : Dict K V) (others : Dict K W) (f : K → V → δ) :
    (onlyIn d others f).length ≤ d.items.length := by
  have hle := length_flatMap_le (onlyIn_turn_le others f) d.items
  rwa [Nat.mul_one] at hle

theorem foldl_onlyIn (d : Dict K V) (others : Dict K W) (f : K → V → δ)
    {c : Collected δ} (h : Filled max c) (hroom : (c.items.length + d.items.length : Nat) ≤ max) :
    Adds max c (d.items.foldl (fun c p =>
      if others.contains p.1 then c else c.push max (f p.1 p.2)) c) (onlyIn d others f) := by
  refine foldl_adds_const (onlyIn_turn_le others f) ?_ d.items h (by omega)
  intro c p hfilled hone
  by_cases hcontains : others.contains p.1 = true
  · simp only [if_pos hcontains]
    exact Adds.refl hfilled
  · simp only [if_neg hcontains]
    exact push_adds hfilled _ (by omega)

/-- One side item by item: alone, or compared with what the other has under the key. -/
def comparedWith (d : Dict K V) (others : Dict K W) (alone : K → V → δ)
    (compared : K → V → W → List δ) : List δ :=
  d.items.flatMap fun p => (others.get? p.1).elim [alone p.1 p.2] (compared p.1 p.2)

theorem comparedWith_turn_le (others : Dict K W) (alone : K → V → δ) {need : Nat} (hone : 1 ≤ need)
    (hneed : ∀ k v w, (compared k v w).length ≤ need) (p : K × V) :
    ((others.get? p.1).elim [alone p.1 p.2] (compared p.1 p.2)).length ≤ need := by
  cases others.get? p.1 with
  | none => exact hone
  | some w => exact hneed p.1 p.2 w

theorem onlyIn_eq_nil :
    onlyIn d others f = [] ↔ ∀ k, d.contains k = true → others.contains k = true := by
  rw [onlyIn, List.flatMap_eq_nil_iff]
  constructor
  · intro h k hk
    obtain ⟨v, hv⟩ := Option.isSome_iff_exists.mp hk
    have hnil := h (k, v) (d.mem_items.mpr hv)
    by_contra hothers
    exact absurd ((if_neg hothers).symm.trans hnil) (List.cons_ne_nil _ _)
  · intro h p hp
    exact if_pos (h p.1 (Option.isSome_iff_exists.mpr ⟨p.2, d.mem_items.mp hp⟩))

/-- Nothing on one side alone, and nothing in any comparison. -/
theorem comparedWith_eq_nil {P : V → W → Prop}
    (hcompared : ∀ k v w, compared k v w = [] ↔ P v w) {f : K → W → γ} :
    (comparedWith d others alone compared = [] ∧ onlyIn others d f = []) ↔ d.Agrees P others := by
  rw [comparedWith, List.flatMap_eq_nil_iff, onlyIn_eq_nil]
  constructor
  · intro ⟨hall, hothers⟩
    have hitem : ∀ k v, d.get? k = some v → (others.get? k).elim [alone k v] (compared k v) = [] :=
      fun k v hv => hall (k, v) (d.mem_items.mpr hv)
    refine ⟨fun k => ⟨fun hk => ?_, hothers k⟩, fun k v w hv hw => ?_⟩
    · obtain ⟨v, hv⟩ := Option.isSome_iff_exists.mp hk
      rw [Dict.contains, Option.isSome_iff_ne_none]
      intro hnone
      have hnil := hitem k v hv
      rw [hnone] at hnil
      exact List.cons_ne_nil _ _ hnil
    · have hnil := hitem k v hv
      rw [hw] at hnil
      exact (hcompared k v w).mp hnil
  · intro h
    refine ⟨fun p hp => ?_, fun k => (h.keys k).mpr⟩
    obtain ⟨w, hw, hP⟩ := h.get? (d.mem_items.mp hp)
    rw [hw]
    exact (hcompared p.1 p.2 w).mpr hP

theorem filterMap_onlyIn_some {g : K → V → γ} (hpick : ∀ k v, pick (f k v) = some (g k v)) :
    (onlyIn d others f).filterMap pick = onlyIn d others g := by
  rw [onlyIn, List.filterMap_flatMap]
  refine List.flatMap_congr fun p _ => ?_
  split_ifs
  · rfl
  · exact List.filterMap_cons_some (hpick p.1 p.2)

theorem filterMap_onlyIn_none (hpick : ∀ k v, pick (f k v) = none) :
    (onlyIn d others f).filterMap pick = [] := by
  rw [onlyIn, List.filterMap_flatMap, List.flatMap_eq_nil_iff]
  intro p _
  split_ifs
  · rfl
  · exact List.filterMap_cons_none (hpick p.1 p.2)

theorem filterMap_comparedWith_some {g : K → V → γ}
    (halone : ∀ k v, pick (alone k v) = some (g k v))
    (hcompared : ∀ k v w, (compared k v w).filterMap pick = []) :
    (comparedWith d others alone compared).filterMap pick = onlyIn d others g := by
  rw [comparedWith, List.filterMap_flatMap]
  refine List.flatMap_congr fun p _ => ?_
  rw [Dict.contains]
  cases others.get? p.1 with
  | none => exact List.filterMap_cons_some (halone p.1 p.2)
  | some w => exact hcompared p.1 p.2 w

theorem filterMap_comparedWith_none (halone : ∀ k v, pick (alone k v) = none)
    (hcompared : ∀ k v w, (compared k v w).filterMap pick = []) :
    (comparedWith d others alone compared).filterMap pick = [] := by
  rw [comparedWith, List.filterMap_flatMap, List.flatMap_eq_nil_iff]
  intro p _
  cases others.get? p.1 with
  | none => exact List.filterMap_cons_none (halone p.1 p.2)
  | some w => exact hcompared p.1 p.2 w

end TwoSides

section Endpoints
variable {R : Type} [Floats R] {max : Int}

def comparedField (key : String) (bf mf : SemanticField R) : List (FieldDelta R) :=
  (if bf.inferredType ≠ mf.inferredType then [typeChanged key bf mf] else []) ++
    if far bf.confidence mf.confidence then [confidenceChanged key bf mf] else []

def fieldChanges (baseFields modFields : List (SemanticField R)) : List (FieldDelta R) :=
  comparedWith (fieldMap baseFields) (fieldMap modFields) (fun key _ => removedField key)
    comparedField ++
  onlyIn (fieldMap modFields) (fieldMap baseFields) fun key _ => addedField key

theorem comparedField_length (key : String) (bf mf : SemanticField R) :
    (comparedField key bf mf).length ≤ 2 := by
  rw [comparedField, List.length_append]
  split_ifs <;> simp

/-- Room for all field deltas. -/
def fieldRoom (baseFields modFields : List (SemanticField R)) : Nat :=
  (fieldMap baseFields).items.length * 2 + (fieldMap modFields).items.length

/-- One field of the baseline. -/
theorem field_adds (modFields : List (SemanticField R)) {c : Collected (FieldDelta R)}
    (p : String × SemanticField R) (h : Filled max c) (hroom : (c.items.length + 2 : Int) ≤ max) :
    Adds max c
      (match (fieldMap modFields).get? p.1 with
      | none => c.push max (removedField p.1)
      | some mf =>
        let c := if p.2.inferredType ≠ mf.inferredType then
          c.push max (typeChanged p.1 p.2 mf) else c
        if far p.2.confidence mf.confidence then
          c.push max (confidenceChanged p.1 p.2 mf) else c)
      (((fieldMap modFields).get? p.1).elim [removedField p.1] (comparedField p.1 p.2)) := by
  cases (fieldMap modFields).get? p.1 with
  | none => exact push_adds h _ (by omega)
  | some mf =>
    have htype := addsIf (p.2.inferredType ≠ mf.inferredType) h
      fun _ => push_adds h (typeChanged p.1 p.2 mf) (by omega)
    refine htype.trans (addsIf _ htype.filled fun _ => push_adds htype.filled _ ?_)
    rw [htype.items, List.length_append]
    split_ifs <;> simp <;> omega

theorem computeFieldDeltas_eq (baseFields modFields : List (SemanticField R))
    (hroom : fieldRoom baseFields modFields ≤ max) :
    computeFieldDeltas baseFields modFields max = fieldChanges baseFields modFields := by
  have hneed := comparedWith_turn_le (fieldMap modFields) (fun key _ => removedField key)
    one_le_two (comparedField_length (R := R))
  have hlength := length_flatMap_le hneed (fieldMap baseFields).items
  rw [fieldRoom] at hroom
  have hcompared := foldl_adds_const hneed (fun c p => field_adds modFields p)
    (fieldMap baseFields).items (filled_nothing max)
    (by rw [nothing, List.length_nil]; omega)
  have hadded := foldl_onlyIn (fieldMap modFields) (fieldMap baseFields)
    (fun key _ => addedField key) hcompared.filled
    (by rw [hcompared.items, nothing, List.nil_append]; omega)
  exact (hcompared.trans hadded).items

def comparedEndpoint (base mod : SemanticIRTrace R) : List (EndpointDelta R) :=
  let fieldDeltas := fieldChanges base.fields mod.fields
  if fieldDeltas ≠ [] ∨ mutationTransition base mod = true ∨ replayTransition base mod = true then
    [changedEndpoint base mod fieldDeltas] else []

def endpointChanges (baseline modified : List (SemanticIRTrace R)) : List (EndpointDelta R) :=
  onlyIn (traceMap baseline) (traceMap modified) (fun _ t => removedEndpoint t) ++
  comparedWith (traceMap modified) (traceMap baseline) (fun _ t => addedEndpoint t)
    fun _ mod base => comparedEndpoint base mod

/-- What a turn over the modified traces needs. -/
def endpointNeed (baseMap : Dict String (SemanticIRTrace R)) (p : String × SemanticIRTrace R) :
    Nat :=
  1 + (baseMap.get? p.1).elim 0 fun base => fieldRoom base.fields p.2.fields

def endpointRoom (baseline modified : List (SemanticIRTrace R)) : Nat :=
  (traceMap baseline).items.length +
    ((traceMap modified).items.map (endpointNeed (traceMap baseline))).sum

/-- One trace of the modified side. -/
theorem endpoint_adds (baseMap : Dict String (SemanticIRTrace R))
    {c : Collected (EndpointDelta R)} (p : String × SemanticIRTrace R) (h : Filled max c)
    (hroom : (c.items.length + endpointNeed baseMap p : Int) ≤ max) :
    Adds max c
      (match baseMap.get? p.1 with
      | none => c.push max (addedEndpoint p.2)
      | some base =>
        let fieldDeltas := computeFieldDeltas base.fields p.2.fields (max - c.items.length)
        if fieldDeltas ≠ [] ∨ mutationTransition base p.2 = true ∨
            replayTransition base p.2 = true then
          c.push max (changedEndpoint base p.2 fieldDeltas) else c)
      ((baseMap.get? p.1).elim [addedEndpoint p.2] fun base => comparedEndpoint base p.2) := by
  rw [endpointNeed] at hroom
  cases hbase : baseMap.get? p.1 with
  | none =>
    rw [hbase] at hroom
    exact push_adds h _ (by simp at hroom; omega)
  | some base =>
    rw [hbase, Option.elim_some] at hroom
    push_cast at hroom
    have hfields : computeFieldDeltas base.fields p.2.fields (max - c.items.length) =
        fieldChanges base.fields p.2.fields := computeFieldDeltas_eq _ _ (by omega)
    simp only [hfields]
    exact addsIf _ h fun _ => push_adds h _ (by omega)

theorem computeEndpointDeltas_eq (baseline modified : List (SemanticIRTrace R))
    (hroom : endpointRoom baseline modified ≤ max) :
    computeEndpointDeltas baseline modified max = endpointChanges baseline modified := by
  have hneed : ∀ p, (((traceMap baseline).get? p.1).elim [addedEndpoint p.2] fun base =>
      comparedEndpoint base p.2).length ≤ endpointNeed (traceMap baseline) p := by
    intro p
    rw [endpointNeed]
    cases (traceMap baseline).get? p.1 with
    | none => exact le_rfl
    | some base =>
      refine le_trans ?_ (Nat.le_add_right 1 _)
      show (comparedEndpoint base p.2).length ≤ 1
      rw [comparedEndpoint]
      split_ifs <;> simp
  have hlength := length_onlyIn_le (traceMap baseline) (traceMap modified)
    fun _ t => removedEndpoint t
  rw [endpointRoom] at hroom
  have hremoved := foldl_onlyIn (traceMap baseline) (traceMap modified)
    (fun _ t => removedEndpoint t) (filled_nothing max)
    (by rw [nothing, List.length_nil]; omega)
  have hadded := foldl_adds hneed
    (fun c p => endpoint_adds (traceMap baseline) p) (traceMap modified).items _ hremoved.filled
    (by rw [hremoved.items, nothing, List.nil_append]; omega)
  exact (hremoved.trans hadded).items

end Endpoints

/-! ### Dependencies -/

def dependencyChanges (baseline modified : DependencyGraph) : List DependencyDelta :=
  onlyIn (edgeMap baseline.edges) (edgeMap modified.edges) (fun _ e => .edgeRemoved e) ++
  onlyIn (edgeMap modified.edges) (edgeMap baseline.edges) (fun _ e => .edgeAdded e) ++
  (nodesWithout baseline.nodes modified.nodes).map .nodeRemoved ++
  (nodesWithout modified.nodes baseline.nodes).map .nodeAdded

def dependencyRoom (baseline modified : DependencyGraph) : Nat :=
  (edgeMap baseline.edges).items.length + (edgeMap modified.edges).items.length +
    (nodesWithout baseline.nodes modified.nodes).length +
    (nodesWithout modified.nodes baseline.nodes).length

theorem computeDependencyDeltas_eq (baseline modified : DependencyGraph) {max : Int}
    (hroom : dependencyRoom baseline modified ≤ max) :
    computeDependencyDeltas baseline modified max = dependencyChanges baseline modified := by
  have hremovedLength := length_onlyIn_le (edgeMap baseline.edges) (edgeMap modified.edges)
    fun _ e => DependencyDelta.edgeRemoved e
  have haddedLength := length_onlyIn_le (edgeMap modified.edges) (edgeMap baseline.edges)
    fun _ e => DependencyDelta.edgeAdded e
  rw [dependencyRoom] at hroom
  have hremoved := foldl_onlyIn (edgeMap baseline.edges) (edgeMap modified.edges)
    (fun _ e => DependencyDelta.edgeRemoved e) (filled_nothing max)
    (by rw [nothing, List.length_nil]; omega)
  have hedges := hremoved.trans <| foldl_onlyIn (edgeMap modified.edges) (edgeMap baseline.edges)
    (fun _ e => DependencyDelta.edgeAdded e) hremoved.filled
    (by rw [hremoved.items, nothing, List.nil_append]; omega)
  have hgone := hedges.trans <| foldl_push DependencyDelta.nodeRemoved
    (nodesWithout baseline.nodes modified.nodes) hedges.filled
    (by rw [hedges.items, nothing, List.nil_append, List.length_append]; omega)
  have hall := hgone.trans <| foldl_push DependencyDelta.nodeAdded
    (nodesWithout modified.nodes baseline.nodes) hgone.filled
    (by
      rw [hgone.items, nothing, List.nil_append, List.length_append, List.length_append,
        List.length_map]
      omega)
  exact hall.items

/-! ### Auth invariants -/

def comparedInvariant (id : String) (b m : AuthInvariant) : List AuthDelta :=
  if b.rotationClass ≠ m.rotationClass then [⟨id, .rotationClassChanged, affectedDelta b m⟩]
  else if b.affectedEndpoints.length ≠ m.affectedEndpoints.length then
    [⟨id, .bindingChanged, affectedDelta b m⟩] else []

theorem comparedInvariant_length (id : String) (b m : AuthInvariant) :
    (comparedInvariant id b m).length ≤ 1 := by
  rw [comparedInvariant]
  split_ifs <;> simp

def authChanges (baseline modified : List AuthInvariant) : List AuthDelta :=
  comparedWith (invariantMap baseline) (invariantMap modified)
    (fun id b => ⟨id, .removed, -b.affectedEndpoints.length⟩) comparedInvariant ++
  onlyIn (invariantMap modified) (invariantMap baseline) fun id m =>
    ⟨id, .added, m.affectedEndpoints.length⟩

def authRoom (baseline modified : List AuthInvariant) : Nat :=
  (invariantMap baseline).items.length + (invariantMap modified).items.length

/-- One invariant of the baseline. -/
theorem invariant_adds (modMap : Dict String AuthInvariant) {max : Int} {c : Collected AuthDelta}
    (p : String × AuthInvariant) (h : Filled max c) (hroom : (c.items.length + 1 : Int) ≤ max) :
    Adds max c
      ((match modMap.get? p.1 with
      | none => c.append ⟨p.1, .removed, -p.2.affectedEndpoints.length⟩
      | some m =>
        if p.2.rotationClass ≠ m.rotationClass then
          c.append ⟨p.1, .rotationClassChanged, affectedDelta p.2 m⟩
        else if p.2.affectedEndpoints.length ≠ m.affectedEndpoints.length then
          c.append ⟨p.1, .bindingChanged, affectedDelta p.2 m⟩
        else c).check max)
      ((modMap.get? p.1).elim [⟨p.1, .removed, -p.2.affectedEndpoints.length⟩]
        (comparedInvariant p.1 p.2)) := by
  have happend : ∀ d, Adds max c (c.append d) [d] := fun d => append_adds h d (by omega)
  cases modMap.get? p.1 with
  | none => exact (happend _).trans (check_adds (happend _).filled)
  | some m =>
    have hcompared : Adds max c
        (if p.2.rotationClass ≠ m.rotationClass then
          c.append ⟨p.1, .rotationClassChanged, affectedDelta p.2 m⟩
        else if p.2.affectedEndpoints.length ≠ m.affectedEndpoints.length then
          c.append ⟨p.1, .bindingChanged, affectedDelta p.2 m⟩
        else c) (comparedInvariant p.1 p.2 m) := by
      rw [comparedInvariant]
      split_ifs with hrotation hbinding
      · exact happend _
      · exact happend _
      · exact Adds.refl h
    have hchecked := hcompared.trans (check_adds hcompared.filled)
    rwa [List.append_nil] at hchecked

theorem computeAuthDeltas_eq (baseline modified : List AuthInvariant) {max : Int}
    (hroom : authRoom baseline modified ≤ max) :
    computeAuthDeltas baseline modified max = authChanges baseline modified := by
  have hneed := comparedWith_turn_le (invariantMap modified)
    (fun id b => (⟨id, .removed, -b.affectedEndpoints.length⟩ : AuthDelta)) le_rfl
    comparedInvariant_length
  have hlength := length_flatMap_le hneed (invariantMap baseline).items
  rw [authRoom] at hroom
  have hcompared := foldl_adds_const hneed (fun c p => invariant_adds (invariantMap modified) p)
    (invariantMap baseline).items (filled_nothing max)
    (by rw [nothing, List.length_nil]; omega)
  have hadded := foldl_onlyIn (invariantMap modified) (invariantMap baseline)
    (fun id m => (⟨id, .added, m.affectedEndpoints.length⟩ : AuthDelta)) hcompared.filled
    (by rw [hcompared.items, nothing, List.nil_append]; omega)
  exact (hcompared.trans hadded).items

/-! ### Replay surface -/

section Replay
variable {R : Type}

def comparedReplay (b m : SemanticIRTrace R) : List ReplaySurfaceDelta :=
  let replay := decide (b.replayClass ≠ m.replayClass)
  let sandbox := decide (b.sandboxRequired ≠ m.sandboxRequired)
  let prohibited := decide (b.productionReplayProhibited ≠ m.productionReplayProhibited)
  if replay || sandbox || prohibited then
    [⟨m.endpointTemplate, m.method, replay, sandbox, prohibited⟩] else []

def newReplay (m : SemanticIRTrace R) : List ReplaySurfaceDelta :=
  if m.replayClass ∈ ["NON_REPLAYABLE", "SIDE_EFFECT_RISK"] then
    [⟨m.endpointTemplate, m.method, true, false, false⟩] else []

def replayChanges (baseline modified : List (SemanticIRTrace R)) : List ReplaySurfaceDelta :=
  (traceMap modified).items.flatMap fun p =>
    ((traceMap baseline).get? p.1).elim (newReplay p.2) fun b => comparedReplay b p.2

theorem computeReplaySurfaceDeltas_eq (baseline modified : List (SemanticIRTrace R)) {max : Int}
    (hroom : (traceMap modified).items.length ≤ max) :
    computeReplaySurfaceDeltas baseline modified max = replayChanges baseline modified := by
  have hneed : ∀ p : String × SemanticIRTrace R, (((traceMap baseline).get? p.1).elim
      (newReplay p.2) fun b => comparedReplay b p.2).length ≤ 1 := by
    intro p
    cases (traceMap baseline).get? p.1 with
    | none =>
      show (newReplay p.2).length ≤ 1
      rw [newReplay]
      split_ifs <;> simp
    | some b =>
      show (comparedReplay b p.2).length ≤ 1
      rw [comparedReplay]
      split_ifs <;> simp
  refine (foldl_adds_const hneed ?_ (traceMap modified).items (filled_nothing max)
    (by rw [nothing, List.length_nil]; omega)).items
  intro c p h hone
  cases (traceMap baseline).get? p.1 with
  | none => exact addsIf _ h fun _ => append_adds h _ (by omega)
  | some b => exact addsIf _ h fun _ => push_adds h _ (by omega)

end Replay

end PiPlatform.SemanticDiff
