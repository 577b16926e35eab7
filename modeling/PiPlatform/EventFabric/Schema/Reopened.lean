import PiPlatform.EventFabric.Schema.Registry

/-! The migration graph of a registry that is opened again.

The graph in memory has every step that was registered, the rows have the first of each
id. A search looks at the first step between two fingerprints and at no other
(`findPath_firstEdges`), so the two graphs give the same paths exactly when every such
step has an id of its own, at the time, and parameters that read back as they were
(`Persisted`). -/
namespace PiPlatform.EventFabric.Schema.Registry

open Library Library.Json Library.Python
open EdgeGraph (findPath)

variable {D : Type} (J : JsonModule D)

/-- A step as its row gives it back. -/
def MigrationStep.reread (step : MigrationStep D) : MigrationStep D :=
  { step with parameters := J.reread step.parameters }

/-- The steps whose calls returned, in their order. -/
def accepted (calls : List (MigrationCall D)) : List (MigrationStep D) :=
  (calls.filter fun call => (J.dumps call.step.parameters).toOption.isSome).map
    MigrationCall.step

/-- The steps that have a row. -/
def stored (steps : List (MigrationStep D)) : List (MigrationStep D) :=
  firstsBy MigrationStep.migrationId [] steps

def graphOf (steps : List (MigrationStep D)) : MigrationDAG D :=
  EdgeGraph.ofEdges (fun s => s.fromFingerprint) (fun s => s.toFingerprint) steps

theorem foldl_register (steps : List (MigrationStep D)) :
    steps.foldl MigrationDAG.register .empty = graphOf steps := by
  have hrun : ∀ (steps : List (MigrationStep D)) (dag : MigrationDAG D),
      steps.foldl MigrationDAG.register dag =
        ⟨steps.foldl (fun d s => d.set s.fromFingerprint
          ((d.get? s.fromFingerprint).getD [] ++ [s])) dag.edges, dag.target⟩ := by
    intro steps
    induction steps with
    | nil => exact fun _ => rfl
    | cons step steps ih => exact fun dag => ih (MigrationDAG.register dag step)
  exact hrun steps .empty

theorem graphOf_snoc (steps : List (MigrationStep D)) (step : MigrationStep D) :
    graphOf (steps ++ [step]) = MigrationDAG.register (graphOf steps) step := by
  rw [← foldl_register, ← foldl_register, List.foldl_append]
  rfl

/-! ### What a run leaves -/

/-- The row of a step: it has the step's id and gives the step back. -/
def RowOf (step : MigrationStep D) (row : MigrationRow) : Prop :=
  row.migrationId = step.migrationId ∧ row.step J = .ok (step.reread J)

variable {J} {steps : List (MigrationStep D)} {step : MigrationStep D} {row : MigrationRow}

theorem rowOf_row {registeredBy : String}
    (h : step.row J registeredBy = .ok row) : RowOf J step row := by
  obtain ⟨text, htext, hrow⟩ := bind_ok h
  obtain rfl := Except.ok.inj hrow
  refine ⟨rfl, ?_⟩
  show (J.loads text >>= _) = _
  rw [J.loads_reread htext]
  rfl

/-- A registry after the steps: a row for each that is stored, and all of them in its
graph. -/
structure Registered (J : JsonModule D) (steps : List (MigrationStep D))
    (registry : SchemaRegistry D) : Prop where
  rows : List.Forall₂ (RowOf J) (stored steps) registry.migrations.rows
  dag : registry.dag = graphOf steps

variable {registry : SchemaRegistry D} {before behind : List (MigrationStep D)}

theorem Registered.ids (h : Registered J steps registry) :
    registry.migrations.rows.map (fun row => row.migrationId) =
      (stored steps).map fun s => s.migrationId :=
  (map_eq_of_forall₂ h.rows fun _ _ hrow => hrow.1.symm).symm

theorem Registered.fits_iff (h : Registered J steps registry) (hrow : RowOf J step row) :
    registry.migrations.Fits row ↔ step.migrationId ∉ steps.map fun s => s.migrationId := by
  have hstored : step.migrationId ∈ (stored steps).map (fun s => s.migrationId) ↔
      step.migrationId ∈ steps.map fun s => s.migrationId := by
    have hkeys : step.migrationId ∈ (stored steps).map (fun s => s.migrationId) ++ [] ↔
        step.migrationId ∈ steps.map (fun s => s.migrationId) ++ [] := mem_keys_firstsBy steps
    rwa [List.append_nil, List.append_nil] at hkeys
  rw [← hstored, ← h.ids, ← hrow.1, UniqueTable.Fits]
  simp only [MigrationRow.clash, beq_eq_false_iff_ne, List.mem_map, not_exists, not_and, ne_eq]

theorem stored_snoc : stored (steps ++ [step]) =
    if step.migrationId ∈ steps.map fun s => s.migrationId then stored steps
    else stored steps ++ [step] := by
  rw [stored, firstsBy_snoc, List.append_nil]
  rfl

theorem Registered.register (h : Registered J steps registry) (call : MigrationCall D)
    (hrow : call.step.row J call.registeredBy = .ok row) :
    Registered J (steps ++ [call.step]) (registry.registerMigration J call).2 := by
  rw [SchemaRegistry.registerMigration, hrow]
  constructor
  · show List.Forall₂ _ _ (registry.migrations.insertOrIgnore row).rows
    have hrowOf := rowOf_row hrow
    rw [stored_snoc]
    by_cases hid : call.step.migrationId ∈ steps.map fun s => s.migrationId
    · rw [if_pos hid, UniqueTable.insert_ignored fun hfits => (h.fits_iff hrowOf).mp hfits hid]
      exact h.rows
    · rw [if_neg hid, UniqueTable.rows_insert ((h.fits_iff hrowOf).mpr hid)]
      exact List.rel_append h.rows (.cons hrowOf .nil)
  · rw [graphOf_snoc, ← h.dag]

theorem registered_after (calls : List (MigrationCall D)) :
    Registered J (accepted J calls) ((migrationCalls J).after calls) := by
  induction calls using List.reverseRecOn with
  | nil => exact ⟨.nil, rfl⟩
  | append_singleton calls call ih =>
    rw [(migrationCalls J).after_snoc]
    show Registered J _ (((migrationCalls J).after calls).registerMigration J call).2
    rw [accepted, List.filter_append, List.map_append]
    cases hrow : call.step.row J call.registeredBy with
    | error e =>
      have hdumps : J.dumps call.step.parameters = .error e := by
        rcases bind_error hrow with hdumps | ⟨text, -, hreturn⟩
        · exact hdumps
        · cases hreturn
      rw [List.filter_cons_of_neg (by simp [hdumps, Except.toOption]),
        SchemaRegistry.registerMigration, hrow, List.filter_nil, List.map_nil, List.append_nil]
      exact ih
    | ok row =>
      obtain ⟨text, hdumps, -⟩ := bind_ok hrow
      rw [List.filter_cons_of_pos (by simp [hdumps, Except.toOption])]
      exact ih.register call hrow

/-- A registry opened on the rows. -/
theorem Registered.load (h : Registered J steps registry) :
    SchemaRegistry.load J registry.migrations =
      .ok ⟨registry.migrations, graphOf ((stored steps).map (MigrationStep.reread J))⟩ := by
  have hread : ∀ {ss : List (MigrationStep D)} {rows : List MigrationRow},
      List.Forall₂ (RowOf J) ss rows →
      rows.mapM (MigrationRow.step J) = .ok (ss.map (MigrationStep.reread J)) := by
    intro ss rows hrows
    induction hrows with
    | nil => rfl
    | cons hrow _ ih =>
      rw [List.mapM_cons, hrow.2, ih]
      rfl
  rw [SchemaRegistry.load, hread h.rows]
  show Except.ok _ = _
  rw [foldl_register]

/-! ### The paths of the two graphs -/

/-- The same step but for its parameters, and those `==`. -/
structure SameStep (J : JsonModule D) (s s' : MigrationStep D) : Prop where
  fields : { s' with parameters := s.parameters } = s
  parameters : J.same s.parameters s'.parameters

/-- Every step that is the first between two different fingerprints has an id that no step
before it has, and parameters that read back equal. -/
def Persisted (J : JsonModule D) (steps : List (MigrationStep D)) : Prop :=
  ∀ before s behind, steps = before ++ s :: behind → s.fromFingerprint ≠ s.toFingerprint →
    (∀ r ∈ before, r.fromFingerprint = s.fromFingerprint → r.toFingerprint ≠ s.toFingerprint) →
    (∀ r ∈ before, r.migrationId ≠ s.migrationId) ∧ J.same s.parameters (J.reread s.parameters)

abbrev firstSteps (steps : List (MigrationStep D)) : List (MigrationStep D) :=
  EdgeGraph.firstEdges (fun s => s.fromFingerprint) (fun s => s.toFingerprint) steps

theorem Persisted.front {more : List (MigrationStep D)} (h : Persisted J (steps ++ more)) :
    Persisted J steps := by
  rintro before s behind rfl
  exact h before s (behind ++ more) (by simp)

/-- The first steps are all stored, and nothing else comes first among what is stored. -/
theorem Persisted.firstSteps_stored (h : Persisted J steps) :
    firstSteps (stored steps) = firstSteps steps ∧
      ∀ s ∈ firstSteps steps, J.same s.parameters (J.reread s.parameters) := by
  induction steps using List.reverseRecOn with
  | nil => exact ⟨rfl, fun _ hs => nomatch hs⟩
  | append_singleton steps step ih =>
    obtain ⟨heq, hsame⟩ := ih h.front
    have hsubset : ∀ s ∈ stored steps, s ∈ steps := (firstsBy_sublist steps).subset
    rw [firstSteps, firstSteps, EdgeGraph.firstEdges_snoc, stored_snoc]
    by_cases hfirst : step.fromFingerprint ≠ step.toFingerprint ∧ ∀ r ∈ steps,
        r.fromFingerprint = step.fromFingerprint → r.toFingerprint ≠ step.toFingerprint
    · obtain ⟨hfresh, hread⟩ := h steps step [] rfl hfirst.1 hfirst.2
      have hid : step.migrationId ∉ steps.map fun s => s.migrationId := by
        rintro hid
        obtain ⟨r, hr, hrid⟩ := List.mem_map.mp hid
        exact hfresh r hr hrid
      rw [if_neg hid, if_pos hfirst, EdgeGraph.firstEdges_snoc,
        if_pos ⟨hfirst.1, fun r hr => hfirst.2 r (hsubset r hr)⟩]
      refine ⟨congrArg (· ++ [step]) heq, fun s hs => ?_⟩
      rcases List.mem_append.mp hs with hs | hs
      · exact hsame s hs
      · rwa [List.mem_singleton.mp hs]
    · rw [if_neg hfirst]
      refine ⟨?_, hsame⟩
      split
      · exact heq
      · rw [EdgeGraph.firstEdges_snoc, if_neg]
        · exact heq
        · rintro ⟨hne, hnew⟩
          refine hfirst ⟨hne, fun r hr hfrom hto => ?_⟩
          -- The first step between the two is stored, so it is no news there either.
          have hne' : r.fromFingerprint ≠ r.toFingerprint := by rwa [hfrom, hto]
          obtain ⟨r', hr', hfrom', hto'⟩ := EdgeGraph.exists_firstEdge hr hne'
          rw [← firstSteps, ← heq] at hr'
          exact hnew r' (EdgeGraph.mem_of_mem_firstEdges hr') (hfrom'.trans hfrom) (hto'.trans hto)

theorem findPath_rendered (f : MigrationStep D → MigrationStep D)
    (hfrom : ∀ s, (f s).fromFingerprint = s.fromFingerprint)
    (hto : ∀ s, (f s).toFingerprint = s.toFingerprint) (steps : List (MigrationStep D))
    (fromFp toFp : String) (maxHops : Int) :
    findPath (graphOf (steps.map f)) fromFp toFp maxHops =
      (findPath (graphOf steps) fromFp toFp maxHops).map f := by
  have hrenders : EdgeGraph.Renders f (graphOf steps) (graphOf (steps.map f)) := by
    refine ⟨fun n => ?_, hto⟩
    rw [graphOf, graphOf, EdgeGraph.edgesFrom_ofEdges, EdgeGraph.edgesFrom_ofEdges, List.filter_map]
    congr 1
    exact List.filter_congr fun s _ => by simp [hfrom]
  exact hrenders.findPath fromFp toFp maxHops

/-- Where every first step is persisted the paths are the same. -/
theorem Persisted.same_paths (h : Persisted J steps) (fromFp toFp : String) (maxHops : Int) :
    List.Forall₂ (SameStep J) (findPath (graphOf steps) fromFp toFp maxHops)
      (findPath (graphOf ((stored steps).map (MigrationStep.reread J))) fromFp toFp
        maxHops) := by
  obtain ⟨heq, hsame⟩ := h.firstSteps_stored
  have hfirsts : ∀ ss : List (MigrationStep D),
      findPath (graphOf ss) fromFp toFp maxHops =
        findPath (graphOf (firstSteps ss)) fromFp toFp maxHops :=
    fun _ => EdgeGraph.findPath_firstEdges ..
  have hstored : findPath (graphOf (stored steps)) fromFp toFp maxHops =
      findPath (graphOf steps) fromFp toFp maxHops := by
    rw [hfirsts, heq, ← hfirsts]
  rw [findPath_rendered (MigrationStep.reread J) (fun _ => rfl) (fun _ => rfl), hstored,
    List.forall₂_map_right_iff, List.forall₂_same]
  exact fun s hs => ⟨rfl, hsame s (EdgeGraph.mem_firstEdges_of_findPath hs)⟩

/-- With one hop, the first step between the two fingerprints. -/
theorem findPath_step (steps : List (MigrationStep D)) {fromFp toFp : String}
    (hne : fromFp ≠ toFp) :
    findPath (graphOf steps) fromFp toFp 1 =
      (steps.find? fun r => r.fromFingerprint = fromFp && r.toFingerprint = toFp).toList := by
  rw [EdgeGraph.findPath_one hne, graphOf, EdgeGraph.edgesFrom_ofEdges, List.find?_filter]
  simp only [Bool.decide_and, Bool.decide_eq_true]
  rfl

theorem find?_first (hfirst : ∀ r ∈ before, r.fromFingerprint = step.fromFingerprint →
      r.toFingerprint ≠ step.toFingerprint) :
    ((before ++ step :: behind).find? fun r =>
      r.fromFingerprint = step.fromFingerprint && r.toFingerprint = step.toFingerprint) =
        some step := by
  have hbefore : (before.find? fun r =>
      r.fromFingerprint = step.fromFingerprint && r.toFingerprint = step.toFingerprint) = none := by
    refine List.find?_eq_none.mpr fun r hr => ?_
    simpa using hfirst r hr
  rw [List.find?_append, hbefore, Option.none_or, List.find?_cons_of_pos (by simp)]

/-- A step that was stored among others before it was the first with its id. -/
theorem mem_stored {s : MigrationStep D} (hs : s ∈ stored (before ++ behind)) :
    s ∈ before ∨ ∀ r ∈ before, r.migrationId ≠ s.migrationId := by
  rw [stored, firstsBy_append] at hs
  rcases List.mem_append.mp hs with hs | hs
  · exact .inl ((firstsBy_sublist before).subset hs)
  · refine .inr fun r hr heq => not_mem_of_mem_firstsBy hs ((mem_keys_firstsBy before).mpr ?_)
    rw [← heq]
    exact List.mem_append_left _ (List.mem_map_of_mem hr)

theorem stored_fresh (hfresh : ∀ r ∈ before, r.migrationId ≠ step.migrationId) :
    step ∈ stored (before ++ step :: behind) := by
  rw [stored, firstsBy_append, firstsBy, if_neg]
  · exact List.mem_append_right _ (List.mem_cons_self ..)
  · intro hmem
    have hids := (mem_keys_firstsBy before).mp hmem
    rw [List.append_nil] at hids
    obtain ⟨r, hr, heq⟩ := List.mem_map.mp hids
    exact hfresh r hr heq

/-- The paths of one step tell that each first step is persisted. -/
theorem persisted_of_paths (h : ∀ fromFp toFp, List.Forall₂ (SameStep J)
      (findPath (graphOf steps) fromFp toFp 1)
      (findPath (graphOf ((stored steps).map (MigrationStep.reread J))) fromFp toFp 1)) :
    Persisted J steps := by
  rintro before s behind rfl hne hfirst
  have hpaths := h s.fromFingerprint s.toFingerprint
  rw [findPath_rendered (MigrationStep.reread J) (fun _ => rfl) (fun _ => rfl),
    findPath_step _ hne, findPath_step _ hne, find?_first hfirst] at hpaths
  cases hfind : (stored (before ++ s :: behind)).find? fun r =>
      r.fromFingerprint = s.fromFingerprint && r.toFingerprint = s.toFingerprint with
  | none =>
    rw [hfind] at hpaths
    cases hpaths
  | some p =>
    rw [hfind] at hpaths
    obtain ⟨hsame, -⟩ := List.forall₂_cons.mp hpaths
    have hmem := List.mem_of_find?_eq_some hfind
    have hends : p.fromFingerprint = s.fromFingerprint ∧ p.toFingerprint = s.toFingerprint := by
      simpa using List.find?_some hfind
    have hid := congrArg MigrationStep.migrationId hsame.fields
    change p.migrationId = s.migrationId at hid
    have hfresh : ∀ r ∈ before, r.migrationId ≠ s.migrationId := by
      rcases mem_stored hmem with hbefore | hfresh
      · exact absurd hends.2 (hfirst p hbefore hends.1)
      · exact fun r hr => hid ▸ hfresh r hr
    obtain rfl : p = s :=
      List.inj_on_of_nodup_map (nodup_firstsBy _) hmem (stored_fresh hfresh) hid
    exact ⟨hfresh, hsame.parameters⟩

/-- **Main theorem.** However migrations are registered, a registry opened on the same
database loads, and it finds the same paths between all fingerprints for all hop limits
if and only if the steps whose calls returned are `Persisted`. -/
theorem reopened_paths_iff (J : JsonModule D) (calls : List (MigrationCall D)) :
    ∃ reopened,
      SchemaRegistry.load J ((migrationCalls J).after calls).migrations = .ok reopened ∧
      ((∀ (fromFp toFp : String) (maxHops : Int), 1 ≤ maxHops → List.Forall₂ (SameStep J)
          (((migrationCalls J).after calls).findMigrationPath fromFp toFp maxHops)
          (reopened.findMigrationPath fromFp toFp maxHops)) ↔
        Persisted J (accepted J calls)) := by
  have hregistered := registered_after (J := J) calls
  refine ⟨_, hregistered.load, ?_⟩
  simp only [SchemaRegistry.findMigrationPath, hregistered.dag]
  constructor
  · exact fun h => persisted_of_paths fun fromFp toFp => h fromFp toFp 1 le_rfl
  · exact fun h fromFp toFp maxHops _ => h.same_paths fromFp toFp maxHops

/-- A step with no parameters. -/
def plainStep (id fromFp toFp : String) : MigrationStep (PyValue Literal) where
  migrationId := id
  fromFingerprint := fromFp
  toFingerprint := toFp
  direction := "forward"
  transformationType := "add_field"
  fieldName := "f"
  parameters := .dict []
  description := ""
  deterministic := true
  reversible := false

/-- One id, two steps. -/
def twoSteps : List (MigrationCall (PyValue Literal)) :=
  [⟨plainStep "m1" "a" "b", "system"⟩, ⟨plainStep "m1" "b" "c", "system"⟩]

/-- The second is in the graph in memory and has no row. -/
theorem second_step_lost :
    let registry := (migrationCalls (valueJson Literal)).after twoSteps
    ∃ reopened, SchemaRegistry.load (valueJson Literal) registry.migrations = .ok reopened ∧
      (registry.findMigrationPath "b" "c" 1).length = 1 ∧
      (reopened.findMigrationPath "b" "c" 1).length = 0 ∧
      ¬ ∀ fromFp toFp maxHops, 1 ≤ maxHops → List.Forall₂ (SameStep (valueJson Literal))
        (registry.findMigrationPath fromFp toFp maxHops)
        (reopened.findMigrationPath fromFp toFp maxHops) := by
  intro registry
  have hregistered : Registered (valueJson Literal) (accepted (valueJson Literal) twoSteps)
      registry := registered_after twoSteps
  have hlive : (registry.findMigrationPath "b" "c" 1).length = 1 := by
    rw [SchemaRegistry.findMigrationPath, hregistered.dag, findPath_step _ (by decide)]
    decide +kernel
  refine ⟨_, hregistered.load, hlive, ?_, fun h => ?_⟩
  · rw [SchemaRegistry.findMigrationPath, findPath_step _ (by decide)]
    decide +kernel
  · have hlength := (h "b" "c" 1 le_rfl).length_eq
    rw [hlive, SchemaRegistry.findMigrationPath, findPath_step _ (by decide)] at hlength
    revert hlength
    decide +kernel

end PiPlatform.EventFabric.Schema.Registry
