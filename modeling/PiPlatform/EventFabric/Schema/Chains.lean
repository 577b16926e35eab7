import PiPlatform.EventFabric.Schema.Migration

/-! Chains of migrations.

When the registered steps are a chain over distinct fingerprints, each fingerprint has
at most one step, so the search has one entry in its queue at a time and walks down the
chain (`search_chain`). It arrives if the chain is within the hop limit, which
`migrate_data` leaves at five; a longer chain is registered and not found
(`migrateData_chain`). -/
namespace PiPlatform.EventFabric.Schema

open Library Library.Python

variable {K V : Type} {start finish : String} {steps registered : List (MigrationStep V)}

/-- The graph after a row of registrations. -/
def MigrationDAG.ofSteps (steps : List (MigrationStep V)) : MigrationDAG V :=
  steps.foldl register .empty

open MigrationDAG (ofSteps)

/-- The steps lead from one fingerprint to the other, one after another. -/
def Leads : List (MigrationStep V) → String → String → Prop
  | [], start, finish => start = finish
  | step :: steps, start, finish =>
    step.fromFingerprint = start ∧ Leads steps step.toFingerprint finish

instance : ∀ (steps : List (MigrationStep V)) (start finish : String),
    Decidable (Leads steps start finish)
  | [], start, finish => inferInstanceAs (Decidable (start = finish))
  | step :: steps, _, finish =>
    have : Decidable (Leads steps step.toFingerprint finish) :=
      instDecidableLeads steps step.toFingerprint finish
    inferInstanceAs (Decidable (_ ∧ _))

/-- A chain over pairwise distinct fingerprints. -/
structure Chain (steps : List (MigrationStep V)) (start finish : String) : Prop where
  leads : Leads steps start finish
  distinct : (start :: steps.map fun s => s.toFingerprint).Nodup

/-! ### What is registered -/

theorem graph_ofSteps (steps : List (MigrationStep V)) :
    (ofSteps steps).graph =
      EdgeGraph.ofEdges (fun s => s.fromFingerprint) (fun s => s.toFingerprint) steps := by
  have hrun : ∀ (steps : List (MigrationStep V)) (dag : MigrationDAG V),
      (steps.foldl MigrationDAG.register dag).stepsByFrom =
        steps.foldl (fun d s => d.set s.fromFingerprint
          ((d.get? s.fromFingerprint).getD [] ++ [s])) dag.stepsByFrom := by
    intro steps
    induction steps with
    | nil => exact fun _ => rfl
    | cons step steps ih => exact fun dag => ih (dag.register step)
  rw [MigrationDAG.graph, ofSteps, hrun]
  rfl

theorem stepsFrom_ofSteps (steps : List (MigrationStep V)) (fp : String) :
    (ofSteps steps).stepsFrom fp = steps.filter fun s => s.fromFingerprint = fp := by
  rw [← MigrationDAG.edgesFrom_graph, graph_ofSteps, EdgeGraph.edgesFrom_ofEdges]

/-- Where the steps start, and then where they end. -/
theorem Leads.fingerprints {steps : List (MigrationStep V)} (h : Leads steps start finish) :
    (steps.map fun s => s.fromFingerprint) ++ [finish] =
      start :: steps.map fun s => s.toFingerprint := by
  induction steps generalizing start with
  | nil =>
    obtain rfl : start = finish := h
    rfl
  | cons step steps ih =>
    obtain ⟨rfl, hrest⟩ := h
    rw [List.map_cons, List.cons_append, ih hrest, List.map_cons]

/-- In a chain each fingerprint has its one step, in whatever order they were
registered. -/
theorem Chain.stepsFrom
    (h : Chain steps start finish) (hregistered : registered.Perm steps) {step : MigrationStep V}
    (hstep : step ∈ steps) :
    (ofSteps registered).stepsFrom step.fromFingerprint = [step] := by
  have hnodup : (steps.map fun s => s.fromFingerprint).Nodup :=
    (h.leads.fingerprints ▸ h.distinct : ((steps.map fun s => s.fromFingerprint) ++ [finish]).Nodup)
      |>.of_append_left
  rw [stepsFrom_ofSteps, ← List.perm_singleton, ← filter_unique hnodup hstep]
  exact hregistered.filter _

/-! ### The search -/

theorem Leads.finish_mem {step : MigrationStep V} {steps : List (MigrationStep V)}
    (h : Leads (step :: steps) start finish) :
    finish ∈ (step :: steps).map fun s => s.toFingerprint := by
  induction steps generalizing step start with
  | nil =>
    obtain ⟨-, rfl⟩ := h
    simp
  | cons step' steps ih => exact List.mem_cons_of_mem _ (ih h.2)

/-- Down a chain, from where a path has got to. -/
theorem search_chain {dag : MigrationDAG V} {finish : String} {maxHops : Int}
    {rest : List (MigrationStep V)} (hfrom : ∀ s ∈ rest, dag.stepsFrom s.fromFingerprint = [s])
    {done : List (MigrationStep V)} {fp : String} {visited : List String} (hne : rest ≠ [])
    (hleads : Leads rest fp finish) (hdistinct : (fp :: rest.map fun s => s.toFingerprint).Nodup)
    (hvisited : ∀ x ∈ fp :: rest.map (fun s => s.toFingerprint), x ∉ visited) :
    dag.graph.search finish maxHops visited [(fp, done)] =
      if (done.length : Int) + rest.length ≤ max ((done.length : Int) + 1) maxHops then done ++ rest
      else [] := by
  induction rest generalizing done fp visited with
  | nil => exact absurd rfl hne
  | cons step rest ih =>
    obtain ⟨rfl, hrest⟩ := hleads
    rw [EdgeGraph.search_new (hvisited _ (List.mem_cons_self ..)), MigrationDAG.edgesFrom_graph,
      hfrom step (List.mem_cons_self ..)]
    cases rest with
    | nil =>
      obtain rfl : step.toFingerprint = finish := hrest
      simp [MigrationDAG.graph]
    | cons step' rest =>
      obtain ⟨hfp, hnodup⟩ := List.nodup_cons.mp hdistinct
      have hgoal : step.toFingerprint ≠ finish := by
        rintro rfl
        exact (List.nodup_cons.mp hnodup).1 hrest.finish_mem
      have hfind : [step].find? (fun s => dag.graph.target s = finish) = none :=
        List.find?_cons_of_neg fun heq => hgoal (of_decide_eq_true heq)
      rw [hfind]
      simp only [EdgeGraph.grown, List.nil_append]
      by_cases hhops : (done.length : Int) + 1 < maxHops
      · rw [if_pos hhops]
        have hfresh : ∀ x ∈ step.toFingerprint :: (step' :: rest).map (fun s => s.toFingerprint),
            x ∉ step.fromFingerprint :: visited := by
          intro x hx hmem
          rcases List.mem_cons.mp hmem with rfl | hmem
          · exact hfp hx
          · exact hvisited x (List.mem_cons_of_mem _ hx) hmem
        refine (ih (fun s hs => hfrom s (List.mem_cons_of_mem _ hs)) (by simp) hrest hnodup
          hfresh).trans ?_
        simp only [List.length_append, List.length_cons, List.length_nil, List.append_assoc,
          List.singleton_append]
        congr 1
        push_cast
        rw [max_eq_right (by omega), max_eq_right (by omega)]
        exact propext ⟨fun h => by omega, fun h => by omega⟩
      · rw [if_neg hhops, if_neg]
        · exact EdgeGraph.search_nil
        · simp only [List.length_cons]
          push_cast
          rw [max_eq_left (by omega)]
          omega

/-- The path found in a chain: all of it, or none. -/
theorem findPath_chain
    (h : Chain steps start finish) (hne : steps ≠ []) (hregistered : registered.Perm steps)
    (maxHops : Int) :
    (ofSteps registered).findPath start finish maxHops =
      if (steps.length : Int) ≤ max 1 maxHops then steps else [] := by
  have hstart : start ≠ finish := by
    rintro rfl
    obtain ⟨step, rest, rfl⟩ := List.exists_cons_of_ne_nil hne
    exact (List.nodup_cons.mp h.distinct).1 h.leads.finish_mem
  rw [MigrationDAG.findPath, EdgeGraph.findPath, if_neg hstart,
    search_chain (fun s hs => h.stepsFrom hregistered hs)
    hne h.leads h.distinct fun _ _ => List.not_mem_nil]
  simp

variable [DecidableEq K] (R : Runtime K V)

/-- **Main theorem.** Data migrates along a registered chain of up to five steps, each
applied in its turn; along a longer one it is refused. -/
theorem migrateData_chain (steps registered : List (MigrationStep V)) (start finish : String)
    (h : Chain steps start finish) (hne : steps ≠ []) (hregistered : registered.Perm steps)
    (data : Dict K V) :
    migrateData R (ofSteps registered) data start finish .forward =
      if steps.length ≤ 5 then applyPath R steps .forward data
      else .error (noMigrationPath start finish) := by
  have hhops : (steps.length : Int) ≤ max 1 5 ↔ steps.length ≤ 5 := by omega
  rw [migrateData, findPath_chain h hne hregistered]
  simp only [hhops]
  split
  · rw [if_neg (by simpa using hne)]
  · rfl

/-- An interpreter for which every value is a string. -/
def textRuntime : Runtime String String :=
  ⟨id, "None", .ok, fun _ => false, fun _ _ _ => .error .typeError⟩

/-- `add_field` steps from one numbered version to the next. -/
def addSteps (n : Nat) : List (MigrationStep String) :=
  (List.range n).map fun k => ⟨s!"m{k}", s!"v{k}", s!"v{k + 1}", .addField, s!"f{k}", .empty⟩

theorem migrateData_chain_two : migrateData textRuntime (ofSteps (addSteps 2)) .empty
    "v0" "v2" .forward = applyPath textRuntime (addSteps 2) .forward .empty := by
  rw [migrateData_chain textRuntime (addSteps 2) (addSteps 2) "v0" "v2" ⟨by decide, by decide⟩
    (by decide) (List.Perm.refl _)]
  rfl

/-- Six registered steps, which is one too many. -/
theorem six_steps_refused :
    Chain (addSteps 6) "v0" "v6" ∧
      migrateData textRuntime (ofSteps (addSteps 6)) .empty "v0" "v6" .forward =
        .error (noMigrationPath "v0" "v6") := by
  have hchain : Chain (addSteps 6) "v0" "v6" := ⟨by decide, by decide⟩
  refine ⟨hchain, ?_⟩
  rw [migrateData, findPath_chain hchain (by decide) (List.Perm.refl _)]
  rfl

end PiPlatform.EventFabric.Schema
