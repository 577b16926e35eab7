import PiPlatform.Interoperability.Manifest
import PiPlatform.Library.Dict
import PiPlatform.Library.System

/-! Which extensions may be installed together.

`check_compatibility` looks at the edges of both extensions, `check_install` only at those
of the newcomer; and it looks for core extensions when a sandboxed one comes, but not the
other way round. So the order of admission matters. `admissions_compatible_iff`: the
installed set stays compatible exactly as long as no newcomer is one an installed extension
conflicts with, and none is core while a sandboxed one is installed. -/
namespace PiPlatform.Interoperability.Compatibility

open Library

inductive CompatibilityType where
  | dependsOn | conflictsWith | requiresCapability | providesCapability | supersedes
  | compatibleWith
  deriving DecidableEq

inductive CompatibilityVerdict where
  | compatible | conflict | missingDependency | zoneIncompatible | capabilityMismatch
  | versionIncompatible
  deriving DecidableEq

structure CompatibilityEdge where
  sourceId : String
  targetId : String
  edgeType : CompatibilityType
  reason : String
  deriving DecidableEq

structure CompatibilityCheck where
  verdict : CompatibilityVerdict
  evidence : String
  sourceId : String
  targetId : String
  edges : List CompatibilityEdge
  deriving DecidableEq

/-- What `registry_lookup` finds. -/
structure RegistryEntry where
  extensionId : String
  name : String
  version : String
  capabilityClass : CapabilityClass
  trustZone : TrustZone
  deriving DecidableEq

structure ExtensionCompatibilityGraph where
  edges : Dict String (List CompatibilityEdge)
  capabilityProviders : Dict CapabilityClass (List String)
  installed : List String

/-- `xs.add(x)` -/
def addTo {α : Type} [DecidableEq α] (x : α) (xs : List α) : List α :=
  if x ∈ xs then xs else xs ++ [x]

section AddTo
variable {α : Type} [DecidableEq α] {x y : α} {xs : List α}

theorem mem_addTo : x ∈ addTo y xs ↔ x ∈ xs ∨ x = y := by
  rw [addTo]
  split
  · next hmem => exact ⟨.inl, fun h => h.elim id fun heq => heq ▸ hmem⟩
  · simp

theorem nodup_addTo (h : xs.Nodup) : (addTo y xs).Nodup := by
  rw [addTo]
  split
  · exact h
  · next hnew => exact h.append (List.nodup_singleton y) (by simpa using hnew)

end AddTo

/-- `str.lower` -/
abbrev Lower := String → String

/-- The first class that the reason names. -/
def parseCapability (lower : Lower) (reason : String) : Option CapabilityClass :=
  CapabilityClass.all.find? fun cap => cap.value.toList <:+: (lower reason).toList

namespace ExtensionCompatibilityGraph

def edgesOf (g : ExtensionCompatibilityGraph) (extensionId : String) : List CompatibilityEdge :=
  (g.edges.get? extensionId).getD []

variable (lower : Lower)

def declareEdge (g : ExtensionCompatibilityGraph) (edge : CompatibilityEdge) :
    ExtensionCompatibilityGraph :=
  let g := { g with edges := g.edges.set edge.sourceId (g.edgesOf edge.sourceId ++ [edge]) }
  if edge.edgeType = .providesCapability then
    match parseCapability lower edge.reason with
    | none => g
    | some cap =>
      let providers := (g.capabilityProviders.get? cap).getD []
      { g with
        capabilityProviders := g.capabilityProviders.set cap (addTo edge.sourceId providers) }
  else g

def registerInstalled (g : ExtensionCompatibilityGraph) (extensionId : String) :
    ExtensionCompatibilityGraph :=
  { g with installed := addTo extensionId g.installed }

def deregister (g : ExtensionCompatibilityGraph) (extensionId : String) :
    ExtensionCompatibilityGraph where
  edges := g.edges.erase extensionId
  capabilityProviders :=
    (g.capabilityProviders.mapValues fun providers =>
      providers.filter fun provider => provider ≠ extensionId).filter fun _ providers =>
        providers ≠ []
  installed := g.installed.filter fun id => id ≠ extensionId

/-- The first edge by which the one extension conflicts with the other. -/
def conflict? (g : ExtensionCompatibilityGraph) (sourceId targetId : String) :
    Option CompatibilityEdge :=
  (g.edgesOf sourceId).find? fun edge => edge.targetId = targetId ∧ edge.edgeType = .conflictsWith

def checkCompatibility (g : ExtensionCompatibilityGraph) (sourceId targetId : String) :
    CompatibilityCheck :=
  match (g.conflict? sourceId targetId).or (g.conflict? targetId sourceId) with
  | some edge => ⟨.conflict, edge.reason, sourceId, targetId, [edge]⟩
  | none => ⟨.compatible, "No conflicts detected", sourceId, targetId, []⟩

/-- The edges of an extension that have the type. -/
def typed (g : ExtensionCompatibilityGraph) (extensionId : String) (edgeType : CompatibilityType) :
    List CompatibilityEdge :=
  (g.edgesOf extensionId).filter fun edge => edge.edgeType = edgeType

def checkZones (g : ExtensionCompatibilityGraph) (extensionId : String)
    (manifest : ExtensionManifest) (registryLookup : String → Option RegistryEntry) :
    List CompatibilityCheck :=
  if manifest.trustZone = .sandboxExperimental then
    g.installed.flatMap fun installedId =>
      match registryLookup installedId with
      | none => []
      | some entry =>
        if entry.trustZone = .coreTrusted then
          [⟨.zoneIncompatible, "Sandbox extension cannot coexist with core trusted", extensionId,
            installedId, []⟩]
        else []
  else []

def checkDependencies (g : ExtensionCompatibilityGraph) (extensionId : String) :
    List CompatibilityCheck :=
  (g.typed extensionId .dependsOn).flatMap fun dep =>
    if dep.targetId ∈ g.installed then []
    else [⟨.missingDependency, "Missing required dependency: " ++ dep.targetId, extensionId,
      dep.targetId, [dep]⟩]

def checkConflicts (g : ExtensionCompatibilityGraph) (extensionId : String) :
    List CompatibilityCheck :=
  (g.typed extensionId .conflictsWith).flatMap fun c =>
    if c.targetId ∈ g.installed then
      [⟨.conflict, "Conflicts with installed extension: " ++ c.targetId ++ " (" ++ c.reason ++ ")",
        extensionId, c.targetId, [c]⟩]
    else []

/-- None where the reason names no class: there is no provider, and its `value` is an
`AttributeError`. -/
def checkCapability (g : ExtensionCompatibilityGraph) (extensionId : String)
    (req : CompatibilityEdge) : Option (List CompatibilityCheck) :=
  match parseCapability lower req.reason with
  | none => none
  | some capClass =>
    if (g.capabilityProviders.get? capClass).getD [] = [] then
      some [⟨.capabilityMismatch, "No provider for required capability: " ++ capClass.value,
        extensionId, req.targetId, [req]⟩]
    else some []

/-- None where it raises. -/
def checkInstall (g : ExtensionCompatibilityGraph) (extensionId : String)
    (manifest : ExtensionManifest) (registryLookup : String → Option RegistryEntry) :
    Option (List CompatibilityCheck) := do
  let identity : List CompatibilityCheck :=
    if extensionId ∈ g.installed then
      [⟨.conflict, "Extension already installed", extensionId, extensionId, []⟩]
    else []
  let capabilities ←
    (g.typed extensionId .requiresCapability).mapM (g.checkCapability lower extensionId)
  some (identity ++ g.checkZones extensionId manifest registryLookup ++
    g.checkDependencies extensionId ++ g.checkConflicts extensionId ++ capabilities.flatten)

end ExtensionCompatibilityGraph

/-! ### Admission -/

/-- The graph and the registry beside it. -/
structure State where
  graph : ExtensionCompatibilityGraph
  registry : Dict String RegistryEntry

inductive Action where
  | declareEdge (edge : CompatibilityEdge)
  | deregister (extensionId : String)
  /-- The manifest is registered, and the extension installed. -/
  | admission (manifest : ExtensionManifest)

def register (manifest : ExtensionManifest) (registry : Dict String RegistryEntry) :
    Dict String RegistryEntry :=
  registry.set manifest.extensionId
    { extensionId := manifest.extensionId
      name := manifest.packageName
      version := manifest.packageVersion
      capabilityClass := manifest.capabilityClass
      trustZone := manifest.trustZone }

variable (lower : Lower)

def admissions : System State Action where
  initial := ⟨⟨.empty, .empty, []⟩, .empty⟩
  step s
    | .declareEdge edge => { s with graph := s.graph.declareEdge lower edge }
    | .deregister extensionId => { s with graph := s.graph.deregister extensionId }
    | .admission manifest =>
      { graph := s.graph.registerInstalled manifest.extensionId
        registry := register manifest s.registry }

/-- Edges come before their extension, but for the outputs that are declared on admission,
and only what passes the check is admitted. -/
def Allowed (s : State) : Action → Prop
  | .declareEdge edge => edge.edgeType = .providesCapability ∨ edge.sourceId ∉ s.graph.installed
  | .deregister _ => True
  | .admission manifest =>
    s.graph.checkInstall lower manifest.extensionId manifest
      (register manifest s.registry).get? = some []

/-- The extension is installed, and registered for the zone. -/
def InZone (s : State) (zone : TrustZone) (extensionId : String) : Prop :=
  extensionId ∈ s.graph.installed ∧
    ∃ entry, s.registry.get? extensionId = some entry ∧ entry.trustZone = zone

/-- What is installed gets on with each other. -/
structure Compatible (s : State) : Prop where
  conflictFree : ∀ x ∈ s.graph.installed, ∀ y ∈ s.graph.installed, x ≠ y →
    (s.graph.checkCompatibility x y).verdict ≠ .conflict
  zones : ∀ x y, InZone s .sandboxExperimental x → ¬ InZone s .coreTrusted y

/-- No installed extension conflicts with the newcomer, and none is sandboxed if it is core. -/
def Watched (s : State) : Action → Prop
  | .admission manifest =>
    (∀ x ∈ s.graph.installed, ∀ edge ∈ s.graph.edgesOf x,
      edge.targetId = manifest.extensionId → edge.edgeType ≠ .conflictsWith) ∧
    (manifest.trustZone = .coreTrusted → ∀ x, ¬ InZone s .sandboxExperimental x)
  | _ => True

/-! ### What the operations do to edges -/

section Edges
variable {lower} {g : ExtensionCompatibilityGraph} {x y : String}

/-- The one extension declared that it conflicts with the other. -/
def Conflicts (g : ExtensionCompatibilityGraph) (x y : String) : Prop :=
  ∃ edge ∈ g.edgesOf x, edge.targetId = y ∧ edge.edgeType = .conflictsWith

theorem isSome_conflict? : (g.conflict? x y).isSome = true ↔ Conflicts g x y := by
  simp only [ExtensionCompatibilityGraph.conflict?, List.find?_isSome, decide_eq_true_eq,
    Conflicts]

theorem verdict_eq_conflict_iff :
    (g.checkCompatibility x y).verdict = .conflict ↔ Conflicts g x y ∨ Conflicts g y x := by
  rw [← isSome_conflict?, ← isSome_conflict?, ExtensionCompatibilityGraph.checkCompatibility,
    ← Bool.or_eq_true, ← Option.isSome_or]
  cases (g.conflict? x y).or (g.conflict? y x) with
  | none => exact iff_of_false nofun Bool.false_ne_true
  | some edge => exact iff_of_true rfl rfl

theorem installed_declareEdge (edge : CompatibilityEdge) :
    (g.declareEdge lower edge).installed = g.installed := by
  rw [ExtensionCompatibilityGraph.declareEdge]
  split
  · split <;> rfl
  · rfl

theorem edgesOf_declareEdge (edge : CompatibilityEdge) (x : String) :
    (g.declareEdge lower edge).edgesOf x =
      if edge.sourceId = x then g.edgesOf x ++ [edge] else g.edgesOf x := by
  have hedges : (g.declareEdge lower edge).edges =
      g.edges.set edge.sourceId (g.edgesOf edge.sourceId ++ [edge]) := by
    rw [ExtensionCompatibilityGraph.declareEdge]
    split
    · split <;> rfl
    · rfl
  rw [ExtensionCompatibilityGraph.edgesOf, hedges, Dict.get?_set]
  by_cases heq : edge.sourceId = x
  · subst heq
    rw [if_pos rfl, if_pos rfl]
    rfl
  · rw [if_neg heq, if_neg heq]
    rfl

theorem edgesOf_deregister (extensionId x : String) :
    (g.deregister extensionId).edgesOf x = if extensionId = x then [] else g.edgesOf x := by
  rw [ExtensionCompatibilityGraph.edgesOf, ExtensionCompatibilityGraph.deregister, Dict.get?_erase]
  split <;> rfl

theorem mem_registerInstalled {extensionId : String} :
    x ∈ (g.registerInstalled extensionId).installed ↔ x ∈ g.installed ∨ x = extensionId :=
  mem_addTo

/-- What passes the check: a new extension, that conflicts with none that is installed, and
no core one is if it is sandboxed. -/
theorem of_checkInstall {extensionId : String} {manifest : ExtensionManifest}
    {registryLookup : String → Option RegistryEntry}
    (h : g.checkInstall lower extensionId manifest registryLookup = some []) :
    extensionId ∉ g.installed ∧ (∀ y ∈ g.installed, ¬ Conflicts g extensionId y) ∧
      (manifest.trustZone = .sandboxExperimental → ∀ y ∈ g.installed, ∀ entry,
        registryLookup y = some entry → entry.trustZone ≠ .coreTrusted) := by
  simp only [ExtensionCompatibilityGraph.checkInstall, Option.bind_eq_bind,
    Option.bind_eq_some_iff, Option.some.injEq, List.append_eq_nil_iff] at h
  obtain ⟨capabilities, -, ⟨⟨⟨hidentity, hzones⟩, -⟩, hconflicts⟩, -⟩ := h
  refine ⟨fun hmem => ?_, ?_, fun hsandbox y hy entry hentry hcore => ?_⟩
  · rw [if_pos hmem] at hidentity
    cases hidentity
  · rintro y hy ⟨edge, hedge, rfl, htype⟩
    have htyped : edge ∈ g.typed extensionId .conflictsWith :=
      List.mem_filter.mpr ⟨hedge, decide_eq_true htype⟩
    have hnone := List.flatMap_eq_nil_iff.mp hconflicts edge htyped
    rw [if_pos hy] at hnone
    cases hnone
  · rw [ExtensionCompatibilityGraph.checkZones, if_pos hsandbox] at hzones
    have hnone := List.flatMap_eq_nil_iff.mp hzones y hy
    rw [hentry] at hnone
    simp only [if_pos hcore] at hnone
    cases hnone

end Edges

/-! ### Runs -/

section Runs
variable {lower} {s : State}

theorem inZone_admission {manifest : ExtensionManifest} {zone : TrustZone} {x : String}
    (hnew : manifest.extensionId ∉ s.graph.installed) :
    InZone ((admissions lower).step s (.admission manifest)) zone x ↔
      (x = manifest.extensionId ∧ manifest.trustZone = zone) ∨ InZone s zone x := by
  simp only [InZone, admissions, mem_registerInstalled, register, Dict.get?_set]
  by_cases heq : manifest.extensionId = x
  · subst heq
    simp [hnew]
  · simp [heq, Ne.symm heq]

theorem Compatible.declareEdge (h : Compatible s) {edge : CompatibilityEdge}
    (hallowed : Allowed lower s (.declareEdge edge)) :
    Compatible ((admissions lower).step s (.declareEdge edge)) := by
  have hold : ∀ x ∈ s.graph.installed, ∀ y,
      Conflicts (s.graph.declareEdge lower edge) x y → Conflicts s.graph x y := by
    rintro x hx y ⟨e, he, htarget, htype⟩
    rw [edgesOf_declareEdge] at he
    split at he
    · next heq =>
      rcases List.mem_append.mp he with he | he
      · exact ⟨e, he, htarget, htype⟩
      · obtain rfl := List.mem_singleton.mp he
        rcases hallowed with hprovides | hout
        · rw [hprovides] at htype
          cases htype
        · exact absurd (heq ▸ hx) hout
    · exact ⟨e, he, htarget, htype⟩
  refine ⟨fun x hx y hy hne => ?_, fun x y hx hy => h.zones x y ?_ ?_⟩
  · simp only [admissions, installed_declareEdge] at hx hy ⊢
    have hfree := h.conflictFree x hx y hy hne
    rw [Ne, verdict_eq_conflict_iff] at hfree ⊢
    exact fun hconflict => hfree (hconflict.imp (hold x hx y) (hold y hy x))
  · simpa only [InZone, admissions, installed_declareEdge] using hx
  · simpa only [InZone, admissions, installed_declareEdge] using hy

theorem Compatible.deregister (h : Compatible s) (extensionId : String) :
    Compatible ((admissions lower).step s (.deregister extensionId)) := by
  have hinstalled : ∀ x, x ∈ (s.graph.deregister extensionId).installed → x ∈ s.graph.installed :=
    fun x hx => (List.mem_filter.mp hx).1
  have hold : ∀ x y, Conflicts (s.graph.deregister extensionId) x y → Conflicts s.graph x y := by
    rintro x y ⟨e, he, hrest⟩
    rw [edgesOf_deregister] at he
    split at he
    · cases he
    · exact ⟨e, he, hrest⟩
  refine ⟨fun x hx y hy hne => ?_, fun x y hx hy => ?_⟩
  · have hfree := h.conflictFree x (hinstalled x hx) y (hinstalled y hy) hne
    rw [Ne, verdict_eq_conflict_iff] at hfree ⊢
    exact fun hconflict => hfree (hconflict.imp (hold x y) (hold y x))
  · exact h.zones x y ⟨hinstalled x hx.1, hx.2⟩ ⟨hinstalled y hy.1, hy.2⟩

theorem Compatible.admission (h : Compatible s) {manifest : ExtensionManifest}
    (hallowed : Allowed lower s (.admission manifest))
    (hwatched : Watched s (.admission manifest)) :
    Compatible ((admissions lower).step s (.admission manifest)) := by
  obtain ⟨hnew, hconflicts, hsandbox⟩ := of_checkInstall hallowed
  obtain ⟨hunopposed, hcore⟩ := hwatched
  have hfree : ∀ y ∈ s.graph.installed, ¬ (Conflicts s.graph manifest.extensionId y ∨
      Conflicts s.graph y manifest.extensionId) := by
    rintro y hy (hconflict | ⟨edge, hedge, htarget, htype⟩)
    · exact hconflicts y hy hconflict
    · exact hunopposed y hy edge hedge htarget htype
  refine ⟨fun x hx y hy hne => ?_, fun x y hx hy => ?_⟩
  · rw [Ne, verdict_eq_conflict_iff]
    rcases mem_registerInstalled.mp hx with hx | rfl
    · rcases mem_registerInstalled.mp hy with hy | rfl
      · have hold := h.conflictFree x hx y hy hne
        rwa [Ne, verdict_eq_conflict_iff] at hold
      · exact fun hconflict => hfree x hx hconflict.symm
    · rcases mem_registerInstalled.mp hy with hy | rfl
      · exact hfree y hy
      · exact absurd rfl hne
  · rcases (inZone_admission hnew).mp hx with ⟨rfl, hzone⟩ | hx
    · rcases (inZone_admission hnew).mp hy with ⟨rfl, hzone'⟩ | hy
      · rw [hzone] at hzone'
        cases hzone'
      · obtain ⟨hinstalled, entry, hentry, hzone'⟩ := hy
        have hlookup : (register manifest s.registry).get? y = some entry := by
          have hne : manifest.extensionId ≠ y := fun heq => hnew (heq ▸ hinstalled)
          rw [register, Dict.get?_set_ne hne]
          exact hentry
        exact hsandbox hzone y hinstalled entry hlookup hzone'
    · rcases (inZone_admission hnew).mp hy with ⟨rfl, hzone'⟩ | hy
      · exact hcore hzone' x hx
      · exact h.zones x y hx hy

theorem compatible_step (s : State) (a : Action) (hallowed : Allowed lower s a)
    (hwatched : Watched s a) (h : Compatible s) : Compatible ((admissions lower).step s a) := by
  cases a with
  | declareEdge edge => exact h.declareEdge hallowed
  | deregister extensionId => exact h.deregister extensionId
  | admission manifest => exact h.admission hallowed hwatched

/-- Any other admission brings together what does not belong together. -/
theorem incompatible_step (s : State) (a : Action) (hallowed : Allowed lower s a)
    (hunwatched : ¬ Watched s a) : ¬ Compatible ((admissions lower).step s a) := by
  cases a with
  | declareEdge edge | deregister extensionId => exact absurd trivial hunwatched
  | admission manifest =>
    obtain ⟨hnew, -, -⟩ := of_checkInstall hallowed
    have hself : manifest.extensionId ∈
        ((admissions lower).step s (.admission manifest)).graph.installed :=
      mem_registerInstalled.mpr (.inr rfl)
    intro hcompatible
    refine hunwatched ⟨fun x hx edge hedge htarget htype => ?_, fun hcore x hx => ?_⟩
    · have hne : x ≠ manifest.extensionId := fun heq => hnew (heq ▸ hx)
      refine hcompatible.conflictFree x (mem_registerInstalled.mpr (.inl hx)) _ hself hne ?_
      exact verdict_eq_conflict_iff.mpr (.inl ⟨edge, hedge, htarget, htype⟩)
    · exact hcompatible.zones x manifest.extensionId ((inZone_admission hnew).mpr (.inr hx))
        ((inZone_admission hnew).mpr (.inl ⟨rfl, hcore⟩))

end Runs

/-- In a run in which edges come before their extensions, the installed set stays compatible
exactly when no newcomer is one that an installed extension conflicts with, and none is core
while a sandboxed one is installed. -/
theorem admissions_compatible_iff (acts : List Action)
    (h : (admissions lower).Admits (Allowed lower) acts) :
    (admissions lower).Always Compatible acts ↔ (admissions lower).Admits Watched acts := by
  have hinitial : Compatible (admissions lower).initial :=
    ⟨fun _ hx => (by cases hx), fun _ _ hx => (by cases hx.1)⟩
  exact System.always_iff_admits_of _ (Allowed lower) Watched Compatible Compatible hinitial
    compatible_step (fun _ => id) (fun s a hallowed _ => incompatible_step s a hallowed) acts h

/-! ### The order of admission -/

def extension (extensionId : String) (zone : TrustZone) : ExtensionManifest where
  extensionId := extensionId
  packageName := extensionId
  packageVersion := "1.0.0"
  packageHash := ""
  capabilityClass := .visualization
  trustZone := zone
  status := .admitted

/-- Charts conflict with plots. -/
def rivalry : CompatibilityEdge := ⟨"charts", "plots", .conflictsWith, "same port"⟩

instance (lower : Lower) (s : State) (a : Action) : Decidable (Allowed lower s a) := by
  unfold Allowed
  split <;> infer_instance

/-- The extension that declared the conflict comes first, and the other is admitted. -/
theorem rivals_admitted :
    (admissions id).Admits (Allowed id) [.declareEdge rivalry,
        .admission (extension "charts" .governedExtension),
        .admission (extension "plots" .governedExtension)] ∧
      ¬ (admissions id).Always Compatible [.declareEdge rivalry,
        .admission (extension "charts" .governedExtension),
        .admission (extension "plots" .governedExtension)] := by
  refine ⟨System.admits_of_checks _ (by decide +kernel), fun h => ?_⟩
  refine (h _ [] (List.append_nil _).symm).conflictFree "charts" ?_ "plots" ?_ (by decide) ?_
  · decide +kernel
  · decide +kernel
  · decide +kernel

/-- Charts, and maps, which do not conflict with them. -/
theorem admissions_compatible_iff_charts :
    (admissions id).Always Compatible [.declareEdge rivalry,
        .admission (extension "charts" .governedExtension),
        .admission (extension "maps" .governedExtension)] := by
  refine (admissions_compatible_iff id _ (System.admits_of_checks _ (by decide +kernel))).mpr ?_
  intro before a behind heq
  match before, heq with
  | [], heq => cases heq; trivial
  | [_], heq => cases heq; exact ⟨by decide +kernel, fun h => nomatch h⟩
  | [_, _], heq => cases heq; exact ⟨by decide +kernel, fun h => nomatch h⟩
  | _ :: _ :: _ :: _, heq => simp at heq

end PiPlatform.Interoperability.Compatibility
