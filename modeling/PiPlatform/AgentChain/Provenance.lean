import PiPlatform.AgentChain.Models
import PiPlatform.Library.Walks
import Mathlib.Data.List.Infix

/-! The provenance validator.

An inferred artifact is promoted when every check of its lineage finds nothing. One
walk goes back along the parents and refuses to meet an artifact twice on its way;
another stops at the roots, the observed and the verified artifacts, and looks at no
artifact twice.

`promotion_closed`: what a promotion shows. It does not show all that it is meant
to (`promotion_open`). What lies behind a root is not looked for. An artifact without
parents that is neither a root nor inferred passes. And a reference is resolved after
every `artifact:` in it was struck out, not the first only. -/
namespace PiPlatform.AgentChain.Provenance

open Library Library.Python Relation
open Library.Json (Literal)
open Governance (GovernanceViolation text)

/-- The fields the validator reads. -/
structure SemanticArtifact where
  artifactId : String
  artifactType : String
  epistemicState : String
  provenance : List String
  semanticHash : String
  generatedBy : String
  payloadJson : String
  parentArtifactIds : List String
  inputHash : String
  outputHash : String
  traceHash : String
  evidenceRefs : List String
  deriving DecidableEq

/-! ### Texts -/

/-- `s.startswith(start)` -/
def startsWith (start s : String) : Bool := start.toList.isPrefixOf s.toList

/-- What is left when the occurrences of a text are struck out, from left to right; the
first `skip` characters belong to one. -/
def strikeOut (word : List Char) : Nat → List Char → List Char
  | _, [] => []
  | skip + 1, _ :: cs => strikeOut word skip cs
  | 0, c :: cs =>
    if word.isPrefixOf (c :: cs) then strikeOut word (word.length - 1) cs
    else c :: strikeOut word 0 cs

/-- `s.replace(word, "")` -/
def remove (word s : String) : String := String.ofList (strikeOut word.toList 0 s.toList)

/-! ### The checks -/

/-- What `all_artifacts` returns. -/
abbrev Registry := List SemanticArtifact

def findArtifactById (registry : Registry) (artifactId : String) : Option SemanticArtifact :=
  registry.find? fun art => art.artifactId = artifactId

variable {F : Type}

def makeViolation (rule : String) (artifact : SemanticArtifact)
    (context : List (String × PyValue F)) : GovernanceViolation F where
  rule := rule
  workerId := artifact.generatedBy
  rootGoalId := "provenance_validator"
  severity := .critical
  context := [("artifact_id", text artifact.artifactId),
    ("artifact_type", text artifact.artifactType)] ++ context
  actionTaken := "HALT"

def checkOrphaned (artifact : SemanticArtifact) : List (GovernanceViolation F) :=
  if artifact.epistemicState ≠ EpistemicState.observed ∧ artifact.parentArtifactIds = [] ∧
      artifact.evidenceRefs = [] then
    [makeViolation "ORPHANED_ARTIFACT" artifact
      [("epistemic_state", text artifact.epistemicState)]]
  else []

section Registered
variable (registry : Registry)

def checkAncestry (artifact : SemanticArtifact) : List (GovernanceViolation F) :=
  artifact.parentArtifactIds.flatMap fun parentId =>
    match findArtifactById registry parentId with
    | none => [makeViolation "UNVERIFIABLE_ANCESTRY" artifact
        [("missing_parent_id", text parentId)]]
    | some _ => []

/-- A violation for each reference to an artifact that is not there. -/
def checkBrokenChains (artifact : SemanticArtifact) : List (GovernanceViolation F) :=
  artifact.evidenceRefs.flatMap fun ref =>
    if startsWith "artifact:" ref then
      let evidenceId := remove "artifact:" ref
      match findArtifactById registry evidenceId with
      | none => [makeViolation "BROKEN_EVIDENCE_CHAIN" artifact
          [("missing_evidence_id", text evidenceId)]]
      | some _ => []
    else []

/-- `hashlib.sha256(s.encode()).hexdigest()` is a parameter. -/
def checkHashIntegrity (sha256 : String → String) (artifact : SemanticArtifact) :
    List (GovernanceViolation F) :=
  let mismatch (context : List (String × PyValue F)) : List (GovernanceViolation F) :=
    [makeViolation "REPLAY_HASH_MISMATCH" artifact context]
  if artifact.payloadJson = "" then mismatch [("reason", text "Empty payload_json")]
  else
    let computed := sha256 artifact.payloadJson
    if computed ≠ artifact.semanticHash then
      mismatch [("computed", text computed), ("stored", text artifact.semanticHash)]
    else if artifact.inputHash ≠ "" ∧ artifact.outputHash ≠ "" then
      let combined := sha256 (artifact.inputHash ++ ":" ++ artifact.outputHash)
      if artifact.traceHash ≠ "" ∧ combined ≠ artifact.traceHash then
        mismatch [("computed_trace", text combined), ("stored_trace", text artifact.traceHash)]
      else []
    else []

/-- The first inferred parent of an observed artifact. -/
def checkEpistemicContamination (artifact : SemanticArtifact) : List (GovernanceViolation F) :=
  if artifact.epistemicState ≠ EpistemicState.observed then []
  else
    (artifact.parentArtifactIds.findSome? fun parentId =>
      (findArtifactById registry parentId).bind fun parent =>
        if parent.epistemicState = EpistemicState.inferred then
          some (makeViolation "EPISTEMIC_CONTAMINATION" artifact
            [("artifact_state", text artifact.epistemicState),
              ("parent_state", text parent.epistemicState), ("parent_id", text parentId)])
        else none).toList

/-- Depths go to 20: `left` is what remains up to 21. The set `seen` is a list, the latest
first. -/
def checkCyclicLineage : (left : Nat) → SemanticArtifact → (seen : List String) →
    List (GovernanceViolation F)
  | 0, artifact, seen =>
    [makeViolation "CYCLIC_PROVENANCE" artifact
      [("depth_reached", .int 21), ("seen", .list (seen.map text))]]
  | left + 1, artifact, seen =>
    if artifact.artifactId ∈ seen then
      [makeViolation "CYCLIC_PROVENANCE" artifact
        [("cycle_at", text artifact.artifactId), ("path", .list (seen.map text))]]
    else
      artifact.parentArtifactIds.flatMap fun parentId =>
        match findArtifactById registry parentId with
        | none => []
        | some parent => checkCyclicLineage left parent (artifact.artifactId :: seen)

def checkLineageTampering (artifact : SemanticArtifact) : List (GovernanceViolation F) :=
  if artifact.provenance.any (startsWith "promoted:") ∧ artifact.parentArtifactIds = [] ∧
      artifact.evidenceRefs = [] then
    [makeViolation "LINEAGE_TAMPERING" artifact
      [("reason", text "Promoted artifact with no parents or evidence")]]
  else []

/-- The walk of `_check_provenance_closure`: what it has visited, and found. -/
structure Walk (F : Type) where
  visited : List String
  violations : List (GovernanceViolation F)

def Walk.add (w : Walk F) (violation : GovernanceViolation F) : Walk F :=
  { w with violations := w.violations ++ [violation] }

/-- The parents, one after another. -/
def walkParents (visit : SemanticArtifact → Walk F → Walk F) (art : SemanticArtifact) :
    List String → Walk F → Walk F
  | [], w => w
  | parentId :: rest, w =>
    match findArtifactById registry parentId with
    | none => walkParents visit art rest (w.add (makeViolation "PROVENANCE_NOT_CLOSED" art
        [("missing_parent", text parentId)]))
    | some parent => walkParents visit art rest (visit parent w)

/-- As deep as `checkCyclicLineage`. -/
def walk : (left : Nat) → SemanticArtifact → Walk F → Walk F
  | 0, art, w => w.add (makeViolation "ANCESTRY_DEPTH_EXCEEDED" art [("max_depth", .int 20)])
  | left + 1, art, w =>
    if art.artifactId ∈ w.visited then w
    else
      let w := { w with visited := art.artifactId :: w.visited }
      if art.epistemicState ∈ [EpistemicState.observed, EpistemicState.verified] then w
      else if art.epistemicState = EpistemicState.inferred ∧ art.parentArtifactIds = [] then
        w.add (makeViolation "PROVENANCE_NOT_CLOSED" art
          [("reason", text "INFERRED artifact with no parents")])
      else walkParents registry (walk left) art art.parentArtifactIds w

def checkProvenanceClosure (artifact : SemanticArtifact) : List (GovernanceViolation F) :=
  (walk registry 21 artifact ⟨[], []⟩).violations

def validate (sha256 : String → String) (artifact : SemanticArtifact) :
    List (GovernanceViolation F) :=
  checkOrphaned artifact ++ checkAncestry registry artifact ++
    checkBrokenChains registry artifact ++ checkHashIntegrity sha256 artifact ++
    checkEpistemicContamination registry artifact ++ checkCyclicLineage registry 21 artifact [] ++
    checkLineageTampering artifact

/-- Only the step from inferred to verified is checked. -/
def canPromote (sha256 : String → String) (artifact : SemanticArtifact) (targetState : String) :
    Bool × List (GovernanceViolation F) :=
  if targetState ≠ EpistemicState.verified then (true, [])
  else if artifact.epistemicState ≠ EpistemicState.inferred then (true, [])
  else
    let violations := validate registry sha256 artifact
    if violations ≠ [] then (false, violations)
    else
      let closureViolations := checkProvenanceClosure registry artifact
      if closureViolations ≠ [] then (false, closureViolations)
      else if artifact.evidenceRefs = [] then
        (false, [makeViolation "UNVERIFIABLE_PROMOTION" artifact
          [("target_state", text targetState),
            ("reason", text "No evidence_refs for promotion")]])
      else (true, [])

end Registered

/-! ### Lineage -/

/-- What a chain of dependencies may end in. -/
def IsRoot (art : SemanticArtifact) : Prop :=
  art.epistemicState = EpistemicState.observed ∨ art.epistemicState = EpistemicState.verified

instance (art : SemanticArtifact) : Decidable (IsRoot art) := inferInstanceAs (Decidable (_ ∨ _))

section Lineage
variable (registry : Registry)

/-- A parent that the registry has. -/
def Parent (art parent : SemanticArtifact) : Prop :=
  ∃ parentId ∈ art.parentArtifactIds, findArtifactById registry parentId = some parent

/-- A path along the parents that cannot be continued. -/
structure IsMaximal (path : List SemanticArtifact) : Prop where
  chain : List.IsChain (Parent registry) path
  stuck : ∀ b ∈ path.getLast?, ∀ c, ¬ Parent registry b c

variable (sha256 : String → String)

/-- Closed provenance. -/
structure Closed (a : SemanticArtifact) : Prop where
  existing : ∀ b, ReflTransGen (Parent registry) a b → ∀ parentId ∈ b.parentArtifactIds,
    ∃ c, findArtifactById registry parentId = some c
  acyclic : ∀ b, ReflTransGen (Parent registry) a b → ¬ TransGen (Parent registry) b b
  rooted : ∀ path, IsMaximal registry (a :: path) → ∃ b ∈ a :: path, IsRoot b
  evidence : ∀ id, "artifact:" ++ id ∈ a.evidenceRefs → ∃ c, findArtifactById registry id = some c
  hashed : sha256 a.payloadJson = a.semanticHash

/-- What of it is checked: up to the roots, but for the ends that are neither roots nor
inferred, and for the references that repeat `artifact:`. -/
structure ClosedToRoots (a : SemanticArtifact) : Prop where
  existing : ∀ b, ReflTransGen (fun x y => ¬ IsRoot x ∧ Parent registry x y) a b → ¬ IsRoot b →
    ∀ parentId ∈ b.parentArtifactIds, ∃ c, findArtifactById registry parentId = some c
  acyclic : ∀ b, ReflTransGen (Parent registry) a b → ¬ TransGen (Parent registry) b b
  rooted : ∀ path, IsMaximal registry (a :: path) → (∃ b ∈ a :: path, IsRoot b) ∨
    ∃ b ∈ (a :: path).getLast?, b.epistemicState ≠ EpistemicState.inferred ∧
      b.parentArtifactIds = []
  evidence : ∀ id, ¬ "artifact:".toList <:+: id.toList → "artifact:" ++ id ∈ a.evidenceRefs →
    ∃ c, findArtifactById registry id = some c
  hashed : sha256 a.payloadJson = a.semanticHash

end Lineage

/-! ### What the checks show -/

section StrikeOut
variable {word : List Char}

theorem strikeOut_skip (before cs : List Char) :
    strikeOut word before.length (before ++ cs) = strikeOut word 0 cs := by
  induction before with
  | nil => rfl
  | cons c before ih => exact ih

/-- The word at the front goes. -/
theorem strikeOut_append (hword : word ≠ []) (cs : List Char) :
    strikeOut word 0 (word ++ cs) = strikeOut word 0 cs := by
  cases word with
  | nil => exact absurd rfl hword
  | cons c word =>
    have hfront : (c :: word).isPrefixOf (c :: (word ++ cs)) = true :=
      List.isPrefixOf_iff_prefix.mpr ⟨cs, rfl⟩
    rw [List.cons_append, strikeOut, if_pos hfront]
    exact strikeOut_skip word cs

/-- What does not hold the word stays. -/
theorem strikeOut_of_not_infix {cs : List Char} (h : ¬ word <:+: cs) :
    strikeOut word 0 cs = cs := by
  induction cs with
  | nil => rfl
  | cons c cs ih =>
    have hfront : ¬ word.isPrefixOf (c :: cs) = true :=
      fun hpre => h (List.isPrefixOf_iff_prefix.mp hpre).isInfix
    rw [strikeOut, if_neg hfront, ih fun hin => h (List.infix_cons hin)]

theorem remove_append {start id : String} (hstart : start ≠ "")
    (h : ¬ start.toList <:+: id.toList) : remove start (start ++ id) = id := by
  have hword : start.toList ≠ [] := by simpa using hstart
  rw [remove, String.toList_append, strikeOut_append hword, strikeOut_of_not_infix h,
    String.ofList_toList]

end StrikeOut

section Cyclic
variable (F) (registry : Registry)

theorem guarded : Walks.Guarded (Parent registry) SemanticArtifact.artifactId fun seen art =>
    ∃ left, checkCyclicLineage registry left art seen = ([] : List (GovernanceViolation F)) where
  fresh := by
    rintro seen art ⟨left, hleft⟩
    cases left with
    | zero => cases hleft
    | succ left =>
      intro hseen
      rw [checkCyclicLineage, if_pos hseen] at hleft
      cases hleft
  step := by
    rintro seen art parent ⟨left, hleft⟩ ⟨parentId, hparentId, hfind⟩
    cases left with
    | zero => cases hleft
    | succ left =>
      rw [checkCyclicLineage] at hleft
      split at hleft
      · cases hleft
      · have hparent := List.flatMap_eq_nil_iff.mp hleft parentId hparentId
        rw [hfind] at hparent
        exact ⟨left, hparent⟩

end Cyclic

section Closure
variable {registry : Registry} {art : SemanticArtifact}

/-- A visited artifact that is no root has parents that were visited, all of them. -/
structure Settled (registry : Registry) (visited : List String) (art : SemanticArtifact) :
    Prop where
  inferred : art.epistemicState = EpistemicState.inferred → art.parentArtifactIds ≠ []
  parents : ∀ parentId ∈ art.parentArtifactIds, ∃ parent,
    findArtifactById registry parentId = some parent ∧ parent.artifactId ∈ visited

theorem Settled.mono {visited visited' : List String}
    (h : Settled registry visited art) (hsub : visited ⊆ visited') :
    Settled registry visited' art where
  inferred := h.inferred
  parents parentId hparentId := by
    obtain ⟨parent, hfind, hvisited⟩ := h.parents parentId hparentId
    exact ⟨parent, hfind, hsub hvisited⟩

/-- A walk without violations: what it has visited on the way is settled. -/
structure Walked (registry : Registry) (w w' : Walk F) : Prop where
  clean : w.violations = []
  visited : w.visited ⊆ w'.visited
  settled : ∀ art ∈ registry, art.artifactId ∈ w'.visited → art.artifactId ∉ w.visited →
    ¬ IsRoot art → Settled registry w'.visited art

theorem Walked.refl {w : Walk F} (h : w.violations = []) : Walked registry w w :=
  ⟨h, List.Subset.refl _, fun _ _ hin hout => absurd hin hout⟩

theorem Walked.trans {w w' w'' : Walk F} (h : Walked registry w w') (h' : Walked registry w' w'') :
    Walked registry w w'' where
  clean := h.clean
  visited := List.Subset.trans h.visited h'.visited
  settled art hart hin hout hroot := by
    by_cases hmid : art.artifactId ∈ w'.visited
    · exact (h.settled art hart hmid hout hroot).mono h'.visited
    · exact h'.settled art hart hin hmid hroot

theorem Walk.add_ne_nil (w : Walk F) (violation : GovernanceViolation F) :
    (w.add violation).violations ≠ [] := by
  simp [Walk.add]

theorem find_mem {artifactId : String} (h : findArtifactById registry artifactId = some art) :
    art ∈ registry ∧ art.artifactId = artifactId :=
  ⟨List.mem_of_find?_eq_some h, by simpa using List.find?_some h⟩

/-- What a visit without violations does, as a rule for `visit`. -/
def Visits (registry : Registry) (visit : SemanticArtifact → Walk F → Walk F) : Prop :=
  ∀ art w, art ∈ registry → (visit art w).violations = [] →
    Walked registry w (visit art w) ∧ art.artifactId ∈ (visit art w).visited

theorem walkParents_walked {visit : SemanticArtifact → Walk F → Walk F}
    (hvisit : Visits registry visit) {ids : List String} {w : Walk F}
    (h : (walkParents registry visit art ids w).violations = []) :
    Walked registry w (walkParents registry visit art ids w) ∧
      ∀ parentId ∈ ids, ∃ parent, findArtifactById registry parentId = some parent ∧
        parent.artifactId ∈ (walkParents registry visit art ids w).visited := by
  induction ids generalizing w with
  | nil => exact ⟨.refl h, fun _ hid => by cases hid⟩
  | cons parentId ids ih =>
    rw [walkParents] at h ⊢
    cases hfind : findArtifactById registry parentId with
    | none =>
      simp only [hfind] at h
      exact absurd (ih h).1.clean (Walk.add_ne_nil _ _)
    | some parent =>
      simp only [hfind] at h ⊢
      obtain ⟨hrest, hparents⟩ := ih h
      obtain ⟨hfirst, hvisited⟩ := hvisit parent w (find_mem hfind).1 hrest.clean
      exact ⟨hfirst.trans hrest, List.forall_mem_cons.mpr
        ⟨⟨parent, hfind, hrest.visited hvisited⟩, hparents⟩⟩

theorem isRoot_iff :
    art.epistemicState ∈ [EpistemicState.observed, EpistemicState.verified] ↔ IsRoot art := by
  simp [IsRoot]

theorem visits_walk (hnodup : (registry.map SemanticArtifact.artifactId).Nodup) (left : Nat) :
    Visits registry (walk (F := F) registry left) := by
  induction left with
  | zero => exact fun art w _ h => absurd h (Walk.add_ne_nil _ _)
  | succ left ih =>
    intro art w hart h
    rw [walk] at h ⊢
    by_cases hin : art.artifactId ∈ w.visited
    · rw [if_pos hin] at h ⊢
      exact ⟨.refl h, hin⟩
    rw [if_neg hin] at h ⊢
    -- No other artifact has its id.
    have hself : ∀ b ∈ registry, b.artifactId = art.artifactId → b = art :=
      fun b hb => List.inj_on_of_nodup_map hnodup hb hart
    by_cases hroot : art.epistemicState ∈ [EpistemicState.observed, EpistemicState.verified]
    · rw [if_pos hroot] at h ⊢
      refine ⟨⟨h, List.subset_cons_self .., fun b hb hbin hbout hbroot => ?_⟩,
        List.mem_cons_self ..⟩
      have hid := (List.mem_cons.mp hbin).resolve_right hbout
      exact absurd (isRoot_iff.mp hroot) (hself b hb hid ▸ hbroot)
    rw [if_neg hroot] at h ⊢
    by_cases hbare : art.epistemicState = EpistemicState.inferred ∧ art.parentArtifactIds = []
    · rw [if_pos hbare] at h
      exact absurd h (Walk.add_ne_nil _ _)
    rw [if_neg hbare] at h ⊢
    obtain ⟨hwalked, hparents⟩ := walkParents_walked ih h
    have hsub := hwalked.visited
    refine ⟨⟨hwalked.clean, fun id hid => hsub (List.mem_cons_of_mem _ hid),
      fun b hb hbin hbout hbroot => ?_⟩, hsub (List.mem_cons_self ..)⟩
    by_cases hid : b.artifactId = art.artifactId
    · rw [hself b hb hid]
      exact ⟨fun hinferred hnil => hbare ⟨hinferred, hnil⟩, hparents⟩
    · exact hwalked.settled b hb hbin (List.not_mem_cons_of_ne_of_not_mem hid hbout) hbroot

end Closure

/-! ### Promotion -/

section Promotion
variable {registry : Registry} {sha256 : String → String} {a : SemanticArtifact}

/-- What a promotion of an inferred artifact went through. -/
theorem checks_of_promoted (hinferred : a.epistemicState = EpistemicState.inferred)
    (h : (canPromote (F := F) registry sha256 a EpistemicState.verified).1 = true) :
    validate (F := F) registry sha256 a = [] ∧ checkProvenanceClosure (F := F) registry a = [] := by
  rw [canPromote, if_neg (by simp), if_neg (by simpa using hinferred)] at h
  by_cases hvalidate : validate (F := F) registry sha256 a = []
  · by_cases hclosure : checkProvenanceClosure (F := F) registry a = []
    · exact ⟨hvalidate, hclosure⟩
    · simp [hvalidate, hclosure] at h
  · simp [hvalidate] at h

theorem hashed_of_checkHashIntegrity (h : checkHashIntegrity (F := F) sha256 a = []) :
    sha256 a.payloadJson = a.semanticHash := by
  by_contra hne
  rw [checkHashIntegrity] at h
  split at h
  · cases h
  · rw [if_pos hne] at h
    cases h

theorem evidence_of_checkBrokenChains (h : checkBrokenChains (F := F) registry a = []) (id : String)
    (hid : ¬ "artifact:".toList <:+: id.toList) (href : "artifact:" ++ id ∈ a.evidenceRefs) :
    ∃ c, findArtifactById registry id = some c := by
  have hone := List.flatMap_eq_nil_iff.mp h _ href
  have hstarts : startsWith "artifact:" ("artifact:" ++ id) = true := by
    rw [startsWith, String.toList_append]
    exact List.isPrefixOf_iff_prefix.mpr (List.prefix_append ..)
  rw [if_pos hstarts, remove_append (by simp) hid] at hone
  cases hfind : findArtifactById registry id with
  | none => simp [hfind] at hone
  | some c => exact ⟨c, rfl⟩

/-- The set of what was visited is closed, up to the roots. -/
theorem closed_of_checkProvenanceClosure
    (hnodup : (registry.map SemanticArtifact.artifactId).Nodup) (ha : a ∈ registry)
    (h : checkProvenanceClosure (F := F) registry a = []) :
    ∃ visited, a.artifactId ∈ visited ∧
      ∀ art ∈ registry, art.artifactId ∈ visited → ¬ IsRoot art → Settled registry visited art := by
  obtain ⟨hwalked, hself⟩ := visits_walk hnodup 21 a ⟨[], []⟩ ha h
  exact ⟨_, hself, fun art hart hin => hwalked.settled art hart hin List.not_mem_nil⟩

/-- What a promotion shows. -/
theorem promotion_closed (registry : Registry) (sha256 : String → String)
    (hnodup : (registry.map SemanticArtifact.artifactId).Nodup) (a : SemanticArtifact)
    (ha : a ∈ registry) (hinferred : a.epistemicState = EpistemicState.inferred)
    (h : (canPromote (F := F) registry sha256 a EpistemicState.verified).1 = true) :
    ClosedToRoots registry sha256 a := by
  obtain ⟨hvalidate, hclosure⟩ := checks_of_promoted hinferred h
  simp only [validate, List.append_eq_nil_iff] at hvalidate
  obtain ⟨⟨⟨⟨⟨⟨-, -⟩, hevidence⟩, hhash⟩, -⟩, hcyclic⟩, -⟩ := hvalidate
  obtain ⟨visited, hself, hsettled⟩ := closed_of_checkProvenanceClosure hnodup ha hclosure
  have hstep : ∀ x y, (x ∈ registry ∧ x.artifactId ∈ visited) → ¬ IsRoot x →
      Parent registry x y → y ∈ registry ∧ y.artifactId ∈ visited := by
    rintro x y ⟨hx, hvisited⟩ hroot ⟨parentId, hparentId, hfind⟩
    obtain ⟨parent, hparent, hin⟩ := (hsettled x hx hvisited hroot).parents parentId hparentId
    obtain rfl := Option.some.inj (hfind.symm.trans hparent)
    exact ⟨(find_mem hfind).1, hin⟩
  refine ⟨fun b hab hroot parentId hparentId => ?_, fun b hab => ?_, fun path hpath => ?_,
    evidence_of_checkBrokenChains hevidence, hashed_of_checkHashIntegrity hhash⟩
  · obtain ⟨hb, hvisited⟩ := Walks.mem_of_reach hstep ⟨ha, hself⟩ hab
    obtain ⟨parent, hparent, -⟩ := (hsettled b hb hvisited hroot).parents parentId hparentId
    exact ⟨parent, hparent⟩
  · exact (guarded F registry).acyclic ⟨21, hcyclic⟩ hab
  · refine (Walks.stops_or_stays hstep ⟨ha, hself⟩ hpath.chain).imp_right fun hstays => ?_
    have hlast := List.getLast?_eq_getLast_of_ne_nil (List.cons_ne_nil a path)
    obtain ⟨⟨hb, hvisited⟩, hroot⟩ := hstays _ (List.getLast_mem (List.cons_ne_nil a path))
    have hend := hsettled _ hb hvisited hroot
    -- The last of the path has no parent to be found, so none at all.
    have hnone : ((a :: path).getLast (List.cons_ne_nil a path)).parentArtifactIds = [] := by
      refine List.eq_nil_iff_forall_not_mem.mpr fun parentId hparentId => ?_
      obtain ⟨parent, hparent, -⟩ := hend.parents parentId hparentId
      exact hpath.stuck _ hlast parent ⟨parentId, hparentId, hparent⟩
    exact ⟨_, hlast, fun hstate => hend.inferred hstate hnone, hnone⟩

/-- An artifact with the payload `{}`, which stands for its hash, too. -/
def artifact (artifactId epistemicState : String) (parentArtifactIds evidenceRefs : List String) :
    SemanticArtifact :=
  ⟨artifactId, "SemanticIRTrace", epistemicState, [], "{}", "extractor", "{}", parentArtifactIds,
    "", "", "", evidenceRefs⟩

theorem promotion_closed_observed :
    ClosedToRoots [artifact "a" "INFERRED" ["p"] ["artifact:p"], artifact "p" "OBSERVED" [] []] id
      (artifact "a" "INFERRED" ["p"] ["artifact:p"]) :=
  promotion_closed (F := Literal) _ _ (by decide +kernel) _ (List.mem_cons_self ..) rfl
    (by decide +kernel)

/-- A root whose own parent is gone, an end that was rejected, and a reference that says
`artifact:` twice. -/
theorem promotion_open :
    ((canPromote (F := Literal) [artifact "a" "INFERRED" ["p"] ["log"],
        artifact "p" "OBSERVED" ["gone"] []] id (artifact "a" "INFERRED" ["p"] ["log"])
        EpistemicState.verified).1 = true ∧
      ¬ Closed [artifact "a" "INFERRED" ["p"] ["log"], artifact "p" "OBSERVED" ["gone"] []] id
        (artifact "a" "INFERRED" ["p"] ["log"])) ∧
    ((canPromote (F := Literal) [artifact "a" "INFERRED" ["p"] ["log"],
        artifact "p" "REJECTED" [] []] id (artifact "a" "INFERRED" ["p"] ["log"])
        EpistemicState.verified).1 = true ∧
      ¬ Closed [artifact "a" "INFERRED" ["p"] ["log"], artifact "p" "REJECTED" [] []] id
        (artifact "a" "INFERRED" ["p"] ["log"])) ∧
    ((canPromote (F := Literal) [artifact "a" "INFERRED" ["p"] ["artifact:artifact:p"],
        artifact "p" "OBSERVED" [] []] id (artifact "a" "INFERRED" ["p"] ["artifact:artifact:p"])
        EpistemicState.verified).1 = true ∧
      ¬ Closed [artifact "a" "INFERRED" ["p"] ["artifact:artifact:p"],
        artifact "p" "OBSERVED" [] []] id
        (artifact "a" "INFERRED" ["p"] ["artifact:artifact:p"])) := by
  refine ⟨⟨by decide +kernel, fun h => ?_⟩, ⟨by decide +kernel, fun h => ?_⟩,
    ⟨by decide +kernel, fun h => ?_⟩⟩
  · have hparent : Parent [artifact "a" "INFERRED" ["p"] ["log"],
        artifact "p" "OBSERVED" ["gone"] []] (artifact "a" "INFERRED" ["p"] ["log"])
        (artifact "p" "OBSERVED" ["gone"] []) := ⟨"p", List.mem_cons_self .., by decide +kernel⟩
    obtain ⟨c, hc⟩ := h.existing _ (.single hparent) "gone" (List.mem_cons_self ..)
    exact absurd ((Option.isSome_iff_exists).mpr ⟨c, hc⟩) (by decide +kernel)
  · have hmaximal : IsMaximal [artifact "a" "INFERRED" ["p"] ["log"],
        artifact "p" "REJECTED" [] []] [artifact "a" "INFERRED" ["p"] ["log"],
          artifact "p" "REJECTED" [] []] := by
      refine ⟨List.isChain_cons_cons.mpr ⟨⟨"p", List.mem_cons_self .., by decide +kernel⟩,
        List.isChain_singleton _⟩, ?_⟩
      rintro b hb c ⟨parentId, hparentId, -⟩
      obtain rfl := Option.some.inj hb
      cases hparentId
    obtain ⟨b, hb, hroot⟩ := h.rooted _ hmaximal
    have hnone : ∀ b ∈ [artifact "a" "INFERRED" ["p"] ["log"], artifact "p" "REJECTED" [] []],
        ¬ IsRoot b := by decide +kernel
    exact hnone b hb hroot
  · obtain ⟨c, hc⟩ := h.evidence "artifact:p" (by decide +kernel)
    exact absurd ((Option.isSome_iff_exists).mpr ⟨c, hc⟩) (by decide +kernel)

end Promotion

end PiPlatform.AgentChain.Provenance
