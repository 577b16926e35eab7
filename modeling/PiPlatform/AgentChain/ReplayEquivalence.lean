import Mathlib.Algebra.BigOperators.Group.List.Lemmas
import Mathlib.Algebra.Order.BigOperators.Group.List
import Mathlib.Algebra.Order.Field.Basic
import Mathlib.Data.String.Basic
import Mathlib.Tactic.FieldSimp
import Mathlib.Tactic.NormNum
import PiPlatform.AgentChain.Models
import PiPlatform.Library.StableSort

/-! How far a replayed trace is from its original.

Of several fields with one path the last is compared, and the two scores are fractions of the
number of paths, rounded to four decimals before they are compared with the thresholds. So what
a trace holds more than once may go uncompared, and a small difference among many paths is
none. `exact_replay_iff` says for which traces the classification is nevertheless as promised:
it is in terms of the least and the greatest that the fields of one path can differ. -/
namespace PiPlatform.AgentChain.Replay

open Library Library.Python

structure SemanticField where
  path : String
  inferredType : String
  confidence : ℚ
  deriving DecidableEq

structure SemanticIRTrace where
  endpointTemplate : String
  method : String
  fields : List SemanticField

inductive EquivalenceClass where
  | strictEquivalent
  | semanticEquivalent
  | partialEquivalent
  | nonEquivalent
  | contested
  deriving DecidableEq

structure SemanticDiff where
  structuralDeltaScore : ℚ
  semanticDeltaScore : ℚ
  addedFields : List String
  removedFields : List String
  typeMutations : List String
  authMutations : List String
  endpointStable : Bool
  methodStable : Bool
  replayEquivalence : EquivalenceClass
  driftScore : ℚ

def semanticThreshold : ℚ := 1 / (10 : Nat)
def partialThreshold : ℚ := (35 : Nat) / (100 : Nat)

/-- Of stable traces the narrowest class whose bounds both scores keep. -/
def classifyReplay (s m : ℚ) (endpointStable methodStable : Bool) : EquivalenceClass :=
  if !endpointStable || !methodStable then .nonEquivalent
  else if s = 0 ∧ m = 0 then .strictEquivalent
  else if s ≤ semanticThreshold ∧ m ≤ semanticThreshold then .semanticEquivalent
  else if s ≤ partialThreshold ∧ m ≤ partialThreshold then .partialEquivalent
  else if partialThreshold < s ∨ partialThreshold < m then .nonEquivalent
  else .contested

/-- `sorted(fields, key=lambda f: f.path)`, of the trace without what is not compared. -/
def canonicalize (trace : SemanticIRTrace) : SemanticIRTrace :=
  { trace with fields := sortBy SemanticField.path trace.fields }

/-- `{f.path: f for f in fields}` -/
def fieldsByPath (fields : List SemanticField) : Dict String SemanticField :=
  Dict.ofList (fields.map fun f => (f.path, f))

def pathsOf (fields : List SemanticField) : List String :=
  (fieldsByPath fields).items.map Prod.fst

def isAuth (inferredType : String) : Bool :=
  inferredType ∈ ["JWT", "Base64", "HexDigest", "UNKNOWN_HEX"]

def typeMutation (o r : SemanticField) : Option String :=
  if o.inferredType ≠ r.inferredType then
    some (o.path ++ ": " ++ o.inferredType ++ " -> " ++ r.inferredType)
  else none

def authMutation (o r : SemanticField) : Option String :=
  if isAuth o.inferredType then
    if !isAuth r.inferredType then some (o.path ++ ": auth material lost") else none
  else if isAuth r.inferredType then
    if !isAuth o.inferredType then some (o.path ++ ": auth material appeared") else none
  else none

/-- `round(x, 4)` -/
def round4 (x : ℚ) : ℚ := roundHalfEven (x * (10000 : Nat)) / (10000 : Nat)

/-- Added, removed and common paths come in the order of their set. -/
def computeDiff (order : SetOrder) (original replay : SemanticIRTrace) : SemanticDiff :=
  let endpointStable : Bool := original.endpointTemplate = replay.endpointTemplate
  let methodStable : Bool := original.method = replay.method
  let origPaths := pathsOf original.fields
  let replayPaths := pathsOf replay.fields
  let added := order.iterate (replayPaths.filter (· ∉ origPaths))
  let removed := order.iterate (origPaths.filter (· ∉ replayPaths))
  let common := order.iterate (origPaths.filter (· ∈ replayPaths))
  let pairs := common.filterMap fun path => do
    let o ← (fieldsByPath original.fields).get? path
    let r ← (fieldsByPath replay.fields).get? path
    some (o, r)
  let typeMutations := pairs.filterMap fun p => typeMutation p.1 p.2
  let authMutations := pairs.filterMap fun p => authMutation p.1 p.2
  let confidenceDrift := pairs.foldl (fun drift p => drift + |p.1.confidence - p.2.confidence|) 0
  let totalPaths := (order.iterate (origPaths ++ replayPaths)).length
  let structuralDelta : ℚ :=
    if 0 < totalPaths then ((added.length + removed.length : Nat) : ℚ) / totalPaths else 0
  let mutationCount := typeMutations.length + authMutations.length
  let semanticDelta : ℚ :=
    if 0 < totalPaths then ((mutationCount : Nat) + confidenceDrift) / totalPaths else 0
  let semanticDelta := min semanticDelta 1
  let drift := min (structuralDelta * ((4 : Nat) / (10 : Nat)) +
    semanticDelta * ((6 : Nat) / (10 : Nat))) 1
  { structuralDeltaScore := round4 structuralDelta
    semanticDeltaScore := round4 semanticDelta
    addedFields := added
    removedFields := removed
    typeMutations := typeMutations
    authMutations := authMutations
    endpointStable := endpointStable
    methodStable := methodStable
    replayEquivalence := classifyReplay (round4 structuralDelta) (round4 semanticDelta)
      endpointStable methodStable
    driftScore := round4 drift }

/-- Without the violations, which the diff is not of. -/
def compare (order : SetOrder) (original replay : SemanticIRTrace) : SemanticDiff :=
  computeDiff order (canonicalize original) (canonicalize replay)

/-! ### What is promised -/

section Rules
variable (a b : SemanticIRTrace)

/-- With the same fields, each as often. -/
def Same : Prop :=
  a.endpointTemplate = b.endpointTemplate ∧ a.method = b.method ∧ a.fields.Perm b.fields

/-- Strictly equivalent are the same traces, in whatever order the fields and the traces are. -/
structure Exact (order : SetOrder) : Prop where
  strict : (compare order a b).replayEquivalence = .strictEquivalent ↔ Same a b
  permuted : ∀ fields fields', fields.Perm a.fields → fields'.Perm b.fields →
    (compare order { a with fields } { b with fields := fields' }).replayEquivalence =
      (compare order a b).replayEquivalence
  swapped : (compare order b a).replayEquivalence = (compare order a b).replayEquivalence

/-! ### How far fields differ -/

/-- By the type, by what it says of the authentication, and in the confidence. -/
def distance (o r : SemanticField) : ℚ :=
  (if o.inferredType ≠ r.inferredType then 1 else 0) +
    (if isAuth o.inferredType ≠ isAuth r.inferredType then 1 else 0) +
    |o.confidence - r.confidence|

def paths (fields : List SemanticField) : List String := (fields.map SemanticField.path).dedup

def commonPaths : List String := (paths a.fields).filter (· ∈ paths b.fields)

/-- How many paths are in one trace only. -/
def oneSided : Nat :=
  ((paths b.fields).filter (· ∉ paths a.fields)).length +
    ((paths a.fields).filter (· ∉ paths b.fields)).length

def allPaths : Nat := ((paths a.fields) ++ (paths b.fields)).dedup.length

/-- By how much a field of the one and a field of the other with that path can differ. -/
def distances (path : String) : List ℚ :=
  (a.fields.filter (·.path = path)).flatMap fun o =>
    (b.fields.filter (·.path = path)).map fun r => distance o r

def least : ℚ := ((commonPaths a b).map fun path => ((distances a b path).min?).getD 0).sum

def greatest : ℚ := ((commonPaths a b).map fun path => ((distances a b path).max?).getD 0).sum

/-- That much is, as a fraction of the paths, over `k` ten-thousandths when it is rounded, for an
even `k`. -/
def Over (k : Nat) (amount : ℚ) : Prop :=
  ((2 * k + 1 : Nat) : ℚ) * allPaths a b < (20000 : Nat) * amount

/-- Equal fields do not differ by what is seen, whichever of them are compared. Other traces
differ by what is seen, and no threshold lies between the least and the greatest that their
fields can differ by. -/
def Settled : Prop :=
  (Same a b → ¬ Over a b 0 (greatest a b)) ∧
  (¬ Same a b → (Over a b 0 (oneSided a b) ∨ Over a b 0 (least a b)) ∧
    ∀ k ∈ [1000, 3500], Over a b k (oneSided a b) ∨ Over a b k (least a b) ∨
      ¬ Over a b k (greatest a b))

end Rules

/-! ### Rounding -/

theorem lt_roundHalfEven_iff {k : ℤ} (heven : k % 2 = 0) (q : ℚ) :
    k < roundHalfEven q ↔ (k : ℚ) + 1 / 2 < q := by
  have hfloor := Int.floor_le q
  have hlt := Int.lt_floor_add_one q
  have hcast : ∀ n : ℤ, k + 1 ≤ n ↔ (k : ℚ) + 1 ≤ n := fun n => by exact_mod_cast Iff.rfl
  rcases lt_trichotomy ⌊q⌋ k with hfk | hfk | hfk
  · -- the floor is below
    have hle : (⌊q⌋ : ℚ) + 1 ≤ k := by exact_mod_cast hfk
    refine iff_of_false (fun h => ?_) fun h => by linarith
    rcases roundHalfEven_cases q with heq | ⟨heq, -⟩ <;> omega
  · have hkq : (⌊q⌋ : ℚ) = k := by exact_mod_cast hfk
    rw [roundHalfEven]
    split
    · next hhalf => exact iff_of_false (by omega) fun h => by linarith
    · split
      · next hhalf => exact iff_of_true (by omega) (by linarith)
      · next hhalf =>
        rw [if_pos (hfk ▸ heven)]
        exact iff_of_false (by omega) fun h => hhalf (by linarith)
  · have hle : (k : ℚ) + 1 ≤ ⌊q⌋ := (hcast _).mp (by omega)
    refine iff_of_true ?_ (by linarith)
    rcases roundHalfEven_cases q with heq | ⟨heq, -⟩ <;> omega

theorem lt_round4_iff {k : Nat} (heven : k % 2 = 0) (x : ℚ) :
    (k : ℚ) / (10000 : Nat) < round4 x ↔ ((2 * k + 1 : Nat) : ℚ) < (20000 : Nat) * x := by
  have hpos : (0 : ℚ) < (10000 : Nat) := by norm_num
  rw [round4, div_lt_div_iff_of_pos_right hpos]
  have hround := lt_roundHalfEven_iff (k := (k : ℤ)) (by omega) (x * (10000 : Nat))
  rw [Int.cast_natCast] at hround
  have hcast : (k : ℚ) < (roundHalfEven (x * (10000 : Nat)) : ℚ) ↔
      (k : ℤ) < roundHalfEven (x * (10000 : Nat)) := by
    rw [← Int.cast_lt (R := ℚ), Int.cast_natCast]
  rw [hcast, hround]
  push_cast
  constructor <;> intro h <;> linarith

theorem round4_nonneg {x : ℚ} (h : 0 ≤ x) : 0 ≤ round4 x := by
  have hx : ((0 : ℤ) : ℚ) ≤ x * (10000 : Nat) := by
    rw [Int.cast_zero]
    positivity
  have hround := le_roundHalfEven hx
  exact div_nonneg (by exact_mod_cast hround) (by norm_num)

/-! ### The fields that are compared -/

section Chosen
variable {fields : List SemanticField} {path : String}

theorem get?_fieldsByPath (fields : List SemanticField) (path : String) :
    (fieldsByPath fields).get? path = (fields.filter (·.path = path)).getLast? := by
  induction fields using List.reverseRecOn with
  | nil => rfl
  | append_singleton fields f ih =>
    have hget : (fieldsByPath (fields ++ [f])).get? path =
        if f.path = path then some f else (fieldsByPath fields).get? path := by
      show lookupItem path (setItems [] ((fields ++ [f]).map fun f => (f.path, f))) = _
      rw [List.map_append, setItems, List.foldl_append]
      exact lookupItem_setItem ..
    rw [hget, List.filter_append]
    by_cases hf : f.path = path
    · rw [if_pos hf, List.filter_cons_of_pos (by simpa using hf), List.filter_nil,
        List.getLast?_concat]
    · rw [if_neg hf, List.filter_cons_of_neg (by simpa using hf), List.filter_nil,
        List.append_nil, ih]

theorem mem_paths : path ∈ paths fields ↔ ∃ f ∈ fields, f.path = path := by
  rw [paths, List.mem_dedup, List.mem_map]

theorem nodup_paths : (paths fields).Nodup := List.nodup_dedup _

theorem mem_pathsOf : path ∈ pathsOf fields ↔ path ∈ paths fields := by
  rw [pathsOf, fieldsByPath, Dict.keys_ofList, mem_firstsBy_id, mem_paths]
  simp

theorem nodup_pathsOf : (pathsOf fields).Nodup := (fieldsByPath fields).nodup

/-- The last field with the path. -/
def chosen (fields : List SemanticField) (path : String) : SemanticField :=
  ((fields.filter (·.path = path)).getLast?).getD ⟨path, "", 0⟩

/-- A field of each path. -/
def Chooses (u : String → SemanticField) (fields : List SemanticField) : Prop :=
  ∀ path ∈ paths fields, u path ∈ fields ∧ (u path).path = path

theorem getLast?_filter (h : path ∈ paths fields) :
    (fields.filter (·.path = path)).getLast? = some (chosen fields path) := by
  obtain ⟨f, hf, hpath⟩ := mem_paths.mp h
  have hne : fields.filter (·.path = path) ≠ [] :=
    List.ne_nil_of_mem (List.mem_filter.mpr ⟨hf, by simpa using hpath⟩)
  rw [chosen, List.getLast?_eq_some_getLast hne]
  rfl

theorem chooses_chosen (fields : List SemanticField) : Chooses (chosen fields) fields := by
  intro path h
  have hmem := List.mem_of_getLast? (getLast?_filter h)
  exact ⟨(List.mem_filter.mp hmem).1, of_decide_eq_true (List.mem_filter.mp hmem).2⟩

/-- With its own fields last, every choice is what is compared, of some order of the fields. -/
theorem exists_perm_chosen {u : String → SemanticField} (h : Chooses u fields) :
    ∃ fields', fields'.Perm fields ∧ ∀ path ∈ paths fields, chosen fields' path = u path := by
  let last := (paths fields).map u
  have hlast : ∀ path ∈ paths fields, last.filter (·.path = path) = [u path] := by
    intro path hpath
    have hsame : (paths fields).filter (fun q => (u q).path = path) =
        (paths fields).filter (· = path) :=
      List.filter_congr fun q hq => by rw [(h q hq).2]
    rw [List.filter_map]
    show ((paths fields).filter fun q => (u q).path = path).map u = _
    rw [hsame, List.filter_eq, List.count_eq_one_of_mem nodup_paths hpath]
    rfl
  have hnodup : last.Nodup := by
    refine nodup_paths.map_on fun p hp q hq heq => ?_
    rw [← (h p hp).2, heq, (h q hq).2]
  have hsubset : last ⊆ fields := by
    intro f hf
    obtain ⟨path, hpath, rfl⟩ := List.mem_map.mp hf
    exact (h path hpath).1
  refine ⟨fields.diff last ++ last, ?_, fun path hpath => ?_⟩
  · refine List.perm_append_comm.trans (List.subperm_append_diff_self_of_count_le ?_)
    exact List.subperm_ext_iff.mp (List.subperm_of_subset hnodup hsubset)
  · rw [chosen, List.filter_append, hlast path hpath, List.getLast?_concat]
    rfl

end Chosen

/-! ### The scores -/

section Scores
variable (order : SetOrder) (a b : SemanticIRTrace)

/-- What the compared fields differ by, if those are the compared fields. -/
def total (u v : String → SemanticField) : ℚ :=
  ((commonPaths a b).map fun path => distance (u path) (v path)).sum

theorem typeMutation_length (o r : SemanticField) :
    ((typeMutation o r).toList.length : ℚ) =
      if o.inferredType ≠ r.inferredType then 1 else 0 := by
  rw [typeMutation]
  split <;> simp

theorem authMutation_length (o r : SemanticField) :
    ((authMutation o r).toList.length : ℚ) =
      if isAuth o.inferredType ≠ isAuth r.inferredType then 1 else 0 := by
  rw [authMutation]
  cases isAuth o.inferredType <;> cases isAuth r.inferredType <;> simp

/-- The mutations and the drift of pairs of fields are their distances. -/
theorem sum_distances (pairs : List (SemanticField × SemanticField)) (drift : ℚ) :
    (((pairs.filterMap fun p => typeMutation p.1 p.2).length +
        (pairs.filterMap fun p => authMutation p.1 p.2).length : Nat) : ℚ) +
      pairs.foldl (fun drift p => drift + |p.1.confidence - p.2.confidence|) drift =
      drift + (pairs.map fun p => distance p.1 p.2).sum := by
  induction pairs generalizing drift with
  | nil => simp
  | cons p pairs ih =>
    have hcons : ∀ f : SemanticField × SemanticField → Option String,
        (((p :: pairs).filterMap f).length : ℚ) =
          ((f p).toList.length : ℚ) + ((pairs.filterMap f).length : ℚ) := by
      intro f
      rw [List.filterMap_cons]
      cases f p with
      | none => simp
      | some text => simp [add_comm]
    have hrest := ih (drift + |p.1.confidence - p.2.confidence|)
    push_cast at hrest ⊢
    rw [hcons, hcons, typeMutation_length, authMutation_length, List.foldl_cons, List.map_cons,
      List.sum_cons, distance]
    linarith

theorem pathsOf_canonicalize : (pathsOf (canonicalize a).fields).Perm (paths a.fields) := by
  refine (List.perm_ext_iff_of_nodup nodup_pathsOf nodup_paths).mpr fun path => ?_
  have hsorted := (stableSort_sortBy SemanticField.path a.fields).perm
  show path ∈ pathsOf (sortBy SemanticField.path a.fields) ↔ path ∈ paths a.fields
  rw [mem_pathsOf, mem_paths, mem_paths]
  exact exists_congr fun f => and_congr_left fun _ => hsorted.mem_iff

theorem filter_mem_perm {xs xs' ys ys' : List String} (hxs : xs.Perm xs') (hys : ys.Perm ys') :
    (xs.filter (· ∈ ys)).Perm (xs'.filter (· ∈ ys')) ∧
      (xs.filter (· ∉ ys)).Perm (xs'.filter (· ∉ ys')) := by
  constructor
  · have hsame : xs'.filter (· ∈ ys) = xs'.filter (· ∈ ys') :=
      List.filter_congr fun x _ => by rw [decide_eq_decide, hys.mem_iff]
    exact hsame ▸ hxs.filter _
  · have hsame : xs'.filter (· ∉ ys) = xs'.filter (· ∉ ys') :=
      List.filter_congr fun x _ => by rw [decide_eq_decide, hys.mem_iff]
    exact hsame ▸ hxs.filter _

theorem length_iterate {xs : List String} (h : xs.Nodup) :
    (order.iterate xs).length = xs.length := by
  rw [(order.perm xs).length_eq, h.dedup]

/-- The last field of a path is so too when they are sorted. -/
theorem get?_canonicalize {path : String} (h : path ∈ paths a.fields) :
    (fieldsByPath (canonicalize a).fields).get? path = some (chosen a.fields path) := by
  rw [get?_fieldsByPath]
  show ((sortBy SemanticField.path a.fields).filter _).getLast? = _
  rw [(stableSort_sortBy SemanticField.path a.fields).stable path]
  exact getLast?_filter h

theorem totalPaths_eq : (order.iterate (pathsOf (canonicalize a).fields ++
    pathsOf (canonicalize b).fields)).length = allPaths a b := by
  have happend := (pathsOf_canonicalize a).append (pathsOf_canonicalize b)
  rw [(order.perm _).length_eq, happend.dedup.length_eq]
  rfl

/-- Nothing by nothing is nothing. -/
theorem fraction_eq (x : ℚ) (n : Nat) : (if 0 < n then x / n else 0) = x / n := by
  split
  · rfl
  · next h =>
    obtain rfl : n = 0 := by omega
    rw [Nat.cast_zero, div_zero]

theorem structuralDeltaScore_eq : (compare order a b).structuralDeltaScore =
    round4 (oneSided a b / allPaths a b) := by
  have hadded := (filter_mem_perm (pathsOf_canonicalize b) (pathsOf_canonicalize a)).2
  have hremoved := (filter_mem_perm (pathsOf_canonicalize a) (pathsOf_canonicalize b)).2
  simp only [compare, computeDiff]
  rw [fraction_eq, totalPaths_eq, length_iterate _ (nodup_pathsOf.filter _),
    length_iterate _ (nodup_pathsOf.filter _), hadded.length_eq, hremoved.length_eq]
  rfl

theorem pairs_eq {common : List String}
    (h : ∀ path ∈ common, path ∈ paths a.fields ∧ path ∈ paths b.fields) :
    (common.filterMap fun path => do
      let o ← (fieldsByPath (canonicalize a).fields).get? path
      let r ← (fieldsByPath (canonicalize b).fields).get? path
      some (o, r)) = common.map fun path => (chosen a.fields path, chosen b.fields path) := by
  induction common with
  | nil => rfl
  | cons path common ih =>
    obtain ⟨hpath, hcommon⟩ := List.forall_mem_cons.mp h
    rw [List.filterMap_cons, get?_canonicalize a hpath.1, get?_canonicalize b hpath.2,
      ih hcommon]
    rfl

theorem semanticDeltaScore_eq : (compare order a b).semanticDeltaScore =
    round4 (min (total a b (chosen a.fields) (chosen b.fields) / allPaths a b) 1) := by
  have hcommon := (filter_mem_perm (pathsOf_canonicalize a) (pathsOf_canonicalize b)).1
  have horder := (order.perm ((pathsOf (canonicalize a).fields).filter
    (· ∈ pathsOf (canonicalize b).fields))).trans ((nodup_pathsOf.filter _).dedup ▸ hcommon)
  have hmem : ∀ path ∈ order.iterate ((pathsOf (canonicalize a).fields).filter
      (· ∈ pathsOf (canonicalize b).fields)), path ∈ paths a.fields ∧ path ∈ paths b.fields := by
    intro path hpath
    obtain ⟨ha, hb⟩ := List.mem_filter.mp (horder.mem_iff.mp hpath)
    exact ⟨ha, of_decide_eq_true hb⟩
  simp only [compare, computeDiff]
  rw [fraction_eq, totalPaths_eq, pairs_eq a b hmem, sum_distances, zero_add, List.map_map]
  rw [(horder.map _).sum_eq]
  rfl

end Scores

/-! ### The classes -/

section Classes
variable {a b : SemanticIRTrace} {x y : ℚ} {k : Nat}

instance : Decidable (Over a b k x) := inferInstanceAs (Decidable (_ < _))

/-- One of the two scores is over. -/
def Reaches (a b : SemanticIRTrace) (k : Nat) (x : ℚ) : Prop :=
  Over a b k (oneSided a b) ∨ Over a b k x

instance : Decidable (Reaches a b k x) := inferInstanceAs (Decidable (_ ∨ _))

/-- The class of traces with one endpoint and one method, if their fields differ by that. -/
def band (a b : SemanticIRTrace) (x : ℚ) : EquivalenceClass :=
  if Reaches a b 0 x then
    if Reaches a b 1000 x then
      if Reaches a b 3500 x then .nonEquivalent else .partialEquivalent
    else .semanticEquivalent
  else .strictEquivalent

theorem over_iff (heven : k % 2 = 0) (hzero : allPaths a b = 0 → x = 0) :
    Over a b k x ↔ (k : ℚ) / (10000 : Nat) < round4 (x / allPaths a b) := by
  rw [lt_round4_iff heven, Over]
  rcases Nat.eq_zero_or_pos (allPaths a b) with hnone | hpos
  · rw [hzero hnone, hnone]
    simp only [Nat.cast_zero, mul_zero, div_zero, lt_irrefl, false_iff, not_lt]
    positivity
  · have hpos' : (0 : ℚ) < allPaths a b := by exact_mod_cast hpos
    rw [← mul_div_assoc, lt_div_iff₀ hpos']

theorem over_iff_min (heven : k % 2 = 0) (hk : k < 5000) (hzero : allPaths a b = 0 → x = 0) :
    Over a b k x ↔ (k : ℚ) / (10000 : Nat) < round4 (min (x / allPaths a b) 1) := by
  have hsmall : ((2 * k + 1 : Nat) : ℚ) < (20000 : Nat) * 1 := by
    rw [mul_one]
    exact_mod_cast (by omega : 2 * k + 1 < 20000)
  rw [over_iff heven hzero, lt_round4_iff heven, lt_round4_iff heven,
    mul_min_of_nonneg _ _ (Nat.cast_nonneg _), lt_min_iff, and_iff_left hsmall]

theorem classifyReplay_eq (hx : 0 ≤ x) (hzero : allPaths a b = 0 → x = 0)
    (hone : allPaths a b = 0 → oneSided a b = 0) :
    classifyReplay (round4 (oneSided a b / allPaths a b)) (round4 (min (x / allPaths a b) 1))
      true true = band a b x := by
  have hone' : allPaths a b = 0 → (oneSided a b : ℚ) = 0 := fun h => by
    rw [hone h, Nat.cast_zero]
  have hs := round4_nonneg (x := (oneSided a b : ℚ) / allPaths a b) (by positivity)
  have hm := round4_nonneg (x := min (x / allPaths a b) 1) (le_min (by positivity) zero_le_one)
  have hreaches : ∀ k < 5000, k % 2 = 0 → (Reaches a b k x ↔
      ¬ (round4 (oneSided a b / allPaths a b) ≤ (k : ℚ) / (10000 : Nat) ∧
        round4 (min (x / allPaths a b) 1) ≤ (k : ℚ) / (10000 : Nat))) := by
    intro k hk heven
    rw [Reaches, over_iff heven hone', over_iff_min heven hk hzero, not_and_or, not_le, not_le]
  have hstrict := hreaches 0 (by omega) rfl
  have hsemantic := hreaches 1000 (by omega) rfl
  have hlarge := hreaches 3500 (by omega) rfl
  have hzero_div : ((0 : Nat) : ℚ) / (10000 : Nat) = 0 := by norm_num
  have htenth : ((1000 : Nat) : ℚ) / (10000 : Nat) = semanticThreshold := by
    rw [semanticThreshold]
    norm_num
  have hthird : ((3500 : Nat) : ℚ) / (10000 : Nat) = partialThreshold := by
    rw [partialThreshold]
    norm_num
  rw [hzero_div] at hstrict
  rw [htenth] at hsemantic
  rw [hthird] at hlarge
  generalize round4 (oneSided a b / allPaths a b) = structural at *
  generalize round4 (min (x / allPaths a b) 1) = semantic at *
  rw [classifyReplay, band, if_neg (by simp)]
  have heq : (structural = 0 ∧ semantic = 0) ↔ ¬ Reaches a b 0 x := by
    rw [hstrict, not_not]
    exact ⟨fun h => ⟨h.1.le, h.2.le⟩, fun h => ⟨le_antisymm h.1 hs, le_antisymm h.2 hm⟩⟩
  by_cases hzero' : Reaches a b 0 x
  · rw [if_neg (fun h => heq.mp h hzero'), if_pos hzero']
    by_cases hten : Reaches a b 1000 x
    · rw [if_neg (hsemantic.mp hten), if_pos hten]
      by_cases hthird' : Reaches a b 3500 x
      · have hover := hlarge.mp hthird'
        rw [if_neg hover, if_pos hthird', if_pos]
        rwa [not_and_or, not_le, not_le] at hover
      · rw [if_pos (not_not.mp (hlarge.not.mp hthird')), if_neg hthird']
    · rw [if_pos (not_not.mp (hsemantic.not.mp hten)), if_neg hten]
  · rw [if_pos (heq.mpr hzero'), if_neg hzero']

theorem Over.mono (h : Over a b k x) (hle : x ≤ y) : Over a b k y :=
  h.trans_le (mul_le_mul_of_nonneg_left hle (Nat.cast_nonneg _))

theorem Over.anti {j : Nat} (h : Over a b k x) (hle : j ≤ k) : Over a b j x := by
  refine lt_of_le_of_lt (mul_le_mul_of_nonneg_right ?_ (Nat.cast_nonneg _)) h
  exact_mod_cast (by omega : 2 * j + 1 ≤ 2 * k + 1)

theorem Reaches.mono (h : Reaches a b k x) (hle : x ≤ y) : Reaches a b k y :=
  h.imp_right fun h => h.mono hle

theorem Reaches.anti {j : Nat} (h : Reaches a b k x) (hle : j ≤ k) : Reaches a b j x :=
  h.imp (fun h => h.anti hle) fun h => h.anti hle

theorem band_eq_strict : band a b x = .strictEquivalent ↔ ¬ Reaches a b 0 x := by
  rw [band]
  split
  · next h =>
    refine iff_of_false ?_ (not_not.mpr h)
    split
    · split <;> nofun
    · nofun
  · next h => exact iff_of_true rfl h

theorem band_low : (band a b x = .strictEquivalent ∨ band a b x = .semanticEquivalent) ↔
    ¬ Reaches a b 1000 x := by
  rw [band]
  split
  · split
    · next h =>
      refine iff_of_false ?_ (not_not.mpr h)
      split <;> rintro (h | h) <;> cases h
    · next h => exact iff_of_true (.inr rfl) h
  · next h => exact iff_of_true (.inl rfl) fun hten => h (hten.anti (Nat.zero_le _))

theorem band_eq_non : band a b x = .nonEquivalent ↔ Reaches a b 3500 x := by
  rw [band]
  split
  · split
    · split
      · next h => exact iff_of_true rfl h
      · next h => exact iff_of_false nofun h
    · next h => exact iff_of_false nofun fun hthird => h (hthird.anti (by omega))
  · next h => exact iff_of_false nofun fun hthird => h (hthird.anti (by omega))

/-- Two amounts are told from each other by the thresholds between them. -/
theorem band_eq_iff : band a b x = band a b y ↔
    ∀ k ∈ [0, 1000, 3500], (Reaches a b k x ↔ Reaches a b k y) := by
  simp only [List.forall_mem_cons, List.not_mem_nil, false_imp_iff, implies_true, and_true]
  constructor
  · intro h
    refine ⟨not_iff_not.mp ?_, not_iff_not.mp ?_, ?_⟩
    · rw [← band_eq_strict, ← band_eq_strict, h]
    · rw [← band_low, ← band_low, h]
    · rw [← band_eq_non, ← band_eq_non, h]
  · rintro ⟨hzero, hten, hthird⟩
    simp only [band, hzero, hten, hthird]

end Classes

/-! ### What the choice of the fields makes of it -/

section Choices
variable {a b : SemanticIRTrace} {u v : String → SemanticField} {path : String}

theorem distance_nonneg (o r : SemanticField) : 0 ≤ distance o r := by
  rw [distance]
  have habs := abs_nonneg (o.confidence - r.confidence)
  split <;> split <;> linarith

theorem distance_comm (o r : SemanticField) : distance o r = distance r o := by
  rw [distance, distance, abs_sub_comm]
  simp only [ne_comm]

theorem total_nonneg : 0 ≤ total a b u v := by
  refine List.sum_nonneg fun x hx => ?_
  obtain ⟨path, -, rfl⟩ := List.mem_map.mp hx
  exact distance_nonneg _ _

theorem mem_commonPaths :
    path ∈ commonPaths a b ↔ path ∈ paths a.fields ∧ path ∈ paths b.fields := by
  rw [commonPaths, List.mem_filter, decide_eq_true_eq]

/-- Without paths there is nothing that differs. -/
theorem eq_zero_of_allPaths (h : allPaths a b = 0) : oneSided a b = 0 ∧ total a b u v = 0 := by
  have hnil : (paths a.fields ++ paths b.fields).dedup = [] := List.length_eq_zero_iff.mp h
  have happend : paths a.fields ++ paths b.fields = [] := by
    refine List.eq_nil_iff_forall_not_mem.mpr fun path hpath => ?_
    exact List.not_mem_nil (hnil ▸ List.mem_dedup.mpr hpath)
  obtain ⟨ha, hb⟩ := List.append_eq_nil_iff.mp happend
  constructor
  · rw [oneSided, ha, hb]
    rfl
  · rw [total, commonPaths, ha]
    rfl

theorem mem_distances {x : ℚ} : x ∈ distances a b path ↔
    ∃ o ∈ a.fields, o.path = path ∧ ∃ r ∈ b.fields, r.path = path ∧ distance o r = x := by
  simp only [distances, List.mem_flatMap, List.mem_filter, List.mem_map, decide_eq_true_eq,
    and_assoc]

theorem distance_mem (hu : Chooses u a.fields) (hv : Chooses v b.fields)
    (h : path ∈ commonPaths a b) : distance (u path) (v path) ∈ distances a b path := by
  obtain ⟨ha, hb⟩ := mem_commonPaths.mp h
  exact mem_distances.mpr ⟨_, (hu path ha).1, (hu path ha).2, _, (hv path hb).1, (hv path hb).2,
    rfl⟩

theorem distances_ne_nil (h : path ∈ commonPaths a b) :
    distances a b path ≠ [] :=
  List.ne_nil_of_mem (distance_mem (chooses_chosen _) (chooses_chosen _) h)

/-- However the fields are chosen, they differ by something between the two. -/
theorem total_bounds (hu : Chooses u a.fields) (hv : Chooses v b.fields) :
    least a b ≤ total a b u v ∧ total a b u v ≤ greatest a b := by
  constructor
  · refine List.sum_le_sum fun path hpath => ?_
    obtain ⟨x, hx⟩ := Option.isSome_iff_exists.mp
      (List.isSome_min?_of_ne_nil (distances_ne_nil hpath))
    rw [hx, Option.getD_some]
    exact (List.min?_eq_some_iff.mp hx).2 _ (distance_mem hu hv hpath)
  · refine List.sum_le_sum fun path hpath => ?_
    obtain ⟨x, hx⟩ := Option.isSome_iff_exists.mp
      (List.isSome_max?_of_ne_nil (distances_ne_nil hpath))
    rw [hx, Option.getD_some]
    exact (List.max?_eq_some_iff.mp hx).2 _ (distance_mem hu hv hpath)

/-- One pair of fields for each path, of all their distances one. -/
theorem exists_chooses (pick : String → ℚ)
    (hpick : ∀ path ∈ commonPaths a b, pick path ∈ distances a b path) :
    ∃ u v, Chooses u a.fields ∧ Chooses v b.fields ∧
      total a b u v = ((commonPaths a b).map pick).sum := by
  have hpairs : ∀ path, ∃ p : SemanticField × SemanticField,
      (path ∈ paths a.fields → p.1 ∈ a.fields ∧ p.1.path = path) ∧
      (path ∈ paths b.fields → p.2 ∈ b.fields ∧ p.2.path = path) ∧
      (path ∈ commonPaths a b → distance p.1 p.2 = pick path) := by
    intro path
    by_cases hpath : path ∈ commonPaths a b
    · obtain ⟨o, ho, hopath, r, hr, hrpath, hdistance⟩ := mem_distances.mp (hpick path hpath)
      exact ⟨(o, r), fun _ => ⟨ho, hopath⟩, fun _ => ⟨hr, hrpath⟩, fun _ => hdistance⟩
    · exact ⟨(chosen a.fields path, chosen b.fields path), chooses_chosen a.fields path,
        chooses_chosen b.fields path, fun h => absurd h hpath⟩
  choose p hp using hpairs
  refine ⟨fun path => (p path).1, fun path => (p path).2, fun path => (hp path).1,
    fun path => (hp path).2.1, ?_⟩
  exact congrArg List.sum (List.map_congr_left fun path hpath => (hp path).2.2 hpath)

theorem exists_least : ∃ u v, Chooses u a.fields ∧ Chooses v b.fields ∧
    total a b u v = least a b := by
  refine exists_chooses _ fun path hpath => ?_
  obtain ⟨x, hx⟩ := Option.isSome_iff_exists.mp
    (List.isSome_min?_of_ne_nil (distances_ne_nil hpath))
  rw [hx]
  exact List.min?_mem hx

theorem exists_greatest : ∃ u v, Chooses u a.fields ∧ Chooses v b.fields ∧
    total a b u v = greatest a b := by
  refine exists_chooses _ fun path hpath => ?_
  obtain ⟨x, hx⟩ := Option.isSome_iff_exists.mp
    (List.isSome_max?_of_ne_nil (distances_ne_nil hpath))
  rw [hx]
  exact List.max?_mem hx

end Choices

/-! ### Other orders -/

section Orders
variable {a b : SemanticIRTrace} {fields fields' : List SemanticField}

theorem paths_perm (h : fields.Perm fields') : (paths fields).Perm (paths fields') :=
  (h.map _).dedup

/-- The same paths count the same. -/
theorem counts_congr {c d : SemanticIRTrace} (hc : c.fields.Perm a.fields)
    (hd : d.fields.Perm b.fields) : oneSided c d = oneSided a b ∧ allPaths c d = allPaths a b ∧
      (commonPaths c d).Perm (commonPaths a b) := by
  have hc := paths_perm hc
  have hd := paths_perm hd
  refine ⟨?_, (hc.append hd).dedup.length_eq, (filter_mem_perm hc hd).1⟩
  rw [oneSided, oneSided, (filter_mem_perm hd hc).2.length_eq, (filter_mem_perm hc hd).2.length_eq]

theorem band_congr {c d : SemanticIRTrace} {x : ℚ} (hone : oneSided c d = oneSided a b)
    (hall : allPaths c d = allPaths a b) : band c d x = band a b x := by
  have hreaches : ∀ k, Reaches c d k x ↔ Reaches a b k x := fun k => by
    rw [Reaches, Reaches, Over, Over, Over, Over, hone, hall]
  simp only [band, hreaches]

theorem compare_eq (order : SetOrder) (a b : SemanticIRTrace) :
    (compare order a b).replayEquivalence =
      if a.endpointTemplate = b.endpointTemplate ∧ a.method = b.method then
        band a b (total a b (chosen a.fields) (chosen b.fields))
      else .nonEquivalent := by
  have hclass : (compare order a b).replayEquivalence =
      classifyReplay (compare order a b).structuralDeltaScore
        (compare order a b).semanticDeltaScore (decide (a.endpointTemplate = b.endpointTemplate))
        (decide (a.method = b.method)) := rfl
  rw [hclass]
  split
  · next h =>
    rw [decide_eq_true h.1, decide_eq_true h.2, structuralDeltaScore_eq, semanticDeltaScore_eq]
    exact classifyReplay_eq total_nonneg (fun h => (eq_zero_of_allPaths h).2) fun h =>
      (eq_zero_of_allPaths (u := chosen a.fields) (v := chosen b.fields) h).1
  · next h =>
    rw [classifyReplay, if_pos]
    rcases not_and_or.mp h with h | h <;> simp [h]

/-- However the fields are ordered, they differ by what is chosen of them. -/
theorem compare_perm (order : SetOrder)
    (hstable : a.endpointTemplate = b.endpointTemplate ∧ a.method = b.method)
    (ha : fields.Perm a.fields) (hb : fields'.Perm b.fields) :
    (compare order { a with fields } { b with fields := fields' }).replayEquivalence =
      band a b (total a b (chosen fields) (chosen fields')) := by
  obtain ⟨hone, hall, hcommon⟩ := counts_congr (c := { a with fields })
    (d := { b with fields := fields' }) ha hb
  rw [compare_eq, if_pos hstable, band_congr hone hall, total, (hcommon.map _).sum_eq]
  rfl

theorem compare_swap (order : SetOrder) (a b : SemanticIRTrace) :
    (compare order b a).replayEquivalence = (compare order a b).replayEquivalence := by
  have hone : oneSided b a = oneSided a b := Nat.add_comm ..
  have hall : allPaths b a = allPaths a b := List.perm_append_comm.dedup.length_eq
  have hcommon : (commonPaths b a).Perm (commonPaths a b) := by
    refine (List.perm_ext_iff_of_nodup (nodup_paths.filter _) (nodup_paths.filter _)).mpr ?_
    intro path
    show path ∈ commonPaths b a ↔ path ∈ commonPaths a b
    rw [mem_commonPaths, mem_commonPaths, and_comm]
  have htotal : total b a (chosen b.fields) (chosen a.fields) =
      total a b (chosen a.fields) (chosen b.fields) := by
    rw [total, (hcommon.map _).sum_eq, total]
    exact congrArg List.sum (List.map_congr_left fun path _ => distance_comm _ _)
  rw [compare_eq, compare_eq, htotal, band_congr hone hall]
  simp only [eq_comm]

theorem chooses_perm (h : fields.Perm fields') : Chooses (chosen fields) fields' := by
  intro path hpath
  obtain ⟨hmem, heq⟩ := chooses_chosen fields path ((paths_perm h).mem_iff.mpr hpath)
  exact ⟨h.mem_iff.mp hmem, heq⟩

/-- Every choice is that of an order. -/
theorem exists_orders {u v : String → SemanticField} (hu : Chooses u a.fields)
    (hv : Chooses v b.fields) : ∃ fields fields', fields.Perm a.fields ∧
      fields'.Perm b.fields ∧ total a b (chosen fields) (chosen fields') = total a b u v := by
  obtain ⟨fields, hfields, hchosen⟩ := exists_perm_chosen hu
  obtain ⟨fields', hfields', hchosen'⟩ := exists_perm_chosen hv
  refine ⟨fields, fields', hfields, hfields', congrArg List.sum ?_⟩
  refine List.map_congr_left fun path hpath => ?_
  obtain ⟨ha, hb⟩ := mem_commonPaths.mp hpath
  rw [hchosen path ha, hchosen' path hb]

/-- All orders are of one class exactly if the least and the greatest amount are. -/
theorem permuted_iff : (∀ fields fields', fields.Perm a.fields → fields'.Perm b.fields →
      band a b (total a b (chosen fields) (chosen fields')) =
        band a b (total a b (chosen a.fields) (chosen b.fields))) ↔
    ∀ k ∈ [0, 1000, 3500], Reaches a b k (greatest a b) → Reaches a b k (least a b) := by
  constructor
  · intro h
    obtain ⟨u, v, hu, hv, hleast⟩ := exists_least (a := a) (b := b)
    obtain ⟨u', v', hu', hv', hgreatest⟩ := exists_greatest (a := a) (b := b)
    obtain ⟨fields, fields', hfields, hfields', htotal⟩ := exists_orders hu hv
    obtain ⟨fields₁, fields₁', hfields₁, hfields₁', htotal₁⟩ := exists_orders hu' hv'
    have hsame := (h fields fields' hfields hfields').trans (h _ _ hfields₁ hfields₁').symm
    rw [htotal, htotal₁, hleast, hgreatest, band_eq_iff] at hsame
    exact fun k hk => (hsame k hk).mpr
  · intro h fields fields' hfields hfields'
    have hbounds := total_bounds (chooses_perm hfields) (chooses_perm hfields')
    have hbounds' := total_bounds (chooses_chosen a.fields) (chooses_chosen b.fields)
    refine band_eq_iff.mpr fun k hk => ⟨fun hreaches => ?_, fun hreaches => ?_⟩
    · exact (h k hk (hreaches.mono hbounds.2)).mono hbounds'.1
    · exact (h k hk (hreaches.mono hbounds'.2)).mono hbounds.1

/-- Traces with the same fields have the same paths. -/
theorem Same.oneSided (h : Same a b) : oneSided a b = 0 := by
  have hpaths := paths_perm h.2.2
  have hnil : ∀ xs ys : List String, xs.Perm ys → (xs.filter (· ∉ ys)).length = 0 := by
    intro xs ys hperm
    refine List.length_eq_zero_iff.mpr (List.filter_eq_nil_iff.mpr fun x hx => ?_)
    simpa using hperm.mem_iff.mp hx
  rw [Replay.oneSided, hnil _ _ hpaths, hnil _ _ hpaths.symm]

theorem not_over_zero {k : Nat} : ¬ Over a b k 0 := by
  rw [Over, mul_zero, not_lt]
  positivity

end Orders

/-- The classification of two traces is as promised exactly if their endpoints or methods are
different, or they are settled. -/
theorem exact_replay_iff (order : SetOrder) (a b : SemanticIRTrace) : Exact a b order ↔
    a.endpointTemplate ≠ b.endpointTemplate ∨ a.method ≠ b.method ∨ Settled a b := by
  by_cases hstable : a.endpointTemplate = b.endpointTemplate ∧ a.method = b.method
  · have hclass := compare_eq order a b
    rw [if_pos hstable] at hclass
    have hbounds := total_bounds (chooses_chosen a.fields) (chooses_chosen b.fields)
    rw [or_iff_right (not_not.mpr hstable.1), or_iff_right (not_not.mpr hstable.2)]
    constructor
    · intro h
      have hlevels := permuted_iff.mp fun fields fields' hfields hfields' => by
        rw [← hclass, ← h.permuted fields fields' hfields hfields',
          compare_perm order hstable hfields hfields']
      have hstrict := h.strict
      rw [hclass, band_eq_strict] at hstrict
      refine ⟨fun hsame hover => hstrict.mpr hsame ?_, fun hdiffer => ⟨?_, fun k hk => ?_⟩⟩
      · exact (hlevels 0 (by simp) (.inr hover)).mono hbounds.1
      · have hreaches := not_not.mp (hstrict.not.mpr hdiffer)
        exact hlevels 0 (by simp) (hreaches.mono hbounds.2)
      · by_cases hover : Over a b k (greatest a b)
        · rw [← or_assoc]
          exact .inl (hlevels k (List.mem_cons_of_mem _ hk) (.inr hover))
        · exact .inr (.inr hover)
    · intro h
      have hlevels : (¬ Reaches a b 0 (total a b (chosen a.fields) (chosen b.fields)) ↔
            Same a b) ∧ ∀ k ∈ [0, 1000, 3500],
          Reaches a b k (greatest a b) → Reaches a b k (least a b) := by
        by_cases hsame : Same a b
        · -- nothing is over
          have hnone : ∀ k, ¬ Reaches a b k (greatest a b) := by
            rintro k (hover | hover)
            · rw [hsame.oneSided, Nat.cast_zero] at hover
              exact not_over_zero hover
            · exact h.1 hsame (hover.anti (Nat.zero_le k))
          exact ⟨iff_of_true (fun hreaches => hnone 0 (hreaches.mono hbounds.2)) hsame,
            fun k _ hreaches => absurd hreaches (hnone k)⟩
        · obtain ⟨hzero, hrest⟩ := h.2 hsame
          refine ⟨iff_of_false (not_not.mpr (Reaches.mono hzero hbounds.1)) hsame, ?_⟩
          intro k hk hreaches
          rcases List.mem_cons.mp hk with rfl | hk
          · exact hzero
          · rcases hrest k hk with hover | hover | hover
            · exact .inl hover
            · exact .inr hover
            · exact .inl (hreaches.resolve_right hover)
      refine ⟨?_, fun fields fields' hfields hfields' => ?_, compare_swap order a b⟩
      · rw [hclass, band_eq_strict]
        exact hlevels.1
      · rw [compare_perm order hstable hfields hfields', hclass]
        exact permuted_iff.mpr hlevels.2 fields fields' hfields hfields'
  · have hclass := compare_eq order a b
    rw [if_neg hstable] at hclass
    refine iff_of_true ⟨?_, fun fields fields' _ _ => ?_, compare_swap order a b⟩ ?_
    · rw [hclass]
      exact iff_of_false nofun fun hsame => hstable ⟨hsame.1, hsame.2.1⟩
    · rw [hclass, compare_eq]
      exact if_neg hstable
    · rw [← or_assoc]
      exact .inl (not_and_or.mp hstable)

/-! ### Types that are compared with others -/

section Repeated

def field (path inferredType : String) : SemanticField := ⟨path, inferredType, 1⟩

/-- One path twice, as a text and as a number. -/
def textAndNumber : SemanticIRTrace :=
  ⟨"/items", "GET", [field "id" "STRING", field "id" "INTEGER"]⟩

def number : SemanticIRTrace := ⟨"/items", "GET", [field "id" "INTEGER"]⟩

/-- The text is not compared, and other fields are the same. -/
theorem not_exact_textAndNumber : ¬ Exact textAndNumber number .asBuilt := by
  intro h
  have hsame := h.strict.mp (by decide +kernel)
  exact absurd hsame.2.2.length_eq (by decide)

end Repeated

end PiPlatform.AgentChain.Replay
