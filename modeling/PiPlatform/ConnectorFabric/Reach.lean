import Mathlib.Data.String.Basic
import PiPlatform.ConnectorFabric.Topology

/-! Blast radius and critical path, and the order of imports.

Both are breadth-first searches over the neighbors of nodes. Where the adjacency mirrors the
edges and ids stand for one edge each, the neighbors are those the records name, so no order of
the same calls changes what is reached, or the length of a path. -/
namespace PiPlatform.ConnectorFabric

open Library

namespace UnifiedTopologyGraph

/-- No node waits twice, so a search takes no more turns. -/
def turns (g : UnifiedTopologyGraph) : Nat := (g.adjacency.items.flatMap Prod.snd).length + 1

def blastSearch (g : UnifiedTopologyGraph) (maxHops : Int) : HopSearch String Nat where
  next := g.getNeighbors
  label _ hops := hops + 1
  halts hops := decide (maxHops ≤ (hops : Int))
  goal _ := false

structure BlastRadius where
  origin : String
  maxHops : Int
  reachableCount : Nat
  reachableNodes : List String
  /-- How many nodes are so many hops away. -/
  hopDistribution : List (Nat × Nat)
  deriving DecidableEq

/-- What `visited` of `blast_radius` is at the end of its loop. -/
def blastVisited (g : UnifiedTopologyGraph) (originNode : String) (maxHops : Int) :
    Dict String Nat :=
  ((g.blastSearch maxHops).run g.turns (HopSearch.begin originNode 0)).visited

/-- What is reached within the hops, the origin not counted. -/
def blastRadius (g : UnifiedTopologyGraph) (originNode : String) (maxHops : Int) : BlastRadius :=
  let visited := g.blastVisited originNode maxHops
  { origin := originNode
    maxHops := maxHops
    reachableCount := visited.items.length - 1
    reachableNodes :=
      ((visited.items.map Prod.fst).filter (· ≠ originNode)).insertionSort (· ≤ ·)
    hopDistribution := (List.range maxHops.toNat).map fun h =>
      (h + 1, (visited.items.filter fun p => p.2 = h + 1).length) }

/-- Each node that is visited has the one it was met from. -/
def pathSearch (g : UnifiedTopologyGraph) (toNode : String) : HopSearch String (Option String) where
  next := g.getNeighbors
  label n _ := some n
  halts _ := false
  goal n := decide (n = toNode)

/-- Back from a node to the one the search began at; `path` is what was passed, as it will be
returned. -/
def backtrack (visited : Dict String (Option String)) (fromNode : String) :
    Nat → String → List String → List String
  | 0, _, path => path
  | steps + 1, n, path =>
    if n = fromNode then path
    else
      match visited.get? n with
      | some (some previous) => backtrack visited fromNode steps previous (previous :: path)
      | _ => path

def criticalPath (g : UnifiedTopologyGraph) (fromNode toNode : String) : Option (List String) :=
  if fromNode = toNode then some [fromNode]
  else
    let found := (g.pathSearch toNode).run g.turns (HopSearch.begin fromNode none)
    if found.stopped then
      some (backtrack found.visited fromNode found.visited.items.length toNode [toNode])
    else none

/-! ### What the searches find -/

section Searches
open HopSearch

variable {g g' : UnifiedTopologyGraph} {visited : Dict String (Option String)}

theorem neighbors_bound (g : UnifiedTopologyGraph) :
    ∀ m, ∀ n ∈ g.getNeighbors m, n ∈ (g.adjacency.items.flatMap Prod.snd).toFinset := by
  intro m n hn
  rw [getNeighbors] at hn
  cases hget : g.adjacency.get? m with
  | none =>
    rw [hget] at hn
    cases hn
  | some neighbors =>
    rw [hget] at hn
    exact List.mem_toFinset.mpr
      (List.mem_flatMap.mpr ⟨_, g.adjacency.mem_items.mpr hget, hn⟩)

theorem turns_enough (g : UnifiedTopologyGraph) :
    (g.adjacency.items.flatMap Prod.snd).toFinset.card + 1 ≤ g.turns :=
  Nat.add_le_add_right (List.toFinset_card_le _) 1

theorem blast_labels (g : UnifiedTopologyGraph) (originNode : String) (maxHops : Int) :
    Labels (g.blastSearch maxHops) (fun d => (d : Int) < maxHops) originNode 0
      (fun _ d hops => hops = d) where
  antitone d h := by push_cast at h; omega
  first := rfl
  label n d hops m _ h _ := congrArg Nat.succ h
  halts n d hops h := by
    rw [h]
    exact decide_eq_true_iff.trans not_lt.symm

/-- The nodes that so many hops lead to, up to the bound, have that many. -/
theorem blastVisited_iff (g : UnifiedTopologyGraph) (originNode : String) (maxHops : Int)
    {n : String} {hops : Nat} : (g.blastVisited originNode maxHops).get? n = some hops ↔
      Level g.getNeighbors (fun d => (d : Int) < maxHops) originNode hops n := by
  have hlabels := g.blast_labels originNode maxHops
  have hrunning : ((g.blastSearch maxHops).run g.turns (begin originNode 0)).stopped = false := by
    rcases run_sweeps hlabels g.turns with ⟨d, waiting, queued, hsweep⟩ | hfound
    · exact hsweep.running
    · obtain ⟨m, v, d, hgoal, -⟩ := hfound.goal
      cases hgoal
  have hlabelled := run_labelled hlabels g.turns
  constructor
  · intro hn
    obtain ⟨d, hlevel, rfl⟩ := hlabelled n hops hn
    exact hlevel
  · intro hlevel
    obtain ⟨v, hv⟩ := (visited_iff hlabels g.neighbors_bound g.turns_enough hrunning).mpr
      ⟨hops, hlevel.1⟩
    obtain ⟨d, hlevel', rfl⟩ := hlabelled n v hv
    rw [hlevel.unique hlevel']
    exact hv

theorem blastRadius_congr (h : ∀ n m, m ∈ g.getNeighbors n ↔ m ∈ g'.getNeighbors n)
    (originNode : String) (maxHops : Int) :
    g.blastRadius originNode maxHops = g'.blastRadius originNode maxHops := by
  have hsame : (g.blastVisited originNode maxHops).Same (g'.blastVisited originNode maxHops) := by
    intro n
    ext hops
    rw [blastVisited_iff, blastVisited_iff]
    exact level_congr h
  have hperm := hsame.perm
  have hsorted : ((((g.blastVisited originNode maxHops).items.map Prod.fst).filter
      (· ≠ originNode)).insertionSort (· ≤ ·)) =
      ((((g'.blastVisited originNode maxHops).items.map Prod.fst).filter
      (· ≠ originNode)).insertionSort (· ≤ ·)) := by
    refine List.Perm.eq_of_pairwise (fun a b _ _ hab hba => le_antisymm hab hba)
      (List.pairwise_insertionSort _ _) (List.pairwise_insertionSort _ _) ?_
    exact (List.perm_insertionSort _ _).trans
      (((hperm.map Prod.fst).filter _).trans (List.perm_insertionSort _ _).symm)
  rw [blastRadius, blastRadius]
  simp only [hsorted, hperm.length_eq, fun h : Nat => (hperm.filter fun p => p.2 = h + 1).length_eq]

/-- Where a node was met from, by the level it is on. -/
def Met (next : String → List String) (fromNode _ : String) (d : Nat) :
    Option String → Prop
  | none => d = 0
  | some previous => ∃ e, d = e + 1 ∧ Level next (fun _ => True) fromNode e previous

theorem path_labels (g : UnifiedTopologyGraph) (fromNode toNode : String) :
    Labels (g.pathSearch toNode) (fun _ => True) fromNode none (Met g.getNeighbors fromNode) where
  antitone _ _ := trivial
  first := rfl
  label n d _ m hlevel _ _ := ⟨d, rfl, hlevel⟩
  halts _ _ _ _ := by simp [pathSearch]

theorem backtrack_length {next : String → List String} {fromNode : String}
    (hmet : ∀ n v, visited.get? n = some v → ∃ d, Level next (fun _ => True) fromNode d n ∧
      Met next fromNode n d v) :
    ∀ (d : Nat) (n : String) (path : List String) (steps : Nat), d ≤ steps →
      Level next (fun _ => True) fromNode d n → (∃ v, visited.get? n = some v) →
      (∀ m, ∀ e < d, Level next (fun _ => True) fromNode e m → ∃ v, visited.get? m = some v) →
      (backtrack visited fromNode steps n path).length = d + path.length := by
  intro d
  induction d with
  | zero =>
    intro n path steps _ hlevel _ _
    obtain rfl : n = fromNode := hlevel.1
    cases steps with
    | zero => rw [backtrack, Nat.zero_add]
    | succ steps => rw [backtrack, if_pos rfl, Nat.zero_add]
  | succ d ih =>
    intro n path steps hsteps hlevel hvisited hbelow
    cases steps with
    | zero => exact absurd hsteps (Nat.not_succ_le_zero d)
    | succ steps =>
      have hne : n ≠ fromNode := fun heq => hlevel.2 0 (Nat.succ_pos d) heq
      obtain ⟨v, hv⟩ := hvisited
      obtain ⟨e, hlevel', hmet'⟩ := hmet n v hv
      obtain rfl := hlevel.unique hlevel'
      cases v with
      | none => exact absurd hmet' (Nat.succ_ne_zero d)
      | some previous =>
        obtain ⟨e, he, hprevious⟩ := hmet'
        obtain rfl : d = e := Nat.succ.inj he
        rw [backtrack, if_neg hne, hv]
        dsimp only
        rw [ih previous (previous :: path) steps (Nat.le_of_succ_le_succ hsteps) hprevious
          (hbelow previous d (Nat.lt_succ_self d) hprevious)
          (fun m e he => hbelow m e (Nat.lt_succ_of_lt he)), List.length_cons]
        omega

/-- So far a search has visited a node on each level it has come through. -/
theorem level_lt_items {next : String → List String} {fromNode n : String} {d : Nat}
    (hlevel : Level next (fun _ => True) fromNode d n)
    (hvisited : ∀ m, ∀ e < d, Level next (fun _ => True) fromNode e m →
      ∃ v, visited.get? m = some v) : d ≤ visited.items.length := by
  have hexists : ∀ e, ∃ m, e ≤ d → Level next (fun _ => True) fromNode e m := by
    intro e
    by_cases he : e ≤ d
    · obtain ⟨m, hm⟩ := hlevel.nonempty (fun _ _ _ _ => trivial) he
      exact ⟨m, fun _ => hm⟩
    · exact ⟨n, fun h => absurd h he⟩
  choose node hnode using hexists
  have hnodup : ((List.range d).map node).Nodup := by
    refine List.Nodup.map_on (fun e he e' he' heq => ?_) List.nodup_range
    have hlt := List.mem_range.mp he
    have hlt' := List.mem_range.mp he'
    refine (hnode e hlt.le).unique ?_
    rw [heq]
    exact hnode e' hlt'.le
  have hsubset : (List.range d).map node ⊆ visited.items.map Prod.fst := by
    intro m hm
    obtain ⟨e, he, rfl⟩ := List.mem_map.mp hm
    have hlt := List.mem_range.mp he
    obtain ⟨v, hv⟩ := hvisited _ e hlt (hnode e hlt.le)
    exact List.mem_map.mpr ⟨_, visited.mem_items.mpr hv, rfl⟩
  simpa using (List.subperm_of_subset hnodup hsubset).length_le

/-- A critical path has a node for each level up to that of its end. -/
theorem criticalPath_level {fromNode toNode : String} {d : Nat}
    (hlevel : Level g.getNeighbors (fun _ => True) fromNode d toNode) :
    (g.criticalPath fromNode toNode).map List.length = some (d + 1) := by
  rw [criticalPath]
  split_ifs with heq
  · have hzero : Level g.getNeighbors (fun _ => True) fromNode 0 toNode :=
      ⟨heq.symm, fun e he => absurd he (Nat.not_lt_zero e)⟩
    rw [hlevel.unique hzero]
    rfl
  have hlabels := g.path_labels fromNode toNode
  dsimp only
  split_ifs with hstopped
  · have hmet := run_labelled hlabels g.turns
    rcases run_sweeps hlabels g.turns with ⟨e, waiting, queued, hsweep⟩ | hfound
    · rw [hsweep.running] at hstopped
      cases hstopped
    · obtain ⟨m, v, e, hgoal, hv, hlevel', hbelow⟩ := hfound.goal
      obtain rfl : toNode = m := (of_decide_eq_true hgoal).symm
      obtain rfl := hlevel.unique hlevel'
      have hvisited : ∀ m, ∀ k < e + 1, Level g.getNeighbors (fun _ => True) fromNode k m →
          ∃ v, ((g.pathSearch toNode).run g.turns (begin fromNode none)).visited.get? m = some v :=
        fun m k hk hm => hbelow m (hm.1.mono (Nat.le_of_lt_succ hk))
      rw [Option.map_some, backtrack_length hmet (e + 1) toNode [toNode] _
        (level_lt_items hlevel hvisited) hlevel ⟨v, hv⟩ hvisited]
      rfl
  · exfalso
    have hrunning := Bool.eq_false_iff.mpr hstopped
    obtain ⟨v, hv⟩ := (visited_iff hlabels g.neighbors_bound g.turns_enough hrunning).mpr
      ⟨d, hlevel.1⟩
    rcases run_sweeps hlabels g.turns with ⟨e, waiting, queued, hsweep⟩ | hfound
    · rcases hsweep.missed toNode v hv with horigin | hgoal
      · exact heq horigin.symm
      · exact absurd (of_decide_eq_false hgoal) (fun hne => hne rfl)
    · exact hstopped hfound.stopped

/-- There is none where no level holds its end. -/
theorem criticalPath_none {fromNode toNode : String}
    (hnone : ∀ d, ¬ Level g.getNeighbors (fun _ => True) fromNode d toNode) :
    g.criticalPath fromNode toNode = none := by
  rw [criticalPath]
  split_ifs with heq
  · exact absurd ⟨heq.symm, fun e he => absurd he (Nat.not_lt_zero e)⟩ (hnone 0)
  dsimp only
  split_ifs with hstopped
  · rcases run_sweeps (g.path_labels fromNode toNode) g.turns with
      ⟨e, waiting, queued, hsweep⟩ | hfound
    · rw [hsweep.running] at hstopped
      cases hstopped
    · obtain ⟨m, v, e, hgoal, -, hlevel, -⟩ := hfound.goal
      obtain rfl : toNode = m := (of_decide_eq_true hgoal).symm
      exact absurd hlevel (hnone (e + 1))
  · rfl

theorem criticalPath_congr (h : ∀ n m, m ∈ g.getNeighbors n ↔ m ∈ g'.getNeighbors n)
    (fromNode toNode : String) : (g.criticalPath fromNode toNode).map List.length =
      (g'.criticalPath fromNode toNode).map List.length := by
  by_cases hlevel : ∃ d, Level g.getNeighbors (fun _ => True) fromNode d toNode
  · obtain ⟨d, hd⟩ := hlevel
    rw [criticalPath_level hd, criticalPath_level ((level_congr h).mp hd)]
  · have hnone := not_exists.mp hlevel
    rw [criticalPath_none hnone, criticalPath_none fun d hd => hnone d ((level_congr h).mpr hd)]

end Searches

/-! ### Any order of the calls -/

/-- An id stands for one edge: records that share it lead from and to the same nodes. -/
def Unambiguous (entries : List Entry) : Prop :=
  ∀ x ∈ entries, ∀ y ∈ entries, ∀ e ∈ x.edge?, ∀ e' ∈ y.edge?, e.edgeId = e'.edgeId →
    ∀ n m, (n, m) ∈ e.pairs ↔ (n, m) ∈ e'.pairs

theorem edges_addNode (a : NormalizedArtifact) (g : UnifiedTopologyGraph) (raw : RawNode) :
    (addNode a g raw).edges = g.edges := by
  rw [addNode]
  split_ifs
  · rfl
  · rfl

/-- What an entry does to the edges: nothing, where it has none or the id is taken, or it stores
its edge. -/
theorem edges_enter (g : UnifiedTopologyGraph) (x : Entry) :
    (g.enter x).edges = g.edges ∧ (∀ e ∈ x.edge?, g.edges.contains e.edgeId = true) ∨
      ∃ e ∈ x.edge?, (g.enter x).edges = g.edges.set e.edgeId e := by
  cases x with
  | node a raw => exact .inl ⟨edges_addNode a g raw, nofun⟩
  | edge a raw | relationship a raw | dependency a raw =>
    simp only [enter, addEdge_eq, addRelationship_eq, addDependency_eq]
    split_ifs with hknown
    · refine .inl ⟨rfl, fun e he => ?_⟩
      rw [← Option.some.inj he]
      exact hknown
    · exact .inr ⟨_, rfl, rfl⟩
  | link fromNode toNode relation => exact .inr ⟨_, rfl, rfl⟩

/-- The edges after a run: each is a record's, and each record has one under its id. -/
structure Recorded (entries : List Entry) (g : UnifiedTopologyGraph) : Prop where
  from_record : ∀ id e, g.edges.get? id = some e → e.edgeId = id ∧ ∃ x ∈ entries, e ∈ x.edge?
  stored : ∀ x ∈ entries, ∀ e ∈ x.edge?, ∃ e', g.edges.get? e.edgeId = some e'

theorem recorded_after (entries : List Entry) : Recorded entries (entered.after entries) := by
  induction entries using List.reverseRecOn with
  | nil =>
    refine ⟨fun id e h => ?_, List.forall_mem_nil _⟩
    cases h
  | append_singleton entries x ih =>
    rw [entered.after_snoc]
    show Recorded (entries ++ [x]) ((entered.after entries).enter x)
    rcases edges_enter (entered.after entries) x with ⟨hsame, htaken⟩ | ⟨e, he, hset⟩
    · constructor
      · intro id e' hget
        rw [hsame] at hget
        obtain ⟨hid, y, hy, he'⟩ := ih.from_record id e' hget
        exact ⟨hid, y, List.mem_append_left _ hy, he'⟩
      · intro y hy e' he'
        rw [hsame]
        rcases List.mem_append.mp hy with hy | hy
        · exact ih.stored y hy e' he'
        · obtain rfl := List.mem_singleton.mp hy
          exact Option.isSome_iff_exists.mp (htaken e' he')
    · constructor
      · intro id e' hget
        rw [hset, Dict.get?_set] at hget
        split_ifs at hget with hid
        · rw [← Option.some.inj hget]
          exact ⟨hid, x, List.mem_append_right _ (List.mem_singleton_self x), he⟩
        · obtain ⟨hid', y, hy, he'⟩ := ih.from_record id e' hget
          exact ⟨hid', y, List.mem_append_left _ hy, he'⟩
      · intro y hy e' he'
        rw [hset, Dict.get?_set]
        split_ifs with hid
        · exact ⟨e, rfl⟩
        · rcases List.mem_append.mp hy with hy | hy
          · exact ih.stored y hy e' he'
          · obtain rfl := List.mem_singleton.mp hy
            rw [Option.mem_def.mp he, Option.mem_def, Option.some.injEq] at he'
            exact absurd (congrArg TopologyEdge.edgeId he') hid

/-- Where ids stand for one edge, the edges lead where the records say. -/
theorem linked_after_iff {entries : List Entry} (h : Unambiguous entries) {n m : String} :
    (entered.after entries).Linked n m ↔ ∃ x ∈ entries, ∃ e ∈ x.edge?, (n, m) ∈ e.pairs := by
  have hrecorded := recorded_after entries
  constructor
  · intro hlinked
    obtain ⟨id, e, hget, hmem⟩ := hlinked
    obtain ⟨-, x, hx, he⟩ := hrecorded.from_record id e hget
    exact ⟨x, hx, e, he, hmem⟩
  · intro hrecord
    obtain ⟨x, hx, e, he, hmem⟩ := hrecord
    obtain ⟨e', hget⟩ := hrecorded.stored x hx e he
    obtain ⟨hid, y, hy, he'⟩ := hrecorded.from_record _ e' hget
    exact ⟨_, e', hget, (h x hx y hy e he e' he' hid.symm n m).mp hmem⟩

theorem mirrored_after {calls : List Call}
    (h : entered.Admits Keeps (calls.flatMap Call.entries)) : graphs.Always Mirrored calls := by
  intro before behind heq
  rw [after_entries]
  refine (mirrored_iff _).mpr h _ (behind.flatMap Call.entries) ?_
  rw [heq, List.flatMap_append]

/-- The same calls in any order give the same neighbors. -/
theorem neighbors_perm {calls calls' : List Call} (hperm : calls.Perm calls')
    (h : entered.Admits Keeps (calls.flatMap Call.entries))
    (h' : entered.Admits Keeps (calls'.flatMap Call.entries))
    (hids : Unambiguous (calls.flatMap Call.entries)) (n m : String) :
    m ∈ (graphs.after calls).getNeighbors n ↔ m ∈ (graphs.after calls').getNeighbors n := by
  have hentries : ∀ x, x ∈ calls.flatMap Call.entries ↔ x ∈ calls'.flatMap Call.entries :=
    fun x => (hperm.flatMap_right Call.entries).mem_iff
  have hids' : Unambiguous (calls'.flatMap Call.entries) := fun x hx y hy =>
    hids x ((hentries x).mpr hx) y ((hentries y).mpr hy)
  have hmirrored := mirrored_after h calls [] (List.append_nil _).symm n m
  have hmirrored' := mirrored_after h' calls' [] (List.append_nil _).symm n m
  rw [hmirrored, hmirrored', after_entries, after_entries, linked_after_iff hids,
    linked_after_iff hids']
  exact exists_congr fun x => and_congr_left fun _ => hentries x

end UnifiedTopologyGraph

open UnifiedTopologyGraph

/-- Record by record the adjacency mirrors the edges exactly when each record keeps it so. Then it
does after each call, and where ids stand for one edge, no order of the calls that keeps it so
changes the reach of a node or the length of a path. -/
theorem reach_invariant (calls : List Call) :
    (entered.Always Mirrored (calls.flatMap Call.entries) ↔
      entered.Admits Keeps (calls.flatMap Call.entries)) ∧
    (entered.Admits Keeps (calls.flatMap Call.entries) → graphs.Always Mirrored calls ∧
      (Unambiguous (calls.flatMap Call.entries) → ∀ calls', calls.Perm calls' →
        entered.Admits Keeps (calls'.flatMap Call.entries) →
        (∀ originNode maxHops, (graphs.after calls).blastRadius originNode maxHops =
          (graphs.after calls').blastRadius originNode maxHops) ∧
        ∀ fromNode toNode, ((graphs.after calls).criticalPath fromNode toNode).map List.length =
          ((graphs.after calls').criticalPath fromNode toNode).map List.length)) := by
  refine ⟨mirrored_iff _, fun h => ⟨mirrored_after h, fun hids calls' hperm h' => ?_⟩⟩
  have hneighbors := neighbors_perm hperm h h' hids
  exact ⟨blastRadius_congr hneighbors, criticalPath_congr hneighbors⟩

def artifactOf (nodes : List RawNode) (edges : List RawEdge) : NormalizedArtifact :=
  ⟨"7f3c", "aws", "t1", nodes, edges, [], []⟩

def edgeFrom (source target : String) : RawEdge := ⟨some source, some target, none, none⟩

/-- An artifact with its nodes before their edge, and one with a node alone. -/
def service : Call :=
  .addArtifact (artifactOf [⟨some "web", none⟩, ⟨some "db", none⟩] [edgeFrom "web" "db"])

def cache : Call := .addArtifact (artifactOf [⟨some "cache", none⟩] [])

theorem service_cache_reach : graphs.Always Mirrored [service, cache] ∧
    (graphs.after [service, cache]).blastRadius "web" 5 =
      (graphs.after [cache, service]).blastRadius "web" 5 := by
  have hnil : entered.Admits Keeps [] := fun before _ _ h => by cases before <;> cases h
  have hkeeps : entered.Admits Keeps ([service, cache].flatMap Call.entries) := by
    show entered.Admits Keeps (((([] ++ [_]) ++ [_]) ++ [_]) ++ [_])
    refine (System.admits_snoc _).mpr ⟨(System.admits_snoc _).mpr ⟨(System.admits_snoc _).mpr
      ⟨(System.admits_snoc _).mpr ⟨hnil, .inr rfl⟩, .inr rfl⟩, .inr ?_⟩, .inr rfl⟩
    show ∀ p ∈ _, _
    decide +kernel
  have hkeeps' : entered.Admits Keeps ([cache, service].flatMap Call.entries) := by
    show entered.Admits Keeps (((([] ++ [_]) ++ [_]) ++ [_]) ++ [_])
    refine (System.admits_snoc _).mpr ⟨(System.admits_snoc _).mpr ⟨(System.admits_snoc _).mpr
      ⟨(System.admits_snoc _).mpr ⟨hnil, .inr rfl⟩, .inr rfl⟩, .inr rfl⟩, .inr ?_⟩
    show ∀ p ∈ _, _
    decide +kernel
  have hedge : ∀ x ∈ [service, cache].flatMap Call.entries, ∀ e ∈ x.edge?,
      e = edgeOf (artifactOf [] []) (edgeFrom "web" "db") := by decide +kernel
  have hids : Unambiguous ([service, cache].flatMap Call.entries) := by
    intro x hx y hy e he e' he' _ n m
    rw [hedge x hx e he, hedge y hy e' he']
  obtain ⟨hmirrored, horder⟩ := (reach_invariant [service, cache]).2 hkeeps
  exact ⟨hmirrored, (horder hids [cache, service] (.swap ..) hkeeps').1 "web" 5⟩

/-! ### An edge that comes before its node -/

/-- The node that is imported after its edge has no neighbors. -/
theorem early_edge_unmirrored : ¬ graphs.Always Mirrored
    [.addArtifact (artifactOf [] [edgeFrom "web" "db"]),
      .addArtifact (artifactOf [⟨some "web", none⟩, ⟨some "db", none⟩] [])] := by
  intro halways
  have hmirrored := halways _ [] (List.append_nil _).symm
  have hneighbor := (hmirrored "web" "db").mpr
    ⟨"edge_web_db_link", edgeOf (artifactOf [] []) (edgeFrom "web" "db"), by decide +kernel,
      by decide +kernel⟩
  exact absurd hneighbor (by decide +kernel)

end PiPlatform.ConnectorFabric
