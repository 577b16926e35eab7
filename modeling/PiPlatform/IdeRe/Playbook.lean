import Mathlib.Algebra.Ring.Int.Defs
import PiPlatform.Library.Dict
import PiPlatform.Library.StableSort
import PiPlatform.Library.System
import Mathlib.Data.String.Basic

/-! A campaign: phases that put content-addressed nodes into one graph, and the log of what each of
them did.

The log adds up (`Logged`), and the hash of a state says which nodes are in the graph and nothing
else (`stateHash_iff`): a campaign that is dispatched again, in any order, comes to the same
state. -/
namespace PiPlatform.IdeRe.Playbook

open Library

structure GraphNode where
  id : String
  type : String
  title : String
  content : String

structure GraphEdge where
  source : String
  target : String

structure KnowledgeGraph where
  nodes : Dict String GraphNode
  edges : List GraphEdge

structure StageResult where
  stage : String
  nodes : List GraphNode
  edges : List GraphEdge

def StageResult.addTo (result : StageResult) (graph : KnowledgeGraph) : KnowledgeGraph where
  nodes := result.nodes.foldl (fun nodes node => nodes.set node.id node) graph.nodes
  edges := graph.edges ++ result.edges

structure Transition where
  seq : Nat
  phase : String
  stage : String
  nodesAdded : Int
  stateHash : String

structure PhaseRecord where
  phase : String
  stage : String
  nodeCount : Nat

structure Campaign where
  graph : KnowledgeGraph
  transitions : List Transition
  records : List PhaseRecord

section Model
variable (contentHash : List String → String)

/-- `sorted(self.graph.nodes.keys())` -/
def KnowledgeGraph.sortedIds (graph : KnowledgeGraph) : List String :=
  sortBy id (graph.nodes.items.map Prod.fst)

def KnowledgeGraph.stateHash (graph : KnowledgeGraph) : String := contentHash graph.sortedIds

def Campaign.dispatch (campaign : Campaign) (phase : String) (result : StageResult) : Campaign :=
  let graph := result.addTo campaign.graph
  { graph := graph
    transitions := campaign.transitions ++
      [{ seq := campaign.transitions.length + 1
         phase := phase
         stage := result.stage
         nodesAdded := graph.nodes.items.length - campaign.graph.nodes.items.length
         stateHash := graph.stateHash contentHash }]
    records := campaign.records ++ [⟨phase, result.stage, result.nodes.length⟩] }

/-- A campaign dispatches phases one at a time. -/
def campaigns : System Campaign (String × StageResult) where
  initial := ⟨⟨Dict.empty, []⟩, [], []⟩
  step campaign d := campaign.dispatch contentHash d.1 d.2

end Model

/-! ### The nodes of a graph -/

/-- The ids that a run dispatches. -/
def ids (run : List (String × StageResult)) : List String :=
  run.flatMap fun d => d.2.nodes.map GraphNode.id

section Nodes
variable {contentHash : List String → String} {nodes : Dict String GraphNode}

theorem contains_foldl_set (new : List GraphNode) (k : String) :
    (new.foldl (fun nodes node => nodes.set node.id node) nodes).contains k = true ↔
      nodes.contains k = true ∨ k ∈ new.map GraphNode.id := by
  induction new generalizing nodes with
  | nil => simp
  | cons node new ih =>
    rw [List.foldl_cons, ih, Dict.contains_set, List.map_cons, List.mem_cons]
    tauto

theorem contains_after (run : List (String × StageResult)) (k : String) :
    ((campaigns contentHash).after run).graph.nodes.contains k = true ↔ k ∈ ids run := by
  induction run using List.reverseRecOn with
  | nil => simp [campaigns, ids, Dict.contains]
  | append_singleton run d ih =>
    rw [System.after_snoc, ids, List.flatMap_append, List.mem_append, ← ids, ← ih]
    simp only [campaigns, Campaign.dispatch, StageResult.addTo, contains_foldl_set,
      List.flatMap_singleton]

/-- The ids of a graph are the keys of its nodes. -/
theorem mem_keys_after {run : List (String × StageResult)} {k : String} :
    k ∈ ((campaigns contentHash).after run).graph.nodes.items.map Prod.fst ↔ k ∈ ids run := by
  rw [← Dict.contains_iff_mem, contains_after]

theorem length_of_keys {nodes nodes' : Dict String GraphNode}
    (h : ∀ k, nodes.contains k = true ↔ nodes'.contains k = true) :
    nodes.items.length = nodes'.items.length := by
  have hperm : (nodes.items.map Prod.fst).Perm (nodes'.items.map Prod.fst) :=
    (List.perm_ext_iff_of_nodup nodes.nodup nodes'.nodup).mpr fun k => by
      rw [← Dict.contains_iff_mem, ← Dict.contains_iff_mem, h]
  simpa using hperm.length_eq

end Nodes

/-! ### The log -/

section Log
variable (contentHash : List String → String)

/-- The log of a run: one transition and one record for each dispatch, numbered from one, which
add up to the nodes of the graph, and the last of which has its hash. What was logged stays, and
each dispatch logs the nodes it added and the hash after it. -/
structure Logged (run : List (String × StageResult)) (campaign : Campaign) : Prop where
  seq : campaign.transitions.map Transition.seq = List.range' 1 run.length
  phases : campaign.transitions.map Transition.phase = run.map Prod.fst
  recorded : campaign.records.map PhaseRecord.nodeCount = run.map fun d => d.2.nodes.length
  nodesAdded :
    (campaign.transitions.map Transition.nodesAdded).sum = campaign.graph.nodes.items.length
  last : ∀ transition ∈ campaign.transitions.getLast?,
    transition.stateHash = campaign.graph.stateHash contentHash
  each : ∀ before d behind, run = before ++ d :: behind → ∃ transition later,
    campaign.transitions =
      ((campaigns contentHash).after before).transitions ++ transition :: later ∧
    transition.nodesAdded =
      (((campaigns contentHash).after (before ++ [d])).graph.nodes.items.length : Int) -
        ((campaigns contentHash).after before).graph.nodes.items.length ∧
    transition.stateHash =
      ((campaigns contentHash).after (before ++ [d])).graph.stateHash contentHash

theorem Logged.dispatch {run : List (String × StageResult)}
    (h : Logged contentHash run ((campaigns contentHash).after run)) (d : String × StageResult) :
    Logged contentHash (run ++ [d]) ((campaigns contentHash).after (run ++ [d])) := by
  have hafter := System.after_snoc (campaigns contentHash) run d
  obtain ⟨hseq, hphases, hrecorded, hsum, -, heach⟩ := h
  rw [hafter]
  generalize hcampaign : (campaigns contentHash).after run = campaign at *
  change Logged contentHash (run ++ [d]) (campaign.dispatch contentHash d.1 d.2)
  have hlength : campaign.transitions.length = run.length := by
    have hmap := congrArg List.length hphases
    simpa using hmap
  constructor
  · simp only [Campaign.dispatch, List.map_append, hseq, List.length_append, List.length_singleton,
      List.map_singleton, hlength, List.range'_concat, Nat.one_mul, Nat.add_comm 1]
  · simp [Campaign.dispatch, hphases]
  · simp [Campaign.dispatch, hrecorded]
  · simp only [Campaign.dispatch, List.map_append, List.sum_append, hsum,
      List.map_singleton, List.sum_singleton]
    omega
  · intro transition htransition
    simp only [Campaign.dispatch, List.getLast?_append, List.getLast?_singleton,
      Option.some_or, Option.mem_some_iff] at htransition
    exact htransition ▸ rfl
  · intro before d' behind heq
    rcases List.eq_nil_or_concat behind with rfl | ⟨behind, c, rfl⟩
    · obtain ⟨rfl, hd⟩ := List.append_inj' heq rfl
      obtain rfl := List.singleton_inj.mp hd
      rw [hafter, hcampaign]
      exact ⟨_, [], rfl, rfl, rfl⟩
    · rw [List.concat_eq_append, ← List.cons_append, ← List.append_assoc] at heq
      obtain ⟨transition, later, hkept, hadded⟩ :=
        heach before d' behind (List.append_inj' heq rfl).1
      have hlogged : (campaign.dispatch contentHash d.1 d.2).transitions =
          campaign.transitions ++ [_] := rfl
      rw [hlogged, hkept, List.append_assoc]
      exact ⟨transition, _, rfl, hadded⟩

theorem logged_after (run : List (String × StageResult)) :
    Logged contentHash run ((campaigns contentHash).after run) := by
  induction run using List.reverseRecOn with
  | nil => exact ⟨rfl, rfl, rfl, rfl, by simp [campaigns], fun _ _ _ heq => by simp at heq⟩
  | append_singleton run d ih => exact ih.dispatch contentHash d

/-- A graph with the same ids has the same hash. -/
theorem stateHash_congr {graph graph' : KnowledgeGraph}
    (h : ∀ k, graph.nodes.contains k = true ↔ graph'.nodes.contains k = true) :
    graph.stateHash contentHash = graph'.stateHash contentHash := by
  have hperm := (List.perm_ext_iff_of_nodup graph.nodes.nodup graph'.nodes.nodup).mpr fun k => by
    rw [← Dict.contains_iff_mem, ← Dict.contains_iff_mem, h]
  exact congrArg contentHash ((sortBy_eq_iff (by simpa using graph.nodes.nodup)).mpr hperm)

/-- A dispatch of known nodes logs that nothing was added, and the hash there was. -/
theorem dispatch_known (campaign : Campaign) {d : String × StageResult}
    (hknown : ∀ k ∈ ids [d], campaign.graph.nodes.contains k = true) :
    (campaign.dispatch contentHash d.1 d.2).graph.stateHash contentHash =
        campaign.graph.stateHash contentHash ∧
      ∃ transition, (campaign.dispatch contentHash d.1 d.2).transitions =
          campaign.transitions ++ [transition] ∧ transition.nodesAdded = 0 ∧
        transition.stateHash = campaign.graph.stateHash contentHash := by
  have hsame : ∀ k, (d.2.addTo campaign.graph).nodes.contains k = true ↔
      campaign.graph.nodes.contains k = true := by
    intro k
    rw [StageResult.addTo, contains_foldl_set]
    exact ⟨fun h => h.elim id fun hk => hknown k (by simpa [ids] using hk), .inl⟩
  have hhash := stateHash_congr contentHash hsame
  refine ⟨hhash, _, rfl, ?_, hhash⟩
  dsimp only
  rw [length_of_keys hsame]
  exact Int.sub_self _

/-- In every run the log adds up, and whatever is dispatched again afterwards adds no node and
leaves the hash as it is, transition by transition. -/
theorem dispatched_again (run again : List (String × StageResult))
    (hagain : ∀ k ∈ ids again, k ∈ ids run) :
    Logged contentHash (run ++ again) ((campaigns contentHash).after (run ++ again)) ∧
      ∃ later, ((campaigns contentHash).after (run ++ again)).transitions =
          ((campaigns contentHash).after run).transitions ++ later ∧
        ∀ transition ∈ later, transition.nodesAdded = 0 ∧
          transition.stateHash =
            ((campaigns contentHash).after run).graph.stateHash contentHash := by
  refine ⟨logged_after contentHash _, ?_⟩
  -- the hash itself is carried along
  suffices h : ((campaigns contentHash).after (run ++ again)).graph.stateHash contentHash =
      ((campaigns contentHash).after run).graph.stateHash contentHash ∧ _ from h.2
  induction again using List.reverseRecOn with
  | nil => exact ⟨by rw [List.append_nil], [], by simp, by simp⟩
  | append_singleton again d ih =>
    have hsplit : ∀ k, k ∈ ids (again ++ [d]) ↔ k ∈ ids again ∨ k ∈ ids [d] := fun k => by
      rw [ids, List.flatMap_append, List.mem_append, ids, ids]
    obtain ⟨hhash, later, hlater, hnone⟩ := ih fun k hk => hagain k ((hsplit k).mpr (.inl hk))
    obtain ⟨hhash', transition, htransition, hadded, hlast⟩ :=
      dispatch_known contentHash ((campaigns contentHash).after (run ++ again)) (d := d) fun k hk =>
        (contains_after _ k).mpr (by
          rw [ids, List.flatMap_append]
          exact List.mem_append_left _ (hagain k ((hsplit k).mpr (.inr hk))))
    rw [← List.append_assoc, System.after_snoc]
    refine ⟨hhash'.trans hhash, later ++ [transition], ?_, ?_⟩
    · rw [← List.append_assoc, ← hlater]
      exact htransition
    · intro t ht
      cases List.mem_append.mp ht with
      | inl hmem => exact hnone t hmem
      | inr hmem =>
        obtain rfl := List.mem_singleton.mp hmem
        exact ⟨hadded, hlast.trans hhash⟩

theorem sortedIds_eq_iff (run run' : List (String × StageResult)) :
    ((campaigns contentHash).after run).graph.sortedIds =
        ((campaigns contentHash).after run').graph.sortedIds ↔
      ∀ k, k ∈ ids run ↔ k ∈ ids run' := by
  have hnodup := ((campaigns contentHash).after run).graph.nodes.nodup
  have hnodup' := ((campaigns contentHash).after run').graph.nodes.nodup
  rw [KnowledgeGraph.sortedIds, KnowledgeGraph.sortedIds, sortBy_eq_iff (by simpa using hnodup),
    List.perm_ext_iff_of_nodup hnodup hnodup']
  simp only [mem_keys_after]

/-- Two campaigns, of any phases in any order, have one state hash exactly when they have
dispatched the same nodes, unless their ids collide. -/
theorem stateHash_iff (run run' : List (String × StageResult))
    (hcollision : contentHash ((campaigns contentHash).after run).graph.sortedIds =
        contentHash ((campaigns contentHash).after run').graph.sortedIds →
      ((campaigns contentHash).after run).graph.sortedIds =
        ((campaigns contentHash).after run').graph.sortedIds) :
    ((campaigns contentHash).after run).graph.stateHash contentHash =
        ((campaigns contentHash).after run').graph.stateHash contentHash ↔
      ∀ k, k ∈ ids run ↔ k ∈ ids run' := by
  rw [← sortedIds_eq_iff contentHash]
  exact ⟨hcollision, congrArg contentHash⟩

end Log

/-! #### Two phases with a node in common -/

def nodeOf (name : String) : GraphNode := ⟨name, "code-artifact", name, ""⟩

def acquired : String × StageResult := ("acquisition", ⟨"acquisition", [nodeOf "binary"], []⟩)

def captured : String × StageResult :=
  ("dynamic-capture", ⟨"dynamic-trace", [nodeOf "endpoint", nodeOf "binary"], []⟩)

theorem dispatched_again_acquired :
    Logged String.join ([captured] ++ [acquired])
        ((campaigns String.join).after ([captured] ++ [acquired])) ∧
      ∃ later, ((campaigns String.join).after ([captured] ++ [acquired])).transitions =
          ((campaigns String.join).after [captured]).transitions ++ later ∧
        ∀ transition ∈ later, transition.nodesAdded = 0 ∧
          transition.stateHash =
            ((campaigns String.join).after [captured]).graph.stateHash String.join :=
  dispatched_again String.join [captured] [acquired]
    (by simp [ids, acquired, captured, nodeOf])

theorem stateHash_swapped :
    ((campaigns String.join).after [acquired, captured]).graph.stateHash String.join =
      ((campaigns String.join).after [captured, acquired]).graph.stateHash String.join := by
  have hids : ∀ k, k ∈ ids [acquired, captured] ↔ k ∈ ids [captured, acquired] := by
    intro k
    simp [ids, acquired, captured, nodeOf]
    tauto
  exact (stateHash_iff String.join [acquired, captured] [captured, acquired] fun _ =>
    (sortedIds_eq_iff String.join _ _).mpr hids).mpr hids

end PiPlatform.IdeRe.Playbook
