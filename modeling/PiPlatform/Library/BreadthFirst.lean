import Mathlib.Data.Finset.Card
import PiPlatform.Library.Dict

/-! Breadth-first search for a path, with a bound on its length.

The queue holds nodes with the edges that led there; a node is expanded once, and no
path grows beyond the bound. Each turn of the loop expands a node that has edges, of
which there are finitely many, or shortens the queue.

What is found depends on little of the graph: of the edges from a node to another one,
only on the first, and of a queue, only on the first entry for each node that is still
to be expanded (`search_congr`). -/
namespace PiPlatform.Library

variable {N E : Type} [DecidableEq N]

/-- The edges from each node, in their order. -/
structure EdgeGraph (N E : Type) [DecidableEq N] where
  edges : Dict N (List E)
  target : E → N

namespace EdgeGraph
variable {g : EdgeGraph N E} {maxHops : Int}

def edgesFrom (g : EdgeGraph N E) (n : N) : List E := (g.edges.get? n).getD []

/-- The edges grouped by where they start, in their order. -/
def ofEdges (source target : E → N) (es : List E) : EdgeGraph N E :=
  ⟨es.foldl (fun d e => d.set (source e) ((d.get? (source e)).getD [] ++ [e])) .empty, target⟩

theorem edgesFrom_ofEdges (source target : E → N) (es : List E) (n : N) :
    (ofEdges source target es).edgesFrom n = es.filter fun e => source e = n := by
  have hrun : ∀ (es : List E) (d : Dict N (List E)),
      ((es.foldl (fun d e => d.set (source e) ((d.get? (source e)).getD [] ++ [e])) d).get?
        n).getD [] = (d.get? n).getD [] ++ es.filter fun e => source e = n := by
    intro es
    induction es with
    | nil => exact fun d => (List.append_nil _).symm
    | cons e es ih =>
      intro d
      rw [List.foldl_cons, ih, Dict.get?_set]
      by_cases he : source e = n
      · rw [if_pos he, List.filter_cons_of_pos (by simpa using he), he]
        simp
      · rw [if_neg he, List.filter_cons_of_neg (by simpa using he)]
  exact hrun es .empty

/-- What is left to expand, each with the path that led there. -/
abbrev Queue (N E : Type) := List (N × List E)

/-- The inner loop: a path that ends at the goal, or the queue with the ends of those
that may grow on. -/
def scan (g : EdgeGraph N E) (goal : N) (maxHops : Int) (path : List E) :
    List E → Queue N E → List E ⊕ Queue N E
  | [], queue => .inr queue
  | e :: es, queue =>
    let newPath := path ++ [e]
    if g.target e = goal then .inl newPath
    else if (newPath.length : Int) < maxHops then
      g.scan goal maxHops path es (queue ++ [(g.target e, newPath)])
    else g.scan goal maxHops path es queue

/-- The ends of the paths that may grow on. -/
def grown (g : EdgeGraph N E) (maxHops : Int) (path : List E) (es : List E) : Queue N E :=
  if (path.length : Int) + 1 < maxHops then es.map fun e => (g.target e, path ++ [e]) else []

theorem scan_eq (g : EdgeGraph N E) (goal : N) (maxHops : Int) (path es : List E)
    (queue : Queue N E) :
    g.scan goal maxHops path es queue =
      match es.find? fun e => g.target e = goal with
      | some e => .inl (path ++ [e])
      | none => .inr (queue ++ g.grown maxHops path es) := by
  induction es generalizing queue with
  | nil => simp [scan, grown]
  | cons e es ih =>
    by_cases he : g.target e = goal
    · rw [scan, if_pos he, List.find?_cons_of_pos (by simpa using he)]
    · rw [scan, if_neg he, List.find?_cons_of_neg (by simpa using he), ih, ih]
      have hlength : ((path ++ [e]).length : Int) = path.length + 1 := by simp
      rw [hlength, grown, grown]
      cases es.find? fun e => g.target e = goal with
      | some e' => split <;> rfl
      | none => split <;> simp

theorem scan_inl {goal : N} {path es newPath : List E}
    {queue : Queue N E} (h : g.scan goal maxHops path es queue = .inl newPath) :
    ∃ e, es.find? (fun e => g.target e = goal) = some e ∧ newPath = path ++ [e] := by
  rw [scan_eq] at h
  cases hfind : es.find? fun e => g.target e = goal with
  | some e =>
    rw [hfind] at h
    exact ⟨e, rfl, (Sum.inl.inj h).symm⟩
  | none =>
    rw [hfind] at h
    cases h

theorem scan_inr {goal : N} {path es : List E}
    {queue queue' : Queue N E} (h : g.scan goal maxHops path es queue = .inr queue') :
    es.find? (fun e => g.target e = goal) = none ∧
      queue' = queue ++ g.grown maxHops path es := by
  rw [scan_eq] at h
  cases hfind : es.find? fun e => g.target e = goal with
  | some e =>
    rw [hfind] at h
    cases h
  | none =>
    rw [hfind] at h
    exact ⟨rfl, (Sum.inr.inj h).symm⟩

theorem grown_ne_goal (g : EdgeGraph N E) {goal : N} {path es : List E}
    (h : es.find? (fun e => g.target e = goal) = none) :
    ∀ entry ∈ g.grown maxHops path es, entry.1 ≠ goal := by
  intro entry hentry
  rw [grown] at hentry
  split at hentry
  · obtain ⟨e, he, rfl⟩ := List.mem_map.mp hentry
    simpa using List.find?_eq_none.mp h e he
  · cases hentry

/-- The nodes with edges that have not been expanded. -/
def unvisited (g : EdgeGraph N E) (visited : List N) : Finset N :=
  (g.edges.items.map Prod.fst).toFinset \ visited.toFinset

theorem unvisited_subset (g : EdgeGraph N E) (visited : List N) (n : N) :
    g.unvisited (n :: visited) ⊆ g.unvisited visited := by
  intro x hx
  simp only [unvisited, Finset.mem_sdiff, List.mem_toFinset, List.mem_cons, not_or] at hx ⊢
  exact ⟨hx.1, hx.2.2⟩

theorem edgesFrom_eq_nil {n : N} (h : n ∉ g.edges.items.map Prod.fst) :
    g.edgesFrom n = [] := by
  rw [edgesFrom]
  cases hget : g.edges.get? n with
  | none => rfl
  | some es =>
    exact absurd (List.mem_map_of_mem (f := Prod.fst) (g.edges.mem_items.mpr hget)) h

/-- A turn that expands a node leaves fewer to expand, or the queue shorter. -/
theorem unvisited_decreases {goal : N} {visited : List N}
    {n : N} {path : List E} {queue queue' : Queue N E} (hn : n ∉ visited)
    (h : g.scan goal maxHops path (g.edgesFrom n) queue = .inr queue') :
    (g.unvisited (n :: visited)).card < (g.unvisited visited).card ∨
      (g.unvisited (n :: visited)).card = (g.unvisited visited).card ∧
        queue'.length < queue.length + 1 := by
  have hsubset := g.unvisited_subset visited n
  rcases (Finset.card_le_card hsubset).lt_or_eq with hlt | heq
  · exact .inl hlt
  · refine .inr ⟨heq, ?_⟩
    have hnot : n ∉ g.edges.items.map Prod.fst := by
      intro hmem
      have hin : n ∈ g.unvisited visited := by
        simp only [unvisited, Finset.mem_sdiff, List.mem_toFinset]
        exact ⟨hmem, hn⟩
      rw [← Finset.eq_of_subset_of_card_le hsubset heq.ge] at hin
      simp [unvisited] at hin
    rw [edgesFrom_eq_nil hnot, scan] at h
    cases h
    exact Nat.lt_succ_self _

/-- The loop, until a path is found or the queue is empty. -/
def search (g : EdgeGraph N E) (goal : N) (maxHops : Int) (visited : List N) :
    Queue N E → List E
  | [] => []
  | (n, path) :: queue =>
    if _hn : n ∈ visited then g.search goal maxHops visited queue
    else
      match _h : g.scan goal maxHops path (g.edgesFrom n) queue with
      | .inl newPath => newPath
      | .inr queue' => g.search goal maxHops (n :: visited) queue'
termination_by queue => ((g.unvisited visited).card, queue.length)
decreasing_by
  · exact Prod.Lex.right _ (Nat.lt_succ_self _)
  · exact Prod.lex_def.mpr (unvisited_decreases _hn _h)

/-- A shortest path, or none: no edges either when there is no way within the bound or
when the way is empty. -/
def findPath (g : EdgeGraph N E) (start goal : N) (maxHops : Int) : List E :=
  if start = goal then [] else g.search goal maxHops [] [(start, [])]

section Search
variable {g g' : EdgeGraph N E} {goal : N} {maxHops : Int} {visited : List N} {n : N}
  {path : List E}
  {queue queue' : Queue N E}

@[simp] theorem search_nil : g.search goal maxHops visited [] = [] := by
  rw [search]

theorem search_stale (hn : n ∈ visited) :
    g.search goal maxHops visited ((n, path) :: queue) = g.search goal maxHops visited queue := by
  rw [search, dif_pos hn]

theorem search_new (hn : n ∉ visited) :
    g.search goal maxHops visited ((n, path) :: queue) =
      match (g.edgesFrom n).find? fun e => g.target e = goal with
      | some e => path ++ [e]
      | none => g.search goal maxHops (n :: visited)
          (queue ++ g.grown maxHops path (g.edgesFrom n)) := by
  have hscan := g.scan_eq goal maxHops path (g.edgesFrom n) queue
  rw [search, dif_neg hn]
  split <;> split at hscan <;> simp_all

/-- Up to the first entry to be expanded nothing happens. -/
theorem search_skip {fresh : Queue N E} (h : firstsBy Prod.fst visited queue = (n, path) :: fresh) :
    ∃ rest, g.search goal maxHops visited queue =
        g.search goal maxHops visited ((n, path) :: rest) ∧
      firstsBy Prod.fst (n :: visited) rest = fresh := by
  induction queue with
  | nil => cases h
  | cons entry queue ih =>
    obtain ⟨m, path'⟩ := entry
    rw [firstsBy] at h
    split at h
    · next hm =>
      obtain ⟨rest, hsearch, hfresh⟩ := ih h
      exact ⟨rest, (search_stale hm).trans hsearch, hfresh⟩
    · obtain ⟨heq, hfresh⟩ := List.cons.inj h
      cases heq
      exact ⟨queue, rfl, hfresh⟩

theorem search_exhausted (h : firstsBy Prod.fst visited queue = []) :
    g.search goal maxHops visited queue = [] := by
  induction queue with
  | nil => exact search_nil
  | cons entry queue ih =>
    obtain ⟨m, path'⟩ := entry
    rw [firstsBy] at h
    split at h
    · next hm => exact (search_stale hm).trans (ih h)
    · cases h

/-- A path is made of the graph's edges. -/
theorem forall_search {P : E → Prop} (hedges : ∀ n, ∀ e ∈ g.edgesFrom n, P e)
    (hqueue : ∀ entry ∈ queue, ∀ e ∈ entry.2, P e) :
    ∀ e ∈ g.search goal maxHops visited queue, P e := by
  induction visited, queue using EdgeGraph.search.induct g goal maxHops with
  | case1 visited =>
    intro e he
    rw [search_nil] at he
    cases he
  | case2 visited n path queue hn ih =>
    rw [search_stale hn]
    exact ih fun entry hentry => hqueue entry (List.mem_cons_of_mem _ hentry)
  | case3 visited n path queue hn newPath hscan =>
    obtain ⟨e, hfind, -⟩ := scan_inl hscan
    rw [search_new hn, hfind]
    exact List.forall_mem_append.mpr ⟨hqueue (n, path) (List.mem_cons_self ..),
      List.forall_mem_singleton.mpr (hedges n e (List.mem_of_find?_eq_some hfind))⟩
  | case4 visited n path queue hn queue' hscan ih =>
    obtain ⟨hfind, rfl⟩ := scan_inr hscan
    rw [search_new hn, hfind]
    refine ih fun entry hentry => ?_
    rcases List.mem_append.mp hentry with hentry | hentry
    · exact hqueue entry (List.mem_cons_of_mem _ hentry)
    · rw [grown] at hentry
      split at hentry
      · obtain ⟨e, he, rfl⟩ := List.mem_map.mp hentry
        exact List.forall_mem_append.mpr ⟨hqueue (n, path) (List.mem_cons_self ..),
          List.forall_mem_singleton.mpr (hedges n e he)⟩
      · cases hentry

theorem forall_findPath {P : E → Prop} (hedges : ∀ n, ∀ e ∈ g.edgesFrom n, P e) (start : N) :
    ∀ e ∈ g.findPath start goal maxHops, P e := by
  rw [findPath]
  split
  · exact fun e he => nomatch he
  · exact forall_search hedges fun entry hentry e he => by
      rw [List.mem_singleton.mp hentry] at he
      cases he

/-- To each node, other than itself, a node has the same first edge in both graphs. -/
def SameFirsts (g g' : EdgeGraph N E) : Prop :=
  g'.target = g.target ∧
    ∀ n, firstsBy g.target [n] (g.edgesFrom n) = firstsBy g.target [n] (g'.edgesFrom n)

theorem SameFirsts.find? (h : SameFirsts g g') (hn : n ≠ goal) :
    (g.edgesFrom n).find? (fun e => g.target e = goal) =
      (g'.edgesFrom n).find? fun e => g'.target e = goal := by
  have hgoal : goal ∉ [n] := fun hmem => hn (List.mem_singleton.mp hmem).symm
  rw [h.1, ← find?_firstsBy hgoal, h.2 n, find?_firstsBy hgoal]

theorem SameFirsts.grown (h : SameFirsts g g') (hn : n ∈ visited) :
    firstsBy Prod.fst visited (g.grown maxHops path (g.edgesFrom n)) =
      firstsBy Prod.fst visited (g'.grown maxHops path (g'.edgesFrom n)) := by
  have hseen : ∀ m ∈ [n], m ∈ visited := fun m hm => List.mem_singleton.mp hm ▸ hn
  rw [EdgeGraph.grown, EdgeGraph.grown, h.1]
  split
  · rw [firstsBy_map, firstsBy_map]
    congr 1
    show firstsBy g.target visited _ = firstsBy g.target visited _
    rw [firstsBy_of_subset hseen, h.2 n, ← firstsBy_of_subset hseen]
  · rfl

/-- What is found depends on first edges and first entries only. -/
theorem search_congr (h : SameFirsts g g')
    (hqueue : firstsBy Prod.fst visited queue = firstsBy Prod.fst visited queue')
    (hgoal : ∀ entry ∈ queue, entry.1 ≠ goal) :
    g.search goal maxHops visited queue = g'.search goal maxHops visited queue' := by
  induction visited, queue using EdgeGraph.search.induct g goal maxHops generalizing queue' with
  | case1 visited => rw [search_nil, search_exhausted hqueue.symm]
  | case2 visited n path queue hn ih =>
    rw [search_stale hn]
    refine ih ?_ fun entry hentry => hgoal entry (List.mem_cons_of_mem _ hentry)
    rwa [firstsBy, if_pos hn] at hqueue
  | case3 visited n path queue hn newPath hscan =>
    have hne : n ≠ goal := hgoal (n, path) (List.mem_cons_self ..)
    rw [firstsBy, if_neg hn] at hqueue
    obtain ⟨rest, hsearch, -⟩ := search_skip (g := g') hqueue.symm
    obtain ⟨e, hfind, -⟩ := scan_inl hscan
    rw [hsearch, search_new hn, search_new hn, ← h.find? hne, hfind]
  | case4 visited n path queue hn queue'' hscan ih =>
    have hne : n ≠ goal := hgoal (n, path) (List.mem_cons_self ..)
    rw [firstsBy, if_neg hn] at hqueue
    obtain ⟨rest, hsearch, hrest⟩ := search_skip (g := g') hqueue.symm
    obtain ⟨hfind, rfl⟩ := scan_inr hscan
    rw [hsearch, search_new hn, search_new hn, ← h.find? hne, hfind]
    refine ih ?_ fun entry hentry => ?_
    · rw [firstsBy_append, firstsBy_append, hrest]
      congr 1
      exact h.grown (by simp)
    · rcases List.mem_append.mp hentry with hentry | hentry
      · exact hgoal entry (List.mem_cons_of_mem _ hentry)
      · exact g.grown_ne_goal hfind entry hentry

theorem findPath_congr (h : SameFirsts g g') (start goal : N) (maxHops : Int) :
    g.findPath start goal maxHops = g'.findPath start goal maxHops := by
  rw [findPath, findPath]
  split
  · rfl
  · next hne =>
    exact search_congr h rfl fun entry hentry => by
      rw [List.mem_singleton.mp hentry]
      exact hne

/-- With one hop allowed, the first edge there. -/
theorem findPath_one {start : N} (hne : start ≠ goal) :
    g.findPath start goal 1 =
      ((g.edgesFrom start).find? fun e => g.target e = goal).toList := by
  rw [findPath, if_neg hne, search_new List.not_mem_nil]
  cases (g.edgesFrom start).find? fun e => g.target e = goal with
  | some e => rfl
  | none => simp [grown]

end Search

section FirstEdges
variable {source target : E → N}

/-- The first edge from each node to each other one. -/
def firstEdges (source target : E → N) (es : List E) : List E :=
  firstsBy (fun e => (source e, target e)) [] (es.filter fun e => source e ≠ target e)

theorem firstEdges_snoc (es : List E) (e : E) :
    firstEdges source target (es ++ [e]) =
      if source e ≠ target e ∧ ∀ e' ∈ es, source e' = source e → target e' ≠ target e then
        firstEdges source target es ++ [e]
      else firstEdges source target es := by
  rw [firstEdges, List.filter_append]
  by_cases hloop : source e = target e
  · rw [List.filter_cons_of_neg (by simpa using hloop), List.filter_nil, List.append_nil,
      if_neg fun h => h.1 hloop, firstEdges]
  · have hseen : (source e, target e) ∈
        ((es.filter fun e => source e ≠ target e).map fun e => (source e, target e)) ++ [] ↔
        ∃ e' ∈ es, source e' = source e ∧ target e' = target e := by
      simp only [List.append_nil, List.mem_map, List.mem_filter, decide_eq_true_eq, Prod.mk.injEq]
      constructor
      · rintro ⟨e', ⟨hmem, -⟩, heq⟩
        exact ⟨e', hmem, heq⟩
      · rintro ⟨e', hmem, hs, ht⟩
        exact ⟨e', ⟨hmem, hs ▸ ht ▸ hloop⟩, hs, ht⟩
    rw [List.filter_cons_of_pos (by simpa using hloop), List.filter_nil, firstsBy_snoc]
    simp only [hseen]
    by_cases hnew : ∃ e' ∈ es, source e' = source e ∧ target e' = target e
    · obtain ⟨e', hmem, hs, ht⟩ := hnew
      rw [if_pos ⟨e', hmem, hs, ht⟩, if_neg fun h => h.2 e' hmem hs ht, firstEdges]
    · rw [if_neg hnew, if_pos ⟨hloop, fun e' hmem hs ht => hnew ⟨e', hmem, hs, ht⟩⟩, firstEdges]

theorem mem_of_mem_firstEdges {es : List E} {e : E} (he : e ∈ firstEdges source target es) :
    e ∈ es := List.mem_of_mem_filter ((firstsBy_sublist _).subset he)

/-- Between two nodes that have an edge there is a first one. -/
theorem exists_firstEdge {es : List E} {e : E} (he : e ∈ es) (hne : source e ≠ target e) :
    ∃ e' ∈ firstEdges source target es, source e' = source e ∧ target e' = target e := by
  have hkey : (source e, target e) ∈
      (firstEdges source target es).map (fun e => (source e, target e)) ++ [] := by
    refine (mem_keys_firstsBy _).mpr (List.mem_append_left _ (List.mem_map.mpr ⟨e, ?_, rfl⟩))
    exact List.mem_filter.mpr ⟨he, by simpa using hne⟩
  rw [List.append_nil] at hkey
  obtain ⟨e', hmem, heq⟩ := List.mem_map.mp hkey
  exact ⟨e', hmem, Prod.mk.inj heq⟩

/-- The first edges are all that matters. -/
theorem sameFirsts_firstEdges (es : List E) :
    SameFirsts (ofEdges source target es)
      (ofEdges source target (firstEdges source target es)) := by
  refine ⟨rfl, fun n => ?_⟩
  rw [edgesFrom_ofEdges, edgesFrom_ofEdges]
  show firstsBy target [n] _ = firstsBy target [n] _
  induction es using List.reverseRecOn with
  | nil => rfl
  | append_singleton es e ih =>
    have hkeys : ∀ k, k ∈ ((es.filter fun e => source e = n).map target) ++ [n] ↔
        k ∈ (((firstEdges source target es).filter fun e => source e = n).map target) ++ [n] := by
      intro k
      rw [← mem_keys_firstsBy, ih, mem_keys_firstsBy]
    rw [firstEdges_snoc, List.filter_append]
    by_cases he : source e = n
    · rw [List.filter_cons_of_pos (by simpa using he), List.filter_nil, firstsBy_snoc]
      by_cases hnew : source e ≠ target e ∧ ∀ e' ∈ es, source e' = source e → target e' ≠ target e
      · rw [if_pos hnew, List.filter_append, List.filter_cons_of_pos (by simpa using he),
          List.filter_nil, firstsBy_snoc, ih]
        simp only [hkeys]
      · rw [if_neg hnew, ← ih, if_pos]
        by_cases hloop : source e = target e
        · exact List.mem_append_right _ (by simp [← hloop, he])
        · push Not at hnew
          obtain ⟨e', hmem, hs, ht⟩ := hnew hloop
          refine List.mem_append_left _ (List.mem_map.mpr ⟨e', ?_, ht⟩)
          exact List.mem_filter.mpr ⟨hmem, by simp [hs, he]⟩
    · rw [List.filter_cons_of_neg (by simpa using he), List.filter_nil, List.append_nil, ih]
      split
      · rw [List.filter_append, List.filter_cons_of_neg (by simpa using he), List.filter_nil,
          List.append_nil]
      · rfl

theorem findPath_firstEdges (es : List E) (start goal : N) (maxHops : Int) :
    (ofEdges source target es).findPath start goal maxHops =
      (ofEdges source target (firstEdges source target es)).findPath start goal maxHops :=
  findPath_congr (sameFirsts_firstEdges es) start goal maxHops

/-- A path is made of first edges. -/
theorem mem_firstEdges_of_findPath {es : List E} {start goal : N} {e : E}
    (he : e ∈ (ofEdges source target es).findPath start goal maxHops) :
    e ∈ firstEdges source target es := by
  rw [findPath_firstEdges] at he
  refine forall_findPath (P := fun e => e ∈ firstEdges source target es) (fun n e hmem => ?_)
    start e he
  rw [edgesFrom_ofEdges] at hmem
  exact List.mem_of_mem_filter hmem

end FirstEdges

section Map
variable {E' : Type} {g : EdgeGraph N E} {g' : EdgeGraph N E'} {f : E → E'}

/-- The same graph with its edges written differently. -/
structure Renders (f : E → E') (g : EdgeGraph N E) (g' : EdgeGraph N E') : Prop where
  edges : ∀ n, g'.edgesFrom n = (g.edgesFrom n).map f
  target : ∀ e, g'.target (f e) = g.target e

theorem Renders.grown (h : Renders f g g') (maxHops : Int) (path es : List E) :
    g'.grown maxHops (path.map f) (es.map f) =
      (g.grown maxHops path es).map fun entry => (entry.1, entry.2.map f) := by
  rw [EdgeGraph.grown, EdgeGraph.grown, List.length_map]
  split
  · simp [h.target]
  · rfl

theorem Renders.search (h : Renders f g g') (goal : N) (maxHops : Int) (visited : List N)
    (queue : Queue N E) :
    g'.search goal maxHops visited (queue.map fun entry => (entry.1, entry.2.map f)) =
      (g.search goal maxHops visited queue).map f := by
  have hfind : ∀ n, (g'.edgesFrom n).find? (fun e => g'.target e = goal) =
      ((g.edgesFrom n).find? fun e => g.target e = goal).map f := by
    intro n
    rw [h.edges, List.find?_map]
    simp only [Function.comp_def, h.target]
  induction visited, queue using EdgeGraph.search.induct g goal maxHops with
  | case1 visited => simp
  | case2 visited n path queue hn ih => rw [search_stale hn, ← ih, List.map_cons, search_stale hn]
  | case3 visited n path queue hn newPath hscan =>
    obtain ⟨e, hfound, -⟩ := scan_inl hscan
    rw [List.map_cons, search_new hn, search_new hn, hfind, hfound]
    simp
  | case4 visited n path queue hn queue' hscan ih =>
    obtain ⟨hfound, rfl⟩ := scan_inr hscan
    rw [List.map_cons, search_new hn, search_new hn, hfind, hfound]
    simp only [Option.map_none]
    rw [← ih, List.map_append, ← h.grown, h.edges]

theorem Renders.findPath (h : Renders f g g') (start goal : N) (maxHops : Int) :
    g'.findPath start goal maxHops = (g.findPath start goal maxHops).map f := by
  rw [EdgeGraph.findPath, EdgeGraph.findPath]
  split
  · rfl
  · exact h.search goal maxHops [] [(start, [])]

end Map

end EdgeGraph

end PiPlatform.Library
