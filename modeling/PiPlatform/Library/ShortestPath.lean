import PiPlatform.Library.BreadthFirst

/-! What a breadth-first search finds is shortest.

`Searching` is what holds in each turn of the loop: each expanded node has a level, no edge of it
ends at the goal, and each end of an edge is expanded one level on or waits in the queue, if the
bound lets it. So every way to the goal can be taken from something in the queue without getting
longer (`Searching.shortcut`). -/
namespace PiPlatform.Library.EdgeGraph

variable {N E : Type} [DecidableEq N]

/-- The edges lead from one node to the other, one after another. -/
def Path (g : EdgeGraph N E) : N → List E → N → Prop
  | n, [], m => n = m
  | n, e :: es, m => e ∈ g.edgesFrom n ∧ g.Path (g.target e) es m

variable {g : EdgeGraph N E} {start goal n m : N} {maxHops : Int}

theorem Path.snoc {p : List E} {e : E} (h : g.Path n p m) (he : e ∈ g.edgesFrom m) :
    g.Path n (p ++ [e]) (g.target e) := by
  induction p generalizing n with
  | nil =>
    obtain rfl : n = m := h
    exact ⟨he, rfl⟩
  | cons e' p ih => exact ⟨h.1, ih h.2⟩

/-- The loop, before a turn. -/
structure Searching (g : EdgeGraph N E) (start goal : N) (maxHops : Int) (level : N → Nat)
    (visited : List N) (queue : Queue N E) : Prop where
  path : ∀ entry ∈ queue, g.Path start entry.2 entry.1
  bounded : ∀ entry ∈ queue, (entry.2.length : Int) + 1 ≤ maxHops
  ne_goal : ∀ entry ∈ queue, entry.1 ≠ goal
  sorted : queue.Pairwise fun a b => a.2.length ≤ b.2.length ∧ b.2.length ≤ a.2.length + 1
  level_le : ∀ x ∈ visited, ∀ entry ∈ queue, level x ≤ entry.2.length
  no_goal : ∀ x ∈ visited, ∀ e ∈ g.edgesFrom x, g.target e ≠ goal
  seen : ∀ x ∈ visited, ∀ e ∈ g.edgesFrom x, g.target e ∈ visited →
    level (g.target e) ≤ level x + 1
  waits : ∀ x ∈ visited, ∀ e ∈ g.edgesFrom x, (level x + 1 : Int) < maxHops →
    g.target e ∉ visited → ∃ q, (g.target e, q) ∈ queue ∧ q.length ≤ level x + 1
  origin : start ∈ visited ∧ level start = 0 ∨ start ∉ visited ∧ (start, []) ∈ queue

namespace Searching
variable {level : N → Nat} {visited : List N} {queue : Queue N E} {path : List E}

theorem begin (hne : start ≠ goal) (hhops : 1 ≤ maxHops) :
    Searching g start goal maxHops (fun _ => 0) [] [(start, [])] where
  path := List.forall_mem_singleton.mpr rfl
  bounded := List.forall_mem_singleton.mpr (by simpa using hhops)
  ne_goal := List.forall_mem_singleton.mpr hne
  sorted := List.pairwise_singleton _ _
  level_le := List.forall_mem_nil _
  no_goal := List.forall_mem_nil _
  seen := List.forall_mem_nil _
  waits := List.forall_mem_nil _
  origin := .inr ⟨List.not_mem_nil, List.mem_singleton_self _⟩

/-- From a node that was expanded, a way to the goal leads past an entry of the queue. -/
theorem shortcut_from (h : Searching g start goal maxHops level visited queue) {p : List E} {x : N}
    (hx : x ∈ visited) (hp : g.Path x p goal) (hne : x ≠ goal)
    (hhops : (level x + p.length : Int) ≤ maxHops) :
    ∃ entry ∈ queue, entry.1 ∉ visited ∧ ∃ r, g.Path entry.1 r goal ∧
      entry.2.length + r.length ≤ level x + p.length := by
  induction p generalizing x with
  | nil => exact absurd hp hne
  | cons e p ih =>
    obtain ⟨he, hp⟩ := hp
    have hgoal : g.target e ≠ goal := h.no_goal x hx e he
    have hpos : 0 < p.length := by
      cases p with
      | nil => exact absurd hp hgoal
      | cons _ _ => exact Nat.succ_pos _
    rw [List.length_cons] at hhops ⊢
    push_cast at hhops
    by_cases hseen : g.target e ∈ visited
    · have hlevel := h.seen x hx e he hseen
      obtain ⟨entry, hentry, hfresh, r, hr, hle⟩ := ih hseen hp hgoal (by omega)
      exact ⟨entry, hentry, hfresh, r, hr, by omega⟩
    · obtain ⟨q, hq, hle⟩ := h.waits x hx e he (by omega) hseen
      refine ⟨_, hq, hseen, p, hp, ?_⟩
      show q.length + p.length ≤ _
      omega

/-- No way to the goal within the bound is shorter than one past the queue. -/
theorem shortcut (h : Searching g start goal maxHops level visited queue) (hne : start ≠ goal)
    {p : List E} (hp : g.Path start p goal) (hhops : (p.length : Int) ≤ maxHops) :
    ∃ entry ∈ queue, entry.1 ∉ visited ∧ ∃ r, g.Path entry.1 r goal ∧
      entry.2.length + r.length ≤ p.length := by
  rcases h.origin with ⟨hstart, hlevel⟩ | ⟨hstart, hqueue⟩
  · have hshort := h.shortcut_from hstart hp hne (by rw [hlevel]; simpa using hhops)
    rwa [hlevel, Nat.zero_add] at hshort
  · exact ⟨_, hqueue, hstart, p, hp, by simp⟩

/-- An entry for a node that was expanded goes. -/
theorem stale (h : Searching g start goal maxHops level visited ((n, path) :: queue))
    (hn : n ∈ visited) : Searching g start goal maxHops level visited queue where
  path entry hentry := h.path entry (List.mem_cons_of_mem _ hentry)
  bounded entry hentry := h.bounded entry (List.mem_cons_of_mem _ hentry)
  ne_goal entry hentry := h.ne_goal entry (List.mem_cons_of_mem _ hentry)
  sorted := h.sorted.of_cons
  level_le x hx entry hentry := h.level_le x hx entry (List.mem_cons_of_mem _ hentry)
  no_goal := h.no_goal
  seen := h.seen
  waits x hx e he hhops hfresh := by
    obtain ⟨q, hq, hle⟩ := h.waits x hx e he hhops hfresh
    rcases List.mem_cons.mp hq with heq | hq
    · cases heq
      exact absurd hn hfresh
    · exact ⟨q, hq, hle⟩
  origin := by
    rcases h.origin with hvisited | ⟨hfresh, hq⟩
    · exact .inl hvisited
    · rcases List.mem_cons.mp hq with heq | hq
      · cases heq
        exact absurd hn hfresh
      · exact .inr ⟨hfresh, hq⟩

theorem mem_grown {es : List E} {entry : N × List E} :
    entry ∈ g.grown maxHops path es ↔
      (path.length : Int) + 1 < maxHops ∧ ∃ e ∈ es, (g.target e, path ++ [e]) = entry := by
  rw [grown]
  split_ifs with hhops
  · rw [List.mem_map, and_iff_right hhops]
  · exact iff_of_false List.not_mem_nil fun h => hhops h.1

theorem length_grown {es : List E} {entry : N × List E}
    (h : entry ∈ g.grown maxHops path es) : entry.2.length = path.length + 1 := by
  obtain ⟨-, e, -, rfl⟩ := mem_grown.mp h
  exact List.length_append

/-- The queue stays ordered by length: what is appended is one longer than what was in front. -/
theorem sorted_grown (h : Searching g start goal maxHops level visited ((n, path) :: queue))
    (es : List E) : (queue ++ g.grown maxHops path es).Pairwise fun a b =>
      a.2.length ≤ b.2.length ∧ b.2.length ≤ a.2.length + 1 := by
  obtain ⟨hfront, hqueue⟩ := List.pairwise_cons.mp h.sorted
  refine List.pairwise_append.mpr ⟨hqueue, ?_, fun a ha b hb => ?_⟩
  · refine List.pairwise_iff_getElem.mpr fun i j hi hj _ => ?_
    rw [length_grown (List.getElem_mem hi), length_grown (List.getElem_mem hj)]
    omega
  · have hpath : path.length ≤ a.2.length ∧ a.2.length ≤ path.length + 1 := hfront a ha
    rw [length_grown hb]
    omega

theorem front_le (h : Searching g start goal maxHops level visited ((n, path) :: queue)) :
    ∀ entry ∈ (n, path) :: queue, path.length ≤ entry.2.length :=
  List.forall_mem_cons.mpr
    ⟨Nat.le_refl _, fun entry hentry => ((List.pairwise_cons.mp h.sorted).1 entry hentry).1⟩

/-- A node without an edge to the goal is expanded at the length of the path that led there. -/
theorem expand (h : Searching g start goal maxHops level visited ((n, path) :: queue))
    (hn : n ∉ visited) (hgoal : ∀ e ∈ g.edgesFrom n, g.target e ≠ goal) :
    Searching g start goal maxHops (Function.update level n path.length) (n :: visited)
      (queue ++ g.grown maxHops path (g.edgesFrom n)) := by
  have hpath : g.Path start path n := h.path (n, path) (List.mem_cons_self ..)
  have hold : ∀ x ∈ visited, Function.update level n path.length x = level x := by
    intro x hx
    refine Function.update_of_ne (fun heq => hn ?_) _ _
    rwa [← heq]
  have hnew : Function.update level n path.length n = path.length := Function.update_self ..
  have hvisited : ∀ x ∈ visited, level x ≤ path.length :=
    fun x hx => h.level_le x hx (n, path) (List.mem_cons_self ..)
  -- a node that waited and is not `n` waits still
  have hkept : ∀ m q, m ∉ n :: visited → (m, q) ∈ (n, path) :: queue →
      (m, q) ∈ queue ++ g.grown maxHops path (g.edgesFrom n) := by
    intro m q hm hq
    rcases List.mem_cons.mp hq with heq | hq
    · cases heq
      exact absurd (List.mem_cons_self ..) hm
    · exact List.mem_append_left _ hq
  refine ⟨fun entry hentry => ?_, fun entry hentry => ?_, fun entry hentry => ?_,
    h.sorted_grown _, fun x hx entry hentry => ?_, List.forall_mem_cons.mpr ⟨hgoal, h.no_goal⟩,
    fun x hx e he hseen => ?_, fun x hx e he hhops hfresh => ?_, ?_⟩
  · rcases List.mem_append.mp hentry with hentry | hentry
    · exact h.path entry (List.mem_cons_of_mem _ hentry)
    · obtain ⟨-, e, he, rfl⟩ := mem_grown.mp hentry
      exact hpath.snoc he
  · rcases List.mem_append.mp hentry with hentry | hentry
    · exact h.bounded entry (List.mem_cons_of_mem _ hentry)
    · rw [length_grown hentry]
      have hhops := (mem_grown.mp hentry).1
      omega
  · rcases List.mem_append.mp hentry with hentry | hentry
    · exact h.ne_goal entry (List.mem_cons_of_mem _ hentry)
    · obtain ⟨-, e, he, rfl⟩ := mem_grown.mp hentry
      exact hgoal e he
  · have hlength : path.length ≤ entry.2.length := by
      rcases List.mem_append.mp hentry with hentry | hentry
      · exact ((List.pairwise_cons.mp h.sorted).1 entry hentry).1
      · exact (length_grown hentry).ge.trans' (Nat.le_succ _)
    rcases List.mem_cons.mp hx with rfl | hx
    · rwa [hnew]
    · rw [hold x hx]
      exact (hvisited x hx).trans hlength
  · rcases List.mem_cons.mp hseen with heq | hseen
    · rw [heq, hnew]
      rcases List.mem_cons.mp hx with rfl | hx
      · rw [hnew]
        exact Nat.le_succ _
      · -- `n` waited for `x`, and what stands in front is no longer
        rw [hold x hx]
        have hbounded : (path.length : Int) + 1 ≤ maxHops :=
          h.bounded (n, path) (List.mem_cons_self ..)
        by_cases hhops : (level x + 1 : Int) < maxHops
        · obtain ⟨q, hq, hle⟩ := h.waits x hx e he hhops (heq ▸ hn)
          exact (h.front_le _ hq).trans hle
        · omega
    · rw [hold _ hseen]
      rcases List.mem_cons.mp hx with heq | hx
      · rw [heq, hnew]
        exact (hvisited _ hseen).trans (Nat.le_succ _)
      · rw [hold x hx]
        exact h.seen x hx e he hseen
  · have hfresh' : g.target e ∉ visited := fun hmem => hfresh (List.mem_cons_of_mem _ hmem)
    rcases List.mem_cons.mp hx with rfl | hx
    · rw [hnew] at hhops ⊢
      exact ⟨path ++ [e], List.mem_append_right _ (mem_grown.mpr ⟨hhops, e, he, rfl⟩), by simp⟩
    · rw [hold x hx] at hhops ⊢
      obtain ⟨q, hq, hle⟩ := h.waits x hx e he hhops hfresh'
      exact ⟨q, hkept _ q hfresh hq, hle⟩
  · rcases h.origin with ⟨hstart, hlevel⟩ | ⟨hstart, hq⟩
    · exact .inl ⟨List.mem_cons_of_mem _ hstart, by rw [hold _ hstart, hlevel]⟩
    · by_cases heq : start = n
      · subst heq
        refine .inl ⟨List.mem_cons_self .., ?_⟩
        rw [hnew]
        exact Nat.le_zero.mp (h.front_le _ hq)
      · have hnot : start ∉ n :: visited := fun hmem =>
          (List.mem_cons.mp hmem).elim heq hstart
        exact .inr ⟨hnot, hkept _ _ hnot hq⟩

end Searching

/-- Nothing when no way is within the bound, and otherwise a shortest one. -/
structure Shortest (g : EdgeGraph N E) (start goal : N) (maxHops : Int) (found : List E) :
    Prop where
  none_iff : found = [] ↔ ¬ ∃ p, g.Path start p goal ∧ (p.length : Int) ≤ maxHops
  path : found ≠ [] → g.Path start found goal
  minimal : found ≠ [] → ∀ p, g.Path start p goal → found.length ≤ p.length

theorem search_shortest {level : N → Nat} {visited : List N} {queue : Queue N E}
    (hne : start ≠ goal) (h : Searching g start goal maxHops level visited queue) :
    Shortest g start goal maxHops (g.search goal maxHops visited queue) := by
  induction visited, queue using EdgeGraph.search.induct g goal maxHops generalizing level with
  | case1 visited =>
    rw [search_nil]
    refine ⟨iff_of_true rfl fun hsome => ?_, absurd rfl, absurd rfl⟩
    obtain ⟨p, hp, hhops⟩ := hsome
    obtain ⟨entry, hentry, -⟩ := h.shortcut hne hp hhops
    exact absurd hentry List.not_mem_nil
  | case2 visited n path queue hn ih =>
    rw [search_stale hn]
    exact ih (h.stale hn)
  | case3 visited n path queue hn newPath hscan =>
    obtain ⟨e, hfind, -⟩ := scan_inl hscan
    rw [search_new hn, hfind]
    have hbounded : (path.length : Int) + 1 ≤ maxHops :=
      h.bounded (n, path) (List.mem_cons_self ..)
    have hpath : g.Path start (path ++ [e]) goal := by
      have htarget : g.target e = goal := by simpa using List.find?_some hfind
      rw [← htarget]
      exact (h.path (n, path) (List.mem_cons_self ..)).snoc (List.mem_of_find?_eq_some hfind)
    refine ⟨iff_of_false (by simp) fun hnone => hnone ⟨_, hpath, ?_⟩, fun _ => hpath,
      fun _ p hp => ?_⟩
    · simpa using hbounded
    · rw [List.length_append, List.length_singleton]
      by_cases hhops : (p.length : Int) ≤ maxHops
      · obtain ⟨entry, hentry, -, r, hr, hle⟩ := h.shortcut hne hp hhops
        have hfront := h.front_le entry hentry
        have hpos : 0 < r.length := by
          cases r with
          | nil => exact absurd hr (h.ne_goal entry hentry)
          | cons _ _ => exact Nat.succ_pos _
        omega
      · omega
  | case4 visited n path queue hn queue' hscan ih =>
    obtain ⟨hfind, rfl⟩ := scan_inr hscan
    rw [search_new hn, hfind]
    refine ih (h.expand hn fun e he => ?_)
    simpa using List.find?_eq_none.mp hfind e he

theorem findPath_shortest (g : EdgeGraph N E) (hne : start ≠ goal) (hhops : 1 ≤ maxHops) :
    Shortest g start goal maxHops (g.findPath start goal maxHops) := by
  rw [findPath, if_neg hne]
  exact search_shortest hne (Searching.begin hne hhops)

end PiPlatform.Library.EdgeGraph
