import PiPlatform.Library.Peak
import PiPlatform.SemanticValidator.ValidatorRuntime

/-! How far a change propagates through a graph.

The search goes along every path that meets no endpoint twice and breaks off at the first that is
longer than it may look. So what it finds is the length of the longest such path up to there
(`le_graphDepth_iff`). -/
namespace PiPlatform.SemanticValidator.BlastRadiusValidationPass

open Library.Json (Text)
open Library (Peak)

section Paths
variable (graph : DependencyGraph)

/-- A path along edges that meets no endpoint twice. -/
structure SimplePath (path : List Text) : Prop where
  begins : ∃ edge ∈ graph.edges, path.head? = some edge.upstreamEndpoint
  chain : path.IsChain fun a b =>
    ∃ edge ∈ graph.edges, edge.upstreamEndpoint = a ∧ edge.downstreamEndpoint = b
  distinct : path.Nodup

/-- How a path goes on from a node, with these nodes behind it. -/
def Further : List Text → Text → List Text → Prop
  | _, _, [] => True
  | visited, node, next :: rest =>
    next ∈ adjacent graph node ∧ next ∉ visited ∧ Further (next :: visited) next rest

variable {graph} {visited : List Text} {node : Text} {rest : List Text}

theorem mem_adjacent {a b : Text} :
    b ∈ adjacent graph a ↔
      ∃ edge ∈ graph.edges, edge.upstreamEndpoint = a ∧ edge.downstreamEndpoint = b := by
  simp only [adjacent, List.mem_map, List.mem_filter, decide_eq_true_eq, and_assoc]

theorem Further.take (h : Further graph visited node rest) (k : Nat) :
    Further graph visited node (rest.take k) := by
  induction rest generalizing visited node k with
  | nil => rwa [List.take_nil]
  | cons next rest ih =>
    cases k with
    | zero => exact trivial
    | succ k => exact ⟨h.1, h.2.1, ih h.2.2 k⟩

theorem further_iff :
    Further graph visited node rest ↔
      (node :: rest).IsChain (fun a b => b ∈ adjacent graph a) ∧ rest.Nodup ∧
        ∀ x ∈ rest, x ∉ visited := by
  induction rest generalizing visited node with
  | nil => simp [Further]
  | cons next rest ih =>
    rw [Further, ih, List.isChain_cons_cons, List.nodup_cons, List.forall_mem_cons]
    simp only [List.mem_cons, not_or]
    constructor
    · rintro ⟨hedge, hnext, hchain, hnodup, hrest⟩
      exact ⟨⟨hedge, hchain⟩, ⟨fun hmem => (hrest next hmem).1 rfl, hnodup⟩, hnext,
        fun x hx => (hrest x hx).2⟩
    · rintro ⟨⟨hedge, hchain⟩, ⟨hnot, hnodup⟩, hnext, hrest⟩
      exact ⟨hedge, hnext, hchain, hnodup, fun x hx =>
        ⟨fun heq => hnot (heq ▸ hx), hrest x hx⟩⟩

theorem simplePath_iff {start : Text} :
    SimplePath graph (start :: rest) ↔
      start ∈ graph.edges.map StateEdge.upstreamEndpoint ∧ Further graph [start] start rest := by
  have hchain : (fun a b => b ∈ adjacent graph a) = fun a b => ∃ edge ∈ graph.edges,
      edge.upstreamEndpoint = a ∧ edge.downstreamEndpoint = b := by
    funext a b
    exact propext mem_adjacent
  rw [further_iff, hchain]
  constructor
  · rintro ⟨⟨edge, hedge, hhead⟩, hchain, hdistinct⟩
    rw [List.nodup_cons] at hdistinct
    refine ⟨List.mem_map.mpr ⟨edge, hedge, (Option.some_inj.mp hhead).symm⟩, hchain, hdistinct.2,
      fun x hx heq => hdistinct.1 (List.mem_singleton.mp heq ▸ hx)⟩
  · rintro ⟨hstart, hchain, hnodup, hnot⟩
    obtain ⟨edge, hedge, rfl⟩ := List.mem_map.mp hstart
    exact ⟨⟨edge, hedge, rfl⟩, hchain, List.nodup_cons.mpr
      ⟨fun hmem => hnot _ hmem (List.mem_singleton_self _), hnodup⟩⟩

end Paths

section Search
variable {graph : DependencyGraph} {limit : Nat}

/-- From a node the search meets the lengths of the paths through it. -/
theorem explore_peak (left : Nat) (node : Text) (depth : Nat) (visited : List Text) (found : Nat)
    (hleft : left + depth = limit + 1) :
    Peak limit found (fun e => ∃ rest, Further graph visited node rest ∧ depth + rest.length = e)
      (explore graph left node depth visited found) := by
  induction left generalizing node depth visited found with
  | zero =>
    rw [explore]
    refine ⟨iff_of_true rfl ⟨[], trivial, by simpa using hleft⟩, fun best hbest => ?_⟩
    cases hbest
  | succ left ih =>
    rw [explore]
    have hbranches := Peak.foldlM
      (fun found next => explore graph left next (depth + 1) (next :: visited) found)
      ((adjacent graph node).reverse.filter (!among · visited))
      (fun next _ found => ih next (depth + 1) (next :: visited) found (by omega)) (max found depth)
    -- a path ends at the node, or goes on through one of the branches
    have hmet : ∀ e, (∃ rest, Further graph visited node rest ∧ depth + rest.length = e) ↔
        depth = e ∨ ∃ next ∈ (adjacent graph node).reverse.filter (!among · visited), ∃ rest,
          Further graph (next :: visited) next rest ∧ depth + 1 + rest.length = e := by
      intro e
      constructor
      · rintro ⟨rest, hrest, he⟩
        cases rest with
        | nil => exact .inl (by simpa using he)
        | cons next rest =>
          refine .inr ⟨next, List.mem_filter.mpr
            ⟨List.mem_reverse.mpr hrest.1, not_among_iff.mpr hrest.2.1⟩, rest, hrest.2.2, ?_⟩
          rw [List.length_cons] at he
          omega
      · rintro (rfl | ⟨next, hnext, rest, hrest, he⟩)
        · exact ⟨[], trivial, by simp⟩
        · rw [List.mem_filter, List.mem_reverse, not_among_iff] at hnext
          refine ⟨next :: rest, ⟨hnext.1, hnext.2, hrest⟩, ?_⟩
          rw [List.length_cons]
          omega
    refine ⟨hbranches.breaks.trans ?_, fun best hbest d => ?_⟩
    · rw [hmet, or_iff_right (by omega)]
    · rw [hbranches.greatest best hbest d]
      simp only [hmet]
      constructor
      · rintro (hd | ⟨e, hde, he⟩)
        · cases Nat.le_total found depth with
          | inl hle =>
            rw [Nat.max_eq_right hle] at hd
            exact .inr ⟨depth, hd, .inl rfl⟩
          | inr hle =>
            rw [Nat.max_eq_left hle] at hd
            exact .inl hd
        · exact .inr ⟨e, hde, .inr he⟩
      · rintro (hd | ⟨e, hde, rfl | he⟩)
        · exact .inl (hd.trans (Nat.le_max_left found depth))
        · exact .inl (hde.trans (Nat.le_max_right found depth))
        · exact .inr ⟨e, hde, he⟩

theorem graphDepth_peak : Peak limit 0 (fun e => ∃ path, SimplePath graph path ∧ path.length = e)
    ((graph.edges.map StateEdge.upstreamEndpoint).eraseDups.foldlM
      (fun found start => explore graph limit start 1 [start] found) 0) := by
  have hstarts := Peak.foldlM
    (fun found start => explore graph limit start 1 [start] found)
    (graph.edges.map StateEdge.upstreamEndpoint).eraseDups
    (fun start _ found => explore_peak limit start 1 [start] found rfl) 0
  have hmet : (fun e => ∃ path, SimplePath graph path ∧ path.length = e) = fun e =>
      ∃ start ∈ (graph.edges.map StateEdge.upstreamEndpoint).eraseDups, ∃ rest,
        Further graph [start] start rest ∧ 1 + rest.length = e := by
    funext e
    refine propext ⟨?_, ?_⟩
    · rintro ⟨path, hpath, rfl⟩
      cases path with
      | nil =>
        obtain ⟨edge, -, hhead⟩ := hpath.begins
        cases hhead
      | cons start rest =>
        obtain ⟨hstart, hrest⟩ := simplePath_iff.mp hpath
        exact ⟨start, List.mem_eraseDups.mpr hstart, rest, hrest, Nat.add_comm 1 _⟩
    · rintro ⟨start, hstart, rest, hrest, rfl⟩
      exact ⟨start :: rest, simplePath_iff.mpr ⟨List.mem_eraseDups.mp hstart, hrest⟩,
        Nat.add_comm rest.length 1⟩
  rw [hmet]
  exact hstarts

theorem SimplePath.take {path : List Text} (h : SimplePath graph path) {d : Nat} (hd : 0 < d)
    (hle : d ≤ path.length) : ∃ shorter, SimplePath graph shorter ∧ shorter.length = d := by
  cases path with
  | nil => exact absurd hd (Nat.not_lt_of_le hle)
  | cons start rest =>
    obtain ⟨hstart, hrest⟩ := simplePath_iff.mp h
    refine ⟨start :: rest.take (d - 1), simplePath_iff.mpr ⟨hstart, hrest.take (d - 1)⟩, ?_⟩
    rw [List.length_cons] at hle
    rw [List.length_cons, List.length_take]
    omega

/-- The depth of a graph is the length of its longest simple path, up to one more than the search
may look. -/
theorem le_graphDepth_iff {d : Nat} (hd : 0 < d) :
    d ≤ graphDepth graph limit ↔
      d ≤ limit + 1 ∧ ∃ path, SimplePath graph path ∧ path.length = d := by
  have hpeak : Peak limit 0 (fun e => ∃ path, SimplePath graph path ∧ path.length = e) _ :=
    graphDepth_peak
  rw [graphDepth]
  cases hresult : (graph.edges.map StateEdge.upstreamEndpoint).eraseDups.foldlM
      (fun found start => explore graph limit start 1 [start] found) 0 with
  | none =>
    obtain ⟨path, hpath, hlength⟩ := hpeak.breaks.mp hresult
    refine ⟨fun hle => ⟨hle, hpath.take hd ?_⟩, fun h => h.1⟩
    rw [hlength]
    exact hle
  | some best =>
    have hnot : ¬ ∃ path, SimplePath graph path ∧ path.length = limit + 1 := by
      rw [← hpeak.breaks, hresult]
      exact Option.some_ne_none best
    refine (hpeak.greatest best hresult d).trans ⟨?_, ?_⟩
    · rintro (hzero | ⟨_, hle, path, hpath, rfl⟩)
      · exact absurd hd (Nat.not_lt_of_le hzero)
      · refine ⟨?_, hpath.take hd hle⟩
        by_contra hfar
        exact hnot (hpath.take (Nat.succ_pos limit) (by omega))
    · rintro ⟨-, path, hpath, rfl⟩
      exact .inr ⟨_, Nat.le_refl _, path, hpath, rfl⟩

end Search

/-- A graph is reported for its depth exactly when a simple path is longer than the policy allows,
if the search may look so far at all. -/
theorem depthRadius_iff {R : Type} (policy : ArchitecturePolicy R)
    (bounds : ValidationBoundsConfig) (graph : DependencyGraph) :
    depthRadius policy bounds graph ≠ [] ↔
      policy.blastRadiusLimits.maxReplayPropagationDepth ≤ bounds.maxBlastRadiusDepth ∧
        ∃ path, SimplePath graph path ∧
          path.length = policy.blastRadiusLimits.maxReplayPropagationDepth + 1 := by
  have hreported : depthRadius policy bounds graph ≠ [] ↔
      policy.blastRadiusLimits.maxReplayPropagationDepth + 1 ≤
        graphDepth graph bounds.maxBlastRadiusDepth := by
    rw [depthRadius]
    split_ifs with hdeep
    · exact iff_of_true (List.cons_ne_nil _ _) hdeep
    · exact iff_of_false (fun h => h rfl) hdeep
  rw [hreported, le_graphDepth_iff (Nat.add_one_pos _), Nat.add_le_add_iff_right]

end PiPlatform.SemanticValidator.BlastRadiusValidationPass
