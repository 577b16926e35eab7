import Mathlib.Data.Finset.Card
import Mathlib.Data.Finset.SDiff
import Mathlib.Logic.Relation

/-! Depth-first search for a cycle.

A node is entered once; while what it leads to is visited, it is on the path. A neighbor on the
path closes a cycle. What has been left is settled (`Settled`): all it leads to has been left
too, and no cycle runs through it. So a search that finds nothing leaves no cycle behind
(`sweep_iff`); it never runs out of turns, since a node that is entered is never entered again. -/
namespace PiPlatform.Library.DepthFirst

open Relation

universe u
variable {N : Type u}

structure Marks (N : Type u) where
  visited : Finset N
  onPath : Finset N

def Marks.none : Marks N := ⟨∅, ∅⟩

/-- The node has been left. -/
def Marks.Left (m : Marks N) (v : N) : Prop := v ∈ m.visited ∧ v ∉ m.onPath

section Settled

variable (next : N → List N)

/-- `b` is a neighbour of `a`. -/
def Edge (a b : N) : Prop := b ∈ next a

/-- What has been left leads only to such, and is on no cycle. -/
structure Settled (m : Marks N) : Prop where
  path_visited : m.onPath ⊆ m.visited
  closed : ∀ v, m.Left v → ∀ n ∈ next v, m.Left n
  acyclic : ∀ v, m.Left v → ¬ TransGen (Edge next) v v

variable {next} {m m' : Marks N}

theorem settled_none : Settled next (Marks.none : Marks N) where
  path_visited := Finset.Subset.refl _
  closed v h := absurd h.1 (Finset.notMem_empty v)
  acyclic v h := absurd h.1 (Finset.notMem_empty v)

theorem Settled.left_reach (h : Settled next m) {u w : N} (hu : m.Left u)
    (huw : ReflTransGen (Edge next) u w) : m.Left w := by
  induction huw with
  | refl => exact hu
  | tail _ hn ih => exact h.closed _ ih _ hn

/-- The outcome of a visit: a cycle, or marks that are settled and grew. -/
structure Outcome (next : N → List N) (m : Marks N) (r : Bool × Marks N) : Prop where
  cycle : r.1 = true → ∃ u, TransGen (Edge next) u u
  settled : r.1 = false → Settled next r.2
  grows : r.1 = false → m.visited ⊆ r.2.visited
  same_path : r.1 = false → r.2.onPath = m.onPath

theorem outcome_found (m' : Marks N) (hcycle : ∃ u, TransGen (Edge next) u u) :
    Outcome next m (true, m') :=
  ⟨fun _ => hcycle, nofun, nofun, nofun⟩

theorem Outcome.trans {r : Bool × Marks N} (h : Outcome next m (false, m'))
    (h' : Outcome next m' r) : Outcome next m r :=
  ⟨h'.cycle, h'.settled, fun hr => (h.grows rfl).trans (h'.grows hr),
    fun hr => (h'.same_path hr).trans (h.same_path rfl)⟩

end Settled

/-! ### The search -/

variable [DecidableEq N]

def Marks.enter (m : Marks N) (v : N) : Marks N :=
  ⟨insert v m.visited, insert v m.onPath⟩

def Marks.leave (m : Marks N) (v : N) : Marks N := { m with onPath := m.onPath.erase v }

/-- Neighbors one after another, up to one that closes a cycle. -/
def scan (visit : N → Marks N → Bool × Marks N) : List N → Marks N → Bool × Marks N
  | [], m => (false, m)
  | n :: ns, m =>
    if n ∉ m.visited then
      let (found, m') := visit n m
      if found then (true, m') else scan visit ns m'
    else if n ∈ m.onPath then (true, m)
    else scan visit ns m

/-- Whether a cycle is met from the node. The first argument bounds how deep the search goes. -/
def visit (next : N → List N) : Nat → N → Marks N → Bool × Marks N
  | 0, _, m => (false, m)
  | k + 1, v, m =>
    let (found, m') := scan (visit next k) (next v) (m.enter v)
    if found then (true, m') else (false, m'.leave v)

/-- From every node that has not been visited before. -/
def sweep (next : N → List N) (k : Nat) : List N → Marks N → Bool × Marks N
  | [], m => (false, m)
  | v :: vs, m =>
    if v ∉ m.visited then
      let (found, m') := visit next k v m
      if found then (true, m') else sweep next k vs m'
    else sweep next k vs m

section Search

variable {next : N → List N} {m m' : Marks N} {v : N}

theorem Settled.enter (h : Settled next m) (hv : v ∉ m.visited) : Settled next (m.enter v) := by
  -- what was left before is what is left now, and not the node itself
  have hleft : ∀ n, (m.enter v).Left n ↔ m.Left n := by
    intro n
    simp only [Marks.Left, Marks.enter, Finset.mem_insert, not_or]
    constructor
    · intro ⟨hvisited, hne, hpath⟩
      exact ⟨hvisited.resolve_left hne, hpath⟩
    · intro ⟨hvisited, hpath⟩
      exact ⟨.inr hvisited, fun heq => hv (heq ▸ hvisited), hpath⟩
  exact ⟨Finset.insert_subset_insert v h.path_visited,
    fun u hu n hn => (hleft n).mpr (h.closed u ((hleft u).mp hu) n hn),
    fun u hu => h.acyclic u ((hleft u).mp hu)⟩

/-- A node is settled when all it leads to is. -/
theorem Settled.leave (h : Settled next m) (hpath : v ∈ m.onPath)
    (hnext : ∀ n ∈ next v, m.Left n) : Settled next (m.leave v) := by
  have hleft : ∀ n, (m.leave v).Left n → n = v ∨ m.Left n := by
    intro n hn
    by_cases heq : n = v
    · exact .inl heq
    · exact .inr ⟨hn.1, fun hon => hn.2 (Finset.mem_erase.mpr ⟨heq, hon⟩)⟩
  have hstays : ∀ n, m.Left n → (m.leave v).Left n :=
    fun n hn => ⟨hn.1, fun hon => hn.2 (Finset.mem_of_mem_erase hon)⟩
  refine ⟨(Finset.erase_subset v _).trans h.path_visited, ?_, ?_⟩
  · intro u hu n hn
    rcases hleft u hu with rfl | hu
    · exact hstays n (hnext n hn)
    · exact hstays n (h.closed u hu n hn)
  · intro u hu hcycle
    rcases hleft u hu with rfl | hu
    · obtain ⟨n, hn, hback⟩ := TransGen.head'_iff.mp hcycle
      exact (h.left_reach (hnext n hn) hback).2 hpath
    · exact h.acyclic u hu hcycle

/-! ### What a visit comes to -/

/-- What visits owe when so many nodes may still be entered. -/
def Visits (next : N → List N) (U : Finset N) (k : Nat)
    (visit : N → Marks N → Bool × Marks N) : Prop :=
  ∀ v m, v ∈ U → v ∉ m.visited → Settled next m → (U \ m.visited).card ≤ k →
    (∀ u ∈ m.onPath, ReflTransGen (Edge next) u v) →
    Outcome next m (visit v m) ∧ ((visit v m).1 = false → v ∈ (visit v m).2.visited)

variable {U : Finset N}

theorem scan_outcome {k : Nat} {visit : N → Marks N → Bool × Marks N}
    (hvisits : Visits next U k visit) (ns : List N) :
    ∀ m, (∀ n ∈ ns, n ∈ next v ∧ n ∈ U) → Settled next m → (U \ m.visited).card ≤ k →
      v ∈ m.onPath → (∀ u ∈ m.onPath, ReflTransGen (Edge next) u v) →
      Outcome next m (scan visit ns m) ∧
        ((scan visit ns m).1 = false → ∀ n ∈ ns, (scan visit ns m).2.Left n) := by
  induction ns with
  | nil =>
    intro m _ hsettled _ _ _
    exact ⟨⟨nofun, fun _ => hsettled, fun _ => Finset.Subset.refl _, fun _ => rfl⟩,
      fun _ => List.forall_mem_nil _⟩
  | cons n ns ih =>
    intro m hns hsettled hcard hv hpath
    obtain ⟨⟨hn, hnU⟩, hns⟩ := List.forall_mem_cons.mp hns
    rw [scan]
    by_cases hvisited : n ∈ m.visited
    · rw [if_neg (not_not.mpr hvisited)]
      by_cases hon : n ∈ m.onPath
      · rw [if_pos hon]
        exact ⟨outcome_found m ⟨n, TransGen.tail' (hpath n hon) hn⟩, nofun⟩
      · rw [if_neg hon]
        obtain ⟨houtcome, hleft⟩ := ih m hns hsettled hcard hv hpath
        refine ⟨houtcome, fun hr => List.forall_mem_cons.mpr ⟨⟨?_, ?_⟩, hleft hr⟩⟩
        · exact houtcome.grows hr hvisited
        · rwa [houtcome.same_path hr]
    · rw [if_pos hvisited]
      have hreach : ∀ u ∈ m.onPath, ReflTransGen (Edge next) u n :=
        fun u hu => (hpath u hu).tail hn
      obtain ⟨hfirst, hentered⟩ := hvisits n m hnU hvisited hsettled hcard hreach
      rcases heq : visit n m with ⟨found, m'⟩
      rw [heq] at hfirst hentered
      dsimp only
      cases found with
      | true => exact ⟨outcome_found m' (hfirst.cycle rfl), nofun⟩
      | false =>
        have hgrows : m.visited ⊆ m'.visited := hfirst.grows rfl
        have hsame : m'.onPath = m.onPath := hfirst.same_path rfl
        rw [if_neg Bool.false_ne_true]
        obtain ⟨houtcome, hleft⟩ := ih m' hns (hfirst.settled rfl)
          ((Finset.card_le_card (Finset.sdiff_subset_sdiff (Finset.Subset.refl U) hgrows)).trans
            hcard) (hsame ▸ hv) (hsame ▸ hpath)
        refine ⟨hfirst.trans houtcome, fun hr => List.forall_mem_cons.mpr ⟨⟨?_, ?_⟩, hleft hr⟩⟩
        · exact houtcome.grows hr (hentered rfl)
        · rw [houtcome.same_path hr, hsame]
          exact fun hon => hvisited (hsettled.path_visited hon)

theorem visits_visit (hU : ∀ v, ∀ n ∈ next v, n ∈ U) (k : Nat) :
    Visits next U k (visit next k) := by
  induction k with
  | zero =>
    intro v m hvU hv _ hcard _
    have hmem : v ∈ U \ m.visited := Finset.mem_sdiff.mpr ⟨hvU, hv⟩
    exact absurd (Finset.card_pos.mpr ⟨v, hmem⟩) (Nat.not_lt.mpr hcard)
  | succ k ih =>
    intro v m hvU hv hsettled hcard hpath
    have hcard' : (U \ (m.enter v).visited).card ≤ k := by
      have hmem : v ∈ U \ m.visited := Finset.mem_sdiff.mpr ⟨hvU, hv⟩
      have hless : U \ (m.enter v).visited = (U \ m.visited).erase v :=
        Finset.sdiff_insert U m.visited v
      rw [hless, Finset.card_erase_of_mem hmem]
      omega
    have hpath' : ∀ u ∈ (m.enter v).onPath, ReflTransGen (Edge next) u v := by
      intro u hu
      rcases Finset.mem_insert.mp hu with rfl | hu
      · exact .refl
      · exact hpath u hu
    have hnew : v ∉ m.onPath := fun hon => hv (hsettled.path_visited hon)
    obtain ⟨houtcome, hleft⟩ := scan_outcome ih (next v) (m.enter v)
      (fun n hn => ⟨hn, hU v n hn⟩) (hsettled.enter hv) hcard' (Finset.mem_insert_self v _) hpath'
    rw [visit]
    rcases heq : scan (visit next k) (next v) (m.enter v) with ⟨found, m'⟩
    rw [heq] at houtcome hleft
    dsimp only
    cases found with
    | true => exact ⟨outcome_found m' (houtcome.cycle rfl), nofun⟩
    | false =>
      have hgrows : insert v m.visited ⊆ m'.visited := houtcome.grows rfl
      have hsame : m'.onPath = insert v m.onPath := houtcome.same_path rfl
      have hon : v ∈ m'.onPath := by
        rw [hsame]
        exact Finset.mem_insert_self v _
      rw [if_neg Bool.false_ne_true]
      refine ⟨⟨nofun, fun _ => (houtcome.settled rfl).leave hon (hleft rfl), fun _ => ?_,
        fun _ => ?_⟩, fun _ => hgrows (Finset.mem_insert_self v _)⟩
      · exact (Finset.subset_insert v _).trans hgrows
      · show m'.onPath.erase v = m.onPath
        rw [hsame, Finset.erase_insert hnew]

theorem sweep_outcome (hU : ∀ v, ∀ n ∈ next v, n ∈ U) {k : Nat} (hk : U.card ≤ k) (vs : List N) :
    ∀ m, (∀ v ∈ vs, v ∈ U) → Settled next m → m.onPath = ∅ →
      Outcome next m (sweep next k vs m) ∧
        ((sweep next k vs m).1 = false → ∀ v ∈ vs, v ∈ (sweep next k vs m).2.visited) := by
  induction vs with
  | nil =>
    intro m _ hsettled _
    exact ⟨⟨nofun, fun _ => hsettled, fun _ => Finset.Subset.refl _, fun _ => rfl⟩,
      fun _ => List.forall_mem_nil _⟩
  | cons v vs ih =>
    intro m hvs hsettled hempty
    obtain ⟨hv, hvs⟩ := List.forall_mem_cons.mp hvs
    rw [sweep]
    by_cases hvisited : v ∈ m.visited
    · rw [if_neg (not_not.mpr hvisited)]
      obtain ⟨houtcome, hall⟩ := ih m hvs hsettled hempty
      exact ⟨houtcome, fun hr => List.forall_mem_cons.mpr
        ⟨houtcome.grows hr hvisited, hall hr⟩⟩
    · rw [if_pos hvisited]
      have hcard : (U \ m.visited).card ≤ k :=
        (Finset.card_le_card Finset.sdiff_subset).trans hk
      have hpath : ∀ u ∈ m.onPath, ReflTransGen (Edge next) u v := by
        rw [hempty]
        exact fun u hu => absurd hu (Finset.notMem_empty u)
      obtain ⟨hfirst, hentered⟩ := visits_visit hU k v m hv hvisited hsettled hcard hpath
      rcases heq : visit next k v m with ⟨found, m'⟩
      rw [heq] at hfirst hentered
      dsimp only
      cases found with
      | true => exact ⟨outcome_found m' (hfirst.cycle rfl), nofun⟩
      | false =>
        rw [if_neg Bool.false_ne_true]
        obtain ⟨houtcome, hall⟩ := ih m' hvs (hfirst.settled rfl)
          ((hfirst.same_path rfl).trans hempty)
        exact ⟨hfirst.trans houtcome, fun hr => List.forall_mem_cons.mpr
          ⟨houtcome.grows hr (hentered rfl), hall hr⟩⟩

/-- A search from all nodes that lead anywhere finds a cycle exactly if there is one. -/
theorem sweep_iff (hU : ∀ v, ∀ n ∈ next v, n ∈ U) {k : Nat} (hk : U.card ≤ k) {vs : List N}
    (hvs : ∀ v ∈ vs, v ∈ U) (hnodes : ∀ v, ∀ n ∈ next v, v ∈ vs) :
    (sweep next k vs Marks.none).1 = true ↔ ∃ u, TransGen (Edge next) u u := by
  obtain ⟨houtcome, hall⟩ := sweep_outcome hU hk vs Marks.none hvs settled_none rfl
  refine ⟨houtcome.cycle, fun hcycle => ?_⟩
  obtain ⟨u, hcycle⟩ := hcycle
  rw [← Bool.not_eq_false]
  intro hr
  obtain ⟨n, hn, -⟩ := TransGen.head'_iff.mp hcycle
  refine (houtcome.settled hr).acyclic u ⟨hall hr u (hnodes u n hn), ?_⟩ hcycle
  rw [houtcome.same_path hr]
  exact Finset.notMem_empty u

end Search

end PiPlatform.Library.DepthFirst
