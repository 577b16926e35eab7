import Mathlib.Data.List.Chain
import Mathlib.Data.List.Perm.Subperm
import Mathlib.Logic.Relation

/-! Layers of a relation: how long the paths are that end in a node.

`Within R n v` says that no path to `v` has more than `n` nodes; it holds of a node when it
holds of all that lead to it with one less (`within_succ`). A node that is `Grounded`, with
no cycle behind it, is within the number of nodes there are (`Grounded.within`), and no other
is within anything (`Within.grounded`). Taking layer after layer one has all grounded nodes as
soon as a layer is empty (`Within.of_saturated`). -/
namespace PiPlatform.Library

open Relation

universe u
variable {V : Type u} (R : V → V → Prop)

/-- No path to the node has more than `n` nodes. -/
def Within (n : Nat) (v : V) : Prop := ∀ path : List V, (path ++ [v]).IsChain R → path.length < n

/-- No cycle leads to the node. -/
def Grounded (v : V) : Prop := ∀ u, TransGen R u u → ¬ ReflTransGen R u v

variable {R} {v : V}

theorem isChain_snoc {path : List V} {u v : V} :
    (path ++ [u] ++ [v]).IsChain R ↔ (path ++ [u]).IsChain R ∧ R u v := by
  simp [List.isChain_append, and_right_comm, and_assoc]

theorem not_within_zero (v : V) : ¬ Within R 0 v := fun h =>
  Nat.not_lt_zero _ (h [] (List.isChain_singleton v))

theorem within_succ {n : Nat} : Within R (n + 1) v ↔ ∀ u, R u v → Within R n u := by
  constructor
  · intro h u huv path hpath
    have hlonger := h (path ++ [u]) (isChain_snoc.mpr ⟨hpath, huv⟩)
    rw [List.length_append, List.length_singleton] at hlonger
    omega
  · intro h path hpath
    rcases List.eq_nil_or_concat path with rfl | ⟨path, u, rfl⟩
    · exact Nat.succ_pos n
    · rw [List.concat_eq_append] at hpath ⊢
      obtain ⟨hpath, huv⟩ := isChain_snoc.mp hpath
      have hshorter := h u huv path hpath
      rw [List.length_append, List.length_singleton]
      omega

theorem Within.mono {m n : Nat} (h : Within R m v) (hmn : m ≤ n) : Within R n v :=
  fun path hpath => (h path hpath).trans_le hmn

section Nodes
variable {nodes : List V} (hnodes : ∀ u v, R u v → u ∈ nodes)
include hnodes

/-- A path to a node runs through nodes. -/
theorem subset_of_isChain {path : List V} (hv : v ∈ nodes)
    (hpath : (path ++ [v]).IsChain R) : path ++ [v] ⊆ nodes := by
  intro u hu
  rcases List.mem_append.mp hu with hu | hu
  · obtain ⟨before, after, rfl⟩ := List.append_of_mem hu
    rw [List.append_assoc] at hpath
    obtain ⟨w, rest, hrest⟩ := List.exists_cons_of_ne_nil
      (show after ++ [v] ≠ [] from List.append_ne_nil_of_right_ne_nil _ (List.cons_ne_nil _ _))
    rw [List.cons_append, hrest] at hpath
    exact hnodes u w (List.isChain_append_cons_cons.mp hpath).2.1
  · rwa [List.mem_singleton.mp hu]

/-- There are no more layers after an empty one. -/
theorem Within.of_saturated {n : Nat} (h : ∀ v ∈ nodes, Within R (n + 1) v → Within R n v)
    (k : Nat) (hv : v ∈ nodes) (hk : Within R k v) : Within R n v := by
  induction k generalizing v with
  | zero => exact absurd hk (not_within_zero v)
  | succ k ih =>
    exact h v hv (within_succ.mpr fun u huv => ih (hnodes u v huv) (within_succ.mp hk u huv))

end Nodes

/-! ### Cycles -/

theorem Within.acc {n : Nat} (h : Within R n v) : Acc R v := by
  induction n generalizing v with
  | zero => exact absurd h (not_within_zero v)
  | succ n ih => exact .intro v fun u huv => ih (within_succ.mp h u huv)

theorem Within.grounded {n : Nat} (h : Within R n v) : Grounded R v := by
  intro u hcycle hbehind
  have hacc : Acc (TransGen R) v := h.acc.transGen
  have hacc : Acc (TransGen R) u := by
    rcases reflTransGen_iff_eq_or_transGen.mp hbehind with rfl | hbehind
    · exact hacc
    · exact hacc.inv hbehind
  clear hbehind
  induction hacc with
  | intro u _ ih => exact ih u hcycle hcycle

/-- On a path to a grounded node no node comes twice. -/
theorem Grounded.nodup {path : List V} (h : Grounded R v)
    (hpath : (path ++ [v]).IsChain R) : (path ++ [v]).Nodup := by
  have htrans : (path ++ [v]).Pairwise (TransGen R) :=
    (hpath.imp fun _ _ hab => TransGen.single hab).pairwise
  have hends : ∀ u ∈ path ++ [v], ReflTransGen R u v := by
    intro u hu
    rcases List.mem_append.mp hu with hu | hu
    · have hbehind := (List.pairwise_append.mp htrans).2.2 u hu v (List.mem_singleton_self v)
      exact hbehind.to_reflTransGen
    · rw [List.mem_singleton.mp hu]
  refine htrans.imp_of_mem fun hu _ huw heq => ?_
  exact h _ (heq ▸ huw) (hends _ hu)

/-- With finitely many nodes on paths, a grounded node is within their number. -/
theorem Grounded.within {nodes : List V} (hnodes : ∀ u v, R u v → u ∈ nodes)
    (hv : v ∈ nodes) (h : Grounded R v) : Within R nodes.length v := by
  intro path hpath
  have hle := (List.subperm_of_subset (h.nodup hpath) (subset_of_isChain hnodes hv hpath)).length_le
  rwa [List.length_append, List.length_singleton] at hle

end PiPlatform.Library
