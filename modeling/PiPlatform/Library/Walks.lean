import Mathlib.Data.List.Chain
import Mathlib.Logic.Relation

/-! What walks over a graph find out.

A walk that refuses a key it has seen on its way, and goes along every edge, shows
that there is no cycle in reach (`Guarded.acyclic`). A set that every node but those
that stop passes on to its successors holds what is in reach of it, and a path in it
meets a node that stops or stays among the others (`stops_or_stays`). -/
namespace PiPlatform.Library.Walks
open Relation

universe u v
variable {α : Type u} {κ : Type v} {Edge : α → α → Prop}

/-- `P seen x`: the walk came to `x` with these keys on its way, and went on. -/
structure Guarded (Edge : α → α → Prop) (key : α → κ) (P : List κ → α → Prop) : Prop where
  fresh : ∀ seen x, P seen x → key x ∉ seen
  step : ∀ seen x y, P seen x → Edge x y → P (key x :: seen) y

namespace Guarded
variable {key : α → κ} {P : List κ → α → Prop} {seen : List κ} {a b c : α}

theorem reach (h : Guarded Edge key P) (ha : P seen a) (hab : ReflTransGen Edge a b) :
    ∃ seen', P seen' b ∧ seen ⊆ seen' := by
  induction hab with
  | refl => exact ⟨seen, ha, List.Subset.refl _⟩
  | @tail b c _ hbc ih =>
    obtain ⟨seen', hb, hsub⟩ := ih
    exact ⟨_, h.step _ _ _ hb hbc, List.subset_cons_of_subset _ hsub⟩

theorem acyclic (h : Guarded Edge key P) (ha : P seen a) (hab : ReflTransGen Edge a b) :
    ¬ TransGen Edge b b := by
  intro hcycle
  obtain ⟨seen', hb, -⟩ := h.reach ha hab
  obtain ⟨c, hbc, hcb⟩ := TransGen.head'_iff.mp hcycle
  -- Back at its start, the walk has that on its way.
  obtain ⟨seen'', hback, hsub⟩ := h.reach (h.step _ _ _ hb hbc) hcb
  exact h.fresh _ _ hback (hsub (List.mem_cons_self ..))

end Guarded

section Closed
variable {V stops : α → Prop}

theorem mem_of_reach (hclosed : ∀ x y, V x → ¬ stops x → Edge x y → V y) {a b : α} (ha : V a)
    (hab : ReflTransGen (fun x y => ¬ stops x ∧ Edge x y) a b) : V b := by
  induction hab with
  | refl => exact ha
  | tail _ hbc ih => exact hclosed _ _ ih hbc.1 hbc.2

theorem stops_or_stays (hclosed : ∀ x y, V x → ¬ stops x → Edge x y → V y) {a : α}
    {path : List α} (ha : V a) (hpath : List.IsChain Edge (a :: path)) :
    (∃ b ∈ a :: path, stops b) ∨ ∀ b ∈ a :: path, V b ∧ ¬ stops b := by
  induction path generalizing a with
  | nil =>
    by_cases hstops : stops a
    · exact .inl ⟨a, List.mem_cons_self .., hstops⟩
    · exact .inr fun b hb => List.mem_singleton.mp hb ▸ ⟨ha, hstops⟩
  | cons b path ih =>
    by_cases hstops : stops a
    · exact .inl ⟨a, List.mem_cons_self .., hstops⟩
    · obtain ⟨hab, hrest⟩ := List.isChain_cons_cons.mp hpath
      rcases ih (hclosed a b ha hstops hab) hrest with ⟨c, hc, hcstops⟩ | hstays
      · exact .inl ⟨c, List.mem_cons_of_mem _ hc, hcstops⟩
      · exact .inr (List.forall_mem_cons.mpr ⟨⟨ha, hstops⟩, hstays⟩)

end Closed

end PiPlatform.Library.Walks
