import Mathlib.Algebra.BigOperators.Group.List.Lemmas
import Mathlib.Algebra.Order.Field.Basic

/-! A tree walked level by level.

`walk` yields the nodes that are to do, each before its children, which go to the end. What it
yields is what is within (`mem_walk`). -/
namespace PiPlatform.Library

/-- Nodes with their children, which are together smaller. -/
structure Forest (α : Type) where
  children : α → List α
  size : α → Nat
  smaller : ∀ a, ((children a).map size).sum < size a

namespace Forest
variable {α : Type} (F : Forest α) {a b c : α} {todo : List α}

def walk : List α → List α
  | [] => []
  | a :: todo => a :: walk (todo ++ F.children a)
termination_by todo => (todo.map F.size).sum
decreasing_by
  have hsmaller := F.smaller a
  rw [List.map_append, List.sum_append, List.map_cons, List.sum_cons]
  omega

/-- `b` is `a` or below it. -/
inductive Within : α → α → Prop where
  | here (a : α) : Within a a
  | there {a b c : α} (child : c ∈ F.children a) (within : Within c b) : Within a b

/-- Each node is what it is, or within a child. -/
theorem within_iff : F.Within a b ↔ b = a ∨ ∃ c ∈ F.children a, F.Within c b := by
  constructor
  · intro h
    cases h with
    | here => exact .inl rfl
    | there child within => exact .inr ⟨_, child, within⟩
  · rintro (rfl | ⟨c, child, within⟩)
    · exact .here b
    · exact .there child within

theorem mem_walk : b ∈ F.walk todo ↔ ∃ a ∈ todo, F.Within a b := by
  fun_induction F.walk todo with
  | case1 => simp
  | case2 a todo ih =>
    rw [List.mem_cons, ih]
    simp only [List.mem_append, or_and_right, exists_or, List.mem_cons, exists_eq_left]
    rw [within_iff F (a := a), or_assoc, or_comm (a := ∃ x, x ∈ todo ∧ F.Within x b)]

end Forest

end PiPlatform.Library
