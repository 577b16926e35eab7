import Mathlib.Data.List.Basic

/-! A greatest value that is searched for branch by branch, in a search that may break off. -/
namespace PiPlatform.Library

/-- A search that begins with the best found so far: it breaks off exactly where a value beyond the
limit is met, and otherwise ends with the greatest of what was found and what is met. -/
structure Peak (limit found : Nat) (Met : Nat → Prop) (result : Option Nat) : Prop where
  breaks : result = none ↔ Met (limit + 1)
  greatest : ∀ best, result = some best → ∀ d, d ≤ best ↔ d ≤ found ∨ ∃ e, d ≤ e ∧ Met e

namespace Peak
variable {limit : Nat} {α : Type} {Met : α → Nat → Prop}

/-- What each branch meets, all of them meet. -/
theorem foldlM (search : Nat → α → Option Nat) (branches : List α)
    (h : ∀ a ∈ branches, ∀ found, Peak limit found (Met a) (search found a)) (found : Nat) :
    Peak limit found (fun e => ∃ a ∈ branches, Met a e) (branches.foldlM search found) := by
  induction branches generalizing found with
  | nil =>
    refine ⟨by simp, fun best hbest d => ?_⟩
    obtain rfl : found = best := by simpa using hbest
    simp
  | cons a branches ih =>
    have hhere := h a List.mem_cons_self found
    have hrest := ih fun b hb => h b (List.mem_cons_of_mem a hb)
    rw [List.foldlM_cons]
    cases hsearch : search found a with
    | none =>
      refine ⟨iff_of_true rfl ⟨a, List.mem_cons_self, hhere.breaks.mp hsearch⟩,
        fun best hbest => ?_⟩
      cases hbest
    | some first =>
      have hwithin : ¬ Met a (limit + 1) := by
        rw [← hhere.breaks, hsearch]
        exact Option.some_ne_none first
      refine ⟨(hrest first).breaks.trans ?_, fun best hbest d => ?_⟩
      · simp [hwithin]
      · rw [(hrest first).greatest best hbest d, hhere.greatest first hsearch d]
        simp only [List.mem_cons]
        constructor
        · rintro ((hd | ⟨e, hde, he⟩) | ⟨e, hde, b, hb, he⟩)
          · exact .inl hd
          · exact .inr ⟨e, hde, a, .inl rfl, he⟩
          · exact .inr ⟨e, hde, b, .inr hb, he⟩
        · rintro (hd | ⟨e, hde, b, rfl | hb, he⟩)
          · exact .inl (.inl hd)
          · exact .inl (.inr ⟨e, hde, he⟩)
          · exact .inr ⟨e, hde, b, hb, he⟩

end Peak

end PiPlatform.Library
