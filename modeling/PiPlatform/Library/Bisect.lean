import Mathlib.Logic.Basic

/-! Bisection for the first index at which a monotone test succeeds. -/
namespace PiPlatform.Library

/-- The loop over a closed window, with the last index at which the test succeeded. -/
def bisect (test : Nat → Bool) (low high first : Int) : Int :=
  if low ≤ high then
    let mid := (low + high) / 2
    if test mid.toNat then bisect test low (mid - 1) mid else bisect test (mid + 1) high first
  else first
termination_by (high + 1 - low).toNat
decreasing_by
  · omega
  · omega

/-- The first of so many indices at which the test succeeds, or `-1`. -/
def IsFirst (test : Nat → Bool) (n : Nat) (found : Int) : Prop :=
  (found = -1 ∧ ∀ i < n, test i = false) ∨
    ∃ k < n, found = k ∧ test k = true ∧ ∀ i < k, test i = false

variable {test : Nat → Bool} {n : Nat} {low high first : Int}

/-- Below the window the test fails; above it, it has succeeded, or nothing is left. -/
structure Window (test : Nat → Bool) (n : Nat) (low high first : Int) : Prop where
  low_nonneg : 0 ≤ low
  low_le : low ≤ high + 1
  below : ∀ i : Nat, (i : Int) < low → test i = false
  above : (first = -1 ∧ high + 1 = n) ∨
    (first = high + 1 ∧ first < n ∧ test first.toNat = true)

theorem Window.isFirst (h : Window test n low high first)
    (hclosed : ¬ low ≤ high) : IsFirst test n first := by
  have hle := h.low_le
  have hlow := h.low_nonneg
  rcases h.above with ⟨hfirst, hend⟩ | ⟨hfirst, hlt, hsucceeds⟩
  · exact .inl ⟨hfirst, fun i hi => h.below i (by omega)⟩
  · exact .inr ⟨first.toNat, by omega, by omega, hsucceeds, fun i hi => h.below i (by omega)⟩

theorem Window.left (h : Window test n low high first) (hle : low ≤ high)
    (hmid : test ((low + high) / 2).toNat = true) :
    Window test n low ((low + high) / 2 - 1) ((low + high) / 2) := by
  have hlow := h.low_nonneg
  refine ⟨hlow, by omega, h.below, .inr ⟨by omega, ?_, hmid⟩⟩
  rcases h.above with ⟨-, hend⟩ | ⟨hfirst, hlt, -⟩ <;> omega

theorem Window.right (h : Window test n low high first) (hle : low ≤ high)
    (hmono : ∀ i j, i ≤ j → test i = true → test j = true)
    (hmid : test ((low + high) / 2).toNat = false) :
    Window test n ((low + high) / 2 + 1) high first := by
  have hlow := h.low_nonneg
  refine ⟨by omega, by omega, fun i hi => ?_, h.above⟩
  rw [← Bool.not_eq_true]
  intro hi'
  have hsucceeds := hmono i ((low + high) / 2).toNat (by omega) hi'
  rw [hmid] at hsucceeds
  cases hsucceeds

/-- Bisection finds the first index. -/
theorem bisect_isFirst (hmono : ∀ i j, i ≤ j → test i = true → test j = true)
    (h : Window test n low high first) :
    IsFirst test n (bisect test low high first) := by
  induction low, high, first using bisect.induct test with
  | case1 low high first hle mid hmid ih =>
    rw [bisect, if_pos hle, if_pos hmid]
    exact ih (h.left hle hmid)
  | case2 low high first hle mid hmid ih =>
    rw [bisect, if_pos hle, if_neg hmid]
    exact ih (h.right hle hmono (Bool.eq_false_iff.mpr hmid))
  | case3 low high first hclosed =>
    rw [bisect, if_neg hclosed]
    exact h.isFirst hclosed

end PiPlatform.Library
