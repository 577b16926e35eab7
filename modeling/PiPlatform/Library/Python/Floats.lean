import Mathlib.Algebra.BigOperators.Group.List.Basic
import Mathlib.Algebra.Order.Archimedean.Basic
import Mathlib.Data.Rat.Floor
import Mathlib.Data.Nat.Log
import Mathlib.Tactic.Linarith
import Mathlib.Tactic.Positivity

/-! Floats, as far as the models need them.

`Floats R` has the operations, and those laws of theirs by which a value stays between the
bounds a field declares. They hold of doubles, NaN included, which meets every bound, and of
exact arithmetic (`exact`). -/
namespace PiPlatform.Library.Python

/-- `ofNat n` and `ofInt n` are the floats of integers, `dec n k` the literal `n / 10 ^ k`,
and `sum` takes the floats in their order. -/
structure Floats (R : Type) where
  lt : R → R → Bool
  le : R → R → Bool
  add : R → R → R
  sub : R → R → R
  mul : R → R → R
  div : R → R → R
  sum : List R → R
  round : R → Nat → R
  log2 : R → R
  abs : R → R
  square : R → R
  ofNat : Nat → R
  ofInt : Int → R
  dec : Nat → Nat → R
  /-- Every float but NaN. -/
  isNumber : R → Bool
  le_eq : ∀ x y, isNumber x = true → isNumber y = true → le x y = !lt y x
  number_dec : ∀ n k, isNumber (dec n k) = true
  number_mul : ∀ n k n' k', isNumber (mul (dec n k) (dec n' k')) = true
  number_round : ∀ x k, isNumber x = true → isNumber (round x k) = true
  nonneg_dec : ∀ n k, lt (dec n k) (ofNat 0) = false
  dec_le_one : ∀ n k, n ≤ 10 ^ k → lt (ofNat 1) (dec n k) = false
  nonneg_mul : ∀ x y, lt x (ofNat 0) = false → lt y (ofNat 0) = false →
    lt (mul x y) (ofNat 0) = false
  mul_le_one : ∀ x y, lt x (ofNat 0) = false → lt y (ofNat 0) = false →
    lt (ofNat 1) x = false → lt (ofNat 1) y = false → lt (ofNat 1) (mul x y) = false
  nonneg_round : ∀ x k, lt x (ofNat 0) = false → lt (round x k) (ofNat 0) = false
  round_le_one : ∀ x k, lt (ofNat 1) x = false → lt (ofNat 1) (round x k) = false
  nonneg_sum : ∀ xs, (∀ x ∈ xs, lt x (ofNat 0) = false) → lt (sum xs) (ofNat 0) = false
  nonneg_zero : lt (ofNat 0) (ofNat 0) = false
  /-- A summand of an entropy is taken away, and it is not positive. -/
  nonneg_sub_log2 : ∀ x n m, lt x (ofNat 0) = false → 0 < n → n ≤ m →
    lt (sub x (mul (div (ofNat n) (ofNat m)) (log2 (div (ofNat n) (ofNat m))))) (ofNat 0) = false

namespace Floats
variable {R : Type} (N : Floats R)

/-- `min(x, y)` -/
def min (x y : R) : R := if N.lt y x then y else x

/-- `max(x, y)` -/
def max (x y : R) : R := if N.lt x y then y else x

/-- `min(xs)` and `max(xs)`, of a first and the rest. -/
def minOf (x : R) (xs : List R) : R := xs.foldl N.min x

def maxOf (x : R) (xs : List R) : R := xs.foldl N.max x

/-- `Field(ge=0.0, le=1.0)` -/
def InUnit (x : R) : Prop := N.lt x (N.ofNat 0) = false ∧ N.lt (N.ofNat 1) x = false

/-- `Field(ge=0.0)` -/
def Nonneg (x : R) : Prop := N.lt x (N.ofNat 0) = false

instance (x : R) : Decidable (N.InUnit x) := inferInstanceAs (Decidable (_ ∧ _))
instance (x : R) : Decidable (N.Nonneg x) := inferInstanceAs (Decidable (_ = _))

variable {N}

theorem InUnit.nonneg {x : R} (h : N.InUnit x) : N.Nonneg x := h.1

theorem inUnit_dec {n k : Nat} (h : n ≤ 10 ^ k) : N.InUnit (N.dec n k) :=
  ⟨N.nonneg_dec n k, N.dec_le_one n k h⟩

theorem InUnit.mul {x y : R} (hx : N.InUnit x) (hy : N.InUnit y) : N.InUnit (N.mul x y) :=
  ⟨N.nonneg_mul x y hx.1 hy.1, N.mul_le_one x y hx.1 hy.1 hx.2 hy.2⟩

theorem InUnit.round {x : R} (h : N.InUnit x) (k : Nat) : N.InUnit (N.round x k) :=
  ⟨N.nonneg_round x k h.1, N.round_le_one x k h.2⟩

theorem Nonneg.round {x : R} (h : N.Nonneg x) (k : Nat) : N.Nonneg (N.round x k) :=
  N.nonneg_round x k h

/-- What folding takes is one of them. -/
theorem foldl_mem {f : R → R → R} (hf : ∀ x y, f x y = x ∨ f x y = y) (x : R) (xs : List R) :
    xs.foldl f x ∈ x :: xs := by
  induction xs generalizing x with
  | nil => exact List.mem_cons_self ..
  | cons y xs ih =>
    rw [List.foldl_cons]
    rcases List.mem_cons.mp (ih (f x y)) with h | h
    · rw [h]
      rcases hf x y with h | h
      · rw [h]
        exact List.mem_cons_self ..
      · rw [h]
        exact List.mem_cons_of_mem _ (List.mem_cons_self ..)
    · exact List.mem_cons_of_mem _ (List.mem_cons_of_mem _ h)

theorem minOf_mem (x : R) (xs : List R) : N.minOf x xs ∈ x :: xs :=
  foldl_mem (fun x y => by rw [Floats.min]; split <;> simp) x xs

theorem maxOf_mem (x : R) (xs : List R) : N.maxOf x xs ∈ x :: xs :=
  foldl_mem (fun x y => by rw [Floats.max]; split <;> simp) x xs

/-! ### Entropy -/

variable (N)

/-- `entropy -= p * math.log2(p)` over the counts, with `p = count / total`. -/
def entropyOf (counts : List Nat) (total : Nat) : R :=
  counts.foldl (fun entropy count =>
    let p := N.div (N.ofNat count) (N.ofNat total)
    N.sub entropy (N.mul p (N.log2 p))) (N.ofNat 0)

theorem nonneg_entropyOf {counts : List Nat} {total : Nat}
    (hcounts : ∀ count ∈ counts, 0 < count ∧ count ≤ total) :
    N.Nonneg (N.entropyOf counts total) := by
  have hrun : ∀ counts : List Nat, (∀ count ∈ counts, 0 < count ∧ count ≤ total) →
      ∀ entropy, N.Nonneg entropy → N.Nonneg (counts.foldl (fun entropy count =>
        let p := N.div (N.ofNat count) (N.ofNat total)
        N.sub entropy (N.mul p (N.log2 p))) entropy) := by
    intro counts
    induction counts with
    | nil => exact fun _ entropy hentropy => hentropy
    | cons count counts ih =>
      intro hcounts entropy hentropy
      obtain ⟨⟨hpos, hle⟩, hrest⟩ := List.forall_mem_cons.mp hcounts
      exact ih hrest _ (N.nonneg_sub_log2 _ _ _ hentropy hpos hle)
  exact hrun counts hcounts _ N.nonneg_zero

end Floats

/-! ### Exact arithmetic -/

/-- Of two nearest integers, the even one. -/
def roundHalfEven (q : ℚ) : ℤ :=
  if q - ⌊q⌋ < 1 / 2 then ⌊q⌋
  else if 1 / 2 < q - ⌊q⌋ then ⌊q⌋ + 1
  else if ⌊q⌋ % 2 = 0 then ⌊q⌋ else ⌊q⌋ + 1

theorem roundHalfEven_cases (q : ℚ) : roundHalfEven q = ⌊q⌋ ∨
    roundHalfEven q = ⌊q⌋ + 1 ∧ (⌊q⌋ : ℚ) < q := by
  rw [roundHalfEven]
  split
  · exact .inl rfl
  · next hhalf =>
    have hlt : (⌊q⌋ : ℚ) < q := by linarith
    split
    · exact .inr ⟨rfl, hlt⟩
    · split
      · exact .inl rfl
      · exact .inr ⟨rfl, hlt⟩

theorem le_roundHalfEven {n : ℤ} {q : ℚ} (h : n ≤ q) : n ≤ roundHalfEven q := by
  have hfloor : n ≤ ⌊q⌋ := Int.le_floor.mpr h
  rcases roundHalfEven_cases q with heq | ⟨heq, -⟩ <;> omega

theorem roundHalfEven_le {n : ℤ} {q : ℚ} (h : q ≤ n) : roundHalfEven q ≤ n := by
  rcases roundHalfEven_cases q with heq | ⟨heq, hlt⟩
  · exact heq ▸ Int.floor_le_iff.mpr (h.trans_lt (lt_add_one _))
  · have hfloor : ⌊q⌋ < n := by exact_mod_cast hlt.trans_le h
    omega

/-- The logarithm is exact on powers of two. -/
def exact : Floats ℚ where
  lt x y := decide (x < y)
  le x y := decide (x ≤ y)
  add := (· + ·)
  sub := (· - ·)
  mul := (· * ·)
  div := (· / ·)
  sum := List.sum
  round x k := roundHalfEven (x * 10 ^ k) / 10 ^ k
  log2 x := (Nat.log 2 x.num.natAbs : ℚ) - Nat.log 2 x.den
  abs := fun x => |x|
  square x := x ^ 2
  ofNat n := n
  ofInt n := n
  dec n k := n / 10 ^ k
  isNumber _ := true
  le_eq x y _ _ := by simp [← not_lt]
  number_dec _ _ := rfl
  number_mul _ _ _ _ := rfl
  number_round _ _ _ := rfl
  nonneg_dec n k := decide_eq_false (not_lt.mpr (by positivity))
  dec_le_one n k h := by
    have hle : (n : ℚ) ≤ 10 ^ k := by exact_mod_cast h
    exact decide_eq_false (not_lt.mpr (by simpa using div_le_one_of_le₀ hle (by positivity)))
  nonneg_mul x y hx hy := by
    simp only [decide_eq_false_iff_not, not_lt, Nat.cast_zero] at hx hy ⊢
    exact mul_nonneg hx hy
  mul_le_one x y hx hy hx' hy' := by
    simp only [decide_eq_false_iff_not, not_lt, Nat.cast_zero, Nat.cast_one] at hx hy hx' hy' ⊢
    exact mul_le_one₀ hx' hy hy'
  nonneg_round x k h := by
    simp only [decide_eq_false_iff_not, not_lt, Nat.cast_zero] at h ⊢
    have hx : ((0 : ℤ) : ℚ) ≤ x * 10 ^ k := by
      rw [Int.cast_zero]
      exact mul_nonneg h (by positivity)
    have hround := le_roundHalfEven hx
    exact div_nonneg (by exact_mod_cast hround) (by positivity)
  round_le_one x k h := by
    simp only [decide_eq_false_iff_not, not_lt, Nat.cast_one] at h ⊢
    have hx : x * 10 ^ k ≤ ((10 ^ k : ℤ) : ℚ) := by
      push_cast
      exact mul_le_of_le_one_left (by positivity) h
    have hround := roundHalfEven_le hx
    exact div_le_one_of_le₀ (by exact_mod_cast hround) (by positivity)
  nonneg_sum xs h := by
    simp only [decide_eq_false_iff_not, not_lt, Nat.cast_zero] at h ⊢
    exact List.sum_nonneg h
  nonneg_zero := by simp
  nonneg_sub_log2 x n m hx hn hle := by
    simp only [decide_eq_false_iff_not, not_lt, Nat.cast_zero] at hx ⊢
    have hp : (0 : ℚ) ≤ (n : ℚ) / m := by positivity
    have hone : (n : ℚ) / m ≤ 1 := div_le_one_of_le₀ (by exact_mod_cast hle) (by positivity)
    have hnum : ((n : ℚ) / m).num.natAbs ≤ ((n : ℚ) / m).den := by
      have hle := Rat.num_le_denom_iff.mpr hone
      have hpos := Rat.num_nonneg.mpr hp
      omega
    have hlog : ((Nat.log 2 ((n : ℚ) / m).num.natAbs : ℚ) - Nat.log 2 ((n : ℚ) / m).den) ≤ 0 := by
      have hmono : Nat.log 2 ((n : ℚ) / m).num.natAbs ≤ Nat.log 2 ((n : ℚ) / m).den :=
        Nat.log_mono_right hnum
      exact sub_nonpos.mpr (by exact_mod_cast hmono)
    have hprod := mul_nonpos_of_nonneg_of_nonpos hp hlog
    linarith

end PiPlatform.Library.Python
