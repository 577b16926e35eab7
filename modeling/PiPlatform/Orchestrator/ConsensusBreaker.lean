import Mathlib.Algebra.BigOperators.Group.Finset.Basic
import Mathlib.Algebra.BigOperators.Group.List.Basic
import Mathlib.Algebra.Field.Basic
import Mathlib.Data.Finset.SymmDiff
import Mathlib.Order.Lattice
import PiPlatform.Library.Python.Plain
import PiPlatform.Library.Python.Split

/-! How far the answers of several models are apart.

Distances are taken over all pairs, with exact arithmetic in a field `R`, so the report
does not depend on the order of the answers (`evaluateConsensus_perm`): a sum over pairs
of a symmetric distance does not (`sumPairs_perm`), and both distances are symmetric. -/
namespace PiPlatform.Orchestrator

open Library Library.Json Library.Python

/-! ### Sums over pairs -/

section Pairs
variable {α M : Type*} [AddCommMonoid M]

/-- The sum of `f xᵢ xⱼ` over `i < j`. -/
def sumPairs (f : α → α → M) : List α → M
  | [] => 0
  | x :: xs => (xs.map (f x)).sum + sumPairs f xs

theorem sumPairs_perm {f : α → α → M} (hf : ∀ x y, f x y = f y x) {xs ys : List α}
    (h : xs.Perm ys) : sumPairs f xs = sumPairs f ys := by
  induction h with
  | nil => rfl
  | cons x h ih => rw [sumPairs, sumPairs, ih, (h.map (f x)).sum_eq]
  | swap x y xs =>
    simp only [sumPairs, List.map_cons, List.sum_cons, hf y x]
    rw [add_assoc, add_assoc, add_left_comm ((xs.map (f y)).sum)]
  | trans _ _ ih ih' => exact ih.trans ih'

end Pairs

/-! ### Distances -/

/-- What the arithmetic takes from outside: exact or not, it is a function. -/
structure Numerics (R : Type) where
  sqrt : R → R
  round : R → Nat → R
  /-- `str.lower` -/
  lower : Text → Text

variable {R : Type} [Field R] [LinearOrder R] (N : Numerics R)

def simpleTokenVector (text : Text) : Dict Text R :=
  let words := ((split text).filter fun w => 2 < w.length).map fun w =>
    N.lower (strip (ofString ".,!?\"'()") w)
  let vector : Dict Text R := words.foldl (fun v w => v.set w ((v.get? w).getD 0 + 1)) .empty
  let norm := N.sqrt (vector.items.map fun p => p.2 * p.2).sum
  if 0 < norm then vector.mapValues (· / norm) else vector

/-- The keys, as a set. -/
def keySet {K V : Type} [DecidableEq K] (d : Dict K V) : Finset K := (d.items.map Prod.fst).toFinset

def calculateCosineDistance (textA textB : Text) : R :=
  let vecA := simpleTokenVector N textA
  let vecB := simpleTokenVector N textB
  let dotProduct := ∑ w ∈ keySet vecA ∩ keySet vecB, (vecA.get? w).getD 0 * (vecB.get? w).getD 0
  N.round (1 - dotProduct) 4

/-- The share of keys that only one of the two has. -/
def keyMismatch (a b : Dict String Plain) : R :=
  if keySet a ∪ keySet b = ∅ then 0
  else (symmDiff (keySet a) (keySet b)).card / (keySet a ∪ keySet b).card

/-- `k * (k - 1) / 2.0` -/
def pairsCount (k : Nat) : R := (k * (k - 1) : R) / 2

def calculateStructuralVariance (schemas : List (Dict String Plain)) : R :=
  if schemas.length < 2 then 0
  else if schemas.all (·.items.isEmpty) then 0
  else N.round (sumPairs keyMismatch schemas / pairsCount schemas.length * 100) 2

/-! ### The report -/

structure ModelResponse where
  content : Text
  parsedJson : Option (Dict String Plain)

structure DivergenceReport (R : Type) where
  semanticDivergence : R
  structuralDivergence : R
  consensusDivergenceScore : R
  isBroken : Bool

/-- The weights are the defaults. None where it raises. -/
def evaluateConsensus (threshold : R) (responses : List ModelResponse) :
    Option (DivergenceReport R) :=
  if responses.length < 2 then none
  else
    let semanticScore := sumPairs (fun r s => calculateCosineDistance N r.content s.content)
      responses / pairsCount responses.length * 100
    let structuralScore := calculateStructuralVariance N (responses.filterMap (·.parsedJson))
    let dcScore := min (N.round (1 / 2 * semanticScore + 1 / 2 * structuralScore) 2) 100
    some
      { semanticDivergence := N.round semanticScore 2
        structuralDivergence := structuralScore
        consensusDivergenceScore := dcScore
        isBroken := decide (threshold ≤ dcScore) }

/-! ### The order of the answers -/

theorem calculateCosineDistance_comm (a b : Text) :
    calculateCosineDistance N a b = calculateCosineDistance N b a := by
  simp only [calculateCosineDistance, Finset.inter_comm (keySet (simpleTokenVector N a)), mul_comm]

omit [LinearOrder R] in
theorem keyMismatch_comm (a b : Dict String Plain) :
    (keyMismatch a b : R) = keyMismatch b a := by
  rw [keyMismatch, keyMismatch, Finset.union_comm, symmDiff_comm]

omit [LinearOrder R] in
theorem calculateStructuralVariance_perm {schemas schemas' : List (Dict String Plain)}
    (h : schemas.Perm schemas') :
    calculateStructuralVariance N schemas = calculateStructuralVariance N schemas' := by
  have hall : schemas.all (·.items.isEmpty) = schemas'.all (·.items.isEmpty) := by
    rw [Bool.eq_iff_iff, List.all_eq_true, List.all_eq_true]
    exact forall_congr' fun d => by rw [h.mem_iff]
  rw [calculateStructuralVariance, calculateStructuralVariance, h.length_eq, hall,
    sumPairs_perm keyMismatch_comm h]

theorem evaluateConsensus_perm (threshold : R) {responses responses' : List ModelResponse}
    (h : responses.Perm responses') :
    evaluateConsensus N threshold responses = evaluateConsensus N threshold responses' := by
  have hdistance := sumPairs_perm (f := fun r s : ModelResponse =>
    calculateCosineDistance N r.content s.content)
    (fun r s => calculateCosineDistance_comm N r.content s.content) h
  rw [evaluateConsensus, evaluateConsensus, h.length_eq, hdistance,
    calculateStructuralVariance_perm N (h.filterMap _)]

end PiPlatform.Orchestrator
