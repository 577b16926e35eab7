import Mathlib.Algebra.Order.BigOperators.Group.List
import Mathlib.Algebra.Order.Field.Basic
import PiPlatform.Interoperability.CapabilityRegistry

/-! Evidence for a trust score.

`with_evidence` builds a new score from the dimension it raises and the set of bases; the other
four are not handed on and start again from zero. So of a whole list of evidence only the end
with one basis counts (`dimension_applied_of_ne`), and the sums are what they should be, in every
order, exactly if there is one basis or nothing to add (`accumulates_iff`). -/
namespace PiPlatform.Interoperability.Capability

open Compatibility (addTo mem_addTo)

/-- What a caller gives: a basis, and 0 to 100 points. -/
structure Evidence where
  basis : TrustScoringBasis
  value : Int
  nonneg : 0 ≤ value
  le_hundred : value ≤ 100

namespace TrustScore

/-- The score that is raised for a basis. -/
def dimension (t : TrustScore) : TrustScoringBasis → Int
  | .policyEvidence => t.policyPassed
  | .determinismProof => t.determinismVerified
  | .replayVerification => t.replaySafe
  | .staticAnalysis => t.staticClean
  | .manualReview => t.manualReviewed

theorem dimension_none (b : TrustScoringBasis) : none.dimension b = 0 := by
  cases b <;> rfl

theorem dimension_withEvidence (t : TrustScore) (b c : TrustScoringBasis) (value : Int) :
    (t.withEvidence b value).dimension c =
      if c = b then min 100 (t.dimension b + value) else 0 := by
  cases b <;> cases c <;> rfl

theorem mem_basis_withEvidence {t : TrustScore} {b c : TrustScoringBasis} {value : Int} :
    c ∈ (t.withEvidence b value).basis ↔ c ∈ t.basis ∨ c = b := by
  cases b <;> exact mem_addTo

end TrustScore

def TrustScoringBasis.all : List TrustScoringBasis :=
  [.policyEvidence, .determinismProof, .replayVerification, .staticAnalysis, .manualReview]

/-- All evidence, from `TrustScore()` on. -/
def applied (pairs : List Evidence) : TrustScore :=
  pairs.foldl (fun t e => t.withEvidence e.basis e.value) .none

/-- The points given for a basis. -/
def given (b : TrustScoringBasis) (pairs : List Evidence) : Int :=
  ((pairs.filter fun e => e.basis = b).map (·.value)).sum

/-- The same scores, and the same set of bases: the order of the tuple is the one of a set. -/
structure Same (t u : TrustScore) : Prop where
  dimension : ∀ b, t.dimension b = u.dimension b
  basis : ∀ b, b ∈ t.basis ↔ b ∈ u.basis

/-- Points add up by basis, to a hundred at most, in whatever order they are given. -/
structure Accumulates (pairs : List Evidence) : Prop where
  dimension : ∀ b, (applied pairs).dimension b = min 100 (given b pairs)
  composite : (applied pairs).compositeScore =
    min 100 (TrustScoringBasis.all.map (applied pairs).dimension).sum
  basis : ∀ b, b ∈ (applied pairs).basis ↔ ∃ e ∈ pairs, e.basis = b
  order : ∀ pairs', pairs'.Perm pairs → Same (applied pairs') (applied pairs)

/-- One basis, or nothing to add. -/
def Undivided (pairs : List Evidence) : Prop :=
  (∃ b, ∀ e ∈ pairs, e.basis = b) ∨ ∀ e ∈ pairs, e.value = 0

section Run
variable {pairs pairs' : List Evidence} {b : TrustScoringBasis} {e : Evidence}

theorem applied_snoc (pairs : List Evidence) (e : Evidence) :
    applied (pairs ++ [e]) = (applied pairs).withEvidence e.basis e.value := by
  rw [applied, List.foldl_append]
  rfl

theorem given_snoc (b : TrustScoringBasis) (pairs : List Evidence) (e : Evidence) :
    given b (pairs ++ [e]) = given b pairs + if b = e.basis then e.value else 0 := by
  rw [given, List.filter_append, List.map_append, List.sum_append, ← given]
  by_cases h : b = e.basis
  · simp [h]
  · simp [h, Ne.symm h]

theorem given_nonneg : 0 ≤ given b pairs := by
  refine List.sum_nonneg fun v hv => ?_
  obtain ⟨e, -, rfl⟩ := List.mem_map.mp hv
  exact e.nonneg

theorem le_given (he : e ∈ pairs) : e.value ≤ given e.basis pairs := by
  refine List.single_le_sum (fun v hv => ?_) _ ?_
  · obtain ⟨e', -, rfl⟩ := List.mem_map.mp hv
    exact e'.nonneg
  · exact List.mem_map_of_mem (List.mem_filter.mpr ⟨he, by simp⟩)

theorem given_perm (h : pairs'.Perm pairs) : given b pairs' = given b pairs :=
  ((h.filter _).map _).sum_eq

theorem mem_basis_applied : b ∈ (applied pairs).basis ↔ ∃ e ∈ pairs, e.basis = b := by
  induction pairs using List.reverseRecOn with
  | nil => simp [applied, TrustScore.none]
  | append_singleton pairs e ih =>
    rw [applied_snoc, TrustScore.mem_basis_withEvidence, ih]
    simp [or_and_right, exists_or, eq_comm]

/-- Only the basis of the last evidence has a score. -/
theorem dimension_applied_of_ne (pairs : List Evidence) (h : b ≠ e.basis) :
    (applied (pairs ++ [e])).dimension b = 0 := by
  rw [applied_snoc, TrustScore.dimension_withEvidence, if_neg h]

theorem dimension_of_oneBasis (h : ∀ e ∈ pairs, e.basis = b) (c : TrustScoringBasis) :
    (applied pairs).dimension c = min 100 (given c pairs) := by
  induction pairs using List.reverseRecOn with
  | nil => exact TrustScore.dimension_none c
  | append_singleton pairs e ih =>
    have hbefore : ∀ e ∈ pairs, e.basis = b := fun e he => h e (List.mem_append_left _ he)
    have he : e.basis = b := h e (by simp)
    rw [applied_snoc, TrustScore.dimension_withEvidence, given_snoc]
    by_cases hc : c = e.basis
    · have hsum : 0 ≤ given c pairs := given_nonneg
      have hvalue := e.nonneg
      rw [if_pos hc, if_pos hc, ← hc, ih hbefore]
      omega
    · have hnone : pairs.filter (fun e' => e'.basis = c) = [] := by
        refine List.filter_eq_nil_iff.mpr fun e' he' => ?_
        rw [hbefore e' he', ← he]
        simpa using Ne.symm hc
      rw [if_neg hc, if_neg hc, given, hnone]
      rfl

theorem given_of_zero (h : ∀ e ∈ pairs, e.value = 0) : given b pairs = 0 := by
  refine List.sum_eq_zero fun v hv => ?_
  obtain ⟨e, he, rfl⟩ := List.mem_map.mp hv
  exact h e (List.mem_of_mem_filter he)

theorem dimension_of_zero (h : ∀ e ∈ pairs, e.value = 0) (c : TrustScoringBasis) :
    (applied pairs).dimension c = 0 := by
  induction pairs using List.reverseRecOn with
  | nil => exact TrustScore.dimension_none c
  | append_singleton pairs e ih =>
    have hbefore : ∀ e ∈ pairs, e.value = 0 := fun e he => h e (List.mem_append_left _ he)
    rw [applied_snoc, TrustScore.dimension_withEvidence, h e (by simp)]
    split_ifs with hc
    · rw [← hc, ih hbefore]
      rfl
    · rfl

theorem Undivided.dimension (h : Undivided pairs) (c : TrustScoringBasis) :
    (applied pairs).dimension c = min 100 (given c pairs) := by
  rcases h with ⟨b, hone⟩ | hzero
  · exact dimension_of_oneBasis hone c
  · rw [dimension_of_zero hzero, given_of_zero hzero]
    rfl

theorem Undivided.perm (h : Undivided pairs) (hperm : pairs'.Perm pairs) : Undivided pairs' :=
  h.imp (fun ⟨b, hone⟩ => ⟨b, fun e he => hone e (hperm.subset he)⟩)
    fun hzero e he => hzero e (hperm.subset he)

/-- Evidence of another basis, moved to the end, takes the points away. -/
theorem Accumulates.basis_eq (h : Accumulates pairs) {p q : Evidence} (hp : p ∈ pairs)
    (hq : q ∈ pairs) (hpoints : 0 < p.value) : q.basis = p.basis := by
  by_contra hne
  obtain ⟨front, back, rfl⟩ := List.append_of_mem hq
  have hmoved : ((front ++ back) ++ [q]).Perm (front ++ q :: back) :=
    (List.perm_append_singleton q _).trans List.perm_middle.symm
  have hlost := dimension_applied_of_ne (front ++ back) (Ne.symm hne)
  rw [(h.order _ hmoved).dimension, h.dimension] at hlost
  have hleast := le_given hp
  omega

end Run

/-- Evidence accumulates exactly if all of it has one basis, or has no points. -/
theorem accumulates_iff (pairs : List Evidence) : Accumulates pairs ↔ Undivided pairs := by
  constructor
  · intro h
    by_cases hpoints : ∃ p ∈ pairs, 0 < p.value
    · obtain ⟨p, hp, hpos⟩ := hpoints
      exact .inl ⟨p.basis, fun q hq => h.basis_eq hp hq hpos⟩
    · push Not at hpoints
      exact .inr fun e he => le_antisymm (hpoints e he) e.nonneg
  · intro h
    refine ⟨h.dimension, ?_, fun b => mem_basis_applied,
      fun pairs' hperm => ⟨fun b => ?_, fun b => ?_⟩⟩
    · simp [TrustScore.compositeScore, TrustScoringBasis.all, TrustScore.dimension, add_assoc]
    · rw [(h.perm hperm).dimension, h.dimension, given_perm hperm]
    · rw [mem_basis_applied, mem_basis_applied]
      simp only [hperm.mem_iff]

/-- A policy that passed, and a proof of determinism: only the proof is left. -/
def passedThenProved : List Evidence :=
  [⟨.policyEvidence, 25, by decide, by decide⟩, ⟨.determinismProof, 25, by decide, by decide⟩]

theorem not_accumulates_passedThenProved : ¬ Accumulates passedThenProved := by
  intro h
  have hlost : (applied passedThenProved).dimension .policyEvidence = 0 := by decide
  rw [h.dimension] at hlost
  exact absurd hlost (by decide)

end PiPlatform.Interoperability.Capability
