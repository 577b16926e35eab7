import PiPlatform.AgentChain.GovernanceKernel
import PiPlatform.Library.Python.Floats
import Mathlib.Data.List.Dedup

/-! What the validators share: the knowledge states, the values a record's fields hold, and the
order in which a set is iterated, which differs from process to process. -/
namespace PiPlatform.AgentChain

open Library

namespace EpistemicState

def observed : String := "OBSERVED"
def inferred : String := "INFERRED"
def verified : String := "VERIFIED"
def replayConfirmed : String := "REPLAY_CONFIRMED"
def contested : String := "CONTESTED"
def rejected : String := "REJECTED"

end EpistemicState

/-- What a field or a violation's context holds. A time is known by its field and the position
of the record in its list, as which time it is depends on the clock. -/
inductive Datum (R : Type) where
  | null
  | bool (b : Bool)
  | int (i : Int)
  | float (x : R)
  | text (s : String)
  | time (field : String) (position : Nat)
  | list (xs : List (Datum R))
  | dict (items : List (String × Datum R))

structure Violation (R : Type) where
  violationId : String
  rule : String
  workerId : String
  rootGoalId : String
  severity : Governance.Severity
  context : List (String × Datum R)
  actionTaken : String

/-- The elements of a set, in the order it is iterated, by the list it was built from. -/
structure SetOrder where
  iterate : {α : Type} → [DecidableEq α] → List α → List α
  perm : ∀ {α : Type} [DecidableEq α] (xs : List α), (iterate xs).Perm xs.dedup

namespace SetOrder
variable (order : SetOrder) {α : Type} [DecidableEq α] {xs : List α} {x : α}

@[simp] theorem mem_iterate : x ∈ order.iterate xs ↔ x ∈ xs :=
  (order.perm xs).mem_iff.trans List.mem_dedup

theorem nodup_iterate : (order.iterate xs).Nodup := (order.perm xs).nodup_iff.mpr xs.nodup_dedup

@[simp] theorem iterate_nil : order.iterate ([] : List α) = [] := (order.perm []).eq_nil

theorem iterate_of_eq {x : α} (h : ∀ y ∈ xs, y = x) : order.iterate (x :: xs) = [x] := by
  have hall : ∀ y ∈ order.iterate (x :: xs), y = x := by
    intro y hy
    rcases List.mem_cons.mp (order.mem_iterate.mp hy) with rfl | hy
    · rfl
    · exact h y hy
  have hx : x ∈ order.iterate (x :: xs) := order.mem_iterate.mpr (List.mem_cons_self ..)
  have hnodup : (order.iterate (x :: xs)).Nodup := order.nodup_iterate
  generalize order.iterate (x :: xs) = ys at hall hx hnodup
  match ys with
  | [] => cases hx
  | [y] => rw [hall y (List.mem_singleton_self y)]
  | y :: z :: ys =>
    obtain ⟨hy, -⟩ := List.nodup_cons.mp hnodup
    rw [hall y (by simp), hall z (by simp)] at hy
    exact absurd (List.mem_cons_self ..) hy

theorem eq_of_iterate {x : α} (h : order.iterate xs = [x]) : ∀ y ∈ xs, y = x := by
  intro y hy
  have hmem := order.mem_iterate.mpr hy
  rw [h] at hmem
  exact List.mem_singleton.mp hmem

/-- The order of a set that holds its elements as they came last. -/
def asBuilt : SetOrder := ⟨List.dedup, fun _ => .refl _⟩

/-- The other way round. -/
def reversed : SetOrder := ⟨fun xs => xs.dedup.reverse, fun xs => xs.dedup.reverse_perm⟩

end SetOrder

/-- A slice up to a bound: a negative one counts from the end. -/
def upToBound {α : Type} (bound : Int) (xs : List α) : List α :=
  xs.take (if bound < 0 then xs.length + bound else bound).toNat

end PiPlatform.AgentChain
