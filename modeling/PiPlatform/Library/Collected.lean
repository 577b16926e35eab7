import Mathlib.Algebra.Order.BigOperators.Group.List
import Mathlib.Algebra.Order.Ring.Nat

/-! Loops that return as soon as they have collected enough.

A loop is a fold over what it has collected, with a flag for having returned; then every later
turn does nothing. While there is room for all that the turns add, nothing is left out
(`foldl_adds`). -/
namespace PiPlatform.Library

universe u v
variable {α : Type u} {δ : Type v}

structure Collected (δ : Type v) where
  items : List δ
  returned : Bool

namespace Collected

def nothing : Collected δ := ⟨[], false⟩

/-- `items.append(d)`, then a return if there are `max` items. -/
def push (max : Int) (c : Collected δ) (d : δ) : Collected δ :=
  if c.returned then c else ⟨c.items ++ [d], max ≤ c.items.length + 1⟩

/-- `items.append(d)` alone. -/
def append (c : Collected δ) (d : δ) : Collected δ :=
  if c.returned then c else ⟨c.items ++ [d], false⟩

/-- A return if there are `max` items. -/
def check (max : Int) (c : Collected δ) : Collected δ :=
  if c.returned then c else ⟨c.items, max ≤ c.items.length⟩

/-- What has returned has enough. -/
def Filled (max : Int) (c : Collected δ) : Prop := c.returned = true → max ≤ c.items.length

variable {max : Int} {c c' : Collected δ} {added : α → List δ}
  {turn : Collected δ → α → Collected δ}

theorem filled_nothing (max : Int) : Filled max (nothing : Collected δ) := nofun

/-- A step that adds these items, all of them. -/
structure Adds (max : Int) (c c' : Collected δ) (added : List δ) : Prop where
  items : c'.items = c.items ++ added
  filled : Filled max c'

theorem Adds.refl (h : Filled max c) : Adds max c c [] := ⟨(List.append_nil _).symm, h⟩

theorem Adds.trans {c'' : Collected δ} {added more : List δ} (h : Adds max c c' added)
    (h' : Adds max c' c'' more) : Adds max c c'' (added ++ more) :=
  ⟨by rw [h'.items, h.items, List.append_assoc], h'.filled⟩

/-- With room for an item, nothing has returned. -/
theorem Filled.running (h : Filled max c) (hroom : (c.items.length : Int) < max) :
    c.returned = false := by
  rw [← Bool.not_eq_true]
  intro hreturned
  have hle := h hreturned
  omega

theorem push_adds (h : Filled max c) (d : δ) (hroom : (c.items.length : Int) < max) :
    Adds max c (c.push max d) [d] := by
  rw [push, h.running hroom]
  refine ⟨rfl, fun hreturned => ?_⟩
  have hle := of_decide_eq_true hreturned
  rw [if_neg Bool.false_ne_true, List.length_append, List.length_singleton]
  omega

theorem append_adds (h : Filled max c) (d : δ) (hroom : (c.items.length : Int) < max) :
    Adds max c (c.append d) [d] := by
  rw [append, h.running hroom]
  exact ⟨rfl, nofun⟩

theorem check_adds (h : Filled max c) : Adds max c (c.check max) [] := by
  rw [check]
  split_ifs with hreturned
  · exact Adds.refl h
  · exact ⟨(List.append_nil _).symm, fun hfull => of_decide_eq_true hfull⟩

theorem addsIf (p : Prop) [Decidable p] {added : List δ} (h : Filled max c)
    (hadds : p → Adds max c c' added) :
    Adds max c (if p then c' else c) (if p then added else []) := by
  split_ifs with hp
  · exact hadds hp
  · exact Adds.refl h

/-- A loop adds what its turns add, while each has the room it needs. -/
theorem foldl_adds {need : α → Nat} (hneed : ∀ x, (added x).length ≤ need x)
    (hturn : ∀ c x, Filled max c → (c.items.length + need x : Int) ≤ max →
      Adds max c (turn c x) (added x)) (xs : List α) :
    ∀ c, Filled max c → (c.items.length + (xs.map need).sum : Nat) ≤ max →
      Adds max c (xs.foldl turn c) (xs.flatMap added) := by
  induction xs with
  | nil => exact fun c h _ => Adds.refl h
  | cons x xs ih =>
    intro c h hroom
    rw [List.map_cons, List.sum_cons] at hroom
    have hfirst : Adds max c (turn c x) (added x) := hturn c x h (by omega)
    refine hfirst.trans (ih (turn c x) hfirst.filled ?_)
    have hx := hneed x
    rw [hfirst.items, List.length_append]
    omega

/-- The same need in every turn. -/
theorem foldl_adds_const {need : Nat} (hneed : ∀ x, (added x).length ≤ need)
    (hturn : ∀ c x, Filled max c → (c.items.length + need : Int) ≤ max →
      Adds max c (turn c x) (added x)) (xs : List α) {c : Collected δ} (h : Filled max c)
    (hroom : (c.items.length + xs.length * need : Nat) ≤ max) :
    Adds max c (xs.foldl turn c) (xs.flatMap added) := by
  refine foldl_adds hneed hturn xs c h ?_
  rwa [List.map_const', List.sum_replicate_nat]

/-- A loop that pushes something for each element. -/
theorem foldl_push (f : α → δ) (xs : List α) {c : Collected δ} (h : Filled max c)
    (hroom : (c.items.length + xs.length : Nat) ≤ max) :
    Adds max c (xs.foldl (fun c x => c.push max (f x)) c) (xs.map f) := by
  have hneed : ∀ x, [f x].length ≤ 1 := fun _ => le_rfl
  have hadds := foldl_adds_const hneed
    (fun c x hfilled hone => push_adds hfilled (f x) (by omega)) xs h (by omega)
  rwa [← List.map_eq_flatMap] at hadds

/-- What turns add, at the most. -/
theorem length_flatMap_le {need : Nat} (hneed : ∀ x, (added x).length ≤ need)
    (xs : List α) : (xs.flatMap added).length ≤ xs.length * need := by
  rw [List.length_flatMap, ← List.sum_replicate_nat, ← List.map_const']
  exact List.sum_le_sum fun x _ => hneed x

end Collected

end PiPlatform.Library
