import PiPlatform.Library.Dict

/-! Elements dealt out to numbered parts.

Where every element goes to one of `n` parts, the parts together hold each element once
(`flatMap_parts_perm`), and a dictionary with a key for each part is filled by setting one key at a
time (`setItem_parts`). -/
namespace PiPlatform.Library

variable {α K V : Type}

/-- The parts below a number together are what goes there. -/
theorem flatMap_parts_below (part : α → Nat) (n : Nat) (xs : List α) :
    ((List.range n).flatMap fun i => xs.filter fun x => part x = i).Perm
      (xs.filter fun x => part x < n) := by
  induction n with
  | zero => simp
  | succ n ih =>
    rw [List.range_succ, List.flatMap_append, List.flatMap_singleton]
    have hbelow : (xs.filter fun x => part x < n + 1).filter (fun x => part x < n) =
        xs.filter fun x => part x < n := by
      rw [List.filter_filter]
      refine List.filter_congr fun x _ => ?_
      rw [← Bool.decide_and, decide_eq_decide]
      omega
    have hlast : (xs.filter fun x => part x < n + 1).filter (fun x => !decide (part x < n)) =
        xs.filter fun x => part x = n := by
      rw [List.filter_filter]
      refine List.filter_congr fun x _ => ?_
      rw [← decide_not, ← Bool.decide_and, decide_eq_decide]
      omega
    have hsplit := List.filter_append_perm (fun x => decide (part x < n))
      (xs.filter fun x => part x < n + 1)
    rw [hbelow, hlast] at hsplit
    exact (ih.append_right _).trans hsplit

theorem flatMap_parts_perm (part : α → Nat) {n : Nat} {xs : List α} (h : ∀ x ∈ xs, part x < n) :
    ((List.range n).flatMap fun i => xs.filter fun x => part x = i).Perm xs := by
  have hbelow := flatMap_parts_below part n xs
  rwa [List.filter_eq_self.mpr fun x hx => decide_eq_true (h x hx)] at hbelow

section Keys
variable [DecidableEq K] {key : Nat → K}

theorem lookupItem_parts (hkey : Function.Injective key) (f : Nat → V) {parts : List Nat} {j : Nat}
    (hj : j ∈ parts) : lookupItem (key j) (parts.map fun i => (key i, f i)) = some (f j) := by
  induction parts with
  | nil => exact absurd hj List.not_mem_nil
  | cons i parts ih =>
    rw [List.map_cons, lookupItem]
    split_ifs with heq
    · rw [hkey heq]
    · refine ih ((List.mem_cons.mp hj).resolve_left fun hji => heq ?_)
      rw [hji]

theorem setItem_parts (hkey : Function.Injective key) (f : Nat → V) {parts : List Nat} {j : Nat}
    (hj : j ∈ parts) (hnodup : parts.Nodup) (v : V) :
    setItem (key j) v (parts.map fun i => (key i, f i)) =
      parts.map fun i => (key i, if i = j then v else f i) := by
  induction parts with
  | nil => exact absurd hj List.not_mem_nil
  | cons i parts ih =>
    obtain ⟨hi, hnodup⟩ := List.nodup_cons.mp hnodup
    rw [List.map_cons, setItem, List.map_cons]
    split_ifs with heq hij hij
    · rw [List.cons.injEq, Prod.mk.injEq]
      refine ⟨⟨rfl, rfl⟩, List.map_congr_left fun k hk => ?_⟩
      rw [if_neg fun hkj : k = j => hi (hij ▸ hkj ▸ hk)]
    · exact absurd (hkey heq) hij
    · exact absurd (congrArg key hij) heq
    · rw [ih ((List.mem_cons.mp hj).resolve_left fun hji => hij hji.symm) hnodup]

end Keys

end PiPlatform.Library
