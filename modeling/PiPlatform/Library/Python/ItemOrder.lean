import PiPlatform.Library.Python.TextOrder

/-! Which dictionaries can be written, and what sorting their items leaves alone. -/
namespace PiPlatform.Library.Python

open Json

/-- All the keys are strings, or all are integers. -/
def keysSortable {V : Type} (items : List (Key × V)) : Bool :=
  (items.all fun p => p.1.str?.isSome) || items.all fun p => p.1.int?.isSome

theorem keysSortable_congr {V W : Type} {items : List (Key × V)} {items' : List (Key × W)}
    (h : items'.map Prod.fst = items.map Prod.fst) : keysSortable items' = keysSortable items := by
  have hall : ∀ {U : Type} (p : Key → Bool) (us : List (Key × U)),
      (us.all fun u => p u.1) = (us.map Prod.fst).all p := by
    intro U p us
    rw [List.all_map]
    rfl
  rw [keysSortable, keysSortable, hall fun k => k.str?.isSome, hall fun k => k.int?.isSome,
    hall fun k => k.str?.isSome, hall fun k => k.int?.isSome, h]

theorem mapM_keys_isSome {V T : Type} (f : Key → Option T) (items : List (Key × V)) :
    (items.mapM fun p => (f p.1).map (·, p.2)).isSome = items.all fun p => (f p.1).isSome := by
  induction items with
  | nil => rfl
  | cons p items ih =>
    rw [List.all_cons, ← ih, List.mapM_cons]
    cases f p.1 with
    | none => rfl
    | some t => cases items.mapM fun p => (f p.1).map (·, p.2) <;> rfl

theorem sortItems_ok_iff {V : Type} (items : List (Key × V)) :
    (∃ ms, sortItems items = .ok ms) ↔ keysSortable items = true := by
  rw [keysSortable, ← mapM_keys_isSome, ← mapM_keys_isSome, Bool.or_eq_true, sortItems]
  cases items.mapM fun p => p.1.str?.map (·, p.2) with
  | some texts => simp
  | none => cases items.mapM fun p => p.1.int?.map (·, p.2) <;> simp

theorem mapM_keys_map {V W T : Type} (f : Key → Option T) (g : V → W) (items : List (Key × V)) :
    ((items.map fun p => (p.1, g p.2)).mapM fun p => (f p.1).map (·, p.2)) =
      (items.mapM fun p => (f p.1).map (·, p.2)).map (List.map fun m => (m.1, g m.2)) := by
  induction items with
  | nil => rfl
  | cons p items ih =>
    rw [List.map_cons, List.mapM_cons, ih, List.mapM_cons]
    cases f p.1 with
    | none => rfl
    | some t => cases items.mapM fun p => (f p.1).map (·, p.2) <;> rfl

theorem insertionSort_map_values {T V W : Type} [LinearOrder T] (g : V → W) (ms : List (T × V)) :
    (ms.map fun m => (m.1, g m.2)).insertionSort (fun a b => a.1 ≤ b.1) =
      (ms.insertionSort fun a b => a.1 ≤ b.1).map fun m => (m.1, g m.2) :=
  (List.map_insertionSort _ _ (fun m : T × V => (m.1, g m.2)) ms fun _ _ _ _ => Iff.rfl).symm

/-- Sorting items leaves their values alone. -/
theorem sortItems_map {V W : Type} (g : V → W) (items : List (Key × V)) :
    sortItems (items.map fun p => (p.1, g p.2)) =
      (sortItems items).map (List.map fun m => (m.1, g m.2)) := by
  rw [sortItems, sortItems, mapM_keys_map Key.str?, mapM_keys_map Key.int?]
  cases items.mapM fun p => p.1.str?.map (·, p.2) with
  | some texts => exact congrArg Except.ok (insertionSort_map_values g texts)
  | none =>
    cases items.mapM fun p => p.1.int?.map (·, p.2) with
    | none => rfl
    | some ints =>
      refine congrArg Except.ok ?_
      rw [insertionSort_map_values, List.map_map, List.map_map]
      rfl

end PiPlatform.Library.Python
