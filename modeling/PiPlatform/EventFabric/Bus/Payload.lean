import PiPlatform.Library.Python.TextOrder

/-! Payloads and their canonical JSON.

`canonical` turns every set into a list sorted by the JSON of its elements, so that
the text of a payload does not depend on a set's iteration order. `canonicalJson`
is the text `append` hashes and stores. `reread_canonicalJson` compares it with the
text of the payload read back from it, which is the one the verifier hashes: the
two are equal exactly for text-ordered payloads. -/
namespace PiPlatform.EventFabric

open Library Library.Json Library.Python

variable {F : Type} [FloatCodec F] [SetText F] {items cs : List (Key × PyValue F)}

/-- A payload Python can hold. -/
structure Payload (F : Type) where
  value : PyValue F
  wellFormed : value.wellFormed = true

mutual

/-- `_canonical(obj)`. The elements of a set are taken through `_canonical` before
the sort here and after it there; the sort does not look at the result. -/
def canonical : PyValue F → Except PyError (PyValue F)
  | .dict items => do return .dict (← canonicalItems items)
  | .list xs => do return .list (← canonicalElems xs)
  | .tuple xs => do return .list (← canonicalElems xs)
  | .set xs => do
    let keys ← xs.mapM (dumps .spaced)
    let ys ← canonicalElems xs
    return .list (((keys.zip ys).insertionSort fun a b => a.1 ≤ b.1).map Prod.snd)
  | .none => return .none
  | .bool b => return .bool b
  | .int i => return .int i
  | .float x => return .float x
  | .str s => return .str s

def canonicalElems : List (PyValue F) → Except PyError (List (PyValue F))
  | [] => .ok []
  | x :: xs => do return (← canonical x) :: (← canonicalElems xs)

def canonicalItems : List (Key × PyValue F) → Except PyError (List (Key × PyValue F))
  | [] => .ok []
  | (k, v) :: items => do return (k, ← canonical v) :: (← canonicalItems items)

end

/-- `json.dumps(_canonical(v), sort_keys=True, default=str, separators=(",", ":"))` -/
def canonicalJson (v : PyValue F) : Except PyError String := do
  dumps .compact (← canonical v)

/-! ### The only error is a `TypeError` -/

theorem canonicalElems_eq_mapM (xs : List (PyValue F)) :
    canonicalElems xs = xs.mapM canonical := by
  induction xs with
  | nil => rfl
  | cons x xs ih => rw [canonicalElems, List.mapM_cons, ih]

theorem canonicalItems_eq_mapM (items : List (Key × PyValue F)) :
    canonicalItems items = items.mapM fun p => (p.1, ·) <$> canonical p.2 := by
  induction items with
  | nil => rfl
  | cons p items ih =>
    rw [canonicalItems, List.mapM_cons, ih]
    cases canonical p.2 <;> rfl

theorem canonicalElems_ok_iff {xs cs : List (PyValue F)} :
    canonicalElems xs = .ok cs ↔ List.Forall₂ (fun x c => canonical x = .ok c) xs cs := by
  rw [canonicalElems_eq_mapM, mapM_eq_ok_iff]

theorem canonicalItems_ok_iff :
    canonicalItems items = .ok cs ↔
      List.Forall₂ (fun p q => p.1 = q.1 ∧ canonical p.2 = .ok q.2) items cs := by
  rw [canonicalItems_eq_mapM, mapM_values_ok_iff]

theorem keys_canonicalItems
    (h : canonicalItems items = .ok cs) : cs.map Prod.fst = items.map Prod.fst :=
  (map_eq_of_forall₂ (canonicalItems_ok_iff.mp h) fun _ _ hpq => hpq.1).symm

theorem canonical_error (v : PyValue F) {e : PyError} (h : canonical v = .error e) :
    e = .typeError := by
  induction v generalizing e with
  | none | bool | int | float | str => cases h
  | list xs ih | tuple xs ih =>
    rcases bind_error h with h | ⟨ys, -, h⟩
    · rw [canonicalElems_eq_mapM] at h
      obtain ⟨x, hx, h⟩ := exists_of_mapM_error h
      exact ih x hx h
    · cases h
  | set xs ih =>
    rcases bind_error h with h | ⟨keys, -, h⟩
    · obtain ⟨x, -, h⟩ := exists_of_mapM_error h
      exact dumps_error h
    · rcases bind_error h with h | ⟨ys, -, h⟩
      · rw [canonicalElems_eq_mapM] at h
        obtain ⟨x, hx, h⟩ := exists_of_mapM_error h
        exact ih x hx h
      · cases h
  | dict items ih =>
    rcases bind_error h with h | ⟨cs, -, h⟩
    · rw [canonicalItems_eq_mapM] at h
      obtain ⟨p, hp, h⟩ := exists_of_mapM_values_error h
      exact ih p hp h
    · cases h

/-- A payload that is refused is refused for its keys, before any table is touched. -/
theorem canonicalJson_error {v : PyValue F} {e : PyError} (h : canonicalJson v = .error e) :
    e = .typeError := by
  rcases bind_error h with h | ⟨c, -, h⟩
  · exact canonical_error v h
  · exact dumps_error h

/-! ### What was read is canonical -/

theorem canonicalItems_self {items : List (Key × PyValue F)}
    (h : ∀ p ∈ items, canonical p.2 = .ok p.2) : canonicalItems items = .ok items :=
  canonicalItems_ok_iff.mpr (List.forall₂_same.mpr fun p hp => ⟨rfl, h p hp⟩)

theorem canonical_load (d : Document F) : canonical (load d) = .ok (load d) := by
  induction d with
  | null | bool | int | float | str => rfl
  | arr xs ih =>
    have hxs : canonicalElems (loadElems xs) = .ok (loadElems xs) := by
      rw [loadElems_eq_map, canonicalElems_ok_iff]
      exact List.forall₂_same.mpr (List.forall_mem_map.mpr ih)
    rw [load, canonical, hxs]
    rfl
  | obj ms ih =>
    have hvalues : ∀ p ∈ setItems [] (loadMembers ms), canonical p.2 = .ok p.2 := by
      rw [loadMembers_eq_map]
      exact forall_setItems (List.forall_mem_nil _) (List.forall_mem_map.mpr ih)
    rw [load, canonical, canonicalItems_self hvalues]
    rfl

theorem canonicalJson_load (t : Document F) :
    canonicalJson (load t) = .ok (String.ofList ((normal t).render .compact)) := by
  simp only [canonicalJson, canonical_load, dumps]
  show (emit (load t) >>= fun d => .ok (String.ofList (d.render .compact))) = _
  rw [emit_load]
  rfl

/-! ### Text order is kept -/

omit [FloatCodec F] [SetText F] in
theorem mem_sorted {keys : List String} {ys : List (PyValue F)} {y : PyValue F}
    (h : y ∈ ((keys.zip ys).insertionSort fun a b => a.1 ≤ b.1).map Prod.snd) : y ∈ ys := by
  obtain ⟨p, hp, rfl⟩ := List.mem_map.mp h
  exact (List.of_mem_zip ((List.mem_insertionSort _).mp hp)).2

/-- What may stand in a set holds no dictionary, and neither does its canonical form. -/
theorem textOrdered_of_hashable (v c : PyValue F) (hv : v.hashable = true)
    (h : canonical v = .ok c) : c.textOrdered = true := by
  have helems : ∀ {xs ys : List (PyValue F)}, hashableElems xs = true →
      (∀ x ∈ xs, ∀ c, x.hashable = true → canonical x = .ok c → c.textOrdered = true) →
      canonicalElems xs = .ok ys → ∀ y ∈ ys, y.textOrdered = true := by
    intro xs ys hxs ih hys y hy
    obtain ⟨x, hx, hc⟩ := exists_left (canonicalElems_ok_iff.mp hys) hy
    exact ih x hx y ((hashableElems_iff xs).mp hxs x hx) hc
  induction v generalizing c with
  | none | bool | int | float | str =>
    cases h
    rfl
  | list | dict => cases hv
  | tuple xs ih =>
    obtain ⟨ys, hys, h⟩ := bind_ok h
    cases h
    exact (textOrderedElems_iff ys).mpr (helems hv ih hys)
  | set xs ih =>
    obtain ⟨keys, -, h⟩ := bind_ok h
    obtain ⟨ys, hys, h⟩ := bind_ok h
    cases h
    exact (textOrderedElems_iff _).mpr fun y hy => helems hv ih hys y (mem_sorted hy)

theorem textOrdered_canonical (v c : PyValue F) (hw : v.wellFormed = true)
    (h : canonical v = .ok c) : c.textOrdered = v.textOrdered := by
  induction v generalizing c with
  | none | bool | int | float | str =>
    cases h
    rfl
  | list xs ih | tuple xs ih =>
    obtain ⟨ys, hys, h⟩ := bind_ok h
    cases h
    rw [PyValue.wellFormed, wellFormedElems_iff] at hw
    rw [PyValue.textOrdered, PyValue.textOrdered, Bool.eq_iff_iff, textOrderedElems_iff,
      textOrderedElems_iff]
    exact forall_iff_of_forall₂ (canonicalElems_ok_iff.mp hys) fun x hx c => ih x hx c (hw x hx)
  | set xs =>
    rw [PyValue.wellFormed, Bool.and_eq_true] at hw
    exact textOrdered_of_hashable (.set xs) c hw.1 h
  | dict items ih =>
    obtain ⟨cs, hcs, h⟩ := bind_ok h
    cases h
    rw [PyValue.wellFormed, Bool.and_eq_true, wellFormedItems_iff] at hw
    have hitems : textOrderedItems cs = textOrderedItems items := by
      rw [Bool.eq_iff_iff, textOrderedItems_iff, textOrderedItems_iff]
      exact forall_iff_of_forall₂ (canonicalItems_ok_iff.mp hcs)
        fun p hp q hpq => ih p hp q.2 (hw.2 p hp) hpq.2
    rw [PyValue.textOrdered, PyValue.textOrdered, keys_canonicalItems hcs, hitems]

/-! ### The stored text -/

/-- The document behind a canonical text. -/
theorem canonicalJson_spec {v : PyValue F} {s : String} (h : canonicalJson v = .ok s) :
    ∃ c t, canonical v = .ok c ∧ emit c = .ok t ∧ s = String.ofList (t.render .compact) := by
  obtain ⟨c, hc, h⟩ := bind_ok h
  obtain ⟨t, ht, h⟩ := bind_ok h
  cases h
  exact ⟨c, t, hc, ht, rfl⟩

/-- A stored payload reads back, and the text of what is read is the stored one
exactly when the payload is text-ordered. -/
theorem reread_canonicalJson (p : Payload F) {s : String} (h : canonicalJson p.value = .ok s) :
    ∃ (v : PyValue F) (s' : String), loads s = .ok v ∧ canonicalJson v = .ok s' ∧
      (s' = s ↔ p.value.textOrdered = true) := by
  obtain ⟨c, t, hc, ht, rfl⟩ := canonicalJson_spec h
  have hparse : parse (t.render .compact) = some t.join := parse_render .compact t
  have hjoin : t.join.join = t.join := join_of_parse hparse
  refine ⟨load t.join, _, ?_, canonicalJson_load t.join, ?_⟩
  · simp only [loads, String.toList_ofList, hparse]
  · rw [String.ofList_inj, render_eq_iff, join_normal t.join hjoin, normal_eq_iff,
      ascending_emit c t ht, textOrdered_canonical p.value c p.wellFormed hc]

end PiPlatform.EventFabric
