import Mathlib.Data.List.Perm.Subperm
import PiPlatform.Library.Python.Reread

/-! When two values are written alike.

The sorted text of a value that JSON gives back says everything but the order of the keys:
two such values have one text exactly when they are the same (`dumps_eq_iff`). -/
namespace PiPlatform.Library.Python

open Json

variable {F : Type}

/-! ### Sorted items -/

/-- Distinct plain keys, sorted, ascend strictly. -/
theorem sortItems_distinct {V : Type} {items : List (Key × V)} {ms : List (Text × V)}
    (hnodup : (items.map Prod.fst).Nodup) (hplain : ∀ p ∈ items, p.1.plain = true)
    (h : sortItems items = .ok ms) : (ms.map Prod.fst).Pairwise (· < ·) := by
  obtain ⟨texts, htexts⟩ := texts_of_plain hplain
  rw [sortItems, htexts] at h
  cases h
  rw [mapM_str_items htexts, List.map_map] at hnodup
  refine pairwise_keys_insertionSort (List.Nodup.of_map Key.str ?_)
  rwa [List.map_map]

/-- Distinct plain items are sorted into one list exactly when they are the same items. -/
theorem sortItems_eq_iff {V : Type} {items items' : List (Key × V)}
    (hnodup : (items.map Prod.fst).Nodup) (hnodup' : (items'.map Prod.fst).Nodup)
    (hplain : ∀ p ∈ items, p.1.plain = true) (hplain' : ∀ p ∈ items', p.1.plain = true) :
    sortItems items = sortItems items' ↔ items.Perm items' := by
  obtain ⟨ms, hms, hperm⟩ := sortItems_plain hplain
  obtain ⟨ms', hms', hperm'⟩ := sortItems_plain hplain'
  have hinj : Function.Injective fun p : Text × V => (Key.str p.1, p.2) := fun p q h =>
    Prod.ext (Key.str.inj (Prod.mk.inj h).1) (Prod.mk.inj h).2
  rw [hms, hms', Except.ok.injEq]
  constructor
  · rintro rfl
    exact hperm.symm.trans hperm'
  · intro h
    have hboth : ms.Perm ms' :=
      (List.map_perm_map_iff hinj).mp (hperm.trans (h.trans hperm'.symm))
    have hle := List.pairwise_map.mp (sortItems_distinct hnodup hplain hms)
    have hle' := List.pairwise_map.mp (sortItems_distinct hnodup' hplain' hms')
    exact hboth.eq_of_pairwise (fun a b _ _ hab hba => absurd hab (lt_asymm hba)) hle hle'

/-! ### Documents of JSON values -/

section Emit
variable [SetText F] {items items' : List (Key × PyValue F)}

theorem exists_emitted {ts : List (Key × Document F)}
    (h : emitItems items = .ok ts) {k : Key} {t : Document F} (hmem : (k, t) ∈ ts) :
    ∃ x, (k, x) ∈ items ∧ emit x = .ok t := by
  obtain ⟨⟨j, x⟩, hmem', rfl, ht⟩ := exists_left (emitItems_ok_iff.mp h) hmem
  exact ⟨x, hmem', ht⟩

/-- The document of a list that JSON gives back. -/
theorem emit_list_json {xs : List (PyValue F)} (h : jsonElems xs = true) :
    ∃ ts, emitElems xs = .ok ts ∧ emit (.list xs) = .ok (.arr ts) := by
  obtain ⟨t, ht, -⟩ := same_reread (.list xs) h
  obtain ⟨ts, hts, h⟩ := bind_ok ht
  cases h
  exact ⟨ts, hts, ht⟩

theorem emit_dict_json
    (h : (PyValue.dict items).json = true) : ∃ ts ms, DictDocument items ts ms := by
  obtain ⟨hnodup, hplain, hvalues⟩ := json_dict_iff.mp h
  exact exists_dictDocument hnodup hplain fun p hp => same_reread p.2 (hvalues p hp)

/-- The written items are the same exactly when every item is found in the other dictionary
with a value written alike. -/
theorem emitItems_perm_iff {ts ts' : List (Key × Document F)} (h : emitItems items = .ok ts)
    (h' : emitItems items' = .ok ts') (hnodup : (ts.map Prod.fst).Nodup)
    (hnodup' : (ts'.map Prod.fst).Nodup) :
    ts.Perm ts' ↔ items.length = items'.length ∧
      ∀ p ∈ items, ∃ v, lookupItem p.1 items' = some v ∧ emit p.2 = emit v := by
  have hkeys := keys_emitItems h
  have hkeys' := keys_emitItems h'
  have hlength : ts.length = items.length := by simpa using congrArg List.length hkeys
  have hlength' : ts'.length = items'.length := by simpa using congrArg List.length hkeys'
  rw [hkeys'] at hnodup'
  constructor
  · intro hperm
    refine ⟨by rw [← hlength, ← hlength', hperm.length_eq], fun p hp => ?_⟩
    obtain ⟨t, ht, hmem⟩ := mem_emitItems h hp
    obtain ⟨v, hv, hemit⟩ := exists_emitted h' (hperm.mem_iff.mp hmem)
    exact ⟨v, (mem_items_iff hnodup').mp hv, ht.trans hemit.symm⟩
  · rintro ⟨hcount, hfound⟩
    have hsubset : ts ⊆ ts' := by
      rintro ⟨k, t⟩ hmem
      obtain ⟨x, hx, hemit⟩ := exists_emitted h hmem
      obtain ⟨v, hv, halike⟩ := hfound _ hx
      obtain ⟨t', ht', hmem'⟩ := mem_emitItems h' ((mem_items_iff hnodup').mpr hv)
      rwa [Except.ok.inj (hemit.symm.trans (halike.trans ht'))]
    have hsub : ts.Subperm ts' := List.subperm_of_subset hnodup.of_map hsubset
    exact hsub.perm_of_length_le (by rw [hlength, hlength', hcount])

/-! ### Two values with one document -/

/-- Neither list nor dictionary. -/
def PyValue.leaf : PyValue F → Bool
  | .list _ => false
  | .tuple _ => false
  | .set _ => false
  | .dict _ => false
  | _ => true

theorem emit_leaf_iff {v w : PyValue F} (hv : v.leaf = true) (hw : w.json = true) :
    emit v = emit w ↔ v.same w := by
  cases w with
  | list xs =>
    obtain ⟨ts, -, hemit⟩ := emit_list_json hw
    rw [hemit]
    cases v <;> simp_all [PyValue.leaf, emit, PyValue.same]
  | dict items =>
    obtain ⟨ts, ms, hdoc⟩ := emit_dict_json hw
    rw [hdoc.document]
    cases v <;> simp_all [PyValue.leaf, emit, PyValue.same]
  | tuple xs => cases hw
  | set xs => cases hw
  | _ => cases v <;> simp_all [PyValue.leaf, emit, PyValue.same]

theorem emit_dict_eq_iff
    (h : (PyValue.dict items).json = true) (h' : (PyValue.dict items').json = true) :
    emit (.dict items) = emit (.dict items') ↔ items.length = items'.length ∧
      ∀ p ∈ items, ∃ v, lookupItem p.1 items' = some v ∧ emit p.2 = emit v := by
  obtain ⟨ts, ms, hdoc⟩ := emit_dict_json h
  obtain ⟨ts', ms', hdoc'⟩ := emit_dict_json h'
  rw [hdoc.document, hdoc'.document, Except.ok.injEq, Document.obj.injEq,
    ← emitItems_perm_iff hdoc.written hdoc'.written hdoc.nodup hdoc'.nodup,
    ← sortItems_eq_iff hdoc.nodup hdoc'.nodup hdoc.plain hdoc'.plain, hdoc.sorted, hdoc'.sorted,
    Except.ok.injEq]

omit [SetText F] in
theorem json_of_lookup (h : (PyValue.dict items).json = true)
    {k : Key} {v : PyValue F} (hv : lookupItem k items = some v) : v.json = true := by
  simp only [PyValue.json, Bool.and_eq_true, decide_eq_true_eq, jsonItems_iff] at h
  exact h.2 (k, v) ((mem_items_iff h.1.1).mpr hv)

mutual

/-- Values that JSON gives back have one document exactly when they are the same. -/
theorem emit_eq_iff : ∀ v w : PyValue F, v.json = true → w.json = true →
    (emit v = emit w ↔ v.same w)
  | .none, _, _, hw => emit_leaf_iff rfl hw
  | .bool _, _, _, hw => emit_leaf_iff rfl hw
  | .int _, _, _, hw => emit_leaf_iff rfl hw
  | .float _, _, _, hw => emit_leaf_iff rfl hw
  | .str _, _, _, hw => emit_leaf_iff rfl hw
  | .tuple _, _, hv, _ => nomatch hv
  | .set _, _, hv, _ => nomatch hv
  | .list xs, w, hv, hw => by
    obtain ⟨ts, hts, hemit⟩ := emit_list_json hv
    cases w with
    | list ys =>
      obtain ⟨us, hus, hemit'⟩ := emit_list_json hw
      rw [PyValue.same, ← emitElems_eq_iff xs ys hv hw, hemit, hemit', hts, hus, Except.ok.injEq,
        Except.ok.injEq, Document.arr.injEq]
    | dict items =>
      obtain ⟨us, ms, hdoc⟩ := emit_dict_json hw
      rw [hemit, hdoc.document]
      simp [PyValue.same]
    | tuple ys | set ys => cases hw
    | _ =>
      rw [hemit]
      simp [emit, PyValue.same]
  | .dict items, w, hv, hw => by
    cases w with
    | dict items' =>
      rw [emit_dict_eq_iff hv hw, PyValue.same, sameItems_iff]
      have hitems : jsonItems items = true := by
        simp only [PyValue.json, Bool.and_eq_true] at hv
        exact hv.2
      refine and_congr_right fun _ => forall₂_congr fun p hp => exists_congr fun v => ?_
      refine and_congr_right fun hfound => ?_
      exact emitItem_eq_iff items hitems p hp v (json_of_lookup hw hfound)
    | list ys =>
      obtain ⟨us, -, hemit⟩ := emit_list_json hw
      obtain ⟨ts, ms, hdoc⟩ := emit_dict_json hv
      rw [hemit, hdoc.document]
      simp [PyValue.same]
    | tuple ys | set ys => cases hw
    | _ =>
      obtain ⟨ts, ms, hdoc⟩ := emit_dict_json hv
      rw [hdoc.document]
      simp [emit, PyValue.same]

theorem emitElems_eq_iff : ∀ xs ys : List (PyValue F), jsonElems xs = true → jsonElems ys = true →
    (emitElems xs = emitElems ys ↔ sameElems xs ys)
  | [], [], _, _ => by simp [sameElems]
  | [], y :: ys, _, hys => by
    obtain ⟨us, hus, -⟩ := emit_list_json hys
    obtain ⟨u, -, hrest⟩ := bind_ok hus
    obtain ⟨rest, -, hrest⟩ := bind_ok hrest
    cases hrest
    rw [hus]
    simp [emitElems, sameElems]
  | x :: xs, [], hxs, _ => by
    obtain ⟨us, hus, -⟩ := emit_list_json hxs
    obtain ⟨u, -, hrest⟩ := bind_ok hus
    obtain ⟨rest, -, hrest⟩ := bind_ok hrest
    cases hrest
    rw [hus]
    simp [emitElems, sameElems]
  | x :: xs, y :: ys, hxs, hys => by
    simp only [jsonElems, Bool.and_eq_true] at hxs hys
    obtain ⟨t, ht, -⟩ := same_reread x hxs.1
    obtain ⟨u, hu, -⟩ := same_reread y hys.1
    obtain ⟨ts, hts, -⟩ := emit_list_json hxs.2
    obtain ⟨us, hus, -⟩ := emit_list_json hys.2
    rw [sameElems, ← emit_eq_iff x y hxs.1 hys.1, ← emitElems_eq_iff xs ys hxs.2 hys.2]
    simp [emitElems, ht, hu, hts, hus, bind, Except.bind, pure, Except.pure]

theorem emitItem_eq_iff : ∀ items : List (Key × PyValue F), jsonItems items = true →
    ∀ p ∈ items, ∀ w : PyValue F, w.json = true → (emit p.2 = emit w ↔ p.2.same w)
  | [], _, _, hp, _, _ => nomatch hp
  | (k, v) :: items, h, p, hp, w, hw => by
    simp only [jsonItems, Bool.and_eq_true] at h
    rcases List.mem_cons.mp hp with rfl | hp
    · exact emit_eq_iff v w h.1 hw
    · exact emitItem_eq_iff items h.2 p hp w hw

end

/-- The document of a value that JSON gives back has no split surrogates. -/
theorem join_emit (v : PyValue F) (hv : v.json = true) (t : Document F) (h : emit v = .ok t) :
    t.join = t := by
  induction v generalizing t with
  | none | bool | int | float =>
    cases h
    rfl
  | str s =>
    cases h
    exact congrArg Document.str (of_decide_eq_true hv)
  | tuple | set => cases hv
  | list xs ih =>
    obtain ⟨ts, hts, h⟩ := bind_ok h
    cases h
    rw [Document.join, joinElems_eq_map, map_eq_self.mpr]
    intro t ht
    obtain ⟨x, hx, hemit⟩ := exists_left (emitElems_ok_iff.mp hts) ht
    exact ih x hx ((jsonElems_iff xs).mp hv x hx) t hemit
  | dict items ih =>
    obtain ⟨ts, ms, hdoc⟩ := emit_dict_json hv
    obtain rfl : Document.obj ms = t := Except.ok.inj (hdoc.document.symm.trans h)
    rw [Document.join, joinMembers_eq_map, map_eq_self.mpr]
    intro m hm
    have hmem := hdoc.perm.mem_iff.mp (List.mem_map_of_mem (f := fun p => (Key.str p.1, p.2)) hm)
    obtain ⟨x, hx, hemit⟩ := exists_emitted hdoc.written hmem
    exact Prod.ext (of_decide_eq_true (hdoc.plain _ hmem))
      (ih _ hx ((json_dict_iff.mp hv).2.2 _ hx) m.2 hemit)

/-- **Main theorem.** Values that JSON gives back have one sorted text exactly when they are
the same. -/
theorem dumps_eq_iff [FloatCodec F] {v w : PyValue F} (hv : v.json = true) (hw : w.json = true)
    (st : Style) : dumps st v = dumps st w ↔ v.same w := by
  obtain ⟨t, ht, -⟩ := same_reread v hv
  obtain ⟨u, hu, -⟩ := same_reread w hw
  have htext : String.ofList (t.render st) = String.ofList (u.render st) ↔ t = u := by
    rw [String.ofList_inj, render_eq_iff, join_emit v hv t ht, join_emit w hw u hu]
  rw [← emit_eq_iff v w hv hw, ht, hu, Except.ok.injEq, ← htext, dumps, dumps, ht, hu]
  simp [bind, Except.bind, pure, Except.pure]

end Emit

/-! ### What was read -/

/-- What was read, JSON gives back. -/
theorem json_load (d : Document F) (h : d.join = d) : (load d).json = true := by
  induction d with
  | null | bool | int | float => rfl
  | str s => exact decide_eq_true (Document.str.inj h)
  | arr xs ih =>
    rw [Document.join, Document.arr.injEq, joinElems_eq_map, map_eq_self] at h
    rw [load, PyValue.json, jsonElems_iff, loadElems_eq_map]
    exact List.forall_mem_map.mpr fun x hx => ih x hx (h x hx)
  | obj ms ih =>
    rw [Document.join, Document.obj.injEq, joinMembers_eq_map, map_eq_self] at h
    have hplain : ∀ p ∈ setItems [] (loadMembers ms), p.1.plain = true ∧ p.2.json = true := by
      rw [loadMembers_eq_map]
      refine forall_setItems (fun p hp => nomatch hp) (List.forall_mem_map.mpr fun m hm => ?_)
      obtain ⟨hkey, hvalue⟩ := Prod.mk.inj (h m hm)
      exact ⟨decide_eq_true hkey, ih m hm hvalue⟩
    rw [load, json_dict_iff]
    exact ⟨nodup_setItems _ List.nodup_nil, fun p hp => (hplain p hp).1,
      fun p hp => (hplain p hp).2⟩

theorem json_of_loads [FloatCodec F] {text : String} {v : PyValue F} (h : loads text = .ok v) :
    v.json = true := by
  rw [loads] at h
  split at h
  · next t ht =>
    cases h
    exact json_load t (join_of_parse ht)
  · cases h

theorem exists_dumps [FloatCodec F] [SetText F] {v : PyValue F} (h : v.json = true)
    (st : Style) : ∃ text, dumps st v = .ok text := by
  obtain ⟨t, ht, -⟩ := same_reread v h
  exact ⟨_, by rw [dumps, ht]; rfl⟩

/-- What was written can be read. -/
theorem loads_dumps [FloatCodec F] [SetText F] {v : PyValue F} {st : Style} {text : String}
    (h : dumps st v = .ok text) : ∃ v' : PyValue F, loads text = .ok v' := by
  obtain ⟨t, -, h⟩ := bind_ok h
  cases h
  refine ⟨load t.join, ?_⟩
  rw [loads, String.toList_ofList, parse_render]

/-! ### Lists and dictionaries that are the same -/

/-- Where no key stands twice, dictionaries are the same when each item of one is found in
the other, and each key of the other in it. -/
theorem same_dict_iff {items items' : List (Key × PyValue F)}
    (hnodup : (items.map Prod.fst).Nodup) (hnodup' : (items'.map Prod.fst).Nodup) :
    (PyValue.dict items).same (.dict items') ↔
      sameItems items items' ∧ items'.map Prod.fst ⊆ items.map Prod.fst := by
  rw [PyValue.same, and_comm]
  refine and_congr_right fun hsame => ?_
  have hsubset : items.map Prod.fst ⊆ items'.map Prod.fst := by
    rintro k hk
    obtain ⟨p, hp, rfl⟩ := List.mem_map.mp hk
    obtain ⟨v, hv, -⟩ := sameItems_iff.mp hsame p hp
    exact List.mem_map.mpr ⟨(p.1, v), (mem_items_iff hnodup').mpr hv, rfl⟩
  have hsub := List.subperm_of_subset hnodup hsubset
  constructor
  · intro hlength
    exact (hsub.perm_of_length_le (by simp [hlength])).symm.subset
  · intro hback
    have hperm := hsub.antisymm (List.subperm_of_subset hnodup' hback)
    simpa using hperm.length_eq

end PiPlatform.Library.Python
