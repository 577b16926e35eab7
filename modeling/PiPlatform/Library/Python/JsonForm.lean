import PiPlatform.Library.Python.Canonical
import PiPlatform.Library.Python.ItemOrder

/-! The JSON form of a value: sets of strings as sorted lists, tuples as lists and integer keys as
their decimals.

`listed` is the value as it is written, where the integer keys still go by value; reading what is
written and writing it again is writing the form (`emit_jsonForm`). -/
namespace PiPlatform.Library.Python

open Json

variable {F : Type}

/-! ### Forms -/

def PyValue.str? : PyValue F → Option Text
  | .str s => some s
  | _ => Option.none

def sortTexts (texts : List Text) : List (PyValue F) := (texts.insertionSort (· ≤ ·)).map .str

/-- A set of strings as a sorted list. Other sets are left alone. -/
def listSet (xs : List (PyValue F)) : PyValue F :=
  match xs.mapM PyValue.str? with
  | some texts => .list (sortTexts texts)
  | none => .set xs

mutual

def PyValue.listed : PyValue F → PyValue F
  | .list xs => .list (listedElems xs)
  | .tuple xs => .list (listedElems xs)
  | .set xs => listSet xs
  | .dict items => .dict (listedItems items)
  | v => v

def listedElems : List (PyValue F) → List (PyValue F)
  | [] => []
  | x :: xs => x.listed :: listedElems xs

def listedItems : List (Key × PyValue F) → List (Key × PyValue F)
  | [] => []
  | (k, v) :: items => (k, v.listed) :: listedItems items

end

mutual

def PyValue.jsonForm : PyValue F → PyValue F
  | .list xs => .list (jsonFormElems xs)
  | .tuple xs => .list (jsonFormElems xs)
  | .set xs => listSet xs
  | .dict items => .dict (jsonFormItems items)
  | v => v

def jsonFormElems : List (PyValue F) → List (PyValue F)
  | [] => []
  | x :: xs => x.jsonForm :: jsonFormElems xs

def jsonFormItems : List (Key × PyValue F) → List (Key × PyValue F)
  | [] => []
  | (k, v) :: items => (.str k.text, v.jsonForm) :: jsonFormItems items

end

mutual

/-- Sets hold strings, and the keys of a dictionary are all strings or all integers, none twice. -/
def PyValue.packable : PyValue F → Bool
  | .list xs => packableElems xs
  | .tuple xs => packableElems xs
  | .set xs => (xs.mapM PyValue.str?).isSome
  | .dict items =>
    decide (items.map Prod.fst).Nodup && keysSortable items && packableItems items
  | _ => true

def packableElems : List (PyValue F) → Bool
  | [] => true
  | x :: xs => x.packable && packableElems xs

def packableItems : List (Key × PyValue F) → Bool
  | [] => true
  | (_, v) :: items => v.packable && packableItems items

end

theorem listedElems_eq_map (xs : List (PyValue F)) : listedElems xs = xs.map PyValue.listed :=
  eq_map rfl (fun _ _ => rfl) xs

theorem listedItems_eq_map (items : List (Key × PyValue F)) :
    listedItems items = items.map fun p => (p.1, p.2.listed) :=
  eq_map rfl (fun _ _ => rfl) items

theorem jsonFormElems_eq_map (xs : List (PyValue F)) :
    jsonFormElems xs = xs.map PyValue.jsonForm :=
  eq_map rfl (fun _ _ => rfl) xs

theorem jsonFormItems_eq_map (items : List (Key × PyValue F)) :
    jsonFormItems items = items.map fun p => (.str p.1.text, p.2.jsonForm) :=
  eq_map rfl (fun _ _ => rfl) items

theorem packableElems_iff (xs : List (PyValue F)) :
    packableElems xs = true ↔ ∀ x ∈ xs, x.packable = true :=
  all_iff rfl (fun _ _ => rfl) xs

theorem packableItems_iff (items : List (Key × PyValue F)) :
    packableItems items = true ↔ ∀ p ∈ items, p.2.packable = true :=
  all_iff rfl (fun _ _ => rfl) items

theorem keys_listedItems (items : List (Key × PyValue F)) :
    (listedItems items).map Prod.fst = items.map Prod.fst := by
  rw [listedItems_eq_map, List.map_map]
  rfl

theorem keys_jsonFormItems (items : List (Key × PyValue F)) :
    (jsonFormItems items).map Prod.fst = (items.map fun p => p.1.text).map Key.str := by
  rw [jsonFormItems_eq_map, List.map_map, List.map_map]
  rfl

theorem wellFormed_sortTexts (texts : List Text) :
    wellFormedElems (sortTexts texts : List (PyValue F)) = true :=
  (wellFormedElems_iff _).mpr (List.forall_mem_map.mpr fun _ _ => rfl)

theorem textOrdered_sortTexts (texts : List Text) :
    textOrderedElems (sortTexts texts : List (PyValue F)) = true :=
  (textOrderedElems_iff _).mpr (List.forall_mem_map.mpr fun _ _ => rfl)

/-- The form of a value orders the keys of its dictionaries no other way. -/
theorem textOrdered_listed (v : PyValue F) : v.listed.textOrdered = v.textOrdered := by
  induction v with
  | none | bool | int | float | str => rfl
  | list xs ih | tuple xs ih =>
    rw [PyValue.listed, PyValue.textOrdered, PyValue.textOrdered, Bool.eq_iff_iff,
      textOrderedElems_iff, textOrderedElems_iff, listedElems_eq_map, List.forall_mem_map]
    exact forall₂_congr fun x hx => by rw [ih x hx]
  | set xs =>
    rw [PyValue.listed, listSet]
    split
    · next texts _ => exact textOrdered_sortTexts texts
    · rfl
  | dict items ih =>
    have hitems : textOrderedItems (listedItems items) = textOrderedItems items := by
      rw [Bool.eq_iff_iff, textOrderedItems_iff, textOrderedItems_iff, listedItems_eq_map,
        List.forall_mem_map]
      exact forall₂_congr fun p hp => by rw [ih p hp]
    rw [PyValue.listed, PyValue.textOrdered, keys_listedItems, hitems, PyValue.textOrdered]

/-! ### Keys -/

section Keys
variable {V : Type} {items : List (Key × V)}

theorem intKey_injective : Function.Injective intKey := fun _ _ h =>
  intText_injective (String.ofList_inj.mp (ofString_injective h))

theorem mapM_int_eq {items : List (Key × V)} {ints : List (Int × V)}
    (h : (items.mapM fun p => p.1.int?.map (·, p.2)) = some ints) :
    items = ints.map fun p => (.int p.1, p.2) := by
  induction items generalizing ints with
  | nil =>
    cases h
    rfl
  | cons p items ih =>
    obtain ⟨k, x⟩ := p
    simp only [List.mapM_cons, Option.bind_eq_bind, Option.bind_eq_some_iff] at h
    obtain ⟨q, hq, qs, hqs, h⟩ := h
    cases h
    cases k with
    | str s => cases hq
    | int i =>
      cases hq
      rw [List.map_cons, ← ih hqs]

/-- The items of a dictionary that can be sorted are strings, or integers. -/
theorem exists_items (h : keysSortable items = true) :
    (∃ texts : List (Text × V), items = texts.map fun p => (.str p.1, p.2)) ∨
      ∃ ints : List (Int × V), items = ints.map fun p => (.int p.1, p.2) := by
  rw [keysSortable, ← mapM_keys_isSome, ← mapM_keys_isSome, Bool.or_eq_true] at h
  rcases h with h | h
  · obtain ⟨texts, htexts⟩ := Option.isSome_iff_exists.mp h
    exact .inl ⟨texts, mapM_str_items htexts⟩
  · obtain ⟨ints, hints⟩ := Option.isSome_iff_exists.mp h
    exact .inr ⟨ints, mapM_int_eq hints⟩

theorem nodup_text (h : keysSortable items = true) (hnodup : (items.map Prod.fst).Nodup) :
    (items.map fun p => p.1.text).Nodup := by
  rcases exists_items h with ⟨texts, rfl⟩ | ⟨ints, rfl⟩
  · rw [List.map_map] at hnodup ⊢
    refine List.Nodup.of_map Key.str ?_
    rw [List.map_map]
    exact hnodup
  · rw [List.map_map] at hnodup ⊢
    have hints : (ints.map Prod.fst).Nodup := by
      refine List.Nodup.of_map Key.int ?_
      rw [List.map_map]
      exact hnodup
    have htexts := hints.map intKey_injective
    rw [List.map_map] at htexts
    exact htexts

/-- Sorted items are the items, with the texts of their keys. -/
theorem perm_text_sortItems {ms : List (Text × V)} (h : sortItems items = .ok ms) :
    ms.Perm (items.map fun p => (p.1.text, p.2)) := by
  rw [sortItems] at h
  split at h
  · next texts htexts =>
    cases h
    rw [mapM_str_items htexts, List.map_map]
    exact (List.perm_insertionSort _ texts).trans (List.Perm.of_eq (List.map_id texts).symm)
  · split at h
    · next ints hints =>
      cases h
      rw [mapM_int_eq hints, List.map_map]
      exact (List.perm_insertionSort _ ints).map _
    · cases h

/-- Permuted lists with distinct keys are sorted into one. -/
theorem insertionSort_eq_of_perm {ms ms' : List (Text × V)} (h : ms.Perm ms')
    (hnodup : (ms.map Prod.fst).Nodup) :
    (ms.insertionSort fun a b => a.1 ≤ b.1) = ms'.insertionSort fun a b => a.1 ≤ b.1 := by
  have hboth := (List.perm_insertionSort (fun a b : Text × V => a.1 ≤ b.1) ms).trans
    (h.trans (List.perm_insertionSort (fun a b : Text × V => a.1 ≤ b.1) ms').symm)
  have hlt := List.pairwise_map.mp (pairwise_keys_insertionSort hnodup)
  have hlt' := List.pairwise_map.mp
    (pairwise_keys_insertionSort ((h.map Prod.fst).nodup_iff.mp hnodup))
  exact hboth.eq_of_pairwise (fun a b _ _ hab hba => absurd hab (lt_asymm hba)) hlt hlt'

end Keys

theorem wellFormed_jsonForm (v : PyValue F) (h : v.packable = true) :
    v.jsonForm.wellFormed = true := by
  induction v with
  | none | bool | int | float | str => rfl
  | list xs ih | tuple xs ih =>
    rw [PyValue.jsonForm, PyValue.wellFormed, wellFormedElems_iff, jsonFormElems_eq_map]
    exact List.forall_mem_map.mpr fun x hx => ih x hx ((packableElems_iff xs).mp h x hx)
  | set xs =>
    obtain ⟨texts, htexts⟩ := Option.isSome_iff_exists.mp h
    rw [PyValue.jsonForm, listSet, htexts]
    exact wellFormed_sortTexts texts
  | dict items ih =>
    rw [PyValue.packable, Bool.and_eq_true, Bool.and_eq_true, decide_eq_true_eq,
      packableItems_iff] at h
    rw [PyValue.jsonForm, PyValue.wellFormed, Bool.and_eq_true, decide_eq_true_eq,
      keys_jsonFormItems, wellFormedItems_iff, jsonFormItems_eq_map]
    exact ⟨(nodup_text h.1.2 h.1.1).map key_str_injective,
      List.forall_mem_map.mpr fun p hp => ih p hp (h.2 p hp)⟩

/-! ### Values that are their own form -/

theorem keysSortable_of_plain {V : Type} {items : List (Key × V)}
    (h : ∀ p ∈ items, p.1.plain = true) : keysSortable items = true := by
  rw [keysSortable, Bool.or_eq_true, List.all_eq_true]
  refine .inl fun p hp => ?_
  obtain ⟨k, v⟩ := p
  cases k with
  | str s => rfl
  | int i => cases h _ hp

theorem packable_of_json (v : PyValue F) (h : v.json = true) : v.packable = true := by
  induction v with
  | none | bool | int | float | str => rfl
  | tuple | set => cases h
  | list xs ih =>
    exact (packableElems_iff xs).mpr fun x hx => ih x hx ((jsonElems_iff xs).mp h x hx)
  | dict items ih =>
    obtain ⟨hnodup, hplain, hvalues⟩ := json_dict_iff.mp h
    rw [PyValue.packable, decide_eq_true hnodup, keysSortable_of_plain hplain, Bool.true_and,
      Bool.true_and, packableItems_iff]
    exact fun p hp => ih p hp (hvalues p hp)

theorem listed_of_json (v : PyValue F) (h : v.json = true) : v.listed = v := by
  induction v with
  | none | bool | int | float | str => rfl
  | tuple | set => cases h
  | list xs ih =>
    rw [PyValue.listed, listedElems_eq_map,
      map_eq_self.mpr fun x hx => ih x hx ((jsonElems_iff xs).mp h x hx)]
  | dict items ih =>
    rw [PyValue.listed, listedItems_eq_map, map_eq_self.mpr]
    exact fun p hp => Prod.ext rfl (ih p hp ((json_dict_iff.mp h).2.2 p hp))

theorem jsonForm_of_json (v : PyValue F) (h : v.json = true) : v.jsonForm = v := by
  induction v with
  | none | bool | int | float | str => rfl
  | tuple | set => cases h
  | list xs ih =>
    rw [PyValue.jsonForm, jsonFormElems_eq_map,
      map_eq_self.mpr fun x hx => ih x hx ((jsonElems_iff xs).mp h x hx)]
  | dict items ih =>
    obtain ⟨-, hplain, hvalues⟩ := json_dict_iff.mp h
    rw [PyValue.jsonForm, jsonFormItems_eq_map, map_eq_self.mpr]
    rintro ⟨k, v⟩ hp
    cases k with
    | str s => exact Prod.ext rfl (ih _ hp (hvalues _ hp))
    | int i => cases hplain _ hp

/-! ### Writing the form -/

theorem stringKeyed_of_json (v : PyValue F) (h : v.json = true) : v.stringKeyed = true := by
  induction v with
  | none | bool | int | float | str => rfl
  | tuple | set => cases h
  | list xs ih =>
    exact (stringKeyedElems_iff xs).mpr fun x hx => ih x hx ((jsonElems_iff xs).mp h x hx)
  | dict items ih =>
    obtain ⟨-, hplain, hvalues⟩ := json_dict_iff.mp h
    rw [PyValue.stringKeyed, Bool.and_eq_true, List.all_eq_true, stringKeyedItems_iff]
    exact ⟨hplain, fun p hp => ih p hp (hvalues p hp)⟩

section Emit
variable [SetText F]

theorem exists_emit_listed (v : PyValue F) (h : v.packable = true) :
    ∃ d, emit v.listed = .ok d := by
  induction v with
  | none | bool | int | float | str => exact ⟨_, rfl⟩
  | list xs ih | tuple xs ih =>
    obtain ⟨ts, hts⟩ : ∃ ts, emitElems (listedElems xs) = .ok ts := by
      rw [listedElems_eq_map]
      exact exists_emitElems
        (List.forall_mem_map.mpr fun x hx => ih x hx ((packableElems_iff xs).mp h x hx))
    exact ⟨.arr ts, by rw [PyValue.listed, emit, hts]; rfl⟩
  | set xs =>
    obtain ⟨texts, htexts⟩ := Option.isSome_iff_exists.mp h
    obtain ⟨ts, hts⟩ : ∃ ts, emitElems (sortTexts (F := F) texts) = .ok ts :=
      exists_emitElems (List.forall_mem_map.mpr fun _ _ => ⟨_, rfl⟩)
    refine ⟨.arr ts, ?_⟩
    rw [PyValue.listed, listSet, htexts]
    show emit (.list (sortTexts texts)) = _
    rw [emit, hts]
    rfl
  | dict items ih =>
    rw [PyValue.packable, Bool.and_eq_true, Bool.and_eq_true, packableItems_iff] at h
    obtain ⟨ts, hts⟩ : ∃ ts, emitItems (listedItems items) = .ok ts := by
      rw [listedItems_eq_map]
      exact exists_emitItems (List.forall_mem_map.mpr fun p hp => ih p hp (h.2 p hp))
    have hkeys := (keys_emitItems hts).trans (keys_listedItems items)
    obtain ⟨ms, hms⟩ := (sortItems_ok_iff ts).mpr ((keysSortable_congr hkeys).trans h.1.2)
    refine ⟨.obj ms, ?_⟩
    rw [PyValue.listed, emit, hts]
    show (do return Document.obj (← sortItems ts)) = _
    rw [hms]
    rfl

/-- What is written of a value that JSON gives back is in normal form. -/
theorem normal_emit {v : PyValue F} (hv : v.json = true) {d : Document F} (h : emit v = .ok d) :
    normal d = d := by
  rw [normal_eq_iff, ← join_emit v hv d h, ascending_emit v d h]
  exact textOrdered_of_stringKeyed v (wellFormed_of_json v hv) (stringKeyed_of_json v hv)

/-- The form is written as what is written of the value, read and written again. -/
theorem emit_jsonForm (v : PyValue F) {d : Document F} (h : emit v.listed = .ok d)
    (hv : v.jsonForm.json = true) : emit v.jsonForm = .ok (normal d) ∧ d.join = d := by
  induction v generalizing d with
  | none | bool | int | float =>
    cases h
    exact ⟨rfl, rfl⟩
  | str s =>
    cases h
    exact ⟨rfl, congrArg Document.str (of_decide_eq_true hv)⟩
  | set xs => exact ⟨h.trans (congrArg Except.ok (normal_emit hv h).symm), join_emit _ hv d h⟩
  | list xs ih | tuple xs ih =>
    obtain ⟨ts, hts, h⟩ := bind_ok h
    cases h
    rw [PyValue.jsonForm, PyValue.json, jsonElems_iff, jsonFormElems_eq_map,
      List.forall_mem_map] at hv
    rw [listedElems_eq_map, emitElems_ok_iff, List.forall₂_map_left_iff] at hts
    have hall := forall₂_imp_of_mem hts fun x hx t ht => ih x hx ht (hv x hx)
    have hform : emitElems (jsonFormElems xs) = .ok (normalElems ts) := by
      rw [jsonFormElems_eq_map, normalElems_eq_map, emitElems_ok_iff, List.forall₂_map_left_iff,
        List.forall₂_map_right_iff]
      exact hall.imp fun _ _ ht => ht.1
    refine ⟨by rw [PyValue.jsonForm, emit, hform]; rfl, ?_⟩
    rw [Document.join, joinElems_eq_map, map_eq_self.mpr]
    intro t ht
    obtain ⟨-, -, -, hjoin⟩ := exists_left hall ht
    exact hjoin
  | dict items ih =>
    obtain ⟨ts, hts, h⟩ := bind_ok h
    obtain ⟨ms, hms, h⟩ := bind_ok h
    cases h
    obtain ⟨hnodup, hplain, hvalues⟩ := json_dict_iff.mp hv
    rw [jsonFormItems_eq_map, List.forall_mem_map] at hvalues
    rw [listedItems_eq_map, emitItems_ok_iff, List.forall₂_map_left_iff] at hts
    have hall := forall₂_imp_of_mem (S := fun p q => p.1 = q.1 ∧
      emit p.2.jsonForm = .ok (normal q.2) ∧ q.2.join = q.2) hts
      fun p hp q hpq => ⟨hpq.1, ih p hp hpq.2 (hvalues p hp)⟩
    have hform : emitItems (jsonFormItems items) =
        .ok (ts.map fun p => (.str p.1.text, normal p.2)) := by
      rw [jsonFormItems_eq_map, emitItems_ok_iff, List.forall₂_map_left_iff,
        List.forall₂_map_right_iff]
      exact hall.imp fun p q hpq => ⟨congrArg (Key.str ·.text) hpq.1, hpq.2.1⟩
    have hkeys := keys_emitItems hform
    have hmem : ∀ m ∈ ms, joinSurrogates m.1 = m.1 ∧ m.2.join = m.2 := by
      intro m hm
      obtain ⟨q, hq, rfl⟩ := List.mem_map.mp ((perm_text_sortItems hms).mem_iff.mp hm)
      obtain ⟨p, hp, hkey, -, hjoin⟩ := exists_left hall hq
      have htext := hplain (.str p.1.text, p.2.jsonForm) (by
        rw [jsonFormItems_eq_map]
        exact List.mem_map_of_mem hp)
      rw [hkey] at htext
      exact ⟨of_decide_eq_true htext, hjoin⟩
    have hdistinct : ((normalMembers ms).map Prod.fst).Nodup := by
      rw [← hkeys, List.map_map] at hnodup
      have htexts := List.Nodup.of_map Key.str (l := ts.map fun p => p.1.text) (by
        rw [List.map_map]
        exact hnodup)
      rw [normalMembers_eq_map, List.map_map]
      have hfst := (perm_text_sortItems hms).map Prod.fst
      rw [List.map_map] at hfst
      exact hfst.nodup_iff.mpr htexts
    constructor
    · have hnormal : (normalMembers ms).Perm (ts.map fun p => (p.1.text, normal p.2)) := by
        have h := (perm_text_sortItems hms).map fun m => (m.1, normal m.2)
        rw [List.map_map] at h
        rw [normalMembers_eq_map]
        exact h
      have hsort : sortItems (ts.map fun p => (Key.str p.1.text, normal p.2)) =
          .ok ((ts.map fun p => (p.1.text, normal p.2)).insertionSort fun a b => a.1 ≤ b.1) := by
        refine sortItems_str ?_
        rw [List.forall₂_map_left_iff, List.forall₂_map_right_iff]
        exact List.forall₂_same.mpr fun p _ => ⟨rfl, rfl⟩
      have hset : setItems [] (normalMembers ms) = normalMembers ms := setItems_of_nodup _ hdistinct
      rw [PyValue.jsonForm, emit, hform]
      show (do return Document.obj (← sortItems
        (ts.map fun p : Key × Document F => (Key.str p.1.text, normal p.2)))) = _
      rw [hsort, normal, hset, insertionSort_eq_of_perm hnormal hdistinct]
      rfl
    · rw [Document.join, joinMembers_eq_map]
      refine congrArg Document.obj ((List.map_congr_left fun m hm => ?_).trans ms.map_id)
      exact Prod.ext (hmem m hm).1 (hmem m hm).2

end Emit

/-! ### What is the same -/

/-- What is the same as a value that JSON gives back is one, if no key stands twice in it. -/
theorem json_of_same (v : PyValue F) (hv : v.wellFormed = true) {w : PyValue F}
    (hw : w.json = true) (h : w.same v) : v.json = true := by
  induction v generalizing w with
  | none | bool | int | float => rfl
  | str s =>
    cases w with
    | str t => exact (show t = s from h) ▸ hw
    | _ => cases h
  | set => cases w <;> cases h
  | tuple =>
    cases w with
    | tuple => cases hw
    | _ => cases h
  | list xs ih =>
    cases w with
    | list ys =>
      refine (jsonElems_iff xs).mpr fun x hx => ?_
      obtain ⟨y, hy, hsame⟩ := exists_left (sameElems_iff.mp h) hx
      exact ih x hx ((wellFormedElems_iff xs).mp hv x hx) ((jsonElems_iff ys).mp hw y hy) hsame
    | _ => cases h
  | dict items ih =>
    cases w with
    | dict items' =>
      obtain ⟨hnodup, hplain, hvalues⟩ := json_dict_iff.mp hw
      rw [PyValue.wellFormed, Bool.and_eq_true, decide_eq_true_eq, wellFormedItems_iff] at hv
      obtain ⟨hsame, hback⟩ := (same_dict_iff hnodup hv.1).mp h
      have hfound : ∀ q ∈ items, ∃ p ∈ items', p.1 = q.1 ∧ p.2.same q.2 := by
        intro q hq
        obtain ⟨p, hp, hkey⟩ := List.mem_map.mp (hback (List.mem_map_of_mem (f := Prod.fst) hq))
        obtain ⟨x, hx, hxsame⟩ := sameItems_iff.mp hsame p hp
        have hvalue : lookupItem q.1 items = some q.2 := (mem_items_iff hv.1).mp hq
        rw [hkey, hvalue] at hx
        exact ⟨p, hp, hkey, Option.some.inj hx ▸ hxsame⟩
      refine json_dict_iff.mpr ⟨hv.1, fun q hq => ?_, fun q hq => ?_⟩
      · obtain ⟨p, hp, hkey, -⟩ := hfound q hq
        exact hkey ▸ hplain p hp
      · obtain ⟨p, hp, -, hpq⟩ := hfound q hq
        exact ih q hq (hv.2 q hq) (hvalues p hp) hpq
    | _ => cases h

end PiPlatform.Library.Python
