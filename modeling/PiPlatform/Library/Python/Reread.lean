import PiPlatform.Library.Python.JsonModule
import PiPlatform.Library.Python.TextOrder

/-! What the members of a dictionary are after a trip through its text.

A dictionary with a string key has string keys only, or `json.dumps` refuses it. Its items
come back sorted, with every split surrogate pair joined, so a key comes back with its own
value unless another key of the dictionary joins to it (`lookup_reread`).

`PyValue.json` are the values JSON has a form for and gives back: `same_reread` says that
they come back as they were, the order of the keys aside. -/
namespace PiPlatform.Library.Python

open Json

variable {F : Type} {V : Type}

/-! ### String keys -/

theorem mapM_str_items {items : List (Key × V)} {texts : List (Text × V)}
    (h : (items.mapM fun p => p.1.str?.map (·, p.2)) = some texts) :
    items = texts.map fun p => (.str p.1, p.2) := by
  induction items generalizing texts with
  | nil =>
    cases h
    rfl
  | cons p items ih =>
    obtain ⟨k, x⟩ := p
    simp only [List.mapM_cons, Option.bind_eq_bind, Option.bind_eq_some_iff] at h
    obtain ⟨q, hq, qs, hqs, h⟩ := h
    cases h
    cases k with
    | int i => cases hq
    | str s =>
      cases hq
      rw [List.map_cons, ← ih hqs]

theorem mapM_int_items {items : List (Key × V)} {s : Text} {x : V}
    (hmem : (.str s, x) ∈ items) : (items.mapM fun p => p.1.int?.map (·, p.2)) = none := by
  induction items with
  | nil => cases hmem
  | cons p items ih =>
    rw [List.mapM_cons]
    rcases List.mem_cons.mp hmem with rfl | hmem
    · rfl
    · rw [ih hmem]
      cases p.1.int? <;> rfl

/-- A dictionary that is sorted and has a string key has no other keys. -/
theorem sortItems_of_str {items : List (Key × V)} {ms : List (Text × V)}
    (h : sortItems items = .ok ms) {s : Text} {x : V} (hmem : (.str s, x) ∈ items) :
    (ms.map fun p => (Key.str p.1, p.2)).Perm items := by
  rw [sortItems] at h
  split at h
  · next texts htexts =>
    cases h
    rw [mapM_str_items htexts]
    exact (List.perm_insertionSort _ texts).map _
  · rw [mapM_int_items hmem] at h
    cases h

section Emit
variable [SetText F]

theorem mem_emitItems {items : List (Key × PyValue F)} {ts : List (Key × Document F)}
    (h : emitItems items = .ok ts) {k : Key} {x : PyValue F} (hmem : (k, x) ∈ items) :
    ∃ t, emit x = .ok t ∧ (k, t) ∈ ts := by
  obtain ⟨⟨j, t⟩, hmem', rfl, ht⟩ := exists_right (emitItems_ok_iff.mp h) hmem
  exact ⟨t, ht, hmem'⟩

/-- What is read back of the sorted items. -/
def rereadItems (ms : List (Text × Document F)) : List (Key × PyValue F) :=
  setItems [] (loadMembers (joinMembers ms))

omit [SetText F] in
theorem mem_loadMembers {ms : List (Text × Document F)} {p : Key × PyValue F} :
    p ∈ loadMembers (joinMembers ms) ↔
      ∃ s t, (s, t) ∈ ms ∧ p = (.str (joinSurrogates s), load t.join) := by
  rw [loadMembers_eq_map, joinMembers_eq_map, List.map_map, List.mem_map]
  constructor
  · rintro ⟨m, hm, rfl⟩
    exact ⟨m.1, m.2, hm, rfl⟩
  · rintro ⟨s, t, hm, rfl⟩
    exact ⟨(s, t), hm, rfl⟩

/-- A key comes back with its value, unless another one joins to it. -/
theorem lookup_reread {items : List (Key × PyValue F)} {t : Document F}
    (hnodup : (items.map Prod.fst).Nodup) (h : emit (.dict items) = .ok t) :
    ∃ items', load t.join = .dict items' ∧
      ∀ s x, (.str s, x) ∈ items → joinSurrogates s = s →
        (∀ s' y, (.str s', y) ∈ items → joinSurrogates s' = s → s' = s) →
        ∃ tx, emit x = .ok tx ∧ lookupItem (.str s) items' = some (load tx.join) := by
  obtain ⟨ts, hts, h⟩ := bind_ok h
  obtain ⟨ms, hms, h⟩ := bind_ok h
  cases h
  refine ⟨rereadItems ms, rfl, fun s x hmem hs honly => ?_⟩
  have hkeys := keys_emitItems hts
  obtain ⟨tx, htx, hmem'⟩ := mem_emitItems hts hmem
  have hperm := sortItems_of_str hms hmem'
  have hdistinct : (ts.map Prod.fst).Nodup := hkeys ▸ hnodup
  have hin : ∀ {s' t'}, (s', t') ∈ ms → (Key.str s', t') ∈ ts := fun hm =>
    hperm.mem_iff.mp (List.mem_map_of_mem (f := fun p => (Key.str p.1, p.2)) hm)
  have hout : (s, tx) ∈ ms := by
    obtain ⟨m, hm, heq⟩ := List.mem_map.mp (hperm.mem_iff.mpr hmem')
    cases heq
    exact hm
  refine ⟨tx, htx, lookupItem_setItems (mem_loadMembers.mpr ⟨s, tx, hout, by rw [hs]⟩) ?_⟩
  rintro p hp hkey
  obtain ⟨s', t', hm, rfl⟩ := mem_loadMembers.mp hp
  have hjoin : joinSurrogates s' = s := Key.str.inj hkey
  have hkey' : Key.str s' ∈ items.map Prod.fst := by
    rw [← hkeys]
    exact List.mem_map_of_mem (f := Prod.fst) (hin hm)
  obtain ⟨⟨k, y⟩, hy, hk⟩ := List.mem_map.mp hkey'
  obtain rfl : k = .str s' := hk
  obtain rfl := honly s' y hy hjoin
  have hsame := (mem_items_iff hdistinct).mp (hin hm)
  rw [(mem_items_iff hdistinct).mp hmem'] at hsame
  show load t'.join = load tx.join
  rw [Option.some.inj hsame]

end Emit

/-! ### Values that JSON gives back -/

mutual

/-- Lists and dictionaries with string keys, and no split surrogates. -/
def PyValue.json : PyValue F → Bool
  | .str s => decide (joinSurrogates s = s)
  | .list xs => jsonElems xs
  | .tuple _ => false
  | .set _ => false
  | .dict items =>
    decide (items.map Prod.fst).Nodup && (items.all fun p => p.1.plain) && jsonItems items
  | _ => true

def jsonElems : List (PyValue F) → Bool
  | [] => true
  | x :: xs => x.json && jsonElems xs

def jsonItems : List (Key × PyValue F) → Bool
  | [] => true
  | (_, v) :: items => v.json && jsonItems items

end

theorem jsonElems_iff (xs : List (PyValue F)) :
    jsonElems xs = true ↔ ∀ x ∈ xs, x.json = true :=
  all_iff rfl (fun _ _ => rfl) xs

theorem jsonItems_iff (items : List (Key × PyValue F)) :
    jsonItems items = true ↔ ∀ p ∈ items, p.2.json = true :=
  all_iff rfl (fun _ _ => rfl) items

theorem json_dict_iff {items : List (Key × PyValue F)} : (PyValue.dict items).json = true ↔
    (items.map Prod.fst).Nodup ∧ (∀ p ∈ items, p.1.plain = true) ∧
      ∀ p ∈ items, p.2.json = true := by
  rw [PyValue.json, Bool.and_eq_true, Bool.and_eq_true, decide_eq_true_eq, List.all_eq_true,
    jsonItems_iff, and_assoc]

/-- What JSON gives back holds no set. -/
theorem wellFormed_of_json (v : PyValue F) (h : v.json = true) : v.wellFormed = true := by
  induction v with
  | none | bool | int | float | str => rfl
  | tuple | set => cases h
  | list xs ih =>
    exact (wellFormedElems_iff xs).mpr fun x hx => ih x hx ((jsonElems_iff xs).mp h x hx)
  | dict items ih =>
    obtain ⟨hnodup, -, hvalues⟩ := json_dict_iff.mp h
    rw [PyValue.wellFormed, decide_eq_true hnodup, Bool.true_and, wellFormedItems_iff]
    exact fun p hp => ih p hp (hvalues p hp)

theorem sameElems_iff {xs ys : List (PyValue F)} :
    sameElems xs ys ↔ List.Forall₂ PyValue.same xs ys := by
  induction xs generalizing ys with
  | nil => cases ys <;> simp [sameElems]
  | cons x xs ih => cases ys <;> simp [sameElems, ih]

theorem sameItems_iff {items items' : List (Key × PyValue F)} :
    sameItems items items' ↔
      ∀ p ∈ items, ∃ v, lookupItem p.1 items' = some v ∧ p.2.same v := by
  induction items with
  | nil => simp [sameItems]
  | cons p items ih =>
    rw [sameItems, ih, List.forall_mem_cons]
    refine and_congr_left' ?_
    cases lookupItem p.1 items' <;> simp

/-- Plain keys are read off as texts. -/
theorem texts_of_plain {items : List (Key × V)} (h : ∀ p ∈ items, p.1.plain = true) :
    ∃ texts, (items.mapM fun p => p.1.str?.map (·, p.2)) = some texts := by
  induction items with
  | nil => exact ⟨[], rfl⟩
  | cons p items ih =>
    obtain ⟨hp, hitems⟩ := List.forall_mem_cons.mp h
    obtain ⟨texts, htexts⟩ := ih hitems
    obtain ⟨k, x⟩ := p
    cases k with
    | int i => cases hp
    | str s =>
      refine ⟨(s, x) :: texts, ?_⟩
      rw [List.mapM_cons, htexts]
      rfl

theorem sortItems_plain {items : List (Key × V)} (h : ∀ p ∈ items, p.1.plain = true) :
    ∃ ms, sortItems items = .ok ms ∧ (ms.map fun p => (Key.str p.1, p.2)).Perm items := by
  obtain ⟨texts, htexts⟩ := texts_of_plain h
  refine ⟨texts.insertionSort fun a b => a.1 ≤ b.1, by rw [sortItems, htexts], ?_⟩
  rw [mapM_str_items htexts]
  exact (List.perm_insertionSort _ texts).map _

/-- Items with plain keys come back as many as they were. -/
theorem length_rereadItems {ms : List (Text × Document F)} (hnodup : (ms.map Prod.fst).Nodup)
    (h : ∀ m ∈ ms, joinSurrogates m.1 = m.1) : (rereadItems ms).length = ms.length := by
  have hkeys : (loadMembers (joinMembers ms)).map Prod.fst = ms.map fun m => Key.str m.1 := by
    rw [loadMembers_eq_map, joinMembers_eq_map, List.map_map, List.map_map]
    exact List.map_congr_left fun m hm => congrArg Key.str (h m hm)
  have hdistinct : ((loadMembers (joinMembers ms)).map Prod.fst).Nodup := by
    rw [hkeys]
    have hstr := hnodup.map key_str_injective
    rwa [List.map_map] at hstr
  rw [rereadItems, setItems_of_nodup _ hdistinct, List.nil_append, loadMembers_eq_map,
    joinMembers_eq_map, List.length_map, List.length_map]

section Same
variable [SetText F]

/-- The document of a dictionary with plain keys, from its written items. -/
structure DictDocument (items : List (Key × PyValue F)) (ts : List (Key × Document F))
    (ms : List (Text × Document F)) : Prop where
  written : emitItems items = .ok ts
  nodup : (ts.map Prod.fst).Nodup
  plain : ∀ p ∈ ts, p.1.plain = true
  sorted : sortItems ts = .ok ms
  perm : (ms.map fun p => (Key.str p.1, p.2)).Perm ts
  document : emit (.dict items) = .ok (.obj ms)

theorem exists_dictDocument {items : List (Key × PyValue F)} (hnodup : (items.map Prod.fst).Nodup)
    (hplain : ∀ p ∈ items, p.1.plain = true)
    (hvalues : ∀ p ∈ items, ∃ t, emit p.2 = .ok t ∧ p.2.same (load t.join)) :
    ∃ ts ms, DictDocument items ts ms := by
  obtain ⟨ts, hts, -⟩ :=
    exists_mapM_values (g := emit) (R := fun v t => v.same (load t.join)) hvalues
  rw [← emitItems_eq_mapM] at hts
  have hkeys := keys_emitItems hts
  have hplain' : ∀ p ∈ ts, p.1.plain = true := by
    have hall : ∀ k ∈ items.map Prod.fst, k.plain = true := List.forall_mem_map.mpr hplain
    rw [← hkeys] at hall
    exact List.forall_mem_map.mp hall
  obtain ⟨ms, hms, hperm⟩ := sortItems_plain hplain'
  refine ⟨ts, ms, hts, hkeys ▸ hnodup, hplain', hms, hperm, ?_⟩
  rw [emit, hts]
  show (do return Document.obj (← sortItems ts)) = _
  rw [hms]
  rfl

/-- What JSON gives back is what was written. -/
theorem same_reread (v : PyValue F) (h : v.json = true) :
    ∃ t, emit v = .ok t ∧ v.same (load t.join) := by
  induction v with
  | none => exact ⟨.null, rfl, trivial⟩
  | bool b | int i | float x => exact ⟨_, rfl, rfl⟩
  | str s => exact ⟨.str s, rfl, (of_decide_eq_true h).symm⟩
  | tuple | set => cases h
  | list xs ih =>
    rw [PyValue.json, jsonElems_iff] at h
    obtain ⟨ts, hts, hsame⟩ := exists_mapM fun x hx => ih x hx (h x hx)
    refine ⟨.arr ts, by rw [emit, emitElems_eq_mapM, hts]; rfl, ?_⟩
    rw [Document.join, load, PyValue.same, sameElems_iff, loadElems_eq_map, joinElems_eq_map,
      List.map_map]
    exact List.forall₂_map_right_iff.mpr hsame
  | dict items ih =>
    obtain ⟨hnodup, hplain, hvalues⟩ := json_dict_iff.mp h
    have hwritten := fun p hp => ih p hp (hvalues p hp)
    obtain ⟨ts, ms, hdoc⟩ := exists_dictDocument hnodup hplain hwritten
    have hjoined : ∀ m ∈ ms, joinSurrogates m.1 = m.1 := fun m hm =>
      of_decide_eq_true (hdoc.plain _ (hdoc.perm.mem_iff.mp (List.mem_map_of_mem hm)))
    have hdistinct : (ms.map Prod.fst).Nodup := by
      have hstr : ((ms.map Prod.fst).map Key.str).Nodup := by
        have hsorted := (hdoc.perm.map Prod.fst).nodup_iff.mpr hdoc.nodup
        rwa [List.map_map] at hsorted ⊢
      exact hstr.of_map _
    refine ⟨.obj ms, hdoc.document, ?_⟩
    obtain ⟨items', hload, hlookup⟩ := lookup_reread hnodup hdoc.document
    obtain rfl : rereadItems ms = items' := PyValue.dict.inj hload
    show items.length = (rereadItems ms).length ∧ sameItems items (rereadItems ms)
    refine ⟨?_, sameItems_iff.mpr ?_⟩
    · have hread : ms.length = ts.length := by simpa using hdoc.perm.length_eq
      have hkeys : ts.length = items.length := by
        simpa using congrArg List.length (keys_emitItems hdoc.written)
      rw [length_rereadItems hdistinct hjoined, hread, hkeys]
    · rintro ⟨k, x⟩ hp
      cases k with
      | int i => exact absurd (hplain _ hp) (by simp [Key.plain])
      | str s =>
        have hs : joinSurrogates s = s := of_decide_eq_true (hplain _ hp)
        obtain ⟨tx, htx, hfound⟩ := hlookup s x hp hs fun s' y hy hjoin => by
          rwa [show joinSurrogates s' = s' from of_decide_eq_true (hplain _ hy)] at hjoin
        obtain ⟨t, ht, hsame⟩ := hwritten _ hp
        cases htx.symm.trans ht
        exact ⟨_, hfound, hsame⟩

end Same

/-- A text without astral characters is what no other text joins to. -/
theorem eq_of_joinSurrogates {s t : Text} (h : joinSurrogates s = t)
    (ht : ∀ c ∈ t, c.val < 0x10000) : s = t := by
  subst h
  fun_induction joinSurrogates s with
  | case1 => rfl
  | case2 c => rfl
  | case3 h l rest hpair ih =>
    have hlow := ht (joinPair h l) (List.mem_cons_self ..)
    rw [Bool.and_eq_true] at hpair
    rw [joinPair_val hpair.1 hpair.2] at hlow
    omega
  | case4 h l rest hpair ih =>
    rw [← ih fun c hc => ht c (List.mem_cons_of_mem _ hc)]

end PiPlatform.Library.Python
