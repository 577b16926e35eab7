import Mathlib.Data.List.Perm.Subperm
import Mathlib.Data.Option.Basic
import PiPlatform.Library.Lists

/-! Dictionaries that remember insertion order.

A `Dict` is its items in the order their keys were first set, no key twice; the
field `nodup` carries that, so no operation has to check it. Setting a key that is
there changes the value where it stands, setting a new one appends. Equality that
ignores the order is `Same`: the same answer to every lookup. -/
namespace PiPlatform.Library

universe u v

variable {K : Type u} {V : Type v} [DecidableEq K]

/-! ### On lists of items -/

@[grind =] def lookupItem (k : K) : List (K × V) → Option V
  | [] => none
  | (k', v) :: rest => if k' = k then some v else lookupItem k rest

@[grind =] def setItem (k : K) (v : V) : List (K × V) → List (K × V)
  | [] => [(k, v)]
  | (k', v') :: rest => if k' = k then (k', v) :: rest else (k', v') :: setItem k v rest

/-- The items set one after another. -/
def setItems (items new : List (K × V)) : List (K × V) :=
  new.foldl (fun acc kv => setItem kv.1 kv.2 acc) items

theorem keys_setItem (k : K) (v : V) (items : List (K × V)) :
    (setItem k v items).map Prod.fst =
      if k ∈ items.map Prod.fst then items.map Prod.fst else items.map Prod.fst ++ [k] := by
  induction items with
  | nil => rfl
  | cons kv rest ih =>
    obtain ⟨k', v'⟩ := kv
    by_cases h : k' = k
    · simp [setItem, h]
    · simp only [setItem, if_neg h, List.map_cons, ih, List.mem_cons, Ne.symm h, false_or]
      split <;> rfl

section Items
variable {items : List (K × V)} {k : K} {v : V}

theorem setItem_of_not_mem (v : V)
    (h : k ∉ items.map Prod.fst) : setItem k v items = items ++ [(k, v)] := by
  induction items with
  | nil => rfl
  | cons kv rest ih =>
    simp only [List.map_cons, List.mem_cons, not_or] at h
    simp only [setItem, if_neg (Ne.symm h.1), ih h.2, List.cons_append]

theorem lookupItem_setItem (k k' : K) (v : V) (items : List (K × V)) :
    lookupItem k' (setItem k v items) = if k = k' then some v else lookupItem k' items := by
  induction items with
  | nil => rfl
  | cons kv rest ih =>
    obtain ⟨j, w⟩ := kv
    by_cases hj : j = k
    · subst hj
      simp only [setItem, if_true, lookupItem]
      split <;> rfl
    · simp only [setItem, if_neg hj, lookupItem, ih]
      by_cases hjk : j = k'
      · rw [if_pos hjk, if_pos hjk, if_neg fun h => hj (hjk.trans h.symm)]
      · rw [if_neg hjk, if_neg hjk]

theorem lookupItem_filter (k k' : K) (items : List (K × V)) :
    lookupItem k' (items.filter fun p => p.1 ≠ k) =
      if k = k' then none else lookupItem k' items := by
  induction items with
  | nil => simp [lookupItem]
  | cons kv rest ih =>
    obtain ⟨j, w⟩ := kv
    by_cases hj : j = k
    · subst hj
      rw [List.filter_cons_of_neg (by simp), ih, lookupItem]
      split <;> rfl
    · rw [List.filter_cons_of_pos (by simpa using hj), lookupItem, lookupItem, ih]
      by_cases hk : j = k'
      · rw [if_pos hk, if_pos hk, if_neg fun h => hj (hk.trans h.symm)]
      · rw [if_neg hk, if_neg hk]

theorem lookupItem_keep (p : K → Bool) (k : K) (items : List (K × V)) :
    lookupItem k (items.filter fun kv => p kv.1) =
      if p k = true then lookupItem k items else none := by
  induction items with
  | nil => simp [lookupItem]
  | cons kv rest ih =>
    obtain ⟨j, w⟩ := kv
    by_cases hj : p j = true
    · rw [List.filter_cons_of_pos (by simpa using hj), lookupItem, lookupItem, ih]
      by_cases hk : j = k
      · rw [if_pos hk, if_pos hk, ← hk, if_pos hj]
      · rw [if_neg hk, if_neg hk]
    · rw [List.filter_cons_of_neg (by simpa using hj), ih, lookupItem]
      by_cases hk : j = k
      · rw [← hk, if_neg hj, if_neg hj]
      · rw [if_neg hk]

theorem mem_items_iff (h : (items.map Prod.fst).Nodup) :
    (k, v) ∈ items ↔ lookupItem k items = some v := by
  induction items with
  | nil => simp [lookupItem]
  | cons kv rest ih =>
    obtain ⟨j, w⟩ := kv
    obtain ⟨hj, hrest⟩ := List.nodup_cons.mp h
    by_cases hk : j = k
    · subst hk
      have hnot : (j, v) ∉ rest := fun hmem => hj (List.mem_map.mpr ⟨(j, v), hmem, rfl⟩)
      simp [lookupItem, hnot, eq_comm]
    · simp [lookupItem, hk, Ne.symm hk, ih hrest]

theorem mem_of_lookupItem (h : lookupItem k items = some v) : (k, v) ∈ items := by
  induction items with
  | nil => cases h
  | cons kv rest ih =>
    obtain ⟨j, w⟩ := kv
    by_cases hk : j = k
    · rw [lookupItem, if_pos hk] at h
      rw [hk, Option.some.inj h]
      exact List.mem_cons_self ..
    · rw [lookupItem, if_neg hk] at h
      exact List.mem_cons_of_mem _ (ih h)

/-- Where no key stands twice, the order does not matter to lookups. -/
theorem lookupItem_perm {items items' : List (K × V)} (h : (items.map Prod.fst).Nodup)
    (hperm : items.Perm items') (k : K) : lookupItem k items = lookupItem k items' := by
  have h' : (items'.map Prod.fst).Nodup := (hperm.map Prod.fst).nodup_iff.mp h
  ext v
  rw [← mem_items_iff h, ← mem_items_iff h', hperm.mem_iff]

/-- There are as many, and each of the one is found in the other. -/
theorem perm_iff_lookupItem {items items' : List (K × V)} (h : (items.map Prod.fst).Nodup)
    (h' : (items'.map Prod.fst).Nodup) : items.Perm items' ↔
      items.length = items'.length ∧ ∀ p ∈ items, lookupItem p.1 items' = some p.2 := by
  constructor
  · intro hperm
    exact ⟨hperm.length_eq, fun p hp => (mem_items_iff h').mp (hperm.mem_iff.mp hp)⟩
  · rintro ⟨hlength, hfound⟩
    have hsubset : items ⊆ items' := fun p hp => (mem_items_iff h').mpr (hfound p hp)
    have hsub := List.subperm_of_subset h.of_map hsubset
    exact hsub.perm_of_length_le (Nat.le_of_eq hlength.symm)

theorem nodup_setItem (k : K) (v : V)
    (h : (items.map Prod.fst).Nodup) : ((setItem k v items).map Prod.fst).Nodup := by
  rw [keys_setItem]
  split
  · exact h
  · next hk => exact h.append (List.nodup_singleton k) (by simpa using hk)

theorem nodup_setItems (new : List (K × V))
    (h : (items.map Prod.fst).Nodup) : ((setItems items new).map Prod.fst).Nodup := by
  induction new generalizing items with
  | nil => exact h
  | cons kv new ih => exact ih (nodup_setItem kv.1 kv.2 h)

/-- Keys stand where they were first set. -/
theorem keys_setItems (new items : List (K × V)) :
    (setItems items new).map Prod.fst =
      items.map Prod.fst ++ firstsBy id (items.map Prod.fst) (new.map Prod.fst) := by
  induction new generalizing items with
  | nil => exact (List.append_nil _).symm
  | cons kv new ih =>
    have hstep := @ih (setItem kv.1 kv.2 items)
    have hkeys := keys_setItem kv.1 kv.2 items
    show (setItems (setItem kv.1 kv.2 items) new).map Prod.fst = _
    rw [hstep, List.map_cons, firstsBy]
    by_cases hk : kv.1 ∈ items.map Prod.fst
    · rw [if_pos hk] at hkeys
      rw [hkeys, if_pos (by simpa using hk)]
    · rw [if_neg hk] at hkeys
      rw [hkeys, if_neg (by simpa using hk), List.append_assoc, List.singleton_append]
      congr 2
      exact firstsBy_congr (fun j => by simp [or_comm]) _

/-- New keys, all different, go to the end as they come. -/
theorem setItems_of_nodup (new : List (K × V))
    (h : ((items ++ new).map Prod.fst).Nodup) : setItems items new = items ++ new := by
  induction new generalizing items with
  | nil => exact (List.append_nil items).symm
  | cons kv new ih =>
    have hkv : kv.1 ∉ items.map Prod.fst := by
      rw [List.map_append, List.map_cons] at h
      exact fun hm => List.disjoint_of_nodup_append h hm (List.mem_cons_self ..)
    have hstep : setItem kv.1 kv.2 items = items ++ [kv] := setItem_of_not_mem kv.2 hkv
    have happ : items ++ [kv] ++ new = items ++ kv :: new := by simp
    show setItems (setItem kv.1 kv.2 items) new = items ++ kv :: new
    rw [hstep, ih (happ ▸ h), happ]

/-- A key that is only ever set to one value has that value. -/
theorem lookupItem_setItems {new items : List (K × V)} (hmem : (k, v) ∈ new)
    (honly : ∀ p ∈ new, p.1 = k → p.2 = v) : lookupItem k (setItems items new) = some v := by
  induction new using List.reverseRecOn with
  | nil => cases hmem
  | append_singleton new p ih =>
    have hset : setItems items (new ++ [p]) = setItem p.1 p.2 (setItems items new) :=
      List.foldl_append ..
    rw [hset, lookupItem_setItem]
    by_cases hk : p.1 = k
    · rw [if_pos hk, honly p (by simp) hk]
    · rw [if_neg hk]
      refine ih ?_ fun q hq => honly q (List.mem_append_left _ hq)
      rcases List.mem_append.mp hmem with hmem | hmem
      · exact hmem
      · exact absurd (congrArg Prod.fst (List.mem_singleton.mp hmem)).symm hk

theorem lookupItem_of_not_mem (h : k ∉ items.map Prod.fst) :
    lookupItem k items = none := by
  induction items with
  | nil => rfl
  | cons kv rest ih =>
    obtain ⟨j, w⟩ := kv
    obtain ⟨hj, hrest⟩ := not_or.mp (List.mem_cons.not.mp h)
    rw [lookupItem, if_neg (Ne.symm hj), ih hrest]

/-- What is set goes before what was there. -/
theorem lookupItem_setItems_or {new : List (K × V)} (h : (new.map Prod.fst).Nodup)
    (items : List (K × V)) (k : K) :
    lookupItem k (setItems items new) = (lookupItem k new).or (lookupItem k items) := by
  induction new generalizing items with
  | nil => rfl
  | cons kv new ih =>
    obtain ⟨j, w⟩ := kv
    obtain ⟨hj, hnew⟩ := List.nodup_cons.mp h
    show lookupItem k (setItems (setItem j w items) new) = _
    rw [ih hnew, lookupItem_setItem, lookupItem]
    by_cases hk : j = k
    · subst hk
      rw [if_pos rfl, if_pos rfl, lookupItem_of_not_mem hj]
      rfl
    · rw [if_neg hk, if_neg hk]

theorem forall_setItem {P : K × V → Prop}
    (hitems : ∀ p ∈ items, P p) (hv : P (k, v)) : ∀ p ∈ setItem k v items, P p := by
  induction items with
  | nil => simpa [setItem] using hv
  | cons kv rest ih =>
    obtain ⟨k', v'⟩ := kv
    obtain ⟨hv', hrest⟩ := List.forall_mem_cons.mp hitems
    simp only [setItem]
    split
    · next hk => exact List.forall_mem_cons.mpr ⟨hk ▸ hv, hrest⟩
    · exact List.forall_mem_cons.mpr ⟨hv', ih hrest⟩

/-- What holds of every item that was there and of every one that comes holds of
every item afterwards. -/
theorem forall_setItems {P : K × V → Prop} {new items : List (K × V)}
    (hitems : ∀ p ∈ items, P p) (hnew : ∀ p ∈ new, P p) : ∀ p ∈ setItems items new, P p := by
  induction new generalizing items with
  | nil => exact hitems
  | cons kv new ih =>
    obtain ⟨hkv, hnew⟩ := List.forall_mem_cons.mp hnew
    exact ih (forall_setItem hitems hkv) hnew

section Related
variable {K' : Type u} {V' : Type v} [DecidableEq K'] {f : K → K'} {R : V → V' → Prop}
  {items' : List (K' × V')}

/-- The same key, renamed by `f`, with related values. -/
def Matches (f : K → K') (R : V → V' → Prop) (p : K × V) (q : K' × V') : Prop :=
  q.1 = f p.1 ∧ R p.2 q.2

theorem matches_setItem (hf : Function.Injective f) (h : List.Forall₂ (Matches f R) items items')
    {v' : V'} (hv : R v v') :
    List.Forall₂ (Matches f R) (setItem k v items) (setItem (f k) v' items') := by
  induction h with
  | nil => exact .cons ⟨rfl, hv⟩ .nil
  | @cons p q rest rest' hpq hrest ih =>
    obtain ⟨j, w⟩ := p
    obtain ⟨j', w'⟩ := q
    obtain ⟨rfl, hw⟩ := hpq
    by_cases hj : j = k
    · subst hj
      simp only [setItem, if_true]
      exact .cons ⟨rfl, hv⟩ hrest
    · simp only [setItem, if_neg hj, if_neg fun e => hj (hf e)]
      exact .cons ⟨rfl, hw⟩ ih

/-- Setting related items keeps the two sides related, item by item. -/
theorem matches_setItems (hf : Function.Injective f) {new : List (K × V)} {new' : List (K' × V')}
    (hnew : List.Forall₂ (Matches f R) new new') (h : List.Forall₂ (Matches f R) items items') :
    List.Forall₂ (Matches f R) (setItems items new) (setItems items' new') := by
  induction hnew generalizing items items' with
  | nil => exact h
  | @cons p q new new' hpq _ ih =>
    obtain ⟨j, w⟩ := p
    obtain ⟨j', w'⟩ := q
    obtain ⟨rfl, hw⟩ := hpq
    exact ih (matches_setItem hf h hw)

theorem lookupItem_matches (hf : Function.Injective f) (h : List.Forall₂ (Matches f R) items items')
    (k : K) :
    Option.Rel R (lookupItem k items) (lookupItem (f k) items') := by
  induction h with
  | nil => exact .none
  | @cons p q rest rest' hpq _ ih =>
    obtain ⟨j, w⟩ := p
    obtain ⟨j', w'⟩ := q
    obtain ⟨rfl, hw⟩ := hpq
    by_cases hj : j = k
    · rw [lookupItem, lookupItem, if_pos hj, if_pos (congrArg f hj)]
      exact .some hw
    · rw [lookupItem, lookupItem, if_neg hj, if_neg fun heq => hj (hf heq)]
      exact ih

end Related

/-! ### Dictionaries -/

end Items

structure Dict (K : Type u) (V : Type v) where
  items : List (K × V)
  nodup : (items.map Prod.fst).Nodup

namespace Dict
variable {d : Dict K V} {values : List V} {v : V} {k : K}

def empty : Dict K V := ⟨[], List.nodup_nil⟩

def get? (d : Dict K V) (k : K) : Option V := lookupItem k d.items

def set (d : Dict K V) (k : K) (v : V) : Dict K V :=
  ⟨setItem k v d.items, nodup_setItem k v d.nodup⟩

@[simp] theorem get?_empty (k : K) : (empty : Dict K V).get? k = none := rfl

theorem get?_set (d : Dict K V) (k k' : K) (v : V) :
    (d.set k v).get? k' = if k = k' then some v else d.get? k' := lookupItem_setItem k k' v d.items

@[simp] theorem get?_set_self (d : Dict K V) (k : K) (v : V) : (d.set k v).get? k = some v := by
  rw [get?_set, if_pos rfl]

theorem get?_set_ne {k k' : K} (h : k ≠ k') (d : Dict K V) (v : V) :
    (d.set k v).get? k' = d.get? k' := by
  rw [get?_set, if_neg h]

def contains (d : Dict K V) (k : K) : Bool := (d.get? k).isSome

/-- Without the key, if it is there. -/
def erase (d : Dict K V) (k : K) : Dict K V where
  items := d.items.filter fun p => p.1 ≠ k
  nodup := d.nodup.sublist (List.filter_sublist.map _)

theorem get?_erase (d : Dict K V) (k k' : K) :
    (d.erase k).get? k' = if k = k' then none else d.get? k' := lookupItem_filter k k' d.items

/-- The items whose keys pass the test. -/
def keep (p : K → Bool) (d : Dict K V) : Dict K V where
  items := d.items.filter fun kv => p kv.1
  nodup := d.nodup.sublist (List.filter_sublist.map _)

theorem get?_keep (p : K → Bool) (d : Dict K V) (k : K) :
    (d.keep p).get? k = if p k = true then d.get? k else none :=
  lookupItem_keep p k d.items

/-- The items that pass the test. -/
def filter (p : K → V → Bool) (d : Dict K V) : Dict K V where
  items := d.items.filter fun kv => p kv.1 kv.2
  nodup := d.nodup.sublist (List.filter_sublist.map _)

/-- `{**d, **new}` -/
def update (d new : Dict K V) : Dict K V where
  items := setItems d.items new.items
  nodup := nodup_setItems _ d.nodup

theorem get?_update (d new : Dict K V) (k : K) :
    (d.update new).get? k = (new.get? k).or (d.get? k) :=
  lookupItem_setItems_or new.nodup d.items k

/-- Every value through `f`. -/
def mapValues {W : Type*} (f : V → W) (d : Dict K V) : Dict K W where
  items := d.items.map fun p => (p.1, f p.2)
  nodup := by simpa [List.map_map, Function.comp_def] using d.nodup

/-- A dictionary comprehension: of several values for a key the last one stays. -/
def ofList (items : List (K × V)) : Dict K V :=
  ⟨setItems [] items, nodup_setItems items List.nodup_nil⟩

theorem keys_ofList (items : List (K × V)) :
    (ofList items).items.map Prod.fst = firstsBy id [] (items.map Prod.fst) :=
  keys_setItems items []

theorem mem_items (d : Dict K V) : (k, v) ∈ d.items ↔ d.get? k = some v :=
  mem_items_iff d.nodup

theorem contains_iff : d.contains k = true ↔ ∃ v, d.get? k = some v :=
  Option.isSome_iff_exists

theorem contains_iff_mem :
    d.contains k = true ↔ k ∈ d.items.map Prod.fst := by
  rw [contains_iff, List.mem_map]
  constructor
  · rintro ⟨v, hv⟩
    exact ⟨(k, v), d.mem_items.mpr hv, rfl⟩
  · rintro ⟨p, hp, rfl⟩
    exact ⟨p.2, d.mem_items.mp hp⟩

theorem contains_set {k k' : K} :
    (d.set k v).contains k' = true ↔ d.contains k' = true ∨ k = k' := by
  rw [contains, contains, get?_set]
  split_ifs with h
  · simp [h]
  · simp [h]

/-- `{k: f(k) for k in keys}` -/
theorem get?_ofList_map (keys : List K) (f : K → V) (k : K) :
    (Dict.ofList (keys.map fun key => (key, f key))).get? k =
      if k ∈ keys then some (f k) else none := by
  by_cases hk : k ∈ keys
  · rw [if_pos hk]
    refine lookupItem_setItems (List.mem_map_of_mem hk) fun p hp heq => ?_
    obtain ⟨key, -, rfl⟩ := List.mem_map.mp hp
    exact congrArg f heq
  · rw [if_neg hk, Option.eq_none_iff_forall_ne_some]
    intro v hv
    have hkeys : ∀ p ∈ (Dict.ofList (keys.map fun key => (key, f key))).items, p.1 ∈ keys := by
      refine forall_setItems nofun fun p hp => ?_
      obtain ⟨key, hkey, rfl⟩ := List.mem_map.mp hp
      exact hkey
    exact hk (hkeys _ ((mem_items _).mpr hv))

theorem get?_filter (p : K → V → Bool) (d : Dict K V) (k : K) :
    (d.filter p).get? k = (d.get? k).filter (p k) := by
  ext v
  rw [← mem_items, Option.filter_eq_some_iff, ← mem_items]
  exact List.mem_filter

/-- What holds of every item is what holds of every answer. -/
theorem forall_items (d : Dict K V) {P : K → V → Prop} :
    (∀ p ∈ d.items, P p.1 p.2) ↔ ∀ k v, d.get? k = some v → P k v := by
  constructor
  · exact fun h k v hv => h (k, v) (d.mem_items.mpr hv)
  · exact fun h p hp => h p.1 p.2 (d.mem_items.mp hp)

/-- Item by item, or key by key with a lookup. -/
theorem flatMap_items {γ : Type*} (d : Dict K V) (f : K → V → List γ) :
    d.items.flatMap (fun p => f p.1 p.2) =
      (d.items.map Prod.fst).flatMap fun k => (d.get? k).elim [] (f k) := by
  rw [List.flatMap_map]
  refine List.flatMap_congr fun p hp => ?_
  rw [d.mem_items.mp hp]
  rfl

/-- `{f(v): v for v in values}` has values under their own keys only. -/
theorem get?_ofList_keyed {f : V → K}
    (h : (Dict.ofList (values.map fun v => (f v, v))).get? k = some v) : v ∈ values ∧ f v = k := by
  have hitems : ∀ p ∈ (Dict.ofList (values.map fun v => (f v, v))).items,
      p.2 ∈ values ∧ f p.2 = p.1 := by
    refine forall_setItems nofun fun p hp => ?_
    obtain ⟨w, hw, rfl⟩ := List.mem_map.mp hp
    exact ⟨hw, rfl⟩
  exact hitems _ ((mem_items _).mpr h)

/-- It has a value for each key of one. -/
theorem exists_get?_ofList_keyed (f : V → K) (hv : v ∈ values) :
    ∃ w, (Dict.ofList (values.map fun v => (f v, v))).get? (f v) = some w := by
  have hkey : f v ∈ (Dict.ofList (values.map fun v => (f v, v))).items.map Prod.fst := by
    rw [keys_ofList, mem_firstsBy_id]
    exact ⟨by simpa using ⟨v, hv, rfl⟩, List.not_mem_nil⟩
  obtain ⟨p, hp, heq⟩ := List.mem_map.mp hkey
  exact ⟨p.2, (mem_items _).mp (heq ▸ hp)⟩

/-- What it has under its own key is there, if no other value has the key. -/
theorem get?_ofList_keyed_of_nodup {f : V → K} (h : (values.map f).Nodup)
    (hv : v ∈ values) : (Dict.ofList (values.map fun v => (f v, v))).get? (f v) = some v := by
  refine lookupItem_setItems (List.mem_map.mpr ⟨v, hv, rfl⟩) fun p hp hkey => ?_
  obtain ⟨w, hw, rfl⟩ := List.mem_map.mp hp
  exact List.inj_on_of_nodup_map h hw hv hkey

theorem contains_ofList_keyed {f : V → K} :
    (Dict.ofList (values.map fun v => (f v, v))).contains k = true ↔ k ∈ values.map f := by
  rw [contains, Option.isSome_iff_exists, List.mem_map]
  constructor
  · intro ⟨v, hv⟩
    exact ⟨v, get?_ofList_keyed hv⟩
  · intro ⟨v, hv, hkey⟩
    rw [← hkey]
    exact exists_get?_ofList_keyed f hv

/-- The same keys, with values that go together. -/
structure Agrees {W : Type*} (P : V → W → Prop) (d : Dict K V) (d' : Dict K W) : Prop where
  keys : ∀ k, d.contains k = true ↔ d'.contains k = true
  values : ∀ k v w, d.get? k = some v → d'.get? k = some w → P v w

theorem Agrees.get? {W : Type*} {P : V → W → Prop} {d' : Dict K W}
    (h : Agrees P d d') (hv : d.get? k = some v) :
    ∃ w, d'.get? k = some w ∧ P v w := by
  have hk : d.contains k = true := Option.isSome_iff_exists.mpr ⟨v, hv⟩
  obtain ⟨w, hw⟩ := Option.isSome_iff_exists.mp ((h.keys k).mp hk)
  exact ⟨w, hw, h.values k v w hv hw⟩

theorem Agrees.refl {P : V → V → Prop} (d : Dict K V)
    (hP : ∀ k v, d.get? k = some v → P v v) : Agrees P d d := by
  refine ⟨fun _ => Iff.rfl, fun k v w hv hw => ?_⟩
  cases hv.symm.trans hw
  exact hP k v hv

theorem Agrees.swap {W : Type*} {P : V → W → Prop} {d' : Dict K W}
    (h : Agrees P d d') : Agrees (fun w v => P v w) d' d :=
  ⟨fun k => (h.keys k).symm, fun k w v hw hv => h.values k v w hv hw⟩

/-- What two dictionaries have under a key of both, taken from either side. -/
theorem join_perm {W : Type*} {γ : Type*} (d : Dict K V) (d' : Dict K W) (f : K → V → W → List γ) :
    (d.items.flatMap fun p => (d'.get? p.1).elim [] (f p.1 p.2)).Perm
      (d'.items.flatMap fun p => (d.get? p.1).elim [] fun v => f p.1 v p.2) := by
  let both := fun k => (d.get? k).elim [] fun v => (d'.get? k).elim [] fun w => f k v w
  have hkey : ∀ k, both k ≠ [] →
      k ∈ d.items.map Prod.fst ∧ k ∈ d'.items.map Prod.fst := by
    intro k hk
    cases hv : d.get? k with
    | none => exact absurd (by simp [both, hv]) hk
    | some v =>
      cases hw : d'.get? k with
      | none => exact absurd (by simp [both, hv, hw]) hk
      | some w =>
        exact ⟨List.mem_map.mpr ⟨_, d.mem_items.mpr hv, rfl⟩,
          List.mem_map.mpr ⟨_, d'.mem_items.mpr hw, rfl⟩⟩
  have hfilter : ∀ ks : List K, ks.flatMap both = (ks.filter (both · ≠ [])).flatMap both := by
    intro ks
    induction ks with
    | nil => rfl
    | cons k ks ih =>
      rw [List.filter_cons]
      split_ifs with hnil
      · rw [List.flatMap_cons, List.flatMap_cons, ih]
      · rw [List.flatMap_cons, ih, not_not.mp fun h => hnil (decide_eq_true h), List.nil_append]
  have hleft : (d.items.flatMap fun p => (d'.get? p.1).elim [] (f p.1 p.2)) =
      (d.items.map Prod.fst).flatMap both :=
    d.flatMap_items fun k v => (d'.get? k).elim [] (f k v)
  have hright : (d'.items.flatMap fun p => (d.get? p.1).elim [] fun v => f p.1 v p.2) =
      (d'.items.map Prod.fst).flatMap both := by
    rw [d'.flatMap_items fun k w => (d.get? k).elim [] fun v => f k v w]
    refine List.flatMap_congr fun k _ => ?_
    show (d'.get? k).elim [] (fun w => (d.get? k).elim [] fun v => f k v w) = both k
    cases hv : d.get? k with
    | none => cases hw : d'.get? k <;> simp [both, hv]
    | some v => simp [both, hv]
  rw [hleft, hright, hfilter, hfilter (d'.items.map Prod.fst)]
  refine List.Perm.flatMap_right both ((List.perm_ext_iff_of_nodup
    (d.nodup.filter _) (d'.nodup.filter _)).mpr fun k => ?_)
  rw [List.mem_filter, List.mem_filter]
  refine and_congr_left fun hnil => ?_
  have hk := hkey k (of_decide_eq_true hnil)
  exact iff_of_true hk.1 hk.2

/-- Equal as dictionaries are, whatever the order. -/
def Same (d d' : Dict K V) : Prop := ∀ k, d.get? k = d'.get? k

theorem Same.perm {d d' : Dict K V} (h : d.Same d') : d.items.Perm d'.items := by
  refine (List.perm_ext_iff_of_nodup d.nodup.of_map d'.nodup.of_map).mpr fun p => ?_
  rw [d.mem_items, d'.mem_items, h p.1]

end Dict

end PiPlatform.Library
