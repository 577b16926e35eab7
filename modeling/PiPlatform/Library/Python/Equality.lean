import PiPlatform.Library.Python.Plain

/-! Equality of the values Python can build.

Where no dictionary holds a key twice `==` is an equivalence, across the kinds of numbers
too, and equal values are alike true or false. -/
namespace PiPlatform.Library.Python

namespace Plain

/-- `bool(v)` -/
def truthy : Plain → Bool
  | none => false
  | bool b => b
  | int i => i ≠ 0
  | float x => x ≠ 0
  | str s => s ≠ ""
  | list xs => !xs.isEmpty
  | dict items => !items.isEmpty

mutual

/-- No dictionary holds a key twice. -/
def wellFormed : Plain → Bool
  | list xs => wellFormedElems xs
  | dict items => decide (items.map Prod.fst).Nodup && wellFormedItems items
  | _ => true

def wellFormedElems : List Plain → Bool
  | [] => true
  | x :: xs => x.wellFormed && wellFormedElems xs

def wellFormedItems : List (String × Plain) → Bool
  | [] => true
  | (_, v) :: items => v.wellFormed && wellFormedItems items

end

theorem wellFormedItems_iff (items : List (String × Plain)) :
    wellFormedItems items = true ↔ ∀ p ∈ items, p.2.wellFormed = true := by
  induction items with
  | nil => simp [wellFormedItems]
  | cons p items ih => simp [wellFormedItems, ih]

theorem eqItems_iff (items items' : List (String × Plain)) :
    eqItems items items' = true ↔
      ∀ p ∈ items, ∃ v, lookupItem p.1 items' = some v ∧ p.2.eq v = true := by
  induction items with
  | nil => simp [eqItems]
  | cons p items ih =>
    rw [eqItems, Bool.and_eq_true, ih, List.forall_mem_cons]
    refine and_congr_left fun _ => ?_
    cases lookupItem p.1 items' <;> simp

/-- The ways two values can be equal. -/
theorem eq_cases {x y : Plain} (h : x.eq y = true) :
    (x = none ∧ y = none) ∨ (∃ s, x = str s ∧ y = str s) ∨
      (∃ xs ys, x = list xs ∧ y = list ys ∧ eqElems xs ys = true) ∨
      (∃ items items', x = dict items ∧ y = dict items' ∧ items.length = items'.length ∧
        eqItems items items' = true) ∨
      ∃ a, x.number? = some a ∧ y.number? = some a := by
  cases x <;> cases y <;> simp_all [eq, number?]

theorem eq_of_number {x y : Plain} {a : Dyadic} (hx : x.number? = some a)
    (hy : y.number? = some a) : x.eq y = true := by
  cases x <;> cases y <;> simp_all [eq, number?]

/-- Equal dictionaries hold the same keys. -/
theorem mem_keys_of_eqItems {items items' : List (String × Plain)}
    (hnodup : (items.map Prod.fst).Nodup) (hlen : items.length = items'.length)
    (h : eqItems items items' = true) {p : String × Plain} (hp : p ∈ items') :
    ∃ v, (p.1, v) ∈ items := by
  have hsubset : items.map Prod.fst ⊆ items'.map Prod.fst := by
    intro k hk
    obtain ⟨q, hq, rfl⟩ := List.mem_map.mp hk
    obtain ⟨v, hv, -⟩ := (eqItems_iff items items').mp h q hq
    by_contra hnot
    rw [lookupItem_of_not_mem hnot] at hv
    cases hv
  have hperm : (items.map Prod.fst).Perm (items'.map Prod.fst) :=
    (List.subperm_of_subset hnodup hsubset).perm_of_length_le (by simp [hlen])
  obtain ⟨q, hq, hkey⟩ := List.mem_map.mp (hperm.mem_iff.mpr (List.mem_map_of_mem hp))
  exact ⟨q.2, hkey ▸ hq⟩

mutual

theorem eq_symm : ∀ x y : Plain, x.wellFormed = true → y.wellFormed = true → x.eq y = true →
    y.eq x = true := by
  intro x y hx hy h
  obtain ⟨rfl, rfl⟩ | ⟨s, rfl, rfl⟩ | ⟨xs, ys, rfl, rfl, h⟩ | ⟨items, items', rfl, rfl, hlen, h⟩ |
    ⟨a, hxa, hya⟩ := eq_cases h
  · rfl
  · simp [eq]
  · simp only [eq]
    exact eqElems_symm xs ys hx hy h
  · simp only [wellFormed, Bool.and_eq_true, decide_eq_true_eq, wellFormedItems_iff] at hx hy
    simp only [eq, Bool.and_eq_true, beq_iff_eq]
    refine ⟨hlen.symm, (eqItems_iff items' items).mpr fun p hp => ?_⟩
    obtain ⟨v, hv⟩ := mem_keys_of_eqItems hx.1 hlen h hp
    obtain ⟨w, hw, heq⟩ := (eqItems_iff items items').mp h _ hv
    obtain rfl : p.2 = w := Option.some.inj (((mem_items_iff hy.1).mp hp).symm.trans hw)
    exact ⟨v, (mem_items_iff hx.1).mp hv, eqItem_symm items hx.2 _ hv p.2 (hy.2 p hp) heq⟩
  · exact eq_of_number hya hxa

theorem eqElems_symm : ∀ xs ys : List Plain, wellFormedElems xs = true →
    wellFormedElems ys = true → eqElems xs ys = true → eqElems ys xs = true
  | [], [], _, _, _ => rfl
  | x :: xs, y :: ys, hxs, hys, h => by
    simp only [wellFormedElems, eqElems, Bool.and_eq_true] at hxs hys h ⊢
    exact ⟨eq_symm x y hxs.1 hys.1 h.1, eqElems_symm xs ys hxs.2 hys.2 h.2⟩

theorem eqItem_symm : ∀ items : List (String × Plain), (∀ p ∈ items, p.2.wellFormed = true) →
    ∀ p ∈ items, ∀ v : Plain, v.wellFormed = true → p.2.eq v = true → v.eq p.2 = true
  | [], _, _, hp, _, _, _ => nomatch hp
  | (k, w) :: items, hwf, p, hp, v, hv, h => by
    obtain ⟨hw, hitems⟩ := List.forall_mem_cons.mp hwf
    rcases List.mem_cons.mp hp with rfl | hp
    · exact eq_symm w v hw hv h
    · exact eqItem_symm items hitems p hp v hv h

end

mutual

theorem eq_refl : ∀ x : Plain, x.wellFormed = true → x.eq x = true
  | none, _ => rfl
  | bool b, _ => eq_of_number (a := .ofInt b.toInt) rfl rfl
  | int i, _ => eq_of_number (a := .ofInt i) rfl rfl
  | float x, _ => eq_of_number (a := x) rfl rfl
  | str s, _ => by simp [eq]
  | list xs, h => by
    rw [eq]
    exact eqElems_refl xs h
  | dict items, h => by
    simp only [wellFormed, Bool.and_eq_true, decide_eq_true_eq, wellFormedItems_iff] at h
    simp only [eq, Bool.and_eq_true, beq_self_eq_true, true_and]
    exact (eqItems_iff items items).mpr fun p hp =>
      ⟨p.2, (mem_items_iff h.1).mp hp, eqItem_refl items h.2 p hp⟩

theorem eqElems_refl : ∀ xs : List Plain, wellFormedElems xs = true → eqElems xs xs = true
  | [], _ => rfl
  | x :: xs, h => by
    simp only [wellFormedElems, eqElems, Bool.and_eq_true] at h ⊢
    exact ⟨eq_refl x h.1, eqElems_refl xs h.2⟩

theorem eqItem_refl : ∀ items : List (String × Plain), (∀ p ∈ items, p.2.wellFormed = true) →
    ∀ p ∈ items, p.2.eq p.2 = true
  | [], _, _, hp => nomatch hp
  | (k, w) :: items, hwf, p, hp => by
    obtain ⟨hw, hitems⟩ := List.forall_mem_cons.mp hwf
    rcases List.mem_cons.mp hp with rfl | hp
    · exact eq_refl w hw
    · exact eqItem_refl items hitems p hp

end

mutual

theorem eq_trans : ∀ x y z : Plain, x.eq y = true → y.eq z = true → x.eq z = true := by
  intro x y z hxy hyz
  obtain ⟨rfl, rfl⟩ | ⟨s, rfl, rfl⟩ | ⟨xs, ys, rfl, rfl, hxy⟩ |
    ⟨items, items', rfl, rfl, hlen, hxy⟩ | ⟨a, hxa, hya⟩ := eq_cases hxy
  · exact hyz
  · exact hyz
  · obtain ⟨hys, -⟩ | ⟨s, hys, -⟩ | ⟨ys', zs, hys, rfl, hyz⟩ | ⟨ds, -, hys, -⟩ | ⟨a, hya, -⟩ :=
      eq_cases hyz
    · cases hys
    · cases hys
    · obtain rfl : ys = ys' := list.inj hys
      simp only [eq]
      exact eqElems_trans xs ys zs hxy hyz
    · cases hys
    · cases hya
  · obtain ⟨hys, -⟩ | ⟨s, hys, -⟩ | ⟨ys, -, hys, -⟩ | ⟨ds, items'', hys, rfl, hlen', hyz⟩ |
      ⟨a, hya, -⟩ := eq_cases hyz
    · cases hys
    · cases hys
    · cases hys
    · obtain rfl : items' = ds := dict.inj hys
      simp only [eq, Bool.and_eq_true, beq_iff_eq]
      refine ⟨hlen.trans hlen', (eqItems_iff items items'').mpr fun p hp => ?_⟩
      obtain ⟨v, hv, hpv⟩ := (eqItems_iff items items').mp hxy p hp
      obtain ⟨w, hw, hvw⟩ := (eqItems_iff items' items'').mp hyz (p.1, v) (mem_of_lookupItem hv)
      exact ⟨w, hw, eqItem_trans items p hp v w hpv hvw⟩
    · cases hya
  · obtain ⟨rfl, -⟩ | ⟨s, rfl, -⟩ | ⟨ys, -, rfl, -⟩ | ⟨ds, -, rfl, -⟩ | ⟨b, hyb, hzb⟩ :=
      eq_cases hyz
    · cases hya
    · cases hya
    · cases hya
    · cases hya
    · exact eq_of_number hxa (hzb.trans (hyb.symm.trans hya))

theorem eqElems_trans : ∀ xs ys zs : List Plain, eqElems xs ys = true → eqElems ys zs = true →
    eqElems xs zs = true
  | [], [], _, _, h => h
  | x :: xs, y :: ys, [], _, h => by simp [eqElems] at h
  | x :: xs, y :: ys, z :: zs, h, h' => by
    simp only [eqElems, Bool.and_eq_true] at h h' ⊢
    exact ⟨eq_trans x y z h.1 h'.1, eqElems_trans xs ys zs h.2 h'.2⟩

theorem eqItem_trans : ∀ items : List (String × Plain), ∀ p ∈ items, ∀ v w : Plain,
    p.2.eq v = true → v.eq w = true → p.2.eq w = true
  | [], _, hp, _, _ => nomatch hp
  | (_, u) :: items, p, hp, v, w => by
    rcases List.mem_cons.mp hp with rfl | hp
    · exact eq_trans u v w
    · exact eqItem_trans items p hp v w

end

theorem truthy_of_number {x : Plain} {a : Dyadic} (h : x.number? = some a) :
    x.truthy = decide (a ≠ 0) := by
  cases x with
  | bool b =>
    obtain rfl : Dyadic.ofInt b.toInt = a := Option.some.inj h
    cases b <;> rfl
  | int i =>
    obtain rfl : Dyadic.ofInt i = a := Option.some.inj h
    have hzero : Dyadic.ofInt i = 0 ↔ i = 0 := by
      rw [← Dyadic.toRat_inj]
      exact (congrArg (· = _) (Dyadic.toRat_intCast i)).to_iff.trans Rat.intCast_eq_zero_iff
    simp [truthy, hzero]
  | float y =>
    obtain rfl : y = a := Option.some.inj h
    rfl
  | none | str s | list xs | dict items => cases h

/-- Equal values are alike true or false. -/
theorem truthy_congr {x y : Plain} (h : x.eq y = true) : x.truthy = y.truthy := by
  obtain ⟨rfl, rfl⟩ | ⟨s, rfl, rfl⟩ | ⟨xs, ys, rfl, rfl, h⟩ | ⟨items, items', rfl, rfl, hlen, -⟩ |
    ⟨a, hx, hy⟩ := eq_cases h
  · rfl
  · rfl
  · cases xs <;> cases ys <;> simp_all [eqElems, truthy]
  · cases items <;> cases items' <;> simp_all [truthy]
  · rw [truthy_of_number hx, truthy_of_number hy]

end Plain

/-- What two dictionaries have under a key: nothing, or equal values. -/
def SameEntry : Option Plain → Option Plain → Prop
  | none, none => True
  | some v, some w => v.eq w = true
  | _, _ => False

/-- Dictionaries are equal key by key. -/
theorem eq_dict_iff {items items' : List (String × Plain)} (h : (items.map Prod.fst).Nodup)
    (h' : (items'.map Prod.fst).Nodup) : (Plain.dict items).eq (.dict items') = true ↔
      ∀ key, SameEntry (lookupItem key items) (lookupItem key items') := by
  have hkey : ∀ {xs : List (String × Plain)} {key : String}, key ∉ xs.map Prod.fst →
      lookupItem key xs = none := lookupItem_of_not_mem
  simp only [Plain.eq, Bool.and_eq_true, beq_iff_eq, Plain.eqItems_iff]
  constructor
  · rintro ⟨hlength, hitems⟩ key
    cases hfound : lookupItem key items with
    | some v =>
      obtain ⟨w, hw, heq⟩ := hitems (key, v) (mem_of_lookupItem hfound)
      rw [hw]
      exact heq
    | none =>
      cases hfound' : lookupItem key items' with
      | none => trivial
      | some w =>
        obtain ⟨v, hv⟩ := Plain.mem_keys_of_eqItems h hlength
          ((Plain.eqItems_iff items items').mpr hitems) (mem_of_lookupItem hfound')
        rw [(mem_items_iff h).mp hv] at hfound
        cases hfound
  · intro hsame
    have hiff : ∀ key, key ∈ items.map Prod.fst ↔ key ∈ items'.map Prod.fst := by
      intro key
      have hentry := hsame key
      constructor
      · intro hmem
        by_contra hnot
        obtain ⟨p, hp, rfl⟩ := List.mem_map.mp hmem
        rw [(mem_items_iff h).mp hp, hkey hnot] at hentry
        exact hentry
      · intro hmem
        by_contra hnot
        obtain ⟨p, hp, rfl⟩ := List.mem_map.mp hmem
        rw [(mem_items_iff h').mp hp, hkey hnot] at hentry
        exact hentry
    have hperm : (items.map Prod.fst).Perm (items'.map Prod.fst) :=
      (List.perm_ext_iff_of_nodup h h').mpr hiff
    refine ⟨by simpa using hperm.length_eq, fun p hp => ?_⟩
    have hentry := hsame p.1
    rw [(mem_items_iff h).mp hp] at hentry
    cases hfound : lookupItem p.1 items' with
    | none =>
      rw [hfound] at hentry
      exact hentry.elim
    | some w =>
      rw [hfound] at hentry
      exact ⟨w, rfl, hentry⟩

/-- A value that can be in a set holds no dictionary. -/
theorem wellFormed_of_hashable {v : Plain} (h : v.hashable = true) : v.wellFormed = true := by
  cases v with
  | list xs => cases h
  | dict items => cases h
  | _ => rfl

end PiPlatform.Library.Python
