import PiPlatform.Library.Python.Value

/-! Values whose keys keep their order as texts.

Keys are sorted as what they are and read back as what they are written as. A value
is `textOrdered` when the two orders agree in every dictionary it holds: the keys,
sorted, are strictly ascending as the strings the reader will see. Strings without
split surrogates always are; integers are when the order of their values is the
order of their digits. `ascending_emit` says this is what makes the written
document ascend, which by `normal_eq_iff` is what makes it survive a round trip. -/
namespace PiPlatform.Library.Python

open Json

def sortKeys (ks : List Key) : Except PyError (List Text) :=
  match ks.mapM Key.str? with
  | some texts => .ok (texts.insertionSort (· ≤ ·))
  | none =>
    match ks.mapM Key.int? with
    | some ints => .ok ((ints.insertionSort (· ≤ ·)).map intKey)
    | none => .error .typeError

/-- The keys as read back ascend in the order they were written. -/
def keysAscend (ks : List Key) : Bool :=
  match sortKeys ks with
  | .ok texts => decide ((texts.map joinSurrogates).Pairwise (· < ·))
  | .error _ => false

variable {F : Type}

mutual

/-- Sets hold no dictionaries, so nothing is asked of them. -/
def PyValue.textOrdered : PyValue F → Bool
  | .list xs => textOrderedElems xs
  | .tuple xs => textOrderedElems xs
  | .dict items => keysAscend (items.map Prod.fst) && textOrderedItems items
  | _ => true

def textOrderedElems : List (PyValue F) → Bool
  | [] => true
  | x :: xs => x.textOrdered && textOrderedElems xs

def textOrderedItems : List (Key × PyValue F) → Bool
  | [] => true
  | (_, v) :: items => v.textOrdered && textOrderedItems items

end

theorem textOrderedElems_iff (xs : List (PyValue F)) :
    textOrderedElems xs = true ↔ ∀ x ∈ xs, x.textOrdered = true :=
  all_iff rfl (fun _ _ => rfl) xs

theorem textOrderedItems_iff (items : List (Key × PyValue F)) :
    textOrderedItems items = true ↔ ∀ p ∈ items, p.2.textOrdered = true :=
  all_iff rfl (fun _ _ => rfl) items

/-! ### Sorting items sorts their keys -/

theorem mapM_fst {K T V : Type} (f : K → Option T) (items : List (K × V)) :
    (items.map Prod.fst).mapM f =
      (items.mapM fun p => (f p.1).map (·, p.2)).map fun ts => ts.map Prod.fst := by
  induction items with
  | nil => rfl
  | cons p items ih =>
    simp only [List.map_cons, List.mapM_cons, ih]
    cases f p.1 with
    | none => rfl
    | some t =>
      cases items.mapM fun p => (f p.1).map (·, p.2) with
      | none => rfl
      | some ts => rfl

theorem map_fst_insertionSort {T V : Type} [LinearOrder T] (items : List (T × V)) :
    (items.insertionSort fun a b => a.1 ≤ b.1).map Prod.fst =
      (items.map Prod.fst).insertionSort (· ≤ ·) :=
  List.map_insertionSort _ _ _ _ fun _ _ _ _ => Iff.rfl

theorem sortKeys_eq {V : Type} (items : List (Key × V)) :
    sortKeys (items.map Prod.fst) = (sortItems items).map fun ms => ms.map Prod.fst := by
  rw [sortKeys, sortItems, mapM_fst, mapM_fst]
  cases items.mapM fun p => p.1.str?.map (·, p.2) with
  | some texts => simp only [Option.map_some, Except.map, map_fst_insertionSort]
  | none =>
    cases items.mapM fun p => p.1.int?.map (·, p.2) with
    | some ints =>
      simp only [Option.map_none, Option.map_some, Except.map, List.map_map]
      rw [← map_fst_insertionSort, List.map_map]
      rfl
    | none => rfl

theorem mapM_values {K T V : Type} {f : K → Option T} {items : List (K × V)} {ts : List (T × V)}
    (h : (items.mapM fun p => (f p.1).map (·, p.2)) = some ts) :
    ts.map Prod.snd = items.map Prod.snd := by
  induction items generalizing ts with
  | nil =>
    cases h
    rfl
  | cons p items ih =>
    simp only [List.mapM_cons, Option.bind_eq_bind, Option.bind_eq_some_iff] at h
    obtain ⟨q, hq, qs, hqs, h⟩ := h
    cases h
    obtain ⟨t, -, rfl⟩ := Option.map_eq_some_iff.mp hq
    rw [List.map_cons, List.map_cons, ih hqs]

theorem perm_values_sortItems {V : Type} {items : List (Key × V)} {ms : List (Text × V)}
    (h : sortItems items = .ok ms) : (ms.map Prod.snd).Perm (items.map Prod.snd) := by
  rw [sortItems] at h
  split at h
  · next texts htexts =>
    cases h
    rw [← mapM_values htexts]
    exact (List.perm_insertionSort _ _).map _
  · split at h
    · next ints hints =>
      cases h
      rw [← mapM_values hints, List.map_map]
      exact (List.perm_insertionSort _ _).map _
    · cases h

/-! ### A written document ascends when its value is text-ordered -/

section Emit
variable [SetText F]

theorem keys_emitItems {items : List (Key × PyValue F)} {ts : List (Key × Document F)}
    (h : emitItems items = .ok ts) : ts.map Prod.fst = items.map Prod.fst :=
  (map_eq_of_forall₂ (emitItems_ok_iff.mp h) fun _ _ hpq => hpq.1).symm

theorem ascending_emit (v : PyValue F) (t : Document F) (h : emit v = .ok t) :
    ascending t.join = v.textOrdered := by
  induction v generalizing t with
  | none | bool | int | float | str | set =>
    cases h
    rfl
  | list xs ih | tuple xs ih =>
    obtain ⟨ts, hts, h⟩ := bind_ok h
    cases h
    rw [Document.join, ascending, PyValue.textOrdered, Bool.eq_iff_iff, ascendingElems_iff,
      textOrderedElems_iff, joinElems_eq_map, List.forall_mem_map]
    exact forall_iff_of_forall₂ (emitElems_ok_iff.mp hts) ih
  | dict items ih =>
    obtain ⟨ts, hts, h⟩ := bind_ok h
    obtain ⟨ms, hms, h⟩ := bind_ok h
    cases h
    have hsort : keysAscend (items.map Prod.fst) =
        decide ((ms.map fun m => joinSurrogates m.1).Pairwise (· < ·)) := by
      rw [keysAscend, ← keys_emitItems hts, sortKeys_eq, hms]
      simp only [Except.map, List.map_map]
      rfl
    have hmembers : ascendingMembers (joinMembers ms) = textOrderedItems items := by
      rw [Bool.eq_iff_iff, ascendingMembers_iff, joinMembers_eq_map, List.forall_mem_map,
        textOrderedItems_iff]
      have hperm : (∀ d ∈ ms.map Prod.snd, ascending d.join = true) ↔
          ∀ d ∈ ts.map Prod.snd, ascending d.join = true :=
        forall_congr' fun d => imp_congr_left (perm_values_sortItems hms).mem_iff
      rw [List.forall_mem_map, List.forall_mem_map] at hperm
      exact hperm.trans (forall_iff_of_forall₂ (emitItems_ok_iff.mp hts)
        fun p hp q hpq => ih p hp q.2 hpq.2)
    have hfst : (joinMembers ms).map Prod.fst = ms.map fun m => joinSurrogates m.1 := by
      rw [joinMembers_eq_map, List.map_map]
      rfl
    rw [Document.join, ascending, hfst, hmembers, PyValue.textOrdered, hsort]

end Emit

/-! ### String keys -/

/-- A string key that reads back as it is. -/
def Key.plain : Key → Bool
  | .str s => decide (joinSurrogates s = s)
  | .int _ => false

mutual

/-- Every dictionary's keys are strings without split surrogates. -/
def PyValue.stringKeyed : PyValue F → Bool
  | .list xs => stringKeyedElems xs
  | .tuple xs => stringKeyedElems xs
  | .dict items => (items.all fun p => p.1.plain) && stringKeyedItems items
  | _ => true

def stringKeyedElems : List (PyValue F) → Bool
  | [] => true
  | x :: xs => x.stringKeyed && stringKeyedElems xs

def stringKeyedItems : List (Key × PyValue F) → Bool
  | [] => true
  | (_, v) :: items => v.stringKeyed && stringKeyedItems items

end

theorem stringKeyedElems_iff (xs : List (PyValue F)) :
    stringKeyedElems xs = true ↔ ∀ x ∈ xs, x.stringKeyed = true :=
  all_iff rfl (fun _ _ => rfl) xs

theorem stringKeyedItems_iff (items : List (Key × PyValue F)) :
    stringKeyedItems items = true ↔ ∀ p ∈ items, p.2.stringKeyed = true :=
  all_iff rfl (fun _ _ => rfl) items

theorem mapM_str? {ks : List Key} (h : ∀ k ∈ ks, k.plain = true) :
    ∃ texts, ks.mapM Key.str? = some texts ∧ texts.map Key.str = ks ∧
      ∀ t ∈ texts, joinSurrogates t = t := by
  induction ks with
  | nil => exact ⟨[], rfl, rfl, fun t ht => nomatch ht⟩
  | cons k ks ih =>
    obtain ⟨hk, hks⟩ := List.forall_mem_cons.mp h
    obtain ⟨texts, htexts, hmap, hjoin⟩ := ih hks
    cases k with
    | int i => cases hk
    | str s =>
      refine ⟨s :: texts, ?_, by rw [List.map_cons, hmap], ?_⟩
      · rw [List.mapM_cons, htexts]
        rfl
      · exact List.forall_mem_cons.mpr ⟨of_decide_eq_true hk, hjoin⟩

theorem keysAscend_of_plain {ks : List Key} (hnodup : ks.Nodup) (h : ∀ k ∈ ks, k.plain = true) :
    keysAscend ks = true := by
  obtain ⟨texts, htexts, hmap, hjoin⟩ := mapM_str? h
  have hdistinct : texts.Nodup := by
    rw [← hmap] at hnodup
    exact List.Nodup.of_map _ hnodup
  have hjoin' : (texts.insertionSort (· ≤ ·)).map joinSurrogates =
      texts.insertionSort (· ≤ ·) := by
    rw [List.map_congr_left fun t ht => hjoin t ((List.mem_insertionSort _).mp ht), List.map_id']
  have hle : (texts.insertionSort (· ≤ ·)).Pairwise (· ≤ ·) := List.pairwise_insertionSort _ _
  have hne : (texts.insertionSort (· ≤ ·)).Nodup :=
    (List.perm_insertionSort _ _).nodup_iff.mpr hdistinct
  simp only [keysAscend, sortKeys, htexts, hjoin', decide_eq_true_eq]
  exact hle.imp₂ (fun a b hab hne => lt_of_le_of_ne hab hne) hne

/-- Values with string keys are text-ordered, whatever their nesting. -/
theorem textOrdered_of_stringKeyed (v : PyValue F) (hw : v.wellFormed = true)
    (hs : v.stringKeyed = true) : v.textOrdered = true := by
  induction v with
  | none | bool | int | float | str | set => rfl
  | list xs ih | tuple xs ih =>
    rw [PyValue.wellFormed, wellFormedElems_iff] at hw
    rw [PyValue.stringKeyed, stringKeyedElems_iff] at hs
    exact (textOrderedElems_iff xs).mpr fun x hx => ih x hx (hw x hx) (hs x hx)
  | dict items ih =>
    simp only [PyValue.wellFormed, PyValue.stringKeyed, Bool.and_eq_true, decide_eq_true_eq,
      List.all_eq_true, wellFormedItems_iff, stringKeyedItems_iff] at hw hs
    have hkeys : ∀ k ∈ items.map Prod.fst, k.plain = true :=
      List.forall_mem_map.mpr fun p hp => hs.1 p hp
    rw [PyValue.textOrdered, keysAscend_of_plain hw.1 hkeys, Bool.true_and, textOrderedItems_iff]
    exact fun p hp => ih p hp (hw.2 p hp) (hs.2 p hp)

end PiPlatform.Library.Python
