import Mathlib.Data.List.Forall2
import Mathlib.Data.List.Sort

/-! Lists in the order of a key, equal keys in the order they came.

`StableSort key xs ys` says that `ys` is such an order of `xs`, and there is only one
(`StableSort.unique`). A list kept sorted while elements are appended one at a time is
the stable sort of what was appended (`StableSort.snoc`), and its first and last
elements with a property are the first and last to come among those with the smallest
and the largest key. -/
namespace PiPlatform.Library

variable {α β : Type} [LinearOrder β] {key : α → β} {xs ys ys' : List α}

/-- Python's `sort` and Rust's `sort_by_key`. -/
def sortBy (key : α → β) (xs : List α) : List α := xs.insertionSort fun a b => key a ≤ key b

/-- Sorted by key, in the old order where the keys are equal. -/
structure StableSort (key : α → β) (xs ys : List α) : Prop where
  perm : ys.Perm xs
  sorted : ys.Pairwise fun a b => key a ≤ key b
  stable : ∀ k, (ys.filter fun a => key a = k) = xs.filter fun a => key a = k

theorem filter_orderedInsert (x : α) (k : β) :
    ((xs.orderedInsert (fun a b => key a ≤ key b) x).filter fun a => key a = k) =
      (x :: xs).filter fun a => key a = k := by
  induction xs with
  | nil => rfl
  | cons y xs ih =>
    rw [List.orderedInsert_cons]
    by_cases hxy : key x ≤ key y
    · rw [if_pos hxy]
    · rw [if_neg hxy, List.filter_cons, ih]
      by_cases hy : key y = k
      · have hx : key x ≠ k := fun heq => hxy (le_of_eq (heq.trans hy.symm))
        simp [hx, hy]
      · simp [List.filter_cons, hy]

theorem stableSort_sortBy (key : α → β) (xs : List α) : StableSort key xs (sortBy key xs) where
  perm := List.perm_insertionSort _ xs
  sorted := by
    have : Std.Total fun a b : α => key a ≤ key b := ⟨fun a b => le_total (key a) (key b)⟩
    have : IsTrans α fun a b : α => key a ≤ key b := ⟨fun _ _ _ => le_trans⟩
    exact List.pairwise_insertionSort _ xs
  stable k := by
    induction xs with
    | nil => rfl
    | cons x xs ih =>
      show ((List.orderedInsert _ x (sortBy key xs)).filter _) = _
      rw [filter_orderedInsert, List.filter_cons, List.filter_cons, ih]

/-- Lists that are related element by element, with the same keys, are so when sorted. -/
theorem forall₂_sortBy {γ : Type} {key' : γ → β} {R : α → γ → Prop}
    (hkey : ∀ x y, R x y → key x = key' y) {zs : List γ} (h : List.Forall₂ R xs zs) :
    List.Forall₂ R (sortBy key xs) (sortBy key' zs) := by
  have hinsert : ∀ {x : α} {z : γ} {xs : List α} {zs : List γ}, R x z → List.Forall₂ R xs zs →
      List.Forall₂ R (xs.orderedInsert (fun a b => key a ≤ key b) x)
        (zs.orderedInsert (fun a b => key' a ≤ key' b) z) := by
    intro x z xs zs hxz h
    induction h with
    | nil => exact .cons hxz .nil
    | @cons a c as cs hac has ih =>
      rw [List.orderedInsert_cons, List.orderedInsert_cons, hkey x z hxz, hkey a c hac]
      split
      · exact .cons hxz (.cons hac has)
      · exact .cons hac ih
  induction h with
  | nil => exact .nil
  | cons hxz _ ih => exact hinsert hxz ih

/-- Where the key tells elements apart, sorting forgets the order and nothing else. -/
theorem sortBy_eq_iff_of_inj (hkey : ∀ x ∈ xs, ∀ y ∈ xs, key x = key y → x = y) :
    sortBy key xs = sortBy key ys ↔ xs.Perm ys := by
  have hxs := stableSort_sortBy key xs
  have hys := stableSort_sortBy key ys
  constructor
  · intro h
    exact hxs.perm.symm.trans (h ▸ hys.perm)
  · intro hperm
    have hboth := hxs.perm.trans (hperm.trans hys.perm.symm)
    refine hboth.eq_of_pairwise (fun a b ha hb hab hba => ?_) hxs.sorted hys.sorted
    have hmem : b ∈ xs := hperm.mem_iff.mpr (hys.perm.mem_iff.mp hb)
    exact hkey a (hxs.perm.mem_iff.mp ha) b hmem (le_antisymm hab hba)

theorem sortBy_eq_iff (hnodup : (xs.map key).Nodup) :
    sortBy key xs = sortBy key ys ↔ xs.Perm ys :=
  sortBy_eq_iff_of_inj fun _ hx _ hy => List.inj_on_of_nodup_map hnodup hx hy

namespace StableSort

theorem nil : StableSort key [] [] := ⟨.refl _, .nil, fun _ => rfl⟩

theorem mem_iff (h : StableSort key xs ys) {a : α} : a ∈ ys ↔ a ∈ xs := h.perm.mem_iff

/-- What a sorted list holds under each key determines it. -/
theorem unique (h : StableSort key xs ys) (h' : StableSort key xs ys') : ys = ys' := by
  have hrun : ∀ ys ys' : List α, (ys.Pairwise fun a b => key a ≤ key b) →
      (ys'.Pairwise fun a b => key a ≤ key b) →
      (∀ k, (ys.filter fun a => key a = k) = ys'.filter fun a => key a = k) → ys = ys' := by
    have hleast : ∀ {a : α} {as bs : List α},
        (∀ k, ((a :: as).filter fun c => key c = k) = bs.filter fun c => key c = k) → a ∈ bs := by
      intro a as bs hfilter
      have hmem : a ∈ bs.filter fun c => key c = key a := by
        rw [← hfilter, List.filter_cons_of_pos (by simp)]
        exact List.mem_cons_self ..
      exact List.mem_of_mem_filter hmem
    intro ys
    induction ys with
    | nil =>
      intro ys' _ _ hfilter
      cases ys' with
      | nil => rfl
      | cons b bs => exact absurd (hleast fun k => (hfilter k).symm) List.not_mem_nil
    | cons a as ih =>
      intro ys' hsorted hsorted' hfilter
      cases ys' with
      | nil => exact absurd (hleast hfilter) List.not_mem_nil
      | cons b bs =>
        obtain ⟨hle, hsorted⟩ := List.pairwise_cons.mp hsorted
        obtain ⟨hle', hrest'⟩ := List.pairwise_cons.mp hsorted'
        have hab : key b ≤ key a := by
          rcases List.mem_cons.mp (hleast hfilter) with heq | hmem
          · rw [heq]
          · exact hle' a hmem
        have hba : key a ≤ key b := by
          rcases List.mem_cons.mp (hleast fun k => (hfilter k).symm) with heq | hmem
          · rw [heq]
          · exact hle b hmem
        have hkey : key a = key b := le_antisymm hba hab
        have hhead := hfilter (key a)
        rw [List.filter_cons_of_pos (by simp), List.filter_cons_of_pos (by simpa using hkey.symm)]
          at hhead
        obtain ⟨rfl, -⟩ := List.cons.inj hhead
        congr 1
        refine ih bs hsorted hrest' fun k => ?_
        have hk := hfilter k
        by_cases ha : key a = k
        · rw [List.filter_cons_of_pos (by simpa using ha),
            List.filter_cons_of_pos (by simpa using ha)] at hk
          exact (List.cons.inj hk).2
        · rwa [List.filter_cons_of_neg (by simpa using ha),
            List.filter_cons_of_neg (by simpa using ha)] at hk
  exact hrun ys ys' h.sorted h'.sorted fun k => (h.stable k).trans (h'.stable k).symm

/-- One more element, and sorted again. -/
theorem snoc (h : StableSort key xs ys) (x : α) :
    StableSort key (xs ++ [x]) (sortBy key (ys ++ [x])) where
  perm := (stableSort_sortBy key _).perm.trans (h.perm.append_right _)
  sorted := (stableSort_sortBy key _).sorted
  stable k := by
    rw [(stableSort_sortBy key _).stable, List.filter_append, List.filter_append, h.stable]

/-- An order of the elements as they came is kept among equal keys. -/
theorem pairwise_lex (h : StableSort key xs ys) {R : α → α → Prop} (hxs : xs.Pairwise R) :
    ys.Pairwise fun a b => key a < key b ∨ key a = key b ∧ R a b := by
  refine List.pairwise_iff_forall_sublist.mpr fun {a b} hsub => ?_
  have hle := List.pairwise_iff_forall_sublist.mp h.sorted hsub
  rcases hle.lt_or_eq with hlt | heq
  · exact .inl hlt
  · have hsame : [a, b].filter (fun c => key c = key b) = [a, b] := by simp [heq]
    have hkept := hsub.filter fun c => key c = key b
    rw [hsame, h.stable] at hkept
    exact .inr ⟨heq, List.pairwise_iff_forall_sublist.mp hxs (hkept.trans List.filter_sublist)⟩

variable {p : α → Bool}

theorem stable_filter (h : StableSort key xs ys) (k : β) :
    ((ys.filter p).filter fun a => key a = k) = (xs.filter p).filter fun a => key a = k := by
  have hswap : ∀ zs : List α, ((zs.filter p).filter fun a => key a = k) =
      (zs.filter fun a => key a = k).filter p := fun zs => by
    rw [List.filter_filter, List.filter_filter]
    exact List.filter_congr fun a _ => Bool.and_comm ..
  rw [hswap, hswap, h.stable]

/-- The elements with a property, sorted. -/
theorem filter (h : StableSort key xs ys) (p : α → Bool) :
    StableSort key (xs.filter p) (ys.filter p) :=
  ⟨h.perm.filter p, h.sorted.filter p, h.stable_filter⟩

/-- The first of them all is the first to come with its key, and no key is smaller. -/
theorem head? (h : StableSort key xs ys) {a : α} (ha : ys.head? = some a) :
    (xs.filter fun b => key b = key a).head? = some a ∧ ∀ b ∈ xs, key a ≤ key b := by
  cases ys with
  | nil => cases ha
  | cons b ys =>
    obtain rfl : b = a := Option.some.inj ha
    constructor
    · rw [← h.stable, List.filter_cons_of_pos (by simp)]
      rfl
    · intro c hc
      rcases List.mem_cons.mp (h.mem_iff.mpr hc) with rfl | hmem
      · exact le_rfl
      · exact (List.pairwise_cons.mp h.sorted).1 c hmem

/-- The last of them all is the last to come with its key, and no key is larger. -/
theorem getLast? (h : StableSort key xs ys) {a : α} (ha : ys.getLast? = some a) :
    (xs.filter fun b => key b = key a).getLast? = some a ∧ ∀ b ∈ xs, key b ≤ key a := by
  obtain ⟨front, rfl⟩ := List.getLast?_eq_some_iff.mp ha
  constructor
  · rw [← h.stable, List.filter_append, List.filter_cons_of_pos (by simp)]
    simp
  · intro c hc
    rcases List.mem_append.mp (h.mem_iff.mpr hc) with hmem | hmem
    · exact (List.pairwise_append.mp h.sorted).2.2 c hmem a (List.mem_singleton_self a)
    · rw [List.mem_singleton.mp hmem]

end StableSort

end PiPlatform.Library
