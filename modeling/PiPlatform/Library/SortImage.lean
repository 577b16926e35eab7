import Mathlib.Data.List.Sort

/-! What is seen of sorted elements when each is seen through its image only.

Two sorted orders of the same elements look alike if elements with different images stand
strictly apart in both, the same way (`map_eq_of_sorted`). Conversely an element that may be
put in under one key or another, with the sorted list looking alike, stands on the same side of
every element that has another image (`le_iff_of_insert`), and two with one key that may be put
in in either order have one image (`eq_of_insert_tie`). -/
namespace PiPlatform.Library

variable {α β ι : Type*} [LinearOrder β] {key key' : α → β} {f : α → ι}

theorem map_append_cons_eq {a : α} {xs ys : List α} (h : ∀ x ∈ xs, f x = f a) :
    (xs ++ a :: ys).map f = f a :: (xs ++ ys).map f := by
  induction xs with
  | nil => rfl
  | cons x xs ih =>
    obtain ⟨hx, hxs⟩ := List.forall_mem_cons.mp h
    rw [List.cons_append, List.map_cons, ih hxs, hx, List.cons_append, List.map_cons, hx]

theorem map_eq_of_sorted {xs ys : List α} (hperm : xs.Perm ys)
    (hxs : xs.Pairwise fun a b => key a ≤ key b) (hys : ys.Pairwise fun a b => key' a ≤ key' b)
    (happart : xs.Pairwise fun a b =>
      f a = f b ∨ (key a < key b ∧ key' a < key' b) ∨ (key b < key a ∧ key' b < key' a)) :
    xs.map f = ys.map f := by
  induction xs generalizing ys with
  | nil => rw [hperm.nil_eq]
  | cons a xs ih =>
    obtain ⟨before, after, rfl⟩ := List.append_of_mem (hperm.mem_iff.mp (List.mem_cons_self ..))
    have hrest : xs.Perm (before ++ after) := (List.perm_cons a).mp (hperm.trans List.perm_middle)
    obtain ⟨hle, hxs⟩ := List.pairwise_cons.mp hxs
    obtain ⟨ha, happart⟩ := List.pairwise_cons.mp happart
    -- what stands before the first element by the other key is not apart from it
    have hbefore : ∀ b ∈ before, f b = f a := by
      intro b hb
      have hmem : b ∈ xs := hrest.mem_iff.mpr (List.mem_append_left _ hb)
      have hle' : key' b ≤ key' a :=
        (List.pairwise_append.mp hys).2.2 b hb a (List.mem_cons_self ..)
      rcases ha b hmem with heq | ⟨-, hlt⟩ | ⟨hlt, -⟩
      · exact heq.symm
      · exact absurd hlt (not_lt.mpr hle')
      · exact absurd hlt (not_lt.mpr (hle b hmem))
    have hys' : (before ++ after).Pairwise fun a b => key' a ≤ key' b :=
      hys.sublist ((List.sublist_cons_self a after).append_left before)
    rw [List.map_cons, map_append_cons_eq hbefore, ih hrest hxs hys' happart]

theorem orderedInsert_of_le {a : α} {xs : List α} (h : ∀ x ∈ xs, key a ≤ key x) :
    xs.orderedInsert (fun a b => key a ≤ key b) a = a :: xs := by
  cases xs with
  | nil => rfl
  | cons x xs => exact if_pos (h x (List.mem_cons_self ..))

theorem le_iff_of_insert {a b : α} (himage : f a = f b) {xs : List α}
    (hxs : xs.Pairwise fun a b => key a ≤ key b)
    (h : (xs.orderedInsert (fun a b => key a ≤ key b) a).map f =
      (xs.orderedInsert (fun a b => key a ≤ key b) b).map f) {x : α} (hx : x ∈ xs)
    (hne : f x ≠ f a) : key a ≤ key x ↔ key b ≤ key x := by
  induction xs with
  | nil => cases hx
  | cons y xs ih =>
    obtain ⟨hle, hxs⟩ := List.pairwise_cons.mp hxs
    rw [List.orderedInsert_cons, List.orderedInsert_cons] at h
    by_cases ha : key a ≤ key y
    · have hax : ∀ z ∈ y :: xs, key a ≤ key z :=
        List.forall_mem_cons.mpr ⟨ha, fun z hz => ha.trans (hle z hz)⟩
      by_cases hb : key b ≤ key y
      · have hbx : ∀ z ∈ y :: xs, key b ≤ key z :=
          List.forall_mem_cons.mpr ⟨hb, fun z hz => hb.trans (hle z hz)⟩
        exact iff_of_true (hax x hx) (hbx x hx)
      · rw [if_pos ha, if_neg hb, List.map_cons, List.map_cons, List.map_cons] at h
        obtain ⟨hy, h⟩ := List.cons.inj h
        rcases List.mem_cons.mp hx with rfl | hx
        · exact absurd hy.symm hne
        · refine ih hxs ?_ hx
          rw [orderedInsert_of_le fun z hz => ha.trans (hle z hz), List.map_cons, hy, h]
    · by_cases hb : key b ≤ key y
      · rw [if_neg ha, if_pos hb, List.map_cons, List.map_cons, List.map_cons] at h
        obtain ⟨hy, h⟩ := List.cons.inj h
        rcases List.mem_cons.mp hx with rfl | hx
        · exact absurd (hy.trans himage.symm) hne
        · refine ih hxs ?_ hx
          rw [orderedInsert_of_le (a := b) fun z hz => hb.trans (hle z hz), List.map_cons, ← hy, h]
      · rw [if_neg ha, if_neg hb, List.map_cons, List.map_cons] at h
        rcases List.mem_cons.mp hx with rfl | hx
        · exact iff_of_false ha hb
        · exact ih hxs (List.cons.inj h).2 hx

theorem eq_of_insert_tie {a b : α} (hkey : key a = key b) {xs : List α}
    (h : ((xs.orderedInsert (fun a b => key a ≤ key b) b).orderedInsert
        (fun a b => key a ≤ key b) a).map f =
      ((xs.orderedInsert (fun a b => key a ≤ key b) a).orderedInsert
        (fun a b => key a ≤ key b) b).map f) : f a = f b := by
  have hab : key a ≤ key b := le_of_eq hkey
  have hba : key b ≤ key a := le_of_eq hkey.symm
  induction xs with
  | nil =>
    simp only [List.orderedInsert_nil, List.orderedInsert_cons, if_pos hab, if_pos hba,
      List.map_cons] at h
    exact (List.cons.inj h).1
  | cons y xs ih =>
    by_cases hy : key a ≤ key y
    · have hy' : key b ≤ key y := hkey ▸ hy
      simp only [List.orderedInsert_cons, if_pos hy, if_pos hy', if_pos hab, if_pos hba,
        List.map_cons] at h
      exact (List.cons.inj h).1
    · have hy' : ¬ key b ≤ key y := hkey ▸ hy
      simp only [List.orderedInsert_cons, if_neg hy, if_neg hy', List.map_cons] at h
      exact ih (List.cons.inj h).2

end PiPlatform.Library
