import Mathlib.Data.Finset.Sort
import Mathlib.Data.List.Forall2
import Mathlib.Data.List.Infix
import Mathlib.Data.List.Nodup

/-! Lists with distinct keys and lists related element by element. -/
namespace PiPlatform.Library

universe u v
variable {α : Type u} {β : Type v} {x : α} {p : α → Bool}

theorem nodup_snoc {xs : List α} (h : xs.Nodup) (hx : x ∉ xs) : (xs ++ [x]).Nodup :=
  h.append (List.nodup_singleton x) (by simpa using hx)

/-- A conjunction made element by element is one over the elements. -/
theorem all_iff {f : List α → Bool} (hnil : f [] = true)
    (hcons : ∀ x xs, f (x :: xs) = (p x && f xs)) (xs : List α) :
    f xs = true ↔ ∀ x ∈ xs, p x = true := by
  induction xs with
  | nil => simp [hnil]
  | cons x xs ih => rw [hcons, Bool.and_eq_true, ih, List.forall_mem_cons]

/-- A list made element by element is the list of the images. -/
theorem eq_map {f : List α → List β} {g : α → β} (hnil : f [] = [])
    (hcons : ∀ x xs, f (x :: xs) = g x :: f xs) (xs : List α) : f xs = xs.map g := by
  induction xs with
  | nil => exact hnil
  | cons x xs ih => rw [hcons, ih, List.map_cons]

theorem map_eq_self {f : α → α} {xs : List α} : xs.map f = xs ↔ ∀ x ∈ xs, f x = x := by
  induction xs with
  | nil => simp
  | cons x xs ih => rw [List.map_cons, List.cons.injEq, ih, List.forall_mem_cons]

/-- Python's `sorted`, of a set. -/
def sorted [LinearOrder α] (s : Finset α) : List α := s.sort (· ≤ ·)

@[simp] theorem mem_sorted [LinearOrder α] {s : Finset α} : x ∈ sorted s ↔ x ∈ s :=
  Finset.mem_sort _

theorem ite_singleton_eq_nil {p : Prop} [Decidable p] :
    (if p then [x] else []) = [] ↔ ¬ p := by
  by_cases h : p <;> simp [h]

theorem countP_set_add {xs : List α} {i : Nat} (h : xs[i]? = some x)
    (y : α) : (xs.set i y).countP p + (p x).toNat = xs.countP p + (p y).toNat := by
  induction xs generalizing i with
  | nil => simp at h
  | cons z xs ih =>
    cases i with
    | zero =>
      obtain rfl : z = x := by simpa using h
      cases hz : p z <;> cases hy : p y <;> simp [hz, hy]
    | succ i =>
      have hset := ih (i := i) (by simpa using h)
      simp only [List.set_cons_succ, List.countP_cons]
      omega

theorem mem_set_of_ne {xs : List α} {i : Nat} {x z : α} (h : xs[i]? = some x) (hz : z ∈ xs)
    (hne : z ≠ x) (y : α) : z ∈ xs.set i y := by
  obtain ⟨j, hj⟩ := List.mem_iff_getElem?.mp hz
  have hij : i ≠ j := by
    rintro rfl
    exact hne (Option.some.inj (hj.symm.trans h))
  exact List.mem_of_getElem? ((List.getElem?_set_ne hij).trans hj)

theorem mem_set_self {xs : List α} {i : Nat} (h : xs[i]? = some x) (y : α) :
    y ∈ xs.set i y := List.mem_set (List.getElem?_eq_some_iff.mp h).1 y

/-- What remains of a tail when the keys of a front are struck out. -/
theorem filter_drop_cut [DecidableEq β] {key : α → β} {xs : List α} (hnodup : (xs.map key).Nodup)
    {k c : Nat} {keys : List β} (hin : ∀ x ∈ xs.take c, x ∈ xs.drop k → key x ∈ keys)
    (hout : ∀ b ∈ keys, ∃ x ∈ xs.take c, key x = b) :
    (xs.drop k).filter (fun x => key x ∉ keys) = xs.drop (max k c) := by
  have hkept : ∀ y ∈ xs.drop c, key y ∉ keys := by
    intro y hy hkey
    obtain ⟨x, hx, heq⟩ := hout _ hkey
    rw [← List.take_append_drop c xs, List.map_append] at hnodup
    exact List.disjoint_of_nodup_append hnodup (List.mem_map_of_mem hx)
      (heq ▸ List.mem_map_of_mem hy)
  have hself : ∀ ys : List α, (∀ y ∈ ys, y ∈ xs.drop c) → ys.filter (fun x => key x ∉ keys) = ys :=
    fun ys hys => List.filter_eq_self.mpr fun y hy => decide_eq_true (hkept y (hys y hy))
  rcases le_total c k with hck | hkc
  · rw [max_eq_left hck]
    refine hself _ fun y hy => ?_
    rw [← Nat.sub_add_cancel hck, Nat.add_comm, ← List.drop_drop] at hy
    exact List.mem_of_mem_drop hy
  · have hfront : ((xs.drop k).take (c - k)).filter (fun x => key x ∉ keys) = [] := by
      refine List.filter_eq_nil_iff.mpr fun x hx => ?_
      have htail : x ∈ xs.drop k := List.mem_of_mem_take hx
      rw [List.take_drop, Nat.add_sub_cancel' hkc] at hx
      simpa using hin x (List.mem_of_mem_drop hx) htail
    have hdrop : (xs.drop k).drop (c - k) = xs.drop c := by
      rw [List.drop_drop, Nat.add_sub_cancel' hkc]
    rw [max_eq_right hkc, ← List.take_append_drop (c - k) (xs.drop k), List.filter_append, hfront,
      List.nil_append, hdrop, hself _ fun _ => id]

/-- The one element with its key. -/
theorem filter_unique [DecidableEq β] {f : α → β} {xs : List α} (h : (xs.map f).Nodup) {a : α}
    (ha : a ∈ xs) : (xs.filter fun x => f x = f a) = [a] := by
  induction xs with
  | nil => cases ha
  | cons x xs ih =>
    obtain ⟨hx, hxs⟩ := List.nodup_cons.mp h
    rcases List.mem_cons.mp ha with rfl | ha
    · have hnone : (xs.filter fun y => f y = f a) = [] := by
        rw [List.filter_eq_nil_iff]
        intro y hy heq
        rw [decide_eq_true_eq] at heq
        exact hx (heq ▸ List.mem_map_of_mem hy)
      simp [hnone]
    · have hne : f x ≠ f a := fun heq => hx (heq ▸ List.mem_map_of_mem ha)
      simp [hne, ih hxs ha]

theorem findSome?_flatMap {γ : Type*} (f : α → List β) (g : β → Option γ) (xs : List α) :
    (xs.flatMap f).findSome? g = xs.findSome? fun x => (f x).findSome? g := by
  induction xs with
  | nil => rfl
  | cons x xs ih =>
    rw [List.flatMap_cons, List.findSome?_append, List.findSome?_cons, ih]
    cases (f x).findSome? g <;> rfl

/-- The first `k` elements that pass are what passes up to the last of them. -/
theorem filter_take_of_getLast {xs : List α} {k : Nat} {y : α}
    (h : ((xs.filter p).take k).getLast? = some y) :
    ∃ q, xs[q]? = some y ∧ (xs.take (q + 1)).filter p = (xs.filter p).take k := by
  induction xs generalizing k with
  | nil => simp at h
  | cons x xs ih =>
    by_cases hx : p x = true
    · cases k with
      | zero => simp at h
      | succ k =>
        rw [List.filter_cons_of_pos hx, List.take_succ_cons] at h
        cases hrest : ((xs.filter p).take k).getLast? with
        | none =>
          have hnil := List.getLast?_eq_none_iff.mp hrest
          rw [hnil, List.getLast?_singleton, Option.some.injEq] at h
          exact ⟨0, by simp [h], by simp [hx, hnil]⟩
        | some z =>
          rw [List.getLast?_cons, hrest, Option.getD_some, Option.some.injEq] at h
          obtain ⟨q, hq, htake⟩ := ih (h ▸ hrest)
          exact ⟨q + 1, by simpa using hq, by simp [hx, htake]⟩
    · rw [List.filter_cons_of_neg hx] at h ⊢
      obtain ⟨q, hq, htake⟩ := ih h
      exact ⟨q + 1, by simpa using hq, by simpa [hx] using htake⟩

/-- A list is the front of another up to one element more. -/
theorem front_snoc_iff {xs ys : List α} :
    xs ++ [x] <+: ys ↔ xs <+: ys ∧ ys[xs.length]? = some x := by
  constructor
  · rintro ⟨rest, rfl⟩
    exact ⟨⟨x :: rest, by simp⟩, by simp⟩
  · rintro ⟨⟨rest, rfl⟩, hx⟩
    cases rest with
    | nil => simp at hx
    | cons y rest =>
      obtain rfl : y = x := by simpa using hx
      exact ⟨rest, by simp⟩

/-- Of the elements with one key only the first, and none with a key seen before. -/
@[grind =] def firstsBy [DecidableEq β] (key : α → β) : List β → List α → List α
  | _, [] => []
  | seen, x :: xs =>
    if key x ∈ seen then firstsBy key seen xs else x :: firstsBy key (key x :: seen) xs

section Firsts
variable [DecidableEq β] {key : α → β} {seen seen' : List β}

theorem firstsBy_congr (h : ∀ k, k ∈ seen ↔ k ∈ seen') (xs : List α) :
    firstsBy key seen xs = firstsBy key seen' xs := by
  induction xs generalizing seen seen' with
  | nil => rfl
  | cons x xs ih =>
    have hcons : ∀ k, k ∈ key x :: seen ↔ k ∈ key x :: seen' := fun k => by simp [h k]
    simp only [firstsBy, h (key x), ih h, ih hcons]

theorem not_mem_of_mem_firstsBy {xs : List α} (hx : x ∈ firstsBy key seen xs) :
    key x ∉ seen := by
  induction xs generalizing seen with
  | nil => cases hx
  | cons y xs ih =>
    rw [firstsBy] at hx
    split at hx
    · exact ih hx
    · next hy =>
      rcases List.mem_cons.mp hx with rfl | hx
      · exact hy
      · exact fun hmem => ih hx (List.mem_cons_of_mem _ hmem)

/-- With more seen, those that are left of what was left. -/
theorem firstsBy_of_subset (h : ∀ k ∈ seen, k ∈ seen') (xs : List α) :
    firstsBy key seen' xs = (firstsBy key seen xs).filter fun x => key x ∉ seen' := by
  induction xs generalizing seen seen' with
  | nil => rfl
  | cons x xs ih =>
    by_cases hx : key x ∈ seen
    · simp only [firstsBy, if_pos hx, if_pos (h _ hx), ih h]
    · by_cases hx' : key x ∈ seen'
      · have hcons : ∀ k ∈ key x :: seen, k ∈ seen' := List.forall_mem_cons.mpr ⟨hx', h⟩
        rw [firstsBy, if_pos hx', firstsBy, if_neg hx, List.filter_cons_of_neg (by simpa using hx')]
        exact ih hcons
      · have hcons : ∀ k ∈ key x :: seen, k ∈ key x :: seen' :=
          List.forall_mem_cons.mpr
            ⟨List.mem_cons_self .., fun k hk => List.mem_cons_of_mem _ (h k hk)⟩
        rw [firstsBy, if_neg hx', firstsBy, if_neg hx, List.filter_cons_of_pos (by simpa using hx'),
          ih hcons]
        congr 1
        refine List.filter_congr fun y hy => ?_
        have hne : key y ≠ key x := fun heq =>
          not_mem_of_mem_firstsBy hy (heq ▸ List.mem_cons_self ..)
        simp [hne]

theorem firstsBy_append (xs ys : List α) :
    firstsBy key seen (xs ++ ys) =
      firstsBy key seen xs ++ firstsBy key ((firstsBy key seen xs).map key ++ seen) ys := by
  induction xs generalizing seen with
  | nil => rfl
  | cons x xs ih =>
    by_cases hx : key x ∈ seen
    · simp only [List.cons_append, firstsBy, if_pos hx, ih]
    · simp only [List.cons_append, firstsBy, if_neg hx, ih, List.map_cons]
      congr 2
      exact firstsBy_congr (fun k => by simp [or_left_comm]) ys

theorem firstsBy_sublist (xs : List α) : (firstsBy key seen xs).Sublist xs := by
  induction xs generalizing seen with
  | nil => exact List.Sublist.refl _
  | cons x xs ih =>
    rw [firstsBy]
    split
    · exact ih.cons x
    · exact ih.cons_cons x

theorem mem_keys_firstsBy {k : β} (xs : List α) :
    k ∈ (firstsBy key seen xs).map key ++ seen ↔ k ∈ xs.map key ++ seen := by
  induction xs generalizing seen with
  | nil => rfl
  | cons x xs ih =>
    rw [firstsBy]
    split
    · next hx =>
      rw [ih, List.map_cons, List.cons_append, List.mem_cons, or_iff_right_of_imp]
      rintro rfl
      exact List.mem_append_right _ hx
    · have hcons := @ih (key x :: seen)
      simp only [List.map_cons, List.mem_append, List.mem_cons] at hcons ⊢
      rw [or_assoc, or_left_comm, hcons, or_left_comm, or_assoc]

theorem firstsBy_snoc (xs : List α) (x : α) :
    firstsBy key seen (xs ++ [x]) =
      if key x ∈ xs.map key ++ seen then firstsBy key seen xs else firstsBy key seen xs ++ [x] := by
  rw [firstsBy_append, firstsBy, firstsBy]
  simp only [mem_keys_firstsBy]
  split
  · exact List.append_nil _
  · rfl

theorem firstsBy_map {γ : Type*} (f : γ → α) (xs : List γ) :
    firstsBy key seen (xs.map f) = (firstsBy (fun x => key (f x)) seen xs).map f := by
  induction xs generalizing seen with
  | nil => rfl
  | cons x xs ih =>
    simp only [List.map_cons, firstsBy, ih]
    split <;> rfl

/-- The first element with a key that was not seen is among the firsts. -/
theorem find?_firstsBy {k : β} (hk : k ∉ seen) (xs : List α) :
    (firstsBy key seen xs).find? (fun x => key x = k) = xs.find? fun x => key x = k := by
  induction xs generalizing seen with
  | nil => rfl
  | cons x xs ih =>
    by_cases hx : key x = k
    · rw [firstsBy, if_neg (hx ▸ hk), List.find?_cons_of_pos (by simpa using hx),
        List.find?_cons_of_pos (by simpa using hx)]
    · rw [List.find?_cons_of_neg (by simpa using hx), firstsBy]
      split
      · exact ih hk
      · rw [List.find?_cons_of_neg (by simpa using hx)]
        exact ih fun hmem => (List.mem_cons.mp hmem).elim (fun heq => hx heq.symm) hk

theorem nodup_firstsBy (xs : List α) : ((firstsBy key seen xs).map key).Nodup := by
  induction xs generalizing seen with
  | nil => exact List.nodup_nil
  | cons x xs ih =>
    rw [firstsBy]
    split
    · exact ih
    · refine List.nodup_cons.mpr ⟨fun hmem => ?_, ih⟩
      obtain ⟨y, hy, hkey⟩ := List.mem_map.mp hmem
      exact not_mem_of_mem_firstsBy hy (hkey ▸ List.mem_cons_self ..)

theorem mem_firstsBy_id {seen ks : List β} {k : β} :
    k ∈ firstsBy id seen ks ↔ k ∈ ks ∧ k ∉ seen := by
  constructor
  · intro hk
    refine ⟨?_, not_mem_of_mem_firstsBy hk⟩
    induction ks generalizing seen with
    | nil => cases hk
    | cons j ks ih =>
      rw [firstsBy] at hk
      split at hk
      · exact List.mem_cons_of_mem _ (ih hk)
      · rcases List.mem_cons.mp hk with rfl | hk
        · exact List.mem_cons_self ..
        · exact List.mem_cons_of_mem _ (ih hk)
  · rintro ⟨hk, hseen⟩
    have hfind : (firstsBy id seen ks).find? (fun x => id x = k) = ks.find? fun x => id x = k :=
      find?_firstsBy hseen ks
    obtain ⟨j, hj⟩ := Option.isSome_iff_exists.mp
      (List.find?_isSome.mpr ⟨k, hk, by simp⟩ : (ks.find? fun x => id x = k).isSome)
    rw [hj] at hfind
    obtain rfl : j = k := by simpa using List.find?_some hj
    exact List.mem_of_find?_eq_some hfind

end Firsts

/-! ### Groups -/

section Groups
variable [DecidableEq β] {key : α → β} {xs ys : List α} {k : β}

/-- The elements under their keys, the groups in the order they begin. -/
def groupBy (key : α → β) (xs : List α) : List (β × List α) :=
  (firstsBy id [] (xs.map key)).map fun k => (k, xs.filter fun x => key x = k)

theorem mem_groupBy : (k, ys) ∈ groupBy key xs ↔
    k ∈ xs.map key ∧ ys = xs.filter fun x => key x = k := by
  rw [groupBy, List.mem_map]
  constructor
  · rintro ⟨k, hk, heq⟩
    obtain ⟨rfl, rfl⟩ := Prod.mk.inj heq
    exact ⟨(mem_firstsBy_id.mp hk).1, rfl⟩
  · rintro ⟨hk, rfl⟩
    exact ⟨k, mem_firstsBy_id.mpr ⟨hk, List.not_mem_nil⟩, rfl⟩

theorem keys_groupBy (key : α → β) (xs : List α) :
    (groupBy key xs).map Prod.fst = firstsBy id [] (xs.map key) := by
  rw [groupBy, List.map_map]
  exact List.map_id _

theorem nodup_groupBy (key : α → β) (xs : List α) : ((groupBy key xs).map Prod.fst).Nodup := by
  rw [keys_groupBy, ← List.map_id (firstsBy id [] (xs.map key))]
  exact nodup_firstsBy _

end Groups

/-! ### Keys that stand once -/

section Once
variable [DecidableEq β] {γ : Type*} {key : α → β} {tag : γ → β} {h : β → List γ} {h' : α → List γ}

theorem flatMap_firstsBy {seen ks : List β} (hks : ∀ k ∈ ks, h k = [] ∨ k ∉ seen ∧ ks.count k = 1) :
    (firstsBy id seen ks).flatMap h = ks.flatMap h := by
  induction ks generalizing seen with
  | nil => rfl
  | cons k ks ih =>
    have hrest : ∀ j ∈ ks, h j = [] ∨ j ∉ k :: seen ∧ ks.count j = 1 := by
      intro j hj
      refine (hks j (List.mem_cons_of_mem _ hj)).imp_right fun ⟨hseen, hcount⟩ => ?_
      have hpos : 0 < ks.count j := List.count_pos_iff.mpr hj
      rw [List.count_cons] at hcount
      split at hcount
      · omega
      · next hne => exact ⟨by simpa [hseen] using fun heq => hne (beq_iff_eq.mpr heq.symm), hcount⟩
    rw [firstsBy]
    split
    · next hk =>
      have hnil := (hks k (List.mem_cons_self ..)).resolve_right fun hnot => hnot.1 hk
      rw [List.flatMap_cons, hnil, List.nil_append]
      exact ih fun j hj => (hrest j hj).imp_right fun hj => ⟨fun hmem =>
        hj.1 (List.mem_cons_of_mem _ hmem), hj.2⟩
    · rw [List.flatMap_cons, List.flatMap_cons]
      exact congrArg (h k ++ ·) (ih hrest)

theorem filter_flatMap_tag (htag : ∀ a, ∀ y ∈ h' a, tag y = key a) (xs : List α) (k : β) :
    ((xs.flatMap h').filter fun y => tag y = k) =
      (xs.filter fun a => key a = k).flatMap h' := by
  induction xs with
  | nil => rfl
  | cons a xs ih =>
    rw [List.flatMap_cons, List.filter_append, ih]
    by_cases ha : key a = k
    · have hall : (h' a).filter (fun y => tag y = k) = h' a :=
        List.filter_eq_self.mpr fun y hy => by simpa [htag a y hy] using ha
      rw [List.filter_cons_of_pos (by simpa using ha), List.flatMap_cons, hall]
    · have hnone : (h' a).filter (fun y => tag y = k) = [] :=
        List.filter_eq_nil_iff.mpr fun y hy => by simpa [htag a y hy] using ha
      rw [List.filter_cons_of_neg (by simpa using ha), hnone, List.nil_append]

theorem filter_of_count_eq_one {xs : List α} {a : α} (ha : a ∈ xs)
    (hcount : (xs.map key).count (key a) = 1) : (xs.filter fun b => key b = key a) = [a] := by
  have hlength : (xs.filter fun b => key b = key a).length = 1 := by
    rw [← hcount, List.count, List.countP_map, List.countP_eq_length_filter]
    rfl
  obtain ⟨b, hb⟩ := List.length_eq_one_iff.mp hlength
  have hmem : a ∈ xs.filter fun b => key b = key a := List.mem_filter.mpr ⟨ha, by simp⟩
  rw [hb] at hmem ⊢
  rw [List.mem_singleton.mp hmem]

/-- Where every element says something of its key, and what is said of a key repeats
nothing, the key stands once or nothing is said. -/
theorem once_of_nodup {δ : Type*} {π : γ → δ} {G : β → List δ} {xs : List α} {k : β}
    (hG : ∀ a, (h' a).map π = G (key a)) (hnodup : ((h k).map π).Nodup)
    (hblock : h k = (xs.filter fun a => key a = k).flatMap h') :
    h k = [] ∨ (xs.map key).count k ≤ 1 := by
  have hcount : (xs.map key).count k = (xs.filter fun a => key a = k).length := by
    rw [List.count, List.countP_map, List.countP_eq_length_filter]
    rfl
  have hkey : ∀ a ∈ xs.filter fun a => key a = k, key a = k :=
    fun a ha => by simpa using (List.mem_filter.mp ha).2
  rw [hblock] at hnodup ⊢
  rw [hcount]
  match hfilter : xs.filter fun a => key a = k with
  | [] => exact .inl rfl
  | [a] => exact .inr le_rfl
  | a :: b :: rest =>
    rw [hfilter] at hnodup hkey
    have hsaid : ∀ c ∈ a :: b :: rest, (h' c).map π = G k := fun c hc => by rw [hG, hkey c hc]
    have hnil : G k = [] := by
      rw [List.flatMap_cons, List.flatMap_cons, List.map_append, List.map_append,
        hsaid a (by simp), hsaid b (by simp)] at hnodup
      have hdisjoint := List.disjoint_of_nodup_append hnodup
      exact List.eq_nil_iff_forall_not_mem.mpr fun y hy =>
        hdisjoint hy (List.mem_append_left _ hy)
    refine .inl (List.flatMap_eq_nil_iff.mpr fun c hc => ?_)
    exact List.map_eq_nil_iff.mp ((hsaid c hc).trans hnil)

/-- Said once for each key, or once for each element: the same when for each element it
is the same, and nothing where a key is repeated. -/
theorem flatMap_firstsBy_iff {δ : Type*} (key : α → β) (xs : List α) {h' : α → List γ} {π : γ → δ}
    (G : β → List δ) (htag : ∀ k, ∀ y ∈ h k, tag y = k) (htag' : ∀ a, ∀ y ∈ h' a, tag y = key a)
    (hG : ∀ a, (h' a).map π = G (key a)) (hnodup : ∀ k, ((h k).map π).Nodup) :
    (firstsBy id [] (xs.map key)).flatMap h = xs.flatMap h' ↔
      ∀ a ∈ xs, h (key a) = h' a ∧ (h (key a) = [] ∨ (xs.map key).count (key a) = 1) := by
  constructor
  · intro heq a ha
    have hpos : 0 < (xs.map key).count (key a) :=
      List.count_pos_iff.mpr (List.mem_map_of_mem ha)
    have hblock : h (key a) = (xs.filter fun b => key b = key a).flatMap h' := by
      have hfirst : key a ∈ firstsBy id [] (xs.map key) :=
        mem_firstsBy_id.mpr ⟨List.mem_map_of_mem ha, List.not_mem_nil⟩
      have hone : ((firstsBy id [] (xs.map key)).filter fun k => k = key a) = [key a] :=
        filter_unique (f := id) (nodup_firstsBy (xs.map key)) hfirst
      have hkeys : (((firstsBy id [] (xs.map key)).flatMap h).filter fun y => tag y = key a) =
          ((firstsBy id [] (xs.map key)).filter fun k => k = key a).flatMap h :=
        filter_flatMap_tag htag _ (key a)
      rw [← filter_flatMap_tag htag', ← heq, hkeys, hone, List.flatMap_singleton]
    rcases once_of_nodup hG (hnodup _) hblock with hnil | hcount
    · have hmem : a ∈ xs.filter fun b => key b = key a := List.mem_filter.mpr ⟨ha, by simp⟩
      rw [hnil] at hblock
      exact ⟨hnil.trans (List.flatMap_eq_nil_iff.mp hblock.symm a hmem).symm, .inl hnil⟩
    · have hcount : (xs.map key).count (key a) = 1 := by omega
      rw [filter_of_count_eq_one ha hcount, List.flatMap_singleton] at hblock
      exact ⟨hblock, .inr hcount⟩
  · intro hall
    have hmap : xs.flatMap h' = (xs.map key).flatMap h := by
      rw [List.flatMap_map]
      exact List.flatMap_congr fun a ha => (hall a ha).1.symm
    rw [hmap]
    refine flatMap_firstsBy fun k hk => ?_
    obtain ⟨a, ha, rfl⟩ := List.mem_map.mp hk
    exact (hall a ha).2.imp_right fun hcount => ⟨List.not_mem_nil, hcount⟩

end Once

/-- Fronts of one kind and tails of another are told apart. -/
theorem append_inj_of_kind {xs xs' ys ys' : List α} (hxs : ∀ x ∈ xs, p x = true)
    (hxs' : ∀ x ∈ xs', p x = true) (hys : ∀ y ∈ ys, p y = false)
    (hys' : ∀ y ∈ ys', p y = false) : xs ++ ys = xs' ++ ys' ↔ xs = xs' ∧ ys = ys' := by
  constructor
  · intro h
    have hfront : ∀ {zs ws : List α}, (∀ z ∈ zs, p z = true) → (∀ w ∈ ws, p w = false) →
        (zs ++ ws).filter p = zs := by
      intro zs ws hzs hws
      rw [List.filter_append, List.filter_eq_self.mpr hzs,
        List.filter_eq_nil_iff.mpr fun w hw => by simp [hws w hw], List.append_nil]
    have heq : xs = xs' := by rw [← hfront hxs hys, h, hfront hxs' hys']
    exact ⟨heq, List.append_cancel_left (heq ▸ h)⟩
  · rintro ⟨rfl, rfl⟩
    rfl

/-- A separator that stands in neither tail says where both begin. -/
theorem append_cons_cancel {xs xs' ys ys' : List α} (hys : x ∉ ys) (hys' : x ∉ ys')
    (h : xs ++ x :: ys = xs' ++ x :: ys') : xs = xs' ∧ ys = ys' := by
  rcases List.append_eq_append_iff.mp h with ⟨as, rfl, heq⟩ | ⟨as, rfl, heq⟩
  · cases as with
    | nil => exact ⟨(List.append_nil xs).symm, (List.cons.inj heq).2⟩
    | cons a as =>
      have hmem : x ∈ ys := by
        rw [(List.cons.inj heq).2]
        simp
      exact absurd hmem hys
  · cases as with
    | nil => exact ⟨List.append_nil xs', (List.cons.inj heq).2.symm⟩
    | cons a as =>
      have hmem : x ∈ ys' := by
        rw [(List.cons.inj heq).2]
        simp
      exact absurd hmem hys'

/-- Of three entries those whose conditions hold. -/
theorem ite_sublist (p q r : Prop) [Decidable p] [Decidable q] [Decidable r] (x y z : α) :
    ((if p then [x] else []) ++ (if q then [y] else []) ++ (if r then [z] else [])).Sublist
      [x, y, z] := by
  have hone : ∀ (c : Prop) [Decidable c] (a : α), (if c then [a] else []).Sublist [a] := by
    intro c _ a
    split
    · exact .refl _
    · exact List.nil_sublist _
  exact ((hone p x).append (hone q y)).append (hone r z)

section Related
variable {R : α → β → Prop} {xs : List α} {ys : List β}

theorem exists_left (h : List.Forall₂ R xs ys) {y : β} (hy : y ∈ ys) : ∃ x ∈ xs, R x y := by
  induction h with
  | nil => cases hy
  | @cons x y' xs ys hxy _ ih =>
    rcases List.mem_cons.mp hy with rfl | hy
    · exact ⟨x, List.mem_cons_self .., hxy⟩
    · obtain ⟨x', hx', hxy'⟩ := ih hy
      exact ⟨x', List.mem_cons_of_mem _ hx', hxy'⟩

theorem exists_right (h : List.Forall₂ R xs ys) (hx : x ∈ xs) : ∃ y ∈ ys, R x y :=
  exists_left h.flip hx

theorem forall₂_comp {γ : Type*} {S : β → γ → Prop} {zs : List γ} (h : List.Forall₂ R xs ys)
    (h' : List.Forall₂ S ys zs) : List.Forall₂ (fun x z => ∃ y, R x y ∧ S y z) xs zs := by
  induction h generalizing zs with
  | nil =>
    cases h'
    exact .nil
  | cons hxy _ ih =>
    obtain ⟨z, zs, hyz, hrest, rfl⟩ := List.forall₂_cons_left_iff.mp h'
    exact .cons ⟨_, hxy, hyz⟩ (ih hrest)

/-- What related elements say alike, the lists say alike. -/
theorem map_eq_of_forall₂ {γ : Type*} {f : α → γ} {g : β → γ} (h : List.Forall₂ R xs ys)
    (hfg : ∀ x y, R x y → f x = g y) : xs.map f = ys.map g := by
  induction h with
  | nil => rfl
  | cons hxy _ ih => rw [List.map_cons, List.map_cons, ih, hfg _ _ hxy]

theorem forall₂_imp_of_mem {S : α → β → Prop} (h : List.Forall₂ R xs ys)
    (hRS : ∀ x ∈ xs, ∀ y, R x y → S x y) : List.Forall₂ S xs ys := by
  induction h with
  | nil => exact .nil
  | cons hxy _ ih =>
    obtain ⟨hx, hxs⟩ := List.forall_mem_cons.mp hRS
    exact .cons (hx _ hxy) (ih hxs)

/-- Predicates that agree on related elements. -/
theorem forall_iff_of_forall₂ {q : β → Bool} (h : List.Forall₂ R xs ys)
    (hpq : ∀ x ∈ xs, ∀ y, R x y → q y = p x) :
    (∀ y ∈ ys, q y = true) ↔ ∀ x ∈ xs, p x = true := by
  induction h with
  | nil => exact iff_of_true (List.forall_mem_nil _) (List.forall_mem_nil _)
  | cons hxy _ ih =>
    obtain ⟨hx, hxs⟩ := List.forall_mem_cons.mp hpq
    rw [List.forall_mem_cons, List.forall_mem_cons, hx _ hxy, ih hxs]

theorem forall₂_snoc {y : β} :
    List.Forall₂ R (xs ++ [x]) (ys ++ [y]) ↔ List.Forall₂ R xs ys ∧ R x y := by
  rw [← List.forall₂_reverse_iff, List.reverse_append, List.reverse_append, List.reverse_singleton,
    List.reverse_singleton, List.singleton_append, List.singleton_append, List.forall₂_cons,
    List.forall₂_reverse_iff, and_comm]

end Related

/-- Lists related item by item to two others are related as these are. -/
theorem forall₂_iff_of_forall₂ {R : α → β → Prop} {S : α → α → Prop}
    {T : β → β → Prop} (hiff : ∀ a b a' b', R a b → R a' b' → (S a a' ↔ T b b'))
    {as as' : List α} {bs bs' : List β} (h : List.Forall₂ R as bs) (h' : List.Forall₂ R as' bs') :
    List.Forall₂ S as as' ↔ List.Forall₂ T bs bs' := by
  induction h generalizing as' bs' with
  | nil => cases h' <;> simp
  | @cons a b as bs hab _ ih =>
    cases h' with
    | nil => simp
    | cons hab' h' => rw [List.forall₂_cons, List.forall₂_cons, hiff _ _ _ _ hab hab', ih h']

theorem mapM_eq_map {f : α → Option β} {g : α → β} {xs : List α}
    (h : ∀ x ∈ xs, f x = some (g x)) : xs.mapM f = some (xs.map g) := by
  induction xs with
  | nil => rfl
  | cons x xs ih =>
    obtain ⟨hx, hxs⟩ := List.forall_mem_cons.mp h
    rw [List.mapM_cons, hx, ih hxs]
    rfl

theorem isSome_mapM {f : α → Option β} {xs : List α} :
    (xs.mapM f).isSome = true ↔ ∀ x ∈ xs, (f x).isSome = true := by
  induction xs with
  | nil => simp
  | cons x xs ih =>
    rw [List.mapM_cons, List.forall_mem_cons, ← ih]
    cases f x with
    | none => simp
    | some y => cases xs.mapM f <;> simp

/-- Where every element has an image. -/
theorem mapM_eq_filterMap {f : α → Option β} {xs : List α}
    (h : ∀ x ∈ xs, ∃ y, f x = some y) : xs.mapM f = some (xs.filterMap f) := by
  induction xs with
  | nil => rfl
  | cons x xs ih =>
    obtain ⟨hx, hxs⟩ := List.forall_mem_cons.mp h
    obtain ⟨y, hy⟩ := hx
    rw [List.mapM_cons, hy, ih hxs, List.filterMap_cons_some hy]
    rfl

theorem mapM_ok {α β ε : Type*} {f : α → Except ε β} {g : α → β} {xs : List α}
    (h : ∀ x ∈ xs, f x = .ok (g x)) : xs.mapM f = .ok (xs.map g) := by
  induction xs with
  | nil => rfl
  | cons x xs ih =>
    obtain ⟨hx, hxs⟩ := List.forall_mem_cons.mp h
    rw [List.mapM_cons, hx, ih hxs]
    rfl

theorem exists_of_mapM {f : α → Option β} {xs : List α} {ys : List β}
    (h : xs.mapM f = some ys) {y : β} (hy : y ∈ ys) : ∃ x ∈ xs, f x = some y := by
  have hsome : ∀ x ∈ xs, (f x).isSome = true := isSome_mapM.mp (Option.isSome_of_eq_some h)
  rw [mapM_eq_filterMap fun x hx => Option.isSome_iff_exists.mp (hsome x hx)] at h
  cases h
  exact List.mem_filterMap.mp hy

section Bind
variable {ε : Type*} {α β : Type u} {x : Except ε α} {f : α → Except ε β}

theorem bind_ok {b : β} (h : (x >>= f) = .ok b) : ∃ a, x = .ok a ∧ f a = .ok b := by
  cases x with
  | error e => cases h
  | ok a => exact ⟨a, rfl, h⟩

theorem bind_error {e : ε} (h : (x >>= f) = .error e) :
    x = .error e ∨ ∃ a, x = .ok a ∧ f a = .error e := by
  cases x with
  | error e' => exact .inl (congrArg Except.error (Except.error.inj h))
  | ok a => exact .inr ⟨a, rfl, h⟩

end Bind

section Except
variable {ε α : Type*} {β γ : Type u} {f : α → Except ε (List β)} {g : α → Except ε β} {xs : List α}

/-- Nothing comes of a list exactly if nothing comes of any element. -/
theorem mapM_flatten_eq_nil_iff (xs : List α) :
    (xs.mapM f).map List.flatten = .ok [] ↔ ∀ x ∈ xs, f x = .ok [] := by
  induction xs with
  | nil => exact iff_of_true rfl (List.forall_mem_nil _)
  | cons x xs ih =>
    rw [List.mapM_cons, List.forall_mem_cons, ← ih]
    cases f x with
    | error e => exact iff_of_false (fun h => by cases h) fun h => by cases h.1
    | ok ys =>
      cases xs.mapM f with
      | error e => exact iff_of_false (fun h => by cases h) fun h => by cases h.2
      | ok yss =>
        show Except.ok (ys ++ yss.flatten) = Except.ok [] ↔ Except.ok ys = _ ∧ Except.ok _ = _
        rw [Except.ok.injEq, Except.ok.injEq, Except.ok.injEq, List.append_eq_nil_iff]

theorem mapM_eq_ok_iff {ys : List β} :
    xs.mapM g = .ok ys ↔ List.Forall₂ (fun x y => g x = .ok y) xs ys := by
  induction xs generalizing ys with
  | nil =>
    rw [List.forall₂_nil_left_iff]
    exact Except.ok.injEq [] ys ▸ eq_comm
  | cons x xs ih =>
    rw [List.mapM_cons, List.forall₂_cons_left_iff]
    constructor
    · intro h
      obtain ⟨y, hy, h⟩ := bind_ok h
      obtain ⟨zs, hzs, h⟩ := bind_ok h
      cases h
      exact ⟨y, zs, hy, ih.mp hzs, rfl⟩
    · rintro ⟨y, zs, hy, hzs, rfl⟩
      rw [hy, ih.mpr hzs]
      rfl

/-- A list fails with an element. -/
theorem exists_of_mapM_error {e : ε} (h : xs.mapM g = .error e) : ∃ x ∈ xs, g x = .error e := by
  induction xs with
  | nil => cases h
  | cons x xs ih =>
    rw [List.mapM_cons] at h
    rcases bind_error h with hx | ⟨y, -, h⟩
    · exact ⟨x, List.mem_cons_self .., hx⟩
    · rcases bind_error h with hxs | ⟨ys, -, h⟩
      · obtain ⟨x', hx', herror⟩ := ih hxs
        exact ⟨x', List.mem_cons_of_mem _ hx', herror⟩
      · cases h

theorem exists_mapM {R : α → β → Prop} (h : ∀ x ∈ xs, ∃ y, g x = .ok y ∧ R x y) :
    ∃ ys, xs.mapM g = .ok ys ∧ List.Forall₂ R xs ys := by
  induction xs with
  | nil => exact ⟨[], rfl, .nil⟩
  | cons x xs ih =>
    obtain ⟨⟨y, hy, hxy⟩, hxs⟩ := List.forall_mem_cons.mp h
    obtain ⟨ys, hys, hall⟩ := ih hxs
    refine ⟨y :: ys, ?_, .cons hxy hall⟩
    rw [List.mapM_cons, hy, hys]
    rfl

section Values
variable {K V W ε : Type} {g : V → Except ε W} {items : List (K × V)}

/-- Items whose values are taken through a function, under their keys. -/
theorem mapM_values_ok_iff {ws : List (K × W)} :
    (items.mapM fun p => (p.1, ·) <$> g p.2) = .ok ws ↔
      List.Forall₂ (fun p q => p.1 = q.1 ∧ g p.2 = .ok q.2) items ws := by
  rw [mapM_eq_ok_iff]
  refine iff_of_eq (congrArg (List.Forall₂ · items ws) (funext₂ fun p q => propext ?_))
  cases hg : g p.2 with
  | error e => exact iff_of_false (fun h => nomatch h) fun h => nomatch h.2
  | ok w =>
    show Except.ok (p.1, w) = .ok q ↔ _
    rw [Except.ok.injEq, Except.ok.injEq]
    exact Prod.ext_iff

theorem exists_of_mapM_values_error {e : ε}
    (h : (items.mapM fun p => (p.1, ·) <$> g p.2) = .error e) : ∃ p ∈ items, g p.2 = .error e := by
  obtain ⟨p, hp, herror⟩ := exists_of_mapM_error h
  refine ⟨p, hp, ?_⟩
  cases hg : g p.2 with
  | error e' =>
    rw [hg] at herror
    cases herror
    rfl
  | ok w =>
    rw [hg] at herror
    cases herror

theorem exists_mapM_values {R : V → W → Prop} (h : ∀ p ∈ items, ∃ w, g p.2 = .ok w ∧ R p.2 w) :
    ∃ ws, (items.mapM fun p => (p.1, ·) <$> g p.2) = .ok ws ∧
      List.Forall₂ (fun p q => p.1 = q.1 ∧ R p.2 q.2) items ws := by
  refine exists_mapM fun p hp => ?_
  obtain ⟨w, hw, hR⟩ := h p hp
  exact ⟨(p.1, w), by rw [hw]; rfl, rfl, hR⟩

end Values

/-- What each element makes is related to what another function makes of it. -/
theorem forall₂_mapM {g : α → Except ε γ} {h : α → Except ε β} {r : β → γ → Prop}
    {ys : List β} (hxs : ∀ x ∈ xs, ∀ y, h x = .ok y → ∃ z, g x = .ok z ∧ r y z)
    (hys : xs.mapM h = .ok ys) : ∃ zs, xs.mapM g = .ok zs ∧ List.Forall₂ r ys zs := by
  induction mapM_eq_ok_iff.mp hys with
  | nil => exact ⟨[], rfl, .nil⟩
  | cons hy hrest ih =>
    obtain ⟨hx, hxs⟩ := List.forall_mem_cons.mp hxs
    obtain ⟨z, hz, hr⟩ := hx _ hy
    obtain ⟨zs, hzs, hrs⟩ := ih hxs (mapM_eq_ok_iff.mpr hrest)
    refine ⟨z :: zs, ?_, .cons hr hrs⟩
    rw [List.mapM_cons, hz, hzs]
    rfl

end Except

end PiPlatform.Library
