import Mathlib.Data.List.Basic

/-! Fields joined by a separator.

Joining forgets where a field ends: the pieces of a joined text are those of its
fields, one after another. `framed` joins two free fields, a tag of a known kind and
a free rest, and `framed_unique_iff` says for which fields the text can be read in
only one way: no separator in the first two, and in the rest no piece but the last
that could be a tag. -/
namespace PiPlatform.Library

variable {α : Type*} [DecidableEq α] {c : α}

theorem splitOn_injective (c : α) : Function.Injective fun xs : List α => xs.splitOn c := by
  intro xs ys h
  have hjoin := congrArg ([c].intercalate ·) h
  simpa only [List.intercalate_splitOn] using hjoin

/-- Two texts that a separator divides for the first time are divided alike. -/
theorem append_separator_inj {a a' b b' : List α} (ha : c ∉ a) (ha' : c ∉ a')
    (h : a ++ c :: b = a' ++ c :: b') : a = a' ∧ b = b' := by
  have hsplit := congrArg (List.splitOn c) h
  rw [List.splitOn_append_cons_self_of_not_mem ha,
    List.splitOn_append_cons_self_of_not_mem ha'] at hsplit
  obtain ⟨hfirst, hsecond⟩ := List.cons.inj hsplit
  exact ⟨hfirst, splitOn_injective c hsecond⟩

omit [DecidableEq α] in
theorem intercalate_append {xs ys : List (List α)} (hxs : xs ≠ []) (hys : ys ≠ []) :
    [c].intercalate (xs ++ ys) = [c].intercalate xs ++ c :: [c].intercalate ys := by
  induction xs with
  | nil => exact absurd rfl hxs
  | cons x xs ih =>
    by_cases hnil : xs = []
    · subst hnil
      simp [List.intercalate_cons_of_ne_nil hys]
    · rw [List.cons_append, List.intercalate_cons_of_ne_nil (by simp [hnil]), ih hnil,
        List.intercalate_cons_of_ne_nil hnil]
      simp

/-- Two free fields, a tag and a free rest. -/
def framed (c : α) (a b tag rest : List α) : List α := a ++ c :: (b ++ c :: (tag ++ c :: rest))

theorem splitOn_framed {a b tag rest : List α} (htag : c ∉ tag) :
    (framed c a b tag rest).splitOn c =
      a.splitOn c ++ (b.splitOn c ++ tag :: rest.splitOn c) := by
  rw [framed, List.splitOn_append_cons_self, List.splitOn_append_cons_self,
    List.splitOn_append_cons_self_of_not_mem htag]

/-- A field free of separators is the only one with its single piece. -/
theorem eq_of_splitOn {a a' : List α} (ha : c ∉ a) (h : a'.splitOn c = [a]) : a = a' :=
  splitOn_injective c ((List.splitOn_eq_singleton ha).trans h.symm)

/-- A frame whose first two fields are free of separators is read as it was written,
unless a tag is taken from its rest. -/
theorem framed_inj {IsTag : List α → Prop} (hkind : ∀ tag, IsTag tag → c ∉ tag)
    {a b tag rest a' b' tag' rest' : List α} (htag : IsTag tag) (htag' : IsTag tag')
    (ha : c ∉ a) (hb : c ∉ b) (hrest : ∀ piece ∈ (rest.splitOn c).dropLast, ¬ IsTag piece)
    (h : framed c a b tag rest = framed c a' b' tag' rest') :
    a = a' ∧ b = b' ∧ tag = tag' ∧ rest = rest' := by
  have hpieces : a :: b :: tag :: rest.splitOn c =
      a'.splitOn c ++ (b'.splitOn c ++ tag' :: rest'.splitOn c) := by
    rw [← splitOn_framed (hkind tag' htag'), ← h, splitOn_framed (hkind tag htag),
      List.splitOn_eq_singleton ha, List.splitOn_eq_singleton hb]
    rfl
  obtain ⟨p, ps, hp⟩ := List.exists_cons_of_ne_nil (List.splitOn_ne_nil c a')
  obtain ⟨q, qs, hq⟩ := List.exists_cons_of_ne_nil (List.splitOn_ne_nil c b')
  rw [hp, hq] at hpieces
  -- with a piece more than two in front, the other tag lies in the rest
  have hlater : ∀ more, rest.splitOn c ≠ more ++ tag' :: rest'.splitOn c := by
    intro more hmore
    refine hrest tag' ?_ htag'
    rw [hmore, List.dropLast_append_of_ne_nil (by simp),
      List.dropLast_cons_of_ne_nil (List.splitOn_ne_nil c rest')]
    simp
  cases ps with
  | cons p' ps =>
    cases ps with
    | nil =>
      obtain ⟨-, -, -, hmore⟩ := by simpa using hpieces
      exact absurd hmore (hlater qs)
    | cons p'' ps =>
      obtain ⟨-, -, -, hmore⟩ := by simpa using hpieces
      exact absurd (by simpa using hmore) (hlater (ps ++ q :: qs))
  | nil =>
    cases qs with
    | cons q' qs =>
      obtain ⟨-, -, -, hmore⟩ := by simpa using hpieces
      exact absurd hmore (hlater qs)
    | nil =>
      simp only [List.cons_append, List.nil_append, List.cons.injEq] at hpieces
      obtain ⟨rfl, rfl, rfl, hsplit⟩ := hpieces
      exact ⟨eq_of_splitOn ha hp, eq_of_splitOn hb hq, rfl, splitOn_injective c hsplit⟩

/-- A piece that is not the last stands before a separator, at the front or behind one. -/
theorem exists_of_piece {xs piece : List α} (h : piece ∈ (xs.splitOn c).dropLast) :
    ∃ behind, xs = piece ++ c :: behind ∨ ∃ before, xs = before ++ c :: (piece ++ c :: behind) := by
  obtain ⟨ps, qs, hsplit⟩ := List.append_of_mem h
  have hne := List.splitOn_ne_nil c xs
  have hpieces : xs.splitOn c = ps ++ ([piece] ++ (qs ++ [(xs.splitOn c).getLast hne])) := by
    conv_lhs => rw [← List.dropLast_append_getLast hne, hsplit]
    simp
  have hxs : [c].intercalate (xs.splitOn c) = xs := List.intercalate_splitOn c
  rw [hpieces] at hxs
  have htail : [c].intercalate ([piece] ++ (qs ++ [(xs.splitOn c).getLast hne])) =
      piece ++ c :: [c].intercalate (qs ++ [(xs.splitOn c).getLast hne]) := by
    rw [intercalate_append (by simp) (by simp), List.intercalate_singleton]
  refine ⟨[c].intercalate (qs ++ [(xs.splitOn c).getLast hne]), ?_⟩
  cases ps with
  | nil =>
    rw [List.nil_append, htail] at hxs
    exact .inl hxs.symm
  | cons p ps =>
    rw [intercalate_append (by simp) (by simp), htail] at hxs
    exact .inr ⟨[c].intercalate (p :: ps), hxs.symm⟩

/-- The text of a frame determines its fields exactly when neither of the first two holds
a separator and no piece of the rest but the last could be the tag. -/
theorem framed_unique_iff {IsTag : List α → Prop} (hkind : ∀ tag, IsTag tag → c ∉ tag)
    {a b tag rest : List α} (htag : IsTag tag) :
    (∀ a' b' tag' rest', IsTag tag' → framed c a b tag rest = framed c a' b' tag' rest' →
      a = a' ∧ b = b' ∧ tag = tag' ∧ rest = rest') ↔
    c ∉ a ∧ c ∉ b ∧ ∀ piece ∈ (rest.splitOn c).dropLast, ¬ IsTag piece := by
  constructor
  · intro h
    refine ⟨fun ha => ?_, fun hb => ?_, fun piece hpiece htag' => ?_⟩
    · -- the second field may begin at a separator of the first
      obtain ⟨xs, ys, rfl⟩ := List.append_of_mem ha
      have heq := (h xs (ys ++ c :: b) tag rest htag (by simp [framed])).1
      simpa using congrArg List.length heq
    · -- or the first may end at one of the second
      obtain ⟨xs, ys, rfl⟩ := List.append_of_mem hb
      have heq := (h (a ++ c :: xs) ys tag rest htag (by simp [framed])).1
      simpa using congrArg List.length heq
    · -- or the second may run over the tag up to a later one
      obtain ⟨behind, rfl | ⟨before, rfl⟩⟩ := exists_of_piece hpiece
      · have heq := (h a (b ++ c :: tag) piece behind htag' (by simp [framed])).2.1
        simpa using congrArg List.length heq
      · have heq := (h a (b ++ c :: (tag ++ c :: before)) piece behind htag'
          (by simp [framed])).2.1
        simpa using congrArg List.length heq
  · rintro ⟨ha, hb, hrest⟩ a' b' tag' rest' htag' heq
    exact framed_inj hkind htag htag' ha hb hrest heq

end PiPlatform.Library
