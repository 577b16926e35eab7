import PiPlatform.Library.Python.Split

/-! Python's `re.sub` for patterns that do not match the empty text.

A pattern is a function from the character before a place and the text behind it to the
replacement and the length of the match. A character that stands in no match is kept
(`mem_substituteFrom`). -/
namespace PiPlatform.Library.Python

open Json

abbrev Pattern := Option CodePoint → Text → Option (Text × Nat)

/-- `skip` characters of the last match are still to come. -/
def substituteFrom (pattern : Pattern) (prev : Option CodePoint) : (skip : Nat) → Text → Text
  | _, [] => []
  | skip + 1, c :: rest => substituteFrom pattern (some c) skip rest
  | 0, c :: rest =>
    match pattern prev (c :: rest) with
    | none => c :: substituteFrom pattern (some c) 0 rest
    | some (replacement, length) =>
      replacement ++ substituteFrom pattern (some c) (length - 1) rest

def substitute (pattern : Pattern) (s : Text) : Text := substituteFrom pattern none 0 s

/-- What `re.IGNORECASE` takes for the same as a small letter. -/
def foldCase (c : CodePoint) : CodePoint :=
  if 65 ≤ c.val ∧ c.val ≤ 90 then c + 32
  else if c.val = 0x130 ∨ c.val = 0x131 then 105
  else if c.val = 0x17F then 115
  else if c.val = 0x212A then 107
  else c

/-- Small letters in any case. -/
def sameLetters (s letters : Text) : Bool := s.map foldCase = letters

/-- Where only one element can be the answer, it is. -/
theorem findSome?_eq_of_unique {α β : Type} {f : α → Option β} {x : α} {xs : List α} (hx : x ∈ xs)
    (h : ∀ y ∈ xs, y ≠ x → f y = none) : xs.findSome? f = f x := by
  induction xs with
  | nil => exact absurd hx List.not_mem_nil
  | cons y ys ih =>
    obtain ⟨hy, hys⟩ := List.forall_mem_cons.mp h
    rw [List.findSome?_cons]
    by_cases heq : y = x
    · subst heq
      cases hfy : f y with
      | some z => rfl
      | none =>
        refine List.findSome?_eq_none_iff.mpr fun z hz => ?_
        by_cases hzy : z = y
        · rw [hzy, hfy]
        · exact hys z hz hzy
    · rw [hy heq]
      exact ih ((List.mem_cons.mp hx).resolve_left fun h => heq h.symm) hys

variable {pattern : Pattern} {prev : Option CodePoint} {s rest : Text} {c : CodePoint}

theorem substituteFrom_none (h : pattern prev (c :: rest) = none) :
    substituteFrom pattern prev 0 (c :: rest) = c :: substituteFrom pattern (some c) 0 rest := by
  rw [substituteFrom, h]

/-- A match is replaced as a whole. -/
theorem substituteFrom_some {replacement word : Text}
    (h : pattern prev (c :: word ++ rest) = some (replacement, word.length + 1)) :
    substituteFrom pattern prev 0 (c :: word ++ rest) =
      replacement ++ substituteFrom pattern (some (word.getLast?.getD c)) 0 rest := by
  rw [List.cons_append] at h
  rw [List.cons_append, substituteFrom, h]
  dsimp only
  rw [Nat.add_sub_cancel]
  refine congrArg (replacement ++ ·) ?_
  clear h
  induction word generalizing c with
  | nil => rfl
  | cons d word ih =>
    rw [List.length_cons, List.cons_append, substituteFrom, ih]
    cases word with
    | nil => rfl
    | cons e word => rw [List.getLast?_cons_cons]; rfl

/-- Without a match nothing changes. -/
theorem substituteFrom_eq (h : ∀ tail, tail <:+ s → ∀ prev, pattern prev tail = none) :
    substituteFrom pattern prev 0 s = s := by
  induction s generalizing prev with
  | nil => rfl
  | cons c rest ih =>
    rw [substituteFrom_none (h _ (List.suffix_refl _) prev)]
    rw [ih fun tail htail => h tail (htail.trans (List.suffix_cons c rest))]

/-- What no match holds is kept. -/
theorem mem_substituteFrom {d : CodePoint} {skip : Nat}
    (h : ∀ prev tail replacement length, pattern prev tail = some (replacement, length) →
      0 < length ∧ d ∉ tail.take length)
    (hs : d ∈ s.drop skip) : d ∈ substituteFrom pattern prev skip s := by
  induction s generalizing prev skip with
  | nil => simp at hs
  | cons c rest ih =>
    cases skip with
    | succ skip => exact ih hs
    | zero =>
      rw [List.drop_zero] at hs
      rw [substituteFrom]
      split
      · rcases List.mem_cons.mp hs with rfl | hs
        · exact List.mem_cons_self ..
        · exact List.mem_cons_of_mem _ (ih hs)
      · rename_i replacement length hmatch
        obtain ⟨hpos, hnot⟩ := h _ _ _ _ hmatch
        refine List.mem_append_right _ (ih ?_)
        rw [← List.take_append_drop length (c :: rest)] at hs
        have hdrop := (List.mem_append.mp hs).resolve_left hnot
        obtain ⟨n, rfl⟩ := Nat.exists_eq_succ_of_ne_zero hpos.ne'
        exact hdrop

/-- Something of the replacement of every match is in the result. -/
theorem exists_mem_substituteFrom {d : CodePoint} {tail : Text}
    (h : ∀ prev tail replacement length, pattern prev tail = some (replacement, length) →
      d ∈ replacement)
    (hnil : ∀ prev, pattern prev [] = none) (htail : tail <:+ s)
    (hmatch : ∀ prev, pattern prev tail ≠ none) :
    d ∈ substituteFrom pattern prev 0 s := by
  induction s generalizing prev with
  | nil =>
    obtain rfl := List.suffix_nil.mp htail
    exact absurd (hnil prev) (hmatch prev)
  | cons c rest ih =>
    rw [substituteFrom]
    split
    · rename_i hnone
      rcases List.suffix_cons_iff.mp htail with rfl | htail
      · exact absurd hnone (hmatch prev)
      · exact List.mem_cons_of_mem _ (ih htail)
    · rename_i replacement length hsome
      exact List.mem_append_left _ (h _ _ _ _ hsome)

end PiPlatform.Library.Python
