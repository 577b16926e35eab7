import PiPlatform.Library.Json.Text
import Mathlib.Data.List.Infix
import Mathlib.Data.Nat.Find

/-! Endpoint patterns.

A star that meets a star of the value takes it as a letter, and the loop does not remember it. So
what it accepts is what is found letter by letter up to a star that meets another character, and
from there on at the first place that does not break off (`Placed`), not all that the pattern
means (`means_iff`). Only stars that meet do harm (`means_all_iff`). -/
namespace PiPlatform.SemanticValidator.Patterns

open Library.Json (CodePoint Text ofChar ofString)

def star : CodePoint := ofChar '*'

def mark : CodePoint := ofChar '?'

/-- `star_idx` is -1 before the first star. -/
structure Scan where
  pi : Nat
  vi : Nat
  starIdx : Option Nat
  matchIdx : Nat

section Model
variable (value pattern : Text)

/-- One turn of the loop, or what comes behind it. -/
def turn (s : Scan) : Scan ⊕ Bool :=
  if s.vi < value.length then
    if s.pi < pattern.length ∧
        (pattern[s.pi]? = some mark ∨ pattern[s.pi]? = value[s.vi]?) then
      .inl { s with vi := s.vi + 1, pi := s.pi + 1 }
    else if s.pi < pattern.length ∧ pattern[s.pi]? = some star then
      .inl { s with starIdx := some s.pi, matchIdx := s.vi, pi := s.pi + 1 }
    else
      match s.starIdx with
      | some starIdx =>
        .inl { s with pi := starIdx + 1, matchIdx := s.matchIdx + 1, vi := s.matchIdx + 1 }
      | none => .inr false
  else .inr ((pattern.drop s.pi).all (· = star))

def globLoop : Nat → Scan → Option Bool
  | 0, _ => none
  | fuel + 1, s =>
    match turn value pattern s with
    | .inl next => globLoop fuel next
    | .inr result => some result

/-- Without enough fuel there is no result. -/
def globMatch (fuel : Nat) : Option Bool :=
  if pattern = [star] then some true
  else if pattern = value then some true
  else globLoop value pattern fuel ⟨0, 0, none, 0⟩

end Model

/-! ### What a pattern means -/

/-- Each star is replaced by some string and each mark by one character. -/
inductive Obtained : Text → Text → Prop
  | nil : Obtained [] []
  | star (w : Text) {pattern value : Text} (rest : Obtained pattern value) :
      Obtained (star :: pattern) (w ++ value)
  | mark (c : CodePoint) {pattern value : Text} (rest : Obtained pattern value) :
      Obtained (mark :: pattern) (c :: value)
  | letter {a : CodePoint} (not_star : a ≠ Patterns.star) (not_mark : a ≠ Patterns.mark)
      {pattern value : Text} (rest : Obtained pattern value) : Obtained (a :: pattern) (a :: value)

/-- The loop ends, with what the pattern means. -/
def Means (value pattern : Text) : Prop :=
  ∃ fuel result, globMatch value pattern fuel = some result ∧
    (result = true ↔ Obtained pattern value)

/-- Letter by letter, a star for a star, to the end of the value or to a star that meets another
character. -/
def reach : Text → Text → Option (Text × Text)
  | pattern, [] => some (pattern, [])
  | [], _ :: _ => none
  | a :: pattern, c :: value =>
    if a = mark ∨ a = c then reach pattern value
    else if a = star then some (a :: pattern, c :: value)
    else none

/-- Letter by letter the pattern reaches the end of the value with only stars left, or a star
behind which the rest is placed at the first character where it does not break off. -/
inductive Placed : Text → Text → Prop
  | ends {pattern value stars : Text} (reached : reach pattern value = some (stars, []))
      (only : ∀ a ∈ stars, a = star) : Placed pattern value
  | opens {pattern value rest : Text} {c : CodePoint} {left : Text} (k : Nat)
      (reached : reach pattern value = some (star :: rest, c :: left))
      (breaks : ∀ j < k, reach rest ((c :: left).drop j) = none)
      (placed : Placed rest ((c :: left).drop k)) : Placed pattern value

/-! ### Reaching -/

section Reach
variable {pattern value rest left : Text} {a c : CodePoint}

@[simp] theorem reach_end : reach pattern [] = some (pattern, []) := by
  cases pattern <;> rfl

theorem reach_letter (h : a = mark ∨ a = c) :
    reach (a :: pattern) (c :: value) = reach pattern value := by
  rw [reach, if_pos h]

theorem reach_star (h : star ≠ c) :
    reach (star :: pattern) (c :: value) = some (star :: pattern, c :: value) := by
  rw [reach, if_neg (not_or.mpr ⟨by decide, h⟩), if_pos rfl]

theorem reach_break (h : ¬ (a = mark ∨ a = c)) (hstar : a ≠ star) :
    reach (a :: pattern) (c :: value) = none := by
  rw [reach, if_neg h, if_neg hstar]

/-- The rest is placed behind a star. -/
def Sought (rest left : Text) : Prop :=
  ∃ k, (∀ j < k, reach rest (left.drop j) = none) ∧ Placed rest (left.drop k)

theorem placed_ends (h : reach pattern value = some (rest, [])) :
    Placed pattern value ↔ ∀ a ∈ rest, a = star := by
  constructor
  · intro hplaced
    cases hplaced with
    | ends reached only =>
      rw [h, Option.some_inj, Prod.mk.injEq] at reached
      rwa [reached.1]
    | opens k reached _ _ =>
      rw [h] at reached
      cases reached
  · exact .ends h

theorem placed_opens (h : reach pattern value = some (star :: rest, c :: left)) :
    Placed pattern value ↔ Sought rest (c :: left) := by
  constructor
  · intro hplaced
    cases hplaced with
    | ends reached _ =>
      rw [h] at reached
      cases reached
    | opens k reached breaks placed =>
      rw [h] at reached
      cases reached
      exact ⟨k, breaks, placed⟩
  · rintro ⟨k, breaks, placed⟩
    exact .opens k h breaks placed

theorem Placed.reaches (h : Placed pattern value) : reach pattern value ≠ none := by
  cases h with
  | ends reached _ | opens _ reached _ _ => simp [reached]

/-- What does not break off is sought no further. -/
theorem sought_of_reach (h : reach rest left ≠ none) : Sought rest left ↔ Placed rest left := by
  constructor
  · rintro ⟨k, breaks, placed⟩
    cases k with
    | zero => exact placed
    | succ k => exact absurd (breaks 0 (Nat.succ_pos k)) h
  · exact fun placed => ⟨0, fun j hj => absurd hj (Nat.not_lt_zero j), placed⟩

theorem sought_break (h : reach rest left = none) :
    Sought rest left ↔ Sought rest (left.drop 1) := by
  constructor
  · rintro ⟨k, breaks, placed⟩
    cases k with
    | zero => exact absurd h placed.reaches
    | succ k =>
      refine ⟨k, fun j hj => ?_, ?_⟩
      · rw [List.drop_drop, Nat.add_comm]
        exact breaks (j + 1) (Nat.succ_lt_succ hj)
      · rwa [List.drop_drop, Nat.add_comm]
  · rintro ⟨k, breaks, placed⟩
    refine ⟨k + 1, fun j hj => ?_, ?_⟩
    · cases j with
      | zero => exact h
      | succ j =>
        rw [Nat.add_comm, ← List.drop_drop]
        exact breaks j (Nat.lt_of_succ_lt_succ hj)
    · rwa [Nat.add_comm, ← List.drop_drop]

end Reach

/-! ### The loop -/

section Loop
variable {value pattern : Text} {s next : Scan}

/-- Where the running try began. -/
def origin (value pattern : Text) (s : Scan) : Text × Text :=
  s.starIdx.elim (pattern, value) fun starIdx =>
    (pattern.drop (starIdx + 1), value.drop s.matchIdx)

/-- The scan has matched up to where it stands. -/
structure Invariant (value pattern : Text) (s : Scan) : Prop where
  pi_le : s.pi ≤ pattern.length
  vi_le : s.vi ≤ value.length
  matchIdx_le : s.matchIdx ≤ s.vi
  starIdx_lt : ∀ starIdx ∈ s.starIdx, starIdx < s.pi
  along : reach (origin value pattern s).1 (origin value pattern s).2 =
    reach (pattern.drop s.pi) (value.drop s.vi)

/-- What is left of the pattern is placed in what is left of the value. -/
def Wins (value pattern : Text) (s : Scan) : Prop :=
  s.starIdx.elim (Placed pattern value) fun starIdx =>
    Sought (pattern.drop (starIdx + 1)) (value.drop s.matchIdx)

/-- In a try that goes on, what wins is what is placed from where it began. -/
theorem wins_iff (h : reach (origin value pattern s).1 (origin value pattern s).2 ≠ none) :
    Wins value pattern s ↔ Placed (origin value pattern s).1 (origin value pattern s).2 := by
  unfold Wins origin at *
  cases hstar : s.starIdx with
  | none => exact Iff.rfl
  | some starIdx =>
    rw [hstar] at h
    exact sought_of_reach h

theorem drop_cons {xs rest : Text} {i : Nat} {a : CodePoint} (h : xs.drop i = a :: rest) :
    i < xs.length ∧ xs[i]? = some a ∧ xs.drop (i + 1) = rest := by
  refine ⟨?_, ?_, ?_⟩
  · by_contra hlt
    rw [List.drop_eq_nil_of_le (Nat.le_of_not_lt hlt)] at h
    cases h
  · rw [← List.head?_drop, h, List.head?_cons]
  · rw [← List.tail_drop, h, List.tail_cons]

theorem turn_end (hvalue : value.drop s.vi = []) :
    turn value pattern s = .inr ((pattern.drop s.pi).all (· = star)) := by
  rw [turn, if_neg (Nat.not_lt.mpr (List.drop_eq_nil_iff.mp hvalue))]

variable {a c : CodePoint} {rest left : Text}

theorem turn_letter (hvalue : value.drop s.vi = c :: left)
    (hpattern : pattern.drop s.pi = a :: rest) (h : a = mark ∨ a = c) :
    turn value pattern s = .inl { s with vi := s.vi + 1, pi := s.pi + 1 } := by
  obtain ⟨hvi, hc, -⟩ := drop_cons hvalue
  obtain ⟨hpi, ha, -⟩ := drop_cons hpattern
  rw [turn, if_pos hvi, ha, hc, if_pos ⟨hpi, h.imp (congrArg some) (congrArg some)⟩]

theorem turn_star (hvalue : value.drop s.vi = c :: left)
    (hpattern : pattern.drop s.pi = star :: rest) (h : star ≠ c) :
    turn value pattern s =
      .inl { s with starIdx := some s.pi, matchIdx := s.vi, pi := s.pi + 1 } := by
  obtain ⟨hvi, hc, -⟩ := drop_cons hvalue
  obtain ⟨hpi, ha, -⟩ := drop_cons hpattern
  have hletter : ¬ (some star = some mark ∨ some star = some c) := by
    rintro (heq | heq)
    · exact absurd heq (by decide)
    · exact h (Option.some.inj heq)
  rw [turn, if_pos hvi, ha, hc, if_neg fun hboth => hletter hboth.2, if_pos ⟨hpi, rfl⟩]

theorem turn_break (hvalue : value.drop s.vi = c :: left)
    (h : ∀ a rest, pattern.drop s.pi = a :: rest → ¬ (a = mark ∨ a = c) ∧ a ≠ star) :
    turn value pattern s = match s.starIdx with
      | some starIdx =>
        .inl { s with pi := starIdx + 1, matchIdx := s.matchIdx + 1, vi := s.matchIdx + 1 }
      | none => .inr false := by
  obtain ⟨hvi, hc, -⟩ := drop_cons hvalue
  rw [turn, if_pos hvi, if_neg, if_neg]
  · rintro ⟨hpi, ha⟩
    obtain ⟨-, hstar⟩ := h _ _ (List.drop_eq_getElem_cons hpi)
    rw [List.getElem?_eq_getElem hpi, Option.some_inj] at ha
    exact hstar ha
  · rintro ⟨hpi, ha⟩
    obtain ⟨hletter, -⟩ := h _ _ (List.drop_eq_getElem_cons hpi)
    rw [List.getElem?_eq_getElem hpi, hc, Option.some_inj, Option.some_inj] at ha
    exact hletter ha

/-- The next try begins one character further on. -/
theorem turn_inl_break (h : Invariant value pattern s) (hvalue : value.drop s.vi = c :: left)
    (hbreak : ∀ a rest, pattern.drop s.pi = a :: rest → ¬ (a = mark ∨ a = c) ∧ a ≠ star)
    (hnone : reach (pattern.drop s.pi) (value.drop s.vi) = none)
    (hturn : turn value pattern s = .inl next) : Invariant value pattern next ∧
      (Wins value pattern next ↔ Wins value pattern s) ∧ s.matchIdx < next.matchIdx := by
  obtain ⟨hvi, -, -⟩ := drop_cons hvalue
  rw [turn_break hvalue hbreak] at hturn
  cases hstar : s.starIdx with
  | none =>
    rw [hstar] at hturn
    cases hturn
  | some starIdx =>
    rw [hstar] at hturn
    obtain rfl := Sum.inl.inj hturn
    have hlt := h.starIdx_lt starIdx hstar
    have halong := h.along.trans hnone
    rw [origin, hstar, Option.elim_some] at halong
    refine ⟨⟨hlt.trans_le h.pi_le, h.matchIdx_le.trans_lt hvi, le_rfl, ?_, ?_⟩, ?_,
      Nat.lt_succ_self _⟩
    · intro starIdx' hstar'
      obtain rfl := Option.some.inj hstar'
      exact Nat.lt_succ_self _
    · rfl
    · have hsought := sought_break halong
      rw [List.drop_drop] at hsought
      rw [Wins, Wins, hstar]
      exact hsought.symm

/-- A star that meets another character ends the try and opens one of its own. -/
theorem turn_inl_star (h : Invariant value pattern s) (hvalue : value.drop s.vi = c :: left)
    (hpattern : pattern.drop s.pi = star :: rest) (hne : star ≠ c)
    (hturn : turn value pattern s = .inl next) : Invariant value pattern next ∧
      (Wins value pattern next ↔ Wins value pattern s) ∧
        (s.matchIdx < next.matchIdx ∨ next.matchIdx = s.matchIdx ∧
          s.starIdx.elim 0 (· + 1) < next.starIdx.elim 0 (· + 1)) := by
  obtain ⟨hpi, -, hrest⟩ := drop_cons hpattern
  rw [turn_star hvalue hpattern hne] at hturn
  obtain rfl := Sum.inl.inj hturn
  refine ⟨⟨hpi, h.vi_le, le_rfl, ?_, rfl⟩, ?_, ?_⟩
  · intro starIdx hstar
    obtain rfl := Option.some.inj hstar
    exact Nat.lt_succ_self _
  · have halong := h.along
    rw [hvalue, hpattern, reach_star hne] at halong
    have hwins := wins_iff (s := s) (by rw [halong]; exact Option.some_ne_none _)
    rw [hwins, placed_opens halong, Wins, Option.elim_some, hrest, hvalue]
  · refine (Nat.lt_or_eq_of_le h.matchIdx_le).imp id fun heq => ⟨heq.symm, ?_⟩
    cases hstar : s.starIdx with
    | none => exact Nat.succ_pos _
    | some starIdx => exact Nat.succ_lt_succ (h.starIdx_lt starIdx hstar)

/-- A turn goes on with the try, opens another star, or begins the next try. -/
theorem turn_inl (h : Invariant value pattern s) (hturn : turn value pattern s = .inl next) :
    Invariant value pattern next ∧ (Wins value pattern next ↔ Wins value pattern s) ∧
      (s.matchIdx < next.matchIdx ∨
        next.matchIdx = s.matchIdx ∧ (s.starIdx.elim 0 (· + 1) < next.starIdx.elim 0 (· + 1) ∨
          next.starIdx = s.starIdx ∧ s.vi < next.vi)) := by
  cases hvalue : value.drop s.vi with
  | nil =>
    rw [turn_end hvalue] at hturn
    cases hturn
  | cons c left =>
    obtain ⟨hvi, -, hleft⟩ := drop_cons hvalue
    cases hpattern : pattern.drop s.pi with
    | nil =>
      have hbreak : ∀ a rest, pattern.drop s.pi = a :: rest →
          ¬ (a = mark ∨ a = c) ∧ a ≠ star := by
        intro a rest hcons
        rw [hpattern] at hcons
        cases hcons
      obtain ⟨hnext, hwins, hlt⟩ :=
        turn_inl_break h hvalue hbreak (by rw [hpattern, hvalue]; rfl) hturn
      exact ⟨hnext, hwins, .inl hlt⟩
    | cons a rest =>
      obtain ⟨hpi, -, hrest⟩ := drop_cons hpattern
      by_cases hletter : a = mark ∨ a = c
      · rw [turn_letter hvalue hpattern hletter] at hturn
        obtain rfl := Sum.inl.inj hturn
        refine ⟨⟨hpi, hvi, ?_, ?_, ?_⟩, Iff.rfl, .inr ⟨rfl, .inr ⟨rfl, Nat.lt_succ_self _⟩⟩⟩
        · exact h.matchIdx_le.trans (Nat.le_succ _)
        · exact fun starIdx hstar => (h.starIdx_lt starIdx hstar).trans (Nat.lt_succ_self _)
        · refine h.along.trans ?_
          rw [hpattern, hvalue, reach_letter hletter, ← hrest, ← hleft]
      · by_cases hstar : a = star
        · subst hstar
          obtain ⟨hnext, hwins, hlt⟩ :=
            turn_inl_star h hvalue hpattern (fun heq => hletter (.inr heq)) hturn
          exact ⟨hnext, hwins, hlt.imp id fun ⟨heq, hlt⟩ => ⟨heq, .inl hlt⟩⟩
        · have hbreak : ∀ a' rest', pattern.drop s.pi = a' :: rest' →
              ¬ (a' = mark ∨ a' = c) ∧ a' ≠ star := by
            intro a' rest' hcons
            obtain ⟨rfl, -⟩ := List.cons.inj (hpattern.symm.trans hcons)
            exact ⟨hletter, hstar⟩
          have hnone : reach (pattern.drop s.pi) (value.drop s.vi) = none := by
            rw [hpattern, hvalue, reach_break hletter hstar]
          obtain ⟨hnext, hwins, hlt⟩ := turn_inl_break h hvalue hbreak hnone hturn
          exact ⟨hnext, hwins, .inl hlt⟩

/-- At the end of the value stars may be left. A break without a star to go back to is the end. -/
theorem turn_inr {result : Bool} (h : Invariant value pattern s)
    (hturn : turn value pattern s = .inr result) : result = true ↔ Wins value pattern s := by
  cases hvalue : value.drop s.vi with
  | nil =>
    rw [turn_end hvalue] at hturn
    obtain rfl := Sum.inr.inj hturn
    have halong := h.along
    rw [hvalue, reach_end] at halong
    rw [wins_iff (by rw [halong]; exact Option.some_ne_none _), placed_ends halong,
      List.all_eq_true]
    simp
  | cons c left =>
    obtain ⟨hvi, hc, -⟩ := drop_cons hvalue
    rw [turn, if_pos hvi] at hturn
    split_ifs at hturn with hletter hstar
    split at hturn
    · cases hturn
    · rename_i hnone
      obtain rfl := Sum.inr.inj hturn
      have hbreak : reach (pattern.drop s.pi) (value.drop s.vi) = none := by
        rw [hvalue]
        cases hpattern : pattern.drop s.pi with
        | nil => rfl
        | cons a rest =>
          obtain ⟨hpi, ha, -⟩ := drop_cons hpattern
          rw [ha, hc, Option.some_inj, Option.some_inj] at hletter
          rw [ha, Option.some_inj] at hstar
          exact reach_break (fun h => hletter ⟨hpi, h⟩) fun h => hstar ⟨hpi, h⟩
      have halong := h.along.trans hbreak
      rw [origin, hnone, Option.elim_none] at halong
      rw [Wins, hnone, Option.elim_none]
      exact ⟨fun hfalse => (Bool.false_ne_true hfalse).elim,
        fun hplaced => absurd halong hplaced.reaches⟩

theorem Invariant.starIdx_le (h : Invariant value pattern s) :
    s.starIdx.elim 0 (· + 1) ≤ pattern.length := by
  cases hstar : s.starIdx with
  | none => exact Nat.zero_le _
  | some starIdx => exact (h.starIdx_lt starIdx hstar).trans_le h.pi_le

theorem invariant_start (value pattern : Text) : Invariant value pattern ⟨0, 0, none, 0⟩ :=
  ⟨Nat.zero_le _, Nat.zero_le _, le_rfl, fun _ h => (nomatch h), rfl⟩

/-- The loop ends, and says what wins. -/
theorem exists_globLoop {s : Scan} (h : Invariant value pattern s) : ∃ fuel result,
    globLoop value pattern fuel s = some result ∧ (result = true ↔ Wins value pattern s) := by
  cases hturn : turn value pattern s with
  | inr result =>
    refine ⟨1, result, ?_, turn_inr h hturn⟩
    rw [globLoop, hturn]
  | inl next =>
    obtain ⟨hnext, hwins, hless⟩ := turn_inl h hturn
    obtain ⟨fuel, result, hresult, hiff⟩ := exists_globLoop hnext
    refine ⟨fuel + 1, result, ?_, hiff.trans hwins⟩
    rw [globLoop, hturn]
    exact hresult
termination_by (value.length - s.matchIdx, pattern.length - s.starIdx.elim 0 (· + 1),
  value.length - s.vi)
decreasing_by
  have hvi := hnext.vi_le
  have hmatch := hnext.matchIdx_le
  have hstarIdx := hnext.starIdx_le
  rcases hless with hlt | ⟨heq, hlt | ⟨hstar, hlt⟩⟩
  · exact .left _ _ (by omega)
  · rw [heq]
    exact .right _ (.left _ _ (by omega))
  · rw [heq, hstar]
    exact .right _ (.right _ (by omega))

theorem globLoop_add {fuel : Nat} {result : Bool} (h : globLoop value pattern fuel s = some result)
    (more : Nat) : globLoop value pattern (fuel + more) s = some result := by
  induction fuel generalizing s with
  | zero => cases h
  | succ fuel ih =>
    rw [Nat.add_right_comm]
    rw [globLoop] at h ⊢
    split at h
    · exact ih h
    · exact h

theorem globLoop_unique {fuel fuel' : Nat} {result result' : Bool}
    (h : globLoop value pattern fuel s = some result)
    (h' : globLoop value pattern fuel' s = some result') : result = result' := by
  have hmore := globLoop_add h fuel'
  rw [Nat.add_comm, globLoop_add h' fuel] at hmore
  exact (Option.some.inj hmore).symm

end Loop

/-! ### What is accepted -/

section Meaning
variable {value pattern rest left : Text}

theorem obtained_self (value : Text) : Obtained value value := by
  induction value with
  | nil => exact .nil
  | cons c value ih =>
    by_cases hstar : c = star
    · exact hstar ▸ .star [star] ih
    · by_cases hmark : c = mark
      · exact hmark ▸ .mark mark ih
      · exact .letter hstar hmark ih

theorem obtained_star (h : Obtained pattern left) (hsuffix : left <:+ value) :
    Obtained (star :: pattern) value := by
  obtain ⟨w, rfl⟩ := hsuffix
  exact .star w h

theorem obtained_letter {a c : CodePoint} (h : a = mark ∨ a = c) (hrest : Obtained rest left) :
    Obtained (a :: rest) (c :: left) := by
  rcases h with rfl | rfl
  · exact .mark c hrest
  · by_cases hstar : a = star
    · exact hstar ▸ .star [star] hrest
    · by_cases hmark : a = mark
      · exact hmark ▸ .mark mark hrest
      · exact .letter hstar hmark hrest

theorem obtained_of_reach (hreach : reach pattern value = some (rest, left))
    (h : Obtained rest left) : Obtained pattern value := by
  fun_induction reach pattern value with
  | case1 pattern => cases hreach; exact h
  | case2 => cases hreach
  | case3 a pattern c value hletter ih => exact obtained_letter hletter (ih hreach)
  | case4 pattern c value hletter => cases hreach; exact h
  | case5 => cases hreach

theorem obtained_stars (h : ∀ a ∈ pattern, a = star) : Obtained pattern [] := by
  induction pattern with
  | nil => exact .nil
  | cons a pattern ih =>
    obtain ⟨rfl, hrest⟩ := List.forall_mem_cons.mp h
    exact .star [] (ih hrest)

theorem Placed.obtained (h : Placed pattern value) : Obtained pattern value := by
  induction h with
  | ends reached only => exact obtained_of_reach reached (obtained_stars only)
  | opens k reached _ _ ih =>
    exact obtained_of_reach reached (obtained_star ih (List.drop_suffix k _))

/-- What is placed: the star alone and the value itself always are. -/
theorem exists_globMatch (value pattern : Text) : ∃ fuel result,
    globMatch value pattern fuel = some result ∧
      (result = true ↔ pattern = [star] ∨ pattern = value ∨ Placed pattern value) := by
  by_cases hstar : pattern = [star]
  · exact ⟨0, true, by rw [globMatch, if_pos hstar], by simp [hstar]⟩
  · by_cases hvalue : pattern = value
    · exact ⟨0, true, by rw [globMatch, if_neg hstar, if_pos hvalue], by simp [hvalue]⟩
    · obtain ⟨fuel, result, hresult, hiff⟩ :=
        exists_globLoop (invariant_start value pattern)
      refine ⟨fuel, result, ?_, ?_⟩
      · rw [globMatch, if_neg hstar, if_neg hvalue, hresult]
      · rw [hiff, or_iff_right hstar, or_iff_right hvalue]
        rfl

theorem globMatch_unique {fuel fuel' : Nat} {result result' : Bool}
    (h : globMatch value pattern fuel = some result)
    (h' : globMatch value pattern fuel' = some result') : result = result' := by
  rw [globMatch] at h h'
  split_ifs at h h' with hstar hvalue
  · exact Option.some.inj (h.symm.trans h')
  · exact Option.some.inj (h.symm.trans h')
  · exact globLoop_unique h h'

/-- The loop always ends, and accepts no more than the pattern means. It says what the pattern
means exactly if what the pattern means is also placed. -/
theorem means_iff : Means value pattern ↔
    (Obtained pattern value → pattern = [star] ∨ pattern = value ∨ Placed pattern value) := by
  obtain ⟨fuel, result, hresult, hiff⟩ := exists_globMatch value pattern
  constructor
  · rintro ⟨fuel', result', hresult', hmeans⟩ hobtained
    rw [← hiff, globMatch_unique hresult hresult', hmeans]
    exact hobtained
  · refine fun h => ⟨fuel, result, hresult, hiff.trans ⟨?_, h⟩⟩
    rintro (rfl | rfl | hplaced)
    · exact obtained_star .nil (List.nil_suffix)
    · exact obtained_self _
    · exact hplaced.obtained

/-- The star that meets a star is forgotten. -/
theorem not_means_star : ¬ Means (ofString "*ab") (ofString "*b") := by
  rintro ⟨fuel, result, hresult, hmeans⟩
  have hobtained : Obtained (ofString "*b") (ofString "*ab") :=
    .star (ofString "*a") (.letter (by decide) (by decide) .nil)
  have hfalse : globMatch (ofString "*ab") (ofString "*b") 4 = some false := by decide
  rw [globMatch_unique hresult hfalse] at hmeans
  exact Bool.false_ne_true (hmeans.mpr hobtained)

end Meaning

/-! ### Values and patterns without a star -/

section Plain
variable {value pattern rest left : Text}

theorem reach_suffix (h : reach pattern value = some (rest, left)) :
    rest <:+ pattern ∧ left <:+ value := by
  fun_induction reach pattern value with
  | case1 pattern => cases h; exact ⟨List.suffix_rfl, List.suffix_rfl⟩
  | case2 => cases h
  | case3 a pattern c value _ ih =>
    exact (ih h).imp (·.trans (List.suffix_cons _ _)) (·.trans (List.suffix_cons _ _))
  | case4 pattern c value _ => cases h; exact ⟨List.suffix_rfl, List.suffix_rfl⟩
  | case5 => cases h

/-- A value without a star is read letter by letter up to a star of the pattern. -/
theorem reach_of_obtained (hvalue : star ∉ value) (h : Obtained pattern value) :
    ∃ rest left, reach pattern value = some (rest, left) ∧ Obtained rest left ∧
      (left = [] ∨ ∃ rest', rest = star :: rest') := by
  induction h with
  | nil => exact ⟨[], [], rfl, .nil, .inl rfl⟩
  | @star w pattern value hrest ih =>
    have hobtained : Obtained (star :: pattern) (w ++ value) := .star w hrest
    cases hread : w ++ value with
    | nil =>
      rw [hread] at hobtained
      exact ⟨star :: pattern, [], reach_end, hobtained, .inl rfl⟩
    | cons c left =>
      rw [hread] at hobtained hvalue
      have hne : star ≠ c := fun heq => hvalue (heq ▸ List.mem_cons_self ..)
      exact ⟨star :: pattern, c :: left, reach_star hne, hobtained, .inr ⟨pattern, rfl⟩⟩
  | mark c hrest ih =>
    rw [reach_letter (.inl rfl)]
    exact ih fun hmem => hvalue (List.mem_cons_of_mem _ hmem)
  | letter not_star not_mark hrest ih =>
    rw [reach_letter (.inr rfl)]
    exact ih fun hmem => hvalue (List.mem_cons_of_mem _ hmem)

/-- What the pattern means behind a try that goes on, it means from where that began. -/
theorem obtained_of_suffix (hvalue : star ∉ value) (hreach : reach pattern value ≠ none)
    (hsuffix : left <:+ value) (h : Obtained pattern left) : Obtained pattern value := by
  fun_induction reach pattern value generalizing left with
  | case1 pattern => exact List.suffix_nil.mp hsuffix ▸ h
  | case2 => exact absurd rfl hreach
  | case3 a pattern c value hletter ih =>
    have hrest : star ∉ value := fun hmem => hvalue (List.mem_cons_of_mem _ hmem)
    have htail : ∀ {c' : CodePoint} {left' : Text},
        c' :: left' <:+ c :: value → left' <:+ value := by
      intro c' left' hsuffix
      rcases List.suffix_cons_iff.mp hsuffix with heq | hsuffix
      · exact (List.cons.inj heq).2 ▸ List.suffix_rfl
      · exact (List.suffix_cons _ _).trans hsuffix
    cases h with
    | star w hobtained =>
      rcases hletter with heq | heq
      · exact absurd heq (by decide)
      · exact absurd (heq ▸ List.mem_cons_self ..) hvalue
    | mark c' hobtained | letter _ _ hobtained =>
      exact obtained_letter hletter (ih hrest hreach (htail hsuffix) hobtained)
  | case4 pattern c value _ =>
    cases h with
    | star w hobtained => exact obtained_star hobtained ((List.suffix_append w _).trans hsuffix)
    | letter not_star _ _ => exact absurd rfl not_star
  | case5 => exact absurd rfl hreach

theorem stars_of_obtained (h : Obtained pattern []) : ∀ a ∈ pattern, a = star := by
  generalize hvalue : ([] : Text) = value at h
  induction h with
  | nil => exact fun a ha => absurd ha List.not_mem_nil
  | star w _ ih =>
    exact List.forall_mem_cons.mpr ⟨rfl, ih (List.append_eq_nil_iff.mp hvalue.symm).2.symm⟩
  | mark | letter => cases hvalue

theorem exists_of_obtained_star (h : Obtained (star :: pattern) value) :
    ∃ n, Obtained pattern (value.drop n) := by
  cases h with
  | @star w _ value hrest => exact ⟨w.length, by rwa [List.drop_left]⟩
  | letter not_star _ _ => exact absurd rfl not_star

/-- Without a star in the value the first place that does not break off is as good as any. -/
theorem placed_of_obtained {pattern value : Text} (hvalue : star ∉ value)
    (h : Obtained pattern value) : Placed pattern value := by
  obtain ⟨rest, left, hreach, hrest, hend⟩ := reach_of_obtained hvalue h
  obtain ⟨hpattern, hleft⟩ := reach_suffix hreach
  cases left with
  | nil => exact .ends hreach (stars_of_obtained hrest)
  | cons c left =>
    obtain ⟨rest', rfl⟩ := hend.resolve_left (List.cons_ne_nil _ _)
    have hfree : ∀ k, star ∉ (c :: left).drop k :=
      fun k hmem => hvalue (hleft.subset (List.mem_of_mem_drop hmem))
    obtain ⟨n, hn⟩ := exists_of_obtained_star hrest
    have hn' : reach rest' ((c :: left).drop n) ≠ none := by
      obtain ⟨_, _, hreach', -⟩ := reach_of_obtained (hfree n) hn
      rw [hreach']
      exact Option.some_ne_none _
    have hexists : ∃ n, reach rest' ((c :: left).drop n) ≠ none := ⟨n, hn'⟩
    have hsuffix : (c :: left).drop n <:+ (c :: left).drop (Nat.find hexists) :=
      List.drop_suffix_drop_left _ (Nat.find_min' hexists hn')
    have hobtained : Obtained rest' ((c :: left).drop (Nat.find hexists)) :=
      obtained_of_suffix (hfree _) (Nat.find_spec hexists) hsuffix hn
    exact .opens (Nat.find hexists) hreach (fun j hj => not_not.mp (Nat.find_min hexists hj))
      (placed_of_obtained (hfree _) hobtained)
termination_by pattern.length
decreasing_by exact hpattern.length_le

theorem placed_letter {a c : CodePoint} (h : a = mark ∨ a = c) (hplaced : Placed pattern value) :
    Placed (a :: pattern) (c :: value) := by
  cases hplaced with
  | ends reached only => exact .ends ((reach_letter h).trans reached) only
  | opens k reached breaks placed => exact .opens k ((reach_letter h).trans reached) breaks placed

theorem placed_of_letters (hpattern : star ∉ pattern) (h : Obtained pattern value) :
    Placed pattern value := by
  induction h with
  | nil => exact .ends reach_end fun a ha => absurd ha List.not_mem_nil
  | star => exact absurd (List.mem_cons_self ..) hpattern
  | mark c _ ih =>
    exact placed_letter (.inl rfl) (ih fun hmem => hpattern (List.mem_cons_of_mem _ hmem))
  | letter _ _ _ ih =>
    exact placed_letter (.inr rfl) (ih fun hmem => hpattern (List.mem_cons_of_mem _ hmem))

theorem reach_marks (rest left xs : Text) :
    reach (List.replicate xs.length mark ++ rest) (xs ++ left) = reach rest left := by
  induction xs with
  | nil => rfl
  | cons x xs ih => exact (reach_letter (.inl rfl)).trans ih

theorem obtained_marks (xs : Text) (h : Obtained pattern value) :
    Obtained (List.replicate xs.length mark ++ pattern) (xs ++ value) := by
  induction xs with
  | nil => exact h
  | cons x xs ih => exact .mark x ih

/-- Marks around a star that stands for nothing are not placed. -/
theorem exists_not_placed (h : star ∈ value) : ∃ pattern, Obtained pattern value ∧
    ¬ (pattern = [star] ∨ pattern = value ∨ Placed pattern value) := by
  obtain ⟨xs, ys, rfl⟩ := List.append_of_mem h
  have hobtained : Obtained (List.replicate xs.length mark ++
      star :: List.replicate (star :: ys).length mark) (xs ++ star :: ys) := by
    refine obtained_marks xs (.star [] ?_)
    have hmarks := obtained_marks (star :: ys) .nil
    rwa [List.append_nil, List.append_nil] at hmarks
  have hreach : reach (List.replicate xs.length mark ++
      star :: List.replicate (star :: ys).length mark) (xs ++ star :: ys) = some ([mark], []) := by
    have hmarks := reach_marks [mark] [] ys
    rw [List.append_nil, ← List.replicate_succ'] at hmarks
    exact (reach_marks _ _ xs).trans ((reach_letter (.inr rfl)).trans hmarks)
  refine ⟨_, hobtained, ?_⟩
  rintro (heq | heq | hplaced)
  · have hlength := congrArg List.length heq
    simp only [List.length_append, List.length_replicate, List.length_cons, List.length_nil]
      at hlength
    omega
  · have hlength := congrArg List.length heq
    simp only [List.length_append, List.length_replicate, List.length_cons] at hlength
    omega
  · exact absurd ((placed_ends hreach).mp hplaced mark (List.mem_singleton_self _)) (by decide)

theorem reach_short (hpattern : star ∉ pattern) (h : pattern.length < value.length) :
    reach pattern value = none := by
  fun_induction reach pattern value with
  | case1 pattern => exact absurd h (Nat.not_lt_zero _)
  | case2 => rfl
  | case3 a pattern c value hletter ih =>
    exact ih (fun hmem => hpattern (List.mem_cons_of_mem _ hmem)) (Nat.lt_of_succ_lt_succ h)
  | case4 pattern c value _ => exact absurd (List.mem_cons_self ..) hpattern
  | case5 => rfl

theorem reach_self (xs : Text) : reach (xs ++ rest) (xs ++ left) = reach rest left := by
  induction xs with
  | nil => rfl
  | cons x xs ih => exact (reach_letter (.inr rfl)).trans ih

theorem obtained_append (xs : Text) (h : Obtained rest left) :
    Obtained (xs ++ rest) (xs ++ left) := by
  induction xs with
  | nil => exact h
  | cons x xs ih => exact obtained_letter (.inr rfl) ih

/-- Behind its last star, met by a star of the value, a pattern is too short. -/
theorem exists_not_placed_of_star (h : star ∈ pattern) : ∃ value, Obtained pattern value ∧
    ¬ (pattern = value ∨ Placed pattern value) := by
  obtain ⟨ys, xs, hreverse, hys⟩ := List.eq_append_cons_of_mem (List.mem_reverse.mpr h)
  obtain rfl : pattern = xs.reverse ++ star :: ys.reverse := by
    rw [← pattern.reverse_reverse, hreverse]
    simp
  have hshort : reach ys.reverse (mark :: ys.reverse) = none :=
    reach_short (fun hmem => hys (List.mem_reverse.mp hmem)) (Nat.lt_succ_self _)
  have hreach : reach (xs.reverse ++ star :: ys.reverse)
      (xs.reverse ++ star :: mark :: ys.reverse) = none :=
    (reach_self xs.reverse).trans ((reach_letter (.inr rfl)).trans hshort)
  refine ⟨_, obtained_append xs.reverse (.star [star, mark] (obtained_self _)), ?_⟩
  rintro (heq | hplaced)
  · have hlength := congrArg List.length heq
    simp at hlength
  · cases hplaced with
    | ends reached only | opens k reached breaks placed => exact nomatch hreach.symm.trans reached

/-- The values that every pattern is matched with as it says are those without a star; the patterns
that say what they mean of every value are the star alone and those without one. -/
theorem means_all_iff :
    (∀ value : Text, (∀ pattern, Means value pattern) ↔ star ∉ value) ∧
    ∀ pattern : Text, (∀ value, Means value pattern) ↔ star ∉ pattern ∨ pattern = [star] := by
  have hrefuted : ∀ {value pattern : Text}, Means value pattern → Obtained pattern value →
      pattern = [star] ∨ pattern = value ∨ Placed pattern value := by
    rintro value pattern ⟨fuel, result, hresult, hmeans⟩ hobtained
    obtain ⟨fuel', result', hresult', hiff⟩ := exists_globMatch value pattern
    rw [← hiff, globMatch_unique hresult' hresult, hmeans]
    exact hobtained
  have hproved : ∀ {value pattern : Text},
      (Obtained pattern value → pattern = [star] ∨ Placed pattern value) → Means value pattern := by
    intro value pattern h
    obtain ⟨fuel, result, hresult, hiff⟩ := exists_globMatch value pattern
    refine ⟨fuel, result, hresult, hiff.trans ⟨?_, fun hobtained => (h hobtained).imp_right .inr⟩⟩
    rintro (rfl | rfl | hplaced)
    · exact obtained_star .nil List.nil_suffix
    · exact obtained_self _
    · exact hplaced.obtained
  constructor
  · intro value
    constructor
    · intro hall hstar
      obtain ⟨pattern, hobtained, hnot⟩ := exists_not_placed hstar
      exact hnot (hrefuted (hall pattern) hobtained)
    · exact fun hstar pattern => hproved fun hobtained => .inr (placed_of_obtained hstar hobtained)
  · intro pattern
    constructor
    · intro hall
      rw [or_iff_not_imp_left, not_not]
      intro hstar
      obtain ⟨value, hobtained, hnot⟩ := exists_not_placed_of_star hstar
      exact (hrefuted (hall value) hobtained).resolve_right hnot
    · rintro (hstar | hstar) value
      · exact hproved fun hobtained => .inr (placed_of_letters hstar hobtained)
      · exact hproved fun _ => .inl hstar

end Plain

end PiPlatform.SemanticValidator.Patterns
