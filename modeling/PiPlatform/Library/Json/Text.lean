import Mathlib.Data.List.Basic
import Mathlib.Data.List.Lex
import Mathlib.Order.Fin.Basic

/-! JSON strings over code points.

A `Text` is a list of code points in which surrogates may stand alone, so it can
hold strings that no UTF-8 text holds. `escape` writes one as an ASCII JSON string
literal: the two-character escapes, printable ASCII as it is, everything else as
`\u` escapes, astral code points as a surrogate pair. `decodeBody` reads a literal
back and joins each adjacent pair of escaped surrogates into one code point.

So decoding is not quite the inverse of encoding: it gives `joinSurrogates s`
(`decodeBody_escape`), which is `s` exactly when no high surrogate of `s` stands
right before a low one. -/
namespace PiPlatform.Library.Json

abbrev CodePoint := Fin 0x110000

variable {c : CodePoint}

instance instNeZeroCodePoints : @NeZero Nat Zero.ofOfNat0 0x110000 := ⟨by decide⟩

abbrev Text := List CodePoint

/-! ### Surrogates -/

def isHigh (c : CodePoint) : Bool := 0xD800 ≤ c.val && c.val ≤ 0xDBFF

def isLow (c : CodePoint) : Bool := 0xDC00 ≤ c.val && c.val ≤ 0xDFFF

/-- The astral code point that a high and a low surrogate stand for. -/
def joinPair (h l : CodePoint) : CodePoint :=
  Fin.ofNat 0x110000 (0x10000 + (h.val - 0xD800) * 0x400 + (l.val - 0xDC00))

@[grind =] def joinSurrogates : Text → Text
  | [] => []
  | [c] => [c]
  | h :: l :: rest =>
    if isHigh h && isLow l then joinPair h l :: joinSurrogates rest
    else h :: joinSurrogates (l :: rest)

def highHalf (c : CodePoint) : CodePoint := Fin.ofNat 0x110000 (0xD800 + (c.val - 0x10000) / 0x400)

def lowHalf (c : CodePoint) : CodePoint := Fin.ofNat 0x110000 (0xDC00 + (c.val - 0x10000) % 0x400)

/-- The escapes a code point needs: itself, or its surrogate pair. -/
def units (c : CodePoint) : Text := if c.val < 0x10000 then [c] else [highHalf c, lowHalf c]

theorem isHigh_iff : isHigh c = true ↔ 0xD800 ≤ c.val ∧ c.val ≤ 0xDBFF := by
  simp [isHigh]

theorem isLow_iff : isLow c = true ↔ 0xDC00 ≤ c.val ∧ c.val ≤ 0xDFFF := by
  simp [isLow]

theorem highHalf_val (c : CodePoint) : (highHalf c).val = 0xD800 + (c.val - 0x10000) / 0x400 := by
  have := c.isLt
  exact Nat.mod_eq_of_lt (by omega)

theorem lowHalf_val (c : CodePoint) : (lowHalf c).val = 0xDC00 + (c.val - 0x10000) % 0x400 :=
  Nat.mod_eq_of_lt (by omega)

theorem joinPair_val {h l : CodePoint} (hh : isHigh h = true) (hl : isLow l = true) :
    (joinPair h l).val = 0x10000 + (h.val - 0xD800) * 0x400 + (l.val - 0xDC00) := by
  rw [isHigh_iff] at hh
  rw [isLow_iff] at hl
  exact Nat.mod_eq_of_lt (by omega)

theorem isHigh_highHalf (h : 0x10000 ≤ c.val) : isHigh (highHalf c) = true := by
  have := c.isLt
  rw [isHigh_iff, highHalf_val]
  omega

theorem isLow_lowHalf (c : CodePoint) : isLow (lowHalf c) = true := by
  rw [isLow_iff, lowHalf_val]
  omega

theorem joinPair_halves (h : 0x10000 ≤ c.val) :
    joinPair (highHalf c) (lowHalf c) = c := by
  apply Fin.ext
  rw [joinPair_val (isHigh_highHalf h) (isLow_lowHalf c), highHalf_val, lowHalf_val]
  omega

/-- A joined pair is no surrogate, so it joins with nothing further. -/
theorem joinPair_plain {h l : CodePoint} (hh : isHigh h = true) (hl : isLow l = true) :
    isHigh (joinPair h l) = false ∧ isLow (joinPair h l) = false := by
  have hv := joinPair_val hh hl
  rw [isHigh_iff] at hh
  rw [isLow_iff] at hl
  constructor
  · rw [← Bool.not_eq_true, isHigh_iff, hv]
    omega
  · rw [← Bool.not_eq_true, isLow_iff, hv]
    omega

theorem not_isLow_of_isHigh (h : isHigh c = true) : isLow c = false := by
  rw [isHigh_iff] at h
  rw [← Bool.not_eq_true, isLow_iff]
  omega

theorem joinSurrogates_cons_of_not {s : Text} (h : ∀ d ∈ s.head?, (isHigh c && isLow d) = false) :
    joinSurrogates (c :: s) = c :: joinSurrogates s := by
  cases s with
  | nil => rfl
  | cons d rest =>
    have hcd := h d (by simp)
    simp [joinSurrogates, hcd]

/-- Joining what a text's escapes read back as joins the text itself. -/
theorem joinSurrogates_units (s : Text) :
    joinSurrogates (s.flatMap units) = joinSurrogates s := by
  induction s using joinSurrogates.induct with
  | case1 => rfl
  | case2 c =>
    by_cases hc : c.val < 0x10000
    · simp [units, hc]
    · simp [units, hc, joinSurrogates, isHigh_highHalf (not_lt.mp hc), isLow_lowHalf c,
        joinPair_halves (not_lt.mp hc)]
  | case3 h l rest hj ih =>
    -- Both halves of the pair are below the astral planes, so each is its own unit.
    have hj' := Bool.and_eq_true_iff.mp hj
    rw [isHigh_iff, isLow_iff] at hj'
    have hh : h.val < 0x10000 := by omega
    have hl : l.val < 0x10000 := by omega
    have hu : (h :: l :: rest).flatMap units = h :: l :: rest.flatMap units := by
      simp [units, hh, hl]
    rw [hu]
    simp only [joinSurrogates, hj, if_true, ih]
  | case4 h l rest hj ih =>
    have hjs : joinSurrogates (h :: l :: rest) = h :: joinSurrogates (l :: rest) := by
      simp [joinSurrogates, hj]
    rw [hjs, ← ih]
    by_cases hc : h.val < 0x10000
    · -- The next unit is `l`, or the high half of `l`: neither completes a pair with `h`.
      have hu : (h :: l :: rest).flatMap units = h :: (l :: rest).flatMap units := by
        simp [units, hc]
      rw [hu]
      apply joinSurrogates_cons_of_not
      intro d hd
      by_cases hl : l.val < 0x10000
      · simp only [List.flatMap_cons, units, hl, if_true, List.cons_append, List.nil_append,
          List.head?_cons, Option.mem_def, Option.some.injEq] at hd
        rw [← hd]
        simpa using hj
      · simp only [List.flatMap_cons, units, hl, if_false, List.cons_append, List.nil_append,
          List.head?_cons, Option.mem_def, Option.some.injEq] at hd
        rw [← hd, not_isLow_of_isHigh (isHigh_highHalf (not_lt.mp hl)), Bool.and_false]
    · have hu : (h :: l :: rest).flatMap units =
          highHalf h :: lowHalf h :: (l :: rest).flatMap units := by
        simp [units, hc]
      rw [hu]
      simp [joinSurrogates, isHigh_highHalf (not_lt.mp hc), isLow_lowHalf h,
        joinPair_halves (not_lt.mp hc)]

/-- A text that decoding leaves alone. -/
def Joined (s : Text) : Prop := joinSurrogates s = s

theorem head?_joinSurrogates_low {s : Text} {d : CodePoint} (hd : d ∈ (joinSurrogates s).head?)
    (hl : isLow d = true) : d ∈ s.head? := by
  cases s with
  | nil => simp [joinSurrogates] at hd
  | cons h s =>
    cases s with
    | nil => simpa [joinSurrogates] using hd
    | cons l rest =>
      by_cases hj : (isHigh h && isLow l) = true
      · simp only [joinSurrogates, hj, if_true, List.head?_cons, Option.mem_def,
          Option.some.injEq] at hd
        have hj' := Bool.and_eq_true_iff.mp hj
        rw [← hd, (joinPair_plain hj'.1 hj'.2).2] at hl
        exact absurd hl (by decide)
      · simpa [joinSurrogates, hj] using hd

theorem joined_joinSurrogates (s : Text) : Joined (joinSurrogates s) := by
  unfold Joined
  induction s using joinSurrogates.induct with
  | case1 => rfl
  | case2 c => rfl
  | case3 h l rest hj ih =>
    simp only [joinSurrogates, hj, if_true]
    have hj' := Bool.and_eq_true_iff.mp hj
    rw [joinSurrogates_cons_of_not, ih]
    intro d _
    rw [(joinPair_plain hj'.1 hj'.2).1, Bool.false_and]
  | case4 h l rest hj ih =>
    have hjs : joinSurrogates (h :: l :: rest) = h :: joinSurrogates (l :: rest) := by
      simp [joinSurrogates, hj]
    rw [hjs, joinSurrogates_cons_of_not, ih]
    intro d hd
    by_cases hl : isLow d = true
    · have hdl := head?_joinSurrogates_low hd hl
      simp only [List.head?_cons, Option.mem_def, Option.some.injEq] at hdl
      rw [← hdl]
      simpa using hj
    · simp [hl]

/-! ### Scalar strings -/

def ofChar (c : Char) : CodePoint :=
  ⟨c.toNat, by rcases c.valid with h | h <;> simp only [Char.toNat] <;> omega⟩

/-- A Lean string as a text: its characters are scalar values, so nothing joins. -/
def ofString (s : String) : Text := s.toList.map ofChar

theorem ofChar_injective : Function.Injective ofChar := by
  intro a b h
  have hval : (ofChar a).val = (ofChar b).val := congrArg Fin.val h
  exact Char.toNat_inj.mp hval

theorem ofString_injective : Function.Injective ofString := by
  intro a b h
  exact String.toList_inj.mp (List.map_injective_iff.mpr ofChar_injective h)

@[simp] theorem ofString_inj {a b : String} : ofString a = ofString b ↔ a = b :=
  ofString_injective.eq_iff

theorem not_isHigh_ofChar (c : Char) : isHigh (ofChar c) = false := by
  have hval : (ofChar c).val = c.toNat := rfl
  rw [← Bool.not_eq_true, isHigh_iff, hval]
  rcases c.valid with h | h <;> simp only [Char.toNat] <;> omega

theorem joined_ofString (s : String) : Joined (ofString s) := by
  unfold Joined ofString
  induction s.toList with
  | nil => rfl
  | cons c cs ih =>
    rw [List.map_cons, joinSurrogates_cons_of_not, ih]
    intro d _
    rw [not_isHigh_ofChar, Bool.false_and]

@[simp] theorem joinSurrogates_ofString (s : String) : joinSurrogates (ofString s) = ofString s :=
  joined_ofString s

end PiPlatform.Library.Json
