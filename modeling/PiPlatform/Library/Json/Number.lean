import Mathlib.Data.List.TakeWhile
import Mathlib.Data.Nat.Digits.Defs

/-! Number literals.

`scanNumber` takes the longest literal at the front of the input and says which
part of it is the integer and which the fraction and exponent; a literal without
the latter is an integer, of any size. What a fraction or an exponent means is
left to a `FloatCodec`: a type of finite floats, how one is written, how a literal
is read, and the one fact the round trip needs, that a written float reads back. -/
namespace PiPlatform.Library.Json

/-- `0|[1-9][0-9]*` -/
def scanInt : List Char → Option (List Char × List Char)
  | [] => none
  | c :: rest =>
    if c = '0' then some (['0'], rest)
    else if c.isDigit then some (c :: rest.takeWhile Char.isDigit, rest.dropWhile Char.isDigit)
    else none

/-- `[0-9]+`, or nothing taken -/
def scanDigits (cs : List Char) : Option (List Char × List Char) :=
  if cs.takeWhile Char.isDigit = [] then none
  else some (cs.takeWhile Char.isDigit, cs.dropWhile Char.isDigit)

/-- `(\.[0-9]+)?` -/
def scanFraction : List Char → List Char × List Char
  | [] => ([], [])
  | c :: rest =>
    if c = '.' then
      match scanDigits rest with
      | some (ds, rest') => ('.' :: ds, rest')
      | none => ([], c :: rest)
    else ([], c :: rest)

def scanSign : List Char → List Char × List Char
  | [] => ([], [])
  | c :: rest => if c = '+' ∨ c = '-' then ([c], rest) else ([], c :: rest)

/-- `([eE][-+]?[0-9]+)?` -/
def scanExponent : List Char → List Char × List Char
  | [] => ([], [])
  | c :: rest =>
    if c = 'e' ∨ c = 'E' then
      match scanDigits (scanSign rest).2 with
      | some (ds, rest') => (c :: ((scanSign rest).1 ++ ds), rest')
      | none => ([], c :: rest)
    else ([], c :: rest)

/-- The integer part with its sign, the fraction with the exponent, and the rest. -/
def scanUnsigned (cs : List Char) : Option (List Char × List Char × List Char) :=
  (scanInt cs).map fun p =>
    (p.1, (scanFraction p.2).1 ++ (scanExponent (scanFraction p.2).2).1,
      (scanExponent (scanFraction p.2).2).2)

def scanNumber : List Char → Option (List Char × List Char × List Char)
  | [] => none
  | c :: rest =>
    if c = '-' then (scanUnsigned rest).map fun p => ('-' :: p.1, p.2) else scanUnsigned (c :: rest)

/-! ### Literals are taken whole -/

/-- What may stand right behind a number: nothing that could belong to it. -/
def NumEnd (rest : List Char) : Prop :=
  ∀ c ∈ rest.head?, c.isDigit = false ∧ c ≠ '.' ∧ c ≠ 'e' ∧ c ≠ 'E' ∧ c ≠ '+' ∧ c ≠ '-'

theorem numEnd_nil : NumEnd [] := fun _ h => nomatch h

theorem numEnd_cons {c : Char} {rest : List Char}
    (h : c.isDigit = false ∧ c ≠ '.' ∧ c ≠ 'e' ∧ c ≠ 'E' ∧ c ≠ '+' ∧ c ≠ '-') :
    NumEnd (c :: rest) := by
  intro d hd
  simp only [List.head?_cons, Option.mem_def, Option.some.injEq] at hd
  exact hd ▸ h

variable {t rest : List Char}

theorem takeWhile_append (h : NumEnd rest) :
    (t ++ rest).takeWhile Char.isDigit = t.takeWhile Char.isDigit := by
  induction t with
  | nil =>
    cases rest with
    | nil => rfl
    | cons c rest => simp [(h c rfl).1]
  | cons c t ih => simp only [List.cons_append, List.takeWhile_cons, ih]

theorem dropWhile_append (h : NumEnd rest) :
    (t ++ rest).dropWhile Char.isDigit = t.dropWhile Char.isDigit ++ rest := by
  induction t with
  | nil =>
    cases rest with
    | nil => rfl
    | cons c rest => simp [(h c rfl).1]
  | cons c t ih =>
    simp only [List.cons_append, List.dropWhile_cons, ih]
    split <;> rfl

theorem scanDigits_append (h : NumEnd rest) :
    scanDigits (t ++ rest) = (scanDigits t).map fun p => (p.1, p.2 ++ rest) := by
  simp only [scanDigits, takeWhile_append h, dropWhile_append h]
  split <;> rfl

theorem scanInt_append {m r : List Char} (h : NumEnd rest) (ht : scanInt t = some (m, r)) :
    scanInt (t ++ rest) = some (m, r ++ rest) := by
  cases t with
  | nil => cases ht
  | cons c t =>
    simp only [List.cons_append, scanInt, takeWhile_append h, dropWhile_append h] at ht ⊢
    split
    · simp_all
    · split <;> simp_all

theorem scanFraction_append (h : NumEnd rest) :
    scanFraction (t ++ rest) = ((scanFraction t).1, (scanFraction t).2 ++ rest) := by
  cases t with
  | nil =>
    cases rest with
    | nil => rfl
    | cons c rest => simp [scanFraction, (h c rfl).2.1]
  | cons c t =>
    simp only [List.cons_append, scanFraction, scanDigits_append h]
    split
    · cases scanDigits t <;> rfl
    · rfl

theorem scanSign_append (h : NumEnd rest) :
    scanSign (t ++ rest) = ((scanSign t).1, (scanSign t).2 ++ rest) := by
  cases t with
  | nil =>
    cases rest with
    | nil => rfl
    | cons c rest => simp [scanSign, (h c rfl).2.2.2.2.1, (h c rfl).2.2.2.2.2]
  | cons c t =>
    simp only [List.cons_append, scanSign]
    split <;> rfl

theorem scanExponent_append (h : NumEnd rest) :
    scanExponent (t ++ rest) = ((scanExponent t).1, (scanExponent t).2 ++ rest) := by
  cases t with
  | nil =>
    cases rest with
    | nil => rfl
    | cons c rest => simp [scanExponent, (h c rfl).2.2.1, (h c rfl).2.2.2.1]
  | cons c t =>
    simp only [List.cons_append, scanExponent, scanSign_append h, scanDigits_append h]
    split
    · cases scanDigits (scanSign t).2 <;> rfl
    · rfl

theorem scanUnsigned_append {m f r : List Char} (h : NumEnd rest)
    (ht : scanUnsigned t = some (m, f, r)) : scanUnsigned (t ++ rest) = some (m, f, r ++ rest) := by
  simp only [scanUnsigned, Option.map_eq_some_iff, Prod.mk.injEq] at ht
  obtain ⟨⟨i, r'⟩, hi, rfl, rfl, rfl⟩ := ht
  simp only [scanUnsigned, scanInt_append h hi, Option.map_some, scanFraction_append h,
    scanExponent_append h]

/-- What follows a literal without continuing it is left untouched. -/
theorem scanNumber_append {m f r : List Char} (h : NumEnd rest)
    (ht : scanNumber t = some (m, f, r)) : scanNumber (t ++ rest) = some (m, f, r ++ rest) := by
  cases t with
  | nil => cases ht
  | cons c t =>
    simp only [scanNumber, List.cons_append] at ht ⊢
    split
    · next hc =>
      rw [if_pos hc] at ht
      simp only [Option.map_eq_some_iff, Prod.mk.injEq] at ht
      obtain ⟨⟨m', f', r'⟩, hu, rfl, rfl, rfl⟩ := ht
      simp [scanUnsigned_append h hu]
    · next hc =>
      rw [if_neg hc] at ht
      exact scanUnsigned_append h ht

/-! ### Integers -/

def intText : Int → List Char
  | .ofNat n => Nat.toDigits 10 n
  | .negSucc n => '-' :: Nat.toDigits 10 (n + 1)

def readInt : List Char → Int
  | [] => 0
  | c :: rest =>
    if c = '-' then -(Nat.ofDigitChars 10 rest 0 : Int)
    else (Nat.ofDigitChars 10 (c :: rest) 0 : Int)

theorem isDigit_of_mem_toDigits {c : Char} {n : Nat} (h : c ∈ Nat.toDigits 10 n) :
    c.isDigit = true := Nat.isDigit_of_mem_toDigits (by decide) (by decide) h

theorem dash_ne_digit {c : Char} (h : c.isDigit = true) : c ≠ '-' := by
  rintro rfl
  exact absurd h (by decide)

/-- The digits of a positive number do not begin with a zero. -/
theorem toDigits_head (n : Nat) (h : 0 < n) : ∃ c ds, Nat.toDigits 10 n = c :: ds ∧ c ≠ '0' := by
  induction n using Nat.strong_induction_on with
  | h n ih =>
    by_cases hn : n < 10
    · refine ⟨n.digitChar, [], Nat.toDigits_of_lt_base hn, ?_⟩
      simp only [ne_eq, Nat.digitChar_eq_zero]
      omega
    · obtain ⟨c, ds, hcs, hc⟩ := ih (n / 10) (by omega) (by omega)
      refine ⟨c, ds ++ [(n % 10).digitChar], ?_, hc⟩
      rw [Nat.toDigits_of_base_le (by decide) (by omega), hcs]
      rfl

theorem takeWhile_digits {ds : List Char} (h : ∀ c ∈ ds, c.isDigit = true) :
    ds.takeWhile Char.isDigit = ds ∧ ds.dropWhile Char.isDigit = [] :=
  ⟨List.takeWhile_eq_self_iff.mpr h, List.dropWhile_eq_nil_iff.mpr h⟩

theorem scanUnsigned_toDigits (n : Nat) :
    scanUnsigned (Nat.toDigits 10 n) = some (Nat.toDigits 10 n, [], []) := by
  by_cases hn : n = 0
  · subst hn
    rfl
  · obtain ⟨c, ds, hcs, hc⟩ := toDigits_head n (by omega)
    have hall : ∀ d ∈ c :: ds, d.isDigit = true := fun d hd => isDigit_of_mem_toDigits (hcs ▸ hd)
    obtain ⟨htake, hdrop⟩ := takeWhile_digits fun d hd => hall d (List.mem_cons_of_mem c hd)
    have hint : scanInt (c :: ds) = some (c :: ds, []) := by
      simp [scanInt, hc, hall c (List.mem_cons_self ..), htake, hdrop]
    rw [hcs]
    simp only [scanUnsigned, hint, Option.map_some]
    rfl

theorem scanNumber_intText (i : Int) : scanNumber (intText i) = some (intText i, [], []) := by
  cases i with
  | ofNat n =>
    show scanNumber (Nat.toDigits 10 n) = some (Nat.toDigits 10 n, [], [])
    have h := scanUnsigned_toDigits n
    cases hds : Nat.toDigits 10 n with
    | nil => exact absurd hds Nat.toDigits_ne_nil
    | cons c ds =>
      rw [hds] at h
      have hc : c.isDigit = true := isDigit_of_mem_toDigits (n := n) (by rw [hds]; simp)
      rw [scanNumber, if_neg (dash_ne_digit hc), h]
  | negSucc n =>
    show scanNumber ('-' :: Nat.toDigits 10 (n + 1)) = some ('-' :: Nat.toDigits 10 (n + 1), [], [])
    rw [scanNumber, if_pos rfl, scanUnsigned_toDigits]
    rfl

@[simp] theorem readInt_intText (i : Int) : readInt (intText i) = i := by
  cases i with
  | ofNat n =>
    show readInt (Nat.toDigits 10 n) = n
    cases hds : Nat.toDigits 10 n with
    | nil => exact absurd hds Nat.toDigits_ne_nil
    | cons c ds =>
      have hc : c.isDigit = true := isDigit_of_mem_toDigits (n := n) (by rw [hds]; simp)
      rw [readInt, if_neg (dash_ne_digit hc), ← hds, Nat.ofDigitChars_ten_toDigits]
  | negSucc n =>
    show readInt ('-' :: Nat.toDigits 10 (n + 1)) = Int.negSucc n
    rw [readInt, if_pos rfl, Nat.ofDigitChars_ten_toDigits]
    rfl

theorem intText_injective : Function.Injective intText := by
  intro i j h
  rw [← readInt_intText i, h, readInt_intText]

theorem underscore_not_mem_intText (i : Int) : '_' ∉ intText i := by
  cases i with
  | ofNat n => exact Nat.underscore_not_in_toDigits
  | negSucc n =>
    simp only [intText, List.mem_cons, not_or]
    exact ⟨by decide, Nat.underscore_not_in_toDigits⟩

/-! ### Floats -/

/-- A float: finite, or one of the values JSON has only by extension. -/
inductive Fl (F : Type) where
  | finite (x : F)
  | nan
  | infinity (negative : Bool)
  deriving DecidableEq

/-- One whole literal with a fraction or an exponent. -/
def isFloatLiteral (t : List Char) : Bool :=
  match scanNumber t with
  | some (m, f, []) => f != [] && m ++ f == t
  | _ => false

theorem scanNumber_floatLiteral {t : List Char} (h : isFloatLiteral t = true) :
    ∃ m f, f ≠ [] ∧ m ++ f = t ∧ scanNumber t = some (m, f, []) := by
  unfold isFloatLiteral at h
  split at h
  · next m f hs =>
    simp only [Bool.and_eq_true, bne_iff_ne, ne_eq, beq_iff_eq] at h
    exact ⟨m, f, h.1, h.2, hs⟩
  · cases h

/-- A representation of finite floats by literals that have a fraction or an exponent. -/
class FloatCodec (F : Type) where
  repr : F → List Char
  /-- A literal too large for the format reads as an infinity. -/
  read : List Char → Fl F
  repr_literal : ∀ x, isFloatLiteral (repr x) = true
  read_repr : ∀ x, read (repr x) = .finite x

/-- The literals themselves, each its own value. -/
abbrev Literal : Type := {t : List Char // isFloatLiteral t = true}

instance : FloatCodec Literal where
  repr := Subtype.val
  read := fun t => if h : isFloatLiteral t = true then .finite ⟨t, h⟩ else .nan
  repr_literal := Subtype.property
  read_repr := fun x => by simp [x.property]

end PiPlatform.Library.Json
