import PiPlatform.Library.Json.Text
import Mathlib.Data.Nat.Digits.Defs
import Mathlib.Tactic.NormNum

/-! String literals: writing a text in ASCII and reading a literal back. -/
namespace PiPlatform.Library.Json
variable {cs rest : List Char}

/-! ### Writing -/

/-- Four lower-case hexadecimal digits. -/
def hex4 (n : Nat) : List Char :=
  [Nat.digitChar (n / 0x1000 % 0x10), Nat.digitChar (n / 0x100 % 0x10),
    Nat.digitChar (n / 0x10 % 0x10), Nat.digitChar (n % 0x10)]

def unicodeEscape (n : Nat) : List Char := '\\' :: 'u' :: hex4 n

def escapeChar (c : CodePoint) : List Char :=
  if c.val = 0x22 then ['\\', '"']
  else if c.val = 0x5C then ['\\', '\\']
  else if c.val = 0x08 then ['\\', 'b']
  else if c.val = 0x0C then ['\\', 'f']
  else if c.val = 0x0A then ['\\', 'n']
  else if c.val = 0x0D then ['\\', 'r']
  else if c.val = 0x09 then ['\\', 't']
  else if 0x20 ≤ c.val ∧ c.val ≤ 0x7E then [Char.ofNat c.val]
  else if c.val < 0x10000 then unicodeEscape c.val
  else unicodeEscape (highHalf c).val ++ unicodeEscape (lowHalf c).val

def escape (s : Text) : List Char := s.flatMap escapeChar

def quote (s : Text) : List Char := '"' :: (escape s ++ ['"'])

/-! ### Reading -/

def hexVal (c : Char) : Option Nat :=
  if '0' ≤ c ∧ c ≤ '9' then some (c.toNat - 48)
  else if 'a' ≤ c ∧ c ≤ 'f' then some (c.toNat - 87)
  else if 'A' ≤ c ∧ c ≤ 'F' then some (c.toNat - 55)
  else none

def hexVal4 (a b c d : Char) : Option CodePoint := do
  let a ← hexVal a
  let b ← hexVal b
  let c ← hexVal c
  let d ← hexVal d
  return Fin.ofNat 0x110000 (a * 0x1000 + b * 0x100 + c * 0x10 + d)

def backslash : Char → Option Char
  | '"' => some '"'
  | '\\' => some '\\'
  | '/' => some '/'
  | 'b' => some (Char.ofNat 0x08)
  | 'f' => some (Char.ofNat 0x0C)
  | 'n' => some '\n'
  | 'r' => some '\r'
  | 't' => some '\t'
  | _ => none

/-- The body of a string literal up to its closing quote, one code point for each
character or escape. Control characters are refused. -/
def scanBody : List Char → Option (Text × List Char)
  | [] => none
  | '"' :: rest => some ([], rest)
  | '\\' :: 'u' :: a :: b :: c :: d :: rest =>
    (hexVal4 a b c d).bind fun n => (scanBody rest).map fun p => (n :: p.1, p.2)
  | '\\' :: e :: rest =>
    (backslash e).bind fun c => (scanBody rest).map fun p => (ofChar c :: p.1, p.2)
  | c :: rest =>
    if 0x20 ≤ c.toNat then (scanBody rest).map fun p => (ofChar c :: p.1, p.2) else none

/-- Only escapes give surrogates, so joining the pairs of adjacent ones after the
scan is joining each high escape with a low escape right behind it. -/
def decodeBody (cs : List Char) : Option (Text × List Char) :=
  (scanBody cs).map fun p => (joinSurrogates p.1, p.2)

/-! ### Reading back what was written -/

theorem hexVal_digitChar : ∀ n, n < 0x10 → hexVal (Nat.digitChar n) = some n := by decide

theorem scanBody_unicodeEscape (n : CodePoint) (h : n.val < 0x10000) (rest : List Char) :
    scanBody (unicodeEscape n.val ++ rest) = (scanBody rest).map fun p => (n :: p.1, p.2) := by
  have hn : n.val / 0x1000 % 0x10 * 0x1000 + n.val / 0x100 % 0x10 * 0x100 +
      n.val / 0x10 % 0x10 * 0x10 + n.val % 0x10 = n.val := by omega
  have hfin : Fin.ofNat 0x110000 n.val = n := Fin.ext (Nat.mod_eq_of_lt n.isLt)
  have h4 : hexVal4 (Nat.digitChar (n.val / 0x1000 % 0x10)) (Nat.digitChar (n.val / 0x100 % 0x10))
      (Nat.digitChar (n.val / 0x10 % 0x10)) (Nat.digitChar (n.val % 0x10)) = some n := by
    simp only [hexVal4, hexVal_digitChar _ (Nat.mod_lt _ (by decide)), Option.bind_eq_bind,
      Option.bind_some, hn, hfin]
    rfl
  simp only [unicodeEscape, hex4, List.cons_append, List.nil_append, scanBody, h4, Option.bind_some]

theorem scanBody_backslash {e c : Char} (h : backslash e = some c) (rest : List Char) :
    scanBody ('\\' :: e :: rest) = (scanBody rest).map fun p => (ofChar c :: p.1, p.2) := by
  have hu : e ≠ 'u' := by
    rintro rfl
    cases h
  rw [scanBody.eq_def]
  split <;> grind

theorem scanBody_plain {c : Char} (hq : c ≠ '"') (hb : c ≠ '\\') (h : 0x20 ≤ c.toNat)
    (rest : List Char) :
    scanBody (c :: rest) = (scanBody rest).map fun p => (ofChar c :: p.1, p.2) := by
  rw [scanBody.eq_def]
  split <;> simp_all

theorem ofChar_ofNat {n : Nat} {c : CodePoint} (hn : n < 0x80) (h : c.val = n) :
    ofChar (Char.ofNat n) = c := by
  apply Fin.ext
  have hv : n.isValidChar := Or.inl (by omega)
  show (Char.ofNat n).toNat = c.val
  rw [h, Char.ofNat, dif_pos hv]
  rfl

/-- What the escape of one code point reads back as. -/
theorem scanBody_escapeChar (c : CodePoint) (rest : List Char) :
    scanBody (escapeChar c ++ rest) = (scanBody rest).map fun p => (units c ++ p.1, p.2) := by
  have hshort : ∀ {e d : Char}, backslash e = some d → c.val < 0x10000 → ofChar d = c →
      scanBody (['\\', e] ++ rest) = (scanBody rest).map fun p => (units c ++ p.1, p.2) := by
    intro e d hd hc hdc
    have hu : units c = [c] := by simp [units, hc]
    rw [hu, ← hdc]
    exact scanBody_backslash hd rest
  unfold escapeChar
  split
  · next h => exact hshort rfl (by omega) (ofChar_ofNat (n := 0x22) (by decide) h)
  split
  · next h => exact hshort rfl (by omega) (ofChar_ofNat (n := 0x5C) (by decide) h)
  split
  · next h => exact hshort rfl (by omega) (ofChar_ofNat (n := 0x08) (by decide) h)
  split
  · next h => exact hshort rfl (by omega) (ofChar_ofNat (n := 0x0C) (by decide) h)
  split
  · next h => exact hshort rfl (by omega) (ofChar_ofNat (n := 0x0A) (by decide) h)
  split
  · next h => exact hshort rfl (by omega) (ofChar_ofNat (n := 0x0D) (by decide) h)
  split
  · next h => exact hshort rfl (by omega) (ofChar_ofNat (n := 0x09) (by decide) h)
  split
  · next hq hb _ _ _ _ _ h =>
    have hv : c.val.isValidChar := Or.inl (by omega)
    have hnat : (Char.ofNat c.val).toNat = c.val := by
      rw [Char.ofNat, dif_pos hv]
      rfl
    have hu : units c = [c] := by simp [units, show c.val < 0x10000 by omega]
    rw [hu, List.singleton_append, scanBody_plain _ _ (by omega), ofChar_ofNat (by omega) rfl]
    · rfl
    · intro he
      rw [he] at hnat
      exact hq hnat.symm
    · intro he
      rw [he] at hnat
      exact hb hnat.symm
  split
  · next h =>
    have hu : units c = [c] := by simp [units, h]
    rw [hu, scanBody_unicodeEscape c h]
    rfl
  · next h =>
    have hlo : (lowHalf c).val < 0x10000 := by rw [lowHalf_val]; omega
    have hhi : (highHalf c).val < 0x10000 := by
      have := c.isLt
      rw [highHalf_val]
      omega
    have hu : units c = [highHalf c, lowHalf c] := by simp [units, h]
    rw [hu, List.append_assoc, scanBody_unicodeEscape _ hhi, scanBody_unicodeEscape _ hlo,
      Option.map_map]
    rfl

theorem scanBody_escape (s : Text) (rest : List Char) :
    scanBody (escape s ++ '"' :: rest) = some (s.flatMap units, rest) := by
  induction s with
  | nil => rfl
  | cons c s ih =>
    rw [escape, List.flatMap_cons, List.append_assoc, scanBody_escapeChar, ← escape, ih]
    rfl

/-- Reading a written text gives the text with its surrogate pairs joined. -/
theorem decodeBody_escape (s : Text) (rest : List Char) :
    decodeBody (escape s ++ '"' :: rest) = some (joinSurrogates s, rest) := by
  simp [decodeBody, scanBody_escape, joinSurrogates_units]

theorem scanBody_length {s : Text} (h : scanBody cs = some (s, rest)) :
    rest.length < cs.length := by
  fun_induction scanBody cs generalizing s with
  | case1 => cases h
  | case2 r => simp_all
  | case3 a b c d r ih =>
    simp only [Option.bind_eq_some_iff, Option.map_eq_some_iff, Prod.mk.injEq] at h
    obtain ⟨n, -, p, hp, -, rfl⟩ := h
    have hlt := ih hp
    simp only [List.length_cons]
    omega
  | case4 e r _ ih =>
    simp only [Option.bind_eq_some_iff, Option.map_eq_some_iff, Prod.mk.injEq] at h
    obtain ⟨c, -, p, hp, -, rfl⟩ := h
    have hlt := ih hp
    simp only [List.length_cons]
    omega
  | case5 c r _ _ _ _ ih =>
    simp only [Option.map_eq_some_iff, Prod.mk.injEq] at h
    obtain ⟨p, hp, -, rfl⟩ := h
    have hlt := ih hp
    simp only [List.length_cons]
    omega
  | case6 c r => cases h

theorem decodeBody_length {s : Text} (h : decodeBody cs = some (s, rest)) :
    rest.length < cs.length := by
  simp only [decodeBody, Option.map_eq_some_iff, Prod.mk.injEq] at h
  obtain ⟨⟨s', rest'⟩, hs, -, rfl⟩ := h
  exact scanBody_length hs

theorem decodeBody_joined {s : Text} (h : decodeBody cs = some (s, rest)) :
    Joined s := by
  simp only [decodeBody, Option.map_eq_some_iff, Prod.mk.injEq] at h
  obtain ⟨p, -, rfl, -⟩ := h
  exact joined_joinSurrogates p.1

theorem escapeChar_bmp {c : CodePoint} (hlo : 0x7E < c.val) (hhi : c.val < 0x10000) :
    escapeChar c = unicodeEscape c.val := by
  unfold escapeChar
  repeat rw [if_neg (by omega)]
  rw [if_pos hhi]

theorem escapeChar_astral {c : CodePoint} (h : 0x10000 ≤ c.val) :
    escapeChar c = unicodeEscape (highHalf c).val ++ unicodeEscape (lowHalf c).val := by
  unfold escapeChar
  repeat rw [if_neg (by omega)]

/-- Texts that differ only in how pairs are spelt are written alike. -/
theorem escape_joinSurrogates (s : Text) : escape (joinSurrogates s) = escape s := by
  induction s using joinSurrogates.induct with
  | case1 => rfl
  | case2 c => rfl
  | case3 h l rest hj ih =>
    have hj' := Bool.and_eq_true_iff.mp hj
    have hv := joinPair_val hj'.1 hj'.2
    have hh := isHigh_iff.mp hj'.1
    have hl := isLow_iff.mp hj'.2
    have hhigh : highHalf (joinPair h l) = h := Fin.ext (by rw [highHalf_val, hv]; omega)
    have hlow : lowHalf (joinPair h l) = l := Fin.ext (by rw [lowHalf_val, hv]; omega)
    have hjs : joinSurrogates (h :: l :: rest) = joinPair h l :: joinSurrogates rest := by
      simp [joinSurrogates, hj]
    rw [hjs, escape, List.flatMap_cons, ← escape, ih, escapeChar_astral (by omega), hhigh, hlow,
      ← escapeChar_bmp (by omega) (by omega), ← escapeChar_bmp (by omega) (by omega)]
    simp [escape]
  | case4 h l rest hj ih =>
    have hjs : joinSurrogates (h :: l :: rest) = h :: joinSurrogates (l :: rest) := by
      simp [joinSurrogates, hj]
    rw [hjs, escape, List.flatMap_cons, ← escape, ih]
    rfl

end PiPlatform.Library.Json
