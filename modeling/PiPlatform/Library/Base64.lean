import Mathlib.Data.List.DropRight

/-! Base64 as CPython has it.

`a2bBase64` reads four digits at a time, skips what is not of the alphabet, and stops where a
quad is padded to its end. `a2bBase64_b64encode`: what was encoded is read back. The digits
that were written and the padding are told apart by `b64encode_eq`. -/
namespace PiPlatform.Library.Base64

abbrev Bytes := List UInt8

/-! ### Digits -/

def digit (n : Nat) : Char :=
  if n < 26 then Char.ofNat (65 + n)
  else if n < 52 then Char.ofNat (71 + n)
  else if n < 62 then Char.ofNat (n - 4)
  else if n = 62 then '+'
  else '/'

def value (c : Char) : Option Nat :=
  if 'A' ≤ c ∧ c ≤ 'Z' then some (c.toNat - 65)
  else if 'a' ≤ c ∧ c ≤ 'z' then some (c.toNat - 71)
  else if '0' ≤ c ∧ c ≤ '9' then some (c.toNat + 4)
  else if c = '+' then some 62
  else if c = '/' then some 63
  else none

/-- A digit of the alphabet. -/
def IsDigit (c : Char) : Prop := ∃ n < 64, c = digit n

theorem value_digit : ∀ n < 64, value (digit n) = some n := by decide

theorem digit_ne_pad : ∀ n < 64, digit n ≠ '=' := by decide

/-! ### Writing and reading -/

def b64encode : Bytes → List Char
  | a :: b :: c :: rest =>
    digit (a.toNat / 4) :: digit (a.toNat % 4 * 16 + b.toNat / 16) ::
      digit (b.toNat % 16 * 4 + c.toNat / 64) :: digit (c.toNat % 64) :: b64encode rest
  | [a, b] =>
    [digit (a.toNat / 4), digit (a.toNat % 4 * 16 + b.toNat / 16), digit (b.toNat % 16 * 4), '=']
  | [a] => [digit (a.toNat / 4), digit (a.toNat % 4 * 16), '=', '=']
  | [] => []

/-- Reading from a place in a quad, with the bits that are left there and the padding seen. -/
def readFrom (quadPos leftchar pads : Nat) : List Char → Option Bytes
  | [] => if quadPos = 0 then some [] else none
  | c :: cs =>
    if c = '=' then
      if 2 ≤ quadPos then
        if 4 ≤ quadPos + (pads + 1) then some [] else readFrom quadPos leftchar (pads + 1) cs
      else readFrom quadPos leftchar pads cs
    else
      match value c with
      | none => readFrom quadPos leftchar pads cs
      | some v =>
        match quadPos with
        | 0 => readFrom 1 v 0 cs
        | 1 => (readFrom 2 (v % 16) 0 cs).map (UInt8.ofNat (leftchar * 4 + v / 16) :: ·)
        | 2 => (readFrom 3 (v % 4) 0 cs).map (UInt8.ofNat (leftchar * 16 + v / 4) :: ·)
        | _ => (readFrom 0 0 0 cs).map (UInt8.ofNat (leftchar * 64 + v) :: ·)

/-- `binascii.a2b_base64`, not strict. -/
def a2bBase64 (cs : List Char) : Option Bytes := readFrom 0 0 0 cs

/-! ### Reading back -/

section Read
variable {left pads n : Nat} {cs : List Char}

theorem readFrom_first (hn : n < 64) :
    readFrom 0 left pads (digit n :: cs) = readFrom 1 n 0 cs := by
  simp only [readFrom, if_neg (digit_ne_pad n hn), value_digit n hn]

theorem readFrom_second (hn : n < 64) : readFrom 1 left pads (digit n :: cs) =
    (readFrom 2 (n % 16) 0 cs).map (UInt8.ofNat (left * 4 + n / 16) :: ·) := by
  simp only [readFrom, if_neg (digit_ne_pad n hn), value_digit n hn]

theorem readFrom_third (hn : n < 64) : readFrom 2 left pads (digit n :: cs) =
    (readFrom 3 (n % 4) 0 cs).map (UInt8.ofNat (left * 16 + n / 4) :: ·) := by
  simp only [readFrom, if_neg (digit_ne_pad n hn), value_digit n hn]

theorem readFrom_fourth (hn : n < 64) : readFrom 3 left pads (digit n :: cs) =
    (readFrom 0 0 0 cs).map (UInt8.ofNat (left * 64 + n) :: ·) := by
  simp only [readFrom, if_neg (digit_ne_pad n hn), value_digit n hn]

end Read

theorem isDigit_digit {n : Nat} (hn : n < 64) : IsDigit (digit n) := ⟨n, hn, rfl⟩

theorem ofNat_of_toNat {a : UInt8} {n : Nat} (h : n = a.toNat) : UInt8.ofNat n = a := by
  rw [h, UInt8.ofNat_toNat]

/-- What was encoded is read back. -/
theorem a2bBase64_b64encode (bytes : Bytes) : a2bBase64 (b64encode bytes) = some bytes := by
  rw [a2bBase64]
  fun_induction b64encode bytes with
  | case1 a b c rest ih =>
    have ha := a.toNat_lt
    have hb := b.toNat_lt
    have hc := c.toNat_lt
    rw [readFrom_first (by omega), readFrom_second (by omega), readFrom_third (by omega),
      readFrom_fourth (by omega), ih, ofNat_of_toNat (a := a) (by omega),
      ofNat_of_toNat (a := b) (by omega), ofNat_of_toNat (a := c) (by omega)]
    rfl
  | case2 a b =>
    have ha := a.toNat_lt
    have hb := b.toNat_lt
    rw [readFrom_first (by omega), readFrom_second (by omega), readFrom_third (by omega),
      ofNat_of_toNat (a := a) (by omega), ofNat_of_toNat (a := b) (by omega)]
    rfl
  | case3 a =>
    have ha := a.toNat_lt
    rw [readFrom_first (by omega), readFrom_second (by omega),
      ofNat_of_toNat (a := a) (by omega)]
    rfl
  | case4 => rfl

/-- The padding that fills the last quad. -/
def padding (length : Nat) : Nat := if 4 - length % 4 = 4 then 0 else 4 - length % 4

/-- What is written is digits, and what fills the last quad. -/
theorem b64encode_eq (bytes : Bytes) : ∃ ds : List Char, (∀ d ∈ ds, IsDigit d) ∧
    b64encode bytes = ds ++ List.replicate (padding ds.length) '=' := by
  fun_induction b64encode bytes with
  | case1 a b c rest ih =>
    obtain ⟨ds, hds, heq⟩ := ih
    have ha := a.toNat_lt
    have hb := b.toNat_lt
    have hc := c.toNat_lt
    refine ⟨_ :: _ :: _ :: _ :: ds, List.forall_mem_cons.mpr
      ⟨isDigit_digit (n := a.toNat / 4) (by omega), List.forall_mem_cons.mpr
        ⟨isDigit_digit (n := a.toNat % 4 * 16 + b.toNat / 16) (by omega), List.forall_mem_cons.mpr
          ⟨isDigit_digit (n := b.toNat % 16 * 4 + c.toNat / 64) (by omega),
            List.forall_mem_cons.mpr ⟨isDigit_digit (n := c.toNat % 64) (by omega), hds⟩⟩⟩⟩, ?_⟩
    have hlength : padding (ds.length + 1 + 1 + 1 + 1) = padding ds.length := by
      have hmod : (ds.length + 1 + 1 + 1 + 1) % 4 = ds.length % 4 := by omega
      rw [padding, padding, hmod]
    simp only [List.length_cons, hlength, heq, List.cons_append]
  | case2 a b =>
    have ha := a.toNat_lt
    have hb := b.toNat_lt
    refine ⟨[_, _, _], List.forall_mem_cons.mpr
      ⟨isDigit_digit (n := a.toNat / 4) (by omega), List.forall_mem_cons.mpr
        ⟨isDigit_digit (n := a.toNat % 4 * 16 + b.toNat / 16) (by omega),
          List.forall_mem_singleton.mpr
            (isDigit_digit (n := b.toNat % 16 * 4) (by omega))⟩⟩, rfl⟩
  | case3 a =>
    have ha := a.toNat_lt
    exact ⟨[_, _], List.forall_mem_cons.mpr
      ⟨isDigit_digit (n := a.toNat / 4) (by omega), List.forall_mem_singleton.mpr
        (isDigit_digit (n := a.toNat % 4 * 16) (by omega))⟩, rfl⟩
  | case4 => exact ⟨[], List.forall_mem_nil _, rfl⟩

end PiPlatform.Library.Base64
