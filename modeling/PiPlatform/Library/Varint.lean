import Mathlib.Algebra.Order.Ring.Nat
import Mathlib.Tactic.Ring

/-! Numbers as bytes of seven bits each, the lowest first, all but the last with the high bit set.

A number has many such forms, as zeroes may follow; `encode` gives the shortest
(`length_encode_le`). `accumulate_cons` is the step of a loop that ors each byte's bits to those
below them. -/
namespace PiPlatform.Library.Varint

/-- The high bit is set in every byte but the last. -/
def IsVarint : List UInt8 → Prop
  | [] => False
  | [b] => b.toNat < 128
  | b :: c :: bytes => 128 ≤ b.toNat ∧ IsVarint (c :: bytes)

instance decidableIsVarint : (bytes : List UInt8) → Decidable (IsVarint bytes)
  | [] => .isFalse id
  | [b] => inferInstanceAs (Decidable (b.toNat < 128))
  | b :: c :: bytes =>
    @instDecidableAnd (128 ≤ b.toNat) (IsVarint (c :: bytes)) _ (decidableIsVarint (c :: bytes))

def value : List UInt8 → Nat
  | [] => 0
  | b :: bytes => b.toNat % 128 + 128 * value bytes

def encode (n : Nat) : List UInt8 :=
  if n < 128 then [UInt8.ofNat n] else UInt8.ofNat (n % 128 + 128) :: encode (n / 128)

variable {b : UInt8} {bytes : List UInt8} {n : Nat}

theorem toNat_ofNat_of_lt (h : n < 256) : (UInt8.ofNat n).toNat = n := by
  rw [UInt8.toNat_ofNat']
  omega

theorem encode_of_lt (h : n < 128) : encode n = [UInt8.ofNat n] := by
  rw [encode, if_pos h]

theorem encode_of_le (h : 128 ≤ n) :
    encode n = UInt8.ofNat (n % 128 + 128) :: encode (n / 128) := by
  rw [encode, if_neg (by omega)]

theorem encode_ne_nil (n : Nat) : encode n ≠ [] := by
  rw [encode]
  split <;> exact List.cons_ne_nil _ _

theorem isVarint_cons (hb : 128 ≤ b.toNat) (h : IsVarint bytes) : IsVarint (b :: bytes) := by
  cases bytes with
  | nil => exact absurd h id
  | cons c bytes => exact ⟨hb, h⟩

theorem lt_of_isVarint (h : IsVarint [b]) : b.toNat < 128 := h

theorem not_lt_of_isVarint {c : UInt8} (h : IsVarint (b :: c :: bytes)) : ¬ b.toNat < 128 :=
  not_lt.mpr h.1

theorem length_pos (h : IsVarint bytes) : 1 ≤ bytes.length := by
  cases bytes with
  | nil => exact absurd h id
  | cons b bytes => exact Nat.succ_le_succ (Nat.zero_le _)

theorem isVarint_encode (n : Nat) : IsVarint (encode n) := by
  induction n using Nat.strong_induction_on with
  | _ n ih =>
    by_cases hn : n < 128
    · rw [encode_of_lt hn, IsVarint, toNat_ofNat_of_lt (by omega)]
      exact hn
    · rw [encode_of_le (by omega)]
      refine isVarint_cons ?_ (ih (n / 128) (by omega))
      rw [toNat_ofNat_of_lt (by omega)]
      omega

theorem value_encode (n : Nat) : value (encode n) = n := by
  induction n using Nat.strong_induction_on with
  | _ n ih =>
    by_cases hn : n < 128
    · rw [encode_of_lt hn, value, value, toNat_ofNat_of_lt (by omega)]
      omega
    · rw [encode_of_le (by omega), value, ih (n / 128) (by omega), toNat_ofNat_of_lt (by omega)]
      omega

/-- The shortest form of a number of `7 * k` bits has `k` bytes. -/
theorem length_encode_le {k : Nat} (h : n < 128 ^ (k + 1)) : (encode n).length ≤ k + 1 := by
  induction k generalizing n with
  | zero =>
    rw [encode_of_lt (by simpa using h)]
    exact le_rfl
  | succ k ih =>
    by_cases hn : n < 128
    · rw [encode_of_lt hn, List.length_singleton]
      omega
    · rw [encode_of_le (by omega), List.length_cons]
      have hdiv : n / 128 < 128 ^ (k + 1) := by
        rw [Nat.div_lt_iff_lt_mul (by decide), ← pow_succ]
        exact h
      exact Nat.succ_le_succ (ih hdiv)

/-! ### Bits -/

theorem and_low (m : Nat) : m &&& 0x7F = m % 128 := Nat.and_two_pow_sub_one_eq_mod m 7

theorem and_high (b : UInt8) : b.toNat &&& 0x80 = 0 ↔ b.toNat < 128 := by
  have hall : ∀ m : Fin 256, m.val &&& 0x80 = 0 ↔ m.val < 128 := by decide +kernel
  exact hall ⟨b.toNat, b.toNat_lt⟩

/-- Bits above those there are, are added to them. -/
theorem or_shift {acc shift : Nat} (h : acc < 2 ^ shift) (m : Nat) :
    acc ||| (m <<< shift) = acc + m * 2 ^ shift := by
  rw [Nat.shiftLeft_eq, Nat.or_comm, Nat.mul_comm, ← Nat.two_pow_add_eq_or_of_lt h, Nat.add_comm]

theorem acc_lt {acc shift m : Nat} (h : acc < 2 ^ shift) (hm : m < 128) :
    acc + m * 2 ^ shift < 2 ^ (shift + 7) := by
  have hmul : (m + 1) * 2 ^ shift ≤ 128 * 2 ^ shift := Nat.mul_le_mul_right _ hm
  rw [pow_add]
  rw [add_mul, one_mul] at hmul
  omega

/-- One byte more of a number whose lower bits are there. -/
theorem accumulate_cons (acc shift : Nat) (b : UInt8) (bytes : List UInt8) :
    acc + b.toNat % 128 * 2 ^ shift + value bytes * 2 ^ (shift + 7) =
      acc + value (b :: bytes) * 2 ^ shift := by
  rw [value, pow_add]
  ring

end PiPlatform.Library.Varint
