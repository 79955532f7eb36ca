import Mathlib.Data.Nat.Bitwise
import Mathlib.Data.List.Basic

/-!
# Packed bit sets and their hex text

A bit set over `Nat` packed LSB-first into a list of bytes, and the lowercase hex text such a
list is stored as. Every fact about a packed set goes through **one observation**, `bit`: two
lists of the same length are equal exactly when their bits agree (`ext_bit`), a write changes
the bit it names and no other (`bit_setBit`), and hex is a faithful coding (`hexDecode_hexEncode`).
-/

namespace PackedBits

variable {bits : List UInt8} {i : Nat}

/-! ## Bits of a byte list -/

def bit (bits : List UInt8) (i : Nat) : Bool :=
  (bits.getD (i / 8) 0).toNat.testBit (i % 8)

def setBit (bits : List UInt8) (i : Nat) : List UInt8 :=
  bits.modify (i / 8) fun b => UInt8.ofNat (b.toNat ||| 1 <<< (i % 8))

@[simp] theorem length_setBit (bits : List UInt8) (i : Nat) :
    (setBit bits i).length = bits.length := by
  simp [setBit]

@[simp] theorem bit_replicate_zero (n i : Nat) : bit (List.replicate n 0) i = false := by
  unfold bit
  rw [List.getD_eq_getElem?_getD, List.getElem?_replicate]
  split <;> simp

theorem bit_eq_false_of_length_le (h : 8 * bits.length ≤ i) : bit bits i = false := by
  have hi : bits.length ≤ i / 8 := by omega
  simp [bit, List.getD_eq_getElem?_getD, List.getElem?_eq_none hi]

theorem getD_modify_self {f : UInt8 → UInt8} (h : i < bits.length) :
    (bits.modify i f).getD i 0 = f (bits.getD i 0) := by
  simp [List.getD_eq_getElem?_getD, h]

theorem toNat_lt_two_pow {b : UInt8} : b.toNat < 2 ^ 8 := b.toNat_lt

/-- **A packed write sets its own bit and no other.** -/
theorem bit_setBit (h : i / 8 < bits.length) (j : Nat) :
    bit (setBit bits i) j = (bit bits j || decide (i = j)) := by
  unfold bit setBit
  by_cases hb : i / 8 = j / 8
  · have hmask : (bits.getD (i / 8) 0).toNat ||| 1 <<< (i % 8) < 2 ^ 8 := by
      refine Nat.or_lt_two_pow toNat_lt_two_pow ?_
      simpa [Nat.shiftLeft_eq] using Nat.pow_lt_pow_right (by decide : 1 < 2)
        (Nat.mod_lt i (by decide))
    rw [← hb, getD_modify_self h, UInt8.toNat_ofNat_of_lt' hmask, Nat.testBit_or,
      Nat.shiftLeft_eq, Nat.one_mul, Nat.testBit_two_pow]
    have hij : (i % 8 = j % 8) ↔ i = j := by omega
    simp [hij]
  · have hne : i ≠ j := fun h => hb (by rw [h])
    simp [List.getD_eq_getElem?_getD, hb, hne]

theorem byte_ext {b c : UInt8} (h : ∀ k < 8, b.toNat.testBit k = c.toNat.testBit k) : b = c := by
  refine UInt8.toNat_inj.mp (Nat.eq_of_testBit_eq fun k => ?_)
  by_cases hk : k < 8
  · exact h k hk
  · have hp : 2 ^ 8 ≤ 2 ^ k := Nat.pow_le_pow_right (by decide) (by omega)
    rw [Nat.testBit_lt_two_pow (lt_of_lt_of_le toNat_lt_two_pow hp),
      Nat.testBit_lt_two_pow (lt_of_lt_of_le toNat_lt_two_pow hp)]

/-- **Bits determine the list.** -/
theorem ext_bit {xs ys : List UInt8} (hlen : xs.length = ys.length)
    (h : ∀ i, bit xs i = bit ys i) : xs = ys := by
  refine List.ext_getElem hlen fun i hx hy => byte_ext fun k hk => ?_
  have hi := h (8 * i + k)
  have hdiv : (8 * i + k) / 8 = i := by omega
  have hmod : (8 * i + k) % 8 = k := by omega
  simpa [bit, hdiv, hmod, List.getD_eq_getElem?_getD, hx, hy] using hi

/-! ## Hex text -/

def hexDigit (n : Nat) : Char :=
  ['0', '1', '2', '3', '4', '5', '6', '7', '8', '9', 'a', 'b', 'c', 'd', 'e', 'f'].getD n '0'

def hexValue (c : Char) : Option Nat :=
  if '0' ≤ c ∧ c ≤ '9' then some (c.toNat - '0'.toNat)
  else if 'a' ≤ c ∧ c ≤ 'f' then some (c.toNat - 'a'.toNat + 10)
  else if 'A' ≤ c ∧ c ≤ 'F' then some (c.toNat - 'A'.toNat + 10)
  else none

def hexEncode : List UInt8 → List Char
  | [] => []
  | b :: bs => hexDigit (b.toNat / 16) :: hexDigit (b.toNat % 16) :: hexEncode bs

/-- Decoding fails on an odd number of digits and on any character that is not a digit. -/
def hexDecode : List Char → Option (List UInt8)
  | [] => some []
  | [_] => none
  | hi :: lo :: rest => do
    let h ← hexValue hi
    let l ← hexValue lo
    let bs ← hexDecode rest
    return UInt8.ofNat (16 * h + l) :: bs

theorem hexValue_hexDigit {n : Nat} (h : n < 16) : hexValue (hexDigit n) = some n := by
  revert n
  decide

theorem hexDecode_hexEncode (bs : List UInt8) : hexDecode (hexEncode bs) = some bs := by
  induction bs with
  | nil => rfl
  | cons b bs ih =>
    have hlt : b.toNat < 256 := b.toNat_lt
    have hsum : 16 * (b.toNat / 16) + b.toNat % 16 = b.toNat := Nat.div_add_mod _ _
    have hdecode : hexDecode (hexEncode (b :: bs)) =
        some (UInt8.ofNat (16 * (b.toNat / 16) + b.toNat % 16) :: bs) := by
      simp only [hexEncode, hexDecode, ih, hexValue_hexDigit (n := b.toNat / 16) (by omega),
        hexValue_hexDigit (n := b.toNat % 16) (by omega)]
      rfl
    rw [hdecode, hsum, UInt8.ofNat_toNat]

end PackedBits
