import Mathlib.Data.List.Basic
import Mathlib.Order.Lattice

/-!
# Byte sequences with a length

A file, or a block of received data, as **a length and a byte function**. Positional writes
overlay a range and zero-fill a gap past the end, exact reads fail past the end, and the two
meet in two rules: a write changes nothing outside its range (`slice_write_disjoint`), and a
slice depends only on the bytes under it (`slice_congr`).
-/

/-- A finite sequence of bytes; `byte` is meaningful below `len`. -/
structure ByteSeq where
  len : Nat
  byte : Nat → UInt8

namespace ByteSeq

variable {p data : ByteSeq} {start n : Nat}

def empty : ByteSeq := ⟨0, fun _ => 0⟩

def slice (p : ByteSeq) (start : Nat) : Nat → List UInt8
  | 0 => []
  | n + 1 => p.byte start :: slice p (start + 1) n

def readExact (p : ByteSeq) (start n : Nat) : Option (List UInt8) :=
  if start + n ≤ p.len then some (p.slice start n) else none

/-- Write `data` at `start`. Bytes between the old end and `start` read as zero. -/
def write (p : ByteSeq) (start : Nat) (data : ByteSeq) : ByteSeq where
  len := if data.len = 0 then p.len else max p.len (start + data.len)
  byte i :=
    if start ≤ i ∧ i < start + data.len then data.byte (i - start)
    else if i < p.len then p.byte i
    else 0

/-! ## Slices -/

theorem slice_congr {q : ByteSeq} (h : ∀ i, start ≤ i → i < start + n → p.byte i = q.byte i) :
    p.slice start n = q.slice start n := by
  induction n generalizing start with
  | zero => rfl
  | succ n ih =>
    simp only [slice, List.cons.injEq]
    refine ⟨h start le_rfl (by omega), ih fun i hs he => h i (by omega) (by omega)⟩

/-! ## Writes -/

theorem len_le_len_write (p : ByteSeq) (start : Nat) (data : ByteSeq) :
    p.len ≤ (p.write start data).len := by
  unfold write
  split <;> simp

theorem end_le_len_write (p : ByteSeq) (start : Nat) (h : data.len ≠ 0) :
    start + data.len ≤ (p.write start data).len := by
  simp [write, h]

theorem byte_write_outside {i : Nat} (hi : i < p.len) (hout : i < start ∨ start + data.len ≤ i) :
    (p.write start data).byte i = p.byte i := by
  have hnot : ¬(start ≤ i ∧ i < start + data.len) := by omega
  simp [write, hnot, hi]

/-- **A write changes nothing outside its range.** -/
theorem slice_write_disjoint {s : Nat} (hlen : s + n ≤ p.len)
    (hout : s + n ≤ start ∨ start + data.len ≤ s) : (p.write start data).slice s n = p.slice s n :=
  slice_congr fun i hs he => byte_write_outside (by omega) (by omega)

/-! ## Exact reads -/

theorem readExact_eq_some {bs : List UInt8} :
    p.readExact start n = some bs ↔ start + n ≤ p.len ∧ p.slice start n = bs := by
  unfold readExact
  split <;> simp [*]

theorem readExact_of_le (h : start + n ≤ p.len) : p.readExact start n = some (p.slice start n) := by
  simp [readExact, h]

theorem readExact_write_disjoint {s : Nat} {bs : List UInt8} (h : p.readExact s n = some bs)
    (hout : s + n ≤ start ∨ start + data.len ≤ s) :
    (p.write start data).readExact s n = some bs := by
  obtain ⟨hlen, hbs⟩ := readExact_eq_some.mp h
  refine readExact_eq_some.mpr ⟨le_trans hlen (len_le_len_write ..), ?_⟩
  rw [slice_write_disjoint hlen hout, hbs]

/-! ## The same content -/

structure SameContent (p q : ByteSeq) : Prop where
  len_eq : q.len = p.len
  byte_eq : ∀ i < p.len, q.byte i = p.byte i

theorem sameContent_write_of_len_eq_zero (h : data.len = 0) :
    SameContent p (p.write start data) where
  len_eq := by simp [write, h]
  byte_eq i hi := byte_write_outside hi (by omega)

theorem SameContent.readExact_eq {q : ByteSeq} (h : SameContent p q) :
    q.readExact start n = p.readExact start n := by
  unfold readExact
  rw [h.len_eq]
  split
  · rw [slice_congr fun i _ hi => h.byte_eq i (by omega)]
  · rfl

end ByteSeq
