import Mathlib.Data.List.Basic

/-!
# Stream ciphers

A stream cipher is a generator of key bytes; it is applied by exclusive or, in place, one byte after
the other. The state it is left in depends on **how many** bytes went through and not on which, so a
text may be cut anywhere, and **the same cipher undoes itself** and ends in the same state on both
sides. A session without a cipher is the session whose cipher is absent.
-/

namespace StreamCipher

variable {σ : Type} (next : σ → UInt8 × σ)

def apply (s : σ) : List UInt8 → List UInt8 × σ
  | [] => ([], s)
  | b :: bs => ((b ^^^ (next s).1) :: (apply (next s).2 bs).1, (apply (next s).2 bs).2)

def applyOption : Option σ → List UInt8 → List UInt8 × Option σ
  | none, bytes => (bytes, none)
  | some s, bytes => ((apply next s bytes).1, some (apply next s bytes).2)

variable {next}

@[simp] theorem length_apply (s : σ) (xs : List UInt8) :
    (apply next s xs).1.length = xs.length := by
  induction xs generalizing s with
  | nil => rfl
  | cons x xs ih => simp [apply, ih]

theorem apply_append (s : σ) (xs ys : List UInt8) :
    apply next s (xs ++ ys) = ((apply next s xs).1 ++ (apply next (apply next s xs).2 ys).1,
      (apply next (apply next s xs).2 ys).2) := by
  induction xs generalizing s with
  | nil => rfl
  | cons x xs ih => simp [apply, ih]

theorem apply_apply (s : σ) (xs : List UInt8) :
    apply next s (apply next s xs).1 = (xs, (apply next s xs).2) := by
  induction xs generalizing s with
  | nil => rfl
  | cons x xs ih =>
    simp only [apply, ih]
    rw [UInt8.xor_assoc, UInt8.xor_self, UInt8.xor_zero]

@[simp] theorem applyOption_nil (c : Option σ) : applyOption next c [] = ([], c) := by
  cases c <;> rfl

@[simp] theorem length_applyOption (c : Option σ) (xs : List UInt8) :
    (applyOption next c xs).1.length = xs.length := by
  cases c <;> simp [applyOption]

theorem applyOption_append (c : Option σ) (xs ys : List UInt8) :
    applyOption next c (xs ++ ys) =
      ((applyOption next c xs).1 ++ (applyOption next (applyOption next c xs).2 ys).1,
        (applyOption next (applyOption next c xs).2 ys).2) := by
  cases c with
  | none => rfl
  | some => simp [applyOption, apply_append]

end StreamCipher
