import Mathlib.Tactic

/-! Arithmetic of `size_t` on a 64-bit platform. Values are natural numbers; the
operations wrap as the machine's do. -/

namespace Sponge.SizeT

def add (left right : Nat) : Nat :=
  (left + right) % 2 ^ 64

def sub (left right : Nat) : Nat :=
  (left + (2 ^ 64 - right % 2 ^ 64)) % 2 ^ 64

theorem add_le (left right : Nat) : add left right ≤ left + right :=
  Nat.mod_le _ _

theorem add_of_lt {left right : Nat} (fits : left + right < 2 ^ 64) :
    add left right = left + right :=
  Nat.mod_eq_of_lt fits

theorem sub_of_le {left right : Nat} (ordered : right ≤ left)
    (fits : left < 2 ^ 64) : sub left right = left - right := by
  unfold sub
  omega

/-- Wrapping an end position and then stepping past it is stepping from the
unwrapped position. -/
theorem add_sub_shift {start size tailStart tailSize : Nat}
    (inside : tailStart ≤ add start size)
    (reaches : add start size - tailStart ≤ tailSize) :
    add start (size + (tailSize - (add start size - tailStart))) =
      add tailStart tailSize := by
  unfold add at *
  omega

/-! Conversions between `size_t`, `ssize_t` and a 32-bit `int`. -/

def ofInt (value : Int) : Nat :=
  (value % 2 ^ 64).toNat

def toSigned (value : Nat) : Int :=
  ((value : Int) + 2 ^ 63) % 2 ^ 64 - 2 ^ 63

def toInt32 (value : Int) : Int :=
  (value + 2 ^ 31) % 2 ^ 32 - 2 ^ 31

theorem toSigned_of_lt {value : Nat} (small : value < 2 ^ 63) : toSigned value = value := by
  unfold toSigned
  omega

theorem toInt32_of_lt {value : Nat} (small : value < 2 ^ 31) : toInt32 value = value := by
  unfold toInt32
  omega

theorem ofInt_natCast {value : Nat} (small : value < 2 ^ 64) : ofInt value = value := by
  unfold ofInt
  omega

/-- A number that comes back from a 32-bit `int` was small. -/
theorem lt_of_ofInt_toInt32 {value : Nat} (bound : value < 2 ^ 63)
    (same : ofInt (toInt32 value) = value) : value < 2 ^ 31 := by
  unfold ofInt toInt32 at same
  omega

end Sponge.SizeT
