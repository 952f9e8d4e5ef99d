import Mathlib.Data.Int.Basic
import Mathlib.Algebra.Order.Group.Nat
import Mathlib.Tactic.NormNum

/-!
Arithmetic of the fixed-width integers of C over ℕ and ℤ: 64-bit unsigned
values wrap, a 32-bit int has two's complement range. Each operation is plain
arithmetic while its result stays in range.
-/
namespace Dthread.MachineInts

def wrap64 (n : ℕ) : ℕ := n % 2 ^ 64

/-- Unsigned subtraction of two values below 2^64. -/
def sub64 (a b : ℕ) : ℕ := (a + 2 ^ 64 - b) % 2 ^ 64

/-- Conversion of a signed value to a 64-bit unsigned one. -/
def toU64 (z : ℤ) : ℕ := (z % 2 ^ 64).toNat

def int32 (z : ℤ) : ℤ := Int.bmod z (2 ^ 32)

@[simp] theorem wrap64_of_lt {n : ℕ} (h : n < 2 ^ 64) : wrap64 n = n := Nat.mod_eq_of_lt h

theorem sub64_of_le {a b : ℕ} (hab : b ≤ a) (ha : a < 2 ^ 64) : sub64 a b = a - b := by
  unfold sub64
  omega

theorem toU64_natCast {n : ℕ} (h : n < 2 ^ 64) : toU64 n = n := by
  unfold toU64
  omega

theorem int32_of_bounds {z : ℤ} (hlo : -2 ^ 31 ≤ z) (hhi : z < 2 ^ 31) : int32 z = z := by
  unfold int32
  rw [Int.bmod_eq_of_le] <;> norm_num <;> omega

theorem int32_natCast {n : ℕ} (h : n < 2 ^ 31) : int32 n = n :=
  int32_of_bounds (by omega) (by omega)

end Dthread.MachineInts
