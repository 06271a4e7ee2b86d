import Mathlib.Algebra.Group.Nat.Defs

namespace Atros

/-- Where the kernel lies in every address space. -/
def kernelSpace : Nat := 0xC0000000

/-! Arithmetic of the 32-bit unsigned types on natural numbers. -/

def add32 (a b : Nat) : Nat := (a + b) % 2 ^ 32

def sub32 (a b : Nat) : Nat := (a + 2 ^ 32 - b) % 2 ^ 32

def mul32 (a b : Nat) : Nat := a * b % 2 ^ 32

theorem sub32_lt (a b : Nat) : sub32 a b < 2 ^ 32 := Nat.mod_lt _ (by decide)

theorem mul32_lt (a b : Nat) : mul32 a b < 2 ^ 32 := Nat.mod_lt _ (by decide)

theorem add32_of_lt {a b : Nat} (h : a + b < 2 ^ 32) : add32 a b = a + b :=
  Nat.mod_eq_of_lt h

theorem sub32_of_le {a b : Nat} (h : b ≤ a) (ha : a < 2 ^ 32) : sub32 a b = a - b := by
  rw [sub32]
  omega

theorem sub32_of_gt {a b : Nat} (h : a < b) : sub32 a b = a + 2 ^ 32 - b := by
  rw [sub32]
  omega

theorem mul32_of_lt {a b : Nat} (h : a * b < 2 ^ 32) : mul32 a b = a * b :=
  Nat.mod_eq_of_lt h

end Atros
