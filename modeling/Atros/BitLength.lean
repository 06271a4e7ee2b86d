import Mathlib.Algebra.Group.Nat.Defs
import Mathlib.Data.Nat.Size
import Mathlib.Order.Basic
import Mathlib.Tactic.Common

namespace Atros
set_option autoImplicit true

/-! ### `most_significant_bit_of` of bits.h -/

/-- A step of the search, with its `i` and `bits`: above the threshold the low bits
are shifted out. -/
def shiftAbove (threshold shift : Nat) (p : Nat × Nat) : Nat × Nat :=
  if p.1 > threshold then (p.1 >>> shift, p.2 + shift) else p

def mostSignificantBitOf (i : Nat) : Nat :=
  let p := shiftAbove 1 2 (shiftAbove 7 4 (shiftAbove 127 8 (shiftAbove 32767 16 (i, 0))))
  if p.1 > 0 then p.2 + 1 else p.2

/-- `r` is 0 for 0, and else the number from 1 to 32 of the most significant bit. -/
def IsBitLength (i r : Nat) : Prop :=
  if i = 0 then r = 0 else 1 ≤ r ∧ r ≤ 32 ∧ 2 ^ (r - 1) ≤ i ∧ i < 2 ^ r

theorem isBitLength_iff (h : i < 2 ^ 32) : IsBitLength i r ↔ r = Nat.size i := by
  have hle : Nat.size i ≤ 32 := Nat.size_le.mpr h
  unfold IsBitLength
  split
  · rename_i h0
    rw [h0, Nat.size_zero]
  · rename_i h0
    have hpos : 0 < Nat.size i := Nat.size_pos.mpr (Nat.pos_of_ne_zero h0)
    rw [← Nat.lt_size, ← Nat.size_le]
    omega

theorem size_shiftRight (i s : Nat) : Nat.size (i >>> s) = Nat.size i - s := by
  refine Nat.le_antisymm (Nat.size_le.mpr ?_) ?_
  · have hlt : i < 2 ^ (Nat.size i - s + s) := by
      refine Nat.lt_of_lt_of_le (Nat.lt_size_self i) (Nat.pow_le_pow_right (by decide) ?_)
      omega
    rw [Nat.shiftRight_eq_div_pow]
    exact Nat.div_lt_of_lt_mul (by rwa [Nat.mul_comm, ← Nat.pow_add])
  · by_contra hn
    have hlt : i >>> s < 2 ^ Nat.size (i >>> s) := Nat.lt_size_self _
    have hi : i < 2 ^ (Nat.size (i >>> s) + s) := by
      rw [Nat.pow_add]
      rw [Nat.shiftRight_eq_div_pow] at hlt ⊢
      exact (Nat.div_lt_iff_lt_mul (Nat.two_pow_pos s)).mp hlt
    have hle := Nat.size_le.mpr hi
    omega

theorem size_shiftAbove (h : threshold + 1 = 2 ^ (shift - 1)) (hs : 1 ≤ shift) (p : Nat × Nat) :
    (shift ≤ Nat.size p.1 ∧ Nat.size (shiftAbove threshold shift p).1 + shift = Nat.size p.1 ∨
      Nat.size p.1 < shift ∧ Nat.size (shiftAbove threshold shift p).1 = Nat.size p.1) ∧
    Nat.size (shiftAbove threshold shift p).1 + (shiftAbove threshold shift p).2 =
      Nat.size p.1 + p.2 := by
  have habove : p.1 > threshold ↔ shift ≤ Nat.size p.1 := by
    change threshold + 1 ≤ p.1 ↔ _
    rw [h, ← Nat.lt_size]
    omega
  unfold shiftAbove
  by_cases hp : p.1 > threshold
  · have hle := habove.mp hp
    rw [if_pos hp]
    simp only [size_shiftRight]
    omega
  · have hlt := Nat.not_le.mp fun hle => hp (habove.mpr hle)
    rw [if_neg hp]
    exact ⟨.inr ⟨hlt, rfl⟩, rfl⟩

/-- The bit length, but 31 where it is 32. -/
theorem mostSignificantBitOf_eq (h : i < 2 ^ 32) :
    mostSignificantBitOf i = min (Nat.size i) 31 := by
  have hle : Nat.size i ≤ 32 := Nat.size_le.mpr h
  have h₁ := size_shiftAbove (by decide : 32767 + 1 = 2 ^ (16 - 1)) (by decide) (i, 0)
  have h₂ := size_shiftAbove (by decide : 127 + 1 = 2 ^ (8 - 1)) (by decide)
    (shiftAbove 32767 16 (i, 0))
  have h₃ := size_shiftAbove (by decide : 7 + 1 = 2 ^ (4 - 1)) (by decide)
    (shiftAbove 127 8 (shiftAbove 32767 16 (i, 0)))
  have h₄ := size_shiftAbove (by decide : 1 + 1 = 2 ^ (2 - 1)) (by decide)
    (shiftAbove 7 4 (shiftAbove 127 8 (shiftAbove 32767 16 (i, 0))))
  simp only at h₁
  unfold mostSignificantBitOf
  generalize shiftAbove 32767 16 (i, 0) = p₁ at *
  generalize shiftAbove 127 8 p₁ = p₂ at *
  generalize shiftAbove 7 4 p₂ = p₃ at *
  generalize shiftAbove 1 2 p₃ = p₄ at *
  -- What is left has at most one bit, except for two when the length is 32.
  have hpos : 0 < Nat.size p₄.1 ↔ 0 < p₄.1 := Nat.size_pos
  change (if p₄.1 > 0 then p₄.2 + 1 else p₄.2) = _
  split <;> omega

instance : Decidable (IsBitLength i r) :=
  inferInstanceAs (Decidable
    (if i = 0 then r = 0 else 1 ≤ r ∧ r ≤ 32 ∧ 2 ^ (r - 1) ≤ i ∧ i < 2 ^ r))

/-- `most_significant_bit_of` is the bit length up to 31 bits, and it is monotone. -/
theorem mostSignificantBitOf_isBitLength_iff (hi : i < 2 ^ 32) :
    (IsBitLength i (mostSignificantBitOf i) ↔ i < 2 ^ 31) ∧
      ∀ j < 2 ^ 32, i ≤ j → mostSignificantBitOf i ≤ mostSignificantBitOf j := by
  constructor
  · rw [isBitLength_iff hi, mostSignificantBitOf_eq hi, ← Nat.size_le]
    omega
  · intro j hj hij
    rw [mostSignificantBitOf_eq hi, mostSignificantBitOf_eq hj]
    have hle := Nat.size_le_size hij
    omega

theorem mostSignificantBitOf_top : ¬∀ i < 2 ^ 32, IsBitLength i (mostSignificantBitOf i) := by
  intro hclaim
  exact absurd (hclaim (2 ^ 31) (by decide)) (by decide)

theorem mostSignificantBitOf_isBitLength_five : 5 < 2 ^ 32 ∧
    (IsBitLength 5 (mostSignificantBitOf 5) ↔ 5 < 2 ^ 31) :=
  ⟨by decide, (mostSignificantBitOf_isBitLength_iff (by decide)).1⟩

end Atros
