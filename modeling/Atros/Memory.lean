import Atros.Output

namespace Atros
set_option autoImplicit true

/-! Little-endian 32-bit words of a byte-addressed memory. -/

def load32 (m : Mem) (a : Nat) : Nat :=
  (m a).toNat + 2 ^ 8 * (m (a + 1)).toNat + 2 ^ 16 * (m (a + 2)).toNat +
    2 ^ 24 * (m (a + 3)).toNat

def store32 (a v : Nat) (m : Mem) : Mem := fun x =>
  if x = a then UInt8.ofNat v
  else if x = a + 1 then UInt8.ofNat (v / 2 ^ 8)
  else if x = a + 2 then UInt8.ofNat (v / 2 ^ 16)
  else if x = a + 3 then UInt8.ofNat (v / 2 ^ 24)
  else m x

theorem load32_lt (m : Mem) (a : Nat) : load32 m a < 2 ^ 32 := by
  have h₀ := (m a).toNat_lt
  have h₁ := (m (a + 1)).toNat_lt
  have h₂ := (m (a + 2)).toNat_lt
  have h₃ := (m (a + 3)).toNat_lt
  rw [load32]
  omega

theorem load32_store32 (hv : v < 2 ^ 32) (a : Nat) (m : Mem) :
    load32 (store32 a v m) a = v := by
  have h₁ : store32 a v m (a + 1) = UInt8.ofNat (v / 2 ^ 8) := by
    rw [store32, if_neg (by omega), if_pos rfl]
  have h₂ : store32 a v m (a + 2) = UInt8.ofNat (v / 2 ^ 16) := by
    rw [store32, if_neg (by omega), if_neg (by omega), if_pos rfl]
  have h₃ : store32 a v m (a + 3) = UInt8.ofNat (v / 2 ^ 24) := by
    rw [store32, if_neg (by omega), if_neg (by omega), if_neg (by omega), if_pos rfl]
  have h₀ : store32 a v m a = UInt8.ofNat v := if_pos rfl
  rw [load32, h₀, h₁, h₂, h₃, UInt8.toNat_ofNat', UInt8.toNat_ofNat', UInt8.toNat_ofNat',
    UInt8.toNat_ofNat']
  omega

theorem store32_outside (h : x < a ∨ a + 4 ≤ x) (v : Nat) (m : Mem) :
    store32 a v m x = m x := by
  rw [store32, if_neg (by omega), if_neg (by omega), if_neg (by omega), if_neg (by omega)]

theorem load32_congr {m m' : Mem} (h : ∀ x, a ≤ x → x < a + 4 → m' x = m x) :
    load32 m' a = load32 m a := by
  rw [load32, load32, h a (by omega) (by omega), h (a + 1) (by omega) (by omega),
    h (a + 2) (by omega) (by omega), h (a + 3) (by omega) (by omega)]

theorem load32_store32_of_apart (h : a + 4 ≤ b ∨ b + 4 ≤ a) (v : Nat) (m : Mem) :
    load32 (store32 a v m) b = load32 m b :=
  load32_congr fun x _ _ => store32_outside (by omega) v m

end Atros
