import Mathlib.Algebra.Group.Nat.Defs
import Mathlib.Tactic.Common

namespace Atros
set_option autoImplicit true

/-! Words on a stack in byte-addressed memory with 32-bit addresses, which wrap around. -/

abbrev Mem32 := BitVec 32 → BitVec 8

/-- The little-endian word at `a`. -/
def Mem32.word (m : Mem32) (a : BitVec 32) : BitVec 32 := m (a + 3) ++ m (a + 2) ++ m (a + 1) ++ m a

def Mem32.setWord (m : Mem32) (a v : BitVec 32) : Mem32 := fun x =>
  if x = a then v.extractLsb' 0 8
  else if x = a + 1 then v.extractLsb' 8 8
  else if x = a + 2 then v.extractLsb' 16 8
  else if x = a + 3 then v.extractLsb' 24 8
  else m x

theorem append_bytes (v : BitVec 32) : v.extractLsb' 24 8 ++ v.extractLsb' 16 8 ++
    v.extractLsb' 8 8 ++ v.extractLsb' 0 8 = v := by
  rw [BitVec.extractLsb'_append_extractLsb'_eq_extractLsb' (by decide),
    BitVec.extractLsb'_append_extractLsb'_eq_extractLsb' (by decide),
    BitVec.extractLsb'_append_extractLsb'_eq_extractLsb' (by decide)]
  exact BitVec.extractLsb'_eq_self

theorem Mem32.word_setWord (m : Mem32) (a v : BitVec 32) : (m.setWord a v).word a = v := by
  have h₁ : a + 1 ≠ a := by bv_omega
  have h₂ : a + 2 ≠ a ∧ a + 2 ≠ a + 1 := ⟨by bv_omega, by bv_omega⟩
  have h₃ : a + 3 ≠ a ∧ a + 3 ≠ a + 1 ∧ a + 3 ≠ a + 2 := ⟨by bv_omega, by bv_omega, by bv_omega⟩
  unfold Mem32.word Mem32.setWord
  rw [if_neg h₃.1, if_neg h₃.2.1, if_neg h₃.2.2, if_pos rfl, if_neg h₂.1, if_neg h₂.2,
    if_pos rfl, if_neg h₁, if_pos rfl, if_pos rfl, append_bytes]

theorem Mem32.setWord_outside (h : 4 ≤ (x - a).toNat) (m : Mem32) (v : BitVec 32) :
    m.setWord a v x = m x := by
  unfold Mem32.setWord
  rw [if_neg (by bv_omega), if_neg (by bv_omega), if_neg (by bv_omega), if_neg (by bv_omega)]

theorem Mem32.word_congr {m m' : Mem32}
    (h : ∀ i : Nat, i < 4 → m' (a + BitVec.ofNat 32 i) = m (a + BitVec.ofNat 32 i)) :
    m'.word a = m.word a := by
  have h₀ := h 0 (by decide)
  rw [BitVec.add_zero] at h₀
  rw [Mem32.word, Mem32.word, h₀]
  exact congrArg (· ++ m a) (by
    rw [show m' (a + 1) = m (a + 1) from h 1 (by decide),
      show m' (a + 2) = m (a + 2) from h 2 (by decide),
      show m' (a + 3) = m (a + 3) from h 3 (by decide)])

/-- A word that is stored stays clear of one that starts `d` bytes further up. -/
theorem Mem32.word_setWord_above (h : 4 ≤ (b - a).toNat) (h' : (b - a).toNat + 4 ≤ 2 ^ 32)
    (m : Mem32) (v : BitVec 32) : (m.setWord a v).word b = m.word b :=
  word_congr fun i hi => setWord_outside (by bv_omega) m v

/-- The words `ws` are on the stack, the first one at the top. -/
def Stacked (m : Mem32) (esp : BitVec 32) : List (BitVec 32) → Prop
  | [] => True
  | w :: ws => m.word esp = w ∧ Stacked m (esp + 4) ws

theorem Stacked.setWord_above (h : Stacked m b ws) (ha : 4 ≤ (b - a).toNat)
    (hlen : (b - a).toNat + 4 * ws.length ≤ 2 ^ 32) (v : BitVec 32) :
    Stacked (m.setWord a v) b ws := by
  induction ws generalizing b with
  | nil => trivial
  | cons w ws ih =>
    rw [List.length_cons] at hlen
    refine ⟨(m.word_setWord_above ha (by omega) v).trans h.1, ?_⟩
    cases ws with
    | nil => trivial
    | cons w' ws =>
      rw [List.length_cons] at hlen ih
      exact ih h.2 (by bv_omega) (by bv_omega)

theorem Stacked.push (h : Stacked m esp ws) (hlen : ws.length < 2 ^ 29) (w : BitVec 32) :
    Stacked (m.setWord (esp - 4) w) (esp - 4) (w :: ws) := by
  refine ⟨m.word_setWord _ w, ?_⟩
  rw [BitVec.sub_add_cancel]
  exact h.setWord_above (by bv_omega) (by bv_omega) w

theorem Stacked.congr {m m' : Mem32} (h : Stacked m esp ws)
    (hsame : ∀ i : Nat, i < 4 * ws.length →
      m' (esp + BitVec.ofNat 32 i) = m (esp + BitVec.ofNat 32 i)) : Stacked m' esp ws := by
  induction ws generalizing esp with
  | nil => trivial
  | cons w ws ih =>
    rw [List.length_cons] at hsame
    refine ⟨(Mem32.word_congr fun i hi => hsame i (by omega)).trans h.1, ih h.2 fun i hi => ?_⟩
    have hfour := hsame (4 + i) (by omega)
    rwa [BitVec.ofNat_add, ← BitVec.add_assoc] at hfour

theorem Stacked.get (h : Stacked m esp ws) (hk : ws[k]? = some w) :
    m.word (esp + BitVec.ofNat 32 (4 * k)) = w := by
  induction ws generalizing esp k with
  | nil => exact nomatch hk
  | cons w' ws ih =>
    cases k with
    | zero =>
      cases hk
      rw [BitVec.add_zero]
      exact h.1
    | succ k =>
      have hrest := ih h.2 (k := k) hk
      rwa [Nat.mul_succ, Nat.add_comm, BitVec.ofNat_add, ← BitVec.add_assoc]

end Atros
