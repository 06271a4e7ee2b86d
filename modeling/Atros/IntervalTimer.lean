import Mathlib.Algebra.Group.Nat.Defs
import Mathlib.Tactic.Common

namespace Atros
set_option autoImplicit true

/-! ### The chip -/

/-- Counter 0 of the interval timer, which is loaded low byte first. -/
structure Pit where
  control : BitVec 8
  low : Option (BitVec 8)
  reload : Option (BitVec 16)
  deriving DecidableEq, Repr

def gen0Counter : Nat := 0x40
def pitCommand : Nat := 0x43

/-- The kernel writes no control word but `0x36`, for counter 0 in mode 3. -/
def Pit.write (value : BitVec 8) (port : Nat) (p : Pit) : Pit :=
  if port = pitCommand then ⟨value, none, none⟩
  else if port = gen0Counter then
    match p.low with
    | none => { p with low := some value }
    | some low => { p with low := none, reload := some (value ++ low) }
  else p

/-- How many ticks of the clock there are between two interrupts, once the counter is loaded. In
mode 3 the count 1 is illegal. -/
def Pit.period (p : Pit) : Option Nat :=
  p.reload.bind fun n => if n = 0 then some (2 ^ 16) else if n = 1 then none else some n.toNat

/-! ### pit.c -/

def clockTickRate : Nat := 1193180

def pitSetFrequency (hz : BitVec 32) (p : Pit) : Pit :=
  if 0 < hz.toNat then
    let divisor := BitVec.ofNat 16 (clockTickRate / hz.toNat)
    let p := p.write 0x36 pitCommand
    let p := p.write ((divisor &&& 0xFF).setWidth 8) gen0Counter
    p.write ((divisor >>> 8 &&& 0xFF).setWidth 8) gen0Counter
  else p

theorem lowByte_getLsbD : ∀ i < 16, (0xFF : BitVec 16).getLsbD i = decide (i < 8) := by decide

theorem divisor_bytes (n : BitVec 16) :
    (n >>> 8 &&& 0xFF).setWidth 8 ++ (n &&& 0xFF).setWidth 8 = n := by
  refine BitVec.eq_of_getLsbD_eq fun i hi => ?_
  rw [BitVec.getLsbD_append]
  by_cases h : i < 8
  · rw [if_pos h, BitVec.getLsbD_setWidth, BitVec.getLsbD_and, lowByte_getLsbD i hi]
    simp [h]
  · rw [if_neg h, BitVec.getLsbD_setWidth, BitVec.getLsbD_and, lowByte_getLsbD _ (by omega),
      BitVec.getLsbD_ushiftRight, Nat.add_sub_cancel' (by omega)]
    have h8 : i - 8 < 8 := by omega
    simp [h8]

theorem pitSetFrequency_reload (h : 0 < hz.toNat) (p : Pit) : pitSetFrequency hz p =
    ⟨0x36, none, some (.ofNat 16 (clockTickRate / hz.toNat))⟩ := by
  rw [pitSetFrequency, if_pos h]
  exact congrArg (Pit.mk 0x36 none <| some ·) (divisor_bytes _)

theorem period_of_count (h : q < 2 ^ 16) (n : Nat) :
    (Pit.mk 0x36 none (some (.ofNat 16 q))).period = some n ↔
      if q = 0 then n = 2 ^ 16 else q ≠ 1 ∧ n = q := by
  have hmod : (BitVec.ofNat 16 q).toNat = q := by
    rw [BitVec.toNat_ofNat, Nat.mod_eq_of_lt h]
  have hcount : ∀ k < 2 ^ 16, BitVec.ofNat 16 q = BitVec.ofNat 16 k ↔ q = k := by
    intro k hk
    rw [← BitVec.toNat_inj, hmod, BitVec.toNat_ofNat, Nat.mod_eq_of_lt hk]
  rw [Pit.period, Option.bind_some, hmod]
  simp only [show (0 : BitVec 16) = BitVec.ofNat 16 0 from rfl,
    show (1 : BitVec 16) = BitVec.ofNat 16 1 from rfl, hcount 0 (by decide), hcount 1 (by decide)]
  by_cases h0 : q = 0
  · rw [if_pos h0, if_pos h0, Option.some_inj, eq_comm]
  · rw [if_neg h0, if_neg h0]
    by_cases h1 : q = 1
    · rw [if_pos h1]
      exact iff_of_false (fun h => nomatch h) fun h => h.1 h1
    · rw [if_neg h1, Option.some_inj, eq_comm]
      exact (and_iff_right h1).symm

/-- The timer ticks at the given rate, rounded up to what a whole divisor gives, exactly for rates
from 19 Hz up to half that of the clock. Below, the divisor does not fit the counter; above, it is
1, which the counter cannot take, or 0, which it takes for the largest one. -/
theorem pitSetFrequency_rate_iff (hz : BitVec 32) (h : 0 < hz.toNat) (p : Pit) :
    (∃ n, (pitSetFrequency hz p).period = some n ∧
      n * hz.toNat ≤ clockTickRate ∧ clockTickRate < (n + 1) * hz.toNat) ↔
      19 ≤ hz.toNat ∧ 2 * hz.toNat ≤ clockTickRate := by
  have hclock : clockTickRate = 1193180 := rfl
  have hdiv : ∀ n, (n * hz.toNat ≤ clockTickRate ∧ clockTickRate < (n + 1) * hz.toNat) ↔
      clockTickRate / hz.toNat = n := by
    intro n
    rw [Nat.div_eq_iff h, Nat.succ_mul]
    omega
  have hpos : 2 ≤ clockTickRate / hz.toNat ↔ 2 * hz.toNat ≤ clockTickRate :=
    Nat.le_div_iff_mul_le h
  have hfits : clockTickRate / hz.toNat < 2 ^ 16 + 1 ↔ 19 ≤ hz.toNat := by
    rw [Nat.div_lt_iff_lt_mul h]
    omega
  rw [← hpos, ← hfits, pitSetFrequency_reload h]
  simp only [hdiv]
  generalize clockTickRate / hz.toNat = q
  have hmod : BitVec.ofNat 16 q = BitVec.ofNat 16 (q % 2 ^ 16) :=
    BitVec.eq_of_toNat_eq (by rw [BitVec.toNat_ofNat, BitVec.toNat_ofNat, Nat.mod_mod])
  rw [hmod]
  simp only [period_of_count (Nat.mod_lt q (by decide))]
  constructor
  · rintro ⟨n, hn, rfl⟩
    split at hn <;> omega
  · rintro ⟨hlt, hle⟩
    refine ⟨q, ?_, rfl⟩
    split <;> omega

/-- The 100 Hz of `main`: the counter is loaded with 11931. -/
theorem pitSetFrequency_rate_main :
    (∃ n, (pitSetFrequency 100 ⟨0, none, none⟩).period = some n ∧
      n * 100 ≤ clockTickRate ∧ clockTickRate < (n + 1) * 100) ↔
      19 ≤ 100 ∧ 2 * 100 ≤ clockTickRate :=
  pitSetFrequency_rate_iff 100 (by decide) _

end Atros
