import Atros.Output
import Atros.Word

namespace Atros
set_option autoImplicit true

/-! ### Clearing of the `.bss` section in head.S -/

/-- Memory and the registers that `mem_clear` uses. The return address that `call` pushes is not
part of this memory. -/
structure BootCpu where
  mem : Mem
  edi : Nat
  ecx : Nat

/-- `movb $0, (%edi)` and `inc %edi`. -/
def BootCpu.clearByte (c : BootCpu) : BootCpu :=
  { c with mem := Function.update c.mem c.edi 0, edi := add32 c.edi 1 }

/-- `mem_clear_loop`, with a bound on the rounds. -/
def memClearLoop : Nat → BootCpu → Option BootCpu
  | 0, _ => none
  | rounds + 1, c =>
    let c := c.clearByte
    -- `loop` decrements `ecx` first and then tests it.
    let c := { c with ecx := sub32 c.ecx 1 }
    if c.ecx ≠ 0 then memClearLoop rounds c else some c

def memClear (c : BootCpu) : Option BootCpu :=
  if c.ecx ≤ 0 then some c else memClearLoop (2 ^ 32) c

/-- From the load of `edi` on to the return from `mem_clear`. -/
def clearBss (bssStart bssEnd : Nat) (m : Mem) : Option BootCpu :=
  memClear ⟨m, bssStart, sub32 bssEnd (sub32 bssStart 1)⟩

theorem memClearLoop_succ (h : n + 1 < 2 ^ 32) (rounds edi : Nat) (m : Mem) :
    memClearLoop (rounds + 1) ⟨m, edi, n + 1⟩ =
      if n ≠ 0 then memClearLoop rounds ⟨Function.update m edi 0, add32 edi 1, n⟩
      else some ⟨Function.update m edi 0, add32 edi 1, n⟩ := by
  have hecx : sub32 (n + 1) 1 = n := sub32_of_le (Nat.le_add_left 1 n) h
  rw [memClearLoop]
  simp only [BootCpu.clearByte, hecx]

theorem memClearLoop_eq (hn : n < rounds) (hlt : n + 1 < 2 ^ 32) (hedi : edi + (n + 1) ≤ 2 ^ 32)
    (m : Mem) : ∃ c, memClearLoop rounds ⟨m, edi, n + 1⟩ = some c ∧
      ∀ x, c.mem x = if edi ≤ x ∧ x < edi + (n + 1) then 0 else m x := by
  induction n generalizing m edi rounds with
  | zero =>
    obtain ⟨rounds, rfl⟩ := Nat.exists_eq_succ_of_ne_zero (Nat.ne_of_gt hn)
    refine ⟨⟨Function.update m edi 0, add32 edi 1, 0⟩, ?_, fun x => ?_⟩
    · rw [memClearLoop_succ hlt, if_neg fun h => h rfl]
    · change Function.update m edi 0 x = _
      rw [Function.update_apply]
      refine if_congr ?_ rfl rfl
      omega
  | succ n ih =>
    obtain ⟨rounds, rfl⟩ := Nat.exists_eq_succ_of_ne_zero (Nat.ne_of_gt (Nat.zero_lt_of_lt hn))
    obtain ⟨c, hrun, hmem⟩ : ∃ c, memClearLoop rounds ⟨Function.update m edi 0, edi + 1, n + 1⟩ =
        some c ∧ ∀ x, c.mem x =
          if edi + 1 ≤ x ∧ x < edi + 1 + (n + 1) then 0 else Function.update m edi 0 x :=
      ih (by omega) (by omega) (by omega) _
    refine ⟨c, ?_, fun x => ?_⟩
    · rw [memClearLoop_succ hlt, if_pos (Nat.succ_ne_zero n), add32_of_lt (by omega), hrun]
    · rw [hmem, Function.update_apply]
      grind

/-- The count is one too large. -/
theorem clearBss_eq (hle : bssStart ≤ bssEnd) (hlt : bssEnd < 2 ^ 32) (m : Mem) :
    ∃ c, clearBss bssStart bssEnd m = some c ∧ ∀ x, c.mem x =
      if ¬(bssStart = 0 ∧ bssEnd = 2 ^ 32 - 1) ∧ bssStart ≤ x ∧ x ≤ bssEnd then 0 else m x := by
  unfold clearBss memClear
  by_cases hall : bssStart = 0 ∧ bssEnd = 2 ^ 32 - 1
  · -- The count wraps around to 0.
    obtain ⟨rfl, rfl⟩ := hall
    refine ⟨⟨m, 0, 0⟩, rfl, fun x => ?_⟩
    rw [if_neg fun h => h.1 ⟨rfl, rfl⟩]
  · have hcount : sub32 bssEnd (sub32 bssStart 1) = bssEnd - bssStart + 1 := by
      rw [sub32, sub32]
      omega
    obtain ⟨c, hrun, hmem⟩ : ∃ c, memClearLoop (2 ^ 32) ⟨m, bssStart, bssEnd - bssStart + 1⟩ =
        some c ∧ ∀ x, c.mem x =
          if bssStart ≤ x ∧ x < bssStart + (bssEnd - bssStart + 1) then 0 else m x :=
      memClearLoop_eq (by omega) (by omega) (by omega) m
    refine ⟨c, ?_, fun x => ?_⟩
    · simp only [hcount]
      rw [if_neg (by omega), hrun]
    · rw [hmem]
      refine if_congr ?_ rfl rfl
      rw [and_iff_right hall]
      omega

/-- Every byte of the section is zero, and the others are as before. -/
def BssCleared (bssStart bssEnd : Nat) (m m' : Mem) : Prop :=
  ∀ x, m' x = if bssStart ≤ x ∧ x < bssEnd then 0 else m x

/-- The section is cleared, and no byte beyond it is lost, exactly when the byte after it was zero;
for a section that takes up all of memory, when it was clear already. -/
theorem clearBss_cleared_iff (hle : bssStart ≤ bssEnd) (hlt : bssEnd < 2 ^ 32) (m : Mem) :
    (∃ c, clearBss bssStart bssEnd m = some c ∧ BssCleared bssStart bssEnd m c.mem) ↔
      if bssStart = 0 ∧ bssEnd = 2 ^ 32 - 1 then ∀ x < bssEnd, m x = 0 else m bssEnd = 0 := by
  obtain ⟨c, hrun, hmem⟩ := clearBss_eq hle hlt m
  have hiff : (∃ c, clearBss bssStart bssEnd m = some c ∧ BssCleared bssStart bssEnd m c.mem) ↔
      BssCleared bssStart bssEnd m c.mem := by
    rw [hrun]
    simp
  rw [hiff]
  unfold BssCleared
  by_cases hall : bssStart = 0 ∧ bssEnd = 2 ^ 32 - 1
  · rw [if_pos hall]
    constructor
    · intro h x hx
      have hx' := h x
      rw [hmem, if_neg fun hc => hc.1 hall, if_pos ⟨by omega, hx⟩] at hx'
      exact hx'
    · intro h x
      rw [hmem, if_neg fun hc => hc.1 hall]
      split
      · rename_i hx
        exact h x hx.2
      · rfl
  · rw [if_neg hall]
    constructor
    · intro h
      have hend := h bssEnd
      rw [hmem, if_pos ⟨hall, hle, Nat.le_refl _⟩, if_neg fun hc => Nat.lt_irrefl _ hc.2] at hend
      exact hend.symm
    · intro h x
      rw [hmem]
      by_cases hx : x = bssEnd
      · rw [hx, if_pos ⟨hall, hle, Nat.le_refl _⟩, if_neg fun hc => Nat.lt_irrefl _ hc.2, h]
      · refine if_congr ?_ rfl rfl
        rw [and_iff_right hall]
        omega

theorem clearBss_overruns : ¬∀ bssStart bssEnd m, bssStart ≤ bssEnd → bssEnd < 2 ^ 32 →
    ∃ c, clearBss bssStart bssEnd m = some c ∧ BssCleared bssStart bssEnd m c.mem := by
  intro hclaim
  have hcleared := hclaim 0x110000 0x112000 (fun _ => 1) (by decide) (by decide)
  have hzero := (clearBss_cleared_iff (by decide) (by decide) _).mp hcleared
  rw [if_neg (by decide)] at hzero
  exact absurd hzero (by decide)

/-- Memory is full of ones up to the end of the section. -/
def onesBefore (a : Nat) : Mem := fun x => if x < a then 1 else 0

theorem clearBss_cleared_ones :
    ∃ c, clearBss 0x110000 0x112000 (onesBefore 0x112000) = some c ∧
      BssCleared 0x110000 0x112000 (onesBefore 0x112000) c.mem := by
  refine (clearBss_cleared_iff (by decide) (by decide) _).mpr ?_
  rw [if_neg (by decide)]
  decide

end Atros
