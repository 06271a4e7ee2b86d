import Atros.BlockCopy

namespace Atros
set_option autoImplicit true

/-! ### memcpy of string.c -/

/-- The loop of `memcpy`, which begins at the last byte. -/
def memcpyLoop (dest src : Nat) : Nat → Output → Output
  | 0, o => o
  | num + 1, o => memcpyLoop dest src num (o.put (add32 dest num) (o.mem (add32 src num)))

def memcpy (dest src num : Nat) (o : Output) : Output := memcpyLoop dest src num o

/-- The destination begins below the source and reaches into it. -/
def OverlapsBelow (dest src num : Nat) : Prop := dest < src ∧ src < dest + num

instance (dest src num : Nat) : Decidable (OverlapsBelow dest src num) :=
  inferInstanceAs (Decidable (_ ∧ _))

theorem memcpyLoop_eq (h : ¬OverlapsBelow dest src num) (hd : dest + num ≤ 2 ^ 32)
    (hs : src + num ≤ 2 ^ 32) (o : Output) :
    memcpyLoop dest src num o = o.puts dest (bytesAt o.mem src num) := by
  induction num generalizing o with
  | zero => rfl
  | succ num ih =>
    have hbelow : ¬OverlapsBelow dest src num := fun hc => h ⟨hc.1, by have := hc.2; omega⟩
    have hsame : bytesAt (o.put (dest + num) (o.mem (src + num))).mem src num =
        bytesAt o.mem src num := by
      refine bytesAt_congr fun x hx hx' => ?_
      rw [Output.mem_put, if_neg]
      rintro rfl
      exact h ⟨by omega, by omega⟩
    rw [memcpyLoop, add32_of_lt (by omega : dest + num < 2 ^ 32),
      add32_of_lt (by omega : src + num < 2 ^ 32), ih hbelow (by omega) (by omega), hsame,
      Output.put_puts_apart (by rw [length_bytesAt]; omega), bytesAt_succ o.mem src num,
      Output.puts_append, length_bytesAt, Output.puts_singleton]

theorem memcpy_eq_memmove (h : ¬OverlapsBelow dest src num) (hd : dest + num ≤ 2 ^ 32)
    (hs : src + num ≤ 2 ^ 32) (o : Output) : memcpy dest src num o = memmove dest src num o := by
  rw [memcpy, memcpyLoop_eq h hd hs, memmove_eq hd hs]

/-- The last place of the block that is a multiple of `gap` away from place `i`. -/
def lastPlace (gap num i : Nat) : Nat := i + gap * ((num - 1 - i) / gap)

theorem lastPlace_last (gap num : Nat) : lastPlace gap (num + 1) num = num := by
  rw [lastPlace, Nat.add_sub_cancel, Nat.sub_self, Nat.zero_div, Nat.mul_zero, Nat.add_zero]

/-- One more byte in the block moves the place when that byte is a multiple of `gap` away. -/
theorem lastPlace_succ (hi : i < num) (gap : Nat) : lastPlace gap (num + 1) i =
    if lastPlace gap num i + gap = num then num else lastPlace gap num i := by
  have hsub : num + 1 - 1 - i = num - 1 - i + 1 := by omega
  rw [lastPlace, lastPlace, hsub, Nat.succ_div]
  have hdiv : gap ∣ num - 1 - i + 1 ↔ i + gap * ((num - 1 - i) / gap) + gap = num := by
    constructor
    · intro hd
      have hq : (num - 1 - i + 1) / gap = (num - 1 - i) / gap + 1 := by
        rw [Nat.succ_div, if_pos hd]
      have hmul := Nat.mul_div_cancel' hd
      rw [hq, Nat.mul_succ] at hmul
      omega
    · intro heq
      exact ⟨(num - 1 - i) / gap + 1, by rw [Nat.mul_succ]; omega⟩
  by_cases hd : gap ∣ num - 1 - i + 1
  · rw [if_pos hd, if_pos (hdiv.mp hd), Nat.mul_succ]
    have := hdiv.mp hd
    omega
  · rw [if_neg hd, if_neg (mt hdiv.mpr hd), Nat.add_zero]

/-- Where the ranges overlap so, each byte is that of the last place that is a multiple of the gap
away. -/
theorem memcpyLoop_repeats (h : dest < src) (hs : src + num ≤ 2 ^ 32) (o : Output) :
    (∀ i < num, (memcpyLoop dest src num o).mem (dest + i) =
      o.mem (src + lastPlace (src - dest) num i)) ∧
    ∀ x, x < dest ∨ dest + num ≤ x → (memcpyLoop dest src num o).mem x = o.mem x := by
  induction num generalizing o with
  | zero => exact ⟨fun i hi => absurd hi (Nat.not_lt_zero i), fun _ _ => rfl⟩
  | succ num ih =>
    rw [memcpyLoop, add32_of_lt (by omega : dest + num < 2 ^ 32),
      add32_of_lt (by omega : src + num < 2 ^ 32)]
    obtain ⟨hin, hout⟩ := ih (by omega) (o.put (dest + num) (o.mem (src + num)))
    constructor
    · intro i hi
      rcases Nat.lt_succ_iff_lt_or_eq.mp hi with hi | rfl
      · rw [hin i hi, Output.mem_put, lastPlace_succ hi]
        by_cases hlast : lastPlace (src - dest) num i + (src - dest) = num
        · rw [if_pos (by omega), if_pos hlast]
        · rw [if_neg (by omega), if_neg hlast]
      · rw [hout (dest + i) (by omega), Output.mem_put, if_pos rfl, lastPlace_last]
    · intro x hx
      rw [hout x (by omega), Output.mem_put, if_neg (by omega)]

/-- `memcpy` does on every memory what `memmove` does exactly where the destination does not begin
below the source and reach into it; where it does, the end of the source is repeated. -/
theorem memcpy_overlap (hd : dest + num ≤ 2 ^ 32) (hs : src + num ≤ 2 ^ 32) :
    ((∀ o, memcpy dest src num o = memmove dest src num o) ↔ ¬OverlapsBelow dest src num) ∧
      (dest < src → ∀ o, ∀ i < num, (memcpy dest src num o).mem (dest + i) =
        o.mem (src + lastPlace (src - dest) num i)) := by
  refine ⟨⟨fun hall hover => ?_, fun h o => memcpy_eq_memmove h hd hs o⟩,
    fun h o => (memcpyLoop_repeats h hs o).1⟩
  -- a memory that only has a byte at the beginning of the source
  let o := Output.start fun x => if x = src then 1 else 0
  obtain ⟨hbelow, hinto⟩ := hover
  have hcopy := (memcpyLoop_repeats hbelow hs o).1 0 (by omega)
  have hmove : (memmove dest src num o).mem (dest + 0) = o.mem (src + 0) := by
    rw [memmove_eq hd hs, Output.mem_puts, length_bytesAt, if_pos (by omega),
      Nat.add_sub_cancel_left, getD_bytesAt (by omega)]
  rw [← hall o] at hmove
  have hplace : src + lastPlace (src - dest) num 0 ≠ src := by
    have hpos : 0 < (num - 1 - 0) / (src - dest) := Nat.div_pos (by omega) (by omega)
    have hmul := Nat.mul_pos (by omega : 0 < src - dest) hpos
    rw [lastPlace]
    omega
  have hzero : o.mem (src + lastPlace (src - dest) num 0) = 0 := if_neg hplace
  have hone : o.mem (src + 0) = 1 := if_pos rfl
  have hsame := (hcopy.symm.trans hmove)
  rw [hzero, hone] at hsame
  exact absurd hsame (by decide)

theorem memcpy_overlap_pair :
    ((∀ o, memcpy 100 102 6 o = memmove 100 102 6 o) ↔ ¬OverlapsBelow 100 102 6) ∧
      (100 < 102 → ∀ o, ∀ i < 6, (memcpy 100 102 6 o).mem (100 + i) =
        o.mem (102 + lastPlace (102 - 100) 6 i)) :=
  memcpy_overlap (by decide) (by decide)

end Atros
