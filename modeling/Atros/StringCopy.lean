import Mathlib.Data.List.GetD
import Atros.Output

namespace Atros
set_option autoImplicit true

/-! ### `strncpy` of string.c and its accesses -/

/-- What has been stored, and the indices at which the source has been read. -/
structure Buffers where
  out : Output
  reads : List Nat

def Buffers.store (b : Buffers) (a : Nat) (c : UInt8) : Buffers := { b with out := b.out.put a c }

def Buffers.readAt (b : Buffers) (i : Nat) : Buffers := { b with reads := i :: b.reads }

/-- The first loop of `strncpy`, with its `i` and a bound on the rounds. -/
def Buffers.copyLoop (dest : Nat) (src : Nat → UInt8) (num : Nat) :
    Nat → Nat → Buffers → Option (Nat × Buffers)
  | 0, _, _ => none
  | rounds + 1, i, b =>
    -- The source is read before the length is tested.
    let b := b.readAt i
    if src i ≠ 0 ∧ i < num then
      copyLoop dest src num rounds (i + 1) ((b.readAt i).store (dest + i) (src i))
    else some (i, b)

/-- The second loop, which fills up with zeros. -/
def Buffers.fillLoop (dest num : Nat) : Nat → Nat → Buffers → Option Buffers
  | 0, _, _ => none
  | rounds + 1, i, b =>
    if i < num then fillLoop dest num rounds (i + 1) (b.store (dest + i) 0) else some b

/-- `strncpy(dest, src, num)` for a source that is not part of the destination. -/
def Buffers.strncpy (dest : Nat) (src : Nat → UInt8) (num : Nat) (b : Buffers) : Option Buffers :=
  (copyLoop dest src num (num + 1) 0 b).bind fun (i, b) => fillLoop dest num (num + 1) i b

/-- `k` is where the copy ends: at the first zero, or at the length. -/
structure CopyEnd (src : Nat → UInt8) (num k : Nat) : Prop where
  le : k ≤ num
  before : ∀ j < k, src j ≠ 0
  stop : src k = 0 ∨ k = num

variable {src : Nat → UInt8} {num : Nat} {b : Buffers}

theorem CopyEnd.exists (src : Nat → UInt8) (num : Nat) : ∃ k, CopyEnd src num k := by
  induction num with
  | zero => exact ⟨0, Nat.le_refl 0, fun j hj => absurd hj (Nat.not_lt_zero j), .inr rfl⟩
  | succ num ih =>
    obtain ⟨k, hle, hbefore, hstop⟩ := ih
    by_cases hk : src k = 0
    · exact ⟨k, Nat.le_succ_of_le hle, hbefore, .inl hk⟩
    · obtain rfl := hstop.resolve_left hk
      refine ⟨k + 1, Nat.le_refl _, fun j hj => ?_, .inr rfl⟩
      rcases Nat.lt_succ_iff_lt_or_eq.mp hj with hj | rfl
      · exact hbefore j hj
      · exact hk

theorem Buffers.copyLoop_eq (h : CopyEnd src num k) (hi : i + n = k) (hr : n < rounds)
    (b : Buffers) : ∃ reads, copyLoop dest src num rounds i b =
      some (k, ⟨b.out.puts (dest + i) ((List.range' i n).map src), reads⟩) ∧
        ∀ j, j ∈ reads ↔ j ∈ b.reads ∨ i ≤ j ∧ j ≤ k := by
  induction n generalizing i b rounds with
  | zero =>
    obtain ⟨rounds, rfl⟩ := Nat.exists_eq_succ_of_ne_zero (Nat.ne_of_gt hr)
    obtain rfl : i = k := hi
    have hstop : ¬(src i ≠ 0 ∧ i < num) := by
      rintro ⟨hne, hlt⟩
      rcases h.stop with h0 | rfl
      · exact hne h0
      · exact Nat.lt_irrefl _ hlt
    refine ⟨i :: b.reads, ?_, fun j => ?_⟩
    · rw [copyLoop, if_neg hstop]
      rfl
    · rw [List.mem_cons]
      grind
  | succ n ih =>
    obtain ⟨rounds, rfl⟩ := Nat.exists_eq_succ_of_ne_zero (Nat.ne_of_gt (Nat.zero_lt_of_lt hr))
    have hgo : src i ≠ 0 ∧ i < num := ⟨h.before i (by omega), by have := h.le; omega⟩
    have hnext : i + 1 + n = k := by omega
    obtain ⟨reads, hrun, hreads⟩ := ih hnext (Nat.lt_of_succ_lt_succ hr)
      (((b.readAt i).readAt i).store (dest + i) (src i))
    refine ⟨reads, ?_, fun j => ?_⟩
    · rw [copyLoop, if_pos hgo, hrun, List.range'_succ, List.map_cons, Output.puts_cons]
      rfl
    · rw [hreads]
      change j ∈ i :: i :: b.reads ∨ _ ↔ _
      rw [List.mem_cons, List.mem_cons]
      grind

theorem Buffers.fillLoop_eq (hi : i + n = num) (hr : n < rounds) (b : Buffers) :
    fillLoop dest num rounds i b =
      some ⟨b.out.puts (dest + i) (List.replicate n 0), b.reads⟩ := by
  induction n generalizing i b rounds with
  | zero =>
    obtain ⟨rounds, rfl⟩ := Nat.exists_eq_succ_of_ne_zero (Nat.ne_of_gt hr)
    rw [fillLoop, if_neg (by omega)]
    rfl
  | succ n ih =>
    obtain ⟨rounds, rfl⟩ := Nat.exists_eq_succ_of_ne_zero (Nat.ne_of_gt (Nat.zero_lt_of_lt hr))
    rw [fillLoop, if_pos (by omega), ih (by omega) (by omega), List.replicate_succ,
      Output.puts_cons]
    rfl

/-- `strncpy` comes back: the bytes before the end of the copy, then zeros; it has read the source
up to that end inclusive. -/
theorem Buffers.strncpy_eq (h : CopyEnd src num k) (dest : Nat) (b : Buffers) :
    ∃ reads, strncpy dest src num b =
      some ⟨b.out.puts dest ((List.range' 0 k).map src ++ List.replicate (num - k) 0), reads⟩ ∧
        ∀ j, j ∈ reads ↔ j ∈ b.reads ∨ j ≤ k := by
  have hle := h.le
  have hrounds : k < num + 1 := Nat.lt_succ_of_le hle
  obtain ⟨reads, hcopy, hreads⟩ := copyLoop_eq h (Nat.zero_add k) hrounds b
  refine ⟨reads, ?_, fun j => ?_⟩
  · rw [strncpy, hcopy, Option.bind_some]
    change fillLoop dest num (num + 1) k _ = _
    rw [fillLoop_eq (Nat.add_sub_cancel' hle) (by omega), Output.puts_append, List.length_map,
      List.length_range']
    rfl
  · rw [hreads]
    grind

/-- The copy stores the `num` bytes of the destination and nothing else, and reads nothing of the
source but what lies before its end and the first zero. -/
structure Buffers.Copied (dest : Nat) (src : Nat → UInt8) (num : Nat) (m : Mem) (b : Buffers) :
    Prop where
  written : ∀ x, b.out.written x = true ↔ dest ≤ x ∧ x < dest + num
  frame : ∀ x, ¬(dest ≤ x ∧ x < dest + num) → b.out.mem x = m x
  bytes : ∀ i < num, (∀ j ≤ i, src j ≠ 0) → b.out.mem (dest + i) = src i
  zeros : ∀ i < num, (∃ j ≤ i, src j = 0) → b.out.mem (dest + i) = 0
  reads : ∀ j ∈ b.reads, j < num ∧ ∀ l < j, src l ≠ 0

/-- `strncpy` stays inside both buffers exactly when the source has a zero in its first `num`
bytes. -/
theorem strncpy_copied_iff (dest : Nat) (src : Nat → UInt8) (num : Nat) (m : Mem) :
    (∃ b, Buffers.strncpy dest src num ⟨.start m, []⟩ = some b ∧ b.Copied dest src num m) ↔
      ∃ j < num, src j = 0 := by
  obtain ⟨k, hend⟩ := CopyEnd.exists src num
  obtain ⟨reads, hrun, hreads⟩ := Buffers.strncpy_eq hend dest ⟨.start m, []⟩
  have hle := hend.le
  constructor
  · rintro ⟨b, hb, hcopied⟩
    rw [hrun] at hb
    have hk : k ∈ b.reads := by
      rw [← Option.some.inj hb]
      exact (hreads k).mpr (.inr (Nat.le_refl k))
    have hlt := (hcopied.reads k hk).1
    exact ⟨k, hlt, hend.stop.resolve_right (Nat.ne_of_lt hlt)⟩
  · rintro ⟨j, hj, hzero⟩
    have hlt : k < num := by
      refine Nat.lt_of_le_of_lt (Nat.le_of_not_lt fun hjk => ?_) hj
      exact hend.before j hjk hzero
    have hk := hend.stop.resolve_right (Nat.ne_of_lt hlt)
    have hlen : ((List.range' 0 k).map src ++ List.replicate (num - k) 0).length = num := by
      rw [List.length_append, List.length_map, List.length_range', List.length_replicate]
      omega
    refine ⟨_, hrun, fun x => ?_, fun x hx => ?_, fun i hi hne => ?_, fun i hi hex => ?_,
      fun j hj => ?_⟩
    · simp only [Output.written_puts, hlen]
      split
      · rename_i hx
        exact iff_of_true rfl hx
      · rename_i hx
        exact iff_of_false Bool.noConfusion hx
    · simp only [Output.mem_puts, hlen, if_neg hx]
      rfl
    · have hik : i < k := Nat.lt_of_not_le fun hki => hne k hki hk
      simp only [Output.mem_puts, hlen]
      rw [if_pos (by omega), Nat.add_sub_cancel_left, List.getD_append _ _ _ _ (by simpa using hik),
        List.getD_eq_getElem _ _ (by simpa using hik), List.getElem_map, List.getElem_range']
      simp
    · obtain ⟨l, hli, hl⟩ := hex
      have hki : k ≤ i := by
        refine Nat.le_trans (Nat.le_of_not_lt fun hlk => ?_) hli
        exact hend.before l hlk hl
      simp only [Output.mem_puts, hlen]
      rw [if_pos (by omega), Nat.add_sub_cancel_left,
        List.getD_append_right _ _ _ _ (by simpa using hki)]
      simp
    · have hjk : j ≤ k := ((hreads j).mp hj).resolve_left (List.not_mem_nil)
      exact ⟨by omega, fun l hl => hend.before l (by omega)⟩

theorem strncpy_overreads : ¬∀ dest src num m,
    ∃ b, Buffers.strncpy dest src num ⟨.start m, []⟩ = some b ∧ b.Copied dest src num m := by
  intro hclaim
  obtain ⟨j, hj, hzero⟩ := (strncpy_copied_iff 0 (fun _ => 65) 1 fun _ => 0).mp (hclaim _ _ _ _)
  exact absurd hzero (by decide)

end Atros
