import Atros.Word
import Atros.Output

namespace Atros
set_option autoImplicit true

/-! `memmove` and `memset` of string.c. -/

/-- The loop of `memmove`, with its `num`, `i` and the sign of `delta`. -/
def memmoveLoop (dest src : Nat) (up : Bool) : Nat → Nat → Output → Output
  | 0, _, o => o
  | num + 1, i, o =>
    memmoveLoop dest src up num (if up then add32 i 1 else sub32 i 1)
      (o.put (add32 dest i) (o.mem (add32 src i)))

def memmove (dest src num : Nat) (o : Output) : Output :=
  if src ≥ dest then memmoveLoop dest src true num 0 o
  else memmoveLoop dest src false num (sub32 num 1) o

/-- The loop of `memset`, with its `num` and `d`. -/
def memsetLoop (value : UInt8) : Nat → Nat → Output → Output
  | 0, _, o => o
  | num + 1, d, o => memsetLoop value num (add32 d 1) (o.put d value)

def memset (ptr : Nat) (value : UInt8) (num : Nat) (o : Output) : Output :=
  memsetLoop value num ptr o

/-- The `num` bytes from `a` on. -/
def bytesAt (m : Mem) (a : Nat) : Nat → List UInt8
  | 0 => []
  | num + 1 => m a :: bytesAt m (a + 1) num

@[simp] theorem length_bytesAt (m : Mem) (a num : Nat) : (bytesAt m a num).length = num := by
  induction num generalizing a with
  | zero => rfl
  | succ num ih => rw [bytesAt, List.length_cons, ih]

theorem getD_bytesAt (h : k < num) (m : Mem) (a : Nat) :
    (bytesAt m a num).getD k 0 = m (a + k) := by
  induction num generalizing a k with
  | zero => exact absurd h (Nat.not_lt_zero k)
  | succ num ih =>
    cases k with
    | zero => rfl
    | succ k =>
      rw [bytesAt, List.getD_cons_succ, ih (by omega), Nat.add_right_comm, Nat.add_assoc]

theorem bytesAt_congr {m m' : Mem} (h : ∀ x, a ≤ x → x < a + num → m' x = m x) :
    bytesAt m' a num = bytesAt m a num := by
  induction num generalizing a with
  | zero => rfl
  | succ num ih =>
    rw [bytesAt, bytesAt, h a (Nat.le_refl a) (by omega),
      ih fun x h₁ h₂ => h x (by omega) (by omega)]

theorem bytesAt_succ (m : Mem) (a num : Nat) :
    bytesAt m a (num + 1) = bytesAt m a num ++ [m (a + num)] := by
  induction num generalizing a with
  | zero => rfl
  | succ num ih =>
    rw [bytesAt, ih, bytesAt, List.cons_append, Nat.add_right_comm, Nat.add_assoc]

theorem Output.put_puts_apart (h : y < a ∨ a + bs.length ≤ y) (o : Output) (b : UInt8) :
    (o.put y b).puts a bs = (o.puts a bs).put y b := by
  apply Output.ext
  · funext x
    simp only [mem_puts, mem_put]
    by_cases hx : x = y
    · rw [if_pos hx, if_neg (by omega), if_pos hx]
    · rw [if_neg hx, if_neg hx]
  · funext x
    simp only [written_puts, written_put]
    by_cases hx : x = y
    · rw [if_pos hx, if_neg (by omega), if_pos hx]
    · rw [if_neg hx, if_neg hx]

/-- Upwards the bytes still to be copied are above those that have been stored. -/
theorem memmoveLoop_up (h : dest ≤ src) (hs : src + (i + num) ≤ 2 ^ 32) (o : Output) :
    memmoveLoop dest src true num i o = o.puts (dest + i) (bytesAt o.mem (src + i) num) := by
  induction num generalizing i o with
  | zero => rfl
  | succ num ih =>
    rw [memmoveLoop, if_pos rfl, add32_of_lt (by omega : src + i < 2 ^ 32),
      add32_of_lt (by omega : dest + i < 2 ^ 32), bytesAt, Output.puts_cons]
    cases num with
    | zero => rfl
    | succ num =>
      have hsame : bytesAt (o.put (dest + i) (o.mem (src + i))).mem (src + (i + 1)) (num + 1) =
          bytesAt o.mem (src + (i + 1)) (num + 1) := by
        refine bytesAt_congr fun x hx _ => ?_
        rw [Output.mem_put, if_neg (by omega)]
      rw [add32_of_lt (by omega), ih (by omega), hsame]
      simp only [Nat.add_assoc]

theorem memmoveLoop_down (h : src < dest) (hd : dest + num < 2 ^ 32) (o : Output) :
    memmoveLoop dest src false (num + 1) num o = o.puts dest (bytesAt o.mem src (num + 1)) := by
  induction num generalizing o with
  | zero =>
    rw [memmoveLoop, add32_of_lt (by omega : src + 0 < 2 ^ 32),
      add32_of_lt (by omega : dest + 0 < 2 ^ 32)]
    rfl
  | succ num ih =>
    have hsame : bytesAt (o.put (dest + (num + 1)) (o.mem (src + (num + 1)))).mem src (num + 1) =
        bytesAt o.mem src (num + 1) := by
      refine bytesAt_congr fun x _ hx => ?_
      rw [Output.mem_put, if_neg (by omega)]
    rw [memmoveLoop, if_neg (by decide), add32_of_lt (by omega : src + (num + 1) < 2 ^ 32),
      add32_of_lt hd, sub32_of_le (by omega) (by omega), Nat.add_sub_cancel, ih (by omega), hsame,
      Output.put_puts_apart (by rw [length_bytesAt]; omega), bytesAt_succ o.mem src (num + 1),
      Output.puts_append, length_bytesAt, Output.puts_singleton]

/-- `memmove` stores what was at `src` before, however the two ranges overlap. -/
theorem memmove_eq (hd : dest + num ≤ 2 ^ 32) (hs : src + num ≤ 2 ^ 32) (o : Output) :
    memmove dest src num o = o.puts dest (bytesAt o.mem src num) := by
  unfold memmove
  split
  · rename_i h
    exact memmoveLoop_up h (by omega) o
  · rename_i h
    cases num with
    | zero => rfl
    | succ num =>
      rw [sub32_of_le (by omega) (by omega), Nat.add_sub_cancel]
      exact memmoveLoop_down (by omega) (by omega) o

/-- After `memmove` the destination holds what the source held before, and the rest of memory is
as it was. -/
theorem memmove_snapshot (hd : dest + num ≤ 2 ^ 32) (hs : src + num ≤ 2 ^ 32) (o : Output) :
    (∀ i < num, (memmove dest src num o).mem (dest + i) = o.mem (src + i)) ∧
      ∀ x, x < dest ∨ dest + num ≤ x → (memmove dest src num o).mem x = o.mem x := by
  rw [memmove_eq hd hs]
  constructor
  · intro i hi
    rw [Output.mem_puts, length_bytesAt, if_pos (by omega), Nat.add_sub_cancel_left,
      getD_bytesAt hi]
  · intro x hx
    rw [Output.mem_puts, length_bytesAt, if_neg (by omega)]

theorem memmove_snapshot_overlap : 100 + 8 ≤ 2 ^ 32 ∧
    ∀ i < 8, (memmove 103 100 8 (Output.start fun x => UInt8.ofNat x)).mem (103 + i) =
      UInt8.ofNat (100 + i) :=
  ⟨by decide, (memmove_snapshot (by decide) (by decide) _).1⟩

theorem memset_eq (h : ptr + num < 2 ^ 32) (value : UInt8) (o : Output) :
    memset ptr value num o = o.puts ptr (List.replicate num value) := by
  rw [memset]
  induction num generalizing ptr o with
  | zero => rfl
  | succ num ih =>
    rw [memsetLoop, add32_of_lt (by omega), ih (by omega), List.replicate_succ, Output.puts_cons]

end Atros
