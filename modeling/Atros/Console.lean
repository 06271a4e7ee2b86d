import Atros.BlockCopy
import Atros.Page
import Atros.Vsnprintf

namespace Atros
set_option autoImplicit true

/-! `kprintf`. -/

/-- `KERNEL_SPACE + 0xb8000`. -/
def videoBase : Nat := kernelSpace + 0xb8000

/-- The memory with the static variables `line` and `column`, and a record of where the cursor
was before each character. -/
structure Screen where
  out : Output
  line : Nat
  column : Nat
  cursors : List (Nat × Nat)

/-- `KERNEL_SPACE + 0xb8000 + 160*line + 2*column`. -/
def videoAddr (line column : Nat) : Nat :=
  add32 (add32 videoBase (mul32 160 line)) (mul32 2 column)

/-- The `switch` over the character. -/
def Screen.move (c : UInt8) (s : Screen) : Screen :=
  if c = carriageReturn then { s with column := 0 }
  else if c = newline then { s with line := add32 s.line 1, column := 0 }
  else if c = horizontalTab then { s with column := add32 s.column 4 }
  else if c = backspace then
    if s.column > 0 then { s with column := sub32 s.column 1 } else s
  else
    { s with
      out := (s.out.put (videoAddr s.line s.column) c).put (add32 (videoAddr s.line s.column) 1) 7
      column := add32 s.column 1 }

def Screen.wrap (s : Screen) : Screen :=
  if s.column > 79 then { s with line := add32 s.line 1, column := s.column % 80 } else s

def Screen.scroll (s : Screen) : Screen :=
  if s.line > 24 then
    { s with
      line := 24
      out := memset (videoBase + 2 * 80 * 24) 0 160
        (memmove videoBase (videoBase + 160) (2 * 80 * 24) s.out) }
  else s

/-- One round of the loop, for the character `c`. -/
def Screen.put (s : Screen) (c : UInt8) : Screen :=
  (({ s with cursors := (s.line, s.column) :: s.cursors }.move c).wrap).scroll

/-- The characters that are not counted as printed. -/
def isEscape (c : UInt8) : Bool :=
  c = carriageReturn ∨ c = newline ∨ c = horizontalTab ∨ c = backspace

/-- The loop over the buffer, with its `i` and `printed_characters`. -/
def printLoop (buffer : Nat) : Nat → Nat → Nat → Screen → Option (Nat × Screen)
  | 0, _, _, _ => none
  | rounds + 1, i, printed, s =>
    let c := s.out.mem (add32 buffer i)
    if c ≠ 0 then
      printLoop buffer rounds (add32 i 1) (if isEscape c then printed else add32 printed 1)
        (s.put c)
    else some (printed, s)

/-- The stores of `vsnprintf` to the buffer are not recorded. -/
def kprintf (buffer : Nat) (format : List UInt8) (args : List Arg) (s : Screen) :
    Option (Nat × Screen) :=
  (vsnprintf buffer 1024 format args s.out.mem).bind fun (_, o) =>
    printLoop buffer (2 ^ 32) 0 0 { s with out := ⟨o.mem, s.out.written⟩ }

/-! ### Cells of the video memory -/

def cellAt (m : Mem) (r k : Nat) : Cell :=
  ⟨m (videoBase + 160 * r + 2 * k), m (videoBase + 160 * r + 2 * k + 1)⟩

theorem videoAddr_eq (hr : r ≤ 24) (hk : k ≤ 79) :
    videoAddr r k = videoBase + 160 * r + 2 * k := by
  have hbase : videoBase = 3221979136 := by decide
  rw [videoAddr, mul32_of_lt (by omega), mul32_of_lt (by omega),
    add32_of_lt (by omega : videoBase + 160 * r < 2 ^ 32), add32_of_lt (by omega)]

theorem cellAt_put (hr : r ≤ 24) (hk : k ≤ 79) (hj : j ≤ 79) (o : Output) (c : UInt8) :
    cellAt ((o.put (videoBase + 160 * r + 2 * k) c).put (videoBase + 160 * r + 2 * k + 1) 7).mem
      i j = if i = r ∧ j = k then ⟨c, 7⟩ else cellAt o.mem i j := by
  unfold cellAt
  simp only [Output.mem_put]
  by_cases h : i = r ∧ j = k
  · obtain ⟨rfl, rfl⟩ := h
    rw [if_neg (by omega), if_pos rfl, if_pos rfl, if_pos ⟨rfl, rfl⟩]
  · rw [if_neg (by omega), if_neg (by omega), if_neg (by omega), if_neg (by omega), if_neg h]

theorem scroll_stores (o : Output) : memset (videoBase + 2 * 80 * 24) 0 160
    (memmove videoBase (videoBase + 160) (2 * 80 * 24) o) =
      (o.puts videoBase (bytesAt o.mem (videoBase + 160) 3840)).puts (videoBase + 3840)
        (List.replicate 160 0) := by
  rw [memmove_eq (by decide) (by decide), memset_eq (by decide)]

theorem scroll_byte (o : Output) (hx : videoBase ≤ x) (hx' : x < videoBase + 4000) :
    (memset (videoBase + 2 * 80 * 24) 0 160
      (memmove videoBase (videoBase + 160) (2 * 80 * 24) o)).mem x =
        if x < videoBase + 3840 then o.mem (x + 160) else 0 := by
  rw [scroll_stores, Output.mem_puts, Output.mem_puts, List.length_replicate, length_bytesAt]
  generalize videoBase = base at *
  by_cases h : x < base + 3840
  · rw [if_neg (by omega), if_pos ⟨hx, h⟩, if_pos h, getD_bytesAt (by omega)]
    exact congrArg o.mem (by omega)
  · have hin : x - (base + 3840) < 160 := by omega
    rw [if_pos (by omega), if_neg h, List.getD_replicate _ hin]

/-- The rows move up by one, and the last one is blank. -/
theorem cellAt_scroll (o : Output) (hi : i ≤ 24) (hj : j ≤ 79) :
    cellAt (memset (videoBase + 2 * 80 * 24) 0 160
      (memmove videoBase (videoBase + 160) (2 * 80 * 24) o)).mem i j =
        if i < 24 then cellAt o.mem (i + 1) j else .blank := by
  unfold cellAt
  rw [scroll_byte o (by omega) (by omega), scroll_byte o (by omega) (by omega)]
  by_cases h : i < 24
  · rw [if_pos (by omega), if_pos (by omega), if_pos h]
    exact Cell.ext (congrArg o.mem (by omega)) (congrArg o.mem (by omega))
  · rw [if_neg (by omega), if_neg (by omega), if_neg h]
    rfl

end Atros
