import Mathlib.Data.List.TakeWhile
import Atros.Numeral

namespace Atros
set_option autoImplicit true

/-- An argument behind the `...` of a call: a 32-bit word, or the bytes a string pointer
leads to. -/
inductive Arg
  | word (w : UInt32)
  | str (s : List UInt8)
  deriving DecidableEq

/-- The cases of the `switch` over the character after a `%`. -/
inductive Conv
  | signed (base : Nat)
  | unsigned (base : Nat)
  | char
  | string
  | percent
  | other
  deriving DecidableEq, Repr

def convOf (c : UInt8) : Conv :=
  if c = ch 'd' ∨ c = ch 'i' then .signed 10
  else if c = ch 'o' then .signed 8
  else if c = ch 'x' ∨ c = ch 'X' then .signed 16
  else if c = ch 'b' then .unsigned 2
  else if c = ch 'u' then .unsigned 10
  else if c = ch 'p' then .unsigned 16
  else if c = ch 'c' then .char
  else if c = ch 's' then .string
  else if c = ch '%' then .percent
  else .other

/-- `va_arg(args, int32_t)` and `va_arg(args, uint32_t)`. Reading past the arguments, or an
argument of another type, is undefined. -/
def vaWord : List Arg → Option (Nat × List Arg)
  | .word w :: args => some (w.toNat, args)
  | _ => none

/-- `va_arg(args, char*)`. -/
def vaString : List Arg → Option (List UInt8 × List Arg)
  | .str s :: args => some (s, args)
  | _ => none

/-- The loop of `%s`, which stops when one byte of the buffer is left. -/
def copyString (n str : Nat) : List UInt8 → Nat → Output → Nat × Output
  | [], j, o => (j, o)
  | c :: s, j, o =>
    if c ≠ 0 ∧ sub32 (sub32 n j) 1 ≠ 0 then
      copyString n str s (add32 j 1) (o.put (str + j) c)
    else (j, o)

/-- One case of the `switch`. -/
def convert (n str : Nat) (conv : Conv) (j : Nat) (args : List Arg) (o : Output) :
    Option (Nat × List Arg × Output) :=
  match conv with
  | .signed base =>
    (vaWord args).map fun (w, args) =>
      let r := iToNstr w (sub32 n j) (str + j) base o
      (add32 j r.1, args, r.2)
  | .unsigned base =>
    (vaWord args).map fun (w, args) =>
      let r := uToNstr w (sub32 n j) (str + j) base o
      (add32 j r.1, args, r.2)
  | .char =>
    (vaWord args).map fun (w, args) =>
      (add32 j 1, args, o.put (str + j) (UInt8.ofNat w))
  | .string =>
    (vaString args).map fun (s, args) =>
      let r := copyString n str s j o
      (r.1, args, r.2)
  | .percent => some (add32 j 1, args, o.put (str + j) (ch '%'))
  | .other => some (j, args, o)

/-- The scan of the format, with the C variables `i`, `j` and `specifier_expected`. -/
def vsnprintfLoop (n str : Nat) : List UInt8 → Nat → Nat → Bool → List Arg → Output →
    Option (Nat × Output)
  | [], _, j, _, _, o => some (j, o)
  | c :: format, i, j, specifierExpected, args, o =>
    if c ≠ 0 ∧ i < sub32 n 1 then
      if specifierExpected then
        (convert n str (convOf c) j args o).bind fun (j, args, o) =>
          vsnprintfLoop n str format (i + 1) j false args o
      else if c = ch '%' then
        vsnprintfLoop n str format (i + 1) j true args o
      else
        vsnprintfLoop n str format (i + 1) (add32 j 1) false args (o.put (str + j) c)
    else some (j, o)

/-- `vsnprintf(str, n, format, args)`: the returned index and the stores. -/
def vsnprintf (str n : Nat) (format : List UInt8) (args : List Arg) (m : Mem) :
    Option (Nat × Output) :=
  (vsnprintfLoop n str format 0 0 false args (Output.start m)).map fun (j, o) =>
    (j, o.put (str + j) 0)

/-- A C string: the bytes before the first terminator. -/
def cstr (s : List UInt8) : List UInt8 := s.takeWhile (· ≠ 0)

theorem cstr_cons_zero (s : List UInt8) : cstr (0 :: s) = [] := rfl

theorem cstr_cons (h : c ≠ 0) (s : List UInt8) : cstr (c :: s) = c :: cstr s :=
  List.takeWhile_cons_of_pos (decide_eq_true h)

theorem zero_notMem_cstr (s : List UInt8) : (0 : UInt8) ∉ cstr s := by
  intro h
  have hz := List.mem_takeWhile_imp h
  simp at hz

/-- Within the buffer, `%s` copies as much of its string as leaves one byte. -/
theorem copyString_eq (hn : n < 2 ^ 32) (hj : j + 1 ≤ n) (s : List UInt8) (o : Output) :
    copyString n str s j o =
      (min (j + (cstr s).length) (n - 1), o.puts (str + j) ((cstr s).take (n - 1 - j))) := by
  induction s generalizing j o with
  | nil =>
    rw [copyString, cstr, List.takeWhile_nil, List.take_nil, List.length_nil, Nat.add_zero,
      Nat.min_eq_left (by omega)]
    rfl
  | cons c s ih =>
    have hsub : sub32 (sub32 n j) 1 = n - j - 1 := by
      rw [sub32_of_le (a := n) (by omega) hn, sub32_of_le (by omega) (by omega)]
    rw [copyString, hsub]
    by_cases hc : c = 0
    · subst hc
      rw [if_neg (fun h => h.1 rfl), cstr_cons_zero, List.take_nil, List.length_nil,
        Nat.add_zero, Nat.min_eq_left (by omega)]
      rfl
    · rw [cstr_cons hc, List.length_cons]
      by_cases hroom : n - j - 1 = 0
      · rw [if_neg (fun h => h.2 hroom), show n - 1 - j = 0 by omega, List.take_zero,
          Nat.min_eq_right (by omega), show n - 1 = j by omega]
        rfl
      · rw [if_pos ⟨hc, hroom⟩, add32_of_lt (by omega), ih (by omega),
          show n - 1 - j = (n - 1 - (j + 1)) + 1 by omega, List.take_succ_cons,
          Output.puts_cons]
        refine Prod.ext ?_ ?_
        · simp only
          omega
        · simp only [Nat.add_assoc]

/-- The scan reads the format up to its terminator, and at most `n - 1` characters. -/
theorem vsnprintfLoop_truncate (hn : 1 ≤ n) (hn' : n < 2 ^ 32) (format : List UInt8)
    (args : List Arg) (o : Output) : vsnprintfLoop n str format i j spec args o =
      vsnprintfLoop n str ((cstr format).take (n - 1 - i)) i j spec args o := by
  have hsub : sub32 n 1 = n - 1 := sub32_of_le hn hn'
  induction format generalizing i j spec args o with
  | nil => rw [cstr, List.takeWhile_nil, List.take_nil]
  | cons c format ih =>
    by_cases hc : c = 0
    · subst hc
      rw [cstr_cons_zero, List.take_nil]
      simp only [vsnprintfLoop, ne_eq, not_true_eq_false, false_and, if_false]
    · rw [cstr_cons hc]
      rcases Nat.lt_or_ge i (n - 1) with hi | hi
      · rw [show n - 1 - i = (n - 1 - (i + 1)) + 1 by omega, List.take_succ_cons,
          vsnprintfLoop, vsnprintfLoop]
        simp only [← ih]
      · rw [show n - 1 - i = 0 by omega, List.take_zero]
        simp only [vsnprintfLoop, hsub]
        rw [if_neg (fun h => by omega)]

theorem vsnprintfLoop_cons (hn : 1 ≤ n) (hn' : n < 2 ^ 32) (hc : c ≠ 0) (hi : i + 1 < n) :
    vsnprintfLoop n str (c :: format) i j spec args o =
      if spec then
        (convert n str (convOf c) j args o).bind fun (j, args, o) =>
          vsnprintfLoop n str format (i + 1) j false args o
      else if c = ch '%' then
        vsnprintfLoop n str format (i + 1) j true args o
      else
        vsnprintfLoop n str format (i + 1) (add32 j 1) false args (o.put (str + j) c) := by
  rw [vsnprintfLoop, sub32_of_le hn hn', if_pos ⟨hc, by omega⟩]

end Atros
