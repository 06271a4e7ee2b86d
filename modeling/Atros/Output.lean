import Mathlib.Algebra.Group.Nat.Defs
import Mathlib.Logic.Function.Basic
import Mathlib.Tactic.Common

namespace Atros
set_option autoImplicit true

/-- Byte-addressed memory. -/
abbrev Mem := Nat → UInt8

/-- A memory together with the addresses stored to so far. -/
@[ext] structure Output where
  mem : Mem
  written : Nat → Bool

def Output.start (m : Mem) : Output := ⟨m, fun _ => false⟩

/-- One byte store. -/
def Output.put (o : Output) (a : Nat) (b : UInt8) : Output :=
  ⟨Function.update o.mem a b, Function.update o.written a true⟩

/-- Stores of consecutive bytes. -/
def Output.puts (o : Output) (a : Nat) : List UInt8 → Output
  | [] => o
  | b :: bs => (o.put a b).puts (a + 1) bs

@[simp] theorem Output.puts_nil (o : Output) (a : Nat) : o.puts a [] = o := rfl

theorem Output.puts_cons (o : Output) (a : Nat) (b : UInt8) (bs : List UInt8) :
    o.puts a (b :: bs) = (o.put a b).puts (a + 1) bs := rfl

theorem Output.puts_singleton (o : Output) (a : Nat) (b : UInt8) :
    o.puts a [b] = o.put a b := rfl

theorem Output.puts_append (o : Output) (a : Nat) (bs cs : List UInt8) :
    o.puts a (bs ++ cs) = (o.puts a bs).puts (a + bs.length) cs := by
  induction bs generalizing o a with
  | nil => rfl
  | cons b bs ih =>
    rw [List.cons_append, puts_cons, puts_cons, ih, List.length_cons, Nat.add_right_comm,
      Nat.add_assoc]

@[simp] theorem Output.mem_put (o : Output) (a x : Nat) (b : UInt8) :
    (o.put a b).mem x = if x = a then b else o.mem x := Function.update_apply ..

@[simp] theorem Output.written_put (o : Output) (a x : Nat) (b : UInt8) :
    (o.put a b).written x = if x = a then true else o.written x := Function.update_apply ..

theorem Output.mem_puts (o : Output) (a x : Nat) (bs : List UInt8) :
    (o.puts a bs).mem x =
      if a ≤ x ∧ x < a + bs.length then bs.getD (x - a) 0 else o.mem x := by
  induction bs generalizing o a with
  | nil =>
    rw [puts_nil, if_neg]
    simp only [List.length_nil]
    omega
  | cons b bs ih =>
    rw [puts_cons, ih, mem_put, List.length_cons]
    by_cases hx : x = a
    · subst hx
      rw [if_neg (by omega), if_pos rfl, if_pos (by omega), Nat.sub_self, List.getD_cons_zero]
    · rw [if_neg hx]
      by_cases hin : a + 1 ≤ x ∧ x < a + 1 + bs.length
      · rw [if_pos hin, if_pos (by omega), show x - a = (x - (a + 1)) + 1 by omega,
          List.getD_cons_succ]
      · rw [if_neg hin, if_neg (by omega)]

theorem Output.written_puts (o : Output) (a x : Nat) (bs : List UInt8) :
    (o.puts a bs).written x = if a ≤ x ∧ x < a + bs.length then true else o.written x := by
  induction bs generalizing o a with
  | nil =>
    rw [puts_nil, if_neg]
    simp only [List.length_nil]
    omega
  | cons b bs ih =>
    rw [puts_cons, ih, written_put, List.length_cons]
    by_cases hx : x = a
    · rw [if_neg (by omega), if_pos hx, if_pos (by omega)]
    · rw [if_neg hx]
      by_cases hin : a + 1 ≤ x ∧ x < a + 1 + bs.length
      · rw [if_pos hin, if_pos (by omega)]
      · rw [if_neg hin, if_neg (by omega)]

theorem Output.puts_put_before (o : Output) (a : Nat) (b : UInt8) (bs : List UInt8) :
    (o.puts (a + 1) bs).put a b = o.puts a (b :: bs) := by
  rw [puts_cons]
  apply Output.ext
  · funext x
    rw [mem_put, mem_puts, mem_puts, mem_put]
    by_cases hx : x = a
    · rw [if_pos hx, if_pos hx, if_neg (by omega)]
    · rw [if_neg hx, if_neg hx]
  · funext x
    rw [written_put, written_puts, written_puts, written_put]
    by_cases hx : x = a
    · rw [if_pos hx, if_pos hx, if_neg (by omega)]
    · rw [if_neg hx, if_neg hx]

/-- Everything stored by `o'` on top of `o` lies in the `len` bytes from `a` on. -/
structure Output.Confined (o o' : Output) (a len : Nat) : Prop where
  keeps : ∀ x, o.written x = true → o'.written x = true
  inside : ∀ x, o'.written x = true → o.written x = true ∨ (a ≤ x ∧ x < a + len)
  frame : ∀ x, ¬(a ≤ x ∧ x < a + len) → o'.mem x = o.mem x

theorem Output.Confined.refl (o : Output) (a len : Nat) : o.Confined o a len :=
  ⟨fun _ h => h, fun _ h => .inl h, fun _ _ => rfl⟩

theorem Output.Confined.trans {o o' o'' : Output} (h : o.Confined o' a len)
    (h' : o'.Confined o'' a len) : o.Confined o'' a len := by
  refine ⟨fun x hx => h'.keeps x (h.keeps x hx), ?_, ?_⟩
  · intro x hx
    rcases h'.inside x hx with hx | hx
    · exact h.inside x hx
    · exact .inr hx
  · intro x hx
    rw [h'.frame x hx, h.frame x hx]

theorem Output.Confined.mono {o o' : Output} (h : o.Confined o' a len) (hb : b ≤ a)
    (hk : a + len ≤ b + k) : o.Confined o' b k := by
  refine ⟨h.keeps, ?_, ?_⟩
  · intro x hx
    rcases h.inside x hx with hx | hx
    · exact .inl hx
    · exact .inr ⟨by omega, by omega⟩
  · intro x hx
    exact h.frame x (by omega)

theorem Output.confined_puts (o : Output) (a : Nat) (bs : List UInt8) :
    o.Confined (o.puts a bs) a bs.length := by
  refine ⟨?_, ?_, ?_⟩
  · intro x hx
    rw [written_puts]
    split
    · rfl
    · exact hx
  · intro x hx
    rw [written_puts] at hx
    split at hx
    · exact .inr ‹_›
    · exact .inl hx
  · intro x hx
    rw [mem_puts, if_neg hx]

theorem Output.confined_put (o : Output) (a : Nat) (b : UInt8) : o.Confined (o.put a b) a 1 :=
  o.confined_puts a [b]

theorem Output.written_put_self (o : Output) (a : Nat) (b : UInt8) :
    (o.put a b).written a = true := by
  rw [written_put, if_pos rfl]

theorem Output.written_puts_mem (o : Output) (a x : Nat) (bs : List UInt8)
    (h : a ≤ x ∧ x < a + bs.length) : (o.puts a bs).written x = true := by
  rw [written_puts, if_pos h]

end Atros
