import Mathlib.Data.List.Nodup
import Mathlib.Data.List.Perm.Subperm
import Mathlib.Tactic.Common

namespace Atros
set_option autoImplicit true

/-! Linked lists that end in a null pointer. -/

variable {P : Type} {next next' prev prev' : P → Option P} {p list : Option P} {xs ys : List P}

/-- The pointer `list` leads through the nodes `xs` to a null pointer. -/
def Chain (next : P → Option P) : Option P → List P → Prop
  | list, [] => list = none
  | list, x :: xs => list = some x ∧ Chain next (next x) xs

/-- A chain whose nodes also point back, the first one to `p`. -/
def DChain (next prev : P → Option P) : Option P → Option P → List P → Prop
  | _, list, [] => list = none
  | p, list, x :: xs => list = some x ∧ prev x = p ∧ DChain next prev (some x) (next x) xs

theorem Chain.head (h : Chain next list xs) : list = xs.head? := by
  cases xs with
  | nil => exact h
  | cons x xs => exact h.1

theorem Chain.eq_cons (h : Chain next (some x) xs) : ∃ ys, xs = x :: ys := by
  cases xs with
  | nil => cases h
  | cons y ys => exact ⟨ys, by rw [Option.some.inj h.1]⟩

theorem Chain.eq_nil (h : Chain next none xs) : xs = [] := by
  cases xs with
  | nil => rfl
  | cons x xs => exact nomatch h.1

theorem Chain.congr (h : Chain next list xs) (hsame : ∀ x ∈ xs, next' x = next x) :
    Chain next' list xs := by
  induction xs generalizing list with
  | nil => exact h
  | cons x xs ih =>
    refine ⟨h.1, ?_⟩
    rw [hsame x List.mem_cons_self]
    exact ih h.2 fun y hy => hsame y (List.mem_cons_of_mem x hy)

theorem Chain.unique (h : Chain next list xs) (h' : Chain next list ys) : xs = ys := by
  induction xs generalizing list ys with
  | nil =>
    subst h
    exact h'.eq_nil.symm
  | cons x xs ih =>
    obtain ⟨rfl, htail⟩ := h
    obtain ⟨zs, rfl⟩ := h'.eq_cons
    rw [ih htail h'.2]

theorem Chain.tail (h : Chain next list (xs ++ x :: ys)) : Chain next (next x) ys := by
  induction xs generalizing list with
  | nil => exact h.2
  | cons y xs ih => exact ih h.2

theorem Chain.nodup (h : Chain next list xs) : xs.Nodup := by
  induction xs generalizing list with
  | nil => exact .nil
  | cons x xs ih =>
    refine List.nodup_cons.mpr ⟨?_, ih h.2⟩
    intro hmem
    obtain ⟨as, bs, rfl⟩ := List.append_of_mem hmem
    have heq := congrArg List.length (h.2.unique h.2.tail)
    rw [List.length_append, List.length_cons] at heq
    omega

theorem Chain.relink (h : Chain next list (xs ++ x :: ys))
    (hsame : ∀ y ∈ xs, next' y = next y) (hnew : Chain next' (next' x) zs) :
    Chain next' list (xs ++ x :: zs) := by
  induction xs generalizing list with
  | nil => exact ⟨h.1, hnew⟩
  | cons y xs ih =>
    refine ⟨h.1, ?_⟩
    rw [hsame y List.mem_cons_self]
    exact ih h.2 fun z hz => hsame z (List.mem_cons_of_mem y hz)

theorem DChain.toChain (h : DChain next prev p list xs) : Chain next list xs := by
  induction xs generalizing p list with
  | nil => exact h
  | cons x xs ih => exact ⟨h.1, ih h.2.2⟩

theorem DChain.congr (h : DChain next prev p list xs) (hnext : ∀ x ∈ xs, next' x = next x)
    (hprev : ∀ x ∈ xs, prev' x = prev x) : DChain next' prev' p list xs := by
  induction xs generalizing p list with
  | nil => exact h
  | cons x xs ih =>
    refine ⟨h.1, ?_, ?_⟩
    · rw [hprev x List.mem_cons_self, h.2.1]
    · rw [hnext x List.mem_cons_self]
      exact ih h.2.2 (fun y hy => hnext y (List.mem_cons_of_mem x hy))
        fun y hy => hprev y (List.mem_cons_of_mem x hy)

theorem DChain.rehead (h : DChain next prev p list xs) (hnext : ∀ x ∈ xs, next' x = next x)
    (hprev : ∀ x ∈ xs, some x ≠ xs.head? → prev' x = prev x)
    (hhead : ∀ x, xs.head? = some x → prev' x = q) : DChain next' prev' q list xs := by
  cases xs with
  | nil => exact h
  | cons x xs =>
    have hnd := List.nodup_cons.mp h.toChain.nodup
    refine ⟨h.1, hhead x rfl, ?_⟩
    rw [hnext x List.mem_cons_self]
    refine h.2.2.congr (fun y hy => hnext y (List.mem_cons_of_mem x hy)) ?_
    intro y hy
    refine hprev y (List.mem_cons_of_mem x hy) ?_
    intro heq
    cases heq
    exact hnd.1 hy

theorem DChain.tail (h : DChain next prev p list (xs ++ x :: ys)) :
    DChain next prev (some x) (next x) ys := by
  induction xs generalizing p list with
  | nil => exact h.2.2
  | cons y xs ih => exact ih h.2.2

theorem DChain.relink (h : DChain next prev p list (xs ++ x :: ys))
    (hnext : ∀ y ∈ xs, next' y = next y) (hprev : ∀ y ∈ xs ++ [x], prev' y = prev y)
    (hnew : DChain next' prev' (some x) (next' x) zs) :
    DChain next' prev' p list (xs ++ x :: zs) := by
  induction xs generalizing p list with
  | nil => exact ⟨h.1, (hprev x List.mem_cons_self).trans h.2.1, hnew⟩
  | cons y xs ih =>
    refine ⟨h.1, (hprev y List.mem_cons_self).trans h.2.1, ?_⟩
    rw [hnext y List.mem_cons_self]
    exact ih h.2.2 (fun z hz => hnext z (List.mem_cons_of_mem y hz))
      fun z hz => hprev z (List.mem_cons_of_mem y hz)

theorem length_lt_of_nodup {xs : List Nat} (h : xs.Nodup) (hxs : ∀ x ∈ xs, 0 < x ∧ x < n)
    (hn : 0 < n) : xs.length < n := by
  have hnd : (0 :: xs).Nodup :=
    List.nodup_cons.mpr ⟨fun h0 => Nat.lt_irrefl 0 (hxs 0 h0).1, h⟩
  have hsub : 0 :: xs ⊆ List.range n := by
    intro x hx
    rcases List.mem_cons.mp hx with rfl | hx
    · exact List.mem_range.mpr hn
    · exact List.mem_range.mpr (hxs x hx).2
  have hle := (List.subperm_of_subset hnd hsub).length_le
  rw [List.length_cons, List.length_range] at hle
  exact hle

end Atros
