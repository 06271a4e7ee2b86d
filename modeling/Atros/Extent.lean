import Mathlib.Algebra.Group.Nat.Defs
import Mathlib.Data.List.Pairwise
import Mathlib.Order.Disjoint
import Mathlib.Tactic.Common

namespace Atros
set_option autoImplicit true

/-- The `len` consecutive numbers from `base` on: bytes, pages or frames. -/
@[ext] structure Extent where
  base : Nat
  len : Nat
  deriving DecidableEq, Repr

instance : Membership Nat Extent := ⟨fun e x => e.base ≤ x ∧ x < e.base + e.len⟩

theorem Extent.mem_iff {e : Extent} : x ∈ e ↔ e.base ≤ x ∧ x < e.base + e.len := Iff.rfl

@[simp] theorem Extent.mem_mk : x ∈ Extent.mk b n ↔ b ≤ x ∧ x < b + n := Iff.rfl

instance (x : Nat) (e : Extent) : Decidable (x ∈ e) :=
  inferInstanceAs (Decidable (_ ∧ _))

/-- Two extents with no number in common. -/
def Extent.Apart (e e' : Extent) : Prop := ∀ x, x ∈ e → x ∉ e'

theorem Extent.apart_iff {e e' : Extent} : e.Apart e' ↔
    e.len = 0 ∨ e'.len = 0 ∨ e.base + e.len ≤ e'.base ∨ e'.base + e'.len ≤ e.base := by
  constructor
  · intro h
    have hb := h e.base
    have hb' := h e'.base
    simp only [mem_iff] at hb hb'
    omega
  · intro h x hx hx'
    rw [mem_iff] at hx hx'
    omega

instance (e e' : Extent) : Decidable (e.Apart e') :=
  decidable_of_iff _ Extent.apart_iff.symm

theorem Extent.Apart.symm {e e' : Extent} (h : Extent.Apart e e') : e'.Apart e :=
  fun x hx hx' => h x hx' hx

theorem Extent.apart_of_pairwise {α : Type} {X : α → Extent} {xs : List α} {a b : α}
    (h : xs.Pairwise fun a b => (X a).Apart (X b)) (ha : a ∈ xs) (hb : b ∈ xs) (hne : a ≠ b) :
    (X a).Apart (X b) := by
  have hsymm : Std.Symm fun a b => (X a).Apart (X b) := ⟨fun _ _ hab => hab.symm⟩
  exact h.forall ha hb hne

/-- Everything in the first extent is in the second. -/
def Extent.Within (e e' : Extent) : Prop := ∀ x, x ∈ e → x ∈ e'

theorem Extent.within_of_le {e e' : Extent} (hb : e'.base ≤ e.base)
    (he : e.base + e.len ≤ e'.base + e'.len) : e.Within e' := by
  intro x hx
  rw [mem_iff] at *
  omega

theorem Extent.Apart.mono {d d' e e' : Extent} (h : Extent.Apart e e') (hd : d.Within e)
    (hd' : d'.Within e') : d.Apart d' :=
  fun x hx hx' => h x (hd x hx) (hd' x hx')

end Atros
