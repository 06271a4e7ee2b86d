import Mathlib.Data.List.Nodup
import Mathlib.Logic.Function.Basic
import Atros.Extent

namespace Atros
set_option autoImplicit true

/-! First fit over named extents: the free ones ascend, and meet none of the used ones. -/

variable {P : Type} {F U as bs us vs : List P} {X X' : P → Extent}

/-- All of the first extent is below the second. -/
def Extent.Below (e e' : Extent) : Prop := e.base + e.len ≤ e'.base

structure Regions (F U : List P) (X : P → Extent) : Prop where
  nodup : F.Nodup
  not_used : ∀ f ∈ F, f ∉ U
  ascending : F.Pairwise fun a b => (X a).Below (X b)
  apart : ∀ f ∈ F, ∀ u ∈ U, (X f).Apart (X u)

/-- The numbers in the extents of a list. -/
def Covers (F : List P) (X : P → Extent) (v : Nat) : Prop := ∃ f ∈ F, v ∈ X f

theorem Extent.Below.apart {e e' : Extent} (h : Extent.Below e e') : e.Apart e' := by
  rw [Below] at h
  rw [apart_iff]
  omega

theorem Covers.append : Covers (as ++ bs) X v ↔ Covers as X v ∨ Covers bs X v := by
  simp only [Covers, List.mem_append, or_and_right, exists_or]

theorem Covers.cons : Covers (a :: as) X v ↔ v ∈ X a ∨ Covers as X v := by
  simp only [Covers, List.mem_cons, or_and_right, exists_or, exists_eq_left]

theorem Covers.congr (h : ∀ f ∈ F, X' f = X f) : Covers F X' v ↔ Covers F X v := by
  constructor <;> rintro ⟨f, hf, hv⟩ <;> refine ⟨f, hf, ?_⟩
  · rwa [← h f hf]
  · rwa [h f hf]

theorem Regions.neighbours (h : Regions (as ++ r :: bs) U X) :
    (∀ a ∈ as, (X a).Below (X r)) ∧ (∀ b ∈ bs, (X r).Below (X b)) ∧
      (as ++ bs).Pairwise fun a b => (X a).Below (X b) := by
  obtain ⟨has, hrbs, hcross⟩ := List.pairwise_append.mp h.ascending
  obtain ⟨hr, hbs⟩ := List.pairwise_cons.mp hrbs
  refine ⟨fun a ha => hcross a ha r List.mem_cons_self, hr, List.pairwise_append.mpr ⟨has, hbs, ?_⟩⟩
  exact fun a ha b hb => hcross a ha b (List.mem_cons_of_mem r hb)

theorem Regions.others_apart (h : Regions (as ++ r :: bs) us X) :
    ∀ f ∈ as ++ bs, (X f).Apart (X r) := by
  obtain ⟨hbelow, habove, -⟩ := h.neighbours
  intro f hf
  rcases List.mem_append.mp hf with hf | hf
  · exact (hbelow f hf).apart
  · exact (habove f hf).apart.symm

theorem Regions.take (h : Regions (as ++ r :: bs) (us ++ vs) X) :
    Regions (as ++ bs) (us ++ r :: vs) X ∧
      ∀ v, Covers (as ++ bs) X v ↔ Covers (as ++ r :: bs) X v ∧ v ∉ X r := by
  obtain ⟨-, -, hrest⟩ := h.neighbours
  have hmem : ∀ f ∈ as ++ bs, f ∈ as ++ r :: bs := fun f hf =>
    List.perm_middle.mem_iff.mpr (List.mem_cons_of_mem r hf)
  have hoff := h.others_apart
  have hnodup := List.nodup_cons.mp (List.nodup_middle.mp h.nodup)
  refine ⟨⟨hnodup.2, fun f hf hu => ?_, hrest, ?_⟩, ?_⟩
  · rcases List.mem_cons.mp (List.perm_middle.mem_iff.mp hu) with rfl | hu
    · exact hnodup.1 hf
    · exact h.not_used f (hmem f hf) hu
  · intro f hf u hu
    rcases List.mem_append.mp hu with hu | hu
    · exact h.apart f (hmem f hf) u (List.mem_append_left vs hu)
    · rcases List.mem_cons.mp hu with rfl | hu
      · exact hoff f hf
      · exact h.apart f (hmem f hf) u (List.mem_append_right us hu)
  · intro v
    constructor
    · rintro ⟨f, hf, hv⟩
      exact ⟨⟨f, hmem f hf, hv⟩, hoff f hf v hv⟩
    · rintro ⟨⟨f, hf, hv⟩, hvr⟩
      rcases List.mem_cons.mp (List.perm_middle.mem_iff.mp hf) with rfl | hf
      · exact absurd hv hvr
      · exact ⟨f, hf, hv⟩

/-- The extents after `r` was cut to its first `n` numbers, of which `o` gets the others. -/
def cutAt [DecidableEq P] (X : P → Extent) (r o : P) (n : Nat) : P → Extent :=
  Function.update (Function.update X r ⟨(X r).base, n⟩) o ⟨(X r).base + n, (X r).len - n⟩

theorem cutAt_self [DecidableEq P] (X : P → Extent) (h : o ≠ r) (n : Nat) :
    cutAt X r o n r = ⟨(X r).base, n⟩ := by
  rw [cutAt, Function.update_of_ne h.symm, Function.update_self]

theorem cutAt_upper [DecidableEq P] (X : P → Extent) (r o : P) (n : Nat) :
    cutAt X r o n o = ⟨(X r).base + n, (X r).len - n⟩ := Function.update_self ..

theorem cutAt_other [DecidableEq P] (X : P → Extent) (hr : x ≠ r) (ho : x ≠ o) (n : Nat) :
    cutAt X r o n x = X x := by
  rw [cutAt, Function.update_of_ne ho, Function.update_of_ne hr]

theorem Regions.cut [DecidableEq P] (h : Regions (as ++ r :: bs) (us ++ vs) X)
    (hlen : n < (X r).len) (ho : o ∉ as ++ r :: bs) (ho' : o ∉ us ++ vs) :
    Regions (as ++ o :: bs) (us ++ r :: vs) (cutAt X r o n) ∧
      ∀ v, Covers (as ++ o :: bs) (cutAt X r o n) v ↔
        Covers (as ++ r :: bs) X v ∧ v ∉ cutAt X r o n r := by
  obtain ⟨hbelow, habove, hrest⟩ := h.neighbours
  obtain ⟨has, hbs, hcross⟩ := List.pairwise_append.mp hrest
  have hnodup := List.nodup_cons.mp (List.nodup_middle.mp h.nodup)
  rw [List.perm_middle.mem_iff, List.mem_cons, not_or] at ho
  have hsame : ∀ f ∈ as ++ bs, cutAt X r o n f = X f := by
    intro f hf
    refine cutAt_other X ?_ ?_ n
    · rintro rfl
      exact hnodup.1 hf
    · rintro rfl
      exact ho.2 hf
  have hsameU : ∀ u ∈ us ++ vs, cutAt X r o n u = X u := by
    intro u hu
    refine cutAt_other X ?_ ?_ n
    · rintro rfl
      exact h.not_used u (List.mem_append_right as List.mem_cons_self) hu
    · rintro rfl
      exact ho' hu
  have hmem : ∀ f ∈ as ++ bs, f ∈ as ++ r :: bs := fun f hf =>
    List.perm_middle.mem_iff.mpr (List.mem_cons_of_mem r hf)
  have hr := cutAt_self X ho.1 n
  have hoX := cutAt_upper X r o n
  have hsplit : ∀ v, v ∈ X r ↔ v ∈ cutAt X r o n r ∨ v ∈ cutAt X r o n o := by
    intro v
    rw [hr, hoX, Extent.mem_iff, Extent.mem_mk, Extent.mem_mk]
    omega
  have hparts : (cutAt X r o n r).Apart (cutAt X r o n o) := by
    rw [hr, hoX, Extent.apart_iff]
    simp only
    omega
  have hoff := h.others_apart
  refine ⟨⟨List.nodup_middle.mpr (List.nodup_cons.mpr ⟨ho.2, hnodup.2⟩), fun f hf hu => ?_,
    List.pairwise_append.mpr ⟨?_, List.pairwise_cons.mpr ⟨?_, ?_⟩, ?_⟩, ?_⟩, ?_⟩
  · rcases List.mem_cons.mp (List.perm_middle.mem_iff.mp hf) with rfl | hf
    · rcases List.mem_cons.mp (List.perm_middle.mem_iff.mp hu) with rfl | hu
      · exact ho.1 rfl
      · exact ho' hu
    · rcases List.mem_cons.mp (List.perm_middle.mem_iff.mp hu) with rfl | hu
      · exact hnodup.1 hf
      · exact h.not_used f (hmem f hf) hu
  · exact has.imp_of_mem fun ha hb hab => by
      rwa [hsame _ (List.mem_append_left bs ha), hsame _ (List.mem_append_left bs hb)]
  · intro b hb
    have hab := habove b hb
    rw [hsame b (List.mem_append_right as hb), hoX]
    rw [Extent.Below] at *
    simp only
    omega
  · exact hbs.imp_of_mem fun ha hb hab => by
      rwa [hsame _ (List.mem_append_right as ha), hsame _ (List.mem_append_right as hb)]
  · intro a ha b hb
    rw [hsame a (List.mem_append_left bs ha)]
    rcases List.mem_cons.mp hb with rfl | hb
    · have hab := hbelow a ha
      rw [hoX]
      rw [Extent.Below] at *
      simp only
      omega
    · rw [hsame b (List.mem_append_right as hb)]
      exact hcross a ha b hb
  · intro f hf u hu
    rcases List.mem_cons.mp (List.perm_middle.mem_iff.mp hf) with rfl | hf
    · rcases List.mem_cons.mp (List.perm_middle.mem_iff.mp hu) with rfl | hu
      · exact hparts.symm
      · rw [hsameU u hu]
        refine (h.apart r (List.mem_append_right as List.mem_cons_self) u hu).mono ?_ fun _ hv => hv
        exact fun v hv => (hsplit v).mpr (.inr hv)
    · rw [hsame f hf]
      rcases List.mem_cons.mp (List.perm_middle.mem_iff.mp hu) with rfl | hu
      · refine (hoff f hf).mono (fun _ hv => hv) ?_
        exact fun v hv => (hsplit v).mpr (.inl hv)
      · rw [hsameU u hu]
        exact h.apart f (hmem f hf) u hu
  · intro v
    constructor
    · rintro ⟨f, hf, hv⟩
      rcases List.mem_cons.mp (List.perm_middle.mem_iff.mp hf) with rfl | hf
      · exact ⟨⟨r, List.mem_append_right as List.mem_cons_self, (hsplit v).mpr (.inr hv)⟩,
          hparts.symm v hv⟩
      · rw [hsame f hf] at hv
        exact ⟨⟨f, hmem f hf, hv⟩, fun hvr => hoff f hf v hv ((hsplit v).mpr (.inl hvr))⟩
    · rintro ⟨⟨f, hf, hv⟩, hvr⟩
      rcases List.mem_cons.mp (List.perm_middle.mem_iff.mp hf) with rfl | hf
      · exact ⟨o, List.mem_append_right as List.mem_cons_self, ((hsplit v).mp hv).resolve_left hvr⟩
      · refine ⟨f, List.perm_middle.mem_iff.mpr (List.mem_cons_of_mem o hf), ?_⟩
        rwa [hsame f hf]

end Atros
