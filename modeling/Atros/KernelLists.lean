import Atros.Chain
import Atros.Footprint
import Atros.Ring

namespace Atros
set_option autoImplicit true

variable {P : Type} {next : P → Option P} {list : Option P} {xs : List P} {k : Kernel} {t : View}

/-! ### Reading the memory of the kernel -/

/-- The node is on the list that begins at a pointer. -/
inductive OnList (next : P → Option P) : Option P → P → Prop
  | here (a : P) : OnList next (some a) a
  | later : OnList next (next a) x → OnList next (some a) x

theorem Chain.onList_iff (h : Chain next list xs) : OnList next list x ↔ x ∈ xs := by
  constructor
  · intro hx
    induction hx generalizing xs with
    | here a =>
      obtain ⟨ys, rfl⟩ := h.eq_cons
      exact List.mem_cons_self
    | later _ ih =>
      obtain ⟨ys, rfl⟩ := h.eq_cons
      exact List.mem_cons_of_mem _ (ih h.2)
  · intro hx
    induction xs generalizing list with
    | nil => exact nomatch hx
    | cons y ys ih =>
      obtain ⟨rfl, htail⟩ := h
      rcases List.mem_cons.mp hx with rfl | hx
      · exact .here x
      · exact .later (ih htail hx)

theorem Links.Path.onList {l : Links P} (h : l.Path a xs b) (hx : x ∈ a :: xs) :
    OnList l.next (some a) x := by
  induction xs generalizing a with
  | nil =>
    rw [List.mem_singleton.mp hx]
    exact .here a
  | cons y ys ih =>
    rcases List.mem_cons.mp hx with rfl | hx
    · exact .here x
    · refine .later ?_
      rw [h.1.1]
      exact ih h.2 hx

theorem Links.Ring.mem_of_onList {l : Links P} (h : l.Ring list xs) (hx : OnList l.next p x)
    (hp : ∀ a, p = some a → a ∈ xs) : x ∈ xs := by
  induction hx with
  | here a => exact hp a rfl
  | @later a x _ ih =>
    obtain ⟨y, hy, hnext, -⟩ := h.next_mem (hp a rfl)
    refine ih fun b hb => ?_
    rw [hnext] at hb
    exact Option.some.inj hb ▸ hy

theorem Links.Ring.onList_iff {l : Links P} (h : l.Ring list xs) :
    OnList l.next list x ↔ x ∈ xs := by
  constructor
  · intro hx
    refine h.mem_of_onList hx ?_
    rintro a rfl
    obtain ⟨as, rfl⟩ := h.eq_cons
    exact List.mem_cons_self
  · intro hx
    cases xs with
    | nil => exact nomatch hx
    | cons a as =>
      rw [h.head]
      exact (h.path a as rfl).onList hx

def Kernel.wordOf (k : Kernel) (f : WordField) (a : Nat) : Nat := load32 k.mem (a + f.offset)

def Kernel.ptrOf (k : Kernel) (f : PointerField) (a : Nat) : Option Nat :=
  toPtr (load32 k.mem (a + f.offset))

theorem Shows.wordOf (h : Shows k t) (f : WordField) (ha : t.heap.struct a = some f.struct) :
    k.wordOf f a = t.heap.word f a := h.models.word f a ha

theorem Shows.ptrOf (h : Shows k t) (f : PointerField) (ha : t.heap.struct a = some f.struct) :
    k.ptrOf f a = t.heap.ptr f a := by
  rw [Kernel.ptrOf, h.models.ptr f a ha, toPtr_ofPtr (h.models.ptr_ne f a ha)]

theorem Shows.chain {list : Option Nat} {xs : List Nat} (h : Shows k t) (f : PointerField)
    (hch : Chain (t.heap.ptr f) list xs) (hxs : ∀ x ∈ xs, t.heap.struct x = some f.struct) :
    Chain (k.ptrOf f) list xs := hch.congr fun x hx => h.ptrOf f (hxs x hx)

end Atros
