import Atros.SplitHeap
import Atros.SlabObjects

namespace Atros
set_option autoImplicit true

variable {H H' H₁ : Heap} {F G : Struct → Nat → Prop} {t t' : View}

/-! ### Fields after an update -/

theorem Heap.setWord_word (H : Heap) (f : WordField) (a v : Nat) (g : WordField) (b : Nat) :
    (H.setWord f a v).word g b = if g = f ∧ b = a then v else H.word g b := rfl

theorem Heap.setPtr_ptr (H : Heap) (f : PointerField) (a : Nat) (v : Option Nat)
    (g : PointerField) (b : Nat) :
    (H.setPtr f a v).ptr g b = if g = f ∧ b = a then v else H.ptr g b := rfl

@[simp] theorem Heap.setWord_ptr (H : Heap) (f : WordField) (a v : Nat) :
    (H.setWord f a v).ptr = H.ptr := rfl

@[simp] theorem Heap.setWord_struct (H : Heap) (f : WordField) (a v : Nat) :
    (H.setWord f a v).struct = H.struct := rfl

@[simp] theorem Heap.setWord_slot (H : Heap) (f : WordField) (a v : Nat) :
    (H.setWord f a v).slot = H.slot := rfl

@[simp] theorem Heap.setPtr_word (H : Heap) (f : PointerField) (a : Nat) (v : Option Nat) :
    (H.setPtr f a v).word = H.word := rfl

@[simp] theorem Heap.setPtr_struct (H : Heap) (f : PointerField) (a : Nat) (v : Option Nat) :
    (H.setPtr f a v).struct = H.struct := rfl

@[simp] theorem Heap.setPtr_slot (H : Heap) (f : PointerField) (a : Nat) (v : Option Nat) :
    (H.setPtr f a v).slot = H.slot := rfl

@[simp] theorem Heap.setWord_self (H : Heap) (f : WordField) (a v : Nat) :
    (H.setWord f a v).word f a = v := if_pos ⟨rfl, rfl⟩

@[simp] theorem Heap.setPtr_self (H : Heap) (f : PointerField) (a : Nat) (v : Option Nat) :
    (H.setPtr f a v).ptr f a = v := if_pos ⟨rfl, rfl⟩

theorem Heap.setWord_of_field (H : Heap) (h : g ≠ f) (a v : Nat) :
    (H.setWord f a v).word g = H.word g := by
  funext b
  exact if_neg fun hc => h hc.1

theorem Heap.setPtr_of_field (H : Heap) (h : g ≠ f) (a : Nat) (v : Option Nat) :
    (H.setPtr f a v).ptr g = H.ptr g := by
  funext b
  exact if_neg fun hc => h hc.1

theorem Heap.setWord_of_addr (H : Heap) (f : WordField) (h : b ≠ a) (v : Nat) :
    (H.setWord f a v).word g b = H.word g b := if_neg fun hc => h hc.2

theorem Heap.setPtr_of_addr (H : Heap) (f : PointerField) (h : b ≠ a) (v : Option Nat) :
    (H.setPtr f a v).ptr g b = H.ptr g b := if_neg fun hc => h hc.2

theorem Heap.setPtr_same (h : H.ptr f a = v) : H.setPtr f a v = H := by
  have heq : (H.setPtr f a v).ptr = H.ptr := by
    funext g b
    rw [setPtr_ptr]
    split
    · obtain ⟨rfl, rfl⟩ := ‹_ ∧ _›
      exact h.symm
    · rfl
  rw [← h] at heq ⊢
  rw [setPtr] at *
  simp only at heq
  rw [heq]

@[simp] theorem View.setWord_heap (t : View) (f : WordField) (a v : Nat) :
    (t.setWord f a v).heap = t.heap.setWord f a v := rfl

@[simp] theorem View.setPtr_heap (t : View) (f : PointerField) (a : Nat) (v : Option Nat) :
    (t.setPtr f a v).heap = t.heap.setPtr f a v := rfl

@[simp] theorem View.setWord_rest (t : View) (f : WordField) (a v : Nat) :
    (t.setWord f a v).rest = t.rest := rfl

@[simp] theorem View.setPtr_rest (t : View) (f : PointerField) (a : Nat) (v : Option Nat) :
    (t.setPtr f a v).rest = t.rest := rfl

/-! ### What an operation leaves unchanged -/

/-- Only the structures in `F` change; slots stay, and so do the slots that hold no structure. -/
structure Heap.ChangesOnly (F : Struct → Nat → Prop) (H H' : Heap) : Prop where
  word : ∀ f a, ¬F f.struct a → H'.word f a = H.word f a
  ptr : ∀ f a, ¬F f.struct a → H'.ptr f a = H.ptr f a
  struct : ∀ k a, ¬F k a → H.struct a = some k → H'.struct a = some k
  untyped : ∀ a, (∀ k, ¬F k a) → H.struct a = none → H.slot a ≠ none → H'.struct a = none
  slot : ∀ a u, H.slot a = some u → H'.slot a = some u

theorem Heap.ChangesOnly.refl (F : Struct → Nat → Prop) (H : Heap) : H.ChangesOnly F H :=
  ⟨fun _ _ _ => rfl, fun _ _ _ => rfl, fun _ _ _ h => h, fun _ _ h _ => h, fun _ _ h => h⟩

theorem Heap.ChangesOnly.trans (h : Heap.ChangesOnly F H H₁) (h' : Heap.ChangesOnly F H₁ H') :
    H.ChangesOnly F H' := by
  refine ⟨?_, ?_, ?_, ?_, fun a u hu => h'.slot a u (h.slot a u hu)⟩
  · intro f a hF
    rw [h'.word f a hF, h.word f a hF]
  · intro f a hF
    rw [h'.ptr f a hF, h.ptr f a hF]
  · intro k a hF ha
    exact h'.struct k a hF (h.struct k a hF ha)
  · intro a hF ha hslot
    refine h'.untyped a hF (h.untyped a hF ha hslot) ?_
    obtain ⟨u, hu⟩ := Option.ne_none_iff_exists'.mp hslot
    rw [h.slot a u hu]
    exact Option.some_ne_none u

theorem Heap.ChangesOnly.weaken (h : Heap.ChangesOnly F H H') (hFG : ∀ k a, F k a → G k a) :
    H.ChangesOnly G H' :=
  ⟨fun f a hG => h.word f a (mt (hFG _ a) hG), fun f a hG => h.ptr f a (mt (hFG _ a) hG),
    fun k a hG => h.struct k a (mt (hFG k a) hG),
    fun a hG => h.untyped a fun k => mt (hFG k a) (hG k), h.slot⟩

theorem Heap.ChangesOnly.setWord (h : Heap.ChangesOnly F H H') (hF : F f.struct a) (v : Nat) :
    H.ChangesOnly F (H'.setWord f a v) := by
  refine ⟨?_, h.ptr, h.struct, h.untyped, h.slot⟩
  intro g b hg
  rw [← h.word g b hg]
  refine if_neg ?_
  rintro ⟨rfl, rfl⟩
  exact hg hF

theorem Heap.ChangesOnly.setPtr (h : Heap.ChangesOnly F H H') (hF : F f.struct a)
    (v : Option Nat) : H.ChangesOnly F (H'.setPtr f a v) := by
  refine ⟨h.word, ?_, h.struct, h.untyped, h.slot⟩
  intro g b hg
  rw [← h.ptr g b hg]
  refine if_neg ?_
  rintro ⟨rfl, rfl⟩
  exact hg hF

/-- The list of caches has not been touched. -/
structure Heap.SameLinks (H H' : Heap) : Prop where
  prev : H'.ptr .cachePrev = H.ptr .cachePrev
  next : H'.ptr .cacheNext = H.ptr .cacheNext

theorem Heap.SameLinks.trans (h : Heap.SameLinks H H₁) (h' : Heap.SameLinks H₁ H') :
    H.SameLinks H' := ⟨h'.prev.trans h.prev, h'.next.trans h.next⟩

theorem Heap.ChangesOnly.sameLinks (h : Heap.ChangesOnly F H H') (hF : ∀ a, ¬F .cache a) :
    H.SameLinks H' :=
  ⟨funext fun a => h.ptr .cachePrev a (hF a), funext fun a => h.ptr .cacheNext a (hF a)⟩

/-- The heap in which no structure is kept at `a`. -/
def Heap.forget (H : Heap) (a : Nat) : Heap :=
  { H with struct := Function.update H.struct a none }

theorem Heap.ChangesOnly.forget (h : Heap.ChangesOnly F H H')
    (hF : ∀ k, H.struct a = some k → F k a) : H.ChangesOnly F (H'.forget a) := by
  refine ⟨h.word, h.ptr, ?_, ?_, h.slot⟩
  · intro k b hb hk
    by_cases hba : b = a
    · subst hba
      exact absurd (hF k hk) hb
    · exact (Function.update_of_ne hba _ _).trans (h.struct k b hb hk)
  · intro b hb hn hs
    by_cases hba : b = a
    · subst hba
      exact Function.update_self b none H'.struct
    · exact (Function.update_of_ne hba _ _).trans (h.untyped b hb hn hs)

theorem Heap.ChangesOnly.retype (h : Heap.ChangesOnly F H H') (hF : F k a)
    (hn : H'.struct a = none) : H.ChangesOnly F (H'.retype m a k) := by
  have hne : ∀ k' b, ¬F k' b → ¬(b = a ∧ k' = k) := by
    rintro k' b hb ⟨rfl, rfl⟩
    exact hb hF
  refine ⟨?_, ?_, ?_, ?_, h.slot⟩
  · intro f b hb
    exact (if_neg (hne _ b hb)).trans (h.word f b hb)
  · intro f b hb
    exact (if_neg (hne _ b hb)).trans (h.ptr f b hb)
  · intro k' b hb hk
    have hold := h.struct k' b hb hk
    have hba : b ≠ a := by
      rintro rfl
      rw [hn] at hold
      cases hold
    exact (Function.update_of_ne hba _ _).trans hold
  · intro b hb hk hs
    have hba : b ≠ a := by
      rintro rfl
      exact hb k hF
    exact (Function.update_of_ne hba _ _).trans (h.untyped b hb hk hs)

/-! ### Rules -/

section
variable {E : Panic → Prop} {Q : α → View → Prop}

theorem Runs.shown {x : Prog Panic Kernel α} (h : ∀ k, Shows k t → Runs Shows E Q x t) :
    Runs Shows E Q x t :=
  fun k hk => h k hk k hk

theorem Shows.ptrOk (h : Shows k t) (ha : t.heap.struct a = some f.struct) :
    PtrOk (t.heap.ptr f a) := by
  have hload := h.models.ptr f a ha
  have hlt := load32_lt k.mem (a + f.offset)
  intro b hb
  have hne := h.models.ptr_ne f a ha
  rw [hb] at hne hload
  rw [hload] at hlt
  refine ⟨Nat.pos_of_ne_zero ?_, hlt⟩
  rintro rfl
  exact hne rfl

theorem Struct.size_pos (k : Struct) : 0 < k.size := by
  cases k <;> decide

theorem Shows.addrOk (h : Shows k t) (ha : t.heap.struct a = some f) : PtrOk (some a) := by
  obtain ⟨u, hu, hle⟩ := h.models.slot a f ha
  have hb := h.models.bounds a u hu
  have hpos := f.size_pos
  exact .some hb.1 (by omega)

theorem Runs.readWord {x : Nat → Prog Panic Kernel α} (f : WordField)
    (ha : t.heap.struct a = some f.struct) (hx : Runs Shows E Q (x (t.heap.word f a)) t) :
    Runs Shows E Q ((f.of a).read >>= x) t :=
  .read (reads_word f ha) hx

theorem Runs.readPtr {x : Option Nat → Prog Panic Kernel α} (f : PointerField)
    (ha : t.heap.struct a = some f.struct) (hx : Runs Shows E Q (x (t.heap.ptr f a)) t) :
    Runs Shows E Q ((f.of a).read >>= x) t :=
  .read (reads_ptr f ha) hx

theorem Runs.writeWord {x : Unit → Prog Panic Kernel α} (f : WordField)
    (ha : t.heap.struct a = some f.struct) (hv : v < 2 ^ 32)
    (hx : Runs Shows E Q (x ()) (t.setWord f a v)) :
    Runs Shows E Q ((f.of a).write v >>= x) t :=
  .write (writes_word f ha hv) hx

theorem Runs.writePtr {x : Unit → Prog Panic Kernel α} (f : PointerField)
    (ha : t.heap.struct a = some f.struct) (hp : PtrOk p)
    (hx : Runs Shows E Q (x ()) (t.setPtr f a p)) :
    Runs Shows E Q ((f.of a).write p >>= x) t :=
  .write (writes_ptr f ha hp) hx

theorem Runs.redescribe {x : Prog Panic Kernel α} (h : ∀ k, Shows k t → Shows k t')
    (hx : Runs Shows E Q x t') : Runs Shows E Q x t :=
  fun k hk => hx k (h k hk)

def View.forget (t : View) (a : Nat) : View := { t with heap := t.heap.forget a }

def View.retype (t : View) (m : Mem) (a : Nat) (k : Struct) : View :=
  { t with heap := t.heap.retype m a k }

theorem Shows.forget (h : Shows k t) (ha : t.heap.struct a = some .object) : Shows k (t.forget a) :=
  ⟨h.models.forget ha, h.rest⟩

theorem Runs.retype {x : Prog Panic Kernel α} (hu : t.heap.slot a = some u)
    (hn : t.heap.struct a = none) (hs : s.size ≤ u.size)
    (hx : ∀ m, Runs Shows E Q x (t.retype m a s)) : Runs Shows E Q x t :=
  fun k hk => hx k.mem k ⟨hk.models.retype hu hn hs, hk.rest⟩

theorem Runs.increase (f : WordField) (ha : t.heap.struct a = some f.struct)
    (hlt : t.heap.word f a + n < 2 ^ 32) {x : Unit → Prog Panic Kernel α}
    (hx : Runs Shows E Q (x ()) (t.setWord f a (t.heap.word f a + n))) :
    Runs Shows E Q ((f.of a).increase n >>= x) t := by
  refine Runs.bind (R := fun _ t' => t' = t.setWord f a (t.heap.word f a + n)) ?_ ?_
  · refine .readWord f ha (.writeLast ?_ rfl)
    rw [add32_of_lt hlt]
    exact writes_word f ha hlt
  · rintro - _ rfl
    exact hx

theorem Runs.decrease (f : WordField) (ha : t.heap.struct a = some f.struct)
    (hle : n ≤ t.heap.word f a) (hlt : t.heap.word f a < 2 ^ 32)
    {x : Unit → Prog Panic Kernel α}
    (hx : Runs Shows E Q (x ()) (t.setWord f a (t.heap.word f a - n))) :
    Runs Shows E Q ((f.of a).decrease n >>= x) t := by
  refine Runs.bind (R := fun _ t' => t' = t.setWord f a (t.heap.word f a - n)) ?_ ?_
  · refine .readWord f ha (.writeLast ?_ rfl)
    rw [sub32_of_le hle hlt]
    exact writes_word f ha (by omega)
  · rintro - _ rfl
    exact hx

end

end Atros
