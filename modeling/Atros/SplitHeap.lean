import Atros.Abstraction
import Atros.Structs

namespace Atros
set_option autoImplicit true

/-- A place for an object in a slab. -/
structure Slot where
  /-- The descriptor of the slab. -/
  slab : Nat
  size : Nat

/-- The memory of the slabs, one map for each field. -/
structure Heap where
  word : WordField → Nat → Nat
  ptr : PointerField → Nat → Option Nat
  /-- The structure kept at an address. -/
  struct : Nat → Option Struct
  slot : Nat → Option Slot

def Heap.setWord (H : Heap) (f : WordField) (a v : Nat) : Heap :=
  { H with word := fun g b => if g = f ∧ b = a then v else H.word g b }

def Heap.setPtr (H : Heap) (f : PointerField) (a : Nat) (v : Option Nat) : Heap :=
  { H with ptr := fun g b => if g = f ∧ b = a then v else H.ptr g b }

/-- The bytes of `m` are those of the structures in `H`, which lie in slots that do not meet. -/
structure Heap.Models (H : Heap) (m : Mem) : Prop where
  word : ∀ f a, H.struct a = some f.struct → load32 m (a + f.offset) = H.word f a
  ptr : ∀ f a, H.struct a = some f.struct → load32 m (a + f.offset) = ofPtr (H.ptr f a)
  ptr_ne : ∀ f a, H.struct a = some f.struct → H.ptr f a ≠ some 0
  slot : ∀ a k, H.struct a = some k → ∃ t, H.slot a = some t ∧ k.size ≤ t.size
  apart : ∀ a b t u, H.slot a = some t → H.slot b = some u → a ≠ b →
    a + t.size ≤ b ∨ b + u.size ≤ a
  bounds : ∀ a t, H.slot a = some t → 0 < a ∧ a + t.size ≤ 2 ^ 32
  /-- The word at which a region would keep its successor, in a slot that holds no structure or an
  object; `some 0` where it is not known. -/
  spare : ∀ a t, H.slot a = some t → sizeofVregion ≤ t.size →
    H.struct a = none ∨ H.struct a = some .object →
    H.ptr .vregionNext a = some 0 ∨
      load32 m (a + PointerField.vregionNext.offset) = ofPtr (H.ptr .vregionNext a)
  unknown : ∀ a, H.slot a = none → H.ptr .vregionNext a = some 0

/-! ### Fields -/

theorem WordField.offset_fits (f : WordField) : f.offset + 4 ≤ f.struct.size := by
  rcases f with _ | _ | _ | _ | _ | _ | _ | _ | _ | _ | _ | _ | (_ | _ | _) <;> decide

theorem PointerField.offset_fits (f : PointerField) : f.offset + 4 ≤ f.struct.size := by
  rcases f with _ | _ | _ | _ | _ | _ | (_ | _ | _) | _ | _ <;> decide

theorem WordField.offset_apart {f g : WordField} (h : f ≠ g) (hs : f.struct = g.struct) :
    f.offset + 4 ≤ g.offset ∨ g.offset + 4 ≤ f.offset := by
  rcases f with _ | _ | _ | _ | _ | _ | _ | _ | _ | _ | _ | _ | (_ | _ | _) <;>
    rcases g with _ | _ | _ | _ | _ | _ | _ | _ | _ | _ | _ | _ | (_ | _ | _) <;>
    first | exact absurd rfl h | (exact absurd hs (by decide)) | decide

theorem PointerField.offset_apart {f g : PointerField} (h : f ≠ g) (hs : f.struct = g.struct) :
    f.offset + 4 ≤ g.offset ∨ g.offset + 4 ≤ f.offset := by
  rcases f with _ | _ | _ | _ | _ | _ | (_ | _ | _) | _ | _ <;>
    rcases g with _ | _ | _ | _ | _ | _ | (_ | _ | _) | _ | _ <;>
    first | exact absurd rfl h | (exact absurd hs (by decide)) | decide

theorem field_offset_apart (f : WordField) (g : PointerField) (hs : f.struct = g.struct) :
    f.offset + 4 ≤ g.offset ∨ g.offset + 4 ≤ f.offset := by
  rcases f with _ | _ | _ | _ | _ | _ | _ | _ | _ | _ | _ | _ | (_ | _ | _) <;>
    rcases g with _ | _ | _ | _ | _ | _ | (_ | _ | _) | _ | _ <;>
    first | (exact absurd hs (by decide)) | decide

theorem toPtr_ofPtr (h : p ≠ some 0) : toPtr (ofPtr p) = p := by
  cases p with
  | none => rfl
  | some a => exact if_neg fun h0 => h (congrArg some h0)

theorem ofPtr_toPtr (w : Nat) : ofPtr (toPtr w) = w := by
  rw [toPtr]
  split
  · rw [‹w = 0›]
    rfl
  · rfl

theorem toPtr_ne (w : Nat) : toPtr w ≠ some 0 := by
  rw [toPtr]
  split
  · exact fun h => nomatch h
  · exact fun h => ‹¬w = 0› (Option.some.inj h)

variable {H H' : Heap} {m : Mem}

theorem Heap.Models.fields_apart (h : H.Models m) (ha : H.struct a = some k)
    (hb : H.struct b = some k') (hne : a ≠ b) (hi : i + 4 ≤ k.size) (hj : j + 4 ≤ k'.size) :
    a + i + 4 ≤ b + j ∨ b + j + 4 ≤ a + i := by
  obtain ⟨t, ht, hkt⟩ := h.slot a k ha
  obtain ⟨u, hu, hku⟩ := h.slot b k' hb
  have hapart := h.apart a b t u ht hu hne
  omega

theorem Heap.Models.spare_apart (h : H.Models m) (ha : H.struct a = some k) (hi : i + 4 ≤ k.size)
    (hb : H.slot b = some t) (hsize : sizeofVregion ≤ t.size)
    (hfree : H.struct b = none ∨ H.struct b = some .object) :
    a + i + 4 ≤ b + PointerField.vregionNext.offset ∨
      b + PointerField.vregionNext.offset + 4 ≤ a + i := by
  have hoff : PointerField.vregionNext.offset = 8 := rfl
  have hvregion : sizeofVregion = 12 := rfl
  obtain ⟨u, hu, hle⟩ := h.slot a k ha
  by_cases hab : a = b
  · subst hab
    rw [ha] at hfree
    rcases hfree with hfree | hfree
    · exact nomatch hfree
    · rw [Option.some.inj hfree] at hi
      change i + 4 ≤ 4 at hi
      omega
  · have hapart := h.apart a b u t hu hb hab
    omega

theorem Heap.Models.setWord (h : H.Models m) (ha : H.struct a = some f.struct)
    (hv : v < 2 ^ 32) : (H.setWord f a v).Models (store32 (a + f.offset) v m) := by
  refine ⟨?_, ?_, h.ptr_ne, h.slot, h.apart, h.bounds, fun b t hb hsize hfree => ?_, h.unknown⟩
  rotate_left 2
  · rw [load32_store32_of_apart (h.spare_apart ha f.offset_fits hb hsize hfree)]
    exact h.spare b t hb hsize hfree
  · intro g b hb
    by_cases hab : b = a
    · subst hab
      by_cases hgf : g = f
      · subst hgf
        rw [load32_store32 hv]
        exact (if_pos ⟨rfl, rfl⟩).symm
      · have hoff := WordField.offset_apart hgf (Option.some.inj (hb.symm.trans ha))
        rw [load32_store32_of_apart (by omega), h.word g b hb]
        exact (if_neg fun hc => hgf hc.1).symm
    · have hoff := h.fields_apart ha hb (Ne.symm hab) f.offset_fits g.offset_fits
      rw [load32_store32_of_apart hoff, h.word g b hb]
      exact (if_neg fun hc => hab hc.2).symm
  · intro g b hb
    rw [load32_store32_of_apart, h.ptr g b hb]
    · rfl
    · by_cases hab : b = a
      · subst hab
        have hoff := field_offset_apart f g (Option.some.inj (ha.symm.trans hb))
        omega
      · exact h.fields_apart ha hb (Ne.symm hab) f.offset_fits g.offset_fits

theorem Heap.Models.setPtr (h : H.Models m) (ha : H.struct a = some f.struct)
    (hv : p ≠ some 0) (hlt : ofPtr p < 2 ^ 32) :
    (H.setPtr f a p).Models (store32 (a + f.offset) (ofPtr p) m) := by
  have hother : ∀ b, H.struct b = none ∨ H.struct b = some .object →
      (H.setPtr f a p).ptr .vregionNext b = H.ptr .vregionNext b := by
    intro b hfree
    refine if_neg ?_
    rintro ⟨rfl, rfl⟩
    rw [ha] at hfree
    rcases hfree with hfree | hfree <;> exact nomatch hfree
  refine ⟨?_, ?_, ?_, h.slot, h.apart, h.bounds, fun b t hb hsize hfree => ?_, fun b hb => ?_⟩
  rotate_left 3
  · rw [load32_store32_of_apart (h.spare_apart ha f.offset_fits hb hsize hfree), hother b hfree]
    exact h.spare b t hb hsize hfree
  · rw [hother b (.inl ?_)]
    · exact h.unknown b hb
    · by_contra hne
      obtain ⟨k, hk⟩ := Option.ne_none_iff_exists'.mp hne
      obtain ⟨u, hu, -⟩ := h.slot b k hk
      exact nomatch hb.symm.trans hu
  · intro g b hb
    rw [load32_store32_of_apart, h.word g b hb]
    · rfl
    · by_cases hab : b = a
      · subst hab
        have hoff := field_offset_apart g f (Option.some.inj (hb.symm.trans ha))
        omega
      · exact h.fields_apart ha hb (Ne.symm hab) f.offset_fits g.offset_fits
  · intro g b hb
    by_cases hab : b = a
    · subst hab
      by_cases hgf : g = f
      · subst hgf
        rw [load32_store32 hlt]
        exact congrArg ofPtr (if_pos ⟨rfl, rfl⟩).symm
      · have hoff := PointerField.offset_apart hgf (Option.some.inj (hb.symm.trans ha))
        rw [load32_store32_of_apart (by omega), h.ptr g b hb]
        exact congrArg ofPtr (if_neg fun hc => hgf hc.1).symm
    · have hoff := h.fields_apart ha hb (Ne.symm hab) f.offset_fits g.offset_fits
      rw [load32_store32_of_apart hoff, h.ptr g b hb]
      exact congrArg ofPtr (if_neg fun hc => hab hc.2).symm
  · intro g b hb
    change (if g = f ∧ b = a then p else H.ptr g b) ≠ some 0
    split
    · exact hv
    · exact h.ptr_ne g b hb

theorem Heap.Models.forget (h : H.Models m) (ha : H.struct a = some .object) :
    { H with struct := Function.update H.struct a none }.Models m := by
  have hold : ∀ b k, Function.update H.struct a none b = some k → H.struct b = some k := by
    intro b k hb
    rw [Function.update_apply] at hb
    split at hb
    · cases hb
    · exact hb
  refine ⟨fun f b hb => h.word f b (hold b _ hb), fun f b hb => h.ptr f b (hold b _ hb),
    fun f b hb => h.ptr_ne f b (hold b _ hb), fun b k hb => h.slot b k (hold b k hb),
    h.apart, h.bounds, fun b t hb hsize hfree => h.spare b t hb hsize ?_, h.unknown⟩
  by_cases hba : b = a
  · rw [hba]
    exact .inr ha
  · have hsame : Function.update H.struct a none b = H.struct b := Function.update_of_ne hba _ _
    rw [← hsame]
    exact hfree

/-- The heap in which the bytes at `a` are read as a structure. -/
def Heap.retype (H : Heap) (m : Mem) (a : Nat) (k : Struct) : Heap where
  word f b := if b = a ∧ f.struct = k then load32 m (a + f.offset) else H.word f b
  ptr f b := if b = a ∧ f.struct = k then toPtr (load32 m (a + f.offset)) else H.ptr f b
  struct := Function.update H.struct a (some k)
  slot := H.slot

theorem Heap.Models.retype (h : H.Models m) (ht : H.slot a = some t) (hn : H.struct a = none)
    (hk : k.size ≤ t.size) : (H.retype m a k).Models m := by
  have hold : ∀ b k', ¬b = a → Function.update H.struct a (some k) b = some k' →
      H.struct b = some k' := by
    intro b k' hba hb
    rwa [Function.update_of_ne hba] at hb
  have hnew : ∀ k', Function.update H.struct a (some k) a = some k' → k' = k := by
    intro k' hb
    rw [Function.update_self] at hb
    exact (Option.some.inj hb).symm
  refine ⟨?_, ?_, ?_, ?_, h.apart, h.bounds, fun b u hb hsize hfree => ?_, fun b hb => ?_⟩
  rotate_left 4
  · have hfree' : H.struct b = none ∨ H.struct b = some .object := by
      by_cases hba : b = a
      · exact .inl (hba ▸ hn)
      · have hsame : Function.update H.struct a (some k) b = H.struct b :=
          Function.update_of_ne hba _ _
        rw [← hsame]
        exact hfree
    have hp : (H.retype m a k).ptr .vregionNext b = H.ptr .vregionNext b := by
      refine if_neg ?_
      rintro ⟨rfl, rfl⟩
      have hself : Function.update H.struct b (some PointerField.vregionNext.struct) b =
        some .vregion :=
        Function.update_self ..
      rcases hfree with hfree | hfree <;> exact nomatch hself.symm.trans hfree
    rw [hp]
    exact h.spare b u hb hsize hfree'
  · have hba : b ≠ a := by
      rintro rfl
      exact nomatch hb.symm.trans ht
    have hp : (H.retype m a k).ptr .vregionNext b = H.ptr .vregionNext b :=
      if_neg fun hc => hba hc.1
    rw [hp]
    exact h.unknown b hb
  · intro f b hb
    by_cases hba : b = a
    · subst hba
      exact (if_pos ⟨rfl, hnew _ hb⟩).symm
    · rw [h.word f b (hold b _ hba hb)]
      exact (if_neg fun hc => hba hc.1).symm
  · intro f b hb
    by_cases hba : b = a
    · subst hba
      have hp : (H.retype m b k).ptr f b = toPtr (load32 m (b + f.offset)) :=
        if_pos ⟨rfl, hnew _ hb⟩
      rw [hp, ofPtr_toPtr]
    · rw [h.ptr f b (hold b _ hba hb)]
      exact congrArg ofPtr (if_neg fun hc => hba hc.1).symm
  · intro f b hb
    by_cases hba : b = a
    · subst hba
      have hp : (H.retype m b k).ptr f b = toPtr (load32 m (b + f.offset)) :=
        if_pos ⟨rfl, hnew _ hb⟩
      rw [hp]
      exact toPtr_ne _
    · have hp : (H.retype m a k).ptr f b = H.ptr f b := if_neg fun hc => hba hc.1
      rw [hp]
      exact h.ptr_ne f b (hold b _ hba hb)
  · intro b k' hb
    by_cases hba : b = a
    · subst hba
      rw [hnew k' hb]
      exact ⟨t, ht, hk⟩
    · exact h.slot b k' (hold b k' hba hb)

theorem Heap.Models.addSlots (h : H.Models m) (hkeep : ∀ a t, H.slot a = some t → slots a = some t)
    (hapart : ∀ a b t u, slots a = some t → slots b = some u → a ≠ b →
      a + t.size ≤ b ∨ b + u.size ≤ a)
    (hbounds : ∀ a t, slots a = some t → 0 < a ∧ a + t.size ≤ 2 ^ 32) :
    { H with slot := slots }.Models m := by
  refine ⟨h.word, h.ptr, h.ptr_ne, ?_, hapart, hbounds, fun a t ha hsize hfree => ?_,
    fun a ha => ?_⟩
  · intro a k ha
    obtain ⟨t, ht, hk⟩ := h.slot a k ha
    exact ⟨t, hkeep a t ht, hk⟩
  · cases hold : H.slot a with
    | none => exact .inl (h.unknown a hold)
    | some u =>
      rw [Option.some.inj ((hkeep a u hold).symm.trans ha)] at hold
      exact h.spare a t hold hsize hfree
  · cases hold : H.slot a with
    | none => exact h.unknown a hold
    | some u => exact nomatch ha.symm.trans (hkeep a u hold)

theorem Heap.Models.congr {m' : Mem} (h : H.Models m)
    (hsame : ∀ k a, H.struct a = some k → ∀ i, i + 4 ≤ k.size → (k = .cache → 24 ≤ i) →
      load32 m' (a + i) = load32 m (a + i))
    (hspare : ∀ a t, H.slot a = some t → sizeofVregion ≤ t.size →
      H.struct a = none ∨ H.struct a = some .object →
      load32 m' (a + PointerField.vregionNext.offset) =
        load32 m (a + PointerField.vregionNext.offset)) : H.Models m' := by
  refine ⟨?_, ?_, h.ptr_ne, h.slot, h.apart, h.bounds, fun a t ha hsize hfree => ?_, h.unknown⟩
  rotate_left 2
  · rw [hspare a t ha hsize hfree]
    exact h.spare a t ha hsize hfree
  · intro f a ha
    rw [hsame _ a ha f.offset f.offset_fits, h.word f a ha]
    rcases f with _ | _ | _ | _ | _ | _ | _ | _ | _ | _ | _ | _ | (_ | _ | _) <;> decide
  · intro f a ha
    rw [hsame _ a ha f.offset f.offset_fits, h.ptr f a ha]
    rcases f with _ | _ | _ | _ | _ | _ | (_ | _ | _) | _ | _ <;> decide

/-! ### The kernel over such a heap -/

/-- The state of the kernel with its memory as a heap. -/
structure View where
  heap : Heap
  rest : Kernel

/-- The kernel without its memory. -/
def Kernel.rest (k : Kernel) : Kernel := { k with mem := fun _ => 0 }

/-- The kernel state `k` is seen as `t`. -/
structure Shows (k : Kernel) (t : View) : Prop where
  models : t.heap.Models k.mem
  rest : k.rest = t.rest

section
variable {k : Kernel} {t : View} (h : Shows k t)
include h

theorem Shows.bootVpn : k.bootVpn = t.rest.bootVpn :=
  show k.rest.bootVpn = _ from congrArg Kernel.bootVpn h.rest

theorem Shows.paging : k.paging = t.rest.paging :=
  show k.rest.paging = _ from congrArg Kernel.paging h.rest

theorem Shows.phys : k.phys = t.rest.phys :=
  show k.rest.phys = _ from congrArg Kernel.phys h.rest

theorem Shows.freeVregions : k.freeVregions = t.rest.freeVregions :=
  show k.rest.freeVregions = _ from congrArg Kernel.freeVregions h.rest

theorem Shows.usedVregions : k.usedVregions = t.rest.usedVregions :=
  show k.rest.usedVregions = _ from congrArg Kernel.usedVregions h.rest

theorem Shows.cachesClist : k.cachesClist = t.rest.cachesClist :=
  show k.rest.cachesClist = _ from congrArg Kernel.cachesClist h.rest

theorem Shows.cacheObjsCache : k.cacheObjsCache = t.rest.cacheObjsCache :=
  show k.rest.cacheObjsCache = _ from congrArg Kernel.cacheObjsCache h.rest

theorem Shows.cacheSlab : k.cacheSlab = t.rest.cacheSlab :=
  show k.rest.cacheSlab = _ from congrArg Kernel.cacheSlab h.rest

theorem Shows.cacheVregion : k.cacheVregion = t.rest.cacheVregion :=
  show k.rest.cacheVregion = _ from congrArg Kernel.cacheVregion h.rest

theorem Shows.vpagesCacheVregion : k.vpagesCacheVregion = t.rest.vpagesCacheVregion :=
  show k.rest.vpagesCacheVregion = _ from congrArg Kernel.vpagesCacheVregion h.rest

end

def View.setWord (t : View) (f : WordField) (a v : Nat) : View :=
  { t with heap := t.heap.setWord f a v }

def View.setPtr (t : View) (f : PointerField) (a : Nat) (v : Option Nat) : View :=
  { t with heap := t.heap.setPtr f a v }

variable {t : View}

theorem reads_word (f : WordField) (ha : t.heap.struct a = some f.struct) :
    Reads Shows (f.of a) t (t.heap.word f a) :=
  fun _ hk => hk.models.word f a ha

theorem reads_ptr (f : PointerField) (ha : t.heap.struct a = some f.struct) :
    Reads Shows (f.of a) t (t.heap.ptr f a) := by
  intro k hk
  change toPtr (load32 k.mem (a + f.offset)) = _
  rw [hk.models.ptr f a ha, toPtr_ofPtr (hk.models.ptr_ne f a ha)]

theorem writes_word (f : WordField) (ha : t.heap.struct a = some f.struct) (hv : v < 2 ^ 32) :
    Writes Shows (f.of a) v t (t.setWord f a v) :=
  fun _ hk => ⟨hk.models.setWord ha hv, hk.rest⟩

/-- A pointer that can be stored. -/
def PtrOk (p : Option Nat) : Prop := ∀ a, p = some a → 0 < a ∧ a < 2 ^ 32

theorem PtrOk.none : PtrOk none := fun _ h => nomatch h

theorem PtrOk.some (h : 0 < a) (h' : a < 2 ^ 32) : PtrOk (some a) := by
  rintro _ ⟨⟩
  exact ⟨h, h'⟩

theorem writes_ptr (f : PointerField) (ha : t.heap.struct a = some f.struct) (hp : PtrOk p) :
    Writes Shows (f.of a) p t (t.setPtr f a p) := by
  intro k hk
  refine ⟨hk.models.setPtr ha ?_ ?_, hk.rest⟩
  · intro h0
    exact absurd (hp 0 h0).1 (Nat.lt_irrefl 0)
  · cases p with
    | none => exact Nat.two_pow_pos 32
    | some b => exact (hp b rfl).2

theorem reads_freeVregions (t : View) :
    Reads Shows freeVregionsVar t t.rest.freeVregions :=
  fun _ hk => hk.freeVregions

theorem reads_usedVregions (t : View) :
    Reads Shows usedVregionsVar t t.rest.usedVregions :=
  fun _ hk => hk.usedVregions

theorem reads_cachesClist (t : View) :
    Reads Shows cachesClistVar t t.rest.cachesClist :=
  fun _ hk => hk.cachesClist

theorem writes_freeVregions (t : View) (v : Option Nat) : Writes Shows freeVregionsVar v t
    { t with rest := { t.rest with freeVregions := v } } :=
  fun _ hk => ⟨hk.models, by rw [← hk.rest]; rfl⟩

theorem writes_usedVregions (t : View) (v : Option Nat) : Writes Shows usedVregionsVar v t
    { t with rest := { t.rest with usedVregions := v } } :=
  fun _ hk => ⟨hk.models, by rw [← hk.rest]; rfl⟩

theorem writes_cachesClist (t : View) (v : Option Nat) : Writes Shows cachesClistVar v t
    { t with rest := { t.rest with cachesClist := v } } :=
  fun _ hk => ⟨hk.models, by rw [← hk.rest]; rfl⟩

end Atros
