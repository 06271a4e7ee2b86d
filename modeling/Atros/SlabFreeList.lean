import Atros.SimpleLists
import Atros.SlabInit

namespace Atros
set_option autoImplicit true

/-! ### The memory of one slab -/

/-- Where a slab lies: its descriptor, that of its region, and the slots of `size` bytes that the
region has room for. -/
structure SlabArea where
  slab : Nat
  region : Nat
  first : Nat
  pages : Nat
  size : Nat
  first_pos : 1 ≤ first
  fits : first * 4096 + pages * 4096 ≤ 2 ^ 32
  size_ge : 4 ≤ size
  size_le : size ≤ pages * 4096
  slab_fits : slab + sizeofSlab ≤ 2 ^ 32
  region_pos : 0 < region
  region_fits : region + sizeofVregion ≤ 2 ^ 32
  apart : slab + sizeofSlab ≤ region ∨ region + sizeofVregion ≤ slab

variable {A : SlabArea} {k k' : Kernel}

def SlabArea.base (A : SlabArea) : Nat := A.first * 4096

def SlabArea.slotCount (A : SlabArea) : Nat := A.pages * 4096 / A.size

def SlabArea.slot (A : SlabArea) (i : Nat) : Nat := A.base + i * A.size

def SlabArea.slots (A : SlabArea) : List Nat := objsFrom A.base A.size A.slotCount

theorem SlabArea.mem_slots : p ∈ A.slots ↔ ∃ i < A.slotCount, p = A.slot i := mem_objsFrom

theorem SlabArea.slot_end (hi : i < A.slotCount) :
    A.slot i + A.size ≤ A.base + A.pages * 4096 := by
  have hmul : (i + 1) * A.size ≤ A.slotCount * A.size := Nat.mul_le_mul_right _ hi
  have hdiv : A.slotCount * A.size ≤ A.pages * 4096 := Nat.div_mul_le_self _ _
  rw [Nat.succ_mul] at hmul
  rw [slot]
  omega

theorem SlabArea.slot_le (hi : i < A.slotCount) : A.slot i + A.size ≤ 2 ^ 32 :=
  Nat.le_trans (A.slot_end hi) A.fits

theorem SlabArea.base_pos : 4096 ≤ A.base := Nat.le_mul_of_pos_left 4096 A.first_pos

theorem SlabArea.slots_nodup : A.slots.Nodup :=
  objsFrom_nodup (Nat.lt_of_lt_of_le (by decide) A.size_ge) ..

/-! ### The links that `initialize_slab` writes -/

def linkObjs (z : Nat) : Nat → Nat → Mem → Mem
  | 0, _, m => m
  | n + 1, a, m => linkObjs z n (a + z) (store32 a (a + z) m)

theorem linkObjs_outside (hx : ∀ j < n, x < a + j * z ∨ a + j * z + 4 ≤ x) (m : Mem) :
    linkObjs z n a m x = m x := by
  induction n generalizing a m with
  | zero => rfl
  | succ n ih =>
    rw [linkObjs, ih]
    · have h₀ := hx 0 (Nat.succ_pos n)
      rw [Nat.zero_mul, Nat.add_zero] at h₀
      exact store32_outside h₀ _ _
    · intro j hj
      have hj := hx (j + 1) (Nat.succ_lt_succ hj)
      rw [Nat.succ_mul] at hj
      omega

theorem load32_linkObjs (hz : 4 ≤ z) (hlt : a + n * z < 2 ^ 32) (hj : j < n) (m : Mem) :
    load32 (linkObjs z n a m) (a + j * z) = a + (j + 1) * z := by
  induction n generalizing a j m with
  | zero => exact absurd hj (Nat.not_lt_zero j)
  | succ n ih =>
    rw [Nat.succ_mul] at hlt
    rw [linkObjs]
    cases j with
    | zero =>
      have hkeep : load32 (linkObjs z n (a + z) (store32 a (a + z) m)) a =
          load32 (store32 a (a + z) m) a :=
        load32_congr fun x _ _ => linkObjs_outside (fun j _ => .inl (by omega)) _
      rw [Nat.zero_mul, Nat.add_zero, hkeep, load32_store32 (by omega), Nat.zero_add, Nat.one_mul]
    | succ j =>
      have hnext := ih (a := a + z) (by omega) (Nat.lt_of_succ_lt_succ hj) (store32 a (a + z) m)
      rw [Nat.succ_mul] at hnext
      rw [Nat.succ_mul, Nat.succ_mul (j + 1), Nat.succ_mul]
      rw [show a + (j * z + z) = a + z + j * z by omega, hnext]
      omega

theorem initializeLoop_ok (hz : 4 ≤ z) (ha : 0 < a) (hlt : a + n * z < 2 ^ 32)
    (hcount : load32 k.mem s = i + n) (hapart : ∀ j < n, s + 4 ≤ a + j * z ∨ a + j * z + 4 ≤ s)
    (hr : n < rounds) : initializeLoop s z rounds i a k =
      .ok (a + n * z, { k with mem := linkObjs z n a k.mem }) := by
  induction n generalizing k rounds i a with
  | zero =>
    obtain ⟨rounds, rfl⟩ := Nat.exists_eq_succ_of_ne_zero (Nat.ne_of_gt hr)
    have hcount' : (slabFreeObjsCountOf s).get k = i := hcount
    rw [initializeLoop, bind_read, hcount', if_neg (Nat.lt_irrefl i), Nat.zero_mul, Nat.add_zero]
    rfl
  | succ n ih =>
    obtain ⟨rounds, rfl⟩ := Nat.exists_eq_succ_of_ne_zero (Nat.ne_of_gt (Nat.zero_lt_of_lt hr))
    rw [Nat.succ_mul] at hlt ⊢
    have hcount' : (slabFreeObjsCountOf s).get k = i + (n + 1) := hcount
    have hptr : toPtr (a + z) = some (a + z) := if_neg (by omega)
    have h₀ := hapart 0 (Nat.succ_pos n)
    rw [Nat.zero_mul, Nat.add_zero] at h₀
    have hstep : (objectNextOf a).set (some (a + z)) k =
        { k with mem := store32 a (a + z) k.mem } := rfl
    rw [initializeLoop, bind_read, hcount', if_pos (by omega), add32_of_lt (by omega), hptr,
      bind_write]
    rw [hstep, ih (by omega) (by omega) ?_ ?_ (by omega)]
    · rw [linkObjs, Nat.add_assoc, Nat.add_comm z]
    · rw [load32_store32_of_apart (by omega), hcount]
      omega
    · intro j hj
      have hj := hapart (j + 1) (Nat.succ_lt_succ hj)
      rw [Nat.succ_mul] at hj
      omega

/-! ### The free list -/

/-- The bytes of the two descriptors. -/
def SlabArea.InDescr (A : SlabArea) (x : Nat) : Prop :=
  A.slab ≤ x ∧ x < A.slab + sizeofSlab ∨ A.region ≤ x ∧ x < A.region + sizeofVregion

/-- No byte of the slot at `p` belongs to a descriptor. -/
def SlabArea.Clear (A : SlabArea) (p : Nat) : Prop :=
  ∀ x, p ≤ x → x < p + A.size → ¬A.InDescr x

theorem SlabArea.Clear.slab_apart (h : A.Clear p) :
    p + 4 ≤ A.slab ∨ A.slab + sizeofSlab ≤ p := by
  by_contra hnot
  have hsize := A.size_ge
  rw [sizeofSlab] at hnot
  refine h (max p A.slab) (Nat.le_max_left ..) (by omega) (.inl ⟨Nat.le_max_right .., ?_⟩)
  rw [sizeofSlab]
  omega

theorem SlabArea.Clear.region_apart (h : A.Clear p) :
    p + 4 ≤ A.region ∨ A.region + sizeofVregion ≤ p := by
  by_contra hnot
  have hsize := A.size_ge
  rw [sizeofVregion] at hnot
  refine h (max p A.region) (Nat.le_max_left ..) (by omega) (.inr ⟨Nat.le_max_right .., ?_⟩)
  rw [sizeofVregion]
  omega

/-- Each slot is either an object in use or a node of the free list. -/
structure SlabArea.Holds (A : SlabArea) (k : Kernel) (used free : List Nat) : Prop where
  count : (slabFreeObjsCountOf A.slab).get k = free.length
  chain : NullTerminated (freeObjsListOf A.slab) objectNextOf k free
  slots : (used ++ free).Perm A.slots
  clear : ∀ p ∈ free, A.Clear p
  region : (slabVregionOf A.slab).get k = some A.region
  first : (firstVpnOf A.region).get k = A.first
  pages : (nbrPagesOf A.region).get k = A.pages

/-- The functions of slab.c write to the descriptor of the slab and to the links in the slots. -/
def SlabArea.Written (A : SlabArea) (x : Nat) : Prop :=
  A.slab ≤ x ∧ x < A.slab + sizeofSlab ∨ ∃ p ∈ A.slots, p ≤ x ∧ x < p + 4

def SlabArea.OnlyWrites (A : SlabArea) (k k' : Kernel) : Prop :=
  ∃ m, k' = { k with mem := m } ∧ ∀ x, ¬A.Written x → m x = k.mem x

/-- What the memory must keep for the two descriptors to be read as before. -/
def SlabArea.SameDescr (A : SlabArea) (m m' : Mem) : Prop :=
  (∀ x, A.slab + 4 ≤ x → x < A.slab + 8 → m' x = m x) ∧
    ∀ x, A.region ≤ x → x < A.region + 8 → m' x = m x

theorem SlabArea.Holds.change (h : A.Holds k used free) (hsame : A.SameDescr k.mem m)
    (hcount : load32 m A.slab = free'.length)
    (hchain : Chain (fun a => toPtr (load32 m a)) (toPtr (load32 m (A.slab + 8))) free')
    (hslots : (used' ++ free').Perm A.slots) (hclear : ∀ p ∈ free', A.Clear p) :
    A.Holds { k with mem := m } used' free' where
  count := hcount
  chain := hchain
  slots := hslots
  clear := hclear
  region := by
    rw [← h.region]
    exact congrArg toPtr (load32_congr fun x h₁ h₂ => hsame.1 x h₁ h₂)
  first := by
    rw [← h.first]
    exact load32_congr fun x h₁ h₂ =>
      hsame.2 x h₁ (Nat.lt_of_lt_of_le h₂ (Nat.add_le_add_left (by decide) _))
  pages := by
    rw [← h.pages]
    exact load32_congr fun x h₁ h₂ => hsame.2 x (Nat.le_trans (Nat.le_add_right ..) h₁) h₂

theorem SlabArea.Holds.slot_of_free (h : A.Holds k used free) (hp : p ∈ free) : p ∈ A.slots :=
  h.slots.mem_iff.mp (List.mem_append_right _ hp)

theorem SlabArea.Holds.slot_of_used (h : A.Holds k used free) (hp : p ∈ used) : p ∈ A.slots :=
  h.slots.mem_iff.mp (List.mem_append_left _ hp)

theorem SlabArea.Holds.nodup (h : A.Holds k used free) : (used ++ free).Nodup :=
  h.slots.nodup_iff.mpr A.slots_nodup

theorem SlabArea.slot_pos (hp : p ∈ A.slots) : 0 < p := by
  obtain ⟨i, -, rfl⟩ := mem_slots.mp hp
  have hbase := A.base_pos
  rw [slot]
  omega

theorem SlabArea.slot_lt (hp : p ∈ A.slots) : p + 4 ≤ 2 ^ 32 := by
  obtain ⟨i, hi, rfl⟩ := mem_slots.mp hp
  exact Nat.le_trans (Nat.add_le_add_left A.size_ge _) (slot_le hi)

theorem SlabArea.links_apart (hp : p ∈ A.slots) (hq : q ∈ A.slots) (hne : p ≠ q) :
    p + 4 ≤ q ∨ q + 4 ≤ p := by
  have hsize := A.size_ge
  have hapart : p + A.size ≤ q ∨ q + A.size ≤ p := objsFrom_apart hp hq hne
  omega

theorem SlabArea.relinked {m m' : Mem} {list : Option Nat}
    (h : Chain (fun a => toPtr (load32 m a)) list ps)
    (hsame : ∀ q ∈ ps, ∀ x, q ≤ x → x < q + 4 → m' x = m x) :
    Chain (fun a => toPtr (load32 m' a)) list ps :=
  h.congr fun q hq => congrArg toPtr (load32_congr (hsame q hq))

theorem SlabArea.Holds.head_ne_zero (h : A.Holds k used (p :: ps)) : ps.head? ≠ some 0 := by
  intro hzero
  have hmem := h.slot_of_free (List.mem_cons_of_mem p (List.mem_of_mem_head? hzero))
  exact Nat.lt_irrefl 0 (slot_pos hmem)

/-! ### `alloc_obj_from_slab` -/

theorem SlabArea.Holds.popHead (h : A.Holds k used (p :: ps)) :
    ∃ m, listPopHead (freeObjsListOf A.slab) objectNextOf k = .ok (some p, { k with mem := m }) ∧
      load32 m (A.slab + 8) = ofPtr ps.head? ∧
      ∀ x, (x < A.slab + 8 ∨ A.slab + 12 ≤ x) → (x < p ∨ p + 4 ≤ x) → m x = k.mem x := by
  have hlist : (freeObjsListOf A.slab).get k = some p := h.chain.1
  have hnext : (objectNextOf p).get k = ps.head? := h.chain.2.head
  have hp := h.clear p List.mem_cons_self
  have hapart := hp.slab_apart
  rw [sizeofSlab] at hapart
  cases ps with
  | nil =>
    refine ⟨store32 (A.slab + 8) 0 k.mem, listPopHead_last hlist hnext, ?_, fun x h₁ _ => ?_⟩
    · exact load32_store32 (by decide) _ _
    · exact store32_outside h₁ _ _
  | cons q qs =>
    have hq : q < 2 ^ 32 := by
      have hle := slot_lt (h.slot_of_free (List.mem_cons_of_mem p List.mem_cons_self))
      omega
    refine ⟨store32 p 0 (store32 (A.slab + 8) q k.mem), listPopHead_more hlist hnext, ?_, ?_⟩
    · rw [load32_store32_of_apart (by omega)]
      exact load32_store32 hq _ _
    · intro x h₁ h₂
      rw [store32_outside h₂, store32_outside h₁]

theorem SlabArea.Holds.alloc (h : A.Holds k used (p :: ps)) :
    ∃ k', allocObjFromSlab A.slab k = .ok (some p, k') ∧ A.Holds k' (p :: used) ps ∧
      A.OnlyWrites k k' := by
  obtain ⟨m, hpop, hhead, hsame⟩ := h.popHead
  have hp := h.clear p List.mem_cons_self
  have hslab := hp.slab_apart
  have hregion := hp.region_apart
  have hdescr := A.apart
  rw [sizeofSlab] at hslab hdescr
  rw [sizeofVregion] at hregion hdescr
  have hcount : load32 k.mem A.slab = ps.length + 1 := h.count
  have hcount' : load32 m A.slab = ps.length + 1 := by
    rw [← hcount]
    exact load32_congr fun x _ _ => hsame x (by omega) (by omega)
  have hlt := load32_lt m A.slab
  rw [hcount'] at hlt
  have hout : ∀ x, (x < A.slab ∨ A.slab + 4 ≤ x) → (x < A.slab + 8 ∨ A.slab + 12 ≤ x) →
      (x < p ∨ p + 4 ≤ x) → store32 A.slab ps.length m x = k.mem x := by
    intro x h₁ h₂ h₃
    rw [store32_outside h₁, hsame x h₂ h₃]
  refine ⟨{ k with mem := store32 A.slab ps.length m }, ?_, h.change ?_ ?_ ?_ ?_ ?_, _, rfl, ?_⟩
  · have hget : (slabFreeObjsCountOf A.slab).get k = ps.length + 1 := hcount
    have hget' : (slabFreeObjsCountOf A.slab).get { k with mem := m } = ps.length + 1 := hcount'
    have hsome : (some p : Option Nat) ≠ none := Option.some_ne_none p
    rw [allocObjFromSlab, bind_read, hget, if_pos (Nat.succ_pos _), bind_ok hpop,
      bind_ok (check_ok hsome), bind_read, hget', sub32_of_le (Nat.le_add_left ..) hlt,
      Nat.add_sub_cancel]
    rfl
  · exact ⟨fun x _ _ => hout x (by omega) (by omega) (by omega),
      fun x _ _ => hout x (by omega) (by omega) (by omega)⟩
  · exact load32_store32 (by omega) _ _
  · have hlist : toPtr (load32 (store32 A.slab ps.length m) (A.slab + 8)) = ps.head? := by
      rw [load32_store32_of_apart (by omega), hhead, toPtr_ofPtr h.head_ne_zero]
    have htail := h.chain.2
    rw [htail.head] at htail
    rw [hlist]
    refine relinked htail fun q hq x h₁ h₂ => ?_
    have hq' := List.mem_cons_of_mem p hq
    have hqslab := (h.clear q hq').slab_apart
    have hpq := links_apart (h.slot_of_free List.mem_cons_self) (h.slot_of_free hq')
      fun heq => (List.nodup_cons.mp h.nodup.of_append_right).1 (heq ▸ hq)
    rw [sizeofSlab] at hqslab
    exact hout x (by omega) (by omega) (by omega)
  · refine (List.perm_middle.symm).trans h.slots
  · exact fun q hq => h.clear q (List.mem_cons_of_mem p hq)
  · intro x hx
    rw [Written, not_or, sizeofSlab] at hx
    have hxp : x < p ∨ p + 4 ≤ x := by
      by_contra hin
      exact hx.2 ⟨p, h.slot_of_free List.mem_cons_self, by omega, by omega⟩
    exact hout x (by omega) (by omega) hxp

theorem SlabArea.Holds.alloc_none (h : A.Holds k used []) :
    allocObjFromSlab A.slab k = .ok (none, k) := by
  have hget : (slabFreeObjsCountOf A.slab).get k = 0 := h.count
  rw [allocObjFromSlab, bind_read, hget, if_neg (Nat.lt_irrefl 0)]
  rfl

/-! ### `free_obj_from_slab` -/

theorem vregionFirstVpn_ok (r : Nat) (k : Kernel) :
    vregionFirstVpn r k = .ok ((firstVpnOf r).get k, k) := rfl

theorem vregionLastVpn_ok (r : Nat) (k : Kernel) : vregionLastVpn r k =
    .ok (sub32 (add32 ((firstVpnOf r).get k) ((nbrPagesOf r).get k)) 1, k) := rfl

theorem isVaddrInSlab_ok (hr : (slabVregionOf s).get k = some r) (vaddr : Nat) :
    isVaddrInSlab s vaddr k = .ok (decide ((firstVpnOf r).get k ≤ vaddrToVpn vaddr ∧
      vaddrToVpn vaddr ≤ sub32 (add32 ((firstVpnOf r).get k) ((nbrPagesOf r).get k)) 1), k) := by
  rw [isVaddrInSlab, bind_read, hr, bind_ok deref_some, bind_ok (vregionFirstVpn_ok ..),
    bind_ok (vregionLastVpn_ok ..)]
  rfl

theorem SlabArea.Holds.isVaddrInSlab (h : A.Holds k used free) (hp : p ∈ A.slots) :
    isVaddrInSlab A.slab p k = .ok (true, k) := by
  obtain ⟨i, hi, rfl⟩ := mem_slots.mp hp
  have hend := slot_end hi
  have hfits := A.fits
  have hfirst := A.first_pos
  have hsize := A.size_ge
  have hle := A.size_le
  have hbase : A.base ≤ A.slot i := Nat.le_add_right ..
  rw [base] at hend hbase
  have hlast : sub32 (add32 A.first A.pages) 1 = A.first + A.pages - 1 := by
    rw [add32_of_lt (by omega), sub32_of_le (by omega) (by omega)]
  have hin : A.first ≤ vaddrToVpn (A.slot i) ∧
      vaddrToVpn (A.slot i) ≤ sub32 (add32 A.first A.pages) 1 := by
    rw [hlast, vaddrToVpn, Nat.shiftRight_eq_div_pow]
    omega
  have hresult : decide (A.first ≤ vaddrToVpn (A.slot i) ∧
      vaddrToVpn (A.slot i) ≤ sub32 (add32 A.first A.pages) 1) = true := decide_eq_true hin
  rw [isVaddrInSlab_ok h.region, h.first, h.pages, hresult]

theorem SlabArea.Holds.freed (h : A.Holds k used free) (hp : p ∈ used) (hclear : A.Clear p) :
    ∃ k', freeObjFromSlab A.slab p k = .ok (true, k') ∧ A.Holds k' (used.erase p) (p :: free) ∧
      A.OnlyWrites k k' := by
  have hslot := h.slot_of_used hp
  have hpos := slot_pos hslot
  have hlt := slot_lt hslot
  have hslab := hclear.slab_apart
  have hregion := hclear.region_apart
  have hdescr := A.apart
  rw [sizeofSlab] at hslab hdescr
  rw [sizeofVregion] at hregion hdescr
  have hcount : load32 k.mem A.slab = free.length := h.count
  have hperm : (used.erase p ++ p :: free).Perm A.slots := by
    refine List.Perm.trans ?_ h.slots
    exact List.perm_middle.trans ((List.perm_cons_erase hp).symm.append_right free)
  have hlength : free.length + 1 < 2 ^ 32 := by
    have hslots := hperm.length_eq
    rw [List.length_append, List.length_cons, SlabArea.slots, objsFrom_length] at hslots
    have hdiv : A.slotCount ≤ A.pages * 4096 := Nat.div_le_self _ _
    have hfits := A.fits
    have hfirst := A.first_pos
    omega
  generalize hv : load32 k.mem (A.slab + 8) = v
  have hhead : toPtr v = free.head? := by
    rw [← hv]
    exact h.chain.head
  have hvlt : v < 2 ^ 32 := by
    rw [← hv]
    exact load32_lt ..
  generalize hm : store32 (A.slab + 8) p (store32 p (ofPtr (toPtr v))
    (store32 A.slab (free.length + 1) k.mem)) = m
  have hv' : ofPtr (toPtr v) = v := by
    rw [toPtr]
    split_ifs with hzero
    · exact hzero.symm
    · rfl
  have hout : ∀ x, (x < A.slab ∨ A.slab + 4 ≤ x) → (x < A.slab + 8 ∨ A.slab + 12 ≤ x) →
      (x < p ∨ p + 4 ≤ x) → m x = k.mem x := by
    intro x h₁ h₂ h₃
    rw [← hm, store32_outside h₂, store32_outside h₃, store32_outside h₁]
  refine ⟨{ k with mem := m }, ?_, h.change ?_ ?_ ⟨?_, ?_⟩ hperm ?_, _, rfl, ?_⟩
  · have hget : (slabFreeObjsCountOf A.slab).get k = free.length := hcount
    have hlist : ∀ k₁ : Kernel, k₁.mem = store32 A.slab (free.length + 1) k.mem →
        (freeObjsListOf A.slab).get k₁ = toPtr v := by
      intro k₁ hk₁
      refine congrArg toPtr ?_
      rw [hk₁, ← hv]
      exact load32_store32_of_apart (.inl (Nat.add_le_add_left (by decide) _)) _ _
    rw [freeObjFromSlab, bind_ok (check_ok (Nat.ne_of_gt hpos)), bind_ok (h.isVaddrInSlab hslot)]
    change (Place.read _ >>= _) k = _
    rw [bind_read, hget, add32_of_lt hlength, bind_write, bind_ok (listPushHead_ok ..), hlist _ rfl]
    rw [← hm]
    rfl
  · exact ⟨fun x _ _ => hout x (by omega) (by omega) (by omega),
      fun x _ _ => hout x (by omega) (by omega) (by omega)⟩
  · rw [← hm, load32_store32_of_apart (by omega), load32_store32_of_apart (by omega),
      load32_store32 hlength, List.length_cons]
  · rw [← hm, load32_store32 (by omega)]
    exact if_neg (Nat.ne_of_gt hpos)
  · have hlink : toPtr (load32 m p) = free.head? := by
      rw [← hm, load32_store32_of_apart (by omega), hv', load32_store32 hvlt, hhead]
    have hchain : Chain (fun a => toPtr (load32 k.mem a)) free.head? free := by
      have hchain := h.chain
      rw [NullTerminated, hchain.head] at hchain
      exact hchain
    beta_reduce
    rw [hlink]
    refine relinked hchain fun q hq x h₁ h₂ => ?_
    have hqslab := (h.clear q hq).slab_apart
    have hpq := links_apart hslot (h.slot_of_free hq)
      fun heq => (List.nodup_append.mp h.nodup).2.2 p hp q hq heq
    rw [sizeofSlab] at hqslab
    exact hout x (by omega) (by omega) (by omega)
  · intro q hq
    rcases List.mem_cons.mp hq with rfl | hq
    · exact hclear
    · exact h.clear q hq
  · intro x hx
    rw [Written, not_or, sizeofSlab] at hx
    have hxp : x < p ∨ p + 4 ≤ x := by
      by_contra hin
      exact hx.2 ⟨p, hslot, by omega, by omega⟩
    exact hout x (by omega) (by omega) hxp

/-! ### The owners of the objects -/

theorem SlabArea.Holds.write (h : A.Holds k used free) (hp : p ∈ used) (hle : p ≤ a)
    (hlt : a < p + A.size) (ha : ¬A.InDescr a) (v : UInt8) :
    A.Holds { k with mem := Function.update k.mem a v } used free := by
  rw [InDescr, not_or, sizeofSlab, sizeofVregion] at ha
  have hout : ∀ x, x ≠ a → Function.update k.mem a v x = k.mem x :=
    fun x hx => Function.update_of_ne hx ..
  refine h.change ⟨fun x _ _ => hout x (by omega), fun x _ _ => hout x (by omega)⟩ ?_ ?_ h.slots
    h.clear
  · rw [← h.count]
    exact load32_congr fun x _ _ => hout x (by omega)
  · have hlist : load32 (Function.update k.mem a v) (A.slab + 8) = load32 k.mem (A.slab + 8) :=
      load32_congr fun x _ _ => hout x (by omega)
    rw [hlist]
    refine relinked h.chain fun q hq x h₁ h₂ => hout x ?_
    have hapart : p + A.size ≤ q ∨ q + A.size ≤ p :=
      objsFrom_apart (h.slot_of_used hp) (h.slot_of_free hq)
        fun heq => (List.nodup_append.mp h.nodup).2.2 p hp q hq heq
    have hsize := A.size_ge
    omega

end Atros
