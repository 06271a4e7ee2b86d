import Atros.PhysicalBoot
import Atros.SlabFreeList

namespace Atros
set_option autoImplicit true

variable {A : SlabArea} {k k' : Kernel}

/-! ### `initialize_slab` -/

theorem vregionSize_ok (r : Nat) (k : Kernel) :
    vregionSize r k = .ok (mul32 ((nbrPagesOf r).get k) vpageSize, k) := rfl

theorem endLink_eq (p : Nat) (m : Mem) (k : Kernel) :
    (objectNextOf p).set none { k with mem := m } = { k with mem := store32 p 0 m } := rfl

/-- The descriptor of a slab with `n` free objects that are not linked yet. -/
def SlabArea.blankDescr (A : SlabArea) (n : Nat) (m : Mem) : Mem :=
  store32 (A.slab + 16) 0 (store32 (A.slab + 12) 0 (store32 (A.slab + 8) 0
    (store32 (A.slab + 4) A.region (store32 A.slab n m))))

/-- The first of them is at `a`. -/
def SlabArea.newDescr (A : SlabArea) (n a : Nat) (m : Mem) : Mem :=
  store32 (A.slab + 8) a (A.blankDescr n m)

theorem SlabArea.blankDescr_outside (hx : x < A.slab ∨ A.slab + 20 ≤ x) (n : Nat) (m : Mem) :
    A.blankDescr n m x = m x := by
  rw [blankDescr, store32_outside (by omega), store32_outside (by omega),
    store32_outside (by omega), store32_outside (by omega), store32_outside (by omega)]

theorem SlabArea.newDescr_outside (hx : x < A.slab ∨ A.slab + 20 ≤ x) (n a : Nat) (m : Mem) :
    A.newDescr n a m x = m x := by
  rw [newDescr, store32_outside (by omega), blankDescr_outside hx]

theorem SlabArea.newDescr_count (hn : n < 2 ^ 32) (a : Nat) (m : Mem) :
    load32 (A.newDescr n a m) A.slab = n := by
  rw [newDescr, blankDescr, load32_store32_of_apart (by omega), load32_store32_of_apart (by omega),
    load32_store32_of_apart (by omega), load32_store32_of_apart (by omega),
    load32_store32_of_apart (by omega), load32_store32 hn]

theorem SlabArea.newDescr_region (n a : Nat) (m : Mem) :
    load32 (A.newDescr n a m) (A.slab + 4) = A.region := by
  have hfits := A.region_fits
  rw [sizeofVregion] at hfits
  rw [newDescr, blankDescr, load32_store32_of_apart (by omega), load32_store32_of_apart (by omega),
    load32_store32_of_apart (by omega), load32_store32_of_apart (by omega),
    load32_store32 (by omega)]

theorem SlabArea.newDescr_list (ha : a < 2 ^ 32) (n : Nat) (m : Mem) :
    load32 (A.newDescr n a m) (A.slab + 8) = a := load32_store32 ha _ _

/-- The memory that `initialize_slab` leaves. -/
def SlabArea.newMem (A : SlabArea) (n a : Nat) (m : Mem) : Mem :=
  store32 (a + n * A.size) 0 (linkObjs A.size n a (A.newDescr (n + 1) a m))

theorem SlabArea.newMem_outside (hx : ∀ j ≤ n, x < a + j * A.size ∨ a + j * A.size + 4 ≤ x)
    (m : Mem) : A.newMem n a m x = A.newDescr (n + 1) a m x := by
  rw [newMem, store32_outside (hx n (Nat.le_refl n)),
    linkObjs_outside fun j hj => hx j (Nat.le_of_lt hj)]

theorem SlabArea.newMem_chain (ha : 0 < a) (hlt : a + n * A.size < 2 ^ 32) (m : Mem) :
    Chain (fun b => toPtr (load32 (A.newMem n a m) b)) (some a) (objsFrom a A.size (n + 1)) := by
  refine chain_objsFrom (fun j hj => ?_) ?_
  · have hmul : (j + 1) * A.size ≤ n * A.size := Nat.mul_le_mul_right _ hj
    have hsize := A.size_ge
    rw [newMem, load32_store32_of_apart (by rw [Nat.succ_mul] at hmul; omega),
      load32_linkObjs A.size_ge hlt hj]
    exact if_neg (by omega)
  · rw [newMem, load32_store32 (by decide)]
    rfl

theorem SlabArea.region_kept (A : SlabArea) {m : Mem}
    (hsame : ∀ x, A.region ≤ x → x < A.region + 12 → m x = k.mem x) :
    (firstVpnOf A.region).get { k with mem := m } = (firstVpnOf A.region).get k ∧
      (nbrPagesOf A.region).get { k with mem := m } = (nbrPagesOf A.region).get k := by
  constructor
  · exact load32_congr fun x h₁ h₂ =>
      hsame x h₁ (Nat.lt_of_lt_of_le h₂ (Nat.add_le_add_left (by decide) _))
  · exact load32_congr fun x h₁ h₂ => hsame x (Nat.le_trans (Nat.le_add_right ..) h₁)
      (Nat.lt_of_lt_of_le h₂ (Nat.add_le_add_left (by decide : 4 + 4 ≤ 12) A.region))

/-- The slots from the `u`-th on, `n + 1` of them, are clear of the descriptors. -/
structure SlabArea.ClearFrom (A : SlabArea) (u n : Nat) : Prop where
  count : A.slotCount = u + (n + 1)
  clear : ∀ i, u ≤ i → i < A.slotCount → A.Clear (A.slot i)

theorem SlabArea.slot_add (A : SlabArea) (u j : Nat) : A.slot (u + j) = A.slot u + j * A.size := by
  rw [slot, slot, Nat.add_mul, Nat.add_assoc]

theorem SlabArea.slot_ge (A : SlabArea) (u : Nat) : 4096 ≤ A.slot u :=
  A.base_pos.trans (Nat.le_add_right ..)

theorem SlabArea.slot_ptr (A : SlabArea) (u : Nat) : toPtr (A.slot u) = some (A.slot u) := by
  have hge := A.slot_ge u
  exact if_neg (by omega)

theorem SlabArea.bytes_eq (A : SlabArea) : mul32 A.pages vpageSize = A.pages * 4096 := by
  have hfits := A.fits
  have hfirst := A.first_pos
  refine mul32_of_lt ?_
  rw [show vpageSize = 4096 from rfl]
  omega

theorem SlabArea.vaddr_eq (A : SlabArea) : vpnToVaddr A.first = A.base := by
  have hfits := A.fits
  have hsize := A.size_ge
  have hle := A.size_le
  rw [vpnToVaddr, base, Nat.shiftLeft_eq, Nat.mod_eq_of_lt (by omega)]

namespace SlabArea.ClearFrom

section
variable {u n : Nat} (h : A.ClearFrom u n)
include h

theorem slot_end_le : A.slot u + n * A.size + A.size ≤ 2 ^ 32 := by
  rw [← A.slot_add]
  refine slot_le ?_
  rw [h.count]
  omega

theorem count_lt : n + 1 < 2 ^ 32 := by
  have hcount := h.count
  have hdiv : A.slotCount ≤ A.pages * 4096 := Nat.div_le_self _ _
  have hfits := A.fits
  have hfirst := A.first_pos
  omega

theorem slab_apart (hj : j ≤ n) :
    A.slot u + j * A.size + 4 ≤ A.slab ∨ A.slab + 20 ≤ A.slot u + j * A.size := by
  have hcount := h.count
  rw [← A.slot_add]
  exact (h.clear (u + j) (by omega) (by omega)).slab_apart

theorem region_apart (hj : j ≤ n) :
    A.slot u + j * A.size + 4 ≤ A.region ∨ A.region + 12 ≤ A.slot u + j * A.size := by
  have hcount := h.count
  rw [← A.slot_add]
  exact (h.clear (u + j) (by omega) (by omega)).region_apart

theorem newMem_slab (m : Mem) (hx : A.slab ≤ x) (hx' : x < A.slab + 20) :
    A.newMem n (A.slot u) m x = A.newDescr (n + 1) (A.slot u) m x := by
  refine newMem_outside (fun j hj => ?_) _
  have hapart := h.slab_apart hj
  omega

theorem newMem_region (m : Mem) (hx : A.region ≤ x) (hx' : x < A.region + 12) :
    A.newMem n (A.slot u) m x = m x := by
  have hdescr := A.apart
  rw [sizeofVregion, sizeofSlab] at hdescr
  rw [newMem_outside, newDescr_outside (by omega)]
  intro j hj
  have hapart := h.region_apart hj
  omega

theorem newMem_count (m : Mem) : load32 (A.newMem n (A.slot u) m) A.slab = n + 1 := by
  rw [load32_congr fun x h₁ h₂ => h.newMem_slab m h₁ (by omega), newDescr_count h.count_lt]

theorem newMem_list (m : Mem) : load32 (A.newMem n (A.slot u) m) (A.slab + 8) = A.slot u := by
  have hend := h.slot_end_le
  have hsize := A.size_ge
  rw [load32_congr fun x h₁ h₂ => h.newMem_slab m (by omega) (by omega), newDescr_list (by omega)]

theorem newMem_slabRegion (m : Mem) :
    load32 (A.newMem n (A.slot u) m) (A.slab + 4) = A.region := by
  rw [load32_congr fun x h₁ h₂ => h.newMem_slab m (by omega) (by omega), newDescr_region]

theorem nullTerminated (k : Kernel) : NullTerminated (freeObjsListOf A.slab) objectNextOf
    { k with mem := A.newMem n (A.slot u) k.mem } (objsFrom (A.slot u) A.size (n + 1)) := by
  have hend := h.slot_end_le
  have hge := A.slot_ge u
  have hsize := A.size_ge
  have hget : (freeObjsListOf A.slab).get { k with mem := A.newMem n (A.slot u) k.mem } =
      some (A.slot u) := (congrArg toPtr (h.newMem_list k.mem)).trans (A.slot_ptr u)
  rw [NullTerminated, hget]
  exact newMem_chain (by omega) (by omega) _

theorem firstObj : add32 A.base (mul32 u A.size) = A.slot u := by
  have hend := h.slot_end_le
  have hsize := A.size_ge
  have husize : u * A.size ≤ A.slot u := Nat.le_add_left ..
  rw [mul32_of_lt (by omega), add32_of_lt (by rw [← slot]; omega), slot]

theorem freeCount : sub32 (A.pages * 4096 / A.size) u = n + 1 := by
  change sub32 A.slotCount u = n + 1
  have hdiv : A.slotCount ≤ A.pages * 4096 := Nat.div_le_self _ _
  have hcount := h.count
  have hfits := A.fits
  have hfirst := A.first_pos
  rw [sub32_of_le (by omega) (by omega)]
  omega

theorem loop (k : Kernel) : initializeLoop A.slab A.size listRounds 1 (A.slot u)
    { k with mem := A.newDescr (n + 1) (A.slot u) k.mem } = .ok (A.slot u + n * A.size,
      { k with mem := linkObjs A.size n (A.slot u) (A.newDescr (n + 1) (A.slot u) k.mem) }) := by
  have hend := h.slot_end_le
  have hge := A.slot_ge u
  have hsize := A.size_ge
  have hcount := h.count_lt
  refine initializeLoop_ok hsize (by omega) (by omega) ?_ (fun j hj => ?_) ?_
  · rw [newDescr_count hcount, Nat.add_comm]
  · have hapart := h.slab_apart (Nat.le_of_lt hj)
    omega
  · rw [listRounds]
    omega

theorem length (k : Kernel) : listLength (freeObjsListOf A.slab) objectNextOf listRounds
    { k with mem := A.newMem n (A.slot u) k.mem } =
      .ok (n + 1, { k with mem := A.newMem n (A.slot u) k.mem }) := by
  have hrounds : (objsFrom (A.slot u) A.size (n + 1)).length < listRounds := by
    rw [objsFrom_length]
    exact h.count_lt
  have hlength := listLength_ok (h.nullTerminated k) hrounds
  rwa [objsFrom_length] at hlength

theorem initializeSlab (hfirst : (firstVpnOf A.region).get k = A.first)
    (hpages : (nbrPagesOf A.region).get k = A.pages) :
    Atros.initializeSlab A.slab A.region A.size u k =
      .ok (some A.slab, { k with mem := A.newMem n (A.slot u) k.mem }) := by
  have hbase := A.base_pos
  have hdescr := A.apart
  rw [sizeofVregion, sizeofSlab] at hdescr
  rw [Atros.initializeSlab, bind_ok (vregionFirstVpn_ok ..), hfirst, A.vaddr_eq,
    bind_ok (check_ok (by omega)), bind_ok (vregionSize_ok ..), hpages, A.bytes_eq, h.freeCount]
  rw [bind_write, bind_write, bind_write, bind_write, bind_write]
  have hblank : (slabNextOf A.slab).set none ((slabPrevOf A.slab).set none
      ((freeObjsListOf A.slab).set none ((slabVregionOf A.slab).set (some A.region)
      ((slabFreeObjsCountOf A.slab).set (n + 1) k)))) =
        { k with mem := A.blankDescr (n + 1) k.mem } := rfl
  have hblankKept : ∀ x, A.region ≤ x → x < A.region + 12 →
      A.blankDescr (n + 1) k.mem x = k.mem x :=
    fun x _ _ => blankDescr_outside (by omega) ..
  obtain ⟨hfirst', hpages'⟩ := A.region_kept hblankKept
  have hnew : (freeObjsListOf A.slab).set (some (A.slot u))
      { k with mem := A.blankDescr (n + 1) k.mem } =
        { k with mem := A.newDescr (n + 1) (A.slot u) k.mem } := rfl
  have hlast : (objectNextOf (A.slot u + n * A.size)).set none { k with
      mem := linkObjs A.size n (A.slot u) (A.newDescr (n + 1) (A.slot u) k.mem) } =
        { k with mem := A.newMem n (A.slot u) k.mem } := endLink_eq ..
  have hget : (slabFreeObjsCountOf A.slab).get { k with mem := A.newMem n (A.slot u) k.mem } =
      n + 1 := h.newMem_count k.mem
  rw [hblank, bind_ok (vregionSize_ok ..), hpages', hpages, A.bytes_eq, if_pos A.size_le,
    bind_ok (vregionFirstVpn_ok ..), hfirst', hfirst, A.vaddr_eq, h.firstObj, A.slot_ptr u,
    bind_write, hnew, bind_ok (h.loop k), bind_write, hlast, bind_ok (h.length k), bind_read, hget,
    bind_ok (check_ok rfl)]
  rfl

end

end SlabArea.ClearFrom

/-- With the first `u` slots in use, `initialize_slab` links the other ones. -/
theorem SlabArea.initialized (A : SlabArea) (hfirst : (firstVpnOf A.region).get k = A.first)
    (hpages : (nbrPagesOf A.region).get k = A.pages) (hu : u < A.slotCount)
    (hclear : ∀ i, u ≤ i → i < A.slotCount → A.Clear (A.slot i)) :
    ∃ k', initializeSlab A.slab A.region A.size u k = .ok (some A.slab, k') ∧
      A.Holds k' (objsFrom A.base A.size u) (objsFrom (A.slot u) A.size (A.slotCount - u)) ∧
      A.OnlyWrites k k' := by
  obtain ⟨n, hn⟩ : ∃ n, A.slotCount = u + (n + 1) :=
    ⟨A.slotCount - u - 1, by omega⟩
  have h : A.ClearFrom u n := ⟨hn, hclear⟩
  have hn' : A.slotCount - u = n + 1 := by omega
  obtain ⟨hfirst', hpages'⟩ := A.region_kept fun x => h.newMem_region k.mem
  rw [hn']
  refine ⟨_, h.initializeSlab hfirst hpages,
    ⟨?_, h.nullTerminated k, ?_, ?_, ?_, hfirst'.trans hfirst, hpages'.trans hpages⟩,
    _, rfl, fun x hx => ?_⟩
  · rw [objsFrom_length]
    exact h.newMem_count k.mem
  · refine List.Perm.of_eq ?_
    have hadd := objsFrom_add A.base A.size u (n + 1)
    rw [slots, hn, hadd]
    rfl
  · intro p hp
    obtain ⟨j, hj, rfl⟩ := mem_objsFrom.mp hp
    rw [← A.slot_add]
    exact hclear (u + j) (by omega) (by omega)
  · exact (congrArg toPtr (h.newMem_slabRegion k.mem)).trans (if_neg (Nat.ne_of_gt A.region_pos))
  · rw [Written, not_or, sizeofSlab] at hx
    rw [newMem_outside, newDescr_outside (by omega)]
    intro j hj
    by_contra hin
    exact hx.2 ⟨_, mem_slots.mpr ⟨u + j, by omega, (A.slot_add u j).symm⟩, by omega, by omega⟩

/-! ### Any use of a slab -/

/-- The states that allocations and frees and the writes of the owners lead to, with the objects in
use. An object that holds one of the two descriptors is not its owner's to write or to free. -/
inductive SlabUse (A : SlabArea) (k : Kernel) (used : List Nat) : Kernel → List Nat → Prop
  | start : SlabUse A k used k used
  | alloc : SlabUse A k used k₁ us → allocObjFromSlab A.slab k₁ = .ok (some p, k₂) →
      SlabUse A k used k₂ (p :: us)
  | full : SlabUse A k used k₁ us → allocObjFromSlab A.slab k₁ = .ok (none, k₂) →
      SlabUse A k used k₂ us
  | freed : SlabUse A k used k₁ us → p ∈ us → A.Clear p →
      freeObjFromSlab A.slab p k₁ = .ok (r, k₂) → SlabUse A k used k₂ (us.erase p)
  | write (v) : SlabUse A k used k₁ us → p ∈ us → p ≤ a → a < p + A.size → ¬A.InDescr a →
      SlabUse A k used { k₁ with mem := Function.update k₁.mem a v } us

theorem SlabUse.holds (h : SlabUse A k used k' us) (hk : A.Holds k used free) :
    ∃ free', A.Holds k' us free' := by
  induction h with
  | start => exact ⟨free, hk⟩
  | alloc _ hrun ih =>
    obtain ⟨free, h⟩ := ih
    cases free with
    | nil =>
      rw [h.alloc_none] at hrun
      cases hrun
    | cons p ps =>
      obtain ⟨k₃, hrun', h', -⟩ := h.alloc
      rw [hrun'] at hrun
      cases hrun
      exact ⟨ps, h'⟩
  | full _ hrun ih =>
    obtain ⟨free, h⟩ := ih
    cases free with
    | nil =>
      rw [h.alloc_none] at hrun
      cases hrun
      exact ⟨[], h⟩
    | cons p ps =>
      obtain ⟨k₃, hrun', -, -⟩ := h.alloc
      rw [hrun'] at hrun
      cases hrun
  | freed _ hp hclear hrun ih =>
    obtain ⟨free, h⟩ := ih
    obtain ⟨k₃, hrun', h', -⟩ := h.freed hp hclear
    rw [hrun'] at hrun
    cases hrun
    exact ⟨_, h'⟩
  | write v _ hp hle hlt ha ih =>
    obtain ⟨free, h⟩ := ih
    exact ⟨free, h.write hp hle hlt ha v⟩

/-- The free list is exact: its nodes are the slots that are not in use. -/
structure SlabArea.Exact (A : SlabArea) (k : Kernel) (used free : List Nat) : Prop where
  count : (slabFreeObjsCountOf A.slab).get k = free.length
  list : NullTerminated (freeObjsListOf A.slab) objectNextOf k free
  slots : ∀ p ∈ free, ∃ i < A.slotCount, p = A.slot i
  nodup : free.Nodup
  apart : ∀ p ∈ free, p ∉ used
  all : ∀ i < A.slotCount, A.slot i ∈ used ∨ A.slot i ∈ free

theorem SlabArea.Holds.exact (h : A.Holds k used free) : A.Exact k used free where
  count := h.count
  list := h.chain
  slots _ hp := mem_slots.mp (h.slot_of_free hp)
  nodup := h.nodup.of_append_right
  apart p hp hp' := (List.nodup_append.mp h.nodup).2.2 p hp' p hp rfl
  all i hi := List.mem_append.mp (h.slots.mem_iff.mpr (mem_slots.mpr ⟨i, hi, rfl⟩))

/-- An allocation runs, and it yields no object exactly when all slots are in use. -/
theorem SlabArea.Holds.alloc_iff (h : A.Holds k used free) :
    ∃ r k', allocObjFromSlab A.slab k = .ok (r, k') ∧ A.OnlyWrites k k' ∧
      (r = none ↔ ∀ i < A.slotCount, A.slot i ∈ used) := by
  cases free with
  | nil =>
    refine ⟨none, k, h.alloc_none, ⟨_, rfl, fun _ _ => rfl⟩, iff_of_true rfl fun i hi => ?_⟩
    exact (h.exact.all i hi).resolve_right List.not_mem_nil
  | cons p ps =>
    obtain ⟨k', hrun, -, hwrites⟩ := h.alloc
    refine ⟨some p, k', hrun, hwrites, iff_of_false (Option.some_ne_none p) fun hall => ?_⟩
    obtain ⟨i, hi, rfl⟩ := h.exact.slots p List.mem_cons_self
    exact h.exact.apart _ List.mem_cons_self (hall i hi)

/-- From `initialize_slab` on the free list stays exact, whatever the owners do with their
objects. -/
theorem initializeSlab_exact (A : SlabArea) (hfirst : (firstVpnOf A.region).get k = A.first)
    (hpages : (nbrPagesOf A.region).get k = A.pages) (hu : u < A.slotCount)
    (hclear : ∀ i, u ≤ i → i < A.slotCount → A.Clear (A.slot i)) :
    ∃ k₀, initializeSlab A.slab A.region A.size u k = .ok (some A.slab, k₀) ∧ A.OnlyWrites k k₀ ∧
      ∀ k' used, SlabUse A k₀ (objsFrom A.base A.size u) k' used →
        (∃ free, A.Exact k' used free) ∧
        (∃ r k'', allocObjFromSlab A.slab k' = .ok (r, k'') ∧ A.OnlyWrites k' k'' ∧
          (r = none ↔ ∀ i < A.slotCount, A.slot i ∈ used)) ∧
        ∀ p ∈ used, A.Clear p → ∃ k'', freeObjFromSlab A.slab p k' = .ok (true, k'') ∧
          A.OnlyWrites k' k'' := by
  obtain ⟨k₀, hrun, hholds, hwrites⟩ := A.initialized hfirst hpages hu hclear
  refine ⟨k₀, hrun, hwrites, fun k' used huse => ?_⟩
  obtain ⟨free, h⟩ := huse.holds hholds
  refine ⟨⟨free, h.exact⟩, h.alloc_iff, fun p hp hc => ?_⟩
  obtain ⟨k'', hfree, -, hwrites⟩ := h.freed hp hc
  exact ⟨k'', hfree, hwrites⟩

/-- A slab of 128 objects in page 5, with two of them in use. -/
def smallArea : SlabArea where
  slab := 200
  region := 100
  first := 5
  pages := 1
  size := 32
  first_pos := by decide
  fits := by decide
  size_ge := by decide
  size_le := by decide
  slab_fits := by decide
  region_pos := by decide
  region_fits := by decide
  apart := by decide

/-- After `initialize_slab` an object is allocated, and of the two that were in use one is written
to and freed. -/
theorem initializeSlab_exact_small : ∃ k k₀ k' : Kernel, ∃ p,
    initializeSlab 200 100 32 2 k = .ok (some 200, k₀) ∧
      SlabUse smallArea k₀ (objsFrom 20480 32 2) k' ((p :: objsFrom 20480 32 2).erase 20480) ∧
      ∃ free, smallArea.Exact k' ((p :: objsFrom 20480 32 2).erase 20480) free := by
  have hfirst : load32 (store32 100 5 (store32 104 1 fun _ => 0)) 100 = 5 :=
    load32_store32 (by decide) _ _
  have hpages : load32 (store32 100 5 (store32 104 1 fun _ => 0)) 104 = 1 := by
    rw [load32_store32_of_apart (by decide), load32_store32 (by decide)]
  have hoff : ∀ x, 20480 ≤ x → ¬smallArea.InDescr x := by
    intro x hx hdescr
    have hdescr' : 200 ≤ x ∧ x < 220 ∨ 100 ≤ x ∧ x < 112 := hdescr
    omega
  have hclear : ∀ i, smallArea.Clear (smallArea.slot i) := by
    intro i x hx _
    have hbase : 20480 ≤ smallArea.slot i := Nat.le_add_right ..
    exact hoff x (hbase.trans hx)
  obtain ⟨k₀, hrun, -, huse⟩ := initializeSlab_exact (k := { smallKernel with
    mem := store32 100 5 (store32 104 1 fun _ => 0) }) smallArea hfirst hpages
    (by decide : 2 < smallArea.slotCount) fun i _ _ => hclear i
  obtain ⟨r, k₁, halloc, -, hnone⟩ := (huse k₀ _ .start).2.1
  have hr : r ≠ none := fun hr => absurd (hnone.mp hr 2 (by decide)) (by decide)
  obtain ⟨p, rfl⟩ := Option.ne_none_iff_exists'.mp hr
  have hmem : 20480 ∈ p :: objsFrom 20480 32 2 := List.mem_cons_of_mem p (by decide)
  have hfirst : smallArea.Clear 20480 := hclear 0
  have hwritten : SlabUse smallArea k₀ (objsFrom 20480 32 2) _ (p :: objsFrom 20480 32 2) :=
    .write (a := 20481) 7 (.alloc .start halloc) hmem (by decide) (by decide) (hoff _ (by decide))
  obtain ⟨k₂, hfree, -⟩ := (huse _ _ hwritten).2.2 20480 hmem hfirst
  have hfreed := SlabUse.freed hwritten hmem hfirst hfree
  exact ⟨_, k₀, k₂, p, hrun, hfreed, (huse _ _ hfreed).1⟩

end Atros
