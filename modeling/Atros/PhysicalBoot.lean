import Atros.RecursivePaging
import Atros.Kernel
import Atros.PhysicalRange

namespace Atros
set_option autoImplicit true

/-- `ROUNDUP(x, align)`. -/
def roundup (x align : Nat) : Nat :=
  mul32 (add32 (x / align) (if x % align ≠ 0 then 1 else 0)) align

/-- `physical_page_boot_init`; the first two arguments are the addresses of the linker symbols
`boot_pa_start` and `kernel_pa_end`. -/
def physicalPageBootInit (bootPaStart kernelPaEnd firstPpage lastPpage : Nat) :
    Prog Panic Kernel Unit := do
  onPhys (modify fun s => { s with firstPpn := firstPpage, lastPpn := lastPpage })
  let nbrPagesUsedByPpagesDscrs :=
    roundup (mul32 (add32 (sub32 lastPpage firstPpage) 1) sizeofPpage) ppageSize / ppageSize
  let ppagesDscrsPpn ← onBootPpn (bootPhysicalPagesAlloc nbrPagesUsedByPpagesDscrs)
  let ppagesDscrsVpn ← onBootVpn (bootVirtualPagesAlloc nbrPagesUsedByPpagesDscrs)
  modify fun k => { k with ppagesDscrs := vpnToVaddr ppagesDscrsVpn }
  onPaging (mapPages ppagesDscrsPpn ppagesDscrsVpn nbrPagesUsedByPpagesDscrs kernelPageFlags)
  onPhys (rangePpagesSetStatus 0 (sub32 (paddrToPpn (1 * MB)) 1) .used)
  onPhys (rangePpagesSetStatus (paddrToPpn (1 * MB)) (sub32 (paddrToPpn bootPaStart) 1) .free)
  onPhys (rangePpagesSetStatus (paddrToPpn bootPaStart)
    (sub32 (paddrToPpn (roundup kernelPaEnd ppageSize)) 1) .used)
  let bootFirstFreePpn := (← get).bootPpn.firstFree
  onPhys (rangePpagesSetStatus (paddrToPpn kernelPaEnd) (sub32 bootFirstFreePpn 1) .used)
  onPhys (rangePpagesSetStatus bootFirstFreePpn lastPpage .free)

/-- The number of pages of an array of `n` descriptors. -/
def dscrPages (n : Nat) : Nat := (n * sizeofPpage + 4095) / 4096

theorem dscrPages_holds (n : Nat) : n * sizeofPpage ≤ dscrPages n * 4096 := by
  rw [dscrPages]
  omega

theorem dscrPages_pos (h : 0 < n) : 0 < dscrPages n := by
  rw [dscrPages, sizeofPpage]
  omega

theorem roundup_pages (h : x + 4095 < 2 ^ 32) :
    roundup x ppageSize = (x + 4095) / 4096 * 4096 := by
  rw [roundup, show ppageSize = 4096 from rfl]
  have hcarry : (if x % 4096 ≠ 0 then 1 else 0) + x / 4096 = (x + 4095) / 4096 := by
    split <;> omega
  have hle : (if x % 4096 ≠ 0 then 1 else 0) ≤ 1 := by
    split <;> omega
  rw [add32_of_lt (by omega), Nat.add_comm, hcarry, mul32_of_lt (by omega)]

theorem dscrPages_eq (h : lastPpage < 2 ^ 20) :
    roundup (mul32 (add32 (sub32 lastPpage 0) 1) sizeofPpage) ppageSize / ppageSize =
      dscrPages (lastPpage + 1) := by
  rw [sub32_of_le (Nat.zero_le _) (by omega), Nat.sub_zero, add32_of_lt (by omega),
    mul32_of_lt (by rw [sizeofPpage]; omega), roundup_pages (by rw [sizeofPpage]; omega),
    show ppageSize = 4096 from rfl, Nat.mul_div_cancel _ (by decide), dscrPages]

/-- The blocks of each status, in the order of their pages. -/
abbrev BlockFamily := PpageStatus → List Block

def BlockFamily.add (F : BlockFamily) (st : PpageStatus) (bs : List Block) : BlockFamily :=
  fun st' => if st' = st then F st' ++ bs else F st'

theorem BlockFamily.add_self (F : BlockFamily) (st : PpageStatus) (bs : List Block) :
    F.add st bs st = F st ++ bs := if_pos rfl

theorem BlockFamily.add_of_ne (F : BlockFamily) (h : st' ≠ st) (bs : List Block) :
    F.add st bs st' = F st' := if_neg h

theorem BlockFamily.mem_add (F : BlockFamily) :
    B ∈ F.add st bs st' ↔ B ∈ F st' ∨ st' = st ∧ B ∈ bs := by
  rw [add]
  split
  · rw [List.mem_append, and_iff_right ‹_›]
  · rw [iff_self_or]
    exact fun h => absurd h.1 ‹_›

/-- All pages below `b` are in blocks of a status, which the descriptors and the rings
record. -/
structure Phys.Tiled (s : Phys) (b : Nat) (F : BlockFamily) : Prop where
  rings : s.Rings everyStatus fun st k => headsOf k (F st)
  tiles : ∃ all, all.Perm (F .free ++ F .used) ∧ Tiles 0 all b
  order_lt : ∀ st, ∀ B ∈ F st, B.order < maxPpageBlockOrder
  aligned : ∀ st, ∀ B ∈ F st, B.ppn % 2 ^ B.order = 0
  info : ∀ st, ∀ B ∈ F st, ∀ x ∈ B.pages, (s.dscrs x).unlinked = B.dscr st x

theorem mem_family (F : BlockFamily) (h : B ∈ F st) : B ∈ F .free ++ F .used := by
  cases st with
  | free => exact List.mem_append_left _ h
  | used => exact List.mem_append_right _ h

theorem Phys.Tiled.below (h : Phys.Tiled s b F) (hB : B ∈ F st) (hx : x ∈ B.pages) : x < b := by
  obtain ⟨all, hperm, htiles⟩ := h.tiles
  exact (htiles.pages_within (hperm.mem_iff.mpr (mem_family F hB)) hx).2

theorem BlockFamily.perm_add (F : BlockFamily) (st : PpageStatus) {all bs : List Block}
    (h : all.Perm (F .free ++ F .used)) :
    (all ++ bs).Perm (F.add st bs .free ++ F.add st bs .used) := by
  refine (h.append_right bs).trans ?_
  cases st with
  | free =>
    rw [add_self, F.add_of_ne (by decide), List.append_assoc, List.append_assoc]
    exact List.perm_append_comm.append_left (F .free)
  | used => rw [add_self, F.add_of_ne (by decide), List.append_assoc]

theorem Phys.Tiled.range (h : Phys.Tiled s b F) (hc : 1 ≤ c) (hl : c + 2 ^ 10 < 2 ^ 32)
    (hbc : b ≤ c) (st : PpageStatus) :
    ∃ s' bs, rangePpagesSetStatus b (c - 1) st s = .ok ((), s') ∧ Tiles b bs c ∧
      s'.Tiled c (F.add st bs) ∧ s'.firstPpn = s.firstPpn ∧ s'.lastPpn = s.lastPpn := by
  obtain ⟨s', bs, hrun, hset⟩ := rangePpagesSetStatus_spec st hc hl hbc h.rings
    (fun st' k' x hx => .inl (h.below (mem_headsOf.mp hx) (Block.ppn_mem _)))
  refine ⟨s', bs, hrun, hset.tiles, ⟨?_, ?_, ?_, ?_, ?_⟩, hset.marked.firstPpn,
    hset.marked.lastPpn⟩
  · have heq : RingFamily.add (fun st k => headsOf k (F st)) st bs =
        fun st' k => headsOf k (F.add st bs st') := by
      funext st' k
      rw [RingFamily.add_eq, BlockFamily.add]
      split
      · rw [headsOf_append]
      · rfl
    rw [← heq]
    exact hset.rings
  · obtain ⟨all, hperm, htiles⟩ := h.tiles
    exact ⟨all ++ bs, F.perm_add st hperm, htiles.append hset.tiles⟩
  · intro st' B hB
    rcases F.mem_add.mp hB with hB | ⟨-, hB⟩
    · exact h.order_lt st' B hB
    · exact hset.order_lt B hB
  · intro st' B hB
    rcases F.mem_add.mp hB with hB | ⟨-, hB⟩
    · exact h.aligned st' B hB
    · exact hset.aligned B hB
  · intro st' B hB x hx
    rcases F.mem_add.mp hB with hold | ⟨rfl, hnew⟩
    · have hlow := h.below hold hx
      rw [hset.marked.others x fun C hC hxC => ?_, h.info st' B hold x hx]
      have hhigh := hset.tiles.pages_within hC hxC
      omega
    · exact hset.marked.info B hnew x hx

theorem Phys.tiled_start (s : Phys) (hfree : s.freeClists = fun _ => none)
    (hused : s.usedClists = fun _ => none) : s.Tiled 0 fun _ => [] where
  rings := by
    refine ⟨fun st k _ => ?_, fun st k st' k' x _ _ hx _ => nomatch hx⟩
    have hnone : (st.clist k).get s = none := by
      cases st
      · exact congrFun hfree k
      · exact congrFun hused k
    rw [hnone]
    exact .nil _
  tiles := ⟨[], .refl _, rfl⟩
  order_lt _ _ hB := nomatch hB
  aligned _ _ hB := nomatch hB
  info _ _ hB := nomatch hB

/-- How the physical pages allocator starts: the free blocks and the used blocks tile the pages
up to `lastPpage`, each is on the ring of its status and order, and the descriptors agree. -/
structure Phys.Starts (s : Phys) (lastPpage : Nat) (F : BlockFamily) : Prop where
  firstPpn : s.firstPpn = 0
  lastPpn : s.lastPpn = lastPpage
  freeRing : ∀ k, s.links.Ring (s.freeClists k) (headsOf k (F .free))
  usedRing : ∀ k, s.links.Ring (s.usedClists k) (headsOf k (F .used))
  tile : ∀ x, x ≤ lastPpage ↔ ∃ b ∈ F .free ++ F .used, x ∈ b.pages
  apart : (F .free ++ F .used).Pairwise fun b c => b.pages.Apart c.pages
  order_lt : ∀ st, ∀ b ∈ F st, b.order < maxPpageBlockOrder
  aligned : ∀ st, ∀ b ∈ F st, b.ppn % 2 ^ b.order = 0
  info : ∀ st, ∀ b ∈ F st, ∀ x ∈ b.pages, (s.dscrs x).unlinked = b.dscr st x

theorem Phys.Tiled.starts (h : Phys.Tiled s (lastPpage + 1) F) (hf : s.firstPpn = 0)
    (hl : s.lastPpn = lastPpage) : s.Starts lastPpage F where
  firstPpn := hf
  lastPpn := hl
  freeRing k := h.rings.ring .free k trivial
  usedRing k := h.rings.ring .used k trivial
  tile x := by
    obtain ⟨all, hperm, htiles⟩ := h.tiles
    simp only [← hperm.mem_iff, htiles.mem_iff]
    omega
  apart := by
    obtain ⟨all, hperm, htiles⟩ := h.tiles
    exact (hperm.pairwise_iff fun hab => Extent.Apart.symm hab).mp htiles.apart
  order_lt := h.order_lt
  aligned := h.aligned
  info := h.info

/-- What `physical_page_boot_init` needs of the kernel image, of the boot allocators and of the
page tables. -/
structure PhysBootReady (k : Kernel) (bootPaStart kernelPaEnd lastPpage : Nat) : Prop where
  last_lt : lastPpage < 2 ^ 20
  start_ge : 1 * MB ≤ bootPaStart
  start_aligned : bootPaStart % 4096 = 0
  end_gt : bootPaStart < kernelPaEnd
  end_aligned : kernelPaEnd % 4096 = 0
  bootPpn : k.bootPpn = bootPagesInit (kernelPaEnd >>> 12) lastPpage
  ppages : kernelPaEnd >>> 12 + dscrPages (lastPpage + 1) ≤ lastPpage + 1
  vpages : k.bootVpn.firstFree + dscrPages (lastPpage + 1) ≤ k.bootVpn.lastFree + 1
  vpage_pos : 1 ≤ k.bootVpn.firstFree
  vpage_lt : k.bootVpn.firstFree + dscrPages (lastPpage + 1) ≤ 1023 * 1024
  tables : k.paging.RecursiveTables
  present : ∀ i < dscrPages (lastPpage + 1),
    entryPresent (k.paging.pde ((k.bootVpn.firstFree + i) / 2 ^ 10))
  freeClists : k.phys.freeClists = fun _ => none
  usedClists : k.phys.usedClists = fun _ => none

/-- What `physical_page_boot_init` hands over to the physical pages allocator. -/
structure PhysHandover (k k' : Kernel) (bootPaStart kernelPaEnd lastPpage : Nat)
    (F : BlockFamily) : Prop where
  starts : k'.phys.Starts lastPpage F
  free_pages : ∀ x, (∃ b ∈ F .free, x ∈ b.pages) ↔
    256 ≤ x ∧ x < bootPaStart >>> 12 ∨ k'.bootPpn.firstFree ≤ x ∧ x ≤ lastPpage
  bootPpn : k'.bootPpn = ⟨kernelPaEnd >>> 12 + dscrPages (lastPpage + 1), lastPpage⟩
  bootVpn : k'.bootVpn = ⟨k.bootVpn.firstFree + dscrPages (lastPpage + 1), k.bootVpn.lastFree⟩
  /-- The array pages are large enough and are used pages. -/
  array_holds : (lastPpage + 1) * sizeofPpage ≤ dscrPages (lastPpage + 1) * 4096
  array_used : ∀ x, kernelPaEnd >>> 12 ≤ x → x < kernelPaEnd >>> 12 + dscrPages (lastPpage + 1) →
    ∃ b ∈ F .used, x ∈ b.pages
  array_mapped : k.paging.Mapped k'.paging (kernelPaEnd >>> 12) k.bootVpn.firstFree
    (dscrPages (lastPpage + 1))
  array_addr : k'.ppagesDscrs = vpnToVaddr k.bootVpn.firstFree
  rest : ∃ phys paging bootPpn bootVpn dscrs, k' = { k with
    phys := phys, paging := paging, bootPpn := bootPpn, bootVpn := bootVpn, ppagesDscrs := dscrs }

theorem kernelPageFlags_ok : kernelPageFlags < 2 ^ 12 ∧ ¬entryLarge kernelPageFlags ∧
    entryPresent kernelPageFlags := by
  decide

theorem bootPagesAlloc_of_le {b : BootPages} (hn : 1 ≤ n) (h : b.firstFree + n ≤ b.lastFree + 1)
    (hw : b.firstFree + n < 2 ^ 32) :
    bootPagesAlloc e n b = .ok (b.firstFree, ⟨b.firstFree + n, b.lastFree⟩) := by
  have hadmits : b.Admits n := by
    rw [BootPages.Admits, add32_of_lt hw, sub32_of_le (by omega) hw]
    omega
  rw [bootPagesAlloc_admits hadmits, BootPages.advance, add32_of_lt hw]

theorem bootRanges_spec (s : Phys) (hfree : s.freeClists = fun _ => none)
    (hused : s.usedClists = fun _ => none) (hb : 256 ≤ b) (hbe : b < e) (hef : e ≤ f)
    (hfl : f ≤ l + 1) (hl : l < 2 ^ 20) :
    ∃ s₁ s₂ s₃ s₄ s₅ F, rangePpagesSetStatus 0 255 .used s = .ok ((), s₁) ∧
      rangePpagesSetStatus 256 (b - 1) .free s₁ = .ok ((), s₂) ∧
      rangePpagesSetStatus b (e - 1) .used s₂ = .ok ((), s₃) ∧
      rangePpagesSetStatus e (f - 1) .used s₃ = .ok ((), s₄) ∧
      rangePpagesSetStatus f l .free s₄ = .ok ((), s₅) ∧
      s₅.Tiled (l + 1) F ∧ s₅.firstPpn = s.firstPpn ∧ s₅.lastPpn = s.lastPpn ∧
      (∀ x, (∃ b' ∈ F .free, x ∈ b'.pages) ↔ 256 ≤ x ∧ x < b ∨ f ≤ x ∧ x ≤ l) ∧
      ∀ x, e ≤ x → x < f → ∃ b' ∈ F .used, x ∈ b'.pages := by
  obtain ⟨s₁, u₀, run₁, -, tiled₁, hf₁, hl₁⟩ :=
    (s.tiled_start hfree hused).range (c := 256) (by decide) (by decide) (by decide) .used
  obtain ⟨s₂, f₀, run₂, tiles₂, tiled₂, hf₂, hl₂⟩ :=
    tiled₁.range (c := b) (by omega) (by omega) hb .free
  obtain ⟨s₃, u₁, run₃, -, tiled₃, hf₃, hl₃⟩ :=
    tiled₂.range (c := e) (by omega) (by omega) (by omega) .used
  obtain ⟨s₄, u₂, run₄, tiles₄, tiled₄, hf₄, hl₄⟩ :=
    tiled₃.range (c := f) (by omega) (by omega) hef .used
  obtain ⟨s₅, f₁, run₅, tiles₅, tiled₅, hf₅, hl₅⟩ :=
    tiled₄.range (c := l + 1) (by omega) (by omega) hfl .free
  refine ⟨s₁, s₂, s₃, s₄, s₅, _, run₁, run₂, run₃, run₄, run₅, tiled₅, ?_, ?_, ?_, ?_⟩
  · rw [hf₅, hf₄, hf₃, hf₂, hf₁]
  · rw [hl₅, hl₄, hl₃, hl₂, hl₁]
  · intro x
    have h₂ := tiles₂.mem_iff (x := x)
    have h₅ : (∃ B ∈ f₁, x ∈ B.pages) ↔ f ≤ x ∧ x ≤ l := by
      rw [tiles₅.mem_iff]
      omega
    rw [← h₂, ← h₅]
    simp only [BlockFamily.add, if_true, reduceCtorEq, if_false, List.nil_append,
      List.mem_append, or_and_right, exists_or]
  · intro x hx hx'
    obtain ⟨B, hB, hxB⟩ := tiles₄.mem_iff.mpr ⟨hx, hx'⟩
    refine ⟨B, ?_, hxB⟩
    simp only [BlockFamily.add, if_true, reduceCtorEq, if_false, List.mem_append]
    exact .inr hB

theorem physicalPageBootInit_run (h : PhysBootReady k bootPaStart kernelPaEnd lastPpage) :
    ∃ p s F, physicalPageBootInit bootPaStart kernelPaEnd 0 lastPpage k = .ok ((), { k with
        bootPpn := ⟨kernelPaEnd >>> 12 + dscrPages (lastPpage + 1), lastPpage⟩
        bootVpn := ⟨k.bootVpn.firstFree + dscrPages (lastPpage + 1), k.bootVpn.lastFree⟩
        paging := p
        phys := s
        ppagesDscrs := vpnToVaddr k.bootVpn.firstFree }) ∧
      s.Starts lastPpage F ∧
      (∀ x, (∃ b ∈ F .free, x ∈ b.pages) ↔ 256 ≤ x ∧ x < bootPaStart >>> 12 ∨
        kernelPaEnd >>> 12 + dscrPages (lastPpage + 1) ≤ x ∧ x ≤ lastPpage) ∧
      (∀ x, kernelPaEnd >>> 12 ≤ x → x < kernelPaEnd >>> 12 + dscrPages (lastPpage + 1) →
        ∃ b ∈ F .used, x ∈ b.pages) ∧
      k.paging.Mapped p (kernelPaEnd >>> 12) k.bootVpn.firstFree (dscrPages (lastPpage + 1)) := by
  have hlast := h.last_lt
  have hppages := h.ppages
  have hvpages := h.vpages
  have hvlt := h.vpage_lt
  have hpos : 1 ≤ dscrPages (lastPpage + 1) := dscrPages_pos (Nat.succ_pos _)
  have hend : kernelPaEnd = kernelPaEnd >>> 12 * 4096 := by
    have ha := h.end_aligned
    rw [Nat.shiftRight_eq_div_pow]
    omega
  have hstart : bootPaStart = bootPaStart >>> 12 * 4096 := by
    have ha := h.start_aligned
    rw [Nat.shiftRight_eq_div_pow]
    omega
  have hge : 256 ≤ bootPaStart >>> 12 := by
    have hs := h.start_ge
    rw [MB, KB] at hs
    omega
  have hlt : bootPaStart >>> 12 < kernelPaEnd >>> 12 := by
    have he := h.end_gt
    omega
  obtain ⟨s₁, s₂, s₃, s₄, s₅, F, run₁, run₂, run₃, run₄, run₅, tiled, hf, hl, hfreePages,
    hused⟩ := bootRanges_spec { k.phys with firstPpn := 0, lastPpn := lastPpage } h.freeClists
      h.usedClists hge hlt (Nat.le_add_right _ (dscrPages (lastPpage + 1))) hppages hlast
  have hbootPpn : bootPhysicalPagesAlloc (dscrPages (lastPpage + 1)) k.bootPpn =
      .ok (kernelPaEnd >>> 12,
        ⟨kernelPaEnd >>> 12 + dscrPages (lastPpage + 1), lastPpage⟩) := by
    rw [h.bootPpn, bootPhysicalPagesAlloc_eq]
    exact bootPagesAlloc_of_le hpos hppages (by simp only [bootPagesInit]; omega)
  have hbootVpn : bootVirtualPagesAlloc (dscrPages (lastPpage + 1)) k.bootVpn =
      .ok (k.bootVpn.firstFree,
        ⟨k.bootVpn.firstFree + dscrPages (lastPpage + 1), k.bootVpn.lastFree⟩) := by
    rw [bootVirtualPagesAlloc_eq]
    exact bootPagesAlloc_of_le hpos hvpages (by omega)
  obtain ⟨hflags, hsmall, hpresent⟩ := kernelPageFlags_ok
  obtain ⟨p, hmap, hmapped⟩ := mapPages_mapped (f := kernelPaEnd >>> 12) h.tables h.vpage_pos
    hvlt (by omega) hflags hsmall hpresent h.present
  have hround : roundup kernelPaEnd ppageSize = kernelPaEnd := by
    rw [roundup_pages (by omega)]
    omega
  refine ⟨p, s₅, F, ?_, tiled.starts hf hl, hfreePages, hused, hmapped⟩
  unfold physicalPageBootInit
  rw [dscrPages_eq hlast, hround, show paddrToPpn (1 * MB) = 256 from rfl, paddrToPpn,
    paddrToPpn, sub32_of_le (by decide) (by decide), sub32_of_le (by omega) (by omega),
    sub32_of_le (by omega) (by omega)]
  refine Eq.trans (bind_ok (onPhys_ok rfl)) ?_
  refine Eq.trans (bind_ok (onBootPpn_ok hbootPpn)) ?_
  refine Eq.trans (bind_ok (onBootVpn_ok hbootVpn)) ?_
  refine Eq.trans (bind_modify ..) ?_
  refine Eq.trans (bind_ok (onPaging_ok hmap)) ?_
  refine Eq.trans (bind_ok (onPhys_ok run₁)) ?_
  refine Eq.trans (bind_ok (onPhys_ok run₂)) ?_
  refine Eq.trans (bind_ok (onPhys_ok run₃)) ?_
  refine Eq.trans (bind_get ..) ?_
  simp only
  rw [sub32_of_le (by omega) (by omega)]
  exact Eq.trans (bind_ok (onPhys_ok run₄)) (onPhys_ok run₅)

theorem PhysBootReady.boots (h : PhysBootReady k bootPaStart kernelPaEnd lastPpage) :
    ∃ k', physicalPageBootInit bootPaStart kernelPaEnd 0 lastPpage k = .ok ((), k') := by
  obtain ⟨_, _, _, hrun, -⟩ := physicalPageBootInit_run h
  exact ⟨_, hrun⟩

theorem PhysBootReady.handover (h : PhysBootReady k bootPaStart kernelPaEnd lastPpage)
    (hboot : physicalPageBootInit bootPaStart kernelPaEnd 0 lastPpage k = .ok ((), k')) :
    ∃ F, PhysHandover k k' bootPaStart kernelPaEnd lastPpage F := by
  obtain ⟨p, s, F, hrun, hstarts, hfree, hused, hmapped⟩ := physicalPageBootInit_run h
  cases hboot.symm.trans hrun
  exact ⟨F, hstarts, hfree, rfl, rfl, dscrPages_holds _, hused, hmapped, rfl, _, _, _, _, _, rfl⟩

/-- Boot hand-over of physical memory. -/
theorem physicalPageBootInit_handover (k : Kernel) (bootPaStart kernelPaEnd lastPpage : Nat)
    (h : PhysBootReady k bootPaStart kernelPaEnd lastPpage) :
    ∃ k' F, physicalPageBootInit bootPaStart kernelPaEnd 0 lastPpage k = .ok ((), k') ∧
      PhysHandover k k' bootPaStart kernelPaEnd lastPpage F := by
  obtain ⟨k', hboot⟩ := h.boots
  obtain ⟨F, hover⟩ := h.handover hboot
  exact ⟨k', F, hboot, hover⟩

attribute [irreducible] physicalPageBootInit

/-- A machine of 264 pages, with one page table. -/
def smallKernel : Kernel where
  bootPpn := bootPagesInit 258 263
  bootVpn := bootPagesInit 300 1023
  paging := oneTable
  phys := ⟨0, 0, fun _ => ⟨false, 0, 0, 0, 0, none, none⟩, fun _ => none, fun _ => none⟩
  ppagesDscrs := 0
  mem _ := 0
  freeVregions := none
  usedVregions := none
  vpagesCacheVregion := none
  cachesClist := none
  cacheObjsCache := none
  cacheSlab := none
  cacheVregion := none

theorem smallKernel_ready : PhysBootReady smallKernel 0x100000 0x102000 263 where
  last_lt := by decide
  start_ge := by decide
  start_aligned := by decide
  end_gt := by decide
  end_aligned := by decide
  bootPpn := rfl
  ppages := by decide
  vpages := by decide
  vpage_pos := by decide
  vpage_lt := by decide
  tables := oneTable_recursive
  present := by decide
  freeClists := rfl
  usedClists := rfl

theorem physicalPageBootInit_handover_small :
    ∃ k' F, physicalPageBootInit 0x100000 0x102000 0 263 smallKernel = .ok ((), k') ∧
      PhysHandover smallKernel k' 0x100000 0x102000 263 F :=
  physicalPageBootInit_handover smallKernel 0x100000 0x102000 263 smallKernel_ready

/-- Boot, followed by a program of the physical pages allocator. -/
def physBootThen (bootPaStart kernelPaEnd lastPpage : Nat) (x : Prog Panic Phys α) :
    Prog Panic Kernel α := do
  physicalPageBootInit bootPaStart kernelPaEnd 0 lastPpage
  onPhys x

theorem of_physBootThen {x : Prog Panic Phys α} {Q : α → Kernel → Prop}
    (h : Ends (fun _ => False) Q (physBootThen b e l x k)) :
    ∃ k' a k'', physicalPageBootInit b e 0 l k = .ok ((), k') ∧
      x k'.phys = .ok (a, k''.phys) ∧ Q a k'' := by
  obtain ⟨a, k'', hrun, hQ⟩ := h.returns
  obtain ⟨_, k', hboot, hrun⟩ := of_bind_ok hrun
  obtain ⟨s, hcalls, rfl⟩ := of_onPart_ok hrun
  exact ⟨k', a, _, hboot, hcalls, hQ⟩

end Atros
