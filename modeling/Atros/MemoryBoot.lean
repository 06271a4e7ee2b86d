import Atros.PagingBoot
import Atros.SlabIsolation
import Atros.SlabReserves
import Atros.CacheAccounts

namespace Atros
set_option autoImplicit true

/-! ### The memory management that `main` sets up -/

/-- The calls of `main` that set up the memory management, in its order; the linker symbols are
arguments, and `depth` bounds the recursion of the slab allocator. -/
def mainMemory (depth kpgd firstKpgt bootPaStart kernelPaEnd : Nat) : Prog Panic Kernel Unit := do
  let lastPpagePpn := paddrToPpn (4 * MB - 1)
  onBootPpn (set (bootPagesInit (paddrToPpn (roundup kernelPaEnd ppageSize)) lastPpagePpn))
  onBootVpn (set (bootPagesInit (vaddrToVpn (add32 kernelSpace (roundup kernelPaEnd vpageSize)))
    (vaddrToVpn (sub32 (add32 kernelSpace (4 * MB)) 1))))
  onPaging (pagingBootInit kpgd firstKpgt bootPaStart kernelPaEnd)
  physicalPageBootInit bootPaStart kernelPaEnd 0 lastPpagePpn
  objsCacheBootInit depth

variable {p : Paging} {k : Kernel} {s : Session}

/-! ### The page tables -/

/-- Every word of the physical memory is one of 32 bits. -/
def Paging.Words (p : Paging) : Prop := ∀ a, p.pmem a < 2 ^ 32

theorem supervisorEntry_lt (h : paddr < 2 ^ 32) : supervisorEntry paddr < 2 ^ 32 := by
  rw [supervisorEntry]
  exact Nat.or_lt_two_pow (Nat.or_lt_two_pow (Nat.or_lt_two_pow h (by decide)) (by decide))
    (by decide)

theorem Paging.Words.set (h : p.Words) (hw : w < 2 ^ 32) (table i : Nat) :
    ((entryAt table i).set w p).Words := by
  intro a
  change Function.update p.pmem _ w a < _
  rw [Function.update_apply]
  split
  · exact hw
  · exact h a

theorem Paging.Words.fills (h : p.Words) (hentry : ∀ i, entry i < 2 ^ 32) (go : Nat → Prop)
    [DecidablePred go] (table rounds i : Nat) :
    Ends (fun _ => True) (fun _ p' => p'.Words) (fillLoop table entry go rounds i p) := by
  induction rounds generalizing p i with
  | zero => trivial
  | succ rounds ih =>
    rw [fillLoop]
    split
    · rw [bind_write]
      exact ih (h.set (hentry i) table i) _
    · exact h

theorem Paging.Words.bootInit (h : p.Words)
    (hrun : pagingBootInit kpgd firstKpgt bootPaStart kernelPaEnd p = .ok ((), p')) :
    p'.Words := by
  have hzero : ∀ _ : Nat, 0 < 2 ^ 32 := fun _ => by decide
  have hpage : ∀ i, supervisorEntry (i <<< 12 % 2 ^ 32) < 2 ^ 32 := fun i =>
    supervisorEntry_lt (Nat.mod_lt _ (by decide))
  unfold pagingBootInit at hrun
  generalize indexRounds = rounds at hrun
  refine Ends.ok (E := fun _ => True) (Q := fun _ p' => p'.Words) ?_ hrun
  refine .bind (h.fills hzero _ _ _ _) fun _ p₁ h₁ => ?_
  refine .bind (h₁.fills hzero _ _ _ _) fun _ p₂ h₂ => ?_
  rw [bind_write, bind_write]
  have h₃ := (h₂.set (supervisorEntry_lt (sub32_lt firstKpgt kernelSpace)) kpgd
    (kernelSpace >>> 22)).set (supervisorEntry_lt (sub32_lt kpgd kernelSpace)) kpgd recPagingEntry
  refine .bind (h₃.fills hpage _ _ _ _) fun _ p₄ h₄ => ?_
  refine .bind (h₄.fills hpage _ _ _ _) fun _ p₅ h₅ => ?_
  exact h₅

theorem Paging.BootTables.recursive (h : p.BootTables d t lo hi) (hwords : p.Words)
    (hd : d % 2 ^ 12 = 0) (ht : t % 2 ^ 12 = 0) (hne : d ≠ t) : p.RecursiveTables := by
  have hself : p.pde 1023 = d + 3 := h.pde (i := 1023) (by decide)
  have hkernel : ∀ i < 1023, entryPresent (p.pde i) → i = 768 := by
    intro i hi hp
    rw [h.pde (by omega)] at hp
    by_contra hi'
    rw [if_neg hi', if_neg (by omega)] at hp
    exact absurd hp (by decide)
  refine ⟨⟨?_, hwords, ?_, ?_, ?_⟩, fun i hi hp => ?_, fun i hi j hj hpi hpj hij => ?_,
    fun i hi hp => ?_⟩
  · rw [h.cr3]
    exact hd
  · rw [hself]
    exact entryPresent_supervisor hd
  · rw [hself]
    exact not_entryLarge_supervisor hd
  · rw [hself, h.cr3]
    exact entryBase_supervisor hd
  · rw [hkernel i hi hp, h.pde_kernel]
    exact not_entryLarge_supervisor ht
  · exact absurd ((hkernel i hi hpi).trans (hkernel j hj hpj).symm) hij
  · rw [hkernel i hi hp, h.pde_kernel, h.cr3, entryBase_supervisor ht]
    exact hne.symm

/-! ### From the start of `main` on -/

/-- The first page behind the descriptors of 1024 pages, which follow the image. -/
def managedPpn (kernelPaEnd : Nat) : Nat := kernelPaEnd >>> 12 + dscrPages 1024

/-- The image as atros.lds lays it out, and the state in which `main` is called: the section `.bss`
is clear. The word that the first free region will take for its successor is null. -/
structure MainReady (k : Kernel) (kpgd firstKpgt bootPaStart kernelPaEnd : Nat) : Prop where
  start_ge : 1 * MB ≤ bootPaStart
  start_aligned : bootPaStart % 4096 = 0
  end_gt : bootPaStart < kernelPaEnd
  end_aligned : kernelPaEnd % 4096 = 0
  end_lt : kernelPaEnd < 2 * MB
  kpgd_in : kernelSpace + bootPaStart ≤ kpgd ∧ kpgd < kernelSpace + kernelPaEnd
  firstKpgt_in : kernelSpace + bootPaStart ≤ firstKpgt ∧ firstKpgt < kernelSpace + kernelPaEnd
  tables_aligned : kpgd % 4096 = 0 ∧ firstKpgt % 4096 = 0
  tables_ne : kpgd ≠ firstKpgt
  words : k.paging.Words
  freeClists : k.phys.freeClists = fun _ => none
  usedClists : k.phys.usedClists = fun _ => none
  freeVregions : k.freeVregions = none
  cachesClist : k.cachesClist = none
  spare : bootSpare (kernelSpace >>> 12 + managedPpn kernelPaEnd) k.mem = none

/-- The kernel in which `physical_page_boot_init` is called. -/
structure TablesLoaded (k k' : Kernel) (e : Nat) : Prop where
  tables : k'.paging.RecursiveTables
  present : entryPresent (k'.paging.pde 768)
  rest : ∃ paging, k' = { k with
    bootPpn := ⟨e, 1023⟩, bootVpn := ⟨kernelSpace >>> 12 + e, kernelSpace >>> 12 + 1023⟩,
    paging := paging }

section
variable (h : MainReady k kpgd firstKpgt bootPaStart kernelPaEnd)
include h

theorem MainReady.paging : ∃ p, pagingBootInit kpgd firstKpgt bootPaStart kernelPaEnd k.paging =
    .ok ((), p) ∧ p.RecursiveTables ∧ entryPresent (p.pde 768) := by
  have hwords := h.words
  obtain ⟨hge, haligned, hgt, haligned', hlt, hkpgd, hkpgt, hpages, hne⟩ := h
  have hMB : MB = 2 ^ 20 := by decide
  rw [hMB] at hge hlt
  have hspace : kernelSpace = 768 * 2 ^ 22 := by decide
  have hd : sub32 kpgd kernelSpace = kpgd - kernelSpace := sub32_of_le (by omega) (by omega)
  have ht : sub32 firstKpgt kernelSpace = firstKpgt - kernelSpace :=
    sub32_of_le (by omega) (by omega)
  have hd' : (kpgd - kernelSpace) % 2 ^ 12 = 0 := by
    rw [hspace]
    omega
  have ht' : (firstKpgt - kernelSpace) % 2 ^ 12 = 0 := by
    rw [hspace]
    omega
  have hoff : kpgd - kernelSpace ≠ firstKpgt - kernelSpace := by omega
  have hlo : bootPaStart = bootPaStart / 4096 * 2 ^ 12 := by omega
  have hhi : roundup kernelPaEnd ppageSize = kernelPaEnd / 4096 * 2 ^ 12 := by
    rw [roundup_pages (by omega)]
    omega
  obtain ⟨p, hrun, htables⟩ := pagingBootInit_tables k.paging hd ht hd' ht' hoff hlo hhi (by omega)
    (by omega)
  refine ⟨p, hrun, htables.recursive (hwords.bootInit hrun) hd' ht' hoff, ?_⟩
  rw [htables.pde_kernel]
  exact entryPresent_supervisor ht'

theorem MainReady.loads : ∃ k₁, TablesLoaded k k₁ (kernelPaEnd >>> 12) ∧
    ∀ depth, mainMemory depth kpgd firstKpgt bootPaStart kernelPaEnd k = (do
      physicalPageBootInit bootPaStart kernelPaEnd 0 1023
      objsCacheBootInit depth) k₁ := by
  obtain ⟨p, hrun, htables, hpresent⟩ := h.paging
  have hMB : MB = 2 ^ 20 := by decide
  have hlt := h.end_lt
  have haligned := h.end_aligned
  rw [hMB] at hlt
  have hspace : kernelSpace = 768 * 2 ^ 22 := by decide
  have hround : roundup kernelPaEnd ppageSize = kernelPaEnd := by
    rw [roundup_pages (by omega)]
    omega
  have hppn : paddrToPpn (4 * MB - 1) = 1023 := by decide
  have hlast : vaddrToVpn (sub32 (add32 kernelSpace (4 * MB)) 1) = kernelSpace >>> 12 + 1023 := by
    decide
  have hfirst : vaddrToVpn (add32 kernelSpace (roundup kernelPaEnd vpageSize)) =
      kernelSpace >>> 12 + kernelPaEnd >>> 12 := by
    change vaddrToVpn (add32 kernelSpace (roundup kernelPaEnd ppageSize)) = _
    rw [hround, add32_of_lt (by omega), vaddrToVpn, hspace, Nat.shiftRight_eq_div_pow,
      Nat.shiftRight_eq_div_pow, Nat.shiftRight_eq_div_pow]
    omega
  refine ⟨{ k with
    bootPpn := ⟨kernelPaEnd >>> 12, 1023⟩
    bootVpn := ⟨kernelSpace >>> 12 + kernelPaEnd >>> 12, kernelSpace >>> 12 + 1023⟩
    paging := p }, ⟨htables, hpresent, p, rfl⟩, fun depth => ?_⟩
  unfold mainMemory
  rw [hppn, hlast, hfirst, hround]
  refine (bind_ok (onBootPpn_ok rfl)).trans ?_
  refine (bind_ok (onBootVpn_ok rfl)).trans ?_
  exact bind_ok (onPaging_ok hrun)

theorem MainReady.bounds : 256 ≤ bootPaStart >>> 12 ∧ bootPaStart >>> 12 < kernelPaEnd >>> 12 ∧
    kernelPaEnd >>> 12 < 512 ∧ kernelPaEnd = kernelPaEnd >>> 12 * 4096 := by
  obtain ⟨hge, haligned, hgt, haligned', hlt, -⟩ := h
  have hMB : MB = 2 ^ 20 := by decide
  rw [hMB] at hge hlt
  rw [Nat.shiftRight_eq_div_pow, Nat.shiftRight_eq_div_pow]
  omega

theorem MainReady.physReady (hk₁ : TablesLoaded k k₁ (kernelPaEnd >>> 12)) :
    PhysBootReady k₁ bootPaStart kernelPaEnd 1023 := by
  obtain ⟨hlo, hlt, hend, -⟩ := h.bounds
  obtain ⟨htables, hpresent, p, rfl⟩ := hk₁
  have hdscrs : dscrPages (1023 + 1) = 6 := by decide
  have hspace : kernelSpace >>> 12 = 768 * 1024 := by decide
  refine ⟨by decide, h.start_ge, h.start_aligned, h.end_gt, h.end_aligned, rfl, ?_, ?_, ?_, ?_,
    htables, fun i hi => ?_, h.freeClists, h.usedClists⟩
  · omega
  · simp only
    omega
  · simp only
    omega
  · simp only
    omega
  · have hpde : (kernelSpace >>> 12 + kernelPaEnd >>> 12 + i) / 2 ^ 10 = 768 := by omega
    simp only [hpde]
    exact hpresent

theorem MainReady.slabReady {F : BlockFamily} (hk₁ : TablesLoaded k k₁ (kernelPaEnd >>> 12))
    (hover : PhysHandover k₁ k₂ bootPaStart kernelPaEnd 1023 F) : SlabBootReady k₂ (F .free) ∧
      HasPages (F .free) 3 ∧ k₂.bootVpn =
        ⟨kernelSpace >>> 12 + managedPpn kernelPaEnd, kernelSpace >>> 12 + 1023⟩ ∧
      bootSpare k₂.bootVpn.firstFree k₂.mem = none := by
  obtain ⟨hlo, hlt, hend, -⟩ := h.bounds
  obtain ⟨htables, hpresent, p, hrest⟩ := hk₁
  have hdscrs : dscrPages (1023 + 1) = 6 := by decide
  have hspace : kernelSpace >>> 12 = 768 * 1024 := by decide
  have hvpn : k₁.bootVpn =
      ⟨kernelSpace >>> 12 + kernelPaEnd >>> 12, kernelSpace >>> 12 + 1023⟩ := by
    rw [hrest]
  have hvpn₂ : k₂.bootVpn =
      ⟨kernelSpace >>> 12 + managedPpn kernelPaEnd, kernelSpace >>> 12 + 1023⟩ := by
    rw [hover.bootVpn, hvpn, managedPpn, Nat.add_assoc]
  have hmem : k₂.mem = k.mem := by
    obtain ⟨_, _, _, _, _, hk₂⟩ := hover.rest
    rw [hk₂, hrest]
  refine ⟨hover.slabBootReady (by decide) ?_ ?_ ?_ (fun w hw hw' => ?_) ?_, ?_, hvpn₂, ?_⟩
  · rw [hvpn]
    simp only
    omega
  · rw [hvpn]
    simp only
    omega
  · rw [hvpn]
    simp only
    omega
  · rw [hvpn] at hw hw'
    simp only at hw hw'
    have hpde : w / 2 ^ 10 = 768 := by omega
    rw [hpde]
    exact hpresent
  · rw [hrest]
    exact ⟨h.freeVregions, h.cachesClist⟩
  · refine ⟨List.range' (kernelPaEnd >>> 12 + 6) 3, List.nodup_range', by rw [List.length_range'],
      fun x hx => (hover.free_pages x).mpr (.inr ?_)⟩
    rw [List.mem_range'_1] at hx
    rw [hover.bootPpn, hdscrs]
    simp only
    omega
  · rw [hvpn₂, hmem]
    exact h.spare

end

/-! ### The runs -/

/-- What holds of a session in every run from the end of `main`'s set-up on: `k₀` is the kernel
before the slab allocator was set up, and `k'` the one after it. -/
structure Session.Managed (s : Session) (depth bootPaStart kernelPaEnd : Nat)
    (k₀ k' : Kernel) : Prop where
  isolated : s.Isolated k₀
  conserves : s.Conserves k'
  accounted : s.kernel.Accounted
  completes : ∀ call : SlabCall, call.Allowed s → call.Sized → s.kernel.Completes depth call
  /-- No page of a slab is one of the image, of the descriptors or below the image. -/
  frames : ∀ c sl r v p, s.kernel.SlabAt c sl r → v ∈ s.kernel.region r →
    s.kernel.paging.walk (v * vpageSize) = some (p * vpageSize) →
      256 ≤ p ∧ p < bootPaStart >>> 12 ∨ managedPpn kernelPaEnd ≤ p ∧ p < 1024
  /-- A region that has been returned lies behind the image and the descriptors, in the first 4 MB
  of the kernel's space. -/
  regions : ∀ r, (s.kernel.vpagesCacheVregion, r) ∈ s.given → ∀ v ∈ s.kernel.region r,
    kernelSpace >>> 12 + managedPpn kernelPaEnd ≤ v ∧ v < kernelSpace >>> 12 + 1024

/-- From the start of `main` on, whatever the image and the memory: the set-up returns, and in every
run of the slab allocator after it objects and pages stay apart, off the image. -/
theorem mainMemory_managed (h : MainReady k kpgd firstKpgt bootPaStart kernelPaEnd)
    (hd : 5 ≤ depth) : ∃ k₀ k', mainMemory (depth + 1) kpgd firstKpgt bootPaStart kernelPaEnd k =
      .ok ((), k') ∧
    ∀ s, SlabRun depth (.start k') s → s.Managed depth bootPaStart kernelPaEnd k₀ k' := by
  obtain ⟨k₁, hk₁, hloads⟩ := h.loads
  obtain ⟨k₂, hphys⟩ := (h.physReady hk₁).boots
  obtain ⟨F, hover⟩ := (h.physReady hk₁).handover hphys
  obtain ⟨hready, hroom, hvpn, hspare⟩ := h.slabReady hk₁ hover
  have hd' : 2 ≤ depth := Nat.le_trans (by decide) hd
  obtain ⟨⟨⟩, k', hslab, t₀, W₀, blocks, hk', hleft, htook⟩ :=
    (hready.boots (E := fun _ => False) hspare (.inr hroom) hd').returns
  refine ⟨k₂, k', ?_, fun s hrun => ?_⟩
  · rw [hloads (depth + 1), bind_ok hphys, hslab]
  · obtain ⟨W, t, hs, hg, hfresh⟩ := hrun.fresh hd (.start hk' hleft.ready)
    have hsound := hs.ready.sound
    have hisolated := hs.isolated (htook.block_free hready hleft.freeBlocks hg hsound)
    have hconserves := hleft.conserves hk' hg hs fun p hp =>
      (hfresh p hp).resolve_left List.not_mem_nil
    refine ⟨hisolated, hconserves, hsound.accounted hs.shows, fun call => hs.completes hd, ?_, ?_⟩
    · intro c sl r v p hsl hv hp
      obtain ⟨q, hq, -, hfree⟩ := hisolated.translated c sl r hsl v hv
      obtain rfl := Nat.eq_of_mul_eq_mul_right (by decide : 0 < vpageSize)
        (Option.some.inj (hp.symm.trans hq))
      rw [hready.phys.sound.partition.freePage_iff] at hfree
      have hpages := (hover.free_pages p).mp hfree
      rw [hover.bootPpn] at hpages
      exact hpages.imp_right fun hp => ⟨hp.1, Nat.lt_succ_of_le hp.2⟩
    · intro r hr v hv
      have hused := hconserves.given r hr
      have hrange := (hconserves.pages v).mp ⟨r, .inr hused, hv⟩
      have hvpn' : k'.bootVpn = ⟨_, _⟩ := hk'.bootVpn.trans hleft.bootVpn
      rw [hvpn', hvpn] at hrange
      simp only at hrange
      omega

/-- An image of 64 pages in a machine whose memory is zero. -/
def mainKernel : Kernel where
  bootPpn := ⟨0, 0⟩
  bootVpn := ⟨0, 0⟩
  paging := ⟨fun _ => 0, 0⟩
  phys := ⟨0, 0, fun _ => ⟨false, 0, 0, 0, 0, none, none⟩, fun _ => none, fun _ => none⟩
  ppagesDscrs := 0
  mem _ := 0
  freeVregions := none
  usedVregions := none
  vpagesCacheVregion := none
  cachesClist := none
  cacheObjsCache := none
  cacheSlab := none
  cacheVregion := none

theorem mainKernel_ready : MainReady mainKernel 0xC013E000 0xC013F000 0x100000 0x140000 where
  start_ge := by decide
  start_aligned := by decide
  end_gt := by decide
  end_aligned := by decide
  end_lt := by decide
  kpgd_in := by decide
  firstKpgt_in := by decide
  tables_aligned := by decide
  tables_ne := by decide
  words _ := Nat.two_pow_pos 32
  freeClists := rfl
  usedClists := rfl
  freeVregions := rfl
  cachesClist := rfl
  spare := rfl

theorem mainMemory_managed_mainKernel : ∃ k₀ k',
    mainMemory 6 0xC013E000 0xC013F000 0x100000 0x140000 mainKernel = .ok ((), k') ∧
    ∀ s, SlabRun 5 (.start k') s → s.Managed 5 0x100000 0x140000 k₀ k' :=
  mainMemory_managed mainKernel_ready (le_refl 5)

end Atros
