import Atros.ListMacros
import Atros.Paging
import Atros.PhysicalBoot

namespace Atros
set_option autoImplicit true

def nbrPdEntries : Nat := 1024
def nbrPtEntries : Nat := 1024

/-- An entry of one of the two tables of the kernel image. The boot code has mapped the first
4 MB of physical memory at `KERNEL_SPACE`. -/
def entryAt (table i : Nat) : Place Paging Nat where
  get p := p.pmem (sub32 table kernelSpace + 4 * i)
  set w p := { p with pmem := Function.update p.pmem (sub32 table kernelSpace + 4 * i) w }

/-- A loop over the entries of a table, as long as `go` holds of the index. -/
def fillLoop (table : Nat) (entry : Nat → Nat) (go : Nat → Prop) [DecidablePred go] :
    Nat → Nat → Prog Panic Paging Unit
  | 0, _ => throw .endless
  | rounds + 1, i =>
    if go i then do
      (entryAt table i).write (entry i)
      fillLoop table entry go rounds (add32 i 1)
    else pure ()

/-- An index takes no more values. -/
def indexRounds : Nat := 2 ^ 32

def supervisorEntry (paddr : Nat) : Nat :=
  paddr ||| pageSupervisor ||| pageReadWrite ||| pagePresent

def loadPgd (pgd : Nat) : Prog Panic Paging Unit :=
  modify fun p => { p with cr3 := pgd }

/-- `kpgd` and `firstKpgt` are the addresses of `_kpgd` and `_first_kpgt`. -/
def pagingBootInit (kpgd firstKpgt bootPaStart kernelPaEnd : Nat) : Prog Panic Paging Unit := do
  -- `memset` of both tables, word by word
  fillLoop kpgd (fun _ => 0) (· < nbrPdEntries) indexRounds 0
  fillLoop firstKpgt (fun _ => 0) (· < nbrPtEntries) indexRounds 0
  (entryAt kpgd (kernelSpace >>> 22)).write (supervisorEntry (sub32 firstKpgt kernelSpace))
  (entryAt kpgd recPagingEntry).write (supervisorEntry (sub32 kpgd kernelSpace))
  let firstPpagePpn := paddrToPpn bootPaStart
  let lastPpagePpn := sub32 (paddrToPpn (roundup kernelPaEnd ppageSize)) 1
  fillLoop firstKpgt (fun i => supervisorEntry (i <<< 12 % 2 ^ 32)) (· ≤ lastPpagePpn) indexRounds
    firstPpagePpn
  fillLoop firstKpgt (fun i => supervisorEntry (i <<< 12 % 2 ^ 32)) (· < MB >>> 12) indexRounds 0
  loadPgd (sub32 kpgd kernelSpace)

/-! ### The entries -/

variable {p p' : Paging}

/-- The entries `lo` to `hi` of the table at `a` have been filled. -/
structure Paging.Filled (p : Paging) (a lo hi : Nat) (entry : Nat → Nat) (p' : Paging) : Prop where
  entries : ∀ i, lo ≤ i → i < hi → p'.pmem (a + 4 * i) = entry i
  others : ∀ x, (∀ i, lo ≤ i → i < hi → x ≠ a + 4 * i) → p'.pmem x = p.pmem x

theorem fillLoop_filled (go : Nat → Prop) [DecidablePred go] (lo hi rounds table : Nat)
    (entry : Nat → Nat) (p : Paging) (hgo : ∀ k, go k ↔ k < hi) (hi' : hi < 2 ^ 32) (hlo : lo ≤ hi)
    (hrounds : hi - lo < rounds) :
    ∃ p', fillLoop table entry go rounds lo p = .ok ((), p') ∧
      p.Filled (sub32 table kernelSpace) lo hi entry p' := by
  induction rounds generalizing lo p with
  | zero => omega
  | succ rounds ih =>
    rw [fillLoop]
    rcases Nat.lt_or_ge lo hi with hlt | hge
    · rw [if_pos ((hgo lo).mpr hlt), bind_write, add32_of_lt (by omega)]
      obtain ⟨p', hrun, hfilled⟩ := ih (lo + 1) ((entryAt table lo).set (entry lo) p) hlt
        (by omega)
      refine ⟨p', hrun, ?_, ?_⟩
      · intro i hi₁ hi₂
        rcases Nat.eq_or_lt_of_le hi₁ with rfl | hlt'
        · rw [hfilled.others _ fun j hj _ => by omega]
          exact Function.update_self ..
        · exact hfilled.entries i hlt' hi₂
      · intro x hx
        rw [hfilled.others x fun i hi₁ hi₂ => hx i (by omega) hi₂]
        exact Function.update_of_ne (hx lo (le_refl lo) hlt) _ _
    · rw [if_neg (mt (hgo lo).mp (by omega))]
      refine ⟨p, rfl, ?_, fun _ _ => rfl⟩
      intro i hi₁ hi₂
      omega

theorem supervisorEntry_eq (h : paddr % 2 ^ 12 = 0) : supervisorEntry paddr = paddr + 3 := by
  obtain ⟨f, rfl⟩ : ∃ f, paddr = f * 2 ^ 12 := ⟨paddr / 2 ^ 12, by omega⟩
  rw [supervisorEntry, pageSupervisor, Nat.or_zero, Nat.or_assoc]
  exact base_or_flags (by decide)

/-- The tables that `paging_boot_init` sets up, the directory at `d` and the page table at `t`;
the physical pages from `lo` to `hi` are those of the image. -/
structure Paging.BootTables (p : Paging) (d t lo hi : Nat) : Prop where
  cr3 : p.cr3 = d
  directory : ∀ i < 2 ^ 10,
    p.pmem (d + 4 * i) = if i = 768 then t + 3 else if i = 1023 then d + 3 else 0
  table : ∀ i < 2 ^ 10,
    p.pmem (t + 4 * i) = if i < 256 ∨ lo ≤ i ∧ i < hi then i * 2 ^ 12 + 3 else 0

theorem pagingBootInit_tables {kpgd firstKpgt d t lo hi : Nat} (p : Paging)
    (hkpgd : sub32 kpgd kernelSpace = d) (hkpgt : sub32 firstKpgt kernelSpace = t)
    (hd : d % 2 ^ 12 = 0) (ht : t % 2 ^ 12 = 0) (hne : d ≠ t)
    (hlo : bootPaStart = lo * 2 ^ 12) (hhi : roundup kernelPaEnd ppageSize = hi * 2 ^ 12)
    (hle : lo < hi) (hhi' : hi ≤ 2 ^ 10) :
    ∃ p', pagingBootInit kpgd firstKpgt bootPaStart kernelPaEnd p = .ok ((), p') ∧
      p'.BootTables d t lo hi := by
  have hentry : ∀ i, i < 2 ^ 10 → supervisorEntry (i <<< 12 % 2 ^ 32) = i * 2 ^ 12 + 3 := by
    intro i hi
    rw [Nat.shiftLeft_eq, Nat.mod_eq_of_lt (by omega), supervisorEntry_eq (by omega)]
  have hfirst : paddrToPpn bootPaStart = lo := by
    rw [hlo, paddrToPpn, Nat.shiftRight_eq_div_pow, Nat.mul_div_cancel _ (by decide)]
  have hlast : sub32 (paddrToPpn (roundup kernelPaEnd ppageSize)) 1 = hi - 1 := by
    rw [hhi, paddrToPpn, Nat.shiftRight_eq_div_pow, Nat.mul_div_cancel _ (by decide),
      sub32_of_le (by omega) (by omega)]
  have hone : MB >>> 12 = 256 := by decide
  obtain ⟨p₁, hrun₁, h₁⟩ := fillLoop_filled (· < nbrPdEntries) 0 nbrPdEntries indexRounds kpgd
    (fun _ => 0) p (fun _ => Iff.rfl) (by decide) (by decide) (by decide)
  obtain ⟨p₂, hrun₂, h₂⟩ := fillLoop_filled (· < nbrPtEntries) 0 nbrPtEntries indexRounds firstKpgt
    (fun _ => 0) p₁ (fun _ => Iff.rfl) (by decide) (by decide) (by decide)
  generalize hp₃ : (entryAt kpgd (kernelSpace >>> 22)).set
    (supervisorEntry (sub32 firstKpgt kernelSpace)) p₂ = p₃
  generalize hp₄ : (entryAt kpgd recPagingEntry).set
    (supervisorEntry (sub32 kpgd kernelSpace)) p₃ = p₄
  obtain ⟨p₅, hrun₅, h₅⟩ := fillLoop_filled
    (· ≤ sub32 (paddrToPpn (roundup kernelPaEnd ppageSize)) 1) lo hi indexRounds firstKpgt
    (fun i => supervisorEntry (i <<< 12 % 2 ^ 32)) p₄
    (fun k => by rw [hlast]; omega) (by omega) (by omega) (by rw [indexRounds]; omega)
  obtain ⟨p₆, hrun₆, h₆⟩ := fillLoop_filled (· < MB >>> 12) 0 (MB >>> 12) indexRounds firstKpgt
    (fun i => supervisorEntry (i <<< 12 % 2 ^ 32)) p₅
    (fun _ => Iff.rfl) (by decide) (by decide) (by decide)
  rw [hkpgd] at h₁
  rw [hkpgt] at h₂ h₅ h₆
  have h₃ : ∀ x, p₃.pmem x = if x = d + 4 * 768 then t + 3 else p₂.pmem x := by
    intro x
    rw [← hp₃, ← supervisorEntry_eq ht, ← hkpgd, ← hkpgt]
    exact Function.update_apply ..
  have h₄ : ∀ x, p₄.pmem x = if x = d + 4 * 1023 then d + 3 else p₃.pmem x := by
    intro x
    rw [← hp₄, ← supervisorEntry_eq hd, ← hkpgd]
    exact Function.update_apply ..
  refine ⟨{ p₆ with cr3 := sub32 kpgd kernelSpace }, ?_, hkpgd, ?_, ?_⟩
  · rw [pagingBootInit, bind_ok hrun₁, bind_ok hrun₂, bind_write, hp₃, bind_write, hp₄]
    simp only [hfirst]
    rw [bind_ok hrun₅, bind_ok hrun₆]
    rfl
  · intro i hi'
    change p₆.pmem (d + 4 * i) = _
    rw [h₆.others _ fun j _ hj => by omega, h₅.others _ fun j _ hj => by omega, h₄, h₃,
      h₂.others _ fun j _ (hj : j < 1024) => by omega, h₁.entries i (Nat.zero_le i) hi']
    split_ifs <;> first | rfl | omega
  · intro i hi'
    change p₆.pmem (t + 4 * i) = _
    by_cases hlow : i < 256
    · rw [h₆.entries i (Nat.zero_le i) (by omega), hentry i hi', if_pos (.inl hlow)]
    · rw [h₆.others _ fun j _ hj => by omega]
      by_cases himage : lo ≤ i ∧ i < hi
      · rw [h₅.entries i himage.1 himage.2, hentry i hi', if_pos (.inr himage)]
      · rw [h₅.others _ fun j hj₁ hj₂ => by omega, h₄, if_neg (by omega), h₃, if_neg (by omega),
          h₂.entries i (Nat.zero_le i) hi', if_neg (by omega)]

/-! ### The address space -/

/-- A right that both entries of a 4 KB page have to give: bit 1 is R/W, bit 2 is U/S. -/
def Paging.grants (p : Paging) (bit vaddr : Nat) : Prop :=
  p.pde (vaddr / 2 ^ 22) / 2 ^ bit % 2 = 1 ∧
    p.pmem (entryBase (p.pde (vaddr / 2 ^ 22)) + 4 * (vaddr / 2 ^ 12 % 2 ^ 10)) / 2 ^ bit % 2 = 1

/-- The physical addresses that are mapped: the first megabyte and the image. -/
def BootMapped (bootPaStart kernelPaEnd a : Nat) : Prop :=
  a < MB ∨ bootPaStart ≤ a ∧ a < roundup kernelPaEnd ppageSize

/-- What the new directory maps, and how. -/
structure Paging.BootSpace (p : Paging) (kpgd firstKpgt bootPaStart kernelPaEnd : Nat) : Prop where
  image : ∀ a, BootMapped bootPaStart kernelPaEnd a → p.walk (kernelSpace + a) = some a ∧
    p.grants 1 (kernelSpace + a) ∧ ¬p.grants 2 (kernelSpace + a)
  others : ∀ v < 1023 * 2 ^ 22, (∀ a, BootMapped bootPaStart kernelPaEnd a → v ≠ kernelSpace + a) →
    p.walk v = none
  window : ∀ j < 2 ^ 10, ∀ o < 2 ^ 12, p.walk (1023 * 2 ^ 22 + j * 2 ^ 12 + o) =
    if j = 768 then some (sub32 firstKpgt kernelSpace + o)
    else if j = 1023 then some (sub32 kpgd kernelSpace + o) else none

theorem kernelSpace_directory (ha : a < 2 ^ 22) : (kernelSpace + a) / 2 ^ 22 = 768 := by
  rw [kernelSpace]
  omega

theorem kernelSpace_page (ha : a < 2 ^ 22) : (kernelSpace + a) / 2 ^ 12 % 2 ^ 10 = a / 2 ^ 12 := by
  rw [kernelSpace]
  omega

theorem entryBase_supervisor (hx : x % 2 ^ 12 = 0) : entryBase (x + 3) = x := by
  rw [entryBase]
  omega

theorem entryPresent_supervisor (hx : x % 2 ^ 12 = 0) : entryPresent (x + 3) := by
  rw [entryPresent]
  omega

theorem not_entryLarge_supervisor (hx : x % 2 ^ 12 = 0) : ¬entryLarge (x + 3) := by
  rw [entryLarge]
  omega

section
variable {d t lo hi : Nat} (h : p.BootTables d t lo hi)
include h

theorem Paging.BootTables.pde (hi : i < 2 ^ 10) :
    p.pde i = if i = 768 then t + 3 else if i = 1023 then d + 3 else 0 := by
  rw [Paging.pde, h.cr3]
  exact h.directory i hi

theorem Paging.BootTables.pde_kernel : p.pde 768 = t + 3 := h.pde (i := 768) (by decide)

theorem Paging.BootTables.walk_none (hv : v < 2 ^ 32) (hk : v / 2 ^ 22 ≠ 768)
    (hr : v / 2 ^ 22 ≠ 1023) : p.walk v = none := by
  have hpde := h.pde (i := v / 2 ^ 22) (by omega)
  rw [if_neg hk, if_neg hr] at hpde
  rw [walk, hpde]
  exact if_neg (by decide)

theorem Paging.BootTables.walk_kernel (ht : t % 2 ^ 12 = 0) (ha : a < 2 ^ 22) :
    p.walk (kernelSpace + a) =
      if a / 2 ^ 12 < 256 ∨ lo ≤ a / 2 ^ 12 ∧ a / 2 ^ 12 < hi then some a else none := by
  have hoff : (kernelSpace + a) % 2 ^ 12 = a % 2 ^ 12 := by
    rw [kernelSpace]
    omega
  simp only [walk, kernelSpace_directory ha, kernelSpace_page ha, hoff, h.pde_kernel,
    entryBase_supervisor ht, entryPresent_supervisor ht, not_entryLarge_supervisor ht, if_true,
    if_false, h.table (a / 2 ^ 12) (by omega)]
  split
  · have hpage : a / 2 ^ 12 * 2 ^ 12 % 2 ^ 12 = 0 := Nat.mul_mod_left ..
    rw [if_pos (entryPresent_supervisor hpage), entryBase_supervisor hpage]
    exact congrArg some (by omega)
  · exact if_neg (by decide)

theorem Paging.BootTables.walk_window (hd : d % 2 ^ 12 = 0) (ht : t % 2 ^ 12 = 0) (hj : j < 2 ^ 10)
    (ho : o < 2 ^ 12) : p.walk (1023 * 2 ^ 22 + j * 2 ^ 12 + o) =
      if j = 768 then some (t + o) else if j = 1023 then some (d + o) else none := by
  have hv : (1023 * 2 ^ 22 + j * 2 ^ 12 + o) / 2 ^ 22 = 1023 := by omega
  have hpage : (1023 * 2 ^ 22 + j * 2 ^ 12 + o) / 2 ^ 12 % 2 ^ 10 = j := by omega
  have hoff : (1023 * 2 ^ 22 + j * 2 ^ 12 + o) % 2 ^ 12 = o := by omega
  have hpde := h.pde (i := 1023) (by decide)
  rw [if_neg (by decide), if_pos rfl] at hpde
  simp only [walk, hv, hpage, hoff, hpde, entryBase_supervisor hd, entryPresent_supervisor hd,
    not_entryLarge_supervisor hd, if_true, if_false, h.directory j hj]
  split
  · rw [if_pos (entryPresent_supervisor ht), entryBase_supervisor ht]
  · split
    · rw [if_pos (entryPresent_supervisor hd), entryBase_supervisor hd]
    · exact if_neg (by decide)

theorem Paging.BootTables.grants_kernel (ht : t % 2 ^ 12 = 0) (ha : a < 2 ^ 22)
    (hin : a / 2 ^ 12 < 256 ∨ lo ≤ a / 2 ^ 12 ∧ a / 2 ^ 12 < hi) :
    p.grants 1 (kernelSpace + a) ∧ ¬p.grants 2 (kernelSpace + a) := by
  have htable := h.table (a / 2 ^ 12) (by omega)
  rw [if_pos hin] at htable
  simp only [grants, kernelSpace_directory ha, kernelSpace_page ha, h.pde_kernel,
    entryBase_supervisor ht, htable]
  omega

end

/-- `paging_boot_init` sets up the address space of the kernel, whatever the tables held. -/
theorem pagingBootInit_space (p : Paging) (hstart : MB ≤ bootPaStart)
    (haligned : bootPaStart % 4096 = 0) (hend : bootPaStart < kernelPaEnd)
    (hsmall : kernelPaEnd < 2 * MB)
    (hkpgd : kernelSpace + bootPaStart ≤ kpgd ∧ kpgd < kernelSpace + kernelPaEnd)
    (hkpgt : kernelSpace + bootPaStart ≤ firstKpgt ∧ firstKpgt < kernelSpace + kernelPaEnd)
    (hpages : kpgd % 4096 = 0 ∧ firstKpgt % 4096 = 0) (hne : kpgd ≠ firstKpgt) :
    ∃ p', pagingBootInit kpgd firstKpgt bootPaStart kernelPaEnd p = .ok ((), p') ∧
      p'.cr3 = sub32 kpgd kernelSpace ∧
      p'.BootSpace kpgd firstKpgt bootPaStart kernelPaEnd := by
  have hMB : MB = 2 ^ 20 := by decide
  rw [hMB] at hstart hsmall
  have hspace : kernelSpace = 768 * 2 ^ 22 := by decide
  have hd : sub32 kpgd kernelSpace = kpgd - kernelSpace :=
    sub32_of_le (by omega) (by omega)
  have ht : sub32 firstKpgt kernelSpace = firstKpgt - kernelSpace :=
    sub32_of_le (by omega) (by omega)
  have hd' : (kpgd - kernelSpace) % 2 ^ 12 = 0 := by
    rw [hspace]
    omega
  have ht' : (firstKpgt - kernelSpace) % 2 ^ 12 = 0 := by
    rw [hspace]
    omega
  have hround : roundup kernelPaEnd ppageSize = (kernelPaEnd + 4095) / 4096 * 2 ^ 12 :=
    roundup_pages (by omega)
  have hoff : kpgd - kernelSpace ≠ firstKpgt - kernelSpace := by omega
  have hlo : bootPaStart = bootPaStart / 4096 * 2 ^ 12 := by omega
  have hle : bootPaStart / 4096 < (kernelPaEnd + 4095) / 4096 := by omega
  have hhi : (kernelPaEnd + 4095) / 4096 ≤ 2 ^ 10 := by omega
  obtain ⟨p', hrun, htables⟩ := pagingBootInit_tables p hd ht hd' ht' hoff hlo hround hle hhi
  have hmapped : ∀ a, BootMapped bootPaStart kernelPaEnd a ↔ a < 2 ^ 22 ∧ (a / 2 ^ 12 < 256 ∨
      bootPaStart / 4096 ≤ a / 2 ^ 12 ∧ a / 2 ^ 12 < (kernelPaEnd + 4095) / 4096) := by
    intro a
    rw [BootMapped, hMB, hround]
    omega
  refine ⟨p', hrun, htables.cr3.trans hd.symm, ?_, ?_, ?_⟩
  · intro a ha
    obtain ⟨hlt, hin⟩ := (hmapped a).mp ha
    rw [htables.walk_kernel ht' hlt, if_pos hin]
    exact ⟨rfl, htables.grants_kernel ht' hlt hin⟩
  · intro v hv hout
    by_cases hk : v / 2 ^ 22 = 768
    · obtain ⟨a, rfl⟩ : ∃ a, v = kernelSpace + a := ⟨v - kernelSpace, by omega⟩
      have hlt : a < 2 ^ 22 := by omega
      rw [htables.walk_kernel ht' hlt, if_neg]
      exact fun hin => hout a ((hmapped a).mpr ⟨hlt, hin⟩) rfl
    · exact htables.walk_none (by omega) hk (by omega)
  · intro j hj o ho
    rw [hd, ht]
    exact htables.walk_window hd' ht' hj ho

/-- An image of 64 pages with both tables at its end. -/
theorem pagingBootInit_space_small : ∃ p',
    pagingBootInit 0xC013E000 0xC013F000 0x100000 0x140000 ⟨fun _ => 0, 0⟩ = .ok ((), p') ∧
      p'.cr3 = sub32 0xC013E000 kernelSpace ∧
      p'.BootSpace 0xC013E000 0xC013F000 0x100000 0x140000 :=
  pagingBootInit_space ⟨fun _ => 0, 0⟩ (by decide) (by decide) (by decide) (by decide) (by decide)
    (by decide) (by decide) (by decide)

end Atros
