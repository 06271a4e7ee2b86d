import Atros.PagingSwitch
import Atros.Kernel

namespace Atros
set_option autoImplicit true

/-! ### bootloader_info.c -/

def multibootBootloaderMagic : Nat := 0x2BADB002
def multiboot2BootloaderMagic : Nat := 0x36D76289

/-- The variables of the file, what has been printed, and the memory. -/
structure Loader where
  bootloaderMagic : Nat
  bootloaderInfo : Nat
  printed : List String
  paging : Paging

/-- The panics of `retrieve_bootloader_info`. -/
inductive LoaderPanic
  | grub2NotSupported
  | notMultiboot
  deriving DecidableEq, Repr

def bootGetVirtualAddressOf (paddr : Nat) : Nat := add32 paddr kernelSpace

def loaderPrint (line : String) : Prog LoaderPanic Loader Unit :=
  modify fun s => { s with printed := s.printed ++ [line] }

def retrieveBootloaderInfo (magic bootInfo : Nat) : Prog LoaderPanic Loader Unit := do
  let bootInfo := bootGetVirtualAddressOf bootInfo
  modify fun s => { s with bootloaderMagic := magic, bootloaderInfo := bootInfo }
  if magic = multibootBootloaderMagic then
    loaderPrint "AtrOS was loaded by GRUB\n"
  else if magic = multiboot2BootloaderMagic then
    loaderPrint "AtrOS was loaded by GRUB2\n"
    throw .grub2NotSupported
  else
    throw .notMultiboot

/-- A word at a virtual address. -/
def loaderWord (vaddr : Nat) : Prog Panic Loader Nat :=
  onPart Loader.paging (fun s p => { s with paging := p }) (readWord vaddr)

def bootInfoGetMemUpper : Prog Panic Loader Nat := do
  let s ← get
  if s.bootloaderMagic = multibootBootloaderMagic then
    loaderWord (add32 s.bootloaderInfo 8)
  else
    return 0

def bootInfoGetModulesCount : Prog Panic Loader Nat := do
  let s ← get
  if s.bootloaderMagic = multibootBootloaderMagic then
    loaderWord (add32 s.bootloaderInfo 20)
  else
    return 0

/-- `boot_info_get_module`, which yields the start and the end of the module. -/
def bootInfoGetModule (modNumber : Nat) : Prog Panic Loader (Nat × Nat) := do
  let s ← get
  if s.bootloaderMagic = multibootBootloaderMagic then
    let modsCount ← loaderWord (add32 s.bootloaderInfo 20)
    if modsCount > modNumber then
      let modules := bootGetVirtualAddressOf (← loaderWord (add32 s.bootloaderInfo 24))
      let modStart ← loaderWord (add32 modules (mul32 modNumber 16))
      let modEnd ← loaderWord (add32 (add32 modules (mul32 modNumber 16)) 4)
      return (modStart, modEnd)
    else
      return (0, 0)
  else
    return (0, 0)

/-! ### The modules of the loader -/

/-- The Multiboot information at the physical address `info`: the memory above 1 MB, and the
modules that it lists from `modsAddr` on, each with its start and its end. Both are aligned, so that
none of their words crosses a page, and lie in the first 4 MB. -/
structure Paging.LoaderInfo (p : Paging) (info memUpper modsAddr : Nat) (mods : List (Nat × Nat)) :
    Prop where
  info_aligned : info % 4 = 0
  info_end : info + 28 ≤ 4 * MB
  mods_aligned : modsAddr % 4 = 0
  mods_end : modsAddr + 16 * mods.length ≤ 4 * MB
  modsAddr_lt : modsAddr < 4 * MB
  memUpper : p.pmem (info + 8) = memUpper
  modsCount : p.pmem (info + 20) = mods.length
  listAddr : p.pmem (info + 24) = modsAddr
  modules : ∀ n m, mods[n]? = some m → p.pmem (modsAddr + 16 * n) = m.1 ∧
    p.pmem (modsAddr + 16 * n + 4) = m.2

instance (bootPaStart kernelPaEnd a : Nat) : Decidable (BootMapped bootPaStart kernelPaEnd a) :=
  inferInstanceAs (Decidable (_ ∨ _))

theorem readWord_absent {p : Paging} (h : p.walk vaddr = none) :
    readWord vaddr p = .error .pageFault := by
  unfold readWord
  rw [bind_get, h]
  rfl

theorem bootGetVirtualAddressOf_eq (ha : a < 4 * MB) :
    bootGetVirtualAddressOf a = kernelSpace + a := by
  have hMB : MB = 2 ^ 20 := by decide
  have hspace : kernelSpace = 768 * 2 ^ 22 := by decide
  rw [bootGetVirtualAddressOf, add32_of_lt (by omega), Nat.add_comm]

section
variable {s : Loader} {bootPaStart kernelPaEnd : Nat}
  (hspace : s.paging.BootSpace kpgd firstKpgt bootPaStart kernelPaEnd) (ha : a + o < 4 * MB)
include hspace ha

/-- A word of the physical memory is seen where the kernel's space maps it, and nowhere else. -/
theorem loaderWord_eq : loaderWord (add32 (kernelSpace + a) o) s =
    if BootMapped bootPaStart kernelPaEnd (a + o) then .ok (s.paging.pmem (a + o), s)
    else .error .pageFault := by
  have hMB : MB = 2 ^ 20 := by decide
  have hspace' : kernelSpace = 768 * 2 ^ 22 := by decide
  rw [add32_of_lt (by omega), Nat.add_assoc]
  split
  · exact onPart_ok (readWord_eq (hspace.image _ ‹_›).1)
  · have hwalk : s.paging.walk (kernelSpace + (a + o)) = none := by
      refine hspace.others _ (by omega) fun b hb heq => ?_
      obtain rfl : b = a + o := by omega
      exact absurd hb ‹_›
    rw [loaderWord, onPart, readWord_absent hwalk]

theorem loaderWord_mapped (hm : BootMapped bootPaStart kernelPaEnd (a + o)) :
    loaderWord (add32 (kernelSpace + a) o) s = .ok (s.paging.pmem (a + o), s) :=
  (loaderWord_eq hspace ha).trans (if_pos hm)

end

theorem loaderEntry_eq {s : Loader} {bootPaStart kernelPaEnd : Nat}
    (hspace : s.paging.BootSpace kpgd firstKpgt bootPaStart kernelPaEnd)
    (ha : a + 16 * n + 4 < 4 * MB) :
    (do
      let modStart ← loaderWord (add32 (kernelSpace + a) (mul32 n 16))
      let modEnd ← loaderWord (add32 (add32 (kernelSpace + a) (mul32 n 16)) 4)
      return (modStart, modEnd) : Prog Panic Loader (Nat × Nat)) s =
      if BootMapped bootPaStart kernelPaEnd (a + 16 * n) ∧
        BootMapped bootPaStart kernelPaEnd (a + 16 * n + 4)
      then .ok ((s.paging.pmem (a + 16 * n), s.paging.pmem (a + 16 * n + 4)), s)
      else .error .pageFault := by
  have hMB : MB = 2 ^ 20 := by decide
  have hspace' : kernelSpace = 768 * 2 ^ 22 := by decide
  have hoff : mul32 n 16 = 16 * n := by
    rw [mul32_of_lt (by omega), Nat.mul_comm]
  have haddr : add32 (kernelSpace + a) (16 * n) = kernelSpace + (a + 16 * n) := by
    rw [add32_of_lt (by omega), Nat.add_assoc]
  have hstart := loaderWord_eq hspace (a := a) (o := 16 * n) (by omega)
  have hend := loaderWord_eq hspace (a := a + 16 * n) (o := 4) ha
  rw [haddr] at hstart
  rw [hoff, haddr]
  by_cases hlo : BootMapped bootPaStart kernelPaEnd (a + 16 * n)
  · rw [if_pos hlo] at hstart
    rw [bind_ok hstart]
    by_cases hhi : BootMapped bootPaStart kernelPaEnd (a + 16 * n + 4)
    · rw [if_pos hhi] at hend
      rw [bind_ok hend, if_pos ⟨hlo, hhi⟩]
      rfl
    · rw [if_neg hhi] at hend
      rw [bind_error hend, if_neg fun hc => hhi hc.2]
  · rw [if_neg hlo] at hstart
    rw [bind_error hstart, if_neg fun hc => hlo hc.1]

/-- The tables of an image of 64 pages, and two modules that the loader lists at `0xA000`. -/
def loadedPaging : Paging where
  pmem a :=
    if a / 4096 = 0x13E then
      if a % 4096 = 4 * 768 then 0x13F003 else if a % 4096 = 4 * 1023 then 0x13E003 else 0
    else if a / 4096 = 0x13F then
      if a % 4096 / 4 < 320 then a % 4096 / 4 * 4096 + 3 else 0
    else if a = 0x9014 then 2
    else if a = 0x9018 then 0xA000
    else if a = 0xA000 then 0x150000
    else if a = 0xA004 then 0x151000
    else if a = 0xA010 then 0x160000
    else if a = 0xA014 then 0x161000
    else 0
  cr3 := 0x13E000

theorem loadedPaging_space : loadedPaging.BootSpace 0xC013E000 0xC013F000 0x100000 0x140000 := by
  have hd : sub32 0xC013E000 kernelSpace = 0x13E000 := by decide
  have ht : sub32 0xC013F000 kernelSpace = 0x13F000 := by decide
  refine Paging.BootTables.space ?_ (hd ▸ rfl) (ht ▸ rfl) (by decide) (by decide)
  rw [hd, ht, show 0x100000 / 4096 = 256 by decide, show (0x140000 + 4095) / 4096 = 320 by decide]
  refine ⟨rfl, fun i hi => ?_, fun i hi => ?_⟩
  · simp only [loadedPaging]
    split_ifs <;> omega
  · simp only [loadedPaging]
    split_ifs <;> omega

theorem loadedPaging_info : loadedPaging.LoaderInfo 0x9000 0 0xA000
    [(0x150000, 0x151000), (0x160000, 0x161000)] := by
  refine ⟨by decide, by decide, by decide, by decide, by decide, by decide, by decide, by decide,
    fun n m hm => ?_⟩
  match n with
  | 0 =>
    cases hm
    exact ⟨by decide, by decide⟩
  | 1 =>
    cases hm
    exact ⟨by decide, by decide⟩
  | n + 2 => exact nomatch hm

end Atros
