import Mathlib.Data.Nat.Bitwise
import Atros.Word
import Atros.Program
import Atros.Panic

namespace Atros
set_option autoImplicit true

/-- The physical memory seen by the paging unit, as the 32-bit words at 4-aligned physical
addresses, and the register CR3. -/
structure Paging where
  pmem : Nat → Nat
  cr3 : Nat

def pagePresent : Nat := 1
def pageReadWrite : Nat := 2
def pageSupervisor : Nat := 0
def page4MB : Nat := 128
def pageGlobal : Nat := 256

/-- The entry for recursive paging. -/
def recPagingEntry : Nat := 1023

def KB : Nat := 1024
def MB : Nat := KB * KB

def getPdeIndexOf (vaddr : Nat) : Nat := vaddr >>> 22
def getPteIndexOf (vaddr : Nat) : Nat := (vaddr >>> 12) &&& ((1 <<< 10) - 1)
def getAddrOfPte (pte : Nat) : Nat := 0xFFFFF000 &&& pte
def getAddrOfPde (pde : Nat) : Nat := 0xFFFFF000 &&& pde

def ppnToPaddr (ppn : Nat) : Nat := (ppn <<< 12) % 2 ^ 32
def paddrToPpn (paddr : Nat) : Nat := paddr >>> 12
def vpnToVaddr (vpn : Nat) : Nat := (vpn <<< 12) % 2 ^ 32
def vaddrToVpn (vaddr : Nat) : Nat := vaddr >>> 12

/-- The base address of the page or table that a directory or table entry points to. -/
def entryBase (entry : Nat) : Nat := entry / 2 ^ 12 * 2 ^ 12

def entryPresent (entry : Nat) : Prop := entry % 2 = 1

def entryLarge (entry : Nat) : Prop := entry / 2 ^ 7 % 2 = 1

instance (entry : Nat) : Decidable (entryPresent entry) := inferInstanceAs (Decidable (_ = _))
instance (entry : Nat) : Decidable (entryLarge entry) := inferInstanceAs (Decidable (_ = _))

def Paging.pde (p : Paging) (i : Nat) : Nat := p.pmem (p.cr3 + 4 * i)

/-- The IA-32 translation of a linear address with 4 KB pages and, in the directory, 4 MB
pages. -/
def Paging.walk (p : Paging) (vaddr : Nat) : Option Nat :=
  let pde := p.pde (vaddr / 2 ^ 22)
  if entryPresent pde then
    if entryLarge pde then
      some (pde / 2 ^ 22 * 2 ^ 22 + vaddr % 2 ^ 22)
    else
      let pte := p.pmem (entryBase pde + 4 * (vaddr / 2 ^ 12 % 2 ^ 10))
      if entryPresent pte then some (entryBase pte + vaddr % 2 ^ 12) else none
  else
    none

/-- A read of the word at a virtual address. -/
def readWord (vaddr : Nat) : Prog Panic Paging Nat := do
  let p ← get
  let paddr ← deref (p.walk vaddr) .pageFault
  return p.pmem paddr

/-- A write to a virtual address. The kernel runs with CR0.WP clear, so a supervisor write
needs no write permission. -/
def writeWord (vaddr value : Nat) : Prog Panic Paging Unit := do
  let p ← get
  let paddr ← deref (p.walk vaddr) .pageFault
  set { p with pmem := Function.update p.pmem paddr value }

def getPde (pdeIndex : Nat) : Prog Panic Paging Nat :=
  readWord ((recPagingEntry * 4 * MB + recPagingEntry * 4 * KB + pdeIndex * 4) % 2 ^ 32)

def setPte (pdeIndex pteIndex aPte : Nat) : Prog Panic Paging Unit :=
  writeWord ((recPagingEntry * 4 * MB + pdeIndex * 4 * KB + pteIndex * 4) % 2 ^ 32) aPte

def getPte (pdeIndex pteIndex : Nat) : Prog Panic Paging Nat :=
  readWord ((recPagingEntry * 4 * MB + pdeIndex * 4 * KB + pteIndex * 4) % 2 ^ 32)

/-- The physical address of a virtual one, 0 if there is none. -/
def virtToPhysAddr (vaddr : Nat) : Prog Panic Paging Nat := do
  let pdeIndex := getPdeIndexOf vaddr
  let pteIndex := getPteIndexOf vaddr
  let pde ← getPde pdeIndex
  if pde &&& pagePresent ≠ 0 then
    if pde &&& page4MB = 0 then
      let pte ← getPte pdeIndex pteIndex
      if pte &&& pagePresent ≠ 0 then
        return add32 (getAddrOfPte pte) (vaddr &&& ((1 <<< 12) - 1))
      else
        return 0
    else
      return add32 (getAddrOfPde pde) (vaddr &&& ((1 <<< 22) - 1))
  else
    return 0

def mapPage (ppn vpn flags : Nat) : Prog Panic Paging Unit := do
  let paddr := ppnToPaddr ppn
  let vaddr := vpnToVaddr vpn
  check (vaddr ≠ 0) .mapNullPage
  let pdeIndex := getPdeIndexOf vaddr
  let pteIndex := getPteIndexOf vaddr
  check (flags &&& page4MB = 0) .page4MBNotHandled
  let pde ← getPde pdeIndex
  check (pde &&& pagePresent ≠ 0) .pageTableNotPresent
  -- `invlpg` only drops a cached translation
  setPte pdeIndex pteIndex (paddr ||| flags)

def mapPagesLoop : Nat → Nat → Nat → Nat → Prog Panic Paging Unit
  | 0, _, _, _ => pure ()
  | nbrPages + 1, ppn, vpn, flags => do
    mapPage ppn vpn flags
    mapPagesLoop nbrPages (add32 ppn 1) (add32 vpn 1) flags

def mapPages (ppn vpn nbrPages flags : Nat) : Prog Panic Paging Unit := do
  check (vpn ≠ 0) .mapNullPage
  mapPagesLoop nbrPages ppn vpn flags

attribute [irreducible] mapPages

/-! ### Words, masks and indices -/

theorem and_one_ne_zero_iff (e : Nat) : e &&& pagePresent ≠ 0 ↔ entryPresent e := by
  have h : e &&& pagePresent = e % 2 := Nat.and_two_pow_sub_one_eq_mod e 1
  rw [h, entryPresent]
  omega

theorem and_page4MB_eq_zero_iff (e : Nat) : e &&& page4MB = 0 ↔ ¬entryLarge e := by
  have h : e &&& page4MB = (e.testBit 7).toNat * 2 ^ 7 := Nat.and_two_pow e 7
  rw [h, entryLarge, Nat.testBit_eq_decide_div_mod_eq]
  by_cases hb : e / 2 ^ 7 % 2 = 1 <;> simp

theorem mask_base (h : e < 2 ^ 32) : 0xFFFFF000 &&& e = entryBase e := by
  apply Nat.eq_of_testBit_eq
  intro i
  have hmask : (0xFFFFF000 : Nat) = (2 ^ 20 - 1) * 2 ^ 12 := rfl
  rw [entryBase, Nat.testBit_and, hmask, ← Nat.shiftLeft_eq, ← Nat.shiftLeft_eq,
    ← Nat.shiftRight_eq_div_pow, Nat.testBit_shiftLeft, Nat.testBit_shiftLeft,
    Nat.testBit_two_pow_sub_one, Nat.testBit_shiftRight]
  by_cases hi : 12 ≤ i
  · rw [Nat.add_sub_cancel' hi]
    by_cases hi' : i - 12 < 20
    · simp [hi, hi']
    · have hz : e.testBit i = false :=
        Nat.testBit_lt_two_pow (Nat.lt_of_lt_of_le h (Nat.pow_le_pow_right (by omega) (by omega)))
      simp [hz]
  · simp [hi]

theorem pteIndex_eq (vaddr : Nat) : getPteIndexOf vaddr = vaddr / 2 ^ 12 % 2 ^ 10 := by
  rw [getPteIndexOf, Nat.one_shiftLeft, Nat.and_two_pow_sub_one_eq_mod,
    Nat.shiftRight_eq_div_pow]

theorem pdeIndex_eq (vaddr : Nat) : getPdeIndexOf vaddr = vaddr / 2 ^ 22 :=
  Nat.shiftRight_eq_div_pow vaddr 22

theorem base_or_flags (h : flags < 2 ^ 12) : f * 2 ^ 12 ||| flags = f * 2 ^ 12 + flags := by
  rw [Nat.mul_comm, Nat.two_pow_add_eq_or_of_lt h]

theorem entryBase_add (h : flags < 2 ^ 12) : entryBase (f * 2 ^ 12 + flags) = f * 2 ^ 12 := by
  rw [entryBase]
  omega

theorem entryBase_add32 (he : e < 2 ^ 32) (ho : o < 2 ^ 12) :
    add32 (entryBase e) o = entryBase e + o := by
  apply add32_of_lt
  rw [entryBase]
  omega

theorem entryPresent_add : entryPresent (f * 2 ^ 12 + flags) ↔ entryPresent flags := by
  rw [entryPresent, entryPresent]
  omega

end Atros
