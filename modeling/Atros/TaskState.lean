import Atros.CpuContext
import Atros.SegmentDescriptors
import Atros.Word

namespace Atros
set_option autoImplicit true

def gdtTssIndex : Nat := 5

def gdtTssSegment : BitVec 8 := 9
def gdtPresent : BitVec 8 := 0x80
def gdtDpl3 : BitVec 8 := 0x60

/-- The offset of `iomap` in `struct Tss`, and its length. -/
def offsetofIomap : Nat := 104
def iomapLength : Nat := 8192

/-- `sizeof(struct Tss)`. -/
def sizeofTss : Nat := offsetofIomap + iomapLength

/-- `struct Tss`, of which the kernel uses some of the fields. -/
structure Tss where
  esp0 : BitVec 32
  ss0 : BitVec 32
  debugTrapFlag : BitVec 16
  iomapbase : BitVec 16
  iomap : Fin iomapLength → BitVec 8

/-- The tables with the register that selects the task state segment. -/
structure TaskState where
  kgdt : Gdt
  ktss : Tss
  taskRegister : BitVec 16

def loadTss (tssSelector : BitVec 32) (s : TaskState) : TaskState :=
  if (tssSelector >>> 3).toNat ≤ nbrGdtEntries then
    { s with taskRegister := tssSelector.setWidth 16 }
  else s

/-- `ktss` is the address of the structure, `kernelStackPa` that of the kernel stack; the source
zeroes the structure and then fills the fields in. -/
def tssInit (ktss kernelStackPa : BitVec 32) (s : TaskState) : TaskState :=
  loadTss (BitVec.ofNat 32 (gdtTssIndex <<< 3) ||| 0) { s with
    kgdt := setGdtEntry (BitVec.ofNat 32 gdtTssIndex) ktss (ktss + BitVec.ofNat 32 sizeofTss)
      (gdtTssSegment ||| gdtPresent ||| gdtDpl3) 0 s.kgdt
    ktss :=
      { esp0 := kernelStackPa + BitVec.ofNat 32 kernelSpace
        ss0 := kernelDs.setWidth 32
        debugTrapFlag := 0
        iomapbase := 104
        iomap := fun _ => 0xFF } }

/-! ### The segment of the task state -/

/-- The segment of the descriptor at the index of the task state segment. -/
def TaskState.segment (s : TaskState) : Segment := (s.kgdt ⟨gdtTssIndex, by decide⟩).segment

/-- Bit 3 of the attributes counts the limit in pages. -/
def Segment.byteGranular (d : Segment) : Prop := d.attributes / 2 ^ 3 % 2 = 0

/-- The segment is the structure at `ktss` and nothing else, and every permission byte in it
denies its ports. -/
structure TaskState.Covers (s : TaskState) (ktss : BitVec 32) : Prop where
  base : s.segment.base = ktss.toNat
  limit : s.segment.limit = sizeofTss - 1
  granularity : s.segment.byteGranular
  access : s.segment.access = (gdtTssSegment ||| gdtPresent ||| gdtDpl3).toNat
  denied : ∀ port < 2 ^ 16, s.ktss.iomapbase.toNat + port / 8 ≤ s.segment.limit →
    ∃ i : Fin iomapLength, s.ktss.iomapbase.toNat + port / 8 = offsetofIomap + i ∧
      (s.ktss.iomap i).getLsbD (port % 8)

theorem loadTss_segment (sel : BitVec 32) (s : TaskState) :
    (loadTss sel s).segment = s.segment := by
  rw [loadTss]
  split <;> rfl

theorem tssInit_segment (ktss kernelStackPa : BitVec 32) (s : TaskState) :
    (tssInit ktss kernelStackPa s).segment =
      ⟨ktss.toNat, (ktss.toNat + sizeofTss) % 2 ^ 20,
        (gdtTssSegment ||| gdtPresent ||| gdtDpl3).toNat,
        (ktss.toNat + sizeofTss) / 2 ^ 20 % 2 ^ 4⟩ := by
  have hlimit : (ktss + BitVec.ofNat 32 sizeofTss).toNat = (ktss.toNat + sizeofTss) % 2 ^ 32 := by
    rw [BitVec.toNat_add]
    rfl
  have hzero : (0 : BitVec 8).toNat = 0 := rfl
  rw [tssInit, loadTss_segment]
  refine (setGdtEntry_segment (n := BitVec.ofNat 32 gdtTssIndex) (by decide) _ _ _ _ _).trans ?_
  rw [hlimit, hzero, Nat.zero_mod, Nat.zero_div, Nat.zero_or, Nat.zero_or]
  ext1 <;> simp only <;> omega

/-- Where the structure is on a page boundary, the segment never ends with it. -/
theorem tssInit_never_covers (ktss kernelStackPa : BitVec 32) (s : TaskState)
    (hktss : ktss.toNat % 4096 = 0) : ¬(tssInit ktss kernelStackPa s).Covers ktss := by
  intro h
  have hlimit := h.limit
  rw [tssInit_segment, sizeofTss, offsetofIomap, iomapLength] at hlimit
  simp only at hlimit
  omega

/-- A state before `tss_init`. -/
def bootTaskState : TaskState := ⟨fun _ => ⟨0, 0, 0, 0, 0, 0⟩, ⟨0, 0, 0, 0, fun _ => 0⟩, 0⟩

theorem tssInit_never_covers_aligned :
    ¬(tssInit 0xC0108000 0x105000 bootTaskState).Covers 0xC0108000 :=
  tssInit_never_covers 0xC0108000 0x105000 bootTaskState (by decide)

/-- At `0xC0108000` the limit is `0xA068`, past the 8296 bytes of the structure. -/
theorem tssInit_covers_more : (tssInit 0xC0108000 0x105000 bootTaskState).segment.limit = 0xA068 ∧
    ¬(tssInit 0xC0108000 0x105000 bootTaskState).Covers 0xC0108000 :=
  ⟨by decide, fun h => absurd h.limit (by decide)⟩

end Atros
