import Atros.SegmentDescriptors
import Atros.CpuContext

namespace Atros
set_option autoImplicit true

/-- `NBR_IDT_ENTRIES`. -/
def nbrIdtEntries : Nat := 256

/-- `SYSCALL_VECTOR`. -/
def syscallVector : Nat := 0x80

def idtInterrupt : BitVec 8 := 6
def idtDpl0 : BitVec 8 := 0
def idtDpl3 : BitVec 8 := 3 <<< 5
def idtPresent : BitVec 8 := 1 <<< 7
def idt32B : BitVec 8 := 1 <<< 3

/-- `struct Idt_entry`. -/
structure IdtEntry where
  offset_0_15 : BitVec 16
  segSelector : BitVec 16
  flags1 : BitVec 8
  flags2 : BitVec 8
  offset_16_31 : BitVec 16
  deriving DecidableEq, Repr

abbrev Idt := Fin nbrIdtEntries → IdtEntry

def setIdtEntry (n segSel offset : BitVec 32) (flags1 flags2 : BitVec 8) (idt : Idt) : Idt :=
  if h : n.toNat < nbrIdtEntries then
    Function.update idt ⟨n.toNat, h⟩ {
      offset_0_15 := (offset &&& 0xFFFF#32).setWidth 16
      segSelector := segSel.setWidth 16
      flags1 := flags1
      flags2 := flags2
      offset_16_31 := ((offset >>> 16) &&& 0xFFFF#32).setWidth 16 }
  else idt

def setIntrGate (n addr : BitVec 32) : Idt → Idt :=
  setIdtEntry n (kernelCs.setWidth 32) addr 0 (idtInterrupt ||| idtDpl0 ||| idtPresent ||| idt32B)

/-- The type is that of an interrupt gate, as in `set_intr_gate`. -/
def setSystemGate (n addr : BitVec 32) : Idt → Idt :=
  setIdtEntry n (kernelCs.setWidth 32) addr 0 (idtInterrupt ||| idtDpl3 ||| idtPresent ||| idt32B)

/-- The loop of `idt_init` over the vectors from `i` on. -/
def setIntrGates (isrEntries : Nat → BitVec 32) : Nat → Nat → Idt → Idt
  | 0, _, idt => idt
  | rounds + 1, i, idt =>
    setIntrGates isrEntries rounds (i + 1) (setIntrGate (BitVec.ofNat 32 i) (isrEntries i) idt)

/-- `idt_init`; the address and the size of the table go to the IDT register. -/
def idtInit (isrEntries : Nat → BitVec 32) (idt : Idt) : Idt :=
  let idt := setIntrGates isrEntries nbrIdtEntries 0 idt
  let idt := setSystemGate 3 (isrEntries 3) idt
  let idt := setSystemGate 4 (isrEntries 4) idt
  let idt := setSystemGate 5 (isrEntries 5) idt
  setSystemGate (BitVec.ofNat 32 syscallVector) (isrEntries syscallVector) idt

/-! ### What the processor reads -/

/-- A gate: the type with the S bit, 14 for a 32-bit interrupt gate and 15 for a 32-bit trap gate,
the privilege level and the P bit of its descriptor. -/
@[ext] structure Gate where
  offset : Nat
  selector : Nat
  type : Nat
  dpl : Nat
  present : Nat
  deriving DecidableEq, Repr

/-- The fields of an IA-32 gate descriptor, which is one little-endian number of 8 bytes. -/
def Gate.decode (w : Nat) : Gate where
  offset := w % 2 ^ 16 + w / 2 ^ 48 % 2 ^ 16 * 2 ^ 16
  selector := w / 2 ^ 16 % 2 ^ 16
  type := w / 2 ^ 40 % 2 ^ 5
  dpl := w / 2 ^ 45 % 2 ^ 2
  present := w / 2 ^ 47 % 2

/-- The bytes of a packed entry. -/
def IdtEntry.word (e : IdtEntry) : Nat :=
  e.offset_0_15.toNat + e.segSelector.toNat * 2 ^ 16 + e.flags1.toNat * 2 ^ 32 +
    e.flags2.toNat * 2 ^ 40 + e.offset_16_31.toNat * 2 ^ 48

def IdtEntry.gate (e : IdtEntry) : Gate := .decode e.word

def gateInterrupt : Nat := 14
def gateTrap : Nat := 15

theorem IdtEntry.gate_eq (e : IdtEntry) : e.gate =
    ⟨e.offset_0_15.toNat + e.offset_16_31.toNat * 2 ^ 16, e.segSelector.toNat,
      e.flags2.toNat % 2 ^ 5, e.flags2.toNat / 2 ^ 5 % 2 ^ 2, e.flags2.toNat / 2 ^ 7⟩ := by
  have h₁ := e.offset_0_15.isLt
  have h₂ := e.segSelector.isLt
  have h₃ := e.flags1.isLt
  have h₄ := e.flags2.isLt
  have h₅ := e.offset_16_31.isLt
  unfold gate Gate.decode word
  ext1 <;> simp only <;> omega

theorem setIdtEntry_gate (h : n.toNat < nbrIdtEntries) (segSel offset : BitVec 32)
    (flags1 flags2 : BitVec 8) (idt : Idt) :
    (setIdtEntry n segSel offset flags1 flags2 idt ⟨n.toNat, h⟩).gate =
      ⟨offset.toNat, segSel.toNat % 2 ^ 16, flags2.toNat % 2 ^ 5, flags2.toNat / 2 ^ 5 % 2 ^ 2,
        flags2.toNat / 2 ^ 7⟩ := by
  have hlow : ((offset &&& 0xFFFF#32).setWidth 16).toNat = offset.toNat % 2 ^ 16 :=
    mask_toNat offset 16 (by decide)
  have hhigh : (((offset >>> 16) &&& 0xFFFF#32).setWidth 16).toNat =
      offset.toNat / 2 ^ 16 % 2 ^ 16 := shifted_mask_toNat offset 16 16 (by decide)
  have hoffset := offset.isLt
  rw [setIdtEntry, dif_pos h, Function.update_self, IdtEntry.gate_eq]
  simp only [hlow, hhigh, BitVec.toNat_setWidth]
  ext1 <;> simp only
  omega

theorem setIdtEntry_others (n segSel offset : BitVec 32) (flags1 flags2 : BitVec 8) (idt : Idt)
    (hi : i.val ≠ n.toNat) : setIdtEntry n segSel offset flags1 flags2 idt i = idt i := by
  rw [setIdtEntry]
  split
  · exact Function.update_of_ne (fun h => hi (congrArg Fin.val h)) _ _
  · rfl

/-! ### The gates of the kernel -/

/-- The gate that leads to a handler of the kernel. -/
def kernelGate (addr : BitVec 32) (dpl : Nat) : Gate :=
  ⟨addr.toNat, kernelCs.toNat, gateInterrupt, dpl, 1⟩

theorem ofNat_toNat (h : i < nbrIdtEntries) : (BitVec.ofNat 32 i).toNat = i := by
  rw [BitVec.toNat_ofNat, Nat.mod_eq_of_lt (Nat.lt_trans h (by decide))]

theorem setIdtEntry_apply (hn : n < nbrIdtEntries) (addr : BitVec 32) (flags2 : BitVec 8)
    (idt : Idt) (i : Fin nbrIdtEntries) :
    (setIdtEntry (BitVec.ofNat 32 n) (kernelCs.setWidth 32) addr 0 flags2 idt i).gate =
      if i.val = n then ⟨addr.toNat, kernelCs.toNat, flags2.toNat % 2 ^ 5,
        flags2.toNat / 2 ^ 5 % 2 ^ 2, flags2.toNat / 2 ^ 7⟩
      else (idt i).gate := by
  have htoNat := ofNat_toNat hn
  split
  · obtain ⟨i, hi⟩ := i
    obtain rfl : i = n := ‹_›
    have hset := setIdtEntry_gate (htoNat.symm ▸ hn) (kernelCs.setWidth 32) addr 0 flags2 idt
    simp only [htoNat] at hset
    exact hset
  · rw [setIdtEntry_others]
    rw [htoNat]
    assumption

theorem setIntrGate_apply (hn : n < nbrIdtEntries) (addr : BitVec 32) (idt : Idt)
    (i : Fin nbrIdtEntries) : (setIntrGate (BitVec.ofNat 32 n) addr idt i).gate =
      if i.val = n then kernelGate addr 0 else (idt i).gate :=
  setIdtEntry_apply hn addr _ idt i

theorem setSystemGate_apply (hn : n < nbrIdtEntries) (addr : BitVec 32) (idt : Idt)
    (i : Fin nbrIdtEntries) : (setSystemGate (BitVec.ofNat 32 n) addr idt i).gate =
      if i.val = n then kernelGate addr 3 else (idt i).gate :=
  setIdtEntry_apply hn addr _ idt i

theorem setIntrGates_apply (isrEntries : Nat → BitVec 32) (hi : i + rounds = nbrIdtEntries)
    (idt : Idt) (j : Fin nbrIdtEntries) : (setIntrGates isrEntries rounds i idt j).gate =
      if i ≤ j.val then kernelGate (isrEntries j) 0 else (idt j).gate := by
  induction rounds generalizing i idt with
  | zero =>
    have hj := j.isLt
    exact (if_neg (by omega)).symm
  | succ rounds ih =>
    rw [setIntrGates, ih (by omega), setIntrGate_apply (by omega)]
    rcases Nat.lt_trichotomy j.val i with hlt | heq | hgt
    · rw [if_neg (by omega), if_neg (by omega), if_neg (by omega)]
    · rw [if_neg (by omega), if_pos heq, if_pos (by omega), heq]
    · rw [if_pos (by omega), if_pos (by omega)]

/-- The vectors that a program in ring 3 can raise with `int`. -/
def systemVectors : List Nat := [3, 4, 5, syscallVector]

/-- After `idt_init` every vector leads to its handler through an interrupt gate, whatever the table
held. -/
theorem idtInit_gate (isrEntries : Nat → BitVec 32) (idt : Idt) (n : Fin nbrIdtEntries) :
    (idtInit isrEntries idt n).gate =
      kernelGate (isrEntries n) (if n.val ∈ systemVectors then 3 else 0) := by
  have hloop := setIntrGates_apply isrEntries (i := 0) (Nat.zero_add nbrIdtEntries) idt n
  rw [if_pos (Nat.zero_le _)] at hloop
  unfold idtInit
  rw [setSystemGate_apply (by decide)]
  refine Eq.trans (if_congr Iff.rfl rfl (setSystemGate_apply (n := 5) (by decide) _ _ n)) ?_
  refine Eq.trans (if_congr Iff.rfl rfl (if_congr Iff.rfl rfl
    (setSystemGate_apply (n := 4) (by decide) _ _ n))) ?_
  refine Eq.trans (if_congr Iff.rfl rfl (if_congr Iff.rfl rfl (if_congr Iff.rfl rfl
    (setSystemGate_apply (n := 3) (by decide) _ _ n)))) ?_
  rw [hloop]
  by_cases hsystem : n.val ∈ systemVectors
  · rw [if_pos hsystem]
    simp only [systemVectors, List.mem_cons, List.not_mem_nil, or_false] at hsystem
    rcases hsystem with h | h | h | h <;> simp [h, syscallVector]
  · rw [if_neg hsystem]
    simp only [systemVectors, List.mem_cons, List.not_mem_nil, or_false, not_or] at hsystem
    obtain ⟨h₃, h₄, h₅, h₈⟩ := hsystem
    rw [if_neg h₈, if_neg h₅, if_neg h₄, if_neg h₃]

end Atros
