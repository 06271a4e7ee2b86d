import Atros.Program
import Atros.StackWords

namespace Atros
set_option autoImplicit true

/-! ### The processor -/

/-- Bit 1 of the flags is always set, and the other reserved bits are always clear. -/
def fixedFlags (w : BitVec 32) : BitVec 32 := w &&& 0x3F7FD7 ||| 2

structure Eflags where
  bits : BitVec 32
  fixed : fixedFlags bits = bits

theorem fixedFlags_fixed (w : BitVec 32) : fixedFlags (fixedFlags w) = fixedFlags w := by
  unfold fixedFlags
  ext i hi
  simp only [BitVec.getElem_or, BitVec.getElem_and]
  grind

/-- The flags after a load of a word. -/
def Eflags.load (w : BitVec 32) : Eflags := ⟨fixedFlags w, fixedFlags_fixed w⟩

@[simp] theorem Eflags.load_bits (f : Eflags) : load f.bits = f := by
  cases f with
  | mk bits fixed =>
    rw [load]
    congr

def Eflags.clear (f : Eflags) (flags : BitVec 32) : Eflags := load (f.bits &&& ~~~flags)

/-- The registers of an IA-32 processor in protected mode with flat segments, and the memory. -/
structure Cpu where
  eax : BitVec 32
  ecx : BitVec 32
  edx : BitVec 32
  ebx : BitVec 32
  esp : BitVec 32
  ebp : BitVec 32
  esi : BitVec 32
  edi : BitVec 32
  eip : BitVec 32
  eflags : Eflags
  cs : BitVec 16
  ss : BitVec 16
  ds : BitVec 16
  es : BitVec 16
  fs : BitVec 16
  gs : BitVec 16
  mem : Mem32

/-- How an instruction can fail to go on to the next one. -/
inductive CpuFault
  | generalProtection
  /-- `iret` with `NT` set. -/
  | taskReturn
  /-- `iret` with `VM` set in the flags it pops. -/
  | virtual8086
  deriving DecidableEq, Repr

def kernelCs : BitVec 16 := 1 <<< 3
def kernelDs : BitVec 16 := 2 <<< 3

def rpl (sel : BitVec 16) : Nat := sel.toNat % 4

/-- A null selector; the kernel has no local descriptor table. -/
def isNull (sel : BitVec 16) : Bool := sel.toNat < 4

/-- What the entry code relies on of the processor and of the GDT. -/
structure Processor where
  /-- The privilege level of the data segment that a selector names. -/
  dpl : BitVec 16 → Nat
  /-- The word that the push of a selector leaves in place of another. Some processors clear its
  upper half, others do not write it. -/
  pushed : BitVec 32 → BitVec 16 → BitVec 32
  pushed_selector : ∀ w sel, (pushed w sel).setWidth 16 = sel
  kernelDs_dpl : dpl kernelDs = 0

variable (c : Processor)

/-- A data segment register takes a selector at privilege level `cpl`. -/
def Processor.Loads (cpl : Nat) (sel : BitVec 16) : Prop :=
  isNull sel = true ∨ max cpl (rpl sel) ≤ c.dpl sel

instance : Decidable (c.Loads cpl sel) := inferInstanceAs (Decidable (_ ∨ _))

/-- What a return to an outer level leaves in a data segment register. -/
def Processor.outward (cpl : Nat) (sel : BitVec 16) : BitVec 16 :=
  if isNull sel = true ∨ c.dpl sel < cpl then 0 else sel

/-! ### Instructions -/

def Cpu.push (s : Cpu) (w : BitVec 32) : Cpu :=
  { s with mem := s.mem.setWord (s.esp - 4) w, esp := s.esp - 4 }

def push (w : BitVec 32) : Prog CpuFault Cpu Unit := modify fun s => s.push w

def pushSelector (sel : BitVec 16) : Prog CpuFault Cpu Unit := do
  let s ← get
  push (c.pushed (s.mem.word (s.esp - 4)) sel)

def pop : Prog CpuFault Cpu (BitVec 32) := do
  let s ← get
  modify fun s => { s with esp := s.esp + 4 }
  return s.mem.word s.esp

def pusha : Prog CpuFault Cpu Unit := do
  let s ← get
  push s.eax
  push s.ecx
  push s.edx
  push s.ebx
  push s.esp
  push s.ebp
  push s.esi
  push s.edi

/-- The value that `pusha` pushed for `esp` is skipped. -/
def popa : Prog CpuFault Cpu Unit := do
  let edi ← pop
  let esi ← pop
  let ebp ← pop
  let _ ← pop
  let ebx ← pop
  let edx ← pop
  let ecx ← pop
  let eax ← pop
  modify fun s => { s with edi, esi, ebp, ebx, edx, ecx, eax }

/-- A load of a data segment register. -/
def loadSegment (set : BitVec 16 → Cpu → Cpu) (sel : BitVec 16) : Prog CpuFault Cpu Unit := do
  let s ← get
  check (c.Loads (rpl s.cs) sel) .generalProtection
  modify (set sel)

def loadSs (sel : BitVec 16) : Prog CpuFault Cpu Unit := do
  let s ← get
  check (rpl sel = rpl s.cs ∧ c.dpl sel = rpl s.cs) .generalProtection
  modify fun s => { s with ss := sel }

def popSegment (set : BitVec 16 → Cpu → Cpu) : Prog CpuFault Cpu Unit := do
  loadSegment c set ((← pop).setWidth 16)

def setDs (sel : BitVec 16) (s : Cpu) : Cpu := { s with ds := sel }
def setEs (sel : BitVec 16) (s : Cpu) : Cpu := { s with es := sel }
def setFs (sel : BitVec 16) (s : Cpu) : Cpu := { s with fs := sel }
def setGs (sel : BitVec 16) (s : Cpu) : Cpu := { s with gs := sel }

/-- `addl $n, %esp`; nothing reads the status flags that it sets. -/
def addEsp (n : BitVec 32) : Prog CpuFault Cpu Unit :=
  modify fun s => { s with esp := s.esp + n }

/-- `NT` and `VM` of `eflags`. -/
def ntFlag : Nat := 14
def vmFlag : Nat := 17

def iret : Prog CpuFault Cpu Unit := do
  let s ← get
  check (s.eflags.bits.getLsbD ntFlag = false) .taskReturn
  let eip ← pop
  let cs := (← pop).setWidth 16
  let eflags ← pop
  check (eflags.getLsbD vmFlag = false) .virtual8086
  check (rpl s.cs ≤ rpl cs) .generalProtection
  if rpl s.cs < rpl cs then
    let esp ← pop
    let ss := (← pop).setWidth 16
    check (rpl ss = rpl cs ∧ c.dpl ss = rpl cs) .generalProtection
    modify fun s =>
      { s with
        eip, cs, esp, ss
        eflags := .load eflags
        ds := c.outward (rpl cs) s.ds
        es := c.outward (rpl cs) s.es
        fs := c.outward (rpl cs) s.fs
        gs := c.outward (rpl cs) s.gs }
  else
    modify fun s => { s with eip, cs, eflags := .load eflags }

/-- `TF`, `IF`, `NT`, `RF` and `VM`, which an interrupt gate clears. -/
def gateFlags : BitVec 32 := 0x34300

def pushesErrorCode (vector : Nat) : Bool := vector = 8 ∨ 10 ≤ vector ∧ vector ≤ 14 ∨ vector = 17

def pushErrorCode (vector : Nat) (errorCode : BitVec 32) : Prog CpuFault Cpu Unit :=
  if pushesErrorCode vector then push errorCode else pure ()

/-- The processor goes through the interrupt gate of a vector, whose code segment has privilege
level 0; `esp0` is that of the TSS, whose `ss0` is `KERNEL_DS`. -/
def interrupt (esp0 : BitVec 32) (vector : Nat) (errorCode : BitVec 32) :
    Prog CpuFault Cpu Unit := do
  let s ← get
  if 0 < rpl s.cs then
    modify fun s => { s with ss := kernelDs, esp := esp0 }
    pushSelector c s.ss
    push s.esp
  push s.eflags.bits
  pushSelector c s.cs
  push s.eip
  pushErrorCode vector errorCode
  modify fun s => { s with cs := kernelCs, eflags := s.eflags.clear gateFlags }

/-! ### isr_entry.S and cpu_context_switch.S -/

def isrNoec (n : BitVec 32) : Prog CpuFault Cpu Unit := do
  push 0
  push n

def isr (n : BitVec 32) : Prog CpuFault Cpu Unit := push n

/-- `handler0` to `handler255`. -/
def handler (n : Nat) : Prog CpuFault Cpu Unit :=
  if n ∈ [8, 10, 11, 12, 13, 14, 17] then isr (.ofNat 32 n) else isrNoec (.ofNat 32 n)

/-- `cpu_context_save` up to the first instruction of `interrupt_dispatcher`. -/
def cpuContextSave (returnAddress : BitVec 32) : Prog CpuFault Cpu Unit := do
  pusha
  let s ← get
  pushSelector c s.gs
  pushSelector c s.fs
  pushSelector c s.es
  pushSelector c s.ds
  modify fun s => { s with eax := kernelDs.setWidth 32 }
  loadSegment c setDs kernelDs
  loadSegment c setEs kernelDs
  loadSegment c setFs kernelDs
  loadSegment c setGs kernelDs
  loadSs c kernelDs
  let s ← get
  push s.esp
  push returnAddress

/-- `__cpu_context_restore`. -/
def cpuContextRestore : Prog CpuFault Cpu Unit := do
  popSegment c setDs
  popSegment c setEs
  popSegment c setFs
  popSegment c setGs
  popa
  addEsp 8
  iret c

/-- `cpu_context_save` from the return of `interrupt_dispatcher` on. -/
def cpuContextResume : Prog CpuFault Cpu Unit := do
  addEsp 4
  cpuContextRestore c

/-! ### cpu_context.h -/

structure CpuContext where
  ds : BitVec 32
  es : BitVec 32
  fs : BitVec 32
  gs : BitVec 32
  edi : BitVec 32
  esi : BitVec 32
  ebp : BitVec 32
  oldEsp : BitVec 32
  ebx : BitVec 32
  edx : BitVec 32
  ecx : BitVec 32
  eax : BitVec 32
  intNumber : BitVec 32
  errorCode : BitVec 32
  eip : BitVec 32
  cs : BitVec 32
  eflags : BitVec 32

structure UserContext where
  context : CpuContext
  esp : BitVec 32
  ss : BitVec 32

/-- A packed `struct Cpu_context` at `p`. -/
def readCpuContext (m : Mem32) (p : BitVec 32) : CpuContext where
  ds := m.word p
  es := m.word (p + 4)
  fs := m.word (p + 8)
  gs := m.word (p + 12)
  edi := m.word (p + 16)
  esi := m.word (p + 20)
  ebp := m.word (p + 24)
  oldEsp := m.word (p + 28)
  ebx := m.word (p + 32)
  edx := m.word (p + 36)
  ecx := m.word (p + 40)
  eax := m.word (p + 44)
  intNumber := m.word (p + 48)
  errorCode := m.word (p + 52)
  eip := m.word (p + 56)
  cs := m.word (p + 60)
  eflags := m.word (p + 64)

def readUserContext (m : Mem32) (p : BitVec 32) : UserContext where
  context := readCpuContext m p
  esp := m.word (p + 68)
  ss := m.word (p + 72)

end Atros
