import Atros.InterruptGates
import Atros.InterruptReturn
import Atros.TaskState

namespace Atros
set_option autoImplicit true

/-! ### The segments of the kernel -/

def gdtDataSegment : BitVec 8 := 1 <<< 4
def gdtDataRw : BitVec 8 := 1 <<< 1
def gdtCodeSegment : BitVec 8 := (1 <<< 4) + (1 <<< 3)
def gdtCodeXr : BitVec 8 := 1 <<< 1
def gdtDpl0 : BitVec 8 := 0
def gdt32B : BitVec 8 := 1 <<< 6
def gdtGranularity4KB : BitVec 8 := 1 <<< 7

/-- `gdt_init`, without the reload of the segment registers. -/
def gdtInit (kgdt : Gdt) : Gdt :=
  let kgdt := setGdtEntry 0 0 0 0 0 kgdt
  let kgdt := setGdtEntry 1 0 0xFFFFF (gdtCodeSegment + gdtCodeXr + gdtPresent + gdtDpl0)
    (gdt32B + gdtGranularity4KB) kgdt
  let kgdt := setGdtEntry 2 0 0xFFFFF (gdtDataSegment + gdtDataRw + gdtPresent + gdtDpl0)
    (gdt32B + gdtGranularity4KB) kgdt
  let kgdt := setGdtEntry 3 0 0xFFFFF (gdtCodeSegment + gdtCodeXr + gdtPresent + gdtDpl3)
    (gdt32B + gdtGranularity4KB) kgdt
  setGdtEntry 4 0 0xFFFFF (gdtDataSegment + gdtDataRw + gdtPresent + gdtDpl3)
    (gdt32B + gdtGranularity4KB) kgdt

def Segment.dpl (d : Segment) : Nat := d.access / 2 ^ 5 % 2 ^ 2
def Segment.present (d : Segment) : Bool := d.access / 2 ^ 7 % 2 = 1

/-- A code segment that is not a conforming one. -/
def Segment.isCode (d : Segment) : Bool := d.access / 2 ^ 2 % 2 ^ 3 = 6
def Segment.isWritable (d : Segment) : Bool := d.access / 2 ^ 3 % 2 ^ 2 = 2 ∧ d.access / 2 % 2 = 1

/-- An available or a busy 32-bit task state segment. -/
def Segment.isTss (d : Segment) : Bool := d.access % 2 ^ 5 = 9 ∨ d.access % 2 ^ 5 = 11

/-- The segment that a selector names: one of the global table, and not its first. -/
def Gdt.find (kgdt : Gdt) (sel : BitVec 16) : Option Segment :=
  if h : sel.toNat / 2 ^ 3 < nbrGdtEntries then
    if sel.toNat / 2 ^ 2 % 2 = 0 ∧ isNull sel = false then
      some (kgdt ⟨sel.toNat / 2 ^ 3, h⟩).segment
    else none
  else none

/-- A segment of 4 GB. -/
def flatSegment (access : Nat) : Segment := ⟨0, 0xFFFFF, access, 12⟩

theorem setGdtEntry_apply (hn : n < nbrGdtEntries) (flags1 : BitVec 8) (kgdt : Gdt)
    (i : Fin nbrGdtEntries) :
    (setGdtEntry (BitVec.ofNat 32 n) 0 0xFFFFF flags1 (gdt32B + gdtGranularity4KB) kgdt i).segment =
      if i.val = n then flatSegment flags1.toNat else (kgdt i).segment := by
  have htoNat : (BitVec.ofNat 32 n).toNat = n := by
    rw [BitVec.toNat_ofNat, Nat.mod_eq_of_lt (Nat.lt_trans hn (by decide))]
  split
  · obtain ⟨i, hi⟩ := i
    obtain rfl : i = n := ‹_›
    have hset := setGdtEntry_segment (htoNat.symm ▸ hn) 0 0xFFFFF flags1
      (gdt32B + gdtGranularity4KB) kgdt
    simp only [htoNat] at hset
    exact hset
  · rw [setGdtEntry_others]
    rw [htoNat]
    assumption

theorem gdtInit_segment (kgdt : Gdt) (i : Fin nbrGdtEntries) (h0 : i.val ≠ 0) :
    (gdtInit kgdt i).segment =
      if i.val = 4 then flatSegment 0xF2 else if i.val = 3 then flatSegment 0xFA
      else if i.val = 2 then flatSegment 0x92 else if i.val = 1 then flatSegment 0x9A
      else (kgdt i).segment := by
  unfold gdtInit
  refine (setGdtEntry_apply (n := 4) (by decide) _ _ i).trans (if_congr Iff.rfl rfl ?_)
  refine (setGdtEntry_apply (n := 3) (by decide) _ _ i).trans (if_congr Iff.rfl rfl ?_)
  refine (setGdtEntry_apply (n := 2) (by decide) _ _ i).trans (if_congr Iff.rfl rfl ?_)
  refine (setGdtEntry_apply (n := 1) (by decide) _ _ i).trans (if_congr Iff.rfl rfl ?_)
  rw [setGdtEntry_others]
  exact h0

/-! ### Delivery of an interrupt -/

/-- The tables that the processor goes through. -/
structure Tables extends TaskState where
  idt : Idt

/-- The tables that `main` sets up, in its order. -/
def mainTables (isrEntries : Nat → BitVec 32) (ktss kernelStackPa : BitVec 32) (T : Tables) :
    Tables :=
  let T := { T with kgdt := gdtInit T.kgdt }
  let T := { T with idt := idtInit isrEntries T.idt }
  { T with toTaskState := tssInit ktss kernelStackPa T.toTaskState }

/-- The stack for ring 0, which the processor reads in the segment of the task register; `ktss` is
where the structure lies. -/
def TaskState.ring0Stack (s : TaskState) (ktss : BitVec 32) : Option (BitVec 16 × BitVec 32) :=
  match s.kgdt.find s.taskRegister with
  | some d =>
    if d.isTss ∧ d.present ∧ d.base = ktss.toNat ∧ 9 ≤ d.limit then
      some (s.ktss.ss0.setWidth 16, s.ktss.esp0)
    else none
  | none => none

/-- What raises a vector: `int` in a program, a device, or an exception. -/
inductive Cause
  | program
  | device
  | exception
  deriving DecidableEq, Repr

/-- The flags that a gate of a type clears; a trap gate leaves `IF` as it is. -/
def clearedFlags (type : Nat) : BitVec 32 :=
  if type = gateInterrupt then gateFlags else gateFlags &&& ~~~0x200

/-- The checks of a gate; the code segment that it leads to. -/
def Tables.checkGate (T : Tables) (cause : Cause) (gate : Gate) : Prog CpuFault Cpu Segment := do
  let s ← get
  check (gate.type = gateInterrupt ∨ gate.type = gateTrap) .generalProtection
  check (cause = .program → rpl s.cs ≤ gate.dpl) .generalProtection
  check (gate.present = 1) .generalProtection
  let code ← deref (T.kgdt.find (.ofNat 16 gate.selector)) .generalProtection
  check (code.isCode ∧ code.present ∧ code.dpl ≤ rpl s.cs) .generalProtection
  return code

/-- The switch to the stack for ring 0, which keeps the one of the program. -/
def Tables.switchStack (T : Tables) (c : Processor) (ktss : BitVec 32) (cpl : Nat) :
    Prog CpuFault Cpu Unit := do
  let s ← get
  let stack ← deref (T.ring0Stack ktss) .generalProtection
  let data ← deref (T.kgdt.find stack.1) .generalProtection
  check (data.isWritable ∧ data.present ∧ data.dpl = cpl ∧ rpl stack.1 = cpl) .generalProtection
  modify fun s => { s with ss := stack.1, esp := stack.2 }
  pushSelector c s.ss
  push s.esp

/-- What the processor pushes of `s` before the handler runs. -/
def pushReturn (c : Processor) (s : Cpu) (cause : Cause) (vector : Nat) (errorCode : BitVec 32) :
    Prog CpuFault Cpu Unit := do
  push s.eflags.bits
  pushSelector c s.cs
  push s.eip
  if cause = .exception then pushErrorCode vector errorCode

/-- The state in which the handler of a gate begins, at the privilege level `cpl`. -/
def Cpu.throughGate (gate : Gate) (cpl : Nat) (s : Cpu) : Cpu :=
  { s with
    cs := .ofNat 16 (gate.selector / 2 ^ 2 * 2 ^ 2 + cpl)
    eip := .ofNat 32 gate.offset
    eflags := s.eflags.clear (clearedFlags gate.type) }

/-- The processor goes through a gate, outside of virtual-8086 mode. -/
def Tables.enterGate (T : Tables) (c : Processor) (ktss : BitVec 32) (cause : Cause) (gate : Gate)
    (vector : Nat) (errorCode : BitVec 32) : Prog CpuFault Cpu Unit := do
  let s ← get
  let code ← T.checkGate cause gate
  if code.dpl < rpl s.cs then T.switchStack c ktss code.dpl
  pushReturn c s cause vector errorCode
  modify (Cpu.throughGate gate code.dpl)

def Tables.deliver (T : Tables) (c : Processor) (ktss : BitVec 32) (cause : Cause)
    (vector : Fin nbrIdtEntries) (errorCode : BitVec 32) : Prog CpuFault Cpu Unit :=
  T.enterGate c ktss cause (T.idt vector).gate vector errorCode

/-- The tables are those of the kernel. -/
structure Tables.OfKernel (T : Tables) (isrEntries : Nat → BitVec 32) (ktss esp0 : BitVec 32) :
    Prop where
  gate : ∀ n, (T.idt n).gate = kernelGate (isrEntries n) (if n.val ∈ systemVectors then 3 else 0)
  code : T.kgdt.find kernelCs = some (flatSegment 0x9A)
  data : T.kgdt.find kernelDs = some (flatSegment 0x92)
  stack : T.ring0Stack ktss = some (kernelDs, esp0)

theorem Gdt.find_eq (kgdt : Gdt) {sel : BitVec 16} (h : sel.toNat / 2 ^ 3 < nbrGdtEntries)
    (hti : sel.toNat / 2 ^ 2 % 2 = 0) (hnull : isNull sel = false) :
    kgdt.find sel = some (kgdt ⟨sel.toNat / 2 ^ 3, h⟩).segment := by
  rw [find, dif_pos h, if_pos ⟨hti, hnull⟩]

theorem tssInit_others (ktss kernelStackPa : BitVec 32) (s : TaskState)
    (hi : i.val ≠ gdtTssIndex) : (tssInit ktss kernelStackPa s).kgdt i = s.kgdt i := by
  have htoNat : (BitVec.ofNat 32 gdtTssIndex).toNat = gdtTssIndex := rfl
  rw [← htoNat] at hi
  rw [tssInit, loadTss]
  split <;> exact setGdtEntry_others _ _ _ _ _ _ hi

theorem mainTables_ofKernel (isrEntries : Nat → BitVec 32) (ktss kernelStackPa : BitVec 32)
    (T : Tables) (hktss : ktss.toNat % 4096 = 0) :
    (mainTables isrEntries ktss kernelStackPa T).OfKernel isrEntries ktss
      (kernelStackPa + BitVec.ofNat 32 kernelSpace) := by
  refine ⟨fun n => idtInit_gate isrEntries T.idt n, ?_, ?_, ?_⟩
  · rw [Gdt.find_eq _ (by decide) (by decide) (by decide)]
    change some (GdtEntry.segment ((tssInit ktss kernelStackPa _).kgdt _)) = _
    rw [tssInit_others _ _ _ (by decide)]
    exact congrArg some (gdtInit_segment T.kgdt _ (by decide))
  · rw [Gdt.find_eq _ (by decide) (by decide) (by decide)]
    change some (GdtEntry.segment ((tssInit ktss kernelStackPa _).kgdt _)) = _
    rw [tssInit_others _ _ _ (by decide)]
    exact congrArg some (gdtInit_segment T.kgdt _ (by decide))
  · have hregister : (mainTables isrEntries ktss kernelStackPa T).taskRegister = 40 := rfl
    have hsegment := tssInit_segment ktss kernelStackPa
      { T.toTaskState with kgdt := gdtInit T.kgdt }
    have hfind : (mainTables isrEntries ktss kernelStackPa T).kgdt.find 40 =
        some (TaskState.segment (mainTables isrEntries ktss kernelStackPa T).toTaskState) :=
      Gdt.find_eq _ (by decide) (by decide) (by decide)
    have haccess : (gdtTssSegment ||| gdtPresent ||| gdtDpl3).toNat % 2 ^ 5 = 9 ∧
        (gdtTssSegment ||| gdtPresent ||| gdtDpl3).toNat / 2 ^ 7 % 2 = 1 := by
      decide
    have hlimit : 9 ≤ (ktss.toNat + sizeofTss) % 2 ^ 20 := by
      rw [sizeofTss, offsetofIomap, iomapLength]
      omega
    rw [TaskState.ring0Stack, hregister, hfind]
    change (if _ then some ((tssInit ktss kernelStackPa _).ktss.ss0.setWidth 16, _) else _) = _
    rw [show TaskState.segment (mainTables isrEntries ktss kernelStackPa T).toTaskState = _ from
      hsegment]
    rw [if_pos ⟨decide_eq_true (.inl haccess.1), decide_eq_true haccess.2, rfl, hlimit⟩]
    rfl

/-! ### Delivery by the tables of the kernel -/

variable {T : Tables} {c : Processor} {isrEntries : Nat → BitVec 32} {ktss esp0 : BitVec 32}
  {cause : Cause} {n : Fin nbrIdtEntries} {s : Cpu}

/-- A program in an outer ring may not raise the vector. -/
def Cause.Refused (cause : Cause) (s : Cpu) (n : Fin nbrIdtEntries) : Prop :=
  cause = .program ∧ 0 < rpl s.cs ∧ n.val ∉ systemVectors

instance (cause : Cause) (s : Cpu) (n : Fin nbrIdtEntries) : Decidable (cause.Refused s n) :=
  inferInstanceAs (Decidable (_ ∧ _ ∧ _))

theorem Cpu.throughGate_kernel (addr : BitVec 32) (dpl : Nat) (s : Cpu) :
    s.throughGate (kernelGate addr dpl) 0 =
      { s with cs := kernelCs, eip := addr, eflags := s.eflags.clear gateFlags } := by
  rw [throughGate, kernelGate]
  simp only [BitVec.ofNat_toNat, BitVec.setWidth_eq]
  rfl

section
variable (h : T.OfKernel isrEntries ktss esp0)
include h

theorem Tables.OfKernel.refuses (hrefused : cause.Refused s n) (c : Processor) (e : BitVec 32) :
    T.deliver c ktss cause n e s = .error .generalProtection := by
  obtain ⟨hcause, hcpl, hn⟩ := hrefused
  have hgate := h.gate n
  rw [if_neg hn] at hgate
  have htype : (kernelGate (isrEntries n) 0).type = gateInterrupt ∨
      (kernelGate (isrEntries n) 0).type = gateTrap := .inl rfl
  have hchecks : T.checkGate cause (kernelGate (isrEntries n) 0) s =
      .error .generalProtection := by
    rw [checkGate, bind_get, bind_ok (check_ok htype)]
    exact bind_error (check_error fun hle => absurd (hle hcause) (Nat.not_le.mpr hcpl))
  rw [deliver, hgate, enterGate, bind_get, bind_error hchecks]

theorem Tables.OfKernel.checks (hallowed : ¬cause.Refused s n) :
    T.checkGate cause (T.idt n).gate s = .ok (flatSegment 0x9A, s) := by
  rw [h.gate n]
  generalize hgate : kernelGate (isrEntries n) (if n.val ∈ systemVectors then 3 else 0) = gate
  have htype : gate.type = gateInterrupt ∨ gate.type = gateTrap := by
    rw [← hgate]
    exact .inl rfl
  have hdpl : cause = .program → rpl s.cs ≤ gate.dpl := by
    intro hcause
    rw [← hgate, kernelGate]
    by_cases hn : n.val ∈ systemVectors
    · rw [if_pos hn]
      exact Nat.le_of_lt_succ (Nat.mod_lt _ (by decide))
    · rw [if_neg hn]
      exact Nat.le_of_not_lt fun hcpl => hallowed ⟨hcause, hcpl, hn⟩
  have hpresent : gate.present = 1 := by
    rw [← hgate]
    rfl
  have hcode : T.kgdt.find (.ofNat 16 gate.selector) = some (flatSegment 0x9A) := by
    rw [← hgate]
    exact h.code
  have hsegment : (flatSegment 0x9A).isCode ∧ (flatSegment 0x9A).present ∧
      (flatSegment 0x9A).dpl ≤ rpl s.cs := ⟨by decide, by decide, Nat.zero_le _⟩
  rw [checkGate, bind_get, bind_ok (check_ok htype), bind_ok (check_ok hdpl),
    bind_ok (check_ok hpresent), hcode, bind_ok deref_some, bind_ok (check_ok hsegment)]
  rfl

theorem Tables.OfKernel.switches (c : Processor) (s : Cpu) : T.switchStack c ktss 0 s = (do
    modify fun s => { s with ss := kernelDs, esp := esp0 }
    pushSelector c s.ss
    push s.esp : Prog CpuFault Cpu Unit) s := by
  have hdata : (flatSegment 0x92).isWritable ∧ (flatSegment 0x92).present ∧
      (flatSegment 0x92).dpl = 0 ∧ rpl kernelDs = 0 := by
    decide
  rw [switchStack, bind_get, h.stack, bind_ok deref_some, h.data, bind_ok deref_some,
    bind_ok (check_ok hdata)]

/-- Through the tables of the kernel an interrupt goes as `interrupt` has it, to its handler. -/
theorem Tables.OfKernel.delivers (hallowed : ¬cause.Refused s n)
    (herror : cause = .exception ∨ pushesErrorCode n = false) (c : Processor) (e : BitVec 32) :
    T.deliver c ktss cause n e s = (do
      interrupt c esp0 n e
      modify fun s => { s with eip := isrEntries n } : Prog CpuFault Cpu Unit) s := by
  have hreturn : pushReturn c s cause n e = (do
      push s.eflags.bits
      pushSelector c s.cs
      push s.eip
      pushErrorCode n e) := by
    rw [pushReturn]
    rcases herror with hcause | hnone
    · rw [if_pos hcause]
    · have hpure : pushErrorCode n e = pure () := by
        rw [pushErrorCode, hnone]
        rfl
      rw [hpure, ite_self]
  have hlast : (modify (Cpu.throughGate (kernelGate (isrEntries n)
        (if n.val ∈ systemVectors then 3 else 0)) 0) : Prog CpuFault Cpu Unit) = (do
      modify fun s => { s with cs := kernelCs, eflags := s.eflags.clear gateFlags }
      modify fun s => { s with eip := isrEntries n }) := by
    funext s
    rw [bind_modify]
    exact congrArg (fun s => Except.ok ((), s)) (Cpu.throughGate_kernel ..)
  have hdpl : (flatSegment 0x9A).dpl = 0 := rfl
  rw [deliver, enterGate, bind_get, bind_ok (h.checks hallowed), h.gate n, interrupt, bind_assoc,
    bind_get, hreturn, hdpl, hlast]
  by_cases hcpl : 0 < rpl s.cs
  · rw [if_pos hcpl, if_pos hcpl]
    refine (bind_left (h.switches c s)).trans ?_
    simp only [bind_assoc]
  · rw [if_neg hcpl, if_neg hcpl]
    simp only [bind_assoc]

end

end Atros
