import Mathlib.Data.Finset.Max
import Atros.Program

namespace Atros
set_option autoImplicit true

/-! ### The chip -/

/-- Which byte the data port of an 8259A takes next. -/
inductive PicExpects
  | icw2
  | icw3
  | icw4
  | ocw1
  deriving DecidableEq, Repr

/-- An 8259A interrupt controller. Lines are numbered from 0, which has the highest priority. -/
structure Pic where
  expects : PicExpects
  needsIcw4 : Bool
  vector : BitVec 8
  cascade : BitVec 8
  autoEoi : Bool
  mask : BitVec 8
  inService : Finset Nat
  deriving DecidableEq

/-- A non-specific end of interrupt: the in-service line of highest priority is done. -/
def Pic.endOfInterrupt (p : Pic) : Pic :=
  if h : p.inService.Nonempty then { p with inService := p.inService.erase (p.inService.min' h) }
  else p

def picEoi : BitVec 8 := 0x20
def icw1Icw4Needed : BitVec 8 := 1
def icw1Init : BitVec 8 := 16

/-- A byte for the command port: bit 4 marks ICW1. The kernel writes no operation command other
than the end of interrupt. -/
def Pic.command (value : BitVec 8) (p : Pic) : Pic :=
  if value.getLsbD 4 then
    { p with
      expects := .icw2
      needsIcw4 := value.getLsbD 0
      autoEoi := p.autoEoi && value.getLsbD 0
      mask := 0 }
  else if value = picEoi then p.endOfInterrupt
  else p

/-- A byte for the data port. -/
def Pic.data (value : BitVec 8) (p : Pic) : Pic :=
  match p.expects with
  | .icw2 => { p with vector := value, expects := .icw3 }
  | .icw3 => { p with cascade := value, expects := if p.needsIcw4 then .icw4 else .ocw1 }
  | .icw4 => { p with autoEoi := value.getLsbD 1, expects := .ocw1 }
  | .ocw1 => { p with mask := value }

/-- The processor takes an interrupt of the chip. -/
def Pic.accept (line : Nat) (p : Pic) : Pic :=
  if p.autoEoi then p else { p with inService := insert line p.inService }

/-- In fully nested mode a line is held back by those in service at its priority or above. -/
def Pic.Admits (p : Pic) (line : Nat) : Prop := ∀ l ∈ p.inService, line < l

/-! ### Two chips in cascade -/

structure Pics where
  master : Pic
  slave : Pic
  deriving DecidableEq

def pic1Command : Nat := 0x20
def pic1Data : Nat := pic1Command + 1
def pic2Command : Nat := 0xA0
def pic2Data : Nat := pic2Command + 1

def outb (value : BitVec 8) (port : Nat) : StateM Pics Unit :=
  modify fun s =>
    if port = pic1Command then { s with master := s.master.command value }
    else if port = pic1Data then { s with master := s.master.data value }
    else if port = pic2Command then { s with slave := s.slave.command value }
    else if port = pic2Data then { s with slave := s.slave.data value }
    else s

/-- IRQ 8 to 15 come through the slave, which is on line 2 of the master. -/
def Pics.accept (irq : Nat) (s : Pics) : Pics :=
  if 8 ≤ irq then ⟨s.master.accept 2, s.slave.accept (irq - 8)⟩
  else ⟨s.master.accept irq, s.slave⟩

def Pics.Admits (s : Pics) (irq : Nat) : Prop :=
  if 8 ≤ irq then s.master.Admits 2 ∧ s.slave.Admits (irq - 8) else s.master.Admits irq

/-- Nothing is in service. -/
def Pics.Idle (s : Pics) : Prop := s.master.inService = ∅ ∧ s.slave.inService = ∅

theorem Pics.Idle.admits (h : Pics.Idle s) (irq : Nat) : s.Admits irq := by
  have hmaster : ∀ line, s.master.Admits line := by
    intro line l hl
    rw [h.1] at hl
    exact absurd hl (Finset.notMem_empty l)
  have hslave : ∀ line, s.slave.Admits line := by
    intro line l hl
    rw [h.2] at hl
    exact absurd hl (Finset.notMem_empty l)
  unfold Pics.Admits
  split
  · exact ⟨hmaster 2, hslave _⟩
  · exact hmaster irq

/-! ### The functions -/

def vectorIrq0 : BitVec 8 := 32
def vectorIrq8 : BitVec 8 := vectorIrq0 + 8

def pic8259aInit : StateM Pics Unit := do
  outb (icw1Init + icw1Icw4Needed) pic1Command
  outb (icw1Init + icw1Icw4Needed) pic2Command
  outb vectorIrq0 pic1Data
  outb vectorIrq8 pic2Data
  outb 4 pic1Data
  outb 2 pic2Data
  outb 1 pic1Data
  outb 1 pic2Data
  outb 0xFF pic1Data
  outb 0xFF pic2Data

def irqAck (irq : Nat) : StateM Pics Unit :=
  if irq ≥ 8 then outb picEoi pic2Command else outb picEoi pic1Command

/-- Whatever the chips were doing, they end up in cascade on line 2, with all lines masked and
without automatic end of interrupt. -/
theorem pic8259aInit_programs (boot : Pics) : (pic8259aInit boot).2 =
    ⟨⟨.ocw1, true, 32, 4, false, 0xFF, boot.master.inService⟩,
      ⟨.ocw1, true, 40, 2, false, 0xFF, boot.slave.inService⟩⟩ := rfl

theorem irqAck_master (h : irq < 8) (s : Pics) :
    (irqAck irq s).2 = ⟨s.master.endOfInterrupt, s.slave⟩ := by
  rw [irqAck, if_neg (not_le.mpr h)]
  rfl

theorem irqAck_slave (h : 8 ≤ irq) (s : Pics) :
    (irqAck irq s).2 = ⟨s.master, s.slave.endOfInterrupt⟩ := by
  rw [irqAck, if_pos h]
  rfl

end Atros
