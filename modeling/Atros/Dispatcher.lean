import Atros.CpuContext
import Atros.InterruptGates
import Atros.IntervalTimer
import Atros.IrqLines
import Atros.PanicConsole

namespace Atros
set_option autoImplicit true

/-! ### The state of the interrupt code -/

/-- The functions that can handle an interrupt. `pit_irq_handler` is static in pit.c. -/
inductive InterruptHandler
  | pitIrqHandler
  /-- Any other function, by its address. -/
  | other (address : BitVec 32)
  deriving DecidableEq, Repr

structure Interrupts where
  handlers : BitVec 8 → Option InterruptHandler
  pics : Pics
  pit : Pit
  pitTick : BitVec 32
  screen : Screen
  /-- What the next polls of the keyboard find: nothing, or a scan code. -/
  keyboard : List (Option (BitVec 8))
  cr2 : BitVec 32
  /-- The context of the interrupted program, which `u_context` points to. -/
  frame : UserContext

/-- Where the dispatcher does not come back from. -/
inductive Halt
  /-- `panic` has printed the text. -/
  | panic (text : List UInt8) (screen : Screen)
  | endless
  /-- A read past the end of an array or of the arguments. -/
  | undefined
  /-- `kprintf` has read an address that is not mapped. -/
  | pageFault (address : Nat)

/-! ### pit.c -/

def setInterruptHandler (n : BitVec 8) (handler : Option InterruptHandler) (s : Interrupts) :
    Interrupts := { s with handlers := Function.update s.handlers n handler }

def pitIrqHandler (s : Interrupts) : Interrupts :=
  { s with pitTick := s.pitTick + 1, pics := (irqAck 0 s.pics).2 }

def pitInit (s : Interrupts) : Interrupts :=
  setInterruptHandler vectorIrq0 (some .pitIrqHandler) s

/-! ### interrupts.c -/

/-- What a driver calls to deal with interrupts. -/
inductive DriverCall
  | irqAck (irq : Nat)
  | irqEnable (irq : Nat)
  | irqDisable (irq : Nat)
  | setInterruptHandler (n : BitVec 8) (handler : Option InterruptHandler)
  | pitInit
  | pitSetFrequency (hz : BitVec 32)
  deriving DecidableEq, Repr

def DriverCall.run (s : Interrupts) : DriverCall → Interrupts
  | irqAck irq => { s with pics := (Atros.irqAck irq s.pics).2 }
  | irqEnable irq => { s with pics := (Atros.irqEnable irq s.pics).2 }
  | irqDisable irq => { s with pics := (Atros.irqDisable irq s.pics).2 }
  | setInterruptHandler n handler => Atros.setInterruptHandler n handler s
  | pitInit => Atros.pitInit s
  | pitSetFrequency hz => { s with pit := Atros.pitSetFrequency hz s.pit }

/-- The static buffers of panic.c and kprintf.c, the addresses that are mapped, and what the
handlers of drivers call. -/
structure Drivers where
  panicBuffer : Nat
  buffer : Nat
  mapped : Nat → Bool
  code : BitVec 32 → List DriverCall

variable (D : Drivers)

def Drivers.call (s : Interrupts) : InterruptHandler → Interrupts
  | .pitIrqHandler => pitIrqHandler s
  | .other address => (D.code address).foldl DriverCall.run s

def chars (text : String) : List UInt8 := text.toList.map ch

/-- `kprintf`, which nobody takes the count of. -/
def Drivers.print (format : String) (args : List Arg) : Prog Halt Interrupts Unit := do
  let s ← get
  match kprintf D.buffer (chars format ++ [0]) args s.screen with
  | some (_, screen) => set { s with screen }
  | none => throw .undefined

def Drivers.halt (format : String) (args : List Arg) : Prog Halt Interrupts Unit := do
  let s ← get
  match panic D.panicBuffer D.buffer (chars format ++ [0]) args s.screen with
  | some (text, screen) => throw (.panic text screen)
  | none => throw .undefined

def enterScanCode : BitVec 8 := 28

/-- What is left of the polls when the Enter key has been pressed. -/
def waitEnter : List (Option (BitVec 8)) → Option (List (Option (BitVec 8)))
  | [] => none
  | none :: polls => waitEnter polls
  | some i :: polls => if i = enterScanCode then some polls else waitEnter polls

def breakpoint : Prog Halt Interrupts Unit := do
  D.print "Breakpoint!\n" []
  let s ← get
  match waitEnter s.keyboard with
  | some keyboard => set { s with keyboard }
  | none => throw .endless

def vectorLastException : BitVec 32 := 31

/-- `interrupts_handlers[n]`. -/
def handlerOf (n : BitVec 32) : Prog Halt Interrupts (Option InterruptHandler) := do
  check (n.toNat < nbrIdtEntries) .undefined
  let s ← get
  return s.handlers (n.setWidth 8)

def reportFault : Prog Halt Interrupts Unit := do
  let s ← get
  D.print "Fault's address: %p (instruction at %p)\n"
    [.word (.ofBitVec s.cr2), .word (.ofBitVec s.frame.context.eip)]
  if s.frame.context.errorCode &&& 1 ≠ 0 then
    D.print "Page-level protection violation\n" []
  else
    D.print "Non-present page\n" []

def unhandledException : Prog Halt Interrupts Unit := do
  let s ← get
  if s.frame.context.intNumber = 14 then
    reportFault D
  D.halt "Unhandled exception %u!\n" [.word (.ofBitVec s.frame.context.intNumber)]

/-- The handler that is set, or the report of an exception. -/
def handleInterrupt : Prog Halt Interrupts Unit := do
  let s ← get
  match ← handlerOf s.frame.context.intNumber with
  | some handler => modify (D.call · handler)
  | none =>
    if s.frame.context.intNumber ≤ vectorLastException then
      unhandledException D

/-- Where `%s` finds the byte `i` of a string at `a`. Of a string that runs into the buffer from
below, the bytes in there are by then copies of the first ones. -/
def Drivers.stringAddr (a i : Nat) : Nat :=
  add32 a (if a < D.buffer then i % (D.buffer - a) else i)

/-- The bytes of a string at `a` from the `i`-th on, as `%s` reads them, or the address at which it
faults. -/
def Drivers.readString (m : Mem) (a : Nat) : Nat → Nat → Except Nat (List UInt8)
  | 0, _ => .ok []
  | rounds + 1, i =>
    if D.mapped (D.stringAddr a i) then
      if m (D.stringAddr a i) ≠ 0 then
        (m (D.stringAddr a i) :: ·) <$> Drivers.readString m a rounds (i + 1)
      else .ok []
    else .error (D.stringAddr a i)

/-- `%s` stops when it has filled the buffer, but it tests the next byte before. -/
def Drivers.stringAt (a : BitVec 32) : Prog Halt Interrupts Arg := do
  let s ← get
  match D.readString s.screen.out.mem a.toNat 1024 0 with
  | .ok bytes => return .str bytes
  | .error address => throw (.pageFault address)

def systemCall : Prog Halt Interrupts Unit := do
  let s ← get
  if s.frame.context.intNumber = BitVec.ofNat 32 syscallVector then
    D.print "%s" [← D.stringAt s.frame.context.eax]

def interruptDispatcher : Prog Halt Interrupts Unit := do
  let s ← get
  if s.frame.context.intNumber = 3 then
    breakpoint D
  else
    handleInterrupt D
    systemCall D

end Atros
