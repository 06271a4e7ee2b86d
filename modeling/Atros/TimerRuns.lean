import Atros.DispatcherText

namespace Atros
set_option autoImplicit true

variable {s s' : Interrupts} {D : Drivers} {irq : Nat}

/-! ### Interrupts one after the other -/

/-- What a chip puts on the bus for one of its lines. -/
def Pic.vectorOf (p : Pic) (line : Nat) : BitVec 8 := p.vector &&& 0xF8 ||| BitVec.ofNat 8 line

def Pics.vectorOf (s : Pics) (irq : Nat) : BitVec 8 :=
  if 8 ≤ irq then s.slave.vectorOf (irq - 8) else s.master.vectorOf irq

instance Pic.Admits.decidable (p : Pic) (line : Nat) : Decidable (p.Admits line) :=
  inferInstanceAs (Decidable (∀ l ∈ p.inService, line < l))

instance Pics.Admits.decidable (s : Pics) (irq : Nat) : Decidable (s.Admits irq) :=
  inferInstanceAs (Decidable (if 8 ≤ irq then _ ∧ _ else _))

instance Pics.Reaches.decidable (s : Pics) (irq : Nat) : Decidable (s.Reaches irq) :=
  inferInstanceAs (Decidable (_ ∧ _))

/-- The chips pass a request on to the processor. -/
def Pics.Takes (s : Pics) (irq : Nat) : Prop := s.Reaches irq ∧ s.Admits irq

instance Pics.Takes.decidable (s : Pics) (irq : Nat) : Decidable (s.Takes irq) :=
  inferInstanceAs (Decidable (_ ∧ _))

inductive InterruptEvent
  /-- A device raises a line while the processor takes interrupts. -/
  | request (irq : Nat) (context : UserContext)
  /-- An exception, or an `int` of a program. -/
  | software (n : BitVec 8) (cr2 : BitVec 32) (context : UserContext)
  | call (c : DriverCall)

/-- The entry code has saved the context of the program, and the vector with it. -/
def Interrupts.entered (s : Interrupts) (n : BitVec 8) (u : UserContext) : Interrupts :=
  { s with frame := { u with context := { u.context with intNumber := n.setWidth 32 } } }

def takeInterrupt (D : Drivers) (n : BitVec 8) (u : UserContext) : Prog Halt Interrupts Unit := do
  modify (·.entered n u)
  interruptDispatcher D

/-- Gates are passed with interrupts off, so that the handlers do not interrupt each other. -/
def InterruptEvent.step (D : Drivers) : InterruptEvent → Prog Halt Interrupts Unit
  | request irq context => do
    let s ← get
    if s.pics.Takes irq then
      set { s with pics := s.pics.accept irq }
      takeInterrupt D (s.pics.vectorOf irq) context
  | software n cr2 context => do
    modify fun s => { s with cr2 }
    takeInterrupt D n context
  | call c => modify (DriverCall.run · c)

def runInterrupts (D : Drivers) : List InterruptEvent → Prog Halt Interrupts Unit
  | [] => pure ()
  | e :: es => do
    e.step D
    runInterrupts D es

/-- The calls of `main` that deal with interrupts. -/
def mainInterrupts (s : Interrupts) : Interrupts :=
  [DriverCall.pitInit, .pitSetFrequency 100, .irqEnable 0].foldl DriverCall.run
    { s with pics := (pic8259aInit s.pics).2 }

/-! ### What keeps the timer going -/

/-- What drivers and the rest of the kernel must not do: mask line 0, or set another handler for
its vector. `pit_irq_handler` is not theirs to name. -/
def DriverCall.SparesTimer : DriverCall → Prop
  | irqDisable irq => irq ≤ 15 ∧ irq ≠ 0
  | irqEnable irq => irq ≤ 15
  | setInterruptHandler n handler => n ≠ vectorIrq0 ∧ handler ≠ some .pitIrqHandler
  | irqAck _ | pitInit | pitSetFrequency _ => True

def Drivers.SpareTimer (D : Drivers) : Prop := ∀ address, ∀ c ∈ D.code address, c.SparesTimer

/-- Programs reach the vectors of exceptions and that of system calls. -/
def InterruptEvent.SparesTimer : InterruptEvent → Prop
  | request irq _ => IsLine irq
  | software n _ _ => n ≤ 31 ∨ n = BitVec.ofNat 8 syscallVector
  | call c => c.SparesTimer

def InterruptEvent.isException : InterruptEvent → Bool
  | software n _ _ => n ≤ 31
  | request _ _ | call _ => false

def InterruptEvent.isTick : InterruptEvent → Bool
  | request irq _ => irq = 0
  | software _ _ _ | call _ => false

/-- The page fault of a system call with a string that is not mapped. -/
def Drivers.PageFaults (D : Drivers) (e : Halt) : Prop :=
  ∃ address, e = .pageFault address ∧ D.mapped address = false

structure Interrupts.TimerOn (s : Interrupts) : Prop where
  screen : s.screen.InRange
  handler : s.handlers vectorIrq0 = some .pitIrqHandler
  only : ∀ n, s.handlers n = some .pitIrqHandler → n = vectorIrq0
  initialised : s.pics.Initialised
  master : s.pics.master.vector = vectorIrq0
  slave : s.pics.slave.vector = vectorIrq8
  waits : s.pics.master.autoEoi = false
  idle : 0 ∉ s.pics.master.inService
  enabled : s.pics.masked 0 = false

theorem Interrupts.TimerOn.takes (h : s.TimerOn) : s.pics.Takes 0 := by
  refine ⟨⟨h.enabled, fun h8 => absurd h8 (by decide)⟩, fun l hl => ?_⟩
  exact Nat.pos_of_ne_zero fun h0 => h.idle (h0 ▸ hl)

/-- Both chips after a byte that is no initialisation. -/
structure Pics.Keeps (s s' : Pics) : Prop where
  initialised : s.Initialised → s'.Initialised
  master : s'.master.vector = s.master.vector
  slave : s'.slave.vector = s.slave.vector
  waits : s'.master.autoEoi = s.master.autoEoi
  inService : s'.master.inService ⊆ s.master.inService

theorem Pic.endOfInterrupt_keeps (p : Pic) : p.endOfInterrupt.expects = p.expects ∧
    p.endOfInterrupt.vector = p.vector ∧ p.endOfInterrupt.mask = p.mask ∧
    p.endOfInterrupt.autoEoi = p.autoEoi ∧ p.endOfInterrupt.inService ⊆ p.inService := by
  unfold Pic.endOfInterrupt
  split
  · exact ⟨rfl, rfl, rfl, rfl, Finset.erase_subset _ _⟩
  · exact ⟨rfl, rfl, rfl, rfl, Finset.Subset.refl _⟩

theorem irqAck_keeps (irq : Nat) (s : Pics) : s.Keeps (irqAck irq s).2 ∧
    (irqAck irq s).2.masked = s.masked := by
  rcases Nat.lt_or_ge irq 8 with h | h
  · obtain ⟨hexpects, hvector, hmask, hauto, hservice⟩ := s.master.endOfInterrupt_keeps
    rw [irqAck_master h]
    refine ⟨⟨fun hi => ⟨hexpects.trans hi.1, hi.2⟩, hvector, rfl, hauto, hservice⟩, ?_⟩
    funext line
    simp only [Pics.masked, hmask]
  · obtain ⟨hexpects, hvector, hmask, hauto, hservice⟩ := s.slave.endOfInterrupt_keeps
    rw [irqAck_slave h]
    refine ⟨⟨fun hi => ⟨hi.1, hexpects.trans hi.2⟩, rfl, hvector, rfl, Finset.Subset.refl _⟩, ?_⟩
    funext line
    simp only [Pics.masked, hmask]

theorem IrqCall.keeps (c : IrqCall) (s : Pics) (h : s.Initialised) : s.Keeps (c.run s).2 := by
  by_cases hc : 8 ≤ c.irq
  · rw [c.run_slave s hc, Pic.data_ocw1 h.2]
    exact ⟨fun hi => hi, rfl, rfl, rfl, Finset.Subset.refl _⟩
  · rw [c.run_master s hc, Pic.data_ocw1 h.1]
    exact ⟨fun hi => hi, rfl, rfl, rfl, Finset.Subset.refl _⟩

theorem Interrupts.TimerOn.keeps {pics : Pics} (h : s.TimerOn) (hk : s.pics.Keeps pics)
    (hm : pics.masked 0 = false) : Interrupts.TimerOn { s with pics } :=
  ⟨h.screen, h.handler, h.only, hk.initialised h.initialised, hk.master.trans h.master,
    hk.slave.trans h.slave, hk.waits.trans h.waits, fun h0 => h.idle (hk.inService h0), hm⟩

theorem setInterruptHandler_handlers (n k : BitVec 8) (handler : Option InterruptHandler)
    (s : Interrupts) : (setInterruptHandler n handler s).handlers k =
      if k = n then handler else s.handlers k := Function.update_apply ..

theorem Interrupts.TimerOn.setHandler {f : Option InterruptHandler} (h : s.TimerOn)
    (hn : n = vectorIrq0 ↔ f = some .pitIrqHandler) : (setInterruptHandler n f s).TimerOn := by
  refine ⟨h.screen, ?_, fun k hk => ?_, h.initialised, h.master, h.slave, h.waits, h.idle,
    h.enabled⟩
  · rw [setInterruptHandler_handlers]
    split
    · exact hn.mp (Eq.symm ‹_›)
    · exact h.handler
  · rw [setInterruptHandler_handlers] at hk
    split at hk
    · exact Eq.trans ‹_› (hn.mpr hk)
    · exact h.only k hk

theorem DriverCall.SparesTimer.run (hc : DriverCall.SparesTimer c) (h : s.TimerOn) :
    (c.run s).TimerOn ∧ (c.run s).pitTick = s.pitTick := by
  cases c with
  | irqAck irq =>
    obtain ⟨hk, hm⟩ := irqAck_keeps irq s.pics
    exact ⟨h.keeps hk ((congrFun hm 0).trans h.enabled), rfl⟩
  | irqEnable irq =>
    have hm := (IrqCall.irqEnable irq).masked h.initialised hc (Nat.zero_le 15)
    refine ⟨h.keeps ((IrqCall.irqEnable irq).keeps s.pics h.initialised) (hm.trans ?_), rfl⟩
    split
    · rfl
    · exact h.enabled
  | irqDisable irq =>
    have hm := (IrqCall.irqDisable irq).masked h.initialised hc.1 (Nat.zero_le 15)
    refine ⟨h.keeps ((IrqCall.irqDisable irq).keeps s.pics h.initialised) (hm.trans ?_), rfl⟩
    exact (if_neg (Ne.symm hc.2)).trans h.enabled
  | setInterruptHandler n handler => exact ⟨h.setHandler (iff_of_false hc.1 hc.2), rfl⟩
  | pitInit => exact ⟨h.setHandler (iff_of_true rfl rfl), rfl⟩
  | pitSetFrequency hz =>
    exact ⟨⟨h.screen, h.handler, h.only, h.initialised, h.master, h.slave, h.waits, h.idle,
      h.enabled⟩, rfl⟩

theorem Drivers.SpareTimer.call {f : InterruptHandler} (hD : D.SpareTimer) (h : s.TimerOn)
    (hf : f ≠ .pitIrqHandler) : (D.call s f).TimerOn ∧ (D.call s f).pitTick = s.pitTick := by
  cases f with
  | pitIrqHandler => exact absurd rfl hf
  | other address =>
    have hcalls := hD address
    rw [Drivers.call]
    generalize D.code address = calls at hcalls ⊢
    induction calls generalizing s with
    | nil => exact ⟨h, rfl⟩
    | cons c calls ih =>
      obtain ⟨hhead, htick⟩ := (hcalls c List.mem_cons_self).run h
      obtain ⟨htail, htick'⟩ := ih hhead fun c hc => hcalls c (List.mem_cons_of_mem _ hc)
      exact ⟨htail, htick'.trans htick⟩

/-! ### One interrupt -/

theorem vector_line : ∀ line < 8,
    vectorIrq0 &&& 0xF8 ||| BitVec.ofNat 8 line = BitVec.ofNat 8 (32 + line) ∧
    vectorIrq8 &&& 0xF8 ||| BitVec.ofNat 8 line = BitVec.ofNat 8 (40 + line) := by decide

theorem Interrupts.TimerOn.vectorOf (h : s.TimerOn) (hirq : irq ≤ 15) :
    s.pics.vectorOf irq = BitVec.ofNat 8 (32 + irq) := by
  unfold Pics.vectorOf
  split
  · rw [Pic.vectorOf, h.slave, (vector_line (irq - 8) (by omega)).2]
    congr 1
    omega
  · rw [Pic.vectorOf, h.master, (vector_line irq (by omega)).1]

theorem vector_ne (h0 : irq ≠ 0) (hirq : irq ≤ 15) : BitVec.ofNat 8 (32 + irq) ≠ vectorIrq0 := by
  intro heq
  have heq := congrArg BitVec.toNat heq
  rw [BitVec.toNat_ofNat] at heq
  change (32 + irq) % 256 = 32 at heq
  omega

theorem software_ne (h : n ≤ 31 ∨ n = BitVec.ofNat 8 syscallVector) : n ≠ vectorIrq0 := by
  rcases h with hle | rfl
  · rintro rfl
    exact absurd hle (by decide)
  · decide

theorem takeInterrupt_dispatched (hD : BuffersApart D.panicBuffer D.buffer)
    (hs : s.screen.InRange) (n : BitVec 8) (u : UserContext) :
    Dispatched D (s.entered n u) (takeInterrupt D n u s) := by
  refine dispatched_of_dispatcher hD hs ?_
  have hn := n.isLt
  have hwide : (n.setWidth 32).toNat = n.toNat := by
    rw [BitVec.toNat_setWidth]
    omega
  change (n.setWidth 32).toNat < 256
  omega

theorem vector_setWidth (n : BitVec 8) : (n.setWidth 32).setWidth 8 = n := by
  simp

theorem vector_le (n : BitVec 8) : n.setWidth 32 ≤ vectorLastException ↔ n ≤ 31 := by
  have hn := n.isLt
  have hlast : vectorLastException.toNat = 31 := rfl
  rw [BitVec.le_def, BitVec.le_def, BitVec.toNat_setWidth, hlast]
  change _ ↔ n.toNat ≤ 31
  omega

theorem Interrupts.TimerOn.congr (h : s.TimerOn) (hhandlers : s'.handlers = s.handlers)
    (hpics : s'.pics = s.pics) (hs : s'.screen.InRange) : s'.TimerOn := by
  refine ⟨hs, ?_, ?_, ?_, ?_, ?_, ?_, ?_, ?_⟩ <;> simp only [hhandlers, hpics]
  · exact h.handler
  · exact h.only
  · exact h.initialised
  · exact h.master
  · exact h.slave
  · exact h.waits
  · exact h.idle
  · exact h.enabled

theorem Interrupts.TimerOn.other (h : s.TimerOn) (hD : BuffersApart D.panicBuffer D.buffer)
    (hspare : D.SpareTimer) (hn : n ≠ vectorIrq0) (u : UserContext) :
    Ends (fun e => n ≤ 31 ∨ n = BitVec.ofNat 8 syscallVector ∧ D.PageFaults e)
      (fun _ s' => s'.TimerOn ∧ s'.pitTick = s.pitTick) (takeInterrupt D n u s) := by
  have hdispatched := takeInterrupt_dispatched hD h.screen n u
  generalize takeInterrupt D n u s = r at hdispatched
  cases hdispatched with
  | breakpoint _ _ htyped => exact ⟨h.congr rfl rfl htyped.inRange, rfl⟩
  | waits h3 _ =>
    refine .inl ((vector_le n).mp ?_)
    have h3 : n.setWidth 32 = 3 := h3
    rw [h3]
    decide
  | handled _ hhandler _ htyped =>
    have hhandler : s.handlers ((n.setWidth 32).setWidth 8) = some _ := hhandler
    rw [vector_setWidth] at hhandler
    have hentered : (s.entered n u).TimerOn := h.congr rfl rfl h.screen
    obtain ⟨hon, htick⟩ := hspare.call hentered fun hpit => hn (h.only n (hpit ▸ hhandler))
    exact ⟨hon.congr rfl rfl htyped.inRange, htick⟩
  | ignored _ _ _ htyped => exact ⟨h.congr rfl rfl htyped.inRange, rfl⟩
  | faults hsystem htext =>
    have hsystem : n.setWidth 32 = BitVec.ofNat 32 syscallVector := hsystem
    refine .inr ⟨?_, _, rfl, (D.systemText_error htext).2⟩
    rw [← vector_setWidth n, hsystem]
    rfl
  | panics hle _ _ _ => exact .inl ((vector_le n).mp hle)

/-- The end of the timer's interrupt undoes its start, whatever other lines are in service. -/
theorem irqAck_accept_zero {pics : Pics} (hauto : pics.master.autoEoi = false)
    (h0 : 0 ∉ pics.master.inService) : (irqAck 0 (pics.accept 0)).2 = pics := by
  have haccept : pics.accept 0 =
      ⟨{ pics.master with inService := insert 0 pics.master.inService }, pics.slave⟩ := by
    rw [Pics.accept, if_neg (by decide), Pic.accept, if_neg (Bool.eq_false_iff.mp hauto)]
  have hne : (insert 0 pics.master.inService).Nonempty := Finset.insert_nonempty _ _
  have hmin : (insert 0 pics.master.inService).min' hne = 0 :=
    Nat.le_zero.mp (Finset.min'_le _ _ (Finset.mem_insert_self _ _))
  rw [irqAck_master (by decide), haccept, Pic.endOfInterrupt]
  simp only [dif_pos hne, hmin, Finset.erase_insert h0]

theorem Interrupts.TimerOn.tick (h : s.TimerOn) (hD : BuffersApart D.panicBuffer D.buffer)
    (u : UserContext) : Ends (fun _ => False)
      (fun _ s' => s'.TimerOn ∧ s'.pitTick = s.pitTick + 1 ∧ s'.pics = s.pics)
      (takeInterrupt D vectorIrq0 u { s with pics := s.pics.accept 0 }) := by
  have hdispatched := takeInterrupt_dispatched hD
    (s := { s with pics := s.pics.accept 0 }) h.screen vectorIrq0 u
  generalize takeInterrupt D vectorIrq0 u { s with pics := s.pics.accept 0 } = r at hdispatched
  cases hdispatched with
  | breakpoint h3 => exact absurd h3 (by decide : vectorIrq0.setWidth 32 ≠ 3)
  | waits h3 => exact absurd h3 (by decide : vectorIrq0.setWidth 32 ≠ 3)
  | handled _ hhandler _ htyped =>
    cases h.handler.symm.trans hhandler
    have hpics := irqAck_accept_zero h.waits h.idle
    exact ⟨h.congr rfl hpics htyped.inRange, rfl, hpics⟩
  | ignored _ hhandler => exact absurd (h.handler.symm.trans hhandler) (Option.some_ne_none _)
  | faults hsystem =>
    exact absurd hsystem (by decide : vectorIrq0.setWidth 32 ≠ BitVec.ofNat 32 syscallVector)
  | panics hle => exact absurd ((vector_le vectorIrq0).mp hle) (by decide)

theorem Pic.accept_keeps (p : Pic) (line : Nat) : (p.accept line).expects = p.expects ∧
    (p.accept line).vector = p.vector ∧ (p.accept line).mask = p.mask ∧
    (p.accept line).autoEoi = p.autoEoi ∧
    ∀ l ∈ (p.accept line).inService, l = line ∨ l ∈ p.inService := by
  unfold Pic.accept
  split
  · exact ⟨rfl, rfl, rfl, rfl, fun l hl => .inr hl⟩
  · exact ⟨rfl, rfl, rfl, rfl, fun l hl => Finset.mem_insert.mp hl⟩

/-- The line of the master that a request comes through. -/
def masterLine (irq : Nat) : Nat := if 8 ≤ irq then 2 else irq

theorem Pics.accept_master (s : Pics) (irq : Nat) :
    (s.accept irq).master = s.master.accept (masterLine irq) := by
  unfold Pics.accept masterLine
  split <;> rfl

theorem Pics.Admits.master {pics : Pics} (h : pics.Admits irq) :
    pics.master.Admits (masterLine irq) := by
  unfold Pics.Admits at h
  unfold masterLine
  split
  · rw [if_pos ‹_›] at h
    exact h.1
  · rwa [if_neg ‹_›] at h

theorem Pics.accept_slave (s : Pics) (irq : Nat) : (s.accept irq).slave.expects = s.slave.expects ∧
    (s.accept irq).slave.vector = s.slave.vector := by
  unfold Pics.accept
  split
  · exact ⟨(s.slave.accept_keeps _).1, (s.slave.accept_keeps _).2.1⟩
  · exact ⟨rfl, rfl⟩

theorem Interrupts.TimerOn.accept (h : s.TimerOn) (h0 : irq ≠ 0) :
    Interrupts.TimerOn { s with pics := s.pics.accept irq } := by
  obtain ⟨hexpects, hvector, hmask, hauto, hservice⟩ := s.pics.master.accept_keeps (masterLine irq)
  obtain ⟨hslave, hslave'⟩ := s.pics.accept_slave irq
  rw [← s.pics.accept_master] at hexpects hvector hmask hauto hservice
  refine ⟨h.screen, h.handler, h.only, ⟨hexpects.trans h.initialised.1,
    hslave.trans h.initialised.2⟩, hvector.trans h.master, hslave'.trans h.slave,
    hauto.trans h.waits, fun hin => ?_, (congrArg (·.getLsbD 0) hmask).trans h.enabled⟩
  rcases hservice 0 hin with heq | hin
  · rw [masterLine] at heq
    split at heq
    · exact absurd heq (by decide)
    · exact h0 heq.symm
  · exact h.idle hin

/-! ### Runs -/

theorem InterruptEvent.SparesTimer.step {e : InterruptEvent} (he : e.SparesTimer) (h : s.TimerOn)
    (hD : BuffersApart D.panicBuffer D.buffer) (hspare : D.SpareTimer) :
    Ends (fun halt => e.isException = true ∨ D.PageFaults halt) (fun _ s' => s'.TimerOn ∧
      s'.pitTick = s.pitTick + BitVec.ofNat 32 ([e].countP InterruptEvent.isTick))
      (e.step D s) := by
  cases e with
  | request irq u =>
    by_cases h0 : irq = 0
    · subst h0
      have hstep : (InterruptEvent.request 0 u).step D s =
          takeInterrupt D vectorIrq0 u { s with pics := s.pics.accept 0 } := by
        rw [InterruptEvent.step, bind_get, if_pos h.takes, h.vectorOf (by decide)]
        rfl
      rw [hstep]
      exact (h.tick hD u).mono (fun _ he => he.elim) fun _ _ hs => ⟨hs.1, hs.2.1⟩
    · have hticks : [InterruptEvent.request irq u].countP InterruptEvent.isTick = 0 := by
        rw [List.countP_eq_zero]
        intro e he
        rw [List.mem_singleton.mp he]
        simpa [isTick] using h0
      rw [hticks, InterruptEvent.step, bind_get]
      split
      · have hirq : irq ≤ 15 := he.1
        rw [h.vectorOf hirq]
        refine ((h.accept h0).other hD hspare (vector_ne h0 hirq) u).mono (fun _ he => ?_)
          fun _ _ hs =>
          ⟨hs.1, hs.2.trans (BitVec.add_zero _).symm⟩
        refine he.elim (fun hle => ?_) fun he => .inr he.2
        rw [BitVec.le_def, BitVec.toNat_ofNat] at hle
        change (32 + irq) % 256 ≤ 31 at hle
        omega
      · exact ⟨h, (BitVec.add_zero _).symm⟩
  | software n cr2 u =>
    have hcr2 : Interrupts.TimerOn { s with cr2 } := h.congr rfl rfl h.screen
    exact (hcr2.other hD hspare (software_ne he) u).mono
      (fun _ he => he.imp decide_eq_true And.right) fun _ _ hs =>
      ⟨hs.1, hs.2.trans (BitVec.add_zero _).symm⟩
  | call c =>
    obtain ⟨hon, htick⟩ := DriverCall.SparesTimer.run he h
    exact ⟨hon, htick.trans (BitVec.add_zero _).symm⟩

theorem runInterrupts_timerOn (h : s.TimerOn) (hD : BuffersApart D.panicBuffer D.buffer)
    (hspare : D.SpareTimer) (hes : ∀ e ∈ es, InterruptEvent.SparesTimer e) :
    Ends (fun halt => (∃ e ∈ es, e.isException = true) ∨ D.PageFaults halt)
      (fun _ s' => s'.TimerOn ∧
        s'.pitTick = s.pitTick + BitVec.ofNat 32 (es.countP InterruptEvent.isTick))
      (runInterrupts D es s) := by
  induction es generalizing s with
  | nil => exact ⟨h, (BitVec.add_zero _).symm⟩
  | cons e es ih =>
    have hhead := (hes e List.mem_cons_self).step h hD hspare
    refine Ends.bind (hhead.mono
      (fun _ he => he.imp_left fun hex => ⟨e, List.mem_cons_self, hex⟩) fun _ _ hs => hs)
      fun _ s₁ ⟨hon, htick⟩ => ?_
    refine (ih hon fun e he => hes e (List.mem_cons_of_mem _ he)).mono
      (fun _ he => he.imp_left fun ⟨e, he, hex⟩ => ⟨e, List.mem_cons_of_mem _ he, hex⟩)
      fun _ s₂ ⟨hon', htick'⟩ => ?_
    refine ⟨hon', ?_⟩
    rw [htick', htick, BitVec.add_assoc, ← BitVec.ofNat_add, ← List.countP_append,
      List.singleton_append]

/-! ### The runs of the kernel -/

/-- Before `main` no handler is set, and line 0 is not in service. -/
structure Interrupts.Boot (s : Interrupts) : Prop where
  screen : s.screen.InRange
  handlers : ∀ n, s.handlers n = none
  tick : s.pitTick = 0
  idle : 0 ∉ s.pics.master.inService

theorem mainInterrupts_timerOn (h : s.Boot) :
    (mainInterrupts s).TimerOn ∧ (mainInterrupts s).pitTick = 0 := by
  have hhandlers : ∀ n, (mainInterrupts s).handlers n =
      if n = vectorIrq0 then some .pitIrqHandler else s.handlers n :=
    fun n => Function.update_apply s.handlers vectorIrq0 (some .pitIrqHandler) n
  have henabled := (IrqCall.irqEnable 0).masked (pic8259aInit_initialised s.pics)
    (Nat.zero_le 15) (Nat.zero_le 15)
  refine ⟨⟨h.screen, (hhandlers _).trans (if_pos rfl), fun n hn => ?_, ⟨rfl, rfl⟩, rfl, rfl, rfl,
    h.idle, henabled.trans (if_pos rfl)⟩, h.tick⟩
  rw [hhandlers, h.handlers] at hn
  split at hn
  · assumption
  · cases hn

/-- Whatever lines, programs and drivers do, as long as no exception stops the kernel, the page
fault of a system call included, and nobody takes line 0 from the timer: every tick is taken and
counted, and the next one will be. -/
theorem runInterrupts_ticks (hs : s.Boot) (hD : BuffersApart D.panicBuffer D.buffer)
    (hspare : D.SpareTimer) (hes : ∀ e ∈ es, InterruptEvent.SparesTimer e) :
    Ends (fun halt => (∃ e ∈ es, e.isException = true) ∨ D.PageFaults halt)
      (fun _ s' => s'.pics.Takes 0 ∧
        s'.pitTick = BitVec.ofNat 32 (es.countP InterruptEvent.isTick))
      (runInterrupts D es (mainInterrupts s)) := by
  obtain ⟨hon, htick⟩ := mainInterrupts_timerOn hs
  refine (runInterrupts_timerOn hon hD hspare hes).imp fun _ s' ⟨hon', hticks⟩ => ?_
  rw [htick] at hticks
  exact ⟨hon'.takes, hticks.trans (BitVec.zero_add _)⟩

theorem bootInterrupts_boot (u : UserContext) : (bootInterrupts u).Boot :=
  ⟨⟨Nat.zero_le _, Nat.zero_le _⟩, fun _ => rfl, rfl, Finset.notMem_empty 0⟩

/-- The timer and a driver for the keyboard. -/
theorem runInterrupts_ticks_keyboard :
    let D := bootDrivers fun _ => [.irqAck 1]
    let u := interruptedContext 0 0
    let es : List InterruptEvent := [.call (.setInterruptHandler 33 (some (.other 0xC0102000))),
      .call (.irqEnable 1), .request 0 u, .request 1 u, .request 0 u]
    Ends (fun halt => (∃ e ∈ es, e.isException = true) ∨ D.PageFaults halt)
      (fun _ s' => s'.pics.Takes 0 ∧
        s'.pitTick = BitVec.ofNat 32 (es.countP InterruptEvent.isTick))
      (runInterrupts D es (mainInterrupts (bootInterrupts u))) := by
  intro D u es
  have hspare : D.SpareTimer := fun address c hc => by
    rw [List.mem_singleton.mp hc]
    trivial
  refine runInterrupts_ticks (bootInterrupts_boot u) (bootDrivers_apart _) hspare fun e he => ?_
  simp only [es, List.mem_cons, List.not_mem_nil, or_false] at he
  rcases he with rfl | rfl | rfl | rfl | rfl
  · exact ⟨by decide, by decide⟩
  · exact (by decide : 1 ≤ 15)
  all_goals exact ⟨by decide, by decide⟩

end Atros
