import Mathlib.Data.List.Count
import Atros.Pic8259a

namespace Atros
set_option autoImplicit true

/-- The chips, and the IRQs whose handlers have not ended. -/
structure IrqState where
  pics : Pics
  running : List Nat

inductive IrqEvent
  /-- The processor takes an IRQ, possibly inside the handler of another. -/
  | accept (irq : Nat)
  /-- A handler of the IRQ ends with `irq_ack`. -/
  | finish (irq : Nat)
  deriving DecidableEq, Repr

def IrqState.step (s : IrqState) : IrqEvent → IrqState
  | .accept irq => ⟨s.pics.accept irq, irq :: s.running⟩
  | .finish irq => ⟨(irqAck irq s.pics).2, s.running.erase irq⟩

def IrqState.run (s : IrqState) : List IrqEvent → IrqState
  | [] => s
  | e :: es => (s.step e).run es

/-- `P` holds before each event of a run. -/
def Along (P : IrqState → IrqEvent → Prop) (s : IrqState) : List IrqEvent → Prop
  | [] => True
  | e :: es => P s e ∧ Along P (s.step e) es

/-- There are 16 lines, and a handler that ends has been started. -/
def Possible (s : IrqState) : IrqEvent → Prop
  | .accept irq => irq < 16
  | .finish irq => irq ∈ s.running

/-- Fully nested mode holds back what has not got priority over the lines in service. -/
def FullyNested (s : IrqState) : IrqEvent → Prop
  | .accept irq => s.pics.Admits irq
  | .finish _ => True

/-- The IRQs of a run that came through the slave. -/
def slaveIrqs (es : List IrqEvent) : List Nat :=
  es.filterMap fun
    | .accept irq => if 8 ≤ irq then some irq else none
    | .finish _ => none

/-- How many handlers of lines of the master are running. -/
def IrqState.masterRunning (s : IrqState) : Nat := s.running.countP (· < 8)

def IrqState.slaveRunning (s : IrqState) : Nat := s.running.countP (8 ≤ ·)

/-- Neither chip ends an interrupt by itself. -/
def IrqState.WaitsForEoi (s : IrqState) : Prop :=
  s.pics.master.autoEoi = false ∧ s.pics.slave.autoEoi = false

theorem Pic.endOfInterrupt_autoEoi (p : Pic) : p.endOfInterrupt.autoEoi = p.autoEoi := by
  unfold Pic.endOfInterrupt
  split <;> rfl

theorem Pic.endOfInterrupt_card (p : Pic) :
    p.endOfInterrupt.inService.card = p.inService.card - 1 := by
  unfold Pic.endOfInterrupt
  split
  · rename_i h
    exact Finset.card_erase_of_mem (p.inService.min'_mem h)
  · rename_i h
    rw [Finset.not_nonempty_iff_eq_empty.mp h, Finset.card_empty]

theorem Pic.accept_autoEoi (p : Pic) (line : Nat) : (p.accept line).autoEoi = p.autoEoi := by
  unfold Pic.accept
  split <;> rfl

theorem Pic.accept_card_le (p : Pic) (line : Nat) :
    (p.accept line).inService.card ≤ p.inService.card + 1 := by
  unfold Pic.accept
  split
  · exact Nat.le_succ _
  · exact Finset.card_insert_le line p.inService

theorem Pic.Admits.accept_card (h : Pic.Admits p line) (hauto : p.autoEoi = false) :
    (p.accept line).inService.card = p.inService.card + 1 := by
  rw [Pic.accept, hauto]
  exact Finset.card_insert_of_notMem fun hl => lt_irrefl line (h line hl)

/-! ### The four kinds of event -/

theorem step_accept_master (s : IrqState) (h : irq < 8) : s.step (.accept irq) =
    ⟨⟨s.pics.master.accept irq, s.pics.slave⟩, irq :: s.running⟩ := by
  rw [IrqState.step, Pics.accept, if_neg (not_le.mpr h)]

theorem step_accept_slave (s : IrqState) (h : 8 ≤ irq) : s.step (.accept irq) =
    ⟨⟨s.pics.master.accept 2, s.pics.slave.accept (irq - 8)⟩, irq :: s.running⟩ := by
  rw [IrqState.step, Pics.accept, if_pos h]

theorem step_finish_master (s : IrqState) (h : irq < 8) : s.step (.finish irq) =
    ⟨⟨s.pics.master.endOfInterrupt, s.pics.slave⟩, s.running.erase irq⟩ := by
  rw [IrqState.step, irqAck_master h]

theorem step_finish_slave (s : IrqState) (h : 8 ≤ irq) : s.step (.finish irq) =
    ⟨⟨s.pics.master, s.pics.slave.endOfInterrupt⟩, s.running.erase irq⟩ := by
  rw [IrqState.step, irqAck_slave h]

theorem IrqState.WaitsForEoi.step (h : IrqState.WaitsForEoi s) (e : IrqEvent) :
    (s.step e).WaitsForEoi := by
  cases e with
  | accept irq =>
    rcases Nat.lt_or_ge irq 8 with hirq | hirq
    · rw [step_accept_master s hirq]
      exact ⟨(Pic.accept_autoEoi _ _).trans h.1, h.2⟩
    · rw [step_accept_slave s hirq]
      exact ⟨(Pic.accept_autoEoi _ _).trans h.1, (Pic.accept_autoEoi _ _).trans h.2⟩
  | finish irq =>
    rcases Nat.lt_or_ge irq 8 with hirq | hirq
    · rw [step_finish_master s hirq]
      exact ⟨(Pic.endOfInterrupt_autoEoi _).trans h.1, h.2⟩
    · rw [step_finish_slave s hirq]
      exact ⟨h.1, (Pic.endOfInterrupt_autoEoi _).trans h.2⟩

theorem countP_erase_mem {l : List Nat} {p : Nat → Bool} (h : irq ∈ l) (hp : p irq = true) :
    (l.erase irq).countP p + 1 = l.countP p := by
  rw [(List.perm_cons_erase h).countP_eq, List.countP_cons_of_pos hp]

theorem countP_erase_not {l : List Nat} {p : Nat → Bool} (hp : ¬p irq = true) :
    (l.erase irq).countP p = l.countP p := by
  by_cases h : irq ∈ l
  · rw [(List.perm_cons_erase h).countP_eq, List.countP_cons_of_neg hp]
  · rw [List.erase_of_not_mem h]

/-- The slave has at most one line in service for each of its handlers that is running. -/
theorem slave_card_step (h : s.pics.slave.inService.card ≤ s.slaveRunning) (hp : Possible s e) :
    (s.step e).pics.slave.inService.card ≤ (s.step e).slaveRunning := by
  unfold IrqState.slaveRunning at *
  cases e with
  | accept irq =>
    rcases Nat.lt_or_ge irq 8 with hirq | hirq
    · rw [step_accept_master s hirq, List.countP_cons_of_neg (by simpa using hirq)]
      exact h
    · have hcard := s.pics.slave.accept_card_le (irq - 8)
      rw [step_accept_slave s hirq, List.countP_cons_of_pos (by simpa using hirq)]
      exact hcard.trans (Nat.succ_le_succ h)
  | finish irq =>
    rcases Nat.lt_or_ge irq 8 with hirq | hirq
    · rw [step_finish_master s hirq, countP_erase_not (by simpa using hirq)]
      exact h
    · have hcount := countP_erase_mem (p := fun i => decide (8 ≤ i)) hp (by simpa using hirq)
      rw [step_finish_slave s hirq, Pic.endOfInterrupt_card]
      simp only
      omega

/-- The master has at most one line in service for each of its own handlers that is running, and
for each IRQ that has come through the slave. -/
theorem master_card_step (h : s.pics.master.inService.card ≤ s.masterRunning + n)
    (hp : Possible s e) : (s.step e).pics.master.inService.card ≤
      (s.step e).masterRunning + (n + (slaveIrqs [e]).length) := by
  unfold IrqState.masterRunning at *
  cases e with
  | accept irq =>
    rcases Nat.lt_or_ge irq 8 with hirq | hirq
    · have hcard := s.pics.master.accept_card_le irq
      rw [step_accept_master s hirq, List.countP_cons_of_pos (by simpa using hirq)]
      simp only
      omega
    · have hcard := s.pics.master.accept_card_le 2
      have hone : (slaveIrqs [.accept irq]).length = 1 := by simp [slaveIrqs, hirq]
      rw [step_accept_slave s hirq, List.countP_cons_of_neg (by simpa using hirq), hone]
      exact hcard.trans (Nat.succ_le_succ h)
  | finish irq =>
    rcases Nat.lt_or_ge irq 8 with hirq | hirq
    · have hcount := countP_erase_mem (p := fun i => decide (i < 8)) hp (by simpa using hirq)
      rw [step_finish_master s hirq, Pic.endOfInterrupt_card]
      simp only
      omega
    · rw [step_finish_slave s hirq, countP_erase_not (by simpa using hirq)]
      exact h

/-- Under fully nested mode each IRQ that comes through the slave leaves a line of the master in
service for good. -/
theorem master_card_step_le (hauto : s.WaitsForEoi)
    (h : s.masterRunning + n ≤ s.pics.master.inService.card)
    (hp : Possible s e) (hf : FullyNested s e) :
    (s.step e).masterRunning + (n + (slaveIrqs [e]).length) ≤
      (s.step e).pics.master.inService.card := by
  unfold IrqState.masterRunning at *
  cases e with
  | accept irq =>
    have hf : s.pics.Admits irq := hf
    rcases Nat.lt_or_ge irq 8 with hirq | hirq
    · rw [Pics.Admits, if_neg (not_le.mpr hirq)] at hf
      rw [step_accept_master s hirq, List.countP_cons_of_pos (by simpa using hirq),
        hf.accept_card hauto.1]
      have hzero : (slaveIrqs [.accept irq]).length = 0 := by simp [slaveIrqs, hirq]
      omega
    · rw [Pics.Admits, if_pos hirq] at hf
      have hone : (slaveIrqs [.accept irq]).length = 1 := by simp [slaveIrqs, hirq]
      rw [step_accept_slave s hirq, List.countP_cons_of_neg (by simpa using hirq), hone,
        hf.1.accept_card hauto.1]
      exact Nat.succ_le_succ h
  | finish irq =>
    rcases Nat.lt_or_ge irq 8 with hirq | hirq
    · have hcount := countP_erase_mem (p := fun i => decide (i < 8)) hp (by simpa using hirq)
      have hzero : (slaveIrqs [.finish irq]).length = 0 := rfl
      rw [step_finish_master s hirq, Pic.endOfInterrupt_card, hzero]
      simp only
      omega
    · rw [step_finish_slave s hirq, countP_erase_not (by simpa using hirq)]
      exact h

/-! ### Runs -/

theorem slaveIrqs_cons (e : IrqEvent) (es : List IrqEvent) :
    slaveIrqs (e :: es) = slaveIrqs [e] ++ slaveIrqs es :=
  List.filterMap_append (l := [e])

theorem slave_card_run (h : s.pics.slave.inService.card ≤ s.slaveRunning)
    (hp : Along Possible s es) : (s.run es).pics.slave.inService.card ≤
    (s.run es).slaveRunning := by
  induction es generalizing s with
  | nil => exact h
  | cons e es ih => exact ih (slave_card_step h hp.1) hp.2

theorem master_card_run (h : s.pics.master.inService.card ≤ s.masterRunning + n)
    (hp : Along Possible s es) : (s.run es).pics.master.inService.card ≤
      (s.run es).masterRunning + (n + (slaveIrqs es).length) := by
  induction es generalizing s n with
  | nil => exact h
  | cons e es ih =>
    have htail := ih (master_card_step h hp.1) hp.2
    rwa [slaveIrqs_cons, List.length_append, ← Nat.add_assoc n]

theorem master_card_run_le (hauto : s.WaitsForEoi)
    (h : s.masterRunning + n ≤ s.pics.master.inService.card)
    (hp : Along Possible s es) (hf : Along FullyNested s es) :
    (s.run es).masterRunning + (n + (slaveIrqs es).length) ≤
      (s.run es).pics.master.inService.card := by
  induction es generalizing s n with
  | nil => exact h
  | cons e es ih =>
    have htail := ih (hauto.step e) (master_card_step_le hauto h hp.1 hf.1) hp.2 hf.2
    rwa [slaveIrqs_cons, List.length_append, ← Nat.add_assoc n]

/-- The state after `pic_8259a_init`. -/
def IrqState.start (boot : Pics) : IrqState := ⟨(pic8259aInit boot).2, []⟩

/-- When all handlers have ended the chips are idle, and no line is held back, if no IRQ came
through the slave; in fully nested mode only then. -/
theorem irqAck_idle_iff (boot : Pics) (es : List IrqEvent) (hboot : boot.Idle)
    (hp : Along Possible (.start boot) es) (hend : ((IrqState.start boot).run es).running = []) :
    (slaveIrqs es = [] → ((IrqState.start boot).run es).pics.Idle ∧
      ∀ irq, ((IrqState.start boot).run es).pics.Admits irq) ∧
    (Along FullyNested (.start boot) es →
      (((IrqState.start boot).run es).pics.Idle ↔ slaveIrqs es = [])) := by
  have hmaster : (IrqState.start boot).pics.master.inService.card = 0 :=
    Finset.card_eq_zero.mpr hboot.1
  have hslave : (IrqState.start boot).pics.slave.inService.card = 0 :=
    Finset.card_eq_zero.mpr hboot.2
  have hidle : slaveIrqs es = [] → ((IrqState.start boot).run es).pics.Idle := by
    intro hnone
    have hm := master_card_run (n := 0) (by omega) hp
    have hs := slave_card_run (by omega) hp
    rw [hnone, IrqState.masterRunning, hend] at hm
    rw [IrqState.slaveRunning, hend] at hs
    exact ⟨Finset.card_eq_zero.mp (Nat.le_zero.mp hm), Finset.card_eq_zero.mp (Nat.le_zero.mp hs)⟩
  refine ⟨fun hnone => ⟨hidle hnone, (hidle hnone).admits⟩, fun hf => ⟨fun h => ?_, hidle⟩⟩
  have hm := master_card_run_le (n := 0) ⟨rfl, rfl⟩ (by rw [hmaster]; exact le_refl 0) hp hf
  rw [h.1, Finset.card_empty] at hm
  exact List.eq_nil_of_length_eq_zero (by omega)

def quietPic : Pic := ⟨.ocw1, false, 0, 0, false, 0, ∅⟩

theorem quietPic_idle : Pics.Idle ⟨quietPic, quietPic⟩ := ⟨rfl, rfl⟩

/-- IRQ 0 interrupts the handler of IRQ 3. -/
theorem irqAck_idle_nested :
    let boot : Pics := ⟨quietPic, quietPic⟩
    let es : List IrqEvent := [.accept 3, .accept 0, .finish 0, .finish 3]
    (slaveIrqs es = [] → ((IrqState.start boot).run es).pics.Idle ∧
      ∀ irq, ((IrqState.start boot).run es).pics.Admits irq) ∧
    (Along FullyNested (.start boot) es →
      (((IrqState.start boot).run es).pics.Idle ↔ slaveIrqs es = [])) :=
  irqAck_idle_iff _ _ quietPic_idle
    ⟨(by decide : 3 < 16), (by decide : 0 < 16), List.mem_cons_self, List.mem_cons_self,
      trivial⟩ rfl

/-- IRQ 8 alone: its handler ends, and line 2 of the master stays in service. -/
theorem irqAck_idle_slave : ¬∀ (boot : Pics) (es : List IrqEvent), boot.Idle →
    Along Possible (.start boot) es → Along FullyNested (.start boot) es →
      ((IrqState.start boot).run es).running = [] → ((IrqState.start boot).run es).pics.Idle := by
  intro hclaim
  have hadmits : ((IrqState.start ⟨quietPic, quietPic⟩).pics).Admits 8 :=
    Pics.Idle.admits ⟨rfl, rfl⟩ 8
  have hidle := hclaim ⟨quietPic, quietPic⟩ [.accept 8, .finish 8] quietPic_idle
    ⟨(by decide : 8 < 16), List.mem_cons_self, trivial⟩ ⟨hadmits, trivial, trivial⟩ rfl
  exact absurd hidle.1 (by decide)

end Atros
