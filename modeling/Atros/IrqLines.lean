import Atros.Pic8259a

namespace Atros
set_option autoImplicit true

/-! ### Masking of single lines -/

/-- A read from a data port gives the mask register. The kernel reads no other port of the chips. -/
def inb (port : Nat) : StateM Pics (BitVec 8) := do
  let s ← get
  return if port = pic2Data then s.slave.mask else s.master.mask

def irqDisable (irq : Nat) : StateM Pics Unit := do
  if irq ≥ 8 then
    let mask ← inb pic2Data
    outb (mask ||| (1#32 <<< (irq - 8)).setWidth 8) pic2Data
  else
    let mask ← inb pic1Data
    outb (mask ||| (1#32 <<< irq).setWidth 8) pic1Data

def irqEnable (irq : Nat) : StateM Pics Unit := do
  if irq ≥ 8 then
    let mask ← inb pic2Data
    outb (mask &&& (~~~(1#32 <<< (irq - 8))).setWidth 8) pic2Data
  else
    let mask ← inb pic1Data
    outb (mask &&& (~~~(1#32 <<< irq)).setWidth 8) pic1Data

inductive IrqCall
  | irqDisable (irq : Nat)
  | irqEnable (irq : Nat)
  deriving DecidableEq, Repr

def IrqCall.irq : IrqCall → Nat
  | irqDisable irq => irq
  | irqEnable irq => irq

def IrqCall.run : IrqCall → StateM Pics Unit
  | irqDisable irq => Atros.irqDisable irq
  | irqEnable irq => Atros.irqEnable irq

def Pics.after (s : Pics) (calls : List IrqCall) : Pics :=
  calls.foldl (fun s c => (c.run s).2) s

/-- The mask bit of a line, on the chip that it is connected to. -/
def Pics.masked (s : Pics) (irq : Nat) : Bool :=
  if 8 ≤ irq then s.slave.mask.getLsbD (irq - 8) else s.master.mask.getLsbD irq

/-- A request on the line gets to the processor; those of the slave come through line 2. -/
def Pics.Reaches (s : Pics) (irq : Nat) : Prop :=
  s.masked irq = false ∧ (8 ≤ irq → s.masked 2 = false)

/-- The lines that a user of the chips may name: line 2 is the slave. -/
def IsLine (irq : Nat) : Prop := irq ≤ 15 ∧ irq ≠ 2

/-- The last call that names the line is `irq_enable`. -/
def LastEnables (irq : Nat) (calls : List IrqCall) : Prop :=
  (calls.filter fun c => c.irq = irq).getLast? = some (.irqEnable irq)

/-- Both chips have been initialised and take a new mask next. -/
def Pics.Initialised (s : Pics) : Prop := s.master.expects = .ocw1 ∧ s.slave.expects = .ocw1

/-- The new mask of a chip, whose line `bit` the call names. -/
def IrqCall.newMask (bit : Nat) (mask : BitVec 8) : IrqCall → BitVec 8
  | irqDisable _ => mask ||| (1#32 <<< bit).setWidth 8
  | irqEnable _ => mask &&& (~~~(1#32 <<< bit)).setWidth 8

def IrqCall.disables : IrqCall → Bool
  | irqDisable _ => true
  | irqEnable _ => false

theorem oneBit_getLsbD : ∀ k < 8, ∀ j < 8,
    ((1#32 <<< k).setWidth 8).getLsbD j = decide (j = k) := by decide

theorem notOneBit_getLsbD : ∀ k < 8, ∀ j < 8,
    ((~~~(1#32 <<< k)).setWidth 8).getLsbD j = !decide (j = k) := by decide

theorem IrqCall.newMask_getLsbD (c : IrqCall) (mask : BitVec 8) (hk : k < 8) (hj : j < 8) :
    (c.newMask k mask).getLsbD j = if j = k then c.disables else mask.getLsbD j := by
  cases c with
  | irqDisable =>
    rw [newMask, BitVec.getLsbD_or, oneBit_getLsbD k hk j hj, disables]
    by_cases h : j = k <;> simp [h]
  | irqEnable =>
    rw [newMask, BitVec.getLsbD_and, notOneBit_getLsbD k hk j hj, disables]
    by_cases h : j = k <;> simp [h]

variable {s boot : Pics} {line : Nat} {calls : List IrqCall}

theorem IrqCall.run_slave (c : IrqCall) (s : Pics) (h : 8 ≤ c.irq) :
    (c.run s).2 = ⟨s.master, s.slave.data (c.newMask (c.irq - 8) s.slave.mask)⟩ := by
  cases c with
  | irqDisable irq =>
    have hirq : irq ≥ 8 := h
    rw [run, Atros.irqDisable, if_pos hirq]
    rfl
  | irqEnable irq =>
    have hirq : irq ≥ 8 := h
    rw [run, Atros.irqEnable, if_pos hirq]
    rfl

theorem IrqCall.run_master (c : IrqCall) (s : Pics) (h : ¬8 ≤ c.irq) :
    (c.run s).2 = ⟨s.master.data (c.newMask c.irq s.master.mask), s.slave⟩ := by
  cases c with
  | irqDisable irq =>
    have hirq : ¬irq ≥ 8 := h
    rw [run, Atros.irqDisable, if_neg hirq]
    rfl
  | irqEnable irq =>
    have hirq : ¬irq ≥ 8 := h
    rw [run, Atros.irqEnable, if_neg hirq]
    rfl

theorem Pic.data_ocw1 {p : Pic} (h : p.expects = .ocw1) (value : BitVec 8) :
    p.data value = { p with mask := value } := by
  rw [data, h]

theorem IrqCall.initialised (c : IrqCall) (h : s.Initialised) : (c.run s).2.Initialised := by
  by_cases hc : 8 ≤ c.irq
  · rw [c.run_slave s hc, Pic.data_ocw1 h.2]
    exact h
  · rw [c.run_master s hc, Pic.data_ocw1 h.1]
    exact h

theorem IrqCall.masked (c : IrqCall) (h : s.Initialised) (hc : c.irq ≤ 15) (hline : line ≤ 15) :
    (c.run s).2.masked line = if line = c.irq then c.disables else s.masked line := by
  unfold Pics.masked
  by_cases hslave : 8 ≤ c.irq
  · rw [c.run_slave s hslave, Pic.data_ocw1 h.2]
    by_cases hl : 8 ≤ line
    · rw [if_pos hl, if_pos hl, c.newMask_getLsbD _ (by omega) (by omega)]
      refine if_congr ?_ rfl rfl
      omega
    · rw [if_neg hl, if_neg hl, if_neg (by omega)]
  · rw [c.run_master s hslave, Pic.data_ocw1 h.1]
    by_cases hl : 8 ≤ line
    · rw [if_pos hl, if_pos hl, if_neg (by omega)]
    · rw [if_neg hl, if_neg hl, c.newMask_getLsbD _ (by omega) (by omega)]

theorem Pics.after_append (s : Pics) (calls : List IrqCall) (c : IrqCall) :
    s.after (calls ++ [c]) = (c.run (s.after calls)).2 := List.foldl_append ..

theorem Pics.Initialised.after (h : s.Initialised) (calls : List IrqCall) :
    (s.after calls).Initialised := by
  induction calls using List.reverseRecOn with
  | nil => exact h
  | append_singleton calls c ih =>
    rw [Pics.after_append]
    exact c.initialised ih

theorem lastEnables_append (calls : List IrqCall) (c : IrqCall) :
    LastEnables line (calls ++ [c]) ↔
      if line = c.irq then c.disables = false else LastEnables line calls := by
  unfold LastEnables
  rw [List.filter_append]
  by_cases hc : line = c.irq
  · rw [if_pos hc, List.filter_cons_of_pos (by rw [hc]; exact decide_eq_true rfl)]
    cases c with
    | irqDisable => simp [IrqCall.disables]
    | irqEnable irq =>
      have hirq : line = irq := hc
      simp [IrqCall.disables, hirq]
  · rw [if_neg hc, List.filter_cons_of_neg (by simpa using fun heq => hc heq.symm), List.filter_nil,
      List.append_nil]

/-- The mask bits after any calls on the chips as they come from `pic_8259a_init`. -/
theorem Pics.masked_after (h : s.Initialised) (hall : s.masked line = true)
    (hcalls : ∀ c ∈ calls, c.irq ≤ 15) (hline : line ≤ 15) :
    (s.after calls).masked line = false ↔ LastEnables line calls := by
  induction calls using List.reverseRecOn with
  | nil =>
    rw [after, List.foldl_nil, hall]
    exact iff_of_false Bool.noConfusion nofun
  | append_singleton calls c ih =>
    have hc := hcalls c (List.mem_append_right _ List.mem_cons_self)
    rw [after_append, c.masked (h.after calls) hc hline, lastEnables_append]
    by_cases hl : line = c.irq
    · rw [if_pos hl, if_pos hl]
    · rw [if_neg hl, if_neg hl]
      exact ih fun c hc => hcalls c (List.mem_append_left _ hc)

theorem pic8259aInit_initialised (boot : Pics) : (pic8259aInit boot).2.Initialised := ⟨rfl, rfl⟩

theorem pic8259aInit_masked (boot : Pics) :
    ∀ line ≤ 15, (pic8259aInit boot).2.masked line = true := by
  have hbits : ∀ bit < 8, (0xFF#8).getLsbD bit = true := by decide
  intro line hline
  rw [pic8259aInit_programs, Pics.masked]
  by_cases hl : 8 ≤ line
  · rw [if_pos hl]
    exact hbits _ (by omega)
  · rw [if_neg hl]
    exact hbits _ (by omega)

/-- What users of the chips have called, after `pic_8259a_init`, on the lines that they may name. -/
def IrqHistory (calls : List IrqCall) : Prop := ∀ c ∈ calls, IsLine c.irq

/-- The lines of the slave never reach the processor: line 2 of the master stays masked. -/
theorem IrqHistory.reaches_iff (h : IrqHistory calls) (boot : Pics) (hline : IsLine line) :
    ((pic8259aInit boot).2.after calls).Reaches line ↔ line < 8 ∧ LastEnables line calls := by
  have hcalls : ∀ c ∈ calls, c.irq ≤ 15 := fun c hc => (h c hc).1
  have hmasked := Pics.masked_after (pic8259aInit_initialised boot)
    (pic8259aInit_masked boot line hline.1) hcalls hline.1
  have hcascade : ((pic8259aInit boot).2.after calls).masked 2 ≠ false := by
    rw [Ne, Pics.masked_after (pic8259aInit_initialised boot)
      (pic8259aInit_masked boot 2 (by decide)) hcalls (by decide)]
    intro hlast
    have hmem := List.mem_of_getLast? hlast
    exact (h _ (List.mem_filter.mp hmem).1).2 rfl
  rw [Pics.Reaches, hmasked]
  constructor
  · rintro ⟨hlast, hslave⟩
    refine ⟨Nat.lt_of_not_le fun hl => hcascade (hslave hl), hlast⟩
  · rintro ⟨hlt, hlast⟩
    exact ⟨hlast, fun hl => absurd hlt (Nat.not_lt.mpr hl)⟩

/-- A line follows the last call that names it exactly when it is one of the master, or that call
does not enable it; calls on other lines do not matter. -/
theorem irqCalls_follow_iff (h : IrqHistory calls) (boot : Pics) (hline : IsLine line) :
    ((((pic8259aInit boot).2.after calls).Reaches line ↔ LastEnables line calls) ↔
      line < 8 ∨ ¬LastEnables line calls) ∧
    ∀ c : IrqCall, IsLine c.irq → c.irq ≠ line →
      (((pic8259aInit boot).2.after (calls ++ [c])).Reaches line ↔
        ((pic8259aInit boot).2.after calls).Reaches line) := by
  refine ⟨?_, fun c hc hne => ?_⟩
  · rw [h.reaches_iff boot hline]
    constructor
    · intro hiff
      by_cases hlast : LastEnables line calls
      · exact .inl (hiff.mpr hlast).1
      · exact .inr hlast
    · rintro (hlt | hlast)
      · exact and_iff_right hlt
      · exact iff_of_false (fun hc => hlast hc.2) hlast
  · have happend : IrqHistory (calls ++ [c]) := by
      intro c' hc'
      rcases List.mem_append.mp hc' with hc' | hc'
      · exact h c' hc'
      · exact List.mem_singleton.mp hc' ▸ hc
    rw [happend.reaches_iff boot hline, h.reaches_iff boot hline, lastEnables_append,
      if_neg fun heq => hne heq.symm]

/-- Both chips before `pic_8259a_init`. -/
def resetPics : Pics :=
  ⟨⟨.icw2, false, 0, 0, false, 0, ∅⟩, ⟨.icw2, false, 0, 0, false, 0, ∅⟩⟩

theorem irqEnable_slave_masked : ¬∀ boot calls line, IrqHistory calls → IsLine line →
    (((pic8259aInit boot).2.after calls).Reaches line ↔ LastEnables line calls) := by
  intro hclaim
  have hhistory : IrqHistory [.irqEnable 8] := by
    intro c hc
    rw [List.mem_singleton.mp hc]
    exact ⟨by decide, by decide⟩
  have hline : IsLine 8 := ⟨by decide, by decide⟩
  have hreaches := (hclaim resetPics [.irqEnable 8] 8 hhistory hline).mpr rfl
  exact absurd ((hhistory.reaches_iff resetPics hline).mp hreaches).1 (by decide)

/-- Calls on the lines of the timer, the keyboard and a slave's line. -/
def severalCalls : List IrqCall :=
  [.irqEnable 0, .irqEnable 1, .irqDisable 0, .irqEnable 8, .irqEnable 0, .irqDisable 1]

theorem severalCalls_history : IrqHistory severalCalls := by
  unfold IrqHistory IsLine
  decide

/-- The line of the timer is enabled after them, and also when the keyboard's has been once more. -/
theorem irqCalls_follow_timer :
    ((pic8259aInit resetPics).2.after severalCalls).Reaches 0 ∧
      ((pic8259aInit resetPics).2.after (severalCalls ++ [.irqEnable 1])).Reaches 0 := by
  have hline : IsLine 0 := ⟨by decide, by decide⟩
  obtain ⟨hfollows, hothers⟩ := irqCalls_follow_iff severalCalls_history resetPics hline
  have hreaches := (hfollows.mpr (.inl (by decide))).mpr rfl
  exact ⟨hreaches, (hothers (.irqEnable 1) ⟨by decide, by decide⟩ (by decide)).mpr hreaches⟩

end Atros
