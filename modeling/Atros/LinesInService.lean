import Atros.TimerRuns

namespace Atros
set_option autoImplicit true

variable {s s' : Interrupts} {D : Drivers} {irq : Nat}

/-! ### The requests that are taken -/

/-- The line of an event, if its request is taken. -/
def InterruptEvent.taken (s : Interrupts) : InterruptEvent → List Nat
  | request irq _ => if s.pics.Takes irq then [irq] else []
  | software _ _ _ | call _ => []

/-- The lines whose requests are taken in a run. -/
def takenIrqs (D : Drivers) : List InterruptEvent → Interrupts → List Nat
  | [], _ => []
  | e :: es, s =>
    e.taken s ++ match e.step D s with
      | .ok (_, s') => takenIrqs D es s'
      | .error _ => []

/-- The call ends no interrupt of the master. -/
def DriverCall.Unacked : DriverCall → Prop
  | irqAck irq => 8 ≤ irq
  | irqEnable _ | irqDisable _ | setInterruptHandler _ _ | pitInit | pitSetFrequency _ => True

def Drivers.Unacked (D : Drivers) : Prop := ∀ address, ∀ c ∈ D.code address, c.Unacked

def InterruptEvent.Unacked : InterruptEvent → Prop
  | call c => c.Unacked
  | request _ _ | software _ _ _ => True

theorem DriverCall.Unacked.run (hc : DriverCall.Unacked c) (h : s.pics.Initialised) :
    (c.run s).pics.master.inService = s.pics.master.inService := by
  have hcall : ∀ c : IrqCall, (c.run s.pics).2.master.inService = s.pics.master.inService := by
    intro c
    by_cases hc : 8 ≤ c.irq
    · rw [c.run_slave s.pics hc]
    · rw [c.run_master s.pics hc, Pic.data_ocw1 h.1]
  cases c with
  | irqAck irq =>
    have hc : 8 ≤ irq := hc
    exact congrArg (·.master.inService) (irqAck_slave hc s.pics)
  | irqEnable irq => exact hcall (.irqEnable irq)
  | irqDisable irq => exact hcall (.irqDisable irq)
  | setInterruptHandler | pitInit | pitSetFrequency => rfl

theorem Drivers.Unacked.call {f : InterruptHandler} (hD : D.Unacked) (hspare : D.SpareTimer)
    (h : s.TimerOn) (hf : f ≠ .pitIrqHandler) :
    (D.call s f).pics.master.inService = s.pics.master.inService := by
  cases f with
  | pitIrqHandler => exact absurd rfl hf
  | other address =>
    have hcalls := hD address
    have hspares := hspare address
    rw [Drivers.call]
    generalize D.code address = calls at hcalls hspares ⊢
    induction calls generalizing s with
    | nil => rfl
    | cons c calls ih =>
      have hhead := (hcalls c List.mem_cons_self).run h.initialised
      have hon := ((hspares c List.mem_cons_self).run h).1
      exact (ih hon (fun c hc => hcalls c (List.mem_cons_of_mem _ hc))
        fun c hc => hspares c (List.mem_cons_of_mem _ hc)).trans hhead

/-- An interrupt that is not the timer's ends no interrupt of the master. -/
theorem Interrupts.TimerOn.inService (h : s.TimerOn) (hD : BuffersApart D.panicBuffer D.buffer)
    (hspare : D.SpareTimer) (hunacked : D.Unacked) (hn : n ≠ vectorIrq0) (u : UserContext) :
    Ends (fun _ => True) (fun _ s' => s'.pics.master.inService = s.pics.master.inService)
      (takeInterrupt D n u s) := by
  have hdispatched := takeInterrupt_dispatched hD h.screen n u
  generalize takeInterrupt D n u s = r at hdispatched
  cases hdispatched with
  | breakpoint => rfl
  | waits | faults | panics => trivial
  | handled _ hhandler _ _ =>
    have hhandler : s.handlers ((n.setWidth 32).setWidth 8) = some _ := hhandler
    rw [vector_setWidth] at hhandler
    have hentered : (s.entered n u).TimerOn := h.congr rfl rfl h.screen
    exact hunacked.call hspare hentered fun hpit => hn (h.only n (hpit ▸ hhandler))
  | ignored => rfl

/-- The lines of the master through which an event gets to the processor, but for the timer's. -/
def masterLines (irqs : List Nat) : List Nat := (irqs.filter (· ≠ 0)).map masterLine

theorem masterLines_nil : masterLines [] = [] := rfl

theorem masterLines_append (irqs irqs' : List Nat) :
    masterLines (irqs ++ irqs') = masterLines irqs ++ masterLines irqs' := by
  rw [masterLines, List.filter_append, List.map_append]
  rfl

theorem masterLines_bounds (irqs : List Nat) : ∀ l ∈ masterLines irqs, 1 ≤ l ∧ l ≤ 7 := by
  intro l hl
  obtain ⟨irq, hirq, rfl⟩ := List.mem_map.mp hl
  have hne : irq ≠ 0 := by simpa using (List.mem_filter.mp hirq).2
  rw [masterLine]
  split <;> omega

theorem InterruptEvent.taken_before (e : InterruptEvent) (s : Interrupts) :
    ∀ l ∈ masterLines (e.taken s), ∀ k ∈ s.pics.master.inService, l < k := by
  intro l hl k hk
  obtain ⟨irq, hirq, rfl⟩ := List.mem_map.mp hl
  have hirq := (List.mem_filter.mp hirq).1
  cases e with
  | request irq' u =>
    rw [taken] at hirq
    split at hirq
    · rename_i htakes
      rw [List.mem_singleton.mp hirq]
      exact htakes.2.master k hk
    · exact absurd hirq List.not_mem_nil
  | software | call => exact absurd hirq List.not_mem_nil

theorem InterruptEvent.taken_single (e : InterruptEvent) (s : Interrupts) :
    (masterLines (e.taken s)).Pairwise (· > ·) := by
  cases e with
  | request irq u =>
    rw [taken]
    split
    · exact (List.pairwise_singleton _ irq).filter _ |>.map _ fun _ _ h => h
    · exact .nil
  | software | call => exact .nil

theorem Pics.accept_inService {pics : Pics} (hauto : pics.master.autoEoi = false) (irq l : Nat) :
    l ∈ (pics.accept irq).master.inService ↔ l ∈ pics.master.inService ∨ l ∈ [masterLine irq] := by
  rw [Pics.accept_master, Pic.accept, if_neg (Bool.eq_false_iff.mp hauto), Finset.mem_insert,
    List.mem_singleton, or_comm]

/-- A line that has been taken stays in service, unless it is the timer's. -/
theorem InterruptEvent.Unacked.step {e : InterruptEvent} (he : e.Unacked) (hs : e.SparesTimer)
    (h : s.TimerOn) (hD : BuffersApart D.panicBuffer D.buffer) (hspare : D.SpareTimer)
    (hunacked : D.Unacked) : Ends (fun _ => True) (fun _ s' => ∀ l, l ∈ s'.pics.master.inService ↔
      l ∈ s.pics.master.inService ∨ l ∈ masterLines (e.taken s)) (e.step D s) := by
  cases e with
  | request irq u =>
    rw [InterruptEvent.step, bind_get, taken]
    split
    · rename_i htakes
      by_cases h0 : irq = 0
      · subst h0
        rw [h.vectorOf (by decide)]
        refine (h.tick hD u).mono (fun _ _ => trivial) fun _ s' hs' l => ?_
        rw [hs'.2.2]
        exact (or_iff_left List.not_mem_nil).symm
      · have hlines : masterLines [irq] = [masterLine irq] := by
          rw [masterLines, List.filter_cons_of_pos (by simpa using h0)]
          rfl
        rw [hlines, h.vectorOf hs.1]
        refine ((h.accept h0).inService hD hspare hunacked (vector_ne h0 hs.1) u).imp
          fun _ s' hs' l => ?_
        rw [hs']
        exact Pics.accept_inService h.waits irq l
    · exact fun l => (or_iff_left List.not_mem_nil).symm
  | software n cr2 u =>
    have hcr2 : Interrupts.TimerOn { s with cr2 } := h.congr rfl rfl h.screen
    refine (hcr2.inService hD hspare hunacked (software_ne hs) u).imp fun _ s' hs' l => ?_
    rw [hs']
    exact (or_iff_left List.not_mem_nil).symm
  | call c =>
    intro l
    have hrun := DriverCall.Unacked.run he h.initialised
    exact (iff_of_eq (congrArg (l ∈ ·) hrun)).trans (or_iff_left List.not_mem_nil).symm

/-! ### Runs -/

theorem takenIrqs_before (h : s.TimerOn) (hD : BuffersApart D.panicBuffer D.buffer)
    (hspare : D.SpareTimer) (hunacked : D.Unacked)
    (hes : ∀ e ∈ es, InterruptEvent.SparesTimer e ∧ e.Unacked) :
    (masterLines (takenIrqs D es s)).Pairwise (· > ·) ∧
    ∀ l ∈ masterLines (takenIrqs D es s), ∀ k ∈ s.pics.master.inService, l < k := by
  induction es generalizing s with
  | nil => exact ⟨.nil, fun l hl => absurd hl List.not_mem_nil⟩
  | cons e es ih =>
    obtain ⟨hspares, he⟩ := hes e List.mem_cons_self
    have hservice := he.step hspares h hD hspare hunacked
    have hon := hspares.step h hD hspare
    have hbefore := e.taken_before s
    rw [takenIrqs, masterLines_append]
    cases hstep : e.step D s with
    | error =>
      simp only
      rw [masterLines_nil, List.append_nil]
      exact ⟨e.taken_single s, hbefore⟩
    | ok r =>
      obtain ⟨⟨⟩, s'⟩ := r
      have hservice := hservice.ok hstep
      obtain ⟨hdec, hlow⟩ := ih (hon.ok hstep).1 fun e he => hes e (List.mem_cons_of_mem _ he)
      refine ⟨List.pairwise_append.mpr ⟨e.taken_single s, hdec, fun l hl k hk => ?_⟩,
        fun l hl k hk => ?_⟩
      · exact hlow k hk l ((hservice l).mpr (.inr hl))
      · rcases List.mem_append.mp hl with hl | hl
        · exact hbefore l hl k hk
        · exact hlow l hl k ((hservice k).mpr (.inl hk))

/-- Where nobody ends the interrupts of other lines than the timer's, each line of the master is
taken only before all the lines taken earlier: no line twice, and no more than seven in all. -/
theorem takenIrqs_main (hs : s.Boot) (hD : BuffersApart D.panicBuffer D.buffer)
    (hspare : D.SpareTimer) (hunacked : D.Unacked)
    (hes : ∀ e ∈ es, InterruptEvent.SparesTimer e ∧ e.Unacked) :
    (masterLines (takenIrqs D es (mainInterrupts s))).Pairwise (· > ·) ∧
    (masterLines (takenIrqs D es (mainInterrupts s))).length ≤ 7 := by
  have hdec := (takenIrqs_before (mainInterrupts_timerOn hs).1 hD hspare hunacked hes).1
  refine ⟨hdec, ?_⟩
  have hnodup : (masterLines (takenIrqs D es (mainInterrupts s))).Nodup :=
    hdec.imp fun h => Nat.ne_of_gt h
  have hsub : masterLines (takenIrqs D es (mainInterrupts s)) ⊆ List.range' 1 7 := by
    intro l hl
    have hbounds := masterLines_bounds _ l hl
    rw [List.mem_range'_1]
    omega
  exact (List.subperm_of_subset hnodup hsub).length_le

/-- The keyboard without a driver. -/
theorem takenIrqs_main_keyboard :
    let D := bootDrivers fun _ => []
    let u := interruptedContext 0 0
    let es : List InterruptEvent :=
      [.call (.irqEnable 1), .request 1 u, .request 0 u, .request 1 u]
    (masterLines (takenIrqs D es (mainInterrupts (bootInterrupts u)))).Pairwise (· > ·) ∧
    (masterLines (takenIrqs D es (mainInterrupts (bootInterrupts u)))).length ≤ 7 := by
  intro D u es
  refine takenIrqs_main (bootInterrupts_boot u) (bootDrivers_apart _)
    (fun _ c hc => absurd hc List.not_mem_nil) (fun _ c hc => absurd hc List.not_mem_nil)
    fun e he => ?_
  simp only [es, List.mem_cons, List.not_mem_nil, or_false] at he
  rcases he with rfl | rfl | rfl | rfl
  · exact ⟨(by decide : 1 ≤ 15), trivial⟩
  all_goals exact ⟨⟨by decide, by decide⟩, trivial⟩

end Atros
