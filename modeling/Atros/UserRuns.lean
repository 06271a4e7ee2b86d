import Atros.UserTasks

namespace Atros
set_option autoImplicit true

variable {c : Processor} {K : BitVec 32 → Prop} {s t u s₀ : Cpu} {T : Tables}
  {isrEntries : Nat → BitVec 32} {ktss esp0 : BitVec 32}

/-! ### What a task sees -/

/-- The same registers, and the same memory but for the bytes `K` of the kernel. -/
structure Cpu.SameUser (K : BitVec 32 → Prop) (s t : Cpu) : Prop where
  registers : { s with mem := t.mem } = t
  memory : ∀ a, ¬K a → s.mem a = t.mem a

theorem Cpu.SameUser.refl (s : Cpu) : s.SameUser K s := ⟨rfl, fun _ _ => rfl⟩

theorem Cpu.SameUser.trans (h : s.SameUser K t) (h' : t.SameUser K u) : s.SameUser K u := by
  refine ⟨?_, fun a ha => (h.memory a ha).trans (h'.memory a ha)⟩
  have hregisters := congrArg (fun r : Cpu => { r with mem := u.mem }) h.registers
  exact hregisters.trans h'.registers

/-- Code of ring 3 without a null selector other than 0, which an interrupt would replace by it. -/
structure Processor.RunsTask (c : Processor) (s : Cpu) : Prop extends c.Runs s where
  ring3 : rpl s.cs = 3
  null : ∀ sel ∈ [s.ds, s.es, s.fs, s.gs], isNull sel = true → sel = 0

/-- The steps of a program in ring 3, which stays there and does not see the kernel. -/
structure UserProgram (c : Processor) (K : BitVec 32 → Prop) where
  step : Cpu → Cpu
  runs : ∀ s, c.RunsTask s → c.RunsTask (step s)
  blind : ∀ s t, c.RunsTask s → s.SameUser K t → (step s).SameUser K (step t)

/-- The states after `n` steps of the program, with interrupts in between. What the kernel does in
an interrupt is any change of its own memory that returns with the frame as it was. -/
inductive UserRun (P : UserProgram c K) (T : Tables) (ktss esp0 : BitVec 32) (s₀ : Cpu) :
    Nat → Cpu → Prop
  | start : UserRun P T ktss esp0 s₀ 0 s₀
  | step {n : Nat} {s : Cpu} : UserRun P T ktss esp0 s₀ n s →
    UserRun P T ktss esp0 s₀ (n + 1) (P.step s)
  | interrupt {n : Nat} {s s₁ s₂ s' : Cpu} {cause : Cause} {vector : Fin nbrIdtEntries}
    {errorCode returnAddress : BitVec 32} : UserRun P T ktss esp0 s₀ n s →
    cause = .exception ∨ pushesErrorCode vector = false →
    T.enter c ktss cause vector errorCode returnAddress s = .ok ((), s₁) →
    s₁.Returned s₂ (s.frameAt esp0) s.frameSize → (∀ a, ¬K a → s₂.mem a = s₁.mem a) →
    cpuContextResume c s₂ = .ok ((), s') → UserRun P T ktss esp0 s₀ n s'

theorem Cpu.keptSelector_task (h : isNull sel = true → sel = 0) (s : Cpu) :
    s.keptSelector sel = sel := by
  unfold keptSelector
  split
  · exact (h (‹_ ∧ _›).2).symm
  · rfl

theorem Processor.RunsTask.resumed (h : c.RunsTask s) (m : Mem32) :
    s.resumed m = { s with mem := m } := by
  have hsel {sel : BitVec 16} (hin : sel ∈ [s.ds, s.es, s.fs, s.gs]) : s.keptSelector sel = sel :=
    Cpu.keptSelector_task (h.null sel hin) s
  rw [Cpu.resumed, hsel (by simp), hsel (by simp), hsel (by simp), hsel (by simp)]

theorem Processor.RunsTask.withMem (h : c.RunsTask s) (m : Mem32) :
    c.RunsTask { s with mem := m } :=
  ⟨⟨h.ring, h.vm, h.ds, h.es, h.fs, h.gs⟩, h.ring3, h.null⟩

theorem Processor.RunsTask.frameSize (h : c.RunsTask s) : s.frameSize = 76 := if_pos h.ring3

theorem Processor.RunsTask.handlerStack (h : c.RunsTask s) (esp0 : BitVec 32) :
    s.handlerStack esp0 = esp0 := by
  refine if_pos ?_
  rw [h.ring3]
  decide

/-- The bytes at the top of the stack for ring 0 that an interrupt of a task may write. -/
def KernelStack (K : BitVec 32 → Prop) (esp0 : BitVec 32) : Prop :=
  ∀ i < 84, K (esp0 - BitVec.ofNat 32 (i + 1))

section
variable (hT : T.OfKernel isrEntries ktss esp0) (hstack : KernelStack K esp0)
include hT hstack

theorem interrupt_sameUser {cause : Cause} {vector : Fin nbrIdtEntries} (h : c.RunsTask s)
    (herror : cause = .exception ∨ pushesErrorCode vector = false)
    (henter : T.enter c ktss cause vector e r s = .ok ((), s₁))
    (hret : s₁.Returned s₂ (s.frameAt esp0) s.frameSize) (hmem : ∀ a, ¬K a → s₂.mem a = s₁.mem a)
    (hresume : cpuContextResume c s₂ = .ok ((), s')) : s'.SameUser K s ∧ c.RunsTask s' := by
  have hcases := hT.enters h.toRuns cause vector e r
  split at hcases
  · exact nomatch hcases.symm.trans henter
  · obtain ⟨s₁', henter', hat⟩ := hcases herror
    obtain ⟨-, rfl⟩ := Prod.mk.inj (Except.ok.inj (henter'.symm.trans henter))
    have hrun := (hat.resumes s₂ hret).symm.trans hresume
    obtain ⟨-, rfl⟩ := Prod.mk.inj (Except.ok.inj hrun)
    rw [h.resumed]
    refine ⟨⟨rfl, fun a ha => (hmem a ha).trans (hat.others a fun i hi heq => ?_)⟩, h.withMem _⟩
    rw [h.frameSize] at hi
    rw [h.handlerStack] at heq
    exact ha (heq ▸ hstack i hi)

theorem UserRun.sameUser {P : UserProgram c K} (h₀ : c.RunsTask s₀)
    (hrun : UserRun P T ktss esp0 s₀ n t) : t.SameUser K (P.step^[n] s₀) ∧ c.RunsTask t := by
  induction hrun with
  | start => exact ⟨.refl s₀, h₀⟩
  | step _ ih =>
    rw [Function.iterate_succ_apply']
    exact ⟨P.blind _ _ ih.2 ih.1, P.runs _ ih.2⟩
  | interrupt _ herror henter hret hmem hresume ih =>
    obtain ⟨hsame, htask⟩ := interrupt_sameUser hT hstack ih.2 herror henter hret hmem hresume
    exact ⟨hsame.trans ih.1, htask⟩

/-- An interrupt that the task may take can be entered, and whatever the kernel does, left. -/
def Tables.Serves (T : Tables) (c : Processor) (ktss esp0 : BitVec 32) (s : Cpu) : Prop :=
  ∀ (cause : Cause) (vector : Fin nbrIdtEntries) (errorCode returnAddress : BitVec 32),
    cause = .exception ∨ pushesErrorCode vector = false → ¬cause.Refused s vector →
    ∃ s₁, T.enter c ktss cause vector errorCode returnAddress s = .ok ((), s₁) ∧
      (readUserContext s₁.mem (s.frameAt esp0)).Holds s vector errorCode ∧
      ∀ s₂, s₁.Returned s₂ (s.frameAt esp0) s.frameSize →
        cpuContextResume c s₂ = .ok ((), { s with mem := s₂.mem })

omit hstack in
theorem Processor.RunsTask.served (h : c.RunsTask s) : T.Serves c ktss esp0 s := by
  intro cause vector e r herror hallowed
  have hcases := hT.enters h.toRuns cause vector e r
  rw [if_neg hallowed] at hcases
  obtain ⟨s₁, henter, hat⟩ := hcases herror
  refine ⟨s₁, henter, hat.frame, fun s₂ hret => ?_⟩
  rw [hat.resumes s₂ hret, h.resumed]

end

theorem userTask_runsTask (h : c.dpl userDs = 3) (pc top param : BitVec 32) (m : Mem32) :
    c.RunsTask (userTask pc top param m) := by
  refine ⟨userTask_runs h pc top param m, (by decide : rpl userCs = 3), fun sel hsel hnull => ?_⟩
  simp only [userTask, List.mem_cons, List.not_mem_nil, or_false, or_self] at hsel
  subst hsel
  exact absurd hnull (by decide)

/-- A task that has been started runs as if there were no interrupts: after `n` steps of it, however
many interrupts came in between, its registers and its memory are those after `n` steps without
any, and the next interrupt finds all of its context and can be resumed. -/
theorem userTask_undisturbed (isrEntries : Nat → BitVec 32) (ktss kernelStackPa : BitVec 32)
    (T : Tables) (hktss : ktss.toNat % 4096 = 0)
    (hc : c.Uses (mainTables isrEntries ktss kernelStackPa T).kgdt)
    (hstack : KernelStack K (kernelStackPa + BitVec.ofNat 32 kernelSpace)) (hp : p ≠ 0)
    (hcs : rpl s.cs = 0) (hnt : s.eflags.bits.getLsbD ntFlag = false)
    (hstart : startUserTask c p pc top param returnAddress s = .ok ((), s₀))
    (P : UserProgram c K)
    (hrun : UserRun P (mainTables isrEntries ktss kernelStackPa T) ktss
      (kernelStackPa + BitVec.ofNat 32 kernelSpace) s₀ n t) :
    t.SameUser K (P.step^[n] (userTask pc top param s₀.mem)) ∧
      (mainTables isrEntries ktss kernelStackPa T).Serves c ktss
        (kernelStackPa + BitVec.ofNat 32 kernelSpace) t := by
  have hT := mainTables_ofKernel isrEntries ktss kernelStackPa T hktss
  have hdpl : c.dpl userDs = 3 := hc _ _ (mainTables_userDs isrEntries ktss kernelStackPa T) rfl
  obtain ⟨m, hstart', -⟩ := startUserTask_run hdpl hp hcs hnt pc top param returnAddress
  obtain ⟨-, rfl⟩ := Prod.mk.inj (Except.ok.inj (hstart'.symm.trans hstart))
  obtain ⟨hsame, htask⟩ := hrun.sameUser hT hstack (userTask_runsTask hdpl pc top param m)
  exact ⟨hsame, htask.served hT⟩

/-- The bytes from `KERNEL_SPACE` on. -/
def InKernelSpace (a : BitVec 32) : Prop := kernelSpace ≤ a.toNat

/-- A program that counts in `eax` for ever. -/
def counting : UserProgram gdtProcessor InKernelSpace where
  step s := { s with eax := s.eax + 1 }
  runs s h := ⟨⟨h.ring, h.vm, h.ds, h.es, h.fs, h.gs⟩, h.ring3, h.null⟩
  blind s t _ h := by
    refine ⟨?_, h.memory⟩
    have heax := congrArg Cpu.eax h.registers
    have hstep := congrArg (fun r : Cpu => { r with eax := t.eax + 1 }) h.registers
    simp only at heax hstep
    rw [← hstep, ← heax]

theorem counting_run (h : gdtProcessor.RunsTask s₀) : ∃ t,
    UserRun counting someTables 0xC0108000 (0x105000 + BitVec.ofNat 32 kernelSpace) s₀ 2 t := by
  have hT : someTables.OfKernel (fun _ => 0xC0101000) 0xC0108000
      (0x105000 + BitVec.ofNat 32 kernelSpace) :=
    mainTables_ofKernel (fun _ => 0xC0101000) 0xC0108000 0x105000 zeroTables (by decide)
  have hstep : UserRun counting someTables 0xC0108000 (0x105000 + BitVec.ofNat 32 kernelSpace) s₀ 1
      (counting.step s₀) := .step .start
  have htask := counting.runs s₀ h
  obtain ⟨s₁, henter, -, hresume⟩ := htask.served hT .device ⟨32, by decide⟩ 0 0x100
    (.inr (by decide)) fun hrefused => nomatch hrefused.1
  let s₂ : Cpu := { s₁ with esp := s₁.esp + 4, eflags := .load 0 }
  have hnt : (Eflags.load 0).bits.getLsbD ntFlag = false := by decide
  have hret : s₁.Returned s₂ ((counting.step s₀).frameAt (0x105000 + BitVec.ofNat 32 kernelSpace))
      (counting.step s₀).frameSize := ⟨rfl, rfl, rfl, hnt, fun _ _ => rfl⟩
  exact ⟨_, (hstep.interrupt (.inr (by decide)) henter hret (fun _ _ => rfl)
    (hresume s₂ hret)).step⟩

theorem userTask_undisturbed_counting : ∃ s₀ t,
    startUserTask gdtProcessor 0xC0200000 0x40000000 0x50000000 7 0x100 inKernel = .ok ((), s₀) ∧
      UserRun counting someTables 0xC0108000 (0x105000 + BitVec.ofNat 32 kernelSpace) s₀ 2 t ∧
      t.SameUser InKernelSpace (counting.step^[2] (userTask 0x40000000 0x50000000 7 s₀.mem)) ∧
      someTables.Serves gdtProcessor 0xC0108000 (0x105000 + BitVec.ofNat 32 kernelSpace) t := by
  have hdpl : gdtProcessor.dpl userDs = 3 := by decide
  have hstack : KernelStack InKernelSpace (0x105000 + BitVec.ofNat 32 kernelSpace) := by
    intro i hi
    rw [InKernelSpace, kernelSpace]
    bv_omega
  obtain ⟨m, hstart, -⟩ := startUserTask_run (s := inKernel) (p := 0xC0200000) hdpl (by decide)
    (by decide) (by decide) 0x40000000 0x50000000 7 0x100
  obtain ⟨t, hrun⟩ := counting_run (userTask_runsTask hdpl 0x40000000 0x50000000 7 m)
  exact ⟨_, t, hstart, hrun, userTask_undisturbed (fun _ => 0xC0101000) 0xC0108000 0x105000
    zeroTables (by decide) gdtProcessor_uses hstack (by decide) (by decide) (by decide) hstart
    counting hrun⟩

end Atros
