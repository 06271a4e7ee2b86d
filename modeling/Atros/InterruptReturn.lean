import Atros.InterruptFrame

namespace Atros
set_option autoImplicit true

variable {c : Processor} {s t : Cpu}

/-! ### Return -/

theorem popSegment_run {set : BitVec 16 → Cpu → Cpu} (s : Cpu) (h : Stacked m esp (w :: ws))
    (hload : c.Loads (rpl s.cs) (w.setWidth 16))
    (hset : ∀ sel (s : Cpu) m esp, set sel (s.withStack m esp) = (set sel s).withStack m esp) :
    popSegment c set (s.withStack m esp) =
      .ok ((), (set (w.setWidth 16) s).withStack m (esp + 4)) := by
  rw [popSegment, bind_ok (pop_run h.1), loadSegment_run (s := s.withStack m (esp + 4)) hload, hset]

theorem popa_run (s : Cpu)
    (h : Stacked m esp (edi :: esi :: ebp :: oldEsp :: ebx :: edx :: ecx :: eax :: ws)) :
    popa (s.withStack m esp) = .ok ((), Cpu.withStack
      { s with edi := edi, esi := esi, ebp := ebp, ebx := ebx, edx := edx, ecx := ecx, eax := eax }
      m (esp + 32)) := by
  obtain ⟨h₁, h₂, h₃, h₄, h₅, h₆, h₇, h₈, h⟩ := h
  have hesp : esp + 32 = esp + 4 + 4 + 4 + 4 + 4 + 4 + 4 + 4 := by bv_omega
  rw [popa, bind_ok (pop_run h₁), bind_ok (pop_run h₂), bind_ok (pop_run h₃),
    bind_ok (pop_run h₄), bind_ok (pop_run h₅), bind_ok (pop_run h₆), bind_ok (pop_run h₇),
    bind_ok (pop_run h₈), hesp]
  rfl

theorem iret_same (s : Cpu) (h : Stacked m esp [eip, cs, eflags]) (hcpl : rpl s.cs = 0)
    (hnt : s.eflags.bits.getLsbD ntFlag = false) (hvm : eflags.getLsbD vmFlag = false)
    (hcs : rpl (cs.setWidth 16) = 0) : iret c (s.withStack m esp) = .ok ((), Cpu.withStack
      { s with eip := eip, cs := cs.setWidth 16, eflags := .load eflags } m (esp + 12)) := by
  obtain ⟨h₁, h₂, h₃, -⟩ := h
  have hesp : esp + 12 = esp + 4 + 4 + 4 := by bv_omega
  have hle : rpl s.cs ≤ rpl (cs.setWidth 16) := by omega
  have hnot : ¬rpl s.cs < rpl (cs.setWidth 16) := by omega
  rw [iret, bind_get, Cpu.withStack_eflags, Cpu.withStack_cs, bind_ok (check_ok hnt),
    bind_ok (pop_run h₁), bind_ok (pop_run h₂), bind_ok (pop_run h₃), bind_ok (check_ok hvm),
    bind_ok (check_ok hle), hesp]
  exact (congrFun (if_neg hnot) _).trans rfl

theorem iret_outer (s : Cpu) (h : Stacked m esp [eip, cs, eflags, esp', ss]) (hcpl : rpl s.cs = 0)
    (hnt : s.eflags.bits.getLsbD ntFlag = false) (hvm : eflags.getLsbD vmFlag = false)
    (hcs : rpl (cs.setWidth 16) = 3) (hss : rpl (ss.setWidth 16) = 3 ∧ c.dpl (ss.setWidth 16) = 3) :
    iret c (s.withStack m esp) = .ok ((), Cpu.withStack
      { s with
        eip := eip
        cs := cs.setWidth 16
        eflags := .load eflags
        ss := ss.setWidth 16
        ds := c.outward 3 s.ds
        es := c.outward 3 s.es
        fs := c.outward 3 s.fs
        gs := c.outward 3 s.gs } m esp') := by
  obtain ⟨h₁, h₂, h₃, h₄, h₅, -⟩ := h
  have hle : rpl s.cs ≤ rpl (cs.setWidth 16) := by omega
  have hlt : rpl s.cs < rpl (cs.setWidth 16) := by omega
  rw [iret, bind_get, Cpu.withStack_eflags, Cpu.withStack_cs, bind_ok (check_ok hnt),
    bind_ok (pop_run h₁), bind_ok (pop_run h₂), bind_ok (pop_run h₃), bind_ok (check_ok hvm),
    bind_ok (check_ok hle)]
  refine (congrFun (if_pos hlt) _).trans ?_
  rw [bind_ok (pop_run h₄), bind_ok (pop_run h₅)]
  rw [bind_ok (check_ok ⟨hss.1.trans hcs.symm, hss.2.trans hcs.symm⟩), hcs]
  rfl

/-- What a selector of the interrupted code is after the return: a return to ring 3 turns any null
selector into 0. -/
def Cpu.keptSelector (s : Cpu) (sel : BitVec 16) : BitVec 16 :=
  if rpl s.cs = 3 ∧ isNull sel = true then 0 else sel

theorem Processor.Loads.outward (h : c.Loads 3 sel) (hcs : rpl s.cs = 3) :
    c.outward 3 sel = s.keptSelector sel := by
  unfold Processor.outward Cpu.keptSelector
  by_cases hnull : isNull sel = true
  · rw [if_pos (.inl hnull), if_pos ⟨hcs, hnull⟩]
  · have hle := h.resolve_left hnull
    rw [if_neg (by rintro (h | h); exacts [hnull h, by omega]), if_neg (fun h => hnull h.2)]

theorem Cpu.keptSelector_kernel (h : rpl s.cs = 0) (sel : BitVec 16) : s.keptSelector sel = sel :=
  if_neg fun h' => by omega

/-- A selector that the interrupted code has can be loaded in the kernel. -/
theorem Processor.Loads.kernel (h : c.Loads cpl sel) : c.Loads 0 sel :=
  h.imp_right fun hle => Nat.max_le.mpr ⟨Nat.zero_le _, (Nat.max_le.mp hle).2⟩

/-- The state `s` after the interrupt, with the memory `m`. -/
def Cpu.resumed (s : Cpu) (m : Mem32) : Cpu :=
  { s with
    mem := m
    ds := s.keptSelector s.ds
    es := s.keptSelector s.es
    fs := s.keptSelector s.fs
    gs := s.keptSelector s.gs }

theorem addEsp_run (s : Cpu) (m : Mem32) (esp n : BitVec 32) :
    addEsp n (s.withStack m esp) = .ok ((), s.withStack m (esp + n)) := rfl

theorem cpuContextRestore_run {t : Cpu} (hs : c.Runs s) (hsaved : s.Saved saved)
    (hpushed : s.Pushed pushed) (h : Stacked m esp (saved ++ w :: w' :: pushed))
    (hcs : rpl t.cs = 0) (hss : t.ss = kernelDs) (hnt : t.eflags.bits.getLsbD ntFlag = false)
    (hesp : rpl s.cs = 0 → esp + 68 = s.esp) :
    cpuContextRestore c (t.withStack m esp) = .ok ((), s.resumed m) := by
  obtain @⟨ds, es, fs, gs, oldEsp, hds, hes, hfs, hgs⟩ := hsaved
  have hload : ∀ {sel : BitVec 16}, c.Loads (rpl s.cs) sel → c.Loads (rpl t.cs) sel := by
    intro sel hsel
    rw [hcs]
    exact hsel.kernel
  have hpopa := h.2.2.2.2
  have hpushedAt : Stacked m (esp + 4 + 4 + 4 + 4 + 32 + 8) pushed := by
    have htail := hpopa.2.2.2.2.2.2.2.2.2.2
    have haddr : esp + 4 + 4 + 4 + 4 + 4 + 4 + 4 + 4 + 4 + 4 + 4 + 4 + 4 + 4 =
        esp + 4 + 4 + 4 + 4 + 32 + 8 := by bv_omega
    rwa [haddr] at htail
  let t₁ := setDs s.ds t
  let t₂ := setEs s.es t₁
  let t₃ := setFs s.fs t₂
  rw [cpuContextRestore, bind_ok (popSegment_run t h (hload (hds ▸ hs.ds)) fun _ _ _ _ => rfl), hds,
    bind_ok (popSegment_run t₁ h.2 (hload (hes ▸ hs.es)) fun _ _ _ _ => rfl), hes,
    bind_ok (popSegment_run t₂ h.2.2 (hload (hfs ▸ hs.fs)) fun _ _ _ _ => rfl), hfs,
    bind_ok (popSegment_run t₃ h.2.2.2 (hload (hgs ▸ hs.gs)) fun _ _ _ _ => rfl), hgs,
    bind_ok (popa_run (setGs s.gs t₃) hpopa), bind_ok (addEsp_run _ _ _ 8)]
  let t₄ : Cpu := { s with eip := t.eip, eflags := t.eflags, cs := t.cs, ss := t.ss }
  change iret c (t₄.withStack m (esp + 4 + 4 + 4 + 4 + 32 + 8)) = _
  cases hpushed with
  | ring0 hring hcs' =>
    have hstack : s.ss = kernelDs := (hs.ring.resolve_left fun h => by omega).2
    have haddr : esp + 4 + 4 + 4 + 4 + 32 + 8 + 12 = s.esp := by
      rw [← hesp hring]
      bv_omega
    rw [iret_same t₄ hpushedAt hcs hnt hs.vm (by rw [hcs', hring]), hcs', haddr, Eflags.load_bits,
      Cpu.resumed, Cpu.keptSelector_kernel hring, Cpu.keptSelector_kernel hring,
      Cpu.keptSelector_kernel hring, Cpu.keptSelector_kernel hring, hstack, ← hss]
    rfl
  | ring3 hring hcs' hss' =>
    have hstack := hs.ring.resolve_right fun h => by omega
    have hout : ∀ {sel : BitVec 16}, c.Loads (rpl s.cs) sel → c.outward 3 sel =
      s.keptSelector sel := by
      intro sel hsel
      rw [hring] at hsel
      exact hsel.outward hring
    rw [iret_outer t₄ hpushedAt hcs hnt hs.vm (by rw [hcs', hring]) (by rw [hss']; exact hstack.2),
      hcs', hss', Eflags.load_bits, hout hs.ds, hout hs.es, hout hs.fs, hout hs.gs]
    rfl

/-! ### The whole path -/

/-- The registers of `s` in a `struct Cpu_context`, apart from `old_esp`. -/
structure CpuContext.Holds (k : CpuContext) (s : Cpu) (vector : Nat) (errorCode : BitVec 32) :
    Prop where
  ds : k.ds.setWidth 16 = s.ds
  es : k.es.setWidth 16 = s.es
  fs : k.fs.setWidth 16 = s.fs
  gs : k.gs.setWidth 16 = s.gs
  edi : k.edi = s.edi
  esi : k.esi = s.esi
  ebp : k.ebp = s.ebp
  ebx : k.ebx = s.ebx
  edx : k.edx = s.edx
  ecx : k.ecx = s.ecx
  eax : k.eax = s.eax
  intNumber : k.intNumber = .ofNat 32 vector
  errorCode : k.errorCode = errorWord vector errorCode
  eip : k.eip = s.eip
  cs : k.cs.setWidth 16 = s.cs
  eflags : k.eflags = s.eflags.bits

structure UserContext.Holds (k : UserContext) (s : Cpu) (vector : Nat) (errorCode : BitVec 32) :
    Prop where
  context : k.context.Holds s vector errorCode
  user : rpl s.cs = 3 → k.esp = s.esp ∧ k.ss.setWidth 16 = s.ss

/-- The size of the frame: a `struct User_context` for ring 3, a `struct Cpu_context` for ring 0. -/
def Cpu.frameSize (s : Cpu) : Nat := if rpl s.cs = 3 then 76 else 68

/-- `interrupt_dispatcher` has been called in `s₁` and has returned in `s₂`, with the frame at `p`
unchanged. -/
structure Cpu.Returned (s₁ s₂ : Cpu) (p : BitVec 32) (size : Nat) : Prop where
  esp : s₂.esp = s₁.esp + 4
  cs : s₂.cs = s₁.cs
  ss : s₂.ss = s₁.ss
  nt : s₂.eflags.bits.getLsbD ntFlag = false
  frame : ∀ i, i < size → s₂.mem (p + .ofNat 32 i) = s₁.mem (p + .ofNat 32 i)

/-- From the interrupted code to the call of `interrupt_dispatcher`. -/
def interruptEntry (c : Processor) (esp0 : BitVec 32) (vector : Nat)
    (errorCode returnAddress : BitVec 32) : Prog CpuFault Cpu Unit := do
  interrupt c esp0 vector errorCode
  handler vector
  cpuContextSave c returnAddress

theorem Cpu.Saved.length (h : s.Saved ws) : ws.length = 12 := by
  cases h
  rfl

theorem Cpu.Pushed.length (h : s.Pushed ws) : 4 * (14 + ws.length) = s.frameSize := by
  unfold Cpu.frameSize
  cases h with
  | ring0 hring => rw [if_neg (by omega)]; rfl
  | ring3 hring => rw [if_pos hring]; rfl

theorem readCpuContext_holds (hsaved : s.Saved saved)
    (h : Stacked m p (saved ++ .ofNat 32 n :: errorWord n e :: s.eip :: cs :: s.eflags.bits :: ws))
    (hcs : cs.setWidth 16 = s.cs) : (readCpuContext m p).Holds s n e := by
  cases hsaved with
  | mk oldEsp hds hes hfs hgs =>
    have hword := fun k w hk => h.get (k := k) (w := w) hk
    refine ⟨?_, ?_, ?_, ?_, hword 4 _ rfl, hword 5 _ rfl, hword 6 _ rfl, hword 8 _ rfl,
      hword 9 _ rfl, hword 10 _ rfl, hword 11 _ rfl, hword 12 _ rfl, hword 13 _ rfl,
      hword 14 _ rfl, ?_, hword 16 _ rfl⟩
    · exact (congrArg (BitVec.setWidth 16) h.1).trans hds
    · exact (congrArg (BitVec.setWidth 16) (hword 1 _ rfl)).trans hes
    · exact (congrArg (BitVec.setWidth 16) (hword 2 _ rfl)).trans hfs
    · exact (congrArg (BitVec.setWidth 16) (hword 3 _ rfl)).trans hgs
    · exact (congrArg (BitVec.setWidth 16) (hword 15 _ rfl)).trans hcs

theorem readUserContext_holds (hsaved : s.Saved saved) (hpushed : s.Pushed pushed)
    (h : Stacked m p (saved ++ .ofNat 32 n :: errorWord n e :: pushed)) :
    (readUserContext m p).Holds s n e := by
  cases hpushed with
  | ring0 hring hcs => exact ⟨readCpuContext_holds hsaved h hcs, fun hring' => by omega⟩
  | ring3 hring hcs hss =>
    refine ⟨readCpuContext_holds hsaved h hcs, fun _ => ?_⟩
    cases hsaved with
    | mk oldEsp hds hes hfs hgs =>
      have hword := fun k w hk => h.get (k := k) (w := w) hk
      exact ⟨hword 17 _ rfl, (congrArg (BitVec.setWidth 16) (hword 18 _ rfl)).trans hss⟩

theorem interruptEntry_run (hs : c.Runs s) (esp0 : BitVec 32) (n : Nat)
    (e returnAddress : BitVec 32) : ∃ s₁ p saved pushed,
      interruptEntry c esp0 n e returnAddress s = .ok ((), s₁) ∧
      s₁.mem.word (s₁.esp + 4) = p ∧ s.Saved saved ∧ s.Pushed pushed ∧
      Stacked s₁.mem p (saved ++ .ofNat 32 n :: errorWord n e :: pushed) ∧
      s₁.esp + 8 = p ∧ (rpl s.cs = 0 → p + 68 = s.esp) ∧ s₁.cs = kernelCs ∧ s₁.ss = kernelDs := by
  obtain ⟨m₁, esp₁, pushed, hr₁, hpushed, h₁, hesp⟩ := interrupt_run hs esp0 n e
  have hlen : pushed.length ≤ 5 := by
    cases hpushed <;> simp
  obtain ⟨m₂, hr₂, h₂⟩ := handler_leaves s.entered h₁ (by omega)
  obtain ⟨m₃, saved, hsaved, hr₃, h₃⟩ := cpuContextSave_leaves s.entered h₂
    (by simp only [List.length_cons]; omega) (by decide : rpl kernelCs = 0) returnAddress
  generalize hp : esp₁ + BitVec.ofNat 32 (4 * (errorWords n e).length) - 8 - 48 = p at *
  have hsaved' : s.Saved saved := by
    cases hsaved with
    | mk oldEsp hds hes hfs hgs => exact .mk oldEsp hds hes hfs hgs
  refine ⟨s.entered.inKernel.withStack m₃ (p - 8), p, saved, pushed, ?_, ?_, hsaved', hpushed, ?_,
    ?_, fun hring => ?_, rfl, rfl⟩
  · rw [interruptEntry, bind_ok hr₁, bind_ok hr₂, hr₃]
  · exact h₃.2.1
  · have hframe := h₃.2.2
    rw [BitVec.add_assoc, show (4 : BitVec 32) + 4 = 8 from rfl, BitVec.sub_add_cancel] at hframe
    exact hframe
  · exact BitVec.sub_add_cancel p 8
  · rw [← hesp hring, ← hp]
    bv_omega

theorem interrupt_path (hs : c.Runs s) (esp0 : BitVec 32) (n : Nat) (e returnAddress : BitVec 32) :
    ∃ s₁ p, interruptEntry c esp0 n e returnAddress s = .ok ((), s₁) ∧
      s₁.mem.word (s₁.esp + 4) = p ∧ (readUserContext s₁.mem p).Holds s n e ∧
      ∀ s₂, s₁.Returned s₂ p s.frameSize →
        cpuContextResume c s₂ = .ok ((), s.resumed s₂.mem) := by
  obtain ⟨s₁, p, saved, pushed, hrun, harg, hsaved, hpushed, hframe, hesp, htop, hcs, hss⟩ :=
    interruptEntry_run hs esp0 n e returnAddress
  refine ⟨s₁, p, hrun, harg, readUserContext_holds hsaved hpushed hframe, fun s₂ hret => ?_⟩
  have hkept : Stacked s₂.mem p (saved ++ .ofNat 32 n :: errorWord n e :: pushed) := by
    refine hframe.congr fun i hi => hret.frame i ?_
    rw [List.length_append, List.length_cons, List.length_cons, hsaved.length] at hi
    rw [← hpushed.length]
    omega
  have hp : s₂.esp + 4 = p := by
    rw [hret.esp, ← hesp, BitVec.add_assoc]
    rfl
  have hresume : cpuContextResume c s₂ = cpuContextRestore c (s₂.withStack s₂.mem p) := by
    rw [← hp]
    rfl
  rw [hresume]
  exact cpuContextRestore_run hs hsaved hpushed hkept (by rw [hret.cs, hcs]; decide)
    (hret.ss.trans hss) hret.nt htop

theorem interrupt_resumes (c : Processor) (s : Cpu) (hs : c.Runs s) (esp0 : BitVec 32)
    (vector : Nat) (errorCode returnAddress : BitVec 32) :
    ∃ s₁ p, interruptEntry c esp0 vector errorCode returnAddress s = .ok ((), s₁) ∧
      s₁.mem.word (s₁.esp + 4) = p ∧ (readUserContext s₁.mem p).Holds s vector errorCode ∧
      ∀ s₂, s₁.Returned s₂ p s.frameSize →
        cpuContextResume c s₂ = .ok ((), s.resumed s₂.mem) :=
  interrupt_path hs esp0 vector errorCode returnAddress

def userCs : BitVec 16 := (3 <<< 3) + 3
def userDs : BitVec 16 := (4 <<< 3) + 3

/-- The kernel's GDT, on a processor that clears the upper half of a pushed selector. -/
def gdtProcessor : Processor where
  dpl sel := if sel.toNat / 8 = 3 ∨ sel.toNat / 8 = 4 then 3 else 0
  pushed _ sel := sel.setWidth 32
  pushed_selector _ sel := BitVec.setWidth_setWidth_of_le sel (by decide)
  kernelDs_dpl := by decide

/-- A program in ring 3 with its data segment in all registers but `ds`. -/
def userProgram (ds : BitVec 16) : Cpu where
  eax := 0
  ecx := 1
  edx := 2
  ebx := 3
  esp := 0x8000
  ebp := 5
  esi := 6
  edi := 7
  eip := 0x1000
  eflags := .load 0x202
  cs := userCs
  ss := userDs
  ds := ds
  es := userDs
  fs := userDs
  gs := userDs
  mem _ := 0

theorem userProgram_runs (ds : BitVec 16) (h : gdtProcessor.Loads 3 ds) :
    gdtProcessor.Runs (userProgram ds) := by
  have hcs : rpl (userProgram ds).cs = 3 := (by decide : rpl userCs = 3)
  have hdata : gdtProcessor.Loads (rpl (userProgram ds).cs) userDs := by
    rw [hcs]
    decide
  have hds : gdtProcessor.Loads (rpl (userProgram ds).cs) ds := by
    rw [hcs]
    exact h
  have hss : rpl userDs = 3 ∧ gdtProcessor.dpl userDs = 3 := by decide
  have hvm : (Eflags.load 0x202).bits.getLsbD vmFlag = false := by decide
  exact ⟨.inl ⟨hcs, hss⟩, hvm, hds, hdata, hdata, hdata⟩

theorem interrupt_resumes_user : ∃ s₁ p,
    interruptEntry gdtProcessor 0x9000 14 4 0x100 (userProgram userDs) = .ok ((), s₁) ∧
      s₁.mem.word (s₁.esp + 4) = p ∧
      (readUserContext s₁.mem p).Holds (userProgram userDs) 14 4 ∧
      ∀ s₂, s₁.Returned s₂ p (userProgram userDs).frameSize →
        cpuContextResume gdtProcessor s₂ = .ok ((), (userProgram userDs).resumed s₂.mem) :=
  interrupt_resumes gdtProcessor (userProgram userDs) (userProgram_runs userDs (by decide))
  0x9000 14 4
    0x100

/-- A program in ring 3 that has loaded the null selector 3 into `ds` goes on with 0 in it. -/
theorem interrupt_clears_null : ¬∀ (c : Processor) (s : Cpu), c.Runs s →
    ∀ (esp0 : BitVec 32) (vector : Nat) (errorCode returnAddress : BitVec 32),
      ∃ s₁ p, interruptEntry c esp0 vector errorCode returnAddress s = .ok ((), s₁) ∧
        s₁.mem.word (s₁.esp + 4) = p ∧ (readUserContext s₁.mem p).Holds s vector errorCode ∧
        ∀ s₂, s₁.Returned s₂ p s.frameSize →
          cpuContextResume c s₂ = .ok ((), { s with mem := s₂.mem }) := by
  intro hclaim
  have hruns : gdtProcessor.Runs (userProgram 3) := userProgram_runs 3 (by decide)
  obtain ⟨s₁, p, hrun, harg, -, hresume⟩ := hclaim _ _ hruns 0x9000 14 4 0x100
  obtain ⟨s₁', p', hrun', harg', -, hresume'⟩ := interrupt_path hruns 0x9000 14 4 0x100
  obtain ⟨-, rfl⟩ := Prod.mk.inj (Except.ok.inj (hrun.symm.trans hrun'))
  obtain rfl : p = p' := harg.symm.trans harg'
  let s₂ : Cpu := { s₁ with esp := s₁.esp + 4, eflags := .load 0 }
  have hnt : (Eflags.load 0).bits.getLsbD ntFlag = false := by decide
  have hret : s₁.Returned s₂ p (userProgram 3).frameSize := ⟨rfl, rfl, rfl, hnt, fun _ _ => rfl⟩
  have hsame := (hresume s₂ hret).symm.trans (hresume' s₂ hret)
  have hds : (3 : BitVec 16) = 0 :=
    congrArg (fun r : Unit × Cpu => r.2.ds) (Except.ok.inj hsame)
  exact absurd hds (by decide)

end Atros
