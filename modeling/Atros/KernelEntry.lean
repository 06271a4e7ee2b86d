import Atros.Delivery

namespace Atros
set_option autoImplicit true

variable {c : Processor} {s s' s'' t : Cpu} {T : Tables} {isrEntries : Nat → BitVec 32}
  {ktss esp0 : BitVec 32} {cause : Cause} {n : Fin nbrIdtEntries}

/-! ### What is written on the way -/

/-- `n` bytes have been pushed: every byte above them is as before. -/
structure Cpu.Pushes (s : Cpu) (n : Nat) (s' : Cpu) : Prop where
  esp : s'.esp = s.esp - BitVec.ofNat 32 n
  mem : ∀ a, (∀ i < n, a ≠ s.esp - BitVec.ofNat 32 (i + 1)) → s'.mem a = s.mem a

theorem Cpu.Pushes.refl (s : Cpu) : s.Pushes 0 s :=
  ⟨(BitVec.sub_zero s.esp).symm, fun _ _ => rfl⟩

theorem Cpu.Pushes.trans (h : s.Pushes j s') (h' : s'.Pushes k s'') : s.Pushes (j + k) s'' := by
  refine ⟨?_, fun a ha => ?_⟩
  · rw [h'.esp, h.esp, BitVec.ofNat_add, BitVec.sub_sub]
  · rw [h'.mem a fun i hi => ?_, h.mem a fun i hi => ha i (by omega)]
    have hne := ha (j + i) (by omega)
    rw [h.esp, BitVec.sub_sub, ← BitVec.ofNat_add]
    exact hne

/-- The program pushes `n` bytes, if it goes on at all. -/
def Sinks (x : Prog CpuFault Cpu Unit) (n : Nat) : Prop :=
  ∀ s, Ends (fun _ => True) (fun _ s' => s.Pushes n s') (x s)

theorem Sinks.seq {x y : Prog CpuFault Cpu Unit} (hx : Sinks x j) (hy : Sinks y k) :
    Sinks (x >>= fun _ => y) (j + k) := fun s =>
  (hx s).bind fun _ s' hs => (hy s').imp fun _ _ hs' => hs.trans hs'

theorem Sinks.of_get {f : Cpu → Prog CpuFault Cpu Unit} (hf : ∀ s, Sinks (f s) k) :
    Sinks (get >>= f) k := fun s => hf s s

theorem Sinks.modify {f : Cpu → Cpu} (hf : ∀ s, (f s).esp = s.esp ∧ (f s).mem = s.mem) :
    Sinks (modify f) 0 := fun s =>
  ⟨(hf s).1.trans (BitVec.sub_zero _).symm, fun a _ => congrFun (hf s).2 a⟩

theorem Sinks.check {p : Prop} [Decidable p] {e : CpuFault} : Sinks (check p e) 0 := fun s =>
  (Ends.check fun _ => trivial).imp fun _ _ h => h.1 ▸ .refl s

theorem push_sinks (w : BitVec 32) : Sinks (push w) 4 := by
  intro s
  refine ⟨rfl, fun a ha => Mem32.setWord_outside ?_ s.mem w⟩
  by_contra hlt
  have h₀ := ha 3 (by decide)
  have h₁ := ha 2 (by decide)
  have h₂ := ha 1 (by decide)
  have h₃ := ha 0 (by decide)
  simp only [Nat.reduceAdd] at h₀ h₁ h₂ h₃
  bv_omega

theorem pushSelector_sinks (c : Processor) (sel : BitVec 16) : Sinks (pushSelector c sel) 4 :=
  .of_get fun _ => push_sinks _

theorem pusha_sinks : Sinks pusha 32 := by
  refine .of_get fun s => ?_
  refine (push_sinks _).seq (k := 28) <| (push_sinks _).seq (k := 24) <|
    (push_sinks _).seq (k := 20) <| (push_sinks _).seq (k := 16) <| (push_sinks _).seq (k := 12) <|
    (push_sinks _).seq (k := 8) <| (push_sinks _).seq (k := 4) (push_sinks _)

theorem pushErrorCode_sinks (n : Nat) (e : BitVec 32) :
    Sinks (pushErrorCode n e) (if pushesErrorCode n then 4 else 0) := by
  rw [pushErrorCode]
  split
  · exact push_sinks e
  · exact .refl

theorem handler_sinks (n : Nat) : Sinks (handler n) (if pushesErrorCode n then 4 else 8) := by
  rw [handler]
  by_cases hn : pushesErrorCode n = true
  · rw [if_pos ((handler_pushes n).mpr hn), if_pos hn]
    exact push_sinks _
  · rw [if_neg fun hin => hn ((handler_pushes n).mp hin), if_neg hn]
    exact (push_sinks 0).seq (push_sinks _)

theorem loadSegment_sinks (c : Processor) (set : BitVec 16 → Cpu → Cpu)
    (hset : ∀ sel s, (set sel s).esp = s.esp ∧ (set sel s).mem = s.mem) (sel : BitVec 16) :
    Sinks (loadSegment c set sel) 0 :=
  .of_get fun _ => Sinks.check.seq (k := 0) (.modify fun s => hset sel s)

theorem cpuContextSave_sinks (c : Processor) (returnAddress : BitVec 32) :
    Sinks (cpuContextSave c returnAddress) 56 := by
  have heax : Sinks (modify fun s => { s with eax := kernelDs.setWidth 32 }) 0 :=
    .modify fun _ => ⟨rfl, rfl⟩
  have hds : Sinks (loadSegment c setDs kernelDs) 0 :=
    loadSegment_sinks c setDs (fun _ _ => ⟨rfl, rfl⟩) kernelDs
  have hes : Sinks (loadSegment c setEs kernelDs) 0 :=
    loadSegment_sinks c setEs (fun _ _ => ⟨rfl, rfl⟩) kernelDs
  have hfs : Sinks (loadSegment c setFs kernelDs) 0 :=
    loadSegment_sinks c setFs (fun _ _ => ⟨rfl, rfl⟩) kernelDs
  have hgs : Sinks (loadSegment c setGs kernelDs) 0 :=
    loadSegment_sinks c setGs (fun _ _ => ⟨rfl, rfl⟩) kernelDs
  have hss : Sinks (loadSs c kernelDs) 0 :=
    .of_get fun _ => Sinks.check.seq (k := 0) (.modify fun _ => ⟨rfl, rfl⟩)
  have hcall : Sinks (do
      let s ← get
      push s.esp
      push returnAddress) 8 := .of_get fun _ => (push_sinks _).seq (k := 4) (push_sinks _)
  have hsegments := heax.seq (hds.seq (hes.seq (hfs.seq (hgs.seq (hss.seq hcall)))))
  refine pusha_sinks.seq (k := 24) <| .of_get fun s => ?_
  exact (pushSelector_sinks c _).seq (k := 20) <| (pushSelector_sinks c _).seq (k := 16) <|
    (pushSelector_sinks c _).seq (k := 12) <| (pushSelector_sinks c _).seq (k := 8) hsegments

theorem Sinks.of_ok {x : Prog CpuFault Cpu Unit} (h : Sinks x k) (hrun : x s = .ok ((), s')) :
    s.Pushes k s' := (h s).ok hrun

/-- The bytes that are pushed of `s` from the stack pointer `top` on. -/
structure Cpu.EnteredAt (s s' : Cpu) (top : BitVec 32) (n : Nat) : Prop where
  esp : s'.esp = top - BitVec.ofNat 32 n
  mem : ∀ a, (∀ i < n, a ≠ top - BitVec.ofNat 32 (i + 1)) → s'.mem a = s.mem a

/-- The stack on which the handler runs. -/
def Cpu.handlerStack (s : Cpu) (esp0 : BitVec 32) : BitVec 32 :=
  if 0 < rpl s.cs then esp0 else s.esp

def Cpu.pushedBytes (s : Cpu) (n : Nat) : Nat :=
  (if 0 < rpl s.cs then 8 else 0) + (12 + if pushesErrorCode n then 4 else 0)

theorem interrupt_enters (c : Processor) (s : Cpu) (esp0 : BitVec 32) (n : Nat) (e : BitVec 32)
    (hrun : interrupt c esp0 n e s = .ok ((), s')) :
    s.EnteredAt s' (s.handlerStack esp0) (s.pushedBytes n) := by
  have hlast : Sinks (do
      push s.eflags.bits
      pushSelector c s.cs
      push s.eip
      pushErrorCode n e
      modify fun s => { s with cs := kernelCs, eflags := s.eflags.clear gateFlags })
      (12 + if pushesErrorCode n then 4 else 0) := by
    have hmodify : Sinks (modify fun s =>
        { s with cs := kernelCs, eflags := s.eflags.clear gateFlags }) 0 :=
      .modify fun _ => ⟨rfl, rfl⟩
    have hcode := (pushErrorCode_sinks n e).seq hmodify
    have hall := (push_sinks s.eflags.bits).seq <| (pushSelector_sinks c s.cs).seq <|
      (push_sinks s.eip).seq hcode
    have hsum : 4 + (4 + (4 + ((if pushesErrorCode n then 4 else 0) + 0))) =
        12 + if pushesErrorCode n then 4 else 0 := by omega
    rwa [hsum] at hall
  rw [interrupt, bind_get] at hrun
  rw [Cpu.handlerStack, Cpu.pushedBytes]
  by_cases hcpl : 0 < rpl s.cs
  · rw [if_pos hcpl, bind_modify] at hrun
    rw [if_pos hcpl, if_pos hcpl]
    have hpushes := ((pushSelector_sinks c s.ss).seq <| (push_sinks s.esp).seq hlast).of_ok hrun
    rw [← Nat.add_assoc] at hpushes
    exact ⟨hpushes.esp, hpushes.mem⟩
  · rw [if_neg hcpl] at hrun
    rw [if_neg hcpl, if_neg hcpl, Nat.zero_add]
    have hpushes := hlast.of_ok hrun
    exact ⟨hpushes.esp, hpushes.mem⟩

theorem Cpu.EnteredAt.pushes (h : s.EnteredAt s' top j) (h' : s'.Pushes k s'') :
    s.EnteredAt s'' top (j + k) := by
  have hfrom : ({ s with esp := top } : Cpu).Pushes j s' := ⟨h.esp, h.mem⟩
  have hto := hfrom.trans h'
  exact ⟨hto.esp, hto.mem⟩

/-! ### From the interrupted code to the dispatcher -/

/-- The processor goes through the tables, and the handler calls `interrupt_dispatcher`. -/
def Tables.enter (T : Tables) (c : Processor) (ktss : BitVec 32) (cause : Cause)
    (n : Fin nbrIdtEntries) (errorCode returnAddress : BitVec 32) : Prog CpuFault Cpu Unit := do
  T.deliver c ktss cause n errorCode
  handler n
  cpuContextSave c returnAddress

/-- Where the frame of the interrupted code lies: at the top of the stack of the handler. -/
def Cpu.frameAt (s : Cpu) (esp0 : BitVec 32) : BitVec 32 :=
  s.handlerStack esp0 - BitVec.ofNat 32 s.frameSize

/-- In `s₁` the dispatcher is called with the frame of the interrupted code `s`, of which nothing
else has changed, and which goes on when the dispatcher returns. -/
structure Cpu.AtDispatcher (s s₁ : Cpu) (c : Processor) (esp0 : BitVec 32) (vector : Nat)
    (errorCode : BitVec 32) : Prop where
  argument : s₁.mem.word (s₁.esp + 4) = s.frameAt esp0
  frame : (readUserContext s₁.mem (s.frameAt esp0)).Holds s vector errorCode
  kernel : s₁.cs = kernelCs ∧ s₁.ss = kernelDs ∧ s₁.eflags = s.eflags.clear gateFlags
  others : ∀ a, (∀ i < s.frameSize + 8, a ≠ s.handlerStack esp0 - BitVec.ofNat 32 (i + 1)) →
    s₁.mem a = s.mem a
  resumes : ∀ s₂, s₁.Returned s₂ (s.frameAt esp0) s.frameSize →
    cpuContextResume c s₂ = .ok ((), s.resumed s₂.mem)

/-- The state in which the handler of a vector begins, apart from its stack. -/
def Cpu.atHandler (s : Cpu) (addr : BitVec 32) : Cpu := { s.entered with eip := addr }

/-- What the processor, the handler and `cpu_context_save` push is the frame, and the argument and
the return address of the call. -/
theorem Processor.Runs.pushedBytes_frameSize (hs : c.Runs s) (n : Nat) :
    s.pushedBytes n + (if pushesErrorCode n then 4 else 8) + 56 = s.frameSize + 8 := by
  rw [Cpu.pushedBytes, Cpu.frameSize]
  rcases hs.ring with ⟨hcs, -, -⟩ | ⟨hcs, -⟩
  · rw [if_pos (by omega), if_pos hcs]
    split <;> rfl
  · have h0 : ¬0 < rpl s.cs := by omega
    have h3 : ¬rpl s.cs = 3 := by omega
    rw [if_neg h0, if_neg h3]
    split <;> rfl

/-- When the dispatcher has returned, with the frame as it was, the interrupted code goes on. -/
theorem Processor.Runs.resumes_frame {s₁ s₂ : Cpu} {pushed : List (BitVec 32)} (hs : c.Runs s)
    (hsaved : s.Saved saved) (hpushed : s.Pushed pushed)
    (hstack : Stacked s₁.mem p (saved ++ w :: w' :: pushed)) (hesp : s₁.esp = p - 8)
    (hsegments : s₁.cs = kernelCs ∧ s₁.ss = kernelDs) (htop : rpl s.cs = 0 → p + 68 = s.esp)
    (hret : s₁.Returned s₂ p s.frameSize) :
    cpuContextResume c s₂ = .ok ((), s.resumed s₂.mem) := by
  have hkept : Stacked s₂.mem p (saved ++ w :: w' :: pushed) := by
    refine hstack.congr fun i hi => hret.frame i ?_
    rw [List.length_append, List.length_cons, List.length_cons, hsaved.length] at hi
    rw [← hpushed.length]
    omega
  have hesp₂ : s₂.esp + 4 = p := by
    rw [hret.esp, hesp, BitVec.add_assoc]
    exact BitVec.sub_add_cancel p 8
  have hresume : cpuContextResume c s₂ = cpuContextRestore c (s₂.withStack s₂.mem p) := by
    rw [← hesp₂]
    rfl
  have hcs₂ : rpl s₂.cs = 0 := by
    rw [hret.cs, hsegments.1]
    exact (by decide : rpl kernelCs = 0)
  rw [hresume]
  exact cpuContextRestore_run hs hsaved hpushed hkept hcs₂ (hret.ss.trans hsegments.2) hret.nt htop

theorem entry_atDispatcher (hs : c.Runs s) (esp0 : BitVec 32) (n : Nat)
    (e returnAddress addr : BitVec 32) : ∃ s₁, (do
        interrupt c esp0 n e
        modify fun s => { s with eip := addr }
        handler n
        cpuContextSave c returnAddress : Prog CpuFault Cpu Unit) s = .ok ((), s₁) ∧
      s.AtDispatcher s₁ c esp0 n e := by
  obtain ⟨m₁, esp₁, pushed, hr₁, hpushed, h₁, -⟩ := interrupt_run hs esp0 n e
  have hlen : pushed.length ≤ 5 := by
    cases hpushed <;> simp
  obtain ⟨m₂, hr₂, h₂⟩ := handler_leaves (s.atHandler addr) h₁ (by omega)
  obtain ⟨m₃, saved, hsaved, hr₃, h₃⟩ := cpuContextSave_leaves (s.atHandler addr) h₂
    (by simp only [List.length_cons]; omega) (by decide : rpl kernelCs = 0) returnAddress
  have hsaved' : s.Saved saved := by
    cases hsaved with
    | mk oldEsp hds hes hfs hgs => exact .mk oldEsp hds hes hfs hgs
  -- the bytes that have been pushed
  have henters := interrupt_enters c s esp0 n e hr₁
  have henters₁ : s.EnteredAt ((s.atHandler addr).withStack m₁ esp₁) (s.handlerStack esp0)
      (s.pushedBytes n) := ⟨henters.esp, henters.mem⟩
  have henters₂ := (henters₁.pushes ((handler_sinks n).of_ok hr₂)).pushes
    ((cpuContextSave_sinks c returnAddress).of_ok hr₃)
  rw [hs.pushedBytes_frameSize] at henters₂
  generalize hp : esp₁ + BitVec.ofNat 32 (4 * (errorWords n e).length) - 8 - 48 = p at *
  have hframe : p = s.frameAt esp0 := by
    have hesp := henters₂.esp
    change p - 8 = _ at hesp
    rw [BitVec.ofNat_add, ← BitVec.sub_sub] at hesp
    rw [Cpu.frameAt]
    exact (BitVec.sub_left_inj 8).mp hesp
  have hstack : Stacked m₃ p (saved ++ .ofNat 32 n :: errorWord n e :: pushed) := by
    have htail := h₃.2.2
    rwa [BitVec.add_assoc, show (4 : BitVec 32) + 4 = 8 from rfl, BitVec.sub_add_cancel] at htail
  have htop : rpl s.cs = 0 → p + 68 = s.esp := by
    intro hcs
    have h0 : ¬0 < rpl s.cs := by omega
    have h3 : ¬rpl s.cs = 3 := by omega
    rw [hframe, Cpu.frameAt, Cpu.handlerStack, Cpu.frameSize, if_neg h0, if_neg h3]
    exact BitVec.sub_add_cancel s.esp 68
  refine ⟨(s.atHandler addr).inKernel.withStack m₃ (p - 8), ?_, ?_⟩
  · rw [bind_ok hr₁, bind_modify]
    exact (bind_ok hr₂).trans hr₃
  · refine ⟨h₃.2.1.trans hframe, hframe ▸ readUserContext_holds hsaved' hpushed hstack,
      ⟨rfl, rfl, rfl⟩, henters₂.mem, fun s₂ hret => ?_⟩
    rw [← hframe] at hret
    exact hs.resumes_frame hsaved' hpushed hstack rfl ⟨rfl, rfl⟩ htop hret

theorem Tables.OfKernel.enters (h : T.OfKernel isrEntries ktss esp0) (hs : c.Runs s)
    (cause : Cause) (n : Fin nbrIdtEntries) (e returnAddress : BitVec 32) :
    if cause.Refused s n then
      T.enter c ktss cause n e returnAddress s = .error .generalProtection
    else cause = .exception ∨ pushesErrorCode n = false →
      ∃ s₁, T.enter c ktss cause n e returnAddress s = .ok ((), s₁) ∧
        s.AtDispatcher s₁ c esp0 n e := by
  unfold Tables.enter
  split
  · exact bind_error (h.refuses ‹_› c e)
  · intro herror
    obtain ⟨s₁, hrun, hat⟩ := entry_atDispatcher hs esp0 n e returnAddress (isrEntries n)
    refine ⟨s₁, ?_, hat⟩
    refine (bind_left (h.delivers ‹_› herror c e)).trans ?_
    rw [bind_assoc]
    exact hrun

/-- Through the tables that `main` sets up, every interrupt of a program leads to the dispatcher and
back, but for an `int` that ring 3 may not use. -/
theorem mainTables_enters (isrEntries : Nat → BitVec 32) (ktss kernelStackPa : BitVec 32)
    (T : Tables) (hktss : ktss.toNat % 4096 = 0) (hs : c.Runs s) (cause : Cause)
    (n : Fin nbrIdtEntries) (e returnAddress : BitVec 32) :
    if cause.Refused s n then
      (mainTables isrEntries ktss kernelStackPa T).enter c ktss cause n e returnAddress s =
        .error .generalProtection
    else cause = .exception ∨ pushesErrorCode n = false → ∃ s₁,
      (mainTables isrEntries ktss kernelStackPa T).enter c ktss cause n e returnAddress s =
        .ok ((), s₁) ∧
      s.AtDispatcher s₁ c (kernelStackPa + BitVec.ofNat 32 kernelSpace) n e :=
  (mainTables_ofKernel isrEntries ktss kernelStackPa T hktss).enters hs cause n e returnAddress

/-- The tables before `main`, all zero. -/
def zeroTables : Tables := ⟨bootTaskState, fun _ => ⟨0, 0, 0, 0, 0⟩⟩

/-- A system call of a program in ring 3. -/
theorem mainTables_enters_syscall : ∃ s₁,
    (mainTables (fun _ => 0xC0101000) 0xC0108000 0x105000 zeroTables).enter gdtProcessor
      0xC0108000 .program ⟨syscallVector, by decide⟩ 0 0x100 (userProgram userDs) = .ok ((), s₁) ∧
    (userProgram userDs).AtDispatcher s₁ gdtProcessor (0x105000 + BitVec.ofNat 32 kernelSpace)
      syscallVector 0 := by
  have henters := mainTables_enters (fun _ => 0xC0101000) 0xC0108000 0x105000 zeroTables
    (by decide) (userProgram_runs userDs (by decide)) .program ⟨syscallVector, by decide⟩ 0 0x100
  rw [if_neg (by decide)] at henters
  exact henters (.inr (by decide))

end Atros
