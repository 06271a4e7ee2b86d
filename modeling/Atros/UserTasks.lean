import Atros.KernelEntry

namespace Atros
set_option autoImplicit true

variable {c : Processor} {s : Cpu}

/-! ### cpu_context.c -/

/-- The loop of `memset`. -/
def Mem32.memset (value : BitVec 8) : Nat → BitVec 32 → Mem32 → Mem32
  | 0, _, m => m
  | num + 1, d, m => memset value num (d + 1) (Function.update m d value)

def sizeofUserContext : Nat := 76

def eflagsIopl0 : BitVec 32 := 0
def eflagsInterruptEnable : BitVec 32 := 1 <<< 9

/-- `user_context_init`, on the packed structure at `aContext`. -/
def userContextInit (aContext programCounter stackTop param : BitVec 32) (m : Mem32) : Mem32 :=
  if aContext ≠ 0 then
    let m := m.memset 0 sizeofUserContext aContext
    let m := m.setWord (aContext + 44) param
    let m := m.setWord aContext (userDs.setWidth 32)
    let m := m.setWord (aContext + 4) (userDs.setWidth 32)
    let m := m.setWord (aContext + 8) (userDs.setWidth 32)
    let m := m.setWord (aContext + 12) (userDs.setWidth 32)
    let m := m.setWord (aContext + 56) programCounter
    let m := m.setWord (aContext + 60) (userCs.setWidth 32)
    let m := m.setWord (aContext + 64) (eflagsIopl0 ||| eflagsInterruptEnable)
    let m := m.setWord (aContext + 72) (userDs.setWidth 32)
    m.setWord (aContext + 68) stackTop
  else
    m

/-! ### cpu_context_switch.S -/

/-- `cpu_context_load`. -/
def cpuContextLoad (c : Processor) : Prog CpuFault Cpu Unit := do
  addEsp 4
  cpuContextRestore c

/-- The words of the structure, in the order of its fields. -/
def UserContext.words (u : UserContext) : List (BitVec 32) :=
  let x := u.context
  [x.ds, x.es, x.fs, x.gs, x.edi, x.esi, x.ebp, x.oldEsp, x.ebx, x.edx, x.ecx, x.eax,
    x.intNumber, x.errorCode, x.eip, x.cs, x.eflags, u.esp, u.ss]

/-- The last word first, so that they lie in order. -/
def pushAll : List (BitVec 32) → Prog CpuFault Cpu Unit
  | [] => pure ()
  | w :: ws => do
    pushAll ws
    push w

/-- A call of `cpu_context_load`, whose argument is a copy of the structure on the stack. -/
def callContextLoad (c : Processor) (aContext returnAddress : BitVec 32) :
    Prog CpuFault Cpu Unit := do
  let s ← get
  pushAll (readUserContext s.mem aContext).words
  push returnAddress
  cpuContextLoad c

/-! ### The fields of the structure -/

theorem Mem32.memset_apply (value : BitVec 8) (hn : n ≤ 2 ^ 32) (p : BitVec 32) (m : Mem32) :
    m.memset value n p a = if (a - p).toNat < n then value else m a := by
  induction n generalizing p m with
  | zero => rfl
  | succ n ih =>
    rw [memset, ih (by omega), Function.update_apply]
    by_cases ha : a = p
    · subst ha
      have hzero : (a - a).toNat < n + 1 := by
        rw [BitVec.sub_self]
        exact Nat.succ_pos n
      rw [if_pos rfl, if_pos hzero, ite_self]
    · rw [if_neg ha]
      exact if_congr (by bv_omega) rfl rfl

/-- Field `k` of a structure of words. -/
def Mem32.field (m : Mem32) (p : BitVec 32) (k : Nat) : BitVec 32 :=
  m.word (p + BitVec.ofNat 32 (4 * k))

theorem Mem32.field_setWord (hi : i < 2 ^ 30) (hj : j < 2 ^ 30) (m : Mem32) (p v : BitVec 32) :
    (m.setWord (p + BitVec.ofNat 32 (4 * i)) v).field p j = if j = i then v else m.field p j := by
  unfold field
  by_cases hij : j = i
  · rw [if_pos hij, hij, word_setWord]
  · rw [if_neg hij]
    exact m.word_setWord_above (by bv_omega) (by bv_omega) v

theorem Mem32.field_memset (hj : 4 * j + 4 ≤ n) (hn : n ≤ 2 ^ 32) (m : Mem32) (p : BitVec 32) :
    (m.memset 0 n p).field p j = 0 := by
  have hzero : ∀ i : Nat, i < 4 →
      m.memset 0 n p (p + BitVec.ofNat 32 (4 * j) + BitVec.ofNat 32 i) = 0 := by
    intro i hi
    rw [memset_apply 0 hn]
    exact if_pos (by bv_omega)
  have hword : (0 : BitVec 8) ++ (0 : BitVec 8) ++ (0 : BitVec 8) ++ (0 : BitVec 8) =
      (0 : BitVec 32) := by
    decide
  exact (word_congr (m := fun _ => 0) hzero).trans hword

theorem Mem32.field_setWord_first (hj : j < 2 ^ 30) (m : Mem32) (p v : BitVec 32) :
    (m.setWord p v).field p j = if j = 0 then v else m.field p j := by
  have hset := field_setWord (i := 0) (by decide) hj m p v
  rwa [Nat.mul_zero, BitVec.add_zero] at hset

theorem userContextInit_field (hp : p ≠ 0) (pc top param : BitVec 32) (m : Mem32)
    (hk : 4 * k + 4 ≤ sizeofUserContext) :
    (userContextInit p pc top param m).field p k =
      if k = 17 then top else if k = 18 then userDs.setWidth 32
      else if k = 16 then eflagsIopl0 ||| eflagsInterruptEnable
      else if k = 15 then userCs.setWidth 32 else if k = 14 then pc
      else if k = 3 then userDs.setWidth 32 else if k = 2 then userDs.setWidth 32
      else if k = 1 then userDs.setWidth 32 else if k = 0 then userDs.setWidth 32
      else if k = 11 then param else 0 := by
  have hk' : k < 2 ^ 30 := by
    rw [sizeofUserContext] at hk
    omega
  have hset (i : Nat) (hi : i < 2 ^ 30) (m : Mem32) (v : BitVec 32) :=
    m.field_setWord hi hk' p v
  rw [userContextInit, if_pos hp]
  refine (hset 17 (by decide) _ _).trans (if_congr Iff.rfl rfl ?_)
  refine (hset 18 (by decide) _ _).trans (if_congr Iff.rfl rfl ?_)
  refine (hset 16 (by decide) _ _).trans (if_congr Iff.rfl rfl ?_)
  refine (hset 15 (by decide) _ _).trans (if_congr Iff.rfl rfl ?_)
  refine (hset 14 (by decide) _ _).trans (if_congr Iff.rfl rfl ?_)
  refine (hset 3 (by decide) _ _).trans (if_congr Iff.rfl rfl ?_)
  refine (hset 2 (by decide) _ _).trans (if_congr Iff.rfl rfl ?_)
  refine (hset 1 (by decide) _ _).trans (if_congr Iff.rfl rfl ?_)
  refine (Mem32.field_setWord_first hk' _ p _).trans (if_congr Iff.rfl rfl ?_)
  refine (hset 11 (by decide) _ _).trans (if_congr Iff.rfl rfl ?_)
  exact m.field_memset hk (by decide) p

theorem readUserContext_words (m : Mem32) (p : BitVec 32) :
    (readUserContext m p).words = (List.range 19).map (m.field p) := by
  have hfirst : m.word p = m.field p 0 := by
    rw [Mem32.field, Nat.mul_zero, BitVec.add_zero]
  simp only [UserContext.words, readUserContext, readCpuContext, hfirst]
  rfl

/-- The words that `user_context_init` leaves in the structure. -/
def userTaskWords (pc top param : BitVec 32) : List (BitVec 32) :=
  let ds := userDs.setWidth 32
  [ds, ds, ds, ds, 0, 0, 0, 0, 0, 0, 0, param, 0, 0, pc, userCs.setWidth 32, 0x200, top, ds]

theorem userContextInit_words (hp : p ≠ 0) (pc top param : BitVec 32) (m : Mem32) :
    (readUserContext (userContextInit p pc top param m) p).words = userTaskWords pc top param := by
  rw [readUserContext_words]
  have hmap : ∀ k ∈ List.range 19, (userContextInit p pc top param m).field p k = _ :=
    fun k hk => userContextInit_field hp pc top param m (by
      have := List.mem_range.mp hk
      rw [sizeofUserContext]
      omega)
  rw [List.map_congr_left hmap]
  rfl

/-! ### The start of a task -/

theorem pushAll_leaves (s : Cpu) (h : Stacked m esp ws) (us : List (BitVec 32))
    (hlen : us.length + ws.length < 2 ^ 29) :
    Leaves (pushAll us) s m esp (esp - BitVec.ofNat 32 (4 * us.length)) (us ++ ws) := by
  induction us with
  | nil =>
    rw [List.length_nil, Nat.mul_zero, BitVec.sub_zero]
    exact ⟨m, rfl, h⟩
  | cons u us ih =>
    rw [List.length_cons] at hlen
    obtain ⟨m₁, hr₁, h₁⟩ := ih (by omega)
    obtain ⟨m₂, hr₂, h₂⟩ := push_leaves s h₁ (by rw [List.length_append]; omega) u
    have hesp : esp - BitVec.ofNat 32 (4 * (u :: us).length) =
        esp - BitVec.ofNat 32 (4 * us.length) - 4 := by
      rw [List.length_cons, Nat.mul_succ, BitVec.ofNat_add, BitVec.sub_sub]
      rfl
    rw [hesp]
    exact ⟨m₂, (bind_ok hr₁).trans hr₂, h₂⟩

theorem pushAll_sinks (us : List (BitVec 32)) : Sinks (pushAll us) (4 * us.length) := by
  induction us with
  | nil => exact Cpu.Pushes.refl
  | cons u us ih => exact ih.seq (k := 4) (push_sinks u)

/-- A task that begins at `pc` on the stack `top`, with its parameter in `eax`. -/
def userTask (pc top param : BitVec 32) (m : Mem32) : Cpu where
  eax := param
  ecx := 0
  edx := 0
  ebx := 0
  esp := top
  ebp := 0
  esi := 0
  edi := 0
  eip := pc
  eflags := .load 0x200
  cs := userCs
  ss := userDs
  ds := userDs
  es := userDs
  fs := userDs
  gs := userDs
  mem := m

theorem Processor.Loads.userDs (h : c.dpl userDs = 3) (hcpl : cpl ≤ 3) :
    c.Loads cpl Atros.userDs := by
  refine .inr ?_
  rw [h, show rpl Atros.userDs = 3 by decide]
  omega

theorem Processor.outward_userDs (h : c.dpl userDs = 3) : c.outward 3 userDs = userDs := by
  refine if_neg ?_
  rw [h]
  decide

theorem userTask_runs (h : c.dpl userDs = 3) (pc top param : BitVec 32) (m : Mem32) :
    c.Runs (userTask pc top param m) := by
  have hcs : rpl (userTask pc top param m).cs = 3 := (by decide : rpl userCs = 3)
  have hvm : (Eflags.load 0x200).bits.getLsbD vmFlag = false := by decide
  have hdata : c.Loads (rpl (userTask pc top param m).cs) userDs := by
    rw [hcs]
    exact .userDs h (by decide)
  have hss : rpl userDs = 3 := by decide
  exact ⟨.inl ⟨hcs, hss, h⟩, hvm, hdata, hdata, hdata, hdata⟩

theorem cpuContextRestore_task (h : c.dpl userDs = 3) (s : Cpu)
    (hstack : Stacked m esp (userTaskWords pc top param)) (hcs : rpl s.cs = 0)
    (hnt : s.eflags.bits.getLsbD ntFlag = false) :
    cpuContextRestore c (s.withStack m esp) = .ok ((), userTask pc top param m) := by
  have hload : c.Loads (rpl s.cs) userDs := .userDs h (by omega)
  have hselector : (userDs.setWidth 32).setWidth 16 = userDs := by decide
  have hcode : (userCs.setWidth 32).setWidth 16 = userCs := by decide
  have hvm : (0x200 : BitVec 32).getLsbD vmFlag = false := by decide
  let t₁ := setDs userDs s
  let t₂ := setEs userDs t₁
  let t₃ := setFs userDs t₂
  have hpopa := hstack.2.2.2.2
  have hframe : Stacked m (esp + 4 + 4 + 4 + 4 + 32 + 8)
      [pc, userCs.setWidth 32, 0x200, top, userDs.setWidth 32] := by
    have htail := hpopa.2.2.2.2.2.2.2.2.2.2
    have haddr : esp + 4 + 4 + 4 + 4 + 4 + 4 + 4 + 4 + 4 + 4 + 4 + 4 + 4 + 4 =
        esp + 4 + 4 + 4 + 4 + 32 + 8 := by bv_omega
    rwa [haddr] at htail
  rw [cpuContextRestore, bind_ok (popSegment_run s hstack hload fun _ _ _ _ => rfl), hselector,
    bind_ok (popSegment_run t₁ hstack.2 hload fun _ _ _ _ => rfl), hselector,
    bind_ok (popSegment_run t₂ hstack.2.2 hload fun _ _ _ _ => rfl), hselector,
    bind_ok (popSegment_run t₃ hstack.2.2.2 hload fun _ _ _ _ => rfl), hselector,
    bind_ok (popa_run (setGs userDs t₃) hpopa), bind_ok (addEsp_run _ _ _ 8)]
  let t₄ : Cpu :=
    { userTask pc top param m with eip := s.eip, eflags := s.eflags, cs := s.cs, ss := s.ss }
  change iret c (t₄.withStack m (esp + 4 + 4 + 4 + 4 + 32 + 8)) = _
  rw [iret_outer t₄ hframe hcs hnt hvm (by rw [hcode]; decide) ⟨by decide, h⟩, hcode, hselector]
  change Except.ok ((), Cpu.withStack { userTask pc top param m with
    ds := c.outward 3 userDs, es := c.outward 3 userDs, fs := c.outward 3 userDs,
    gs := c.outward 3 userDs } m top) = _
  rw [Processor.outward_userDs h]
  rfl

/-- The processor has the privilege levels of the data segments from this table. -/
def Processor.Uses (c : Processor) (kgdt : Gdt) : Prop :=
  ∀ sel d, kgdt.find sel = some d → d.isWritable = true → c.dpl sel = d.dpl

theorem mainTables_userDs (isrEntries : Nat → BitVec 32) (ktss kernelStackPa : BitVec 32)
    (T : Tables) :
    (mainTables isrEntries ktss kernelStackPa T).kgdt.find userDs = some (flatSegment 0xF2) := by
  rw [Gdt.find_eq _ (by decide) (by decide) (by decide)]
  change some (GdtEntry.segment ((tssInit ktss kernelStackPa _).kgdt _)) = _
  rw [tssInit_others _ _ _ (by decide)]
  exact congrArg some (gdtInit_segment T.kgdt _ (by decide))

/-- `user_context_init` and then `cpu_context_load`, in the kernel. -/
def startUserTask (c : Processor) (aContext pc top param returnAddress : BitVec 32) :
    Prog CpuFault Cpu Unit := do
  modify fun s => { s with mem := userContextInit aContext pc top param s.mem }
  callContextLoad c aContext returnAddress

/-- The bytes that have not been written: those that are neither of the structure nor of its copy
on the stack. -/
def Cpu.BesideContext (s : Cpu) (aContext a : BitVec 32) : Prop :=
  sizeofUserContext ≤ (a - aContext).toNat ∧
    ∀ i < sizeofUserContext + 4, a ≠ s.esp - BitVec.ofNat 32 (i + 1)

theorem userContextInit_others (hp : p ≠ 0) (pc top param : BitVec 32) (m : Mem32)
    (ha : sizeofUserContext ≤ (a - p).toNat) : userContextInit p pc top param m a = m a := by
  rw [sizeofUserContext] at ha
  have hset (i : BitVec 32) (hi : i.toNat ≤ 72) (m : Mem32) (v : BitVec 32) :
      m.setWord (p + i) v a = m a :=
    Mem32.setWord_outside (by bv_omega) m v
  have hfirst (m : Mem32) (v : BitVec 32) : m.setWord p v a = m a :=
    Mem32.setWord_outside (by omega) m v
  rw [userContextInit, if_pos hp]
  simp only [hset 68 (by decide), hset 72 (by decide), hset 64 (by decide), hset 60 (by decide),
    hset 56 (by decide), hset 12 (by decide), hset 8 (by decide), hset 4 (by decide), hfirst,
    hset 44 (by decide)]
  rw [Mem32.memset_apply 0 (by decide), sizeofUserContext]
  exact if_neg (by omega)

theorem startUserTask_run (h : c.dpl userDs = 3) (hp : p ≠ 0) (hcs : rpl s.cs = 0)
    (hnt : s.eflags.bits.getLsbD ntFlag = false) (pc top param returnAddress : BitVec 32) :
    ∃ m, startUserTask c p pc top param returnAddress s = .ok ((), userTask pc top param m) ∧
      ∀ a, s.BesideContext p a → m a = s.mem a := by
  let m₀ := userContextInit p pc top param s.mem
  have hwords := userContextInit_words hp pc top param s.mem
  have hlen : (userTaskWords pc top param).length = 19 := rfl
  have hempty : Stacked m₀ s.esp [] := trivial
  obtain ⟨m₁, hr₁, h₁⟩ := pushAll_leaves s hempty (userTaskWords pc top param)
    (by rw [hlen]; decide)
  rw [List.append_nil] at h₁
  obtain ⟨m₂, hr₂, h₂⟩ := push_leaves s h₁ (by rw [hlen]; decide) returnAddress
  refine ⟨m₂, ?_, fun a ha => ?_⟩
  · rw [startUserTask, bind_modify, callContextLoad, bind_get]
    change (do
      pushAll (readUserContext m₀ p).words
      push returnAddress
      cpuContextLoad c : Prog CpuFault Cpu Unit) (s.withStack m₀ s.esp) = _
    rw [hwords, bind_ok hr₁, bind_ok hr₂, cpuContextLoad, bind_ok (addEsp_run _ _ _ 4)]
    exact cpuContextRestore_task h s h₂.2 hcs hnt
  · have hpushes := ((pushAll_sinks (userTaskWords pc top param)).seq (k := 4)
      (push_sinks returnAddress)).of_ok ((bind_ok hr₁).trans hr₂)
    exact (hpushes.mem a ha.2).trans (userContextInit_others hp pc top param s.mem ha.1)

/-- With the tables that `main` sets up, a task that is initialised and loaded starts in ring 3 at
its entry, whatever was in the memory and in the registers, with interrupts enabled and I/O
privilege level 0; interrupts then find it in a state from which they resume it. -/
theorem userTask_starts (isrEntries : Nat → BitVec 32) (ktss kernelStackPa : BitVec 32)
    (T : Tables) (hc : c.Uses (mainTables isrEntries ktss kernelStackPa T).kgdt) (hp : p ≠ 0)
    (hcs : rpl s.cs = 0) (hnt : s.eflags.bits.getLsbD ntFlag = false)
    (pc top param returnAddress : BitVec 32) :
    ∃ m, startUserTask c p pc top param returnAddress s = .ok ((), userTask pc top param m) ∧
      c.Runs (userTask pc top param m) ∧ ∀ a, s.BesideContext p a → m a = s.mem a := by
  have hdpl : c.dpl userDs = 3 := hc _ _ (mainTables_userDs isrEntries ktss kernelStackPa T) rfl
  obtain ⟨m, hrun, hm⟩ := startUserTask_run hdpl hp hcs hnt pc top param returnAddress
  exact ⟨m, hrun, userTask_runs hdpl pc top param m, hm⟩

/-- The tables of the kernel, with its handlers, its structure and its stack somewhere. -/
def someTables : Tables := mainTables (fun _ => 0xC0101000) 0xC0108000 0x105000 zeroTables

theorem gdtProcessor_uses : gdtProcessor.Uses someTables.kgdt := by
  intro sel d hfind hd
  have hentries : ∀ i : Fin nbrGdtEntries, i.val ≠ 0 →
      (someTables.kgdt i).segment.isWritable = true →
      (if i.val = 3 ∨ i.val = 4 then 3 else 0) = (someTables.kgdt i).segment.dpl := by
    decide
  rw [Gdt.find] at hfind
  split at hfind
  · rename_i hi
    split at hfind
    · rename_i hsel
      cases hfind
      refine hentries ⟨sel.toNat / 2 ^ 3, hi⟩ (fun h0 => ?_) hd
      have hnull : ¬sel.toNat < 4 := of_decide_eq_false hsel.2
      have hti := hsel.1
      change sel.toNat / 2 ^ 3 = 0 at h0
      omega
    · cases hfind
  · cases hfind

/-- Some state in the kernel. -/
def inKernel : Cpu := { userProgram kernelDs with cs := kernelCs, ss := kernelDs }

theorem userTask_starts_kernel :
    ∃ m, startUserTask gdtProcessor 0xC0200000 0x40000000 0x50000000 7 0x100 inKernel =
        .ok ((), userTask 0x40000000 0x50000000 7 m) ∧
      gdtProcessor.Runs (userTask 0x40000000 0x50000000 7 m) ∧
      ∀ a, inKernel.BesideContext 0xC0200000 a → m a = inKernel.mem a :=
  userTask_starts (fun _ => 0xC0101000) 0xC0108000 0x105000 zeroTables gdtProcessor_uses (by decide)
    (by decide) (by decide) _ _ _ _

end Atros
