import Atros.CpuContext

namespace Atros
set_option autoImplicit true

variable {c : Processor} {s t : Cpu}

/-! ### Instructions that only change the stack -/

def Cpu.withStack (s : Cpu) (m : Mem32) (esp : BitVec 32) : Cpu := { s with mem := m, esp := esp }

@[simp] theorem Cpu.withStack_cs (s : Cpu) (m : Mem32) (esp : BitVec 32) :
    (s.withStack m esp).cs = s.cs := rfl

@[simp] theorem Cpu.withStack_eflags (s : Cpu) (m : Mem32) (esp : BitVec 32) :
    (s.withStack m esp).eflags = s.eflags := rfl

/-- The program leaves `ws` on the stack and changes nothing else. -/
def Leaves (x : Prog CpuFault Cpu Unit) (s : Cpu) (m : Mem32) (esp esp' : BitVec 32)
    (ws : List (BitVec 32)) : Prop :=
  ∃ m', x (s.withStack m esp) = .ok ((), s.withStack m' esp') ∧ Stacked m' esp' ws

theorem push_leaves (s : Cpu) (h : Stacked m esp ws) (hlen : ws.length < 2 ^ 29)
    (w : BitVec 32) : Leaves (push w) s m esp (esp - 4) (w :: ws) :=
  ⟨_, rfl, h.push hlen w⟩

theorem pushSelector_leaves (c : Processor) (s : Cpu) (h : Stacked m esp ws)
    (hlen : ws.length < 2 ^ 29) (sel : BitVec 16) : ∃ w : BitVec 32, w.setWidth 16 = sel ∧
      Leaves (pushSelector c sel) s m esp (esp - 4) (w :: ws) :=
  ⟨_, c.pushed_selector _ sel, _, rfl, h.push hlen _⟩

theorem pop_run {s : Cpu} (h : m.word esp = w) :
    pop (s.withStack m esp) = .ok (w, s.withStack m (esp + 4)) := by
  rw [← h]
  rfl

theorem pusha_leaves (s : Cpu) (h : Stacked m esp ws) (hlen : ws.length < 2 ^ 28) :
    Leaves pusha s m esp (esp - 32)
      (s.edi :: s.esi :: s.ebp :: esp :: s.ebx :: s.edx :: s.ecx :: s.eax :: ws) := by
  have hroom : ∀ k, k ≤ 8 → ws.length + k < 2 ^ 29 := fun k hk => by omega
  obtain ⟨m₁, hr₁, h₁⟩ := push_leaves s h (hroom 0 (by decide)) s.eax
  obtain ⟨m₂, hr₂, h₂⟩ := push_leaves s h₁ (hroom 1 (by decide)) s.ecx
  obtain ⟨m₃, hr₃, h₃⟩ := push_leaves s h₂ (hroom 2 (by decide)) s.edx
  obtain ⟨m₄, hr₄, h₄⟩ := push_leaves s h₃ (hroom 3 (by decide)) s.ebx
  obtain ⟨m₅, hr₅, h₅⟩ := push_leaves s h₄ (hroom 4 (by decide)) esp
  obtain ⟨m₆, hr₆, h₆⟩ := push_leaves s h₅ (hroom 5 (by decide)) s.ebp
  obtain ⟨m₇, hr₇, h₇⟩ := push_leaves s h₆ (hroom 6 (by decide)) s.esi
  obtain ⟨m₈, hr₈, h₈⟩ := push_leaves s h₇ (hroom 7 (by decide)) s.edi
  have hesp : esp - 32 = esp - 4 - 4 - 4 - 4 - 4 - 4 - 4 - 4 := by bv_omega
  rw [hesp]
  refine ⟨m₈, ?_, h₈⟩
  rw [pusha, bind_get]
  change (do
    push s.eax
    push s.ecx
    push s.edx
    push s.ebx
    push esp
    push s.ebp
    push s.esi
    push s.edi : Prog CpuFault Cpu Unit) (s.withStack m esp) = _
  rw [bind_ok hr₁, bind_ok hr₂, bind_ok hr₃, bind_ok hr₄, bind_ok hr₅, bind_ok hr₆, bind_ok hr₇,
    hr₈]

/-! ### Entry -/

/-- Code of ring 3, or of ring 0 on the kernel stack, with segment registers that its privilege
level lets it have. -/
structure Processor.Runs (c : Processor) (s : Cpu) : Prop where
  ring : rpl s.cs = 3 ∧ rpl s.ss = 3 ∧ c.dpl s.ss = 3 ∨ rpl s.cs = 0 ∧ s.ss = kernelDs
  vm : s.eflags.bits.getLsbD vmFlag = false
  ds : c.Loads (rpl s.cs) s.ds
  es : c.Loads (rpl s.cs) s.es
  fs : c.Loads (rpl s.cs) s.fs
  gs : c.Loads (rpl s.cs) s.gs

/-- The words that the processor pushes of `s`, but for an error code. -/
inductive Cpu.Pushed (s : Cpu) : List (BitVec 32) → Prop
  | ring0 {cs : BitVec 32} (h : rpl s.cs = 0) (hcs : cs.setWidth 16 = s.cs) :
    Pushed s [s.eip, cs, s.eflags.bits]
  | ring3 {cs ss : BitVec 32} (h : rpl s.cs = 3) (hcs : cs.setWidth 16 = s.cs)
    (hss : ss.setWidth 16 = s.ss) : Pushed s [s.eip, cs, s.eflags.bits, s.esp, ss]

def errorWords (n : Nat) (errorCode : BitVec 32) : List (BitVec 32) :=
  if pushesErrorCode n then [errorCode] else []

def errorWord (n : Nat) (errorCode : BitVec 32) : BitVec 32 :=
  if pushesErrorCode n then errorCode else 0

theorem pushErrorCode_leaves (s : Cpu) (h : Stacked m esp ws) (hlen : ws.length < 2 ^ 29)
    (n : Nat) (e : BitVec 32) :
    Leaves (pushErrorCode n e) s m esp (esp - BitVec.ofNat 32 (4 * (errorWords n e).length))
      (errorWords n e ++ ws) := by
  unfold pushErrorCode errorWords
  split
  · exact push_leaves s h hlen e
  · refine ⟨m, ?_, ?_⟩
    · rw [List.length_nil, BitVec.sub_zero]
      rfl
    · rw [List.length_nil, BitVec.sub_zero]
      exact h

/-- The state in which a gate has been entered from `s`, apart from its stack. -/
def Cpu.entered (s : Cpu) : Cpu :=
  { s with ss := kernelDs, cs := kernelCs, eflags := s.eflags.clear gateFlags }

theorem interrupt_run (hs : c.Runs s) (esp0 : BitVec 32) (n : Nat) (e : BitVec 32) :
    ∃ m esp ws, interrupt c esp0 n e s = .ok ((), s.entered.withStack m esp) ∧ s.Pushed ws ∧
      Stacked m esp (errorWords n e ++ ws) ∧
      (rpl s.cs = 0 → esp + BitVec.ofNat 32 (4 * (errorWords n e).length) + 12 = s.esp) := by
  rcases hs.ring with ⟨hcs, -, -⟩ | ⟨hcs, hss⟩
  · have hpos : 0 < rpl s.cs := by omega
    let s₀ : Cpu := { s with ss := kernelDs }
    have h₀ : Stacked s.mem esp0 [] := trivial
    obtain ⟨ss, hss, m₁, hr₁, h₁⟩ := pushSelector_leaves c s₀ h₀ (by decide) s.ss
    obtain ⟨m₂, hr₂, h₂⟩ := push_leaves s₀ h₁ (by simp) s.esp
    obtain ⟨m₃, hr₃, h₃⟩ := push_leaves s₀ h₂ (by simp) s.eflags.bits
    obtain ⟨cs, hcs', m₄, hr₄, h₄⟩ := pushSelector_leaves c s₀ h₃ (by simp) s.cs
    obtain ⟨m₅, hr₅, h₅⟩ := push_leaves s₀ h₄ (by simp) s.eip
    obtain ⟨m₆, hr₆, h₆⟩ := pushErrorCode_leaves s₀ h₅ (by simp) n e
    refine ⟨m₆, _, _, ?_, .ring3 hcs hcs' hss, h₆, fun h => by omega⟩
    rw [interrupt, bind_get, if_pos hpos, bind_modify]
    change (do
      pushSelector c s.ss
      push s.esp
      push s.eflags.bits
      pushSelector c s.cs
      push s.eip
      pushErrorCode n e
      modify fun s => { s with cs := kernelCs, eflags := s.eflags.clear gateFlags } :
        Prog CpuFault Cpu Unit) (s₀.withStack s.mem esp0) = _
    rw [bind_ok hr₁, bind_ok hr₂, bind_ok hr₃, bind_ok hr₄, bind_ok hr₅, bind_ok hr₆]
    rfl
  · have hzero : ¬0 < rpl s.cs := by omega
    have h₀ : Stacked s.mem s.esp [] := trivial
    obtain ⟨m₁, hr₁, h₁⟩ := push_leaves s h₀ (by decide) s.eflags.bits
    obtain ⟨cs, hcs', m₂, hr₂, h₂⟩ := pushSelector_leaves c s h₁ (by simp) s.cs
    obtain ⟨m₃, hr₃, h₃⟩ := push_leaves s h₂ (by simp) s.eip
    obtain ⟨m₄, hr₄, h₄⟩ := pushErrorCode_leaves s h₃ (by simp) n e
    refine ⟨m₄, _, _, ?_, .ring0 hcs hcs', h₄, fun _ => ?_⟩
    · rw [interrupt, bind_get, if_neg hzero, Cpu.entered, ← hss]
      change (do
        push s.eflags.bits
        pushSelector c s.cs
        push s.eip
        pushErrorCode n e
        modify fun s => { s with cs := kernelCs, eflags := s.eflags.clear gateFlags } :
          Prog CpuFault Cpu Unit) (s.withStack s.mem s.esp) = _
      rw [bind_ok hr₁, bind_ok hr₂, bind_ok hr₃, bind_ok hr₄]
      rfl
    · rw [BitVec.sub_add_cancel]
      bv_omega

/-- The handlers push a word for the error code exactly where the processor has not. -/
theorem handler_pushes (n : Nat) :
    n ∈ [8, 10, 11, 12, 13, 14, 17] ↔ pushesErrorCode n = true := by
  simp only [List.mem_cons, List.not_mem_nil, or_false, pushesErrorCode, Bool.decide_or,
    Bool.decide_and, Bool.or_eq_true, Bool.and_eq_true, decide_eq_true_eq]
  omega

theorem handler_leaves (s : Cpu) (h : Stacked m esp (errorWords n e ++ ws))
    (hlen : ws.length < 2 ^ 28) :
    Leaves (handler n) s m esp (esp + BitVec.ofNat 32 (4 * (errorWords n e).length) - 8)
      (.ofNat 32 n :: errorWord n e :: ws) := by
  unfold handler errorWord errorWords at *
  by_cases hn : pushesErrorCode n = true
  · rw [if_pos hn] at h ⊢
    rw [if_pos ((handler_pushes n).mpr hn), if_pos hn]
    have hesp : esp + BitVec.ofNat 32 (4 * [e].length) - 8 = esp - 4 := by
      rw [List.length_singleton]
      bv_omega
    rw [hesp]
    exact push_leaves s h (by rw [List.length_append, List.length_singleton]; omega) _
  · rw [if_neg hn] at h ⊢
    rw [if_neg (fun hin => hn ((handler_pushes n).mp hin)), if_neg hn]
    have hesp : esp + BitVec.ofNat 32 (4 * ([] : List (BitVec 32)).length) - 8 = esp - 4 - 4 := by
      rw [List.length_nil]
      bv_omega
    rw [hesp]
    rw [List.nil_append] at h
    obtain ⟨m₁, hr₁, h₁⟩ := push_leaves s h (by omega) 0
    obtain ⟨m₂, hr₂, h₂⟩ := push_leaves s h₁ (by rw [List.length_cons]; omega) (.ofNat 32 n)
    exact ⟨m₂, (bind_ok hr₁).trans hr₂, h₂⟩

theorem loads_kernelDs (c : Processor) : c.Loads 0 kernelDs := .inr (Nat.zero_le _)

theorem loadSegment_run {set : BitVec 16 → Cpu → Cpu} (h : c.Loads (rpl s.cs) sel) :
    loadSegment c set sel s = .ok ((), set sel s) := by
  rw [loadSegment, bind_get, bind_ok (check_ok h)]
  rfl

theorem loadSs_run (h : rpl s.cs = 0) :
    loadSs c kernelDs s = .ok ((), { s with ss := kernelDs }) := by
  rw [loadSs, bind_get, bind_ok (check_ok ⟨h.symm, c.kernelDs_dpl.trans h.symm⟩)]
  rfl

/-- The kernel's data segment in all segment registers but `cs`. -/
def Cpu.inKernel (s : Cpu) : Cpu :=
  { s with
    eax := kernelDs.setWidth 32
    ds := kernelDs
    es := kernelDs
    fs := kernelDs
    gs := kernelDs
    ss := kernelDs }

/-- The words that `cpu_context_save` puts below those of the processor and the handler. -/
inductive Cpu.Saved (s : Cpu) : List (BitVec 32) → Prop
  | mk {ds es fs gs : BitVec 32} (oldEsp : BitVec 32) (hds : ds.setWidth 16 = s.ds)
    (hes : es.setWidth 16 = s.es) (hfs : fs.setWidth 16 = s.fs) (hgs : gs.setWidth 16 = s.gs) :
    Saved s [ds, es, fs, gs, s.edi, s.esi, s.ebp, oldEsp, s.ebx, s.edx, s.ecx, s.eax]

theorem loadKernelDs_run (hcs : rpl s.cs = 0) {f : Unit → Prog CpuFault Cpu Unit} :
    (do
      modify fun s => { s with eax := kernelDs.setWidth 32 }
      loadSegment c setDs kernelDs
      loadSegment c setEs kernelDs
      loadSegment c setFs kernelDs
      loadSegment c setGs kernelDs
      loadSs c kernelDs >>= f : Prog CpuFault Cpu Unit) s = f () s.inKernel := by
  have hload : ∀ (set : BitVec 16 → Cpu → Cpu) (t : Cpu), t.cs = s.cs →
      loadSegment c set kernelDs t = .ok ((), set kernelDs t) := by
    intro set t ht
    apply loadSegment_run
    rw [ht, hcs]
    exact loads_kernelDs c
  rw [bind_modify]
  refine (bind_ok (hload setDs _ ?_)).trans <| (bind_ok (hload setEs _ ?_)).trans <|
    (bind_ok (hload setFs _ ?_)).trans <| (bind_ok (hload setGs _ ?_)).trans <|
    bind_ok (loadSs_run hcs)
  all_goals rfl

theorem cpuContextSave_leaves (s : Cpu) (h : Stacked m esp ws) (hlen : ws.length < 2 ^ 28)
    (hcs : rpl s.cs = 0) (returnAddress : BitVec 32) : ∃ m' saved, s.Saved saved ∧
      cpuContextSave c returnAddress (s.withStack m esp) =
        .ok ((), s.inKernel.withStack m' (esp - 48 - 8)) ∧
      Stacked m' (esp - 48 - 8) (returnAddress :: (esp - 48) :: (saved ++ ws)) := by
  have hroom : ∀ k, k ≤ 14 → ws.length + k < 2 ^ 29 := fun k hk => by omega
  obtain ⟨m₁, hr₁, h₁⟩ := pusha_leaves s h hlen
  obtain ⟨gs, hgs, m₂, hr₂, h₂⟩ := pushSelector_leaves c s h₁ (hroom 8 (by decide)) s.gs
  obtain ⟨fs, hfs, m₃, hr₃, h₃⟩ := pushSelector_leaves c s h₂ (hroom 9 (by decide)) s.fs
  obtain ⟨es, hes, m₄, hr₄, h₄⟩ := pushSelector_leaves c s h₃ (hroom 10 (by decide)) s.es
  obtain ⟨ds, hds, m₅, hr₅, h₅⟩ := pushSelector_leaves c s h₄ (hroom 11 (by decide)) s.ds
  obtain ⟨m₆, hr₆, h₆⟩ := push_leaves s.inKernel h₅ (hroom 12 (by decide)) (esp - 48)
  obtain ⟨m₇, hr₇, h₇⟩ := push_leaves s.inKernel h₆ (hroom 13 (by decide)) returnAddress
  have hesp : esp - 48 = esp - 32 - 4 - 4 - 4 - 4 := by bv_omega
  have hesp' : esp - 48 - 8 = esp - 32 - 4 - 4 - 4 - 4 - 4 - 4 := by bv_omega
  rw [hesp'] at *
  refine ⟨m₇, _, .mk esp hds hes hfs hgs, ?_, h₇⟩
  rw [cpuContextSave, bind_ok hr₁, bind_get]
  change (do
    pushSelector c s.gs
    pushSelector c s.fs
    pushSelector c s.es
    pushSelector c s.ds
    _ : Prog CpuFault Cpu Unit) (s.withStack m₁ (esp - 32)) = _
  rw [bind_ok hr₂, bind_ok hr₃, bind_ok hr₄, bind_ok hr₅]
  refine (loadKernelDs_run (s := s.withStack m₅ _) hcs).trans ?_
  rw [bind_get]
  rw [hesp] at hr₆
  exact (bind_ok hr₆).trans hr₇

end Atros
