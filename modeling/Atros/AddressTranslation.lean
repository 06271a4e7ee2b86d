import Atros.RecursivePaging

namespace Atros
set_option autoImplicit true

variable {p : Paging}

/-! ### The reads of a translation -/

/-- `virt_to_phys_addr`, over any way to read the words at virtual addresses. -/
def translateWith (read : Nat → Prog Panic σ Nat) (vaddr : Nat) : Prog Panic σ Nat := do
  let pdeIndex := getPdeIndexOf vaddr
  let pteIndex := getPteIndexOf vaddr
  let pde ← read ((recPagingEntry * 4 * MB + recPagingEntry * 4 * KB + pdeIndex * 4) % 2 ^ 32)
  if pde &&& pagePresent ≠ 0 then
    if pde &&& page4MB = 0 then
      let pte ← read ((recPagingEntry * 4 * MB + pdeIndex * 4 * KB + pteIndex * 4) % 2 ^ 32)
      if pte &&& pagePresent ≠ 0 then
        return add32 (getAddrOfPte pte) (vaddr &&& ((1 <<< 12) - 1))
      else
        return 0
    else
      return add32 (getAddrOfPde pde) (vaddr &&& ((1 <<< 22) - 1))
  else
    return 0

theorem translateWith_readWord (vaddr : Nat) :
    translateWith readWord vaddr = virtToPhysAddr vaddr :=
  rfl

/-- A read that leaves its address in a log. -/
def loggedRead (vaddr : Nat) : Prog Panic (Paging × List Nat) Nat := fun s =>
  match readWord vaddr s.1 with
  | .ok (w, p) => .ok (w, p, vaddr :: s.2)
  | .error e => .error e

theorem loggedRead_ok (h : readWord vaddr p = .ok (w, p)) (log : List Nat) :
    loggedRead vaddr (p, log) = .ok (w, p, vaddr :: log) := by
  rw [loggedRead, h]

theorem of_loggedRead (h : loggedRead vaddr s = .ok (w, s')) :
    readWord vaddr s.1 = .ok (w, s'.1) := by
  rw [loggedRead] at h
  split at h
  · cases h
    assumption
  · cases h

theorem of_translateWith_loggedRead (h : translateWith loggedRead vaddr s = .ok (a, s')) :
    virtToPhysAddr vaddr s.1 = .ok (a, s'.1) := by
  rw [← translateWith_readWord]
  rw [translateWith] at h ⊢
  obtain ⟨pde, s₁, hpde, h⟩ := of_bind_ok h
  rw [bind_ok (of_loggedRead hpde)]
  split at h
  · split at h
    · obtain ⟨pte, s₂, hpte, h⟩ := of_bind_ok h
      rw [if_pos ‹_›, if_pos ‹_›, bind_ok (of_loggedRead hpte)]
      split at h
      · rw [if_pos ‹_›]
        cases h
        rfl
      · rw [if_neg ‹_›]
        cases h
        rfl
    · rw [if_pos ‹_›, if_neg ‹_›]
      cases h
      rfl
  · rw [if_neg ‹_›]
    cases h
    rfl

/-- The virtual address shows an entry of a page table that is present, or of the directory. -/
def Paging.InTable (p : Paging) (vaddr : Nat) : Prop :=
  ∃ j < 2 ^ 10, ∃ k < 2 ^ 10, vaddr = 1023 * 2 ^ 22 + j * 2 ^ 12 + 4 * k ∧
    entryPresent (p.pde j) ∧ ¬entryLarge (p.pde j)

theorem Paging.SelfMapped.readWord_table (h : Paging.SelfMapped p) (hj : j < 2 ^ 10)
    (hk : k < 2 ^ 10) (hp : entryPresent (p.pde j)) :
    readWord (1023 * 2 ^ 22 + j * 2 ^ 12 + 4 * k) p =
      .ok (p.pmem (entryBase (p.pde j) + 4 * k), p) :=
  readWord_eq (h.walk_window hj hk hp)

/-- What `virt_to_phys_addr` returns: for a 4 MB page, the sum of its whole base address and the
offset. -/
def Paging.translation (p : Paging) (vaddr : Nat) : Nat :=
  let pde := p.pde (vaddr / 2 ^ 22)
  if entryPresent pde ∧ entryLarge pde then add32 (entryBase pde) (vaddr % 2 ^ 22)
  else (p.walk vaddr).getD 0

theorem Paging.translation_large (hp : entryPresent (p.pde (vaddr / 2 ^ 22)))
    (hl : entryLarge (p.pde (vaddr / 2 ^ 22))) :
    p.translation vaddr = add32 (entryBase (p.pde (vaddr / 2 ^ 22))) (vaddr % 2 ^ 22) :=
  if_pos ⟨hp, hl⟩

theorem Paging.translation_other
    (h : ¬(entryPresent (p.pde (vaddr / 2 ^ 22)) ∧ entryLarge (p.pde (vaddr / 2 ^ 22)))) :
    p.translation vaddr = (p.walk vaddr).getD 0 :=
  if_neg h

theorem Paging.SelfMapped.translates (h : Paging.SelfMapped p) (hv : vaddr < 2 ^ 32) :
    ∃ log, translateWith loggedRead vaddr (p, []) = .ok (p.translation vaddr, p, log) ∧
      ∀ r ∈ log, p.InTable r := by
  have hd : vaddr / 2 ^ 22 < 2 ^ 10 := by omega
  have hk : vaddr / 2 ^ 12 % 2 ^ 10 < 2 ^ 10 := Nat.mod_lt _ (by decide)
  have hself : p.InTable (1023 * 2 ^ 22 + 1023 * 2 ^ 12 + 4 * (vaddr / 2 ^ 22)) :=
    ⟨1023, by decide, _, hd, rfl, h.self_present, h.self_small⟩
  have hdir := loggedRead_ok (h.readWord_table (j := 1023) (by decide) hd h.self_present) []
  rw [h.self_base] at hdir
  have hdir_addr : (recPagingEntry * 4 * MB + recPagingEntry * 4 * KB + vaddr / 2 ^ 22 * 4) % 2 ^ 32
      = 1023 * 2 ^ 22 + 1023 * 2 ^ 12 + 4 * (vaddr / 2 ^ 22) := window_addr (by decide) hd
  rw [translateWith, pdeIndex_eq, pteIndex_eq, hdir_addr, bind_ok hdir, window_addr hd hk]
  have hentry : p.pmem (p.cr3 + 4 * (vaddr / 2 ^ 22)) = p.pde (vaddr / 2 ^ 22) := rfl
  rw [hentry]
  unfold translation walk
  generalize hpde : p.pde (vaddr / 2 ^ 22) = pde
  have hw : pde < 2 ^ 32 := hpde ▸ h.word _
  simp only
  by_cases hp : entryPresent pde
  · rw [if_pos ((and_one_ne_zero_iff _).mpr hp)]
    by_cases hl : entryLarge pde
    · refine ⟨_, ?_, List.forall_mem_singleton.mpr hself⟩
      rw [if_neg (mt (and_page4MB_eq_zero_iff _).mp (not_not.mpr hl)), if_pos ⟨hp, hl⟩,
        getAddrOfPde, mask_base hw, Nat.one_shiftLeft, Nat.and_two_pow_sub_one_eq_mod]
      rfl
    · have htab := loggedRead_ok (h.readWord_table hd hk (hpde ▸ hp))
        [1023 * 2 ^ 22 + 1023 * 2 ^ 12 + 4 * (vaddr / 2 ^ 22)]
      have hin : p.InTable (1023 * 2 ^ 22 + vaddr / 2 ^ 22 * 2 ^ 12 +
          4 * (vaddr / 2 ^ 12 % 2 ^ 10)) := ⟨_, hd, _, hk, rfl, hpde ▸ hp, hpde ▸ hl⟩
      have hsmall : ¬(entryPresent pde ∧ entryLarge pde) := fun hc => hl hc.2
      rw [if_pos ((and_page4MB_eq_zero_iff _).mpr hl), bind_ok htab, if_neg hsmall, if_pos hp,
        if_neg hl, hpde]
      generalize hpte : p.pmem (entryBase pde + 4 * (vaddr / 2 ^ 12 % 2 ^ 10)) = pte
      have hw' : pte < 2 ^ 32 := hpte ▸ h.word _
      refine ⟨_, ?_, List.forall_mem_cons.mpr ⟨hin, List.forall_mem_singleton.mpr hself⟩⟩
      by_cases hpp : entryPresent pte
      · rw [if_pos ((and_one_ne_zero_iff _).mpr hpp), if_pos hpp, getAddrOfPte, mask_base hw',
          Nat.one_shiftLeft, Nat.and_two_pow_sub_one_eq_mod,
          entryBase_add32 hw' (Nat.mod_lt _ (by decide))]
        rfl
      · rw [if_neg (mt (and_one_ne_zero_iff _).mp hpp), if_neg hpp]
        rfl
  · refine ⟨_, ?_, List.forall_mem_singleton.mpr hself⟩
    have habsent : ¬(entryPresent pde ∧ entryLarge pde) := fun hc => hp hc.1
    rw [if_neg (mt (and_one_ne_zero_iff _).mp hp), if_neg habsent, if_neg hp]
    rfl

/-- The result is that of the hardware walk, 0 if there is none, and page table entries are only
read through entries of the directory that are page tables. -/
structure Paging.Agrees (p : Paging) (vaddr : Nat) : Prop where
  result : virtToPhysAddr vaddr p = .ok ((p.walk vaddr).getD 0, p)
  reads : ∃ a log, translateWith loggedRead vaddr (p, []) = .ok (a, p, log) ∧
    ∀ r ∈ log, p.InTable r

/-- In the entry of a 4 MB page, bits 13 to 21 are reserved; bit 12 is the PAT bit. -/
def entryLegal (entry : Nat) : Prop := entryLarge entry → entry / 2 ^ 13 % 2 ^ 9 = 0

def entryPat (entry : Nat) : Prop := entry / 2 ^ 12 % 2 = 1

instance (entry : Nat) : Decidable (entryPat entry) := inferInstanceAs (Decidable (_ = _))

/-- The translation is right unless the address is in a 4 MB page whose PAT bit is set. -/
theorem virtToPhysAddr_agrees_iff (h : p.SelfMapped)
    (hlegal : ∀ i < 1024, entryPresent (p.pde i) → entryLegal (p.pde i)) (hv : vaddr < 2 ^ 32) :
    p.Agrees vaddr ↔ ¬(entryPresent (p.pde (vaddr / 2 ^ 22)) ∧
      entryLarge (p.pde (vaddr / 2 ^ 22)) ∧ entryPat (p.pde (vaddr / 2 ^ 22))) := by
  obtain ⟨log, hrun, hlog⟩ := h.translates hv
  have hresult := of_translateWith_loggedRead hrun
  have hw : p.pde (vaddr / 2 ^ 22) < 2 ^ 32 := h.word _
  have heq : p.Agrees vaddr ↔ p.translation vaddr = (p.walk vaddr).getD 0 := by
    constructor
    · intro hagrees
      exact (Prod.mk.inj (Except.ok.inj (hresult.symm.trans hagrees.result))).1
    · intro htr
      exact ⟨by rw [← htr]; exact hresult, _, log, hrun, hlog⟩
  rw [heq]
  by_cases hl : entryPresent (p.pde (vaddr / 2 ^ 22)) ∧ entryLarge (p.pde (vaddr / 2 ^ 22))
  · have hzero := hlegal (vaddr / 2 ^ 22) (by omega) hl.1 hl.2
    have hwalk : p.walk vaddr =
      some (p.pde (vaddr / 2 ^ 22) / 2 ^ 22 * 2 ^ 22 + vaddr % 2 ^ 22) := by
      simp only [Paging.walk, hl.1, hl.2, if_true]
    rw [Paging.translation_large hl.1 hl.2, hwalk, Option.getD_some, entryPat, entryBase, add32]
    simp only [hl.1, hl.2, true_and]
    omega
  · rw [Paging.translation_other hl]
    exact iff_of_true rfl fun hc => hl ⟨hc.1, hc.2.1⟩

theorem virtToPhysAddr_agrees_oneTable : oneTable.Agrees 0x1234 := by
  refine (virtToPhysAddr_agrees_iff oneTable_recursive.toSelfMapped (fun i hi hp hl => ?_)
    (by decide)).mpr (by decide)
  rcases Nat.lt_or_ge i 1023 with hlt | hge
  · exact absurd hl (oneTable_recursive.small i hlt hp)
  · have hi' : i = 1023 := by omega
    subst hi'
    exact absurd hl oneTable_recursive.self_small

/-- A directory at 0x1000 whose entry 0 is a 4 MB page at 0x400000 with the PAT bit. -/
def patDirectory : Paging where
  pmem a := if a = 0x1000 + 4 * 1023 then 0x1003 else if a = 0x1000 then 0x401083 else 0
  cr3 := 0x1000

/-- The address 0x123 is at 0x400123, and `virt_to_phys_addr` returns 0x401123. -/
theorem patDirectory_disagrees : patDirectory.walk 0x123 = some 0x400123 ∧
    (virtToPhysAddr 0x123 patDirectory).toOption.map Prod.fst = some 0x401123 ∧
    ¬patDirectory.Agrees 0x123 := by
  have hrun : (virtToPhysAddr 0x123 patDirectory).toOption.map Prod.fst = some 0x401123 := by decide
  refine ⟨by decide, hrun, fun h => ?_⟩
  rw [h.result] at hrun
  exact absurd hrun (by decide)

end Atros
