import Atros.HeadTables

namespace Atros
set_option autoImplicit true

/-! ### `paging_boot_init` on the tables of head.S -/

/-- A store to an entry of a table, at its virtual address. -/
def storeEntry (table i w : Nat) : Prog Panic Paging Unit := writeWord (add32 table (4 * i)) w

/-- `fillLoop` with stores at virtual addresses. -/
def storeLoop (table : Nat) (entry : Nat → Nat) (go : Nat → Prop) [DecidablePred go] :
    Nat → Nat → Prog Panic Paging Unit
  | 0, _ => throw .endless
  | rounds + 1, i =>
    if go i then do
      storeEntry table i (entry i)
      storeLoop table entry go rounds (add32 i 1)
    else pure ()

/-- `paging_boot_init` as the processor runs it: each store goes through the tables that are
loaded. -/
def pagingBootInitMapped (kpgd firstKpgt bootPaStart kernelPaEnd : Nat) :
    Prog Panic Paging Unit := do
  storeLoop kpgd (fun _ => 0) (· < nbrPdEntries) indexRounds 0
  storeLoop firstKpgt (fun _ => 0) (· < nbrPtEntries) indexRounds 0
  storeEntry kpgd (kernelSpace >>> 22) (supervisorEntry (sub32 firstKpgt kernelSpace))
  storeEntry kpgd recPagingEntry (supervisorEntry (sub32 kpgd kernelSpace))
  let firstPpagePpn := paddrToPpn bootPaStart
  let lastPpagePpn := sub32 (paddrToPpn (roundup kernelPaEnd ppageSize)) 1
  storeLoop firstKpgt (fun i => supervisorEntry (i <<< 12 % 2 ^ 32)) (· ≤ lastPpagePpn) indexRounds
    firstPpagePpn
  storeLoop firstKpgt (fun i => supervisorEntry (i <<< 12 % 2 ^ 32)) (· < MB >>> 12) indexRounds 0
  loadPgd (sub32 kpgd kernelSpace)

variable {p p' : Paging}

/-- A table of the kernel that lies in the first 4 MB, off the tables of head.S. -/
structure TableAt (d t table : Nat) : Prop where
  aligned : table % 4096 = 0
  ge : kernelSpace + 4096 ≤ table
  lt : table < kernelSpace + 4 * MB
  off_directory : table ≠ kernelSpace + d
  off_table : table ≠ kernelSpace + t

section
variable (hd : TablePage d) (ht : TablePage t) (hat : TableAt d t a)
include hd ht hat

theorem Paging.HeadTables.stores (h : p.HeadTables d t) (hi : i < 2 ^ 10) (w : Nat) :
    storeEntry a i w p = (entryAt a i).write w p ∧
      ((entryAt a i).set w p).HeadTables d t := by
  have hspace : kernelSpace = 768 * 2 ^ 22 := by decide
  have hMB : 4 * MB = 2 ^ 22 := by decide
  obtain ⟨haligned, hge, hlt, hoffd, hofft⟩ := hat
  have hda := hd.aligned
  have hta := ht.aligned
  rw [hspace] at hge hlt hoffd hofft
  rw [hMB] at hlt
  obtain ⟨b, rfl⟩ : ∃ b, a = 768 * 2 ^ 22 + b := ⟨a - 768 * 2 ^ 22, by omega⟩
  have hpaddr : sub32 (768 * 2 ^ 22 + b) kernelSpace = b := by
    rw [hspace, sub32_of_le (by omega) (by omega)]
    omega
  have hwalk : p.walk (add32 (768 * 2 ^ 22 + b) (4 * i)) = some (b + 4 * i) := by
    rw [add32_of_lt (by omega), Nat.add_assoc, ← hspace]
    exact (h.space ht).kernel (b + 4 * i) (by omega) (by omega)
  have hset : (entryAt (768 * 2 ^ 22 + b) i).set w p =
      { p with pmem := Function.update p.pmem (b + 4 * i) w } := by
    rw [entryAt]
    simp only [hpaddr]
  refine ⟨?_, ?_⟩
  · rw [storeEntry, writeWord_eq hwalk, Place.write_ok, hset]
  · rw [hset]
    refine ⟨h.cr3, fun j hj => ?_, fun j hj => ?_⟩
    · exact (Function.update_of_ne (by omega) _ _).trans (h.directory j hj)
    · exact (Function.update_of_ne (by omega) _ _).trans (h.table j hj)

/-- What holds before a store holds after it, so the loop is the one at physical addresses. -/
theorem Paging.HeadTables.fills (h : p.HeadTables d t) (go : Nat → Prop) [DecidablePred go]
    (entry : Nat → Nat) (hgo : ∀ i, go i → i < 2 ^ 10) (rounds i : Nat) :
    storeLoop a entry go rounds i p = fillLoop a entry go rounds i p ∧
      Ends (fun _ => True) (fun _ p' => p'.HeadTables d t) (fillLoop a entry go rounds i p) := by
  induction rounds generalizing p i with
  | zero => exact ⟨rfl, trivial⟩
  | succ rounds ih =>
    rw [storeLoop, fillLoop]
    by_cases hi : go i
    · obtain ⟨hstore, hkept⟩ := h.stores hd ht hat (hgo i hi) (entry i)
      rw [if_pos hi, if_pos hi, bind_ok (hstore.trans (Place.write_ok ..)), bind_write]
      exact ih hkept (add32 i 1)
    · rw [if_neg hi, if_neg hi]
      exact ⟨rfl, h⟩

end

/-- `paging_boot_init` does through the tables of head.S what it does at physical addresses. -/
theorem Paging.HeadTables.bootInit (h : p.HeadTables d t) (hd : TablePage d) (ht : TablePage t)
    (hkpgd : TableAt d t kpgd) (hkpgt : TableAt d t firstKpgt)
    (hend : roundup kernelPaEnd ppageSize ≤ 4 * MB)
    (hpos : 0 < roundup kernelPaEnd ppageSize >>> 12)
    (bootPaStart : Nat) : pagingBootInitMapped kpgd firstKpgt bootPaStart kernelPaEnd p =
      pagingBootInit kpgd firstKpgt bootPaStart kernelPaEnd p := by
  have hMB : 4 * MB = 2 ^ 22 := by decide
  have hlast : sub32 (paddrToPpn (roundup kernelPaEnd ppageSize)) 1 < 2 ^ 10 := by
    rw [hMB] at hend
    rw [Nat.shiftRight_eq_div_pow] at hpos
    rw [paddrToPpn, Nat.shiftRight_eq_div_pow, sub32_of_le (by omega) (by omega)]
    omega
  have hstore : ∀ {a i w} {p : Paging}, TableAt d t a → i < 2 ^ 10 → p.HeadTables d t →
      storeEntry a i w p = (entryAt a i).write w p ∧ Ends (fun _ => True)
        (fun _ p' => p'.HeadTables d t) ((entryAt a i).write w p) :=
    fun hat hi h => ⟨(h.stores hd ht hat hi _).1, (h.stores hd ht hat hi _).2⟩
  unfold pagingBootInitMapped pagingBootInit
  generalize indexRounds = rounds
  obtain ⟨heq, hends⟩ := h.fills hd ht hkpgd (· < nbrPdEntries) (fun _ => 0) (fun _ hi => hi)
    rounds 0
  refine bind_agree heq hends fun _ p₁ h₁ => ?_
  obtain ⟨heq, hends⟩ := h₁.fills hd ht hkpgt (· < nbrPtEntries) (fun _ => 0) (fun _ hi => hi)
    rounds 0
  refine bind_agree heq hends fun _ p₂ h₂ => ?_
  obtain ⟨heq, hends⟩ := hstore hkpgd (show kernelSpace >>> 22 < 2 ^ 10 by decide) h₂
  refine bind_agree heq hends fun _ p₃ h₃ => ?_
  obtain ⟨heq, hends⟩ := hstore hkpgd (show recPagingEntry < 2 ^ 10 by decide) h₃
  refine bind_agree heq hends fun _ p₄ h₄ => ?_
  obtain ⟨heq, hends⟩ := h₄.fills hd ht hkpgt
    (· ≤ sub32 (paddrToPpn (roundup kernelPaEnd ppageSize)) 1) _ (fun _ hi => by omega) rounds
    (paddrToPpn bootPaStart)
  refine bind_agree heq hends fun _ p₅ h₅ => ?_
  obtain ⟨heq, hends⟩ := h₅.fills hd ht hkpgt (· < MB >>> 12) _
    (fun _ hi => Nat.lt_of_lt_of_le hi (by decide)) rounds 0
  exact bind_agree heq hends fun _ p₆ h₆ => rfl

/-! ### The switch of the address space -/

/-- The image holds the tables of head.S, and apart from them those of `paging_boot_init`. -/
structure BootImage (d t kpgd firstKpgt bootPaStart kernelPaEnd : Nat) : Prop where
  start_ge : MB ≤ bootPaStart
  start_aligned : bootPaStart % 4096 = 0
  end_gt : bootPaStart < kernelPaEnd
  end_lt : kernelPaEnd < 2 * MB
  directory : TablePage d
  table : TablePage t
  tables_ne : d ≠ t
  kernel_directory : TableAt d t kpgd
  kernel_table : TableAt d t firstKpgt
  kpgd_in : kernelSpace + bootPaStart ≤ kpgd ∧ kpgd < kernelSpace + kernelPaEnd
  firstKpgt_in : kernelSpace + bootPaStart ≤ firstKpgt ∧ firstKpgt < kernelSpace + kernelPaEnd
  kernel_ne : kpgd ≠ firstKpgt

/-- The switch from the tables of head.S to those of the kernel: the addresses that the kernel
runs at translate as before, and the first 4 MB are no longer seen at 0. -/
structure Paging.Switched (p p' : Paging) (bootPaStart kernelPaEnd : Nat) : Prop where
  seamless : ∀ a, 4096 ≤ a → BootMapped bootPaStart kernelPaEnd a →
    p.walk (kernelSpace + a) = some a ∧ p'.walk (kernelSpace + a) = some a
  identity : ∀ a, 4096 ≤ a → a < 4 * MB → p.walk a = some a ∧ p'.walk a = none

theorem Paging.BootTables.space (h : p.BootTables (sub32 kpgd kernelSpace)
      (sub32 firstKpgt kernelSpace) (bootPaStart / 4096) ((kernelPaEnd + 4095) / 4096))
    (hd : sub32 kpgd kernelSpace % 2 ^ 12 = 0) (ht : sub32 firstKpgt kernelSpace % 2 ^ 12 = 0)
    (haligned : bootPaStart % 4096 = 0) (hend : kernelPaEnd < 2 * MB) :
    p.BootSpace kpgd firstKpgt bootPaStart kernelPaEnd := by
  have hMB : MB = 2 ^ 20 := by decide
  have hspace : kernelSpace = 768 * 2 ^ 22 := by decide
  have hround : roundup kernelPaEnd ppageSize = (kernelPaEnd + 4095) / 4096 * 4096 :=
    roundup_pages (by omega)
  have hmapped : ∀ a, BootMapped bootPaStart kernelPaEnd a ↔ a < 2 ^ 22 ∧ (a / 2 ^ 12 < 256 ∨
      bootPaStart / 4096 ≤ a / 2 ^ 12 ∧ a / 2 ^ 12 < (kernelPaEnd + 4095) / 4096) := by
    intro a
    rw [BootMapped, hMB, hround]
    omega
  refine ⟨fun a ha => ?_, fun v hv hout => ?_, fun j hj o ho => h.walk_window hd ht hj ho⟩
  · obtain ⟨hlt, hin⟩ := (hmapped a).mp ha
    rw [h.walk_kernel ht hlt, if_pos hin]
    exact ⟨rfl, h.grants_kernel ht hlt hin⟩
  · by_cases hk : v / 2 ^ 22 = 768
    · obtain ⟨a, rfl⟩ : ∃ a, v = kernelSpace + a := ⟨v - kernelSpace, by omega⟩
      have hlt : a < 2 ^ 22 := by omega
      rw [h.walk_kernel ht hlt, if_neg]
      exact fun hin => hout a ((hmapped a).mpr ⟨hlt, hin⟩) rfl
    · exact h.walk_none (by omega) hk (by omega)

/-- From the tables of head.S, on any memory, to those of the kernel. -/
theorem bootTables_switch (himage : BootImage d t kpgd firstKpgt bootPaStart kernelPaEnd)
    (m : Mem) : ∃ m' p', bootTables d t m = some (m', d) ∧
      pagingBootInitMapped kpgd firstKpgt bootPaStart kernelPaEnd (pagingOf m' d) = .ok ((), p') ∧
      pagingBootInit kpgd firstKpgt bootPaStart kernelPaEnd (pagingOf m' d) = .ok ((), p') ∧
      p'.BootSpace kpgd firstKpgt bootPaStart kernelPaEnd ∧
      (pagingOf m' d).Switched p' bootPaStart kernelPaEnd := by
  obtain ⟨hge, haligned, hgt, hlt, hd, ht, hne, hkpgd, hkpgt, hkpgdIn, hkpgtIn, hkne⟩ := himage
  have hMB : MB = 2 ^ 20 := by decide
  have hspace : kernelSpace = 768 * 2 ^ 22 := by decide
  have hround : roundup kernelPaEnd ppageSize = (kernelPaEnd + 4095) / 4096 * 4096 := by
    rw [hMB] at hlt
    exact roundup_pages (by omega)
  obtain ⟨m', hrun, hmemory⟩ := bootTables_memory hd ht hne m
  have hend : roundup kernelPaEnd ppageSize ≤ 4 * MB := by
    rw [hround]
    omega
  have hpos : 0 < roundup kernelPaEnd ppageSize >>> 12 := by
    rw [hround, Nat.shiftRight_eq_div_pow]
    omega
  have hsame := hmemory.tables.bootInit hd ht hkpgd hkpgt hend hpos bootPaStart
  have hd' : sub32 kpgd kernelSpace = kpgd - kernelSpace := sub32_of_le (by omega) (by omega)
  have ht' : sub32 firstKpgt kernelSpace = firstKpgt - kernelSpace :=
    sub32_of_le (by omega) (by omega)
  have hdpage : sub32 kpgd kernelSpace % 2 ^ 12 = 0 := by
    have := hkpgd.aligned
    omega
  have htpage : sub32 firstKpgt kernelSpace % 2 ^ 12 = 0 := by
    have := hkpgt.aligned
    omega
  have hoff : sub32 kpgd kernelSpace ≠ sub32 firstKpgt kernelSpace := by omega
  have hlo : bootPaStart = bootPaStart / 4096 * 2 ^ 12 := by omega
  obtain ⟨p', hrun', htables⟩ := pagingBootInit_tables (pagingOf m' d) rfl rfl hdpage htpage hoff
    hlo hround (by omega) (by omega)
  have hspace' := htables.space hdpage htpage haligned hlt
  have hhead := hmemory.tables.space ht
  refine ⟨m', p', hrun, hsame.trans hrun', hrun', hspace',
    fun a hlo ha => ⟨?_, (hspace'.image a ha).1⟩,
    fun a hlo hhi => ⟨hhead.low a hlo hhi, hspace'.others a ?_ fun b _ hb => ?_⟩⟩
  · refine hhead.kernel a hlo ?_
    rcases ha with ha | ha
    · omega
    · rw [hround] at ha
      omega
  · omega
  · omega

theorem bootTables_switch_image : ∃ m' p', bootTables 0x101000 0x102000 (fun _ => 0xFF) =
      some (m', 0x101000) ∧
    pagingBootInitMapped 0xC013E000 0xC013F000 0x100000 0x140000 (pagingOf m' 0x101000) =
      .ok ((), p') ∧
    pagingBootInit 0xC013E000 0xC013F000 0x100000 0x140000 (pagingOf m' 0x101000) =
      .ok ((), p') ∧
    p'.BootSpace 0xC013E000 0xC013F000 0x100000 0x140000 ∧
    (pagingOf m' 0x101000).Switched p' 0x100000 0x140000 :=
  bootTables_switch ⟨by decide, by decide, by decide, by decide, ⟨by decide, by decide⟩,
    ⟨by decide, by decide⟩, by decide, ⟨by decide, by decide, by decide, by decide, by decide⟩,
    ⟨by decide, by decide, by decide, by decide, by decide⟩, by decide, by decide, by decide⟩ _

end Atros
