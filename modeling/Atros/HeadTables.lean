import Atros.BssClear
import Atros.Memory
import Atros.PagingBoot

namespace Atros
set_option autoImplicit true

/-! ### The page tables of head.S -/

/-- `set_boot_pgt`, with a bound on the rounds. -/
def setBootPgt (tableEnd : Nat) : Nat → Nat → Nat → Mem → Option Mem
  | 0, _, _, _ => none
  | rounds + 1, edi, edx, m =>
    if edi = tableEnd then some m
    else setBootPgt tableEnd rounds (add32 edi 4) (add32 edx 4096) (store32 edi edx m)

/-- From the load of `edi` with `boot_pgd` on to the load of CR3. -/
def bootTables (bootPgd bootPgt : Nat) (m : Mem) : Option (Mem × Nat) := do
  let c ← memClear ⟨m, bootPgd, 1024 * 4⟩
  let edx := bootPgt ||| (pageSupervisor ||| pageReadWrite ||| pagePresent)
  let m := store32 bootPgd edx c.mem
  let m := store32 (add32 bootPgd (kernelSpace >>> 22 * 4)) edx m
  -- the null page, and the page at `KERNEL_SPACE`
  let m := store32 bootPgt 0 m
  let m ← setBootPgt (add32 bootPgt (4 * 1024)) (2 ^ 32) (add32 bootPgt 4)
    (4096 + (pageSupervisor ||| pageReadWrite ||| pagePresent)) m
  return (m, bootPgd)

/-- The paging unit over a byte-addressed memory. -/
def pagingOf (m : Mem) (cr3 : Nat) : Paging := ⟨load32 m, cr3⟩

variable {m m' : Mem}

theorem setBootPgt_fills (hi : i + n = 1024) (hn : n < k) (ht : t + 4096 < 2 ^ 32) (m : Mem) :
    ∃ m', setBootPgt (t + 4096) k (t + 4 * i) (i * 4096 + 3) m = some m' ∧
      (∀ j, i ≤ j → j < 1024 → load32 m' (t + 4 * j) = j * 4096 + 3) ∧
      ∀ x, x < t + 4 * i ∨ t + 4096 ≤ x → m' x = m x := by
  induction n generalizing i k m with
  | zero =>
    obtain ⟨rounds, rfl⟩ := Nat.exists_eq_succ_of_ne_zero (Nat.ne_of_gt hn)
    refine ⟨m, ?_, fun j hj hlt => by omega, fun _ _ => rfl⟩
    rw [setBootPgt, if_pos (by omega)]
  | succ n ih =>
    obtain ⟨rounds, rfl⟩ := Nat.exists_eq_succ_of_ne_zero (Nat.ne_of_gt (Nat.zero_lt_of_lt hn))
    obtain ⟨m', hrun, hentries, hothers⟩ := ih (i := i + 1) (k := rounds) (by omega) (by omega)
      (store32 (t + 4 * i) (i * 4096 + 3) m)
    refine ⟨m', ?_, fun j hj hlt => ?_, fun x hx => ?_⟩
    · have hedi : add32 (t + 4 * i) 4 = t + 4 * (i + 1) := add32_of_lt (by omega)
      have hedx : add32 (i * 4096 + 3) 4096 = (i + 1) * 4096 + 3 := by
        rw [add32_of_lt (by omega)]
        omega
      rw [setBootPgt, if_neg (by omega), hedi, hedx]
      exact hrun
    · rcases Nat.eq_or_lt_of_le hj with rfl | hlt'
      · rw [load32_congr fun x _ _ => hothers x (by omega), load32_store32 (by omega)]
      · exact hentries j hlt' hlt
    · rw [hothers x (by omega)]
      exact store32_outside (by omega) _ _

/-- The tables that head.S sets up: two entries of the directory for one page table, which maps
every page but page 0 to itself. -/
structure Paging.HeadTables (p : Paging) (d t : Nat) : Prop where
  cr3 : p.cr3 = d
  directory : ∀ i < 2 ^ 10, p.pmem (d + 4 * i) = if i = 0 ∨ i = 768 then t + 3 else 0
  table : ∀ i < 2 ^ 10, p.pmem (t + 4 * i) = if i = 0 then 0 else i * 2 ^ 12 + 3

/-- A page of tables. -/
structure TablePage (a : Nat) : Prop where
  aligned : a % 4096 = 0
  fits : a + 4096 < 2 ^ 32

theorem TablePage.entry (ht : TablePage t) :
    t ||| (pageSupervisor ||| pageReadWrite ||| pagePresent) = t + 3 := by
  obtain ⟨f, rfl⟩ : ∃ f, t = f * 2 ^ 12 := ⟨t / 2 ^ 12, by have := ht.aligned; omega⟩
  exact base_or_flags (by decide)

/-- The memory of the tables of head.S: the tables, and every other byte as before. -/
structure HeadMemory (m : Mem) (d t : Nat) (m' : Mem) : Prop where
  tables : (pagingOf m' d).HeadTables d t
  others : ∀ x, ¬(d ≤ x ∧ x < d + 4096) → ¬(t ≤ x ∧ x < t + 4096) → m' x = m x

theorem directory_entries (hzero : ∀ x, d ≤ x → x < d + 4096 → m x = 0) (ht : t + 3 < 2 ^ 32)
    (hi : i < 2 ^ 10) : load32 (store32 (d + 768 * 4) (t + 3) (store32 d (t + 3) m)) (d + 4 * i) =
      if i = 0 ∨ i = 768 then t + 3 else 0 := by
  by_cases hk : i = 768
  · subst hk
    rw [if_pos (.inr rfl), show d + 4 * 768 = d + 768 * 4 by omega, load32_store32 ht]
  · rw [load32_store32_of_apart (by omega)]
    by_cases h0 : i = 0
    · subst h0
      rw [if_pos (.inl rfl)]
      exact load32_store32 ht _ _
    · have hbyte : ∀ x, d + 4 * i ≤ x → x < d + 4 * i + 4 → m x = (fun _ => 0 : Mem) x :=
        fun x hx hx' => hzero x (by omega) (by omega)
      rw [if_neg (by omega), load32_store32_of_apart (by omega), load32_congr hbyte]
      rfl

theorem bootTables_memory (hd : TablePage d) (ht : TablePage t) (hne : d ≠ t) (m : Mem) :
    ∃ m', bootTables d t m = some (m', d) ∧ HeadMemory m d t m' := by
  have hda := hd.aligned
  have hta := ht.aligned
  have hdf := hd.fits
  have htf := ht.fits
  obtain ⟨c, hclear, hmem⟩ : ∃ c, memClearLoop (2 ^ 32) ⟨m, d, 4095 + 1⟩ = some c ∧
      ∀ x, c.mem x = if d ≤ x ∧ x < d + (4095 + 1) then 0 else m x :=
    memClearLoop_eq (by decide) (by decide) (by omega) m
  generalize hm₁ : store32 d (t + 3) c.mem = m₁
  generalize hm₂ : store32 (d + 768 * 4) (t + 3) m₁ = m₂
  generalize hm₃ : store32 t 0 m₂ = m₃
  obtain ⟨m', hrun, hentries, hothers⟩ := setBootPgt_fills (i := 1) (n := 1023) (k := 2 ^ 32)
    (t := t) (by decide) (by decide) htf m₃
  refine ⟨m', ?_, ⟨rfl, fun i hi => ?_, fun i hi => ?_⟩, fun x hxd hxt => ?_⟩
  · have hclear' : memClear ⟨m, d, 1024 * 4⟩ = some c :=
      (if_neg (by simp only; omega)).trans hclear
    have hentry : add32 d (kernelSpace >>> 22 * 4) = d + 768 * 4 := add32_of_lt (by
      have hk : kernelSpace >>> 22 * 4 = 768 * 4 := by decide
      omega)
    have hfirst : 4096 + (pageSupervisor ||| pageReadWrite ||| pagePresent) = 1 * 4096 + 3 := by
      decide
    have hedi : add32 t 4 = t + 4 * 1 := add32_of_lt (by omega)
    have hend : add32 t (4 * 1024) = t + 4096 := add32_of_lt (by omega)
    rw [bootTables, hclear', ht.entry, hentry, hfirst, hedi, hend]
    simp only [Option.bind_eq_bind, Option.bind_some, hm₁, hm₂, hm₃, hrun]
    rfl
  · have hkept : load32 m' (d + 4 * i) = load32 m₂ (d + 4 * i) := by
      rw [load32_congr fun x _ _ => hothers x (by omega), ← hm₃,
        load32_store32_of_apart (by omega)]
    change load32 m' (d + 4 * i) = _
    rw [hkept, ← hm₂, ← hm₁]
    exact directory_entries (fun x hx hx' => (hmem x).trans (if_pos (by omega))) (by omega) hi
  · change load32 m' (t + 4 * i) = _
    by_cases h0 : i = 0
    · subst h0
      rw [if_pos rfl, load32_congr fun x _ _ => hothers x (by omega), ← hm₃]
      exact load32_store32 (by decide) _ _
    · rw [if_neg h0]
      exact hentries i (by omega) hi
  · rw [hothers x (by omega), ← hm₃, store32_outside (by omega), ← hm₂, store32_outside (by omega),
      ← hm₁, store32_outside (by omega), hmem, if_neg (by omega)]

/-! ### The address space of head.S -/

/-- The first 4 MB without their first page, at 0 and at `KERNEL_SPACE`, and nothing else. -/
structure Paging.HeadSpace (p : Paging) : Prop where
  low : ∀ a, 4096 ≤ a → a < 4 * MB → p.walk a = some a
  kernel : ∀ a, 4096 ≤ a → a < 4 * MB → p.walk (kernelSpace + a) = some a
  others : ∀ v < 2 ^ 32, ¬(4096 ≤ v ∧ v < 4 * MB) →
    ¬(kernelSpace + 4096 ≤ v ∧ v < kernelSpace + 4 * MB) → p.walk v = none

theorem Paging.HeadTables.walk_none {p : Paging} (h : p.HeadTables d t) (hv : v < 2 ^ 32)
    (h0 : v / 2 ^ 22 ≠ 0) (hk : v / 2 ^ 22 ≠ 768) : p.walk v = none := by
  have hpde : p.pde (v / 2 ^ 22) = 0 := by
    rw [Paging.pde, h.cr3]
    exact (h.directory _ (by omega)).trans (if_neg (by omega))
  rw [walk, hpde]
  exact if_neg (by decide)

section
variable {p : Paging} (h : p.HeadTables d t) (ht : TablePage t)
include h ht

theorem Paging.HeadTables.walk_table (hv : v / 2 ^ 22 = 0 ∨ v / 2 ^ 22 = 768) :
    p.walk v = if v / 2 ^ 12 % 2 ^ 10 = 0 then none else some (v % 2 ^ 22) := by
  have hta : t % 2 ^ 12 = 0 := ht.aligned
  have hpde : p.pde (v / 2 ^ 22) = t + 3 := by
    rw [Paging.pde, h.cr3]
    exact (h.directory _ (by omega)).trans (if_pos hv)
  have hpte := h.table (v / 2 ^ 12 % 2 ^ 10) (Nat.mod_lt _ (by decide))
  simp only [walk, hpde, entryBase_supervisor hta, entryPresent_supervisor hta,
    not_entryLarge_supervisor hta, if_true, if_false, hpte]
  by_cases h0 : v / 2 ^ 12 % 2 ^ 10 = 0
  · rw [if_pos h0, if_pos h0, if_neg (by decide)]
  · have hpage : v / 2 ^ 12 % 2 ^ 10 * 2 ^ 12 % 2 ^ 12 = 0 := Nat.mul_mod_left ..
    rw [if_neg h0, if_neg h0, if_pos (entryPresent_supervisor hpage), entryBase_supervisor hpage]
    exact congrArg some (by omega)

theorem Paging.HeadTables.space : p.HeadSpace := by
  have hMB : 4 * MB = 2 ^ 22 := by decide
  have hspace : kernelSpace = 768 * 2 ^ 22 := by decide
  refine ⟨fun a hlo hhi => ?_, fun a hlo hhi => ?_, fun v hv hlow hkernel => ?_⟩
  · rw [hMB] at hhi
    rw [h.walk_table ht (.inl (by omega)), if_neg (by omega), Nat.mod_eq_of_lt hhi]
  · rw [hMB] at hhi
    rw [hspace, h.walk_table ht (.inr (by omega)), if_neg (by omega)]
    exact congrArg some (by omega)
  · rw [hMB] at hlow hkernel
    rw [hspace] at hkernel
    by_cases htable : v / 2 ^ 22 = 0 ∨ v / 2 ^ 22 = 768
    · rw [h.walk_table ht htable, if_pos (by omega)]
    · exact h.walk_none hv (fun h0 => htable (.inl h0)) fun hk => htable (.inr hk)

end

/-- Whatever the memory held, the tables of head.S map the first 4 MB twice, and no other byte of
the memory is lost. -/
theorem bootTables_space (hd : TablePage bootPgd) (ht : TablePage bootPgt) (hne : bootPgd ≠ bootPgt)
    (m : Mem) : ∃ m', bootTables bootPgd bootPgt m = some (m', bootPgd) ∧
      (pagingOf m' bootPgd).HeadSpace ∧ ∀ x, ¬(bootPgd ≤ x ∧ x < bootPgd + 4096) →
        ¬(bootPgt ≤ x ∧ x < bootPgt + 4096) → m' x = m x := by
  obtain ⟨m', hrun, hmemory⟩ := bootTables_memory hd ht hne m
  exact ⟨m', hrun, hmemory.tables.space ht, hmemory.others⟩

theorem bootTables_space_image : ∃ m',
    bootTables 0x101000 0x102000 (fun _ => 0xFF) = some (m', 0x101000) ∧
      (pagingOf m' 0x101000).HeadSpace ∧ ∀ x, ¬(0x101000 ≤ x ∧ x < 0x101000 + 4096) →
        ¬(0x102000 ≤ x ∧ x < 0x102000 + 4096) → m' x = 0xFF :=
  bootTables_space ⟨by decide, by decide⟩ ⟨by decide, by decide⟩ (by decide) fun _ => 0xFF

end Atros
