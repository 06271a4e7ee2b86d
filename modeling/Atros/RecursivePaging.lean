import Atros.Paging

namespace Atros
set_option autoImplicit true

/-- Entry 1023 of the page directory points to the directory itself. -/
structure Paging.SelfMapped (p : Paging) : Prop where
  cr3_base : p.cr3 % 2 ^ 12 = 0
  word : ∀ a, p.pmem a < 2 ^ 32
  self_present : entryPresent (p.pde 1023)
  self_small : ¬entryLarge (p.pde 1023)
  self_base : entryBase (p.pde 1023) = p.cr3

/-- The other present entries are 4 KB page tables, in frames distinct from each other and
from the directory. -/
structure Paging.RecursiveTables (p : Paging) : Prop extends p.SelfMapped where
  small : ∀ i < 1023, entryPresent (p.pde i) → ¬entryLarge (p.pde i)
  apart : ∀ i < 1023, ∀ j < 1023, entryPresent (p.pde i) → entryPresent (p.pde j) → i ≠ j →
    entryBase (p.pde i) ≠ entryBase (p.pde j)
  off_dir : ∀ i < 1023, entryPresent (p.pde i) → entryBase (p.pde i) ≠ p.cr3

/-- The page table entry of virtual page `v`. -/
def Paging.pte (p : Paging) (v : Nat) : Nat :=
  p.pmem (entryBase (p.pde (v / 2 ^ 10)) + 4 * (v % 2 ^ 10))

theorem split_vaddr (ho : o < 2 ^ 12) :
    (v * 2 ^ 12 + o) / 2 ^ 22 = v / 2 ^ 10 ∧ (v * 2 ^ 12 + o) / 2 ^ 12 % 2 ^ 10 = v % 2 ^ 10 ∧
      (v * 2 ^ 12 + o) % 2 ^ 12 = o := by
  omega

theorem Paging.RecursiveTables.small' (h : Paging.RecursiveTables p) (hi : i < 1024)
    (hp : entryPresent (p.pde i)) : ¬entryLarge (p.pde i) := by
  rcases Nat.lt_or_ge i 1023 with hlt | hge
  · exact h.small i hlt hp
  · have hi' : i = 1023 := by omega
    subst i
    exact h.self_small

theorem Paging.RecursiveTables.walk_page (h : Paging.RecursiveTables p) (hv : v < 2 ^ 20)
    (ho : o < 2 ^ 12) : p.walk (v * 2 ^ 12 + o) =
      if entryPresent (p.pde (v / 2 ^ 10)) ∧ entryPresent (p.pte v) then
        some (entryBase (p.pte v) + o)
      else none := by
  obtain ⟨hd, ht, hm⟩ := split_vaddr (v := v) ho
  simp only [walk, hd, ht, hm]
  by_cases hp : entryPresent (p.pde (v / 2 ^ 10))
  · have hs := h.small' (by omega) hp
    simp only [hp, hs, if_true, if_false, true_and, Paging.pte]
  · simp only [hp, if_false, false_and]

/-- Through the recursive window a virtual address reaches the words of a page table. -/
theorem Paging.SelfMapped.walk_window (h : Paging.SelfMapped p) (hj : j < 2 ^ 10)
    (hk : k < 2 ^ 10) (hp : entryPresent (p.pde j)) :
    p.walk (1023 * 2 ^ 22 + j * 2 ^ 12 + 4 * k) = some (entryBase (p.pde j) + 4 * k) := by
  have hd : (1023 * 2 ^ 22 + j * 2 ^ 12 + 4 * k) / 2 ^ 22 = 1023 := by omega
  have ht : (1023 * 2 ^ 22 + j * 2 ^ 12 + 4 * k) / 2 ^ 12 % 2 ^ 10 = j := by omega
  have hm : (1023 * 2 ^ 22 + j * 2 ^ 12 + 4 * k) % 2 ^ 12 = 4 * k := by omega
  have hself : p.pmem (entryBase (p.pde 1023) + 4 * j) = p.pde j := by
    rw [h.self_base]
    rfl
  simp only [walk, hd, ht, hm, h.self_present, h.self_small, if_true, if_false, hself, hp]

theorem window_addr (hj : j < 2 ^ 10) (hk : k < 2 ^ 10) :
    (recPagingEntry * 4 * MB + j * 4 * KB + k * 4) % 2 ^ 32 =
      1023 * 2 ^ 22 + j * 2 ^ 12 + 4 * k := by
  simp only [recPagingEntry, MB, KB]
  omega

theorem readWord_eq {p : Paging} (h : p.walk vaddr = some a) :
    readWord vaddr p = .ok (p.pmem a, p) := by
  unfold readWord
  rw [bind_get, h, bind_ok deref_some]
  rfl

theorem writeWord_eq {p : Paging} (h : p.walk vaddr = some a) :
    writeWord vaddr w p = .ok ((), { p with pmem := Function.update p.pmem a w }) := by
  unfold writeWord
  rw [bind_get, h, bind_ok deref_some]
  rfl

theorem getPde_eq (h : Paging.SelfMapped p) (hi : i < 2 ^ 10) :
    getPde i p = .ok (p.pde i, p) := by
  have haddr : (recPagingEntry * 4 * MB + recPagingEntry * 4 * KB + i * 4) % 2 ^ 32 =
      1023 * 2 ^ 22 + 1023 * 2 ^ 12 + 4 * i := window_addr (by decide) hi
  unfold getPde
  rw [haddr, readWord_eq (h.walk_window (by decide) hi h.self_present), h.self_base, Paging.pde]

theorem getPte_eq (h : Paging.SelfMapped p) (hj : j < 2 ^ 10) (hk : k < 2 ^ 10)
    (hp : entryPresent (p.pde j)) :
    getPte j k p = .ok (p.pmem (entryBase (p.pde j) + 4 * k), p) := by
  unfold getPte
  rw [window_addr hj hk, readWord_eq (h.walk_window hj hk hp)]

theorem setPte_eq (h : Paging.SelfMapped p) (hj : j < 2 ^ 10) (hk : k < 2 ^ 10)
    (hp : entryPresent (p.pde j)) :
    setPte j k w p =
      .ok ((), { p with pmem := Function.update p.pmem (entryBase (p.pde j) + 4 * k) w }) := by
  unfold setPte
  rw [window_addr hj hk, writeWord_eq (h.walk_window hj hk hp)]

/-- `virt_to_phys_addr` is the hardware walk, with 0 for an unmapped address. -/
theorem virtToPhysAddr_eq (h : Paging.RecursiveTables p) (hv : v < 2 ^ 20) (ho : o < 2 ^ 12) :
    virtToPhysAddr (v * 2 ^ 12 + o) p = .ok ((p.walk (v * 2 ^ 12 + o)).getD 0, p) := by
  obtain ⟨hd, ht, hm⟩ := split_vaddr (v := v) ho
  have hpde : v / 2 ^ 10 < 2 ^ 10 := by omega
  rw [h.walk_page hv ho]
  unfold virtToPhysAddr
  rw [pdeIndex_eq, pteIndex_eq, hd, ht, bind_ok (getPde_eq h.toSelfMapped hpde)]
  by_cases hp : entryPresent (p.pde (v / 2 ^ 10))
  · have hs := h.small' hpde hp
    rw [if_pos ((and_one_ne_zero_iff _).mpr hp), if_pos ((and_page4MB_eq_zero_iff _).mpr hs),
      bind_ok (getPte_eq h.toSelfMapped hpde (Nat.mod_lt _ (by decide)) hp)]
    have hpte : p.pmem (entryBase (p.pde (v / 2 ^ 10)) + 4 * (v % 2 ^ 10)) = p.pte v := rfl
    rw [hpte]
    by_cases hpp : entryPresent (p.pte v)
    · have hlow : (v * 2 ^ 12 + o) &&& ((1 <<< 12) - 1) = o := by
        rw [Nat.one_shiftLeft, Nat.and_two_pow_sub_one_eq_mod, hm]
      have hw := h.word (entryBase (p.pde (v / 2 ^ 10)) + 4 * (v % 2 ^ 10))
      rw [hpte] at hw
      rw [if_pos ((and_one_ne_zero_iff _).mpr hpp), if_pos (And.intro hp hpp), hlow,
        getAddrOfPte, mask_base hw, entryBase_add32 hw ho]
      rfl
    · rw [if_neg (mt (and_one_ne_zero_iff _).mp hpp), if_neg (fun hc => hpp hc.2)]
      rfl
  · rw [if_neg (mt (and_one_ne_zero_iff _).mp hp), if_neg (fun hc => hp hc.1)]
    rfl

/-- The memory after the entry of virtual page `v` was set. -/
def Paging.setEntry (p : Paging) (v w : Nat) : Paging :=
  let entry := entryBase (p.pde (v / 2 ^ 10)) + 4 * (v % 2 ^ 10)
  { p with pmem := Function.update p.pmem entry w }

theorem Paging.setEntry_pmem (p : Paging) (v w a : Nat) : (p.setEntry v w).pmem a =
    if a = entryBase (p.pde (v / 2 ^ 10)) + 4 * (v % 2 ^ 10) then w else p.pmem a :=
  Function.update_apply ..

theorem mapPage_eq (h : Paging.RecursiveTables p) (hv : 1 ≤ v) (hv' : v < 1023 * 1024)
    (hf : f < 2 ^ 20) (hflags : flags < 2 ^ 12) (h4 : ¬entryLarge flags)
    (hp : entryPresent (p.pde (v / 2 ^ 10))) :
    mapPage f v flags p = .ok ((), p.setEntry v (f * 2 ^ 12 + flags)) := by
  have hpde : v / 2 ^ 10 < 2 ^ 10 := by omega
  have hvaddr : vpnToVaddr v = v * 2 ^ 12 := by
    rw [vpnToVaddr, Nat.shiftLeft_eq]
    omega
  have hpaddr : ppnToPaddr f = f * 2 ^ 12 := by
    rw [ppnToPaddr, Nat.shiftLeft_eq]
    omega
  obtain ⟨hd, ht, -⟩ := split_vaddr (v := v) (o := 0) (by decide)
  simp only [Nat.add_zero] at hd ht
  unfold mapPage
  rw [hvaddr, hpaddr, pdeIndex_eq, pteIndex_eq, hd, ht, base_or_flags hflags,
    bind_ok (check_ok (by omega)), bind_ok (check_ok ((and_page4MB_eq_zero_iff _).mpr h4)),
    bind_ok (getPde_eq h.toSelfMapped hpde),
    bind_ok (check_ok ((and_one_ne_zero_iff _).mpr hp)),
    setPte_eq h.toSelfMapped hpde (Nat.mod_lt _ (by decide)) hp]
  rfl

/-! ### The frame of one table write -/

theorem entry_addr_inj (hk : k < 2 ^ 10) (hk' : k' < 2 ^ 10)
    (h : entryBase e + 4 * k = entryBase e' + 4 * k') : entryBase e = entryBase e' ∧ k = k' := by
  rw [entryBase, entryBase] at *
  omega

theorem Paging.RecursiveTables.pde_setEntry (h : Paging.RecursiveTables p)
    (hv : v < 1023 * 1024) (hp : entryPresent (p.pde (v / 2 ^ 10))) (hi : i < 2 ^ 10) :
    (p.setEntry v w).pde i = p.pde i := by
  refine Function.update_of_ne ?_ _ _
  intro heq
  have hb := h.self_base
  change p.cr3 + 4 * i = _ at heq
  rw [← hb] at heq
  have hc := (entry_addr_inj hi (Nat.mod_lt v (by decide)) heq).1
  exact h.off_dir _ (by omega) hp (hc.symm.trans hb)

theorem Paging.RecursiveTables.setEntry (h : Paging.RecursiveTables p) (hv : v < 1023 * 1024)
    (hp : entryPresent (p.pde (v / 2 ^ 10))) (hw : w < 2 ^ 32) :
    (p.setEntry v w).RecursiveTables := by
  have hpde {i} (hi : i < 2 ^ 10) : (p.setEntry v w).pde i = p.pde i := h.pde_setEntry hv hp hi
  have hpde' {i} (hi : i < 1023) : (p.setEntry v w).pde i = p.pde i := hpde (by omega)
  refine ⟨⟨h.cr3_base, ?_, ?_, ?_, ?_⟩, ?_, ?_, ?_⟩
  · intro a
    rw [setEntry_pmem]
    split
    · exact hw
    · exact h.word a
  · rw [hpde (by decide)]
    exact h.self_present
  · rw [hpde (by decide)]
    exact h.self_small
  · rw [hpde (by decide)]
    exact h.self_base
  · intro i hi hpi
    rw [hpde' hi] at hpi ⊢
    exact h.small i hi hpi
  · intro i hi j hj hpi hpj hij
    rw [hpde' hi] at hpi ⊢
    rw [hpde' hj] at hpj ⊢
    exact h.apart i hi j hj hpi hpj hij
  · intro i hi hpi
    rw [hpde' hi] at hpi ⊢
    exact h.off_dir i hi hpi

theorem Paging.RecursiveTables.pte_setEntry_self (h : Paging.RecursiveTables p)
    (hv : v < 1023 * 1024) (hp : entryPresent (p.pde (v / 2 ^ 10))) :
    (p.setEntry v w).pte v = w := by
  rw [pte, h.pde_setEntry hv hp (by omega), setEntry_pmem, if_pos rfl]

theorem Paging.RecursiveTables.pte_setEntry_of_ne (h : Paging.RecursiveTables p)
    (hv : v < 1023 * 1024) (hp : entryPresent (p.pde (v / 2 ^ 10))) (hu : u < 2 ^ 20)
    (hpu : entryPresent (p.pde (u / 2 ^ 10))) (hne : u ≠ v) :
    (p.setEntry v w).pte u = p.pte u := by
  rw [pte, h.pde_setEntry hv hp (by omega), setEntry_pmem, pte]
  refine if_neg ?_
  intro heq
  obtain ⟨hb, hk⟩ := entry_addr_inj (Nat.mod_lt u (by decide)) (Nat.mod_lt v (by decide)) heq
  -- a shared word would lie in one table of two directory entries, or in the directory
  have hi : u / 2 ^ 10 ≠ v / 2 ^ 10 := by omega
  rcases Nat.lt_or_ge (u / 2 ^ 10) 1023 with hlt | hge
  · exact h.apart _ hlt _ (by omega) hpu hp hi hb
  · have hu' : u / 2 ^ 10 = 1023 := by omega
    rw [hu', h.self_base] at hb
    exact h.off_dir _ (by omega) hp hb.symm

theorem Paging.RecursiveTables.walk_setEntry_of_ne (h : Paging.RecursiveTables p)
    (hv : v < 1023 * 1024) (hp : entryPresent (p.pde (v / 2 ^ 10))) (hw : w < 2 ^ 32)
    (hu : u < 2 ^ 20) (hne : u ≠ v) (ho : o < 2 ^ 12) :
    (p.setEntry v w).walk (u * 2 ^ 12 + o) = p.walk (u * 2 ^ 12 + o) := by
  rw [(h.setEntry hv hp hw).walk_page hu ho, h.walk_page hu ho,
    h.pde_setEntry hv hp (by omega)]
  by_cases hpu : entryPresent (p.pde (u / 2 ^ 10))
  · rw [h.pte_setEntry_of_ne hv hp hu hpu hne]
  · rw [if_neg (fun hc => hpu hc.1), if_neg (fun hc => hpu hc.1)]

theorem Paging.RecursiveTables.walk_setEntry_self (h : Paging.RecursiveTables p)
    (hv : v < 1023 * 1024) (hp : entryPresent (p.pde (v / 2 ^ 10))) (hf : f < 2 ^ 20)
    (hflags : flags < 2 ^ 12) (hfp : entryPresent flags) (ho : o < 2 ^ 12) :
    (p.setEntry v (f * 2 ^ 12 + flags)).walk (v * 2 ^ 12 + o) = some (f * 2 ^ 12 + o) := by
  rw [(h.setEntry hv hp (by omega)).walk_page (by omega) ho, h.pde_setEntry hv hp (by omega),
    h.pte_setEntry_self hv hp, entryBase_add hflags,
    if_pos ⟨hp, entryPresent_add.mpr hfp⟩]

/-! ### Runs of the mapping loop -/

/-- What `map_pages` does to the translation: the `n` virtual pages from `v` on go to the
physical pages from `f` on, every other page keeps its translation. -/
structure Paging.Mapped (p p' : Paging) (f v n : Nat) : Prop where
  tables : p'.RecursiveTables
  cr3 : p'.cr3 = p.cr3
  directory : ∀ i < 2 ^ 10, p'.pde i = p.pde i
  pages : ∀ i < n, ∀ o < 2 ^ 12, p'.walk ((v + i) * 2 ^ 12 + o) = some ((f + i) * 2 ^ 12 + o)
  others : ∀ u < 2 ^ 20, u < v ∨ v + n ≤ u → ∀ o < 2 ^ 12,
    p'.walk (u * 2 ^ 12 + o) = p.walk (u * 2 ^ 12 + o)

theorem mapPagesLoop_mapped (h : Paging.RecursiveTables p) (hv : 1 ≤ v)
    (hv' : v + n ≤ 1023 * 1024) (hf : f + n ≤ 2 ^ 20) (hflags : flags < 2 ^ 12)
    (h4 : ¬entryLarge flags) (hfp : entryPresent flags)
    (htab : ∀ i < n, entryPresent (p.pde ((v + i) / 2 ^ 10))) :
    ∃ p', mapPagesLoop n f v flags p = .ok ((), p') ∧ p.Mapped p' f v n := by
  induction n generalizing p f v with
  | zero =>
    refine ⟨p, rfl, h, rfl, fun _ _ => rfl, ?_, fun _ _ _ _ _ => rfl⟩
    intro i hi
    omega
  | succ n ih =>
    have hp : entryPresent (p.pde (v / 2 ^ 10)) := htab 0 (by omega)
    have hstep := mapPage_eq h hv (by omega) (by omega) hflags h4 hp (f := f)
    have h₁ := h.setEntry (w := f * 2 ^ 12 + flags) (by omega) hp (by omega)
    have hdir {i} (hi : i < 2 ^ 10) :=
      h.pde_setEntry (v := v) (w := f * 2 ^ 12 + flags) (by omega) hp hi
    have htab₁ : ∀ i < n, entryPresent
        ((p.setEntry v (f * 2 ^ 12 + flags)).pde ((v + 1 + i) / 2 ^ 10)) := by
      intro i hi
      rw [hdir (by omega), show v + 1 + i = v + (i + 1) by omega]
      exact htab (i + 1) (by omega)
    obtain ⟨p', hrun, hm⟩ := ih (f := f + 1) h₁ (by omega) (by omega) (by omega) htab₁
    refine ⟨p', ?_, hm.tables, hm.cr3, ?_, ?_, ?_⟩
    · rw [mapPagesLoop, bind_ok hstep, add32_of_lt (by omega), add32_of_lt (by omega)]
      exact hrun
    · intro i hi
      rw [hm.directory i hi, hdir hi]
    · intro i hi o ho
      cases i with
      | zero =>
        rw [hm.others (v + 0) (by omega) (by omega) o ho]
        exact h.walk_setEntry_self (by omega) hp (by omega) hflags hfp ho
      | succ i =>
        have hi' := hm.pages i (by omega) o ho
        rwa [Nat.add_assoc, Nat.add_comm 1 i, Nat.add_assoc, Nat.add_comm 1 i] at hi'
    · intro u hu hout o ho
      rw [hm.others u hu (by omega) o ho]
      exact h.walk_setEntry_of_ne (w := f * 2 ^ 12 + flags) (by omega) hp (by omega) hu
        (by omega) ho

theorem mapPages_mapped (h : Paging.RecursiveTables p) (hv : 1 ≤ v)
    (hv' : v + n ≤ 1023 * 1024) (hf : f + n ≤ 2 ^ 20) (hflags : flags < 2 ^ 12)
    (h4 : ¬entryLarge flags) (hfp : entryPresent flags)
    (htab : ∀ i < n, entryPresent (p.pde ((v + i) / 2 ^ 10))) :
    ∃ p', mapPages f v n flags p = .ok ((), p') ∧ p.Mapped p' f v n := by
  obtain ⟨p', hrun, hm⟩ := mapPagesLoop_mapped h hv hv' hf hflags h4 hfp htab
  refine ⟨p', ?_, hm⟩
  rw [mapPages, bind_ok (check_ok (by omega)), hrun]

/-- Mapping then translating through the recursive entry. -/
theorem mapPages_translates (h : Paging.RecursiveTables p) (hvpn : 1 ≤ vpn)
    (hvn : vpn + n ≤ 1023 * 1024) (hpn : ppn + n ≤ 2 ^ 20) (hflags : flags < 4096)
    (hpresent : flags &&& pagePresent ≠ 0) (h4MB : flags &&& page4MB = 0)
    (htables : ∀ i < n, entryPresent (p.pde ((vpn + i) / 2 ^ 10))) :
    ∃ p', mapPages ppn vpn n flags p = .ok ((), p') ∧
      (∀ i < n, ∀ o < 4096,
        p'.walk (((vpn + i) <<< 12) + o) = some (((ppn + i) <<< 12) + o) ∧
        virtToPhysAddr (((vpn + i) <<< 12) + o) p' = .ok (((ppn + i) <<< 12) + o, p')) ∧
      p'.cr3 = p.cr3 ∧ (∀ i < 1024, p'.pde i = p.pde i) ∧
      ∀ u < 2 ^ 20, (∀ i < n, u ≠ vpn + i) → ∀ o < 4096,
        p'.walk ((u <<< 12) + o) = p.walk ((u <<< 12) + o) := by
  obtain ⟨p', hrun, hm⟩ := mapPages_mapped h hvpn hvn hpn hflags
    ((and_page4MB_eq_zero_iff _).mp h4MB) ((and_one_ne_zero_iff _).mp hpresent) htables
  refine ⟨p', hrun, ?_, hm.cr3, hm.directory, ?_⟩
  · intro i hi o ho
    rw [Nat.shiftLeft_eq, Nat.shiftLeft_eq]
    have hw := hm.pages i hi o ho
    refine ⟨hw, ?_⟩
    rw [virtToPhysAddr_eq hm.tables (by omega) ho, hw]
    rfl
  · intro u hu hne o ho
    rw [Nat.shiftLeft_eq]
    refine hm.others u hu ?_ o ho
    by_contra hin
    exact hne (u - vpn) (by omega) (by omega)

/-- A directory at 0x1000 with one page table, at 0x2000, and the recursive entry. -/
def oneTable : Paging where
  pmem a := if a = 0x1000 + 4 * 1023 then 0x1003 else if a = 0x1000 then 0x2003 else 0
  cr3 := 0x1000

theorem oneTable_pde (hi : i < 1023) : oneTable.pde i = if i = 0 then 0x2003 else 0 := by
  simp only [Paging.pde, oneTable]
  rw [if_neg (by omega)]
  by_cases h0 : i = 0
  · rw [if_pos (by omega), if_pos h0]
  · rw [if_neg (by omega), if_neg h0]

theorem oneTable_present (hi : i < 1023) (hp : entryPresent (oneTable.pde i)) : i = 0 := by
  rw [oneTable_pde hi] at hp
  by_contra h0
  rw [if_neg h0] at hp
  exact absurd hp (by decide)

theorem oneTable_recursive : oneTable.RecursiveTables where
  cr3_base := by decide
  word a := by
    simp only [oneTable]
    split_ifs <;> omega
  self_present := by decide
  self_small := by decide
  self_base := by decide
  small i hi hp := by
    rw [oneTable_present hi hp]
    decide
  apart i hi j hj hpi hpj hne := by
    rw [oneTable_present hi hpi, oneTable_present hj hpj] at hne
    exact absurd rfl hne
  off_dir i hi hp := by
    rw [oneTable_present hi hp]
    decide

theorem mapPages_translates_oneTable :
    ∃ p', mapPages 5 1 2 3 oneTable = .ok ((), p') ∧
      (∀ i < 2, ∀ o < 4096,
        p'.walk (((1 + i) <<< 12) + o) = some (((5 + i) <<< 12) + o) ∧
        virtToPhysAddr (((1 + i) <<< 12) + o) p' = .ok (((5 + i) <<< 12) + o, p')) ∧
      p'.cr3 = oneTable.cr3 ∧ (∀ i < 1024, p'.pde i = oneTable.pde i) ∧
      ∀ u < 2 ^ 20, (∀ i < 2, u ≠ 1 + i) → ∀ o < 4096,
        p'.walk ((u <<< 12) + o) = oneTable.walk ((u <<< 12) + o) :=
  mapPages_translates oneTable_recursive (by decide) (by decide) (by decide) (by decide)
    (by decide) (by decide) (by decide)

end Atros
