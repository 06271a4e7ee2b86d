import Atros.AddressTranslation
import Atros.Lookaside
import Atros.Simulation

namespace Atros
set_option autoImplicit true

variable {p p' : Paging} {m : Mmu}

/-! ### A paging unit with a TLB -/

/-- The frame of a page of the address space. -/
def Paging.frameOf (p : Paging) (v : Nat) : Option Nat :=
  if v < 2 ^ 20 then p.walk (v * 2 ^ 12) else none

/-- The TLB caches the frames of pages; `time` counts the steps of the processor. -/
structure Mmu where
  paging : Paging
  tlb : Nat → Option Nat
  time : Nat

/-- What the TLB drops and loads, at each step of the processor. -/
structure Replacement where
  next : Nat → Paging → (Nat → Option Nat) → Nat → Option Nat
  refills : ∀ t p c, Refills p.frameOf c (next t p c)

variable (R : Replacement)

def Mmu.tick (m : Mmu) : Mmu :=
  { m with tlb := R.next m.time m.paging m.tlb, time := m.time + 1 }

def Mmu.translate (m : Mmu) (vaddr : Nat) : Option Nat :=
  (lookaside m.paging.frameOf m.tlb (vaddr / 2 ^ 12)).map (· + vaddr % 2 ^ 12)

def cachedRead (vaddr : Nat) : Prog Panic Mmu Nat := do
  let m ← get
  let paddr ← deref (m.translate vaddr) .pageFault
  set (m.tick R)
  return m.paging.pmem paddr

def Mmu.store (m : Mmu) (paddr value : Nat) : Mmu :=
  { m with paging := { m.paging with pmem := Function.update m.paging.pmem paddr value } }

def cachedWrite (vaddr value : Nat) : Prog Panic Mmu Unit := do
  let m ← get
  let paddr ← deref (m.translate vaddr) .pageFault
  set (((m.tick R).store paddr value).tick R)

/-- `invlpg` drops the entry of one page; the i386 has only the load of CR3, which drops all. -/
def Mmu.drop (i386 : Bool) (m : Mmu) (vaddr : Nat) : Mmu :=
  { m with tlb := if i386 then fun _ => none else Function.update m.tlb (vaddr / 2 ^ 12) none }

def invlpg (i386 : Bool) (vaddr : Nat) : Prog Panic Mmu Unit :=
  modify fun m => (m.drop i386 vaddr).tick R

/-! ### paging.c over the TLB -/

/-- `map_page`, over any way to reach the words at virtual addresses. -/
def mapPageWith (read : Nat → Prog Panic σ Nat) (write : Nat → Nat → Prog Panic σ Unit)
    (invlpg : Nat → Prog Panic σ Unit) (ppn vpn flags : Nat) : Prog Panic σ Unit := do
  let paddr := ppnToPaddr ppn
  let vaddr := vpnToVaddr vpn
  check (vaddr ≠ 0) .mapNullPage
  let pdeIndex := getPdeIndexOf vaddr
  let pteIndex := getPteIndexOf vaddr
  check (flags &&& page4MB = 0) .page4MBNotHandled
  let pde ← read ((recPagingEntry * 4 * MB + recPagingEntry * 4 * KB + pdeIndex * 4) % 2 ^ 32)
  check (pde &&& pagePresent ≠ 0) .pageTableNotPresent
  write ((recPagingEntry * 4 * MB + pdeIndex * 4 * KB + pteIndex * 4) % 2 ^ 32) (paddr ||| flags)
  invlpg vaddr

def mapPagesLoopWith (read : Nat → Prog Panic σ Nat) (write : Nat → Nat → Prog Panic σ Unit)
    (invlpg : Nat → Prog Panic σ Unit) : Nat → Nat → Nat → Nat → Prog Panic σ Unit
  | 0, _, _, _ => pure ()
  | nbrPages + 1, ppn, vpn, flags => do
    mapPageWith read write invlpg ppn vpn flags
    mapPagesLoopWith read write invlpg nbrPages (add32 ppn 1) (add32 vpn 1) flags

def mapPagesWith (read : Nat → Prog Panic σ Nat) (write : Nat → Nat → Prog Panic σ Unit)
    (invlpg : Nat → Prog Panic σ Unit) (ppn vpn nbrPages flags : Nat) : Prog Panic σ Unit := do
  check (vpn ≠ 0) .mapNullPage
  mapPagesLoopWith read write invlpg nbrPages ppn vpn flags

theorem mapPageWith_readWord (ppn vpn flags : Nat) :
    mapPageWith readWord writeWord (fun _ => pure ()) ppn vpn flags = mapPage ppn vpn flags := by
  unfold mapPageWith mapPage
  simp only [bind_pure_unit]
  rfl

theorem mapPagesLoopWith_readWord (n ppn vpn flags : Nat) :
    mapPagesLoopWith readWord writeWord (fun _ => pure ()) n ppn vpn flags =
      mapPagesLoop n ppn vpn flags := by
  induction n generalizing ppn vpn with
  | zero => rfl
  | succ n ih => rw [mapPagesLoopWith, mapPagesLoop, mapPageWith_readWord, ih]

theorem mapPagesWith_readWord (ppn vpn n flags : Nat) :
    mapPagesWith readWord writeWord (fun _ => pure ()) ppn vpn n flags =
      mapPages ppn vpn n flags := by
  rw [mapPagesWith, mapPages, mapPagesLoopWith_readWord]

/-! ### Frames and coherence -/

theorem Paging.walk_add (p : Paging) (v : Nat) (ho : o < 2 ^ 12) :
    p.walk (v * 2 ^ 12 + o) = (p.walk (v * 2 ^ 12)).map (· + o) := by
  have hd : (v * 2 ^ 12 + o) / 2 ^ 22 = v * 2 ^ 12 / 2 ^ 22 := by omega
  have ht : (v * 2 ^ 12 + o) / 2 ^ 12 = v * 2 ^ 12 / 2 ^ 12 := by omega
  have hl : (v * 2 ^ 12 + o) % 2 ^ 22 = v * 2 ^ 12 % 2 ^ 22 + o := by omega
  have hs : (v * 2 ^ 12 + o) % 2 ^ 12 = v * 2 ^ 12 % 2 ^ 12 + o := by omega
  simp only [walk, hd, ht, hl, hs]
  split
  · split
    · rw [Option.map_some, Nat.add_assoc]
    · split
      · rw [Option.map_some, Nat.add_assoc]
      · rfl
  · rfl

theorem Paging.frameOf_map (p : Paging) (hv : vaddr < 2 ^ 32) :
    (p.frameOf (vaddr / 2 ^ 12)).map (· + vaddr % 2 ^ 12) = p.walk vaddr := by
  have hsplit : vaddr / 2 ^ 12 * 2 ^ 12 + vaddr % 2 ^ 12 = vaddr := by omega
  rw [frameOf, if_pos (by omega), ← p.walk_add _ (Nat.mod_lt _ (by decide)), hsplit]

/-- The MMU shows the tables `p`: what its TLB holds is in them. -/
structure Mmu.Shows (m : Mmu) (p : Paging) : Prop where
  paging : m.paging = p
  tables : p.RecursiveTables
  coherent : Coherent p.frameOf m.tlb

theorem Mmu.Shows.translate (h : m.Shows p) (hv : vaddr < 2 ^ 32) :
    m.translate vaddr = p.walk vaddr := by
  rw [Mmu.translate, h.paging, h.coherent.lookaside, p.frameOf_map hv]

theorem Mmu.Shows.tick (h : m.Shows p) : (m.tick R).Shows p := by
  refine ⟨h.paging, h.tables, ?_⟩
  have hr := R.refills m.time m.paging m.tlb
  rw [h.paging] at hr
  rw [Mmu.tick, h.paging]
  exact h.coherent.refill hr

theorem cachedRead_simulates (p : Paging) (hv : vaddr < 2 ^ 32) :
    Simulates Mmu.Shows (cachedRead R vaddr) (readWord vaddr) p := by
  intro m hm
  unfold cachedRead readWord
  rw [bind_get, bind_get, hm.translate hv]
  cases p.walk vaddr with
  | none => rfl
  | some a =>
    rw [bind_ok deref_some, bind_ok deref_some, hm.paging]
    exact ⟨m.tick R, rfl, hm.tick R⟩

/-! ### Writes to the tables -/

theorem writeWord_absent {p : Paging} (h : p.walk vaddr = none) :
    writeWord vaddr w p = .error .pageFault := by
  unfold writeWord
  rw [bind_get, h]
  rfl

theorem Mmu.Shows.write (hm : m.Shows p) (hv : vaddr < 2 ^ 32) (ha : p.walk vaddr = some a) :
    cachedWrite R vaddr w m = .ok ((), ((m.tick R).store a w).tick R) := by
  unfold cachedWrite
  rw [bind_get, hm.translate hv, ha, bind_ok deref_some]
  rfl

theorem Mmu.Shows.write_absent (hm : m.Shows p) (hv : vaddr < 2 ^ 32) (ha : p.walk vaddr = none) :
    cachedWrite R vaddr w m = .error .pageFault := by
  unfold cachedWrite
  rw [bind_get, hm.translate hv, ha]
  rfl

theorem Paging.RecursiveTables.frameOf_setEntry (h : p.RecursiveTables) (hv : v < 1023 * 1024)
    (hp : entryPresent (p.pde (v / 2 ^ 10))) (hw : w < 2 ^ 32) :
    ∀ u ≠ v, (p.setEntry v w).frameOf u = p.frameOf u := by
  intro u hne
  unfold frameOf
  by_cases hu : u < 2 ^ 20
  · have hwalk := h.walk_setEntry_of_ne hv hp hw hu hne (o := 0) (by decide)
    rw [Nat.add_zero] at hwalk
    rw [if_pos hu, if_pos hu, hwalk]
  · rw [if_neg hu, if_neg hu]

/-- Between the write of an entry and its `invlpg`, the TLB may hold the old frame of that page
only, also when it loads entries in between. -/
theorem Mmu.Shows.setEntry (hm : m.Shows p) (i386 : Bool) (hv : v < 1023 * 1024)
    (hp : entryPresent (p.pde (v / 2 ^ 10))) (hw : w < 2 ^ 32) :
    (((((m.tick R).store (entryBase (p.pde (v / 2 ^ 10)) + 4 * (v % 2 ^ 10)) w).tick R).drop i386
      (v * 2 ^ 12)).tick R).Shows (p.setEntry v w) := by
  have htick := hm.tick R
  have hpaging : ((m.tick R).store (entryBase (p.pde (v / 2 ^ 10)) + 4 * (v % 2 ^ 10)) w).paging =
      p.setEntry v w := by
    rw [Mmu.store, htick.paging]
    rfl
  have hoff := htick.coherent.change (hm.tables.frameOf_setEntry hv hp hw)
  have hr := R.refills (m.time + 1) (p.setEntry v w) (m.tick R).tlb
  have hdrop := hoff.refill hr
  have hpage : v * 2 ^ 12 / 2 ^ 12 = v := Nat.mul_div_cancel v (by decide)
  refine Mmu.Shows.tick R ⟨hpaging, hm.tables.setEntry hv hp hw, ?_⟩
  rw [Mmu.drop]
  cases i386 with
  | true => exact coherent_empty _
  | false =>
    rw [hpage, Mmu.tick, hpaging]
    exact hdrop.invalidate

/-! ### paging.c over the TLB does what it does without one -/

theorem ppnToPaddr_lt (ppn : Nat) : ppnToPaddr ppn < 2 ^ 32 := Nat.mod_lt _ (by decide)

theorem setPte_invlpg_simulates (i386 : Bool) (h : p.RecursiveTables) (hv : v < 1023 * 1024)
    (hp : entryPresent (p.pde (v / 2 ^ 10))) (hw : w < 2 ^ 32) :
    Simulates Mmu.Shows
      (cachedWrite R (1023 * 2 ^ 22 + v / 2 ^ 10 * 2 ^ 12 + 4 * (v % 2 ^ 10)) w >>= fun _ =>
        invlpg R i386 (v * 2 ^ 12))
      (writeWord (1023 * 2 ^ 22 + v / 2 ^ 10 * 2 ^ 12 + 4 * (v % 2 ^ 10)) w >>= fun _ => pure ())
      p := by
  intro m hm
  have hj : v / 2 ^ 10 < 2 ^ 10 := by omega
  have hk : v % 2 ^ 10 < 2 ^ 10 := Nat.mod_lt v (by decide)
  have hwalk := h.walk_window hj hk hp
  rw [bind_ok (writeWord_eq hwalk), bind_ok (hm.write R (by omega) hwalk)]
  exact ⟨_, rfl, hm.setEntry R i386 hv hp hw⟩

theorem mapPageWith_simulates (i386 : Bool) (h : p.RecursiveTables) (hv : vpn < 1023 * 1024)
    (hflags : flags < 2 ^ 32) :
    Simulates Mmu.Shows
      (mapPageWith (cachedRead R) (cachedWrite R) (invlpg R i386) ppn vpn flags)
      (mapPageWith readWord writeWord (fun _ => pure ()) ppn vpn flags) p := by
  have hj : vpn / 2 ^ 10 < 2 ^ 10 := by omega
  have hk : vpn % 2 ^ 10 < 2 ^ 10 := Nat.mod_lt vpn (by decide)
  have hvaddr : vpnToVaddr vpn = vpn * 2 ^ 12 := by
    rw [vpnToVaddr, Nat.shiftLeft_eq]
    omega
  obtain ⟨hd, ht, -⟩ := split_vaddr (v := vpn) (o := 0) (by decide)
  simp only [Nat.add_zero] at hd ht
  simp only [mapPageWith, hvaddr, pdeIndex_eq, pteIndex_eq, hd, ht, window_addr hj hk]
  refine Simulates.check fun _ => Simulates.check fun _ => ?_
  refine Simulates.bind (cachedRead_simulates R p (Nat.mod_lt _ (by decide))) ?_
  intro pde p' hread
  obtain ⟨rfl, rfl⟩ : pde = p.pde (vpn / 2 ^ 10) ∧ p' = p := by
    have heq := hread.symm.trans (getPde_eq h.toSelfMapped hj)
    exact Prod.mk.inj (Except.ok.inj heq)
  refine Simulates.check fun hp => ?_
  exact setPte_invlpg_simulates R i386 h hv ((and_one_ne_zero_iff _).mp hp)
    (Nat.or_lt_two_pow (ppnToPaddr_lt ppn) hflags)

theorem Simulates.of_tables {x : Prog Panic Mmu α} {y : Prog Panic Paging α}
    (h : p.RecursiveTables → Simulates Mmu.Shows x y p) : Simulates Mmu.Shows x y p :=
  fun m hm => h hm.tables m hm

theorem mapPagesLoopWith_simulates (i386 : Bool) (hv : vpn + n ≤ 1023 * 1024)
    (hflags : flags < 2 ^ 32) (p : Paging) :
    Simulates Mmu.Shows
      (mapPagesLoopWith (cachedRead R) (cachedWrite R) (invlpg R i386) n ppn vpn flags)
      (mapPagesLoopWith readWord writeWord (fun _ => pure ()) n ppn vpn flags) p := by
  induction n generalizing ppn vpn p with
  | zero => exact Simulates.pure () p
  | succ n ih =>
    rw [mapPagesLoopWith, mapPagesLoopWith, add32_of_lt (a := vpn) (by omega)]
    refine Simulates.bind (Simulates.of_tables fun h => ?_) fun _ p' _ => ih (by omega) p'
    exact mapPageWith_simulates R i386 h (by omega) hflags

theorem mapPagesWith_simulates (i386 : Bool) (hv : vpn + n ≤ 1023 * 1024)
    (hflags : flags < 2 ^ 32) (p : Paging) :
    Simulates Mmu.Shows
      (mapPagesWith (cachedRead R) (cachedWrite R) (invlpg R i386) ppn vpn n flags)
      (mapPages ppn vpn n flags) p := by
  rw [← mapPagesWith_readWord]
  exact Simulates.check fun _ => mapPagesLoopWith_simulates R i386 hv hflags p

theorem translateWith_simulates (vaddr : Nat) (p : Paging) :
    Simulates Mmu.Shows (translateWith (cachedRead R) vaddr) (virtToPhysAddr vaddr) p := by
  have hread (a : Nat) (p : Paging) :
      Simulates Mmu.Shows (cachedRead R (a % 2 ^ 32)) (readWord (a % 2 ^ 32)) p :=
    cachedRead_simulates R p (Nat.mod_lt _ (by decide))
  rw [← translateWith_readWord]
  refine Simulates.bind (hread _ p) fun pde p₁ _ => Simulates.ite (fun _ => ?_) fun _ => ?_
  · refine Simulates.ite (fun _ => ?_) fun _ => Simulates.pure _ p₁
    refine Simulates.bind (hread _ p₁) fun pte p₂ _ => Simulates.ite (fun _ => ?_) fun _ => ?_
    · exact Simulates.pure _ p₂
    · exact Simulates.pure _ p₂
  · exact Simulates.pure _ p₁

/-! ### Accesses beside the tables -/

/-- No table has its words at `paddr`. -/
structure Paging.OffTables (p : Paging) (paddr : Nat) : Prop where
  directory : ∀ i < 2 ^ 10, paddr ≠ p.cr3 + 4 * i
  tables : ∀ i < 2 ^ 10, entryPresent (p.pde i) → ∀ k < 2 ^ 10,
    paddr ≠ entryBase (p.pde i) + 4 * k

def Paging.store (p : Paging) (paddr value : Nat) : Paging :=
  { p with pmem := Function.update p.pmem paddr value }

theorem Paging.store_pmem (p : Paging) (a w b : Nat) :
    (p.store a w).pmem b = if b = a then w else p.pmem b :=
  Function.update_apply ..

theorem Paging.OffTables.pde (h : p.OffTables a) (hi : i < 2 ^ 10) :
    (p.store a w).pde i = p.pde i := by
  rw [Paging.pde, Paging.pde, store_pmem]
  exact if_neg (h.directory i hi).symm

theorem Paging.OffTables.entry (h : p.OffTables a) (hi : i < 2 ^ 10) (hp : entryPresent (p.pde i))
    (hk : k < 2 ^ 10) :
    (p.store a w).pmem (entryBase (p.pde i) + 4 * k) = p.pmem (entryBase (p.pde i) + 4 * k) := by
  rw [store_pmem]
  exact if_neg (h.tables i hi hp k hk).symm

theorem Paging.RecursiveTables.of_directory (h : p.RecursiveTables) (hcr3 : p'.cr3 = p.cr3)
    (hpde : ∀ i < 2 ^ 10, p'.pde i = p.pde i) (hword : ∀ a, p'.pmem a < 2 ^ 32) :
    p'.RecursiveTables := by
  have hpde' : ∀ i < 1023, p'.pde i = p.pde i := fun i hi => hpde i (by omega)
  have hself := hpde 1023 (by decide)
  refine ⟨⟨?_, hword, ?_, ?_, ?_⟩, ?_, ?_, ?_⟩
  · rw [hcr3]
    exact h.cr3_base
  · rw [hself]
    exact h.self_present
  · rw [hself]
    exact h.self_small
  · rw [hself, hcr3]
    exact h.self_base
  · intro i hi hp
    rw [hpde' i hi] at hp ⊢
    exact h.small i hi hp
  · intro i hi j hj hpi hpj hij
    rw [hpde' i hi] at hpi ⊢
    rw [hpde' j hj] at hpj ⊢
    exact h.apart i hi j hj hpi hpj hij
  · intro i hi hp
    rw [hpde' i hi] at hp ⊢
    rw [hcr3]
    exact h.off_dir i hi hp

theorem Paging.RecursiveTables.store (h : p.RecursiveTables) (ha : p.OffTables a)
    (hw : w < 2 ^ 32) : (p.store a w).RecursiveTables := by
  refine h.of_directory rfl (fun i hi => ha.pde hi) fun b => ?_
  rw [store_pmem]
  split
  · exact hw
  · exact h.word b

theorem Paging.OffTables.frameOf (ha : p.OffTables a) (h : p.RecursiveTables) (hw : w < 2 ^ 32) :
    (p.store a w).frameOf = p.frameOf := by
  funext v
  unfold Paging.frameOf
  by_cases hv : v < 2 ^ 20
  · have hd : (p.store a w).pde (v / 2 ^ 10) = p.pde (v / 2 ^ 10) := ha.pde (by omega)
    have hwalk := (h.store ha hw).walk_page hv (o := 0) (by decide)
    have hwalk' := h.walk_page hv (o := 0) (by decide)
    rw [Nat.add_zero, Nat.add_zero] at hwalk hwalk'
    rw [if_pos hv, if_pos hv, hwalk, hwalk', hd]
    by_cases hp : entryPresent (p.pde (v / 2 ^ 10))
    · have hpte : (p.store a w).pte v = p.pte v := by
        rw [Paging.pte, Paging.pte, hd]
        exact ha.entry (by omega) hp (Nat.mod_lt v (by decide))
      rw [hpte]
    · rw [if_neg fun hc => hp hc.1, if_neg fun hc => hp hc.1]
  · rw [if_neg hv, if_neg hv]

theorem Mmu.Shows.store (hm : m.Shows p) (ha : p.OffTables a) (hw : w < 2 ^ 32) :
    (((m.tick R).store a w).tick R).Shows (p.store a w) := by
  have htick := hm.tick R
  refine Mmu.Shows.tick R ⟨?_, hm.tables.store ha hw, ?_⟩
  · rw [Mmu.store, htick.paging]
    rfl
  · rw [ha.frameOf hm.tables hw]
    exact htick.coherent

/-! ### Runs -/

/-- Calls of the paging code, and accesses of the kernel to its memory. -/
inductive PagingCall
  | mapPages (ppn vpn nbrPages flags : Nat)
  | virtToPhysAddr (vaddr : Nat)
  | load (vaddr : Nat)
  | store (vaddr value : Nat)

def PagingCall.run : PagingCall → Prog Panic Paging Nat
  | mapPages ppn vpn nbrPages flags => (fun _ => 0) <$> Atros.mapPages ppn vpn nbrPages flags
  | virtToPhysAddr vaddr => Atros.virtToPhysAddr vaddr
  | load vaddr => readWord vaddr
  | store vaddr value => (fun _ => 0) <$> writeWord vaddr value

def PagingCall.runCached (i386 : Bool) : PagingCall → Prog Panic Mmu Nat
  | mapPages ppn vpn nbrPages flags =>
    (fun _ => 0) <$>
      mapPagesWith (cachedRead R) (cachedWrite R) (invlpg R i386) ppn vpn nbrPages flags
  | virtToPhysAddr vaddr => translateWith (cachedRead R) vaddr
  | load vaddr => cachedRead R vaddr
  | store vaddr value => (fun _ => 0) <$> cachedWrite R vaddr value

/-- The pages mapped are not those of the recursive window, and a store is beside the tables. -/
def PagingCall.Allowed (p : Paging) : PagingCall → Prop
  | mapPages _ vpn nbrPages flags => vpn + nbrPages ≤ 1023 * 1024 ∧ flags < 2 ^ 32
  | virtToPhysAddr _ => True
  | load vaddr => vaddr < 2 ^ 32
  | store vaddr value =>
    vaddr < 2 ^ 32 ∧ value < 2 ^ 32 ∧ ∀ paddr, p.walk vaddr = some paddr → p.OffTables paddr

/-- Each call is allowed in the tables that the calls before it leave. -/
def AllowedRun : List PagingCall → Paging → Prop
  | [], _ => True
  | c :: calls, p => c.Allowed p ∧ ∀ a p', c.run p = .ok (a, p') → AllowedRun calls p'

theorem Simulates.const {x : Prog Panic Mmu α} {y : Prog Panic Paging α} (b : β)
    (h : Simulates Mmu.Shows x y p) :
    Simulates Mmu.Shows ((fun _ => b) <$> x) ((fun _ => b) <$> y) p := by
  rw [map_eq_pure_bind, map_eq_pure_bind]
  exact h.bind fun _ p' _ => Simulates.pure b p'

theorem cachedWrite_simulates (hv : vaddr < 2 ^ 32) (hw : w < 2 ^ 32)
    (hoff : ∀ a, p.walk vaddr = some a → p.OffTables a) :
    Simulates Mmu.Shows (cachedWrite R vaddr w) (writeWord vaddr w) p := by
  intro m hm
  cases hwalk : p.walk vaddr with
  | none => exact SameOutcome.of_error (writeWord_absent hwalk) (hm.write_absent R hv hwalk)
  | some a =>
    exact SameOutcome.of_ok (writeWord_eq hwalk) (hm.write R hv hwalk)
      (hm.store R (hoff a hwalk) hw)

theorem PagingCall.simulates (i386 : Bool) (c : PagingCall) (h : c.Allowed p) :
    Simulates Mmu.Shows (c.runCached R i386) c.run p := by
  cases c with
  | mapPages ppn vpn n flags => exact (mapPagesWith_simulates R i386 h.1 h.2 p).const 0
  | virtToPhysAddr vaddr => exact translateWith_simulates R vaddr p
  | load vaddr => exact cachedRead_simulates R p h
  | store vaddr w => exact (cachedWrite_simulates R h.1 h.2.1 h.2.2).const 0

/-- Whatever the TLB holds back, drops or loads at each step, a run of the paging code and of
accesses to the memory gives the same answers, the same panic and the same tables as with no TLB,
and the TLB holds no stale frame at its end. -/
theorem pagingCalls_cached (i386 : Bool) (calls : List PagingCall) (hm : m.Shows p)
    (h : AllowedRun calls p) :
    SameOutcome Mmu.Shows (calls.mapM (PagingCall.runCached R i386) m)
      (calls.mapM PagingCall.run p) := by
  induction calls generalizing m p with
  | nil => exact ⟨m, rfl, hm⟩
  | cons c calls ih =>
    rw [List.mapM_cons, List.mapM_cons]
    refine (c.simulates R i386 h.1 m hm).bind fun a m₁ p₁ hc hm₁ => ?_
    refine (ih hm₁ (h.2 a p₁ hc)).bind fun as m₂ p₂ _ hm₂ => ?_
    exact ⟨m₂, rfl, hm₂⟩

/-- A TLB that holds all that it may. -/
def greedy : Replacement where
  next _ p c v := (c v).or (p.frameOf v)
  refills _ p c v a h := by
    rcases Option.or_eq_some_iff.mp h with hc | ⟨-, hf⟩
    · exact .inl hc
    · exact .inr hf

theorem oneTable_offTables (hcr3 : p.cr3 = oneTable.cr3)
    (hpde : ∀ i < 2 ^ 10, p.pde i = oneTable.pde i) : p.OffTables 0x7000 := by
  constructor
  · intro i hi
    rw [hcr3, show oneTable.cr3 = 0x1000 from rfl]
    omega
  · intro i hi hp k hk
    rw [hpde i hi] at hp ⊢
    rcases Nat.lt_or_ge i 1023 with hlt | hge
    · rw [oneTable_present hlt hp, show entryBase (oneTable.pde 0) = 0x2000 from rfl]
      omega
    · obtain rfl : i = 1023 := by omega
      rw [oneTable_recursive.self_base, show oneTable.cr3 = 0x1000 from rfl]
      omega

/-- Page 1 is mapped, used and mapped again to another frame. -/
def remap : List PagingCall :=
  [.mapPages 5 1 2 3, .load 0x1000, .mapPages 7 1 1 3, .store 0x1000 9, .load 0x1000]

theorem PagingCall.mapped (h : p.RecursiveTables) (hv : 1 ≤ v) (hv' : v + n ≤ 1023 * 1024)
    (hf : f + n ≤ 2 ^ 20) (htab : ∀ i < n, entryPresent (p.pde ((v + i) / 2 ^ 10)))
    (hrun : (PagingCall.mapPages f v n 3).run p = .ok (a, p')) : p.Mapped p' f v n := by
  have hflags : 3 < 2 ^ 12 := by decide
  obtain ⟨q, hq, hm⟩ := mapPages_mapped h hv hv' hf hflags (by decide) (by decide) htab
  rw [PagingCall.run, map_eq_pure_bind, bind_ok hq] at hrun
  cases hrun
  exact hm

theorem PagingCall.load_state (hrun : (PagingCall.load vaddr).run p = .ok (a, p')) : p' = p := by
  rw [PagingCall.run] at hrun
  cases hwalk : p.walk vaddr with
  | none =>
    unfold readWord at hrun
    rw [bind_get, hwalk] at hrun
    cases hrun
  | some b =>
    rw [readWord_eq hwalk] at hrun
    cases hrun
    rfl

theorem remap_allowed : AllowedRun remap oneTable := by
  have hload : 0x1000 < 2 ^ 32 := by decide
  refine ⟨⟨by decide, by decide⟩, fun _ p₁ h₁ => ⟨hload, fun _ p₂ h₂ => ?_⟩⟩
  have hm₁ := PagingCall.mapped oneTable_recursive (by decide) (by decide) (by decide)
    (by decide) h₁
  rw [PagingCall.load_state h₂]
  refine ⟨⟨by omega, by omega⟩, fun _ p₃ h₃ => ?_⟩
  have htab : ∀ i < 1, entryPresent (p₁.pde ((1 + i) / 2 ^ 10)) := by
    intro i hi
    rw [hm₁.directory _ (by omega)]
    obtain rfl : i = 0 := by omega
    decide
  have hm₃ := PagingCall.mapped hm₁.tables (by omega) (by omega) (by omega) htab h₃
  refine ⟨⟨hload, by omega, fun paddr hwalk => ?_⟩, fun _ _ _ => ⟨hload, fun _ _ _ => trivial⟩⟩
  have hpage := hm₃.pages 0 (by omega) 0 (by omega)
  obtain rfl : 0x7000 = paddr := Option.some.inj (hpage.symm.trans hwalk)
  exact oneTable_offTables (hm₃.cr3.trans hm₁.cr3) fun i hi =>
    (hm₃.directory i hi).trans (hm₁.directory i hi)

theorem pagingCalls_cached_remap :
    SameOutcome Mmu.Shows
      (remap.mapM (PagingCall.runCached greedy false) ⟨oneTable, fun _ => none, 0⟩)
      (remap.mapM PagingCall.run oneTable) :=
  pagingCalls_cached greedy false remap ⟨rfl, oneTable_recursive, coherent_empty _⟩ remap_allowed

end Atros
