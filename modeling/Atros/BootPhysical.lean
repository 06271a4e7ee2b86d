import Atros.BootCaches

namespace Atros
set_option autoImplicit true

variable {t t' : View} {E : Panic → Prop} {Q : α → View → Prop} {v last : Nat}
  {block : Struct → Block} {free live : List Block} {done : List Struct}

/-! ### The pages of the first slabs -/

theorem Runs.onBootVpn_ok {y : Prog Panic BootPages β} {x : β → Prog Panic Kernel α}
    (hy : y t.rest.bootVpn = .ok (a, b))
    (hx : Runs Shows E Q (x a) { t with rest := { t.rest with bootVpn := b } }) :
    Runs Shows E Q (Atros.onBootVpn y >>= x) t := by
  refine .bind (R := fun p t' => p = a ∧ t' = { t with rest := { t.rest with bootVpn := b } }) ?_ ?_
  · refine Runs.onBootVpn (R := fun p b' => p = a ∧ b' = b) (.of_eq hy ⟨rfl, rfl⟩) ?_
    rintro p b ⟨rfl, rfl⟩
    exact ⟨rfl, rfl⟩
  · rintro _ _ ⟨rfl, rfl⟩
    exact hx

/-- From `t` to `t'` only pages have been taken or mapped. -/
structure View.PagesOnly (t t' : View) : Prop where
  heap : t'.heap = t.heap
  rest : t'.rest = { t.rest with
    bootVpn := t'.rest.bootVpn, phys := t'.rest.phys, paging := t'.rest.paging }

theorem View.PagesOnly.trans {t'' : View} (h : t.PagesOnly t') (h' : t'.PagesOnly t'') :
    t.PagesOnly t'' :=
  ⟨h'.heap.trans h.heap, by rw [h'.rest, h.rest]⟩

theorem Runs.bootVpage {x : Nat → Prog Panic Kernel α} (hb : t.rest.bootVpn = ⟨f, last⟩)
    (hle : f ≤ last) (hlt : last < 2 ^ 20)
    (hx : ∀ t', t.PagesOnly t' → t'.rest.bootVpn = ⟨f + 1, last⟩ → t'.rest.phys = t.rest.phys →
      t'.rest.paging = t.rest.paging → Runs Shows E Q (x f) t') :
    Runs Shows E Q (Atros.onBootVpn (bootVirtualPagesAlloc 1) >>= x) t := by
  have hwrap : f + 1 < 2 ^ 32 := by omega
  have hrun : ∀ b, b = BootPages.mk f last →
      bootVirtualPagesAlloc 1 b = .ok (f, ⟨f + 1, last⟩) := by
    rintro b rfl
    rw [bootVirtualPagesAlloc_eq]
    exact bootPagesAlloc_of_le (Nat.le_refl 1) (Nat.succ_le_succ hle) hwrap
  exact Runs.onBootVpn_ok (hrun _ hb) (hx _ ⟨rfl, rfl⟩ rfl rfl rfl)

theorem Runs.bootPpage {x : Nat → Prog Panic Kernel α} (h : t.rest.phys.Grown free live)
    (hE : E .tooManyPpages ∧ E .blockOrderTooLarge ∨ HasPages free 1)
    (hx : ∀ b free' t', t.PagesOnly t' → b.order = 0 →
    t.rest.phys.Taken t'.rest.phys free live b free' →
      t'.rest.bootVpn = t.rest.bootVpn → t'.rest.paging = t.rest.paging →
      Runs Shows E Q (x b.ppn) t') :
    Runs Shows E Q (Atros.onPhys (ppagesAlloc 1) >>= x) t := by
  refine .bind (R := fun p t' => ∃ s free', t.rest.phys.Taken s free live ⟨p, 0⟩ free' ∧
    t' = { t with rest := { t.rest with phys := s } }) ?_ ?_
  · refine Runs.onPhys ((ppagesAlloc_grown h (Nat.le_refl 1)).mono (fun e he => ?_)
      fun _ _ hp => hp) ?_
    · rcases hE with hE | hfree
      · rcases he.1 with rfl | rfl
        · exact hE.1
        · exact hE.2
      · exact absurd hfree.room he.2
    · rintro p s ⟨k, free', -, hone, htaken⟩
      rw [hone rfl] at htaken
      exact ⟨s, free', htaken, rfl⟩
  · rintro p _ ⟨s, free', htaken, rfl⟩
    exact hx ⟨p, 0⟩ free' _ ⟨rfl, rfl⟩ rfl htaken rfl rfl

/-- The pages of the slabs in `done` are mapped to their blocks. -/
structure PagesMapped (v last : Nat) (block : Struct → Block) (done : List Struct) (p : Paging) :
    Prop where
  kinds : done ⊆ bootKinds
  tables : p.RecursiveTables
  present : ∀ w, v ≤ w → w ≤ last → entryPresent (p.pde (w / 2 ^ 10))
  mapped : ∀ k ∈ done, ∀ o < 2 ^ 12,
    p.walk ((v + k.rank) * 2 ^ 12 + o) = some ((block k).ppn * 2 ^ 12 + o)

theorem PagesMapped.map {x : Unit → Prog Panic Kernel α}
    (h : PagesMapped v last block done t.rest.paging) (hk : k ∈ bootKinds) (hnew : k ∉ done)
    (hv : 1 ≤ v) (hvlast : v + 2 ≤ last) (hlast : last < 1023 * 1024)
    (hppn : (block k).ppn + 1 ≤ 2 ^ 20) (hb : (block k).ppn = b) (hw : v + k.rank = w)
    (hx : ∀ t', t.PagesOnly t' → PagesMapped v last block (k :: done) t'.rest.paging →
      t'.rest.bootVpn = t.rest.bootVpn → t'.rest.phys = t.rest.phys →
      Runs Shows E Q (x ()) t') :
    Runs Shows E Q (onPaging (mapPages b w 1 kernelPageFlags) >>= x) t := by
  subst hb hw
  have hrank := rank_lt hk
  obtain ⟨hflags, hsmall, hpresent⟩ := kernelPageFlags_ok
  obtain ⟨p, hrun, hm⟩ := mapPages_mapped (f := (block k).ppn) (v := v + k.rank) (n := 1) h.tables
    (by omega) (by omega) hppn hflags hsmall hpresent fun i hi => h.present _ (by omega) (by omega)
  refine .bind (R := fun _ t' => t' = { t with rest := { t.rest with paging := p } })
    (Runs.onPaging (R := fun _ p' => p' = p) ?_ fun _ _ hp => by rw [hp]) ?_
  · rw [hrun]
    exact rfl
  rintro - _ rfl
  refine hx _ ⟨rfl, rfl⟩ ⟨List.cons_subset.mpr ⟨hk, h.kinds⟩, hm.tables, fun w hw hwl => ?_,
    fun i hi o ho => ?_⟩ rfl rfl
  · rw [hm.directory _ (by omega)]
    exact h.present w hw hwl
  · rcases List.mem_cons.mp hi with rfl | hi
    · exact hm.pages 0 (by decide) o ho
    · have hik : i.rank ≠ k.rank := fun heq => hnew (rank_inj.mp heq ▸ hi)
      have hirank := rank_lt (h.kinds hi)
      rw [hm.others _ (by omega) (by omega) o ho]
      exact h.mapped i hi o ho

/-- The pages of the slabs in `done` tell their slab. -/
structure SlabsSet (v : Nat) (block : Struct → Block) (free live : List Block) (done : List Struct)
    (s : Phys) : Prop where
  kinds : done ⊆ bootKinds
  grown : s.Grown free live
  lastPpn_lt : s.lastPpn + 1 ≤ 2 ^ 20
  slab : ∀ k ∈ done, (s.dscrs (block k).ppn).slab = bootPlace v .slab k.rank

theorem SlabsSet.set {x : Unit → Prog Panic Kernel α} (hb : Booting v spare bootKinds [] t)
    (h : SlabsSet v block free live done t.rest.phys) (hk : k ∈ bootKinds) (hnew : k ∉ done)
    (hlive : block k ∈ live) (hinj : ∀ i ∈ bootKinds, (block i).ppn = (block k).ppn → i = k)
    (hx : ∀ t', t'.heap = t.heap → SlabsSet v block free live (k :: done) t'.rest.phys →
      t'.rest = { t.rest with phys := t'.rest.phys } → Runs Shows E Q (x ()) t') :
    Runs Shows E Q (ppagesSetSlab (block k).ppn 1 (bootPlace v .slab k.rank) >>= x) t := by
  have hslab : t.heap.struct (bootPlace v .slab k.rank) = some .slab :=
    (hb.struct _ .slab).mpr ⟨k, hk, rfl⟩
  have hregion : t.heap.struct (bootPlace v .vregion k.rank) = some .vregion :=
    (hb.struct _ .vregion).mpr ⟨k, hk, rfl⟩
  have hptr := (hb.slab k hk).region
  rw [bootWorld_region hk] at hptr
  have hmem : block k ∈ free ++ live := List.mem_append_right _ hlive
  have hfirst := h.grown.blocks.first_le _ hmem
  have hlast := h.grown.blocks.le_last _ hmem
  have hlt := h.lastPpn_lt
  have hpow := Nat.two_pow_pos (block k).order
  refine .bind (ppagesSetSlab_runs hslab hptr hregion (hb.words k hk).2 (Nat.le_refl 1) hfirst
    (by omega) (by omega)) ?_
  rintro - _ ⟨s, hset, rfl⟩
  have hpage : ∀ y, y ∈ Extent.mk (block k).ppn 1 ↔ y = (block k).ppn := by
    intro y
    rw [Extent.mem_mk]
    omega
  refine hx _ rfl ⟨List.cons_subset.mpr ⟨hk, h.kinds⟩, h.grown.slabSet hset fun y hy => ?_, ?_,
    fun i hi => ?_⟩ rfl
  · rintro ⟨b, hbfree, hyb⟩
    rw [(hpage y).mp hy] at hyb
    have hcross := (List.pairwise_append.mp h.grown.blocks.apart).2.2
    exact hcross b hbfree (block k) hlive _ hyb (block k).ppn_mem
  · rw [hset.lastPpn]
    exact h.lastPpn_lt
  · rcases List.mem_cons.mp hi with rfl | hi
    · rw [hset.pages _ ((hpage _).mpr rfl)]
    · have hne : (block i).ppn ∉ Extent.mk (block k).ppn 1 := fun hin =>
        hnew (hinj i (h.kinds hi) ((hpage _).mp hin) ▸ hi)
      rw [hset.others _ hne]
      exact h.slab i hi

end Atros
