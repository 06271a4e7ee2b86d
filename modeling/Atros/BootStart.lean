import Atros.BootSystem

namespace Atros
set_option autoImplicit true

variable {t t' : View} {E : Panic → Prop} {Q : α → View → Prop} {v last : Nat}
  {spare : Option Nat} {added : List Struct} {block : Struct → Block} {free live : List Block}

/-! ### The start of the slab allocator -/

/-- The state in which `objs_cache_boot_init` is called. -/
structure SlabBootReady (k : Kernel) (free : List Block) : Prop where
  phys : k.phys.Grown free []
  lastPpn_lt : k.phys.lastPpn + 1 ≤ 2 ^ 20
  tables : k.paging.RecursiveTables
  vpages : 1 ≤ k.bootVpn.firstFree ∧ k.bootVpn.firstFree + 2 ≤ k.bootVpn.lastFree ∧
    k.bootVpn.lastFree < 1023 * 1024
  present : ∀ w, k.bootVpn.firstFree ≤ w → w ≤ k.bootVpn.lastFree →
    entryPresent (k.paging.pde (w / 2 ^ 10))
  freeVregions : k.freeVregions = none
  cachesClist : k.cachesClist = none

/-- The blocks of the first three slabs. -/
def bootBlock (b₁ b₂ b₃ : Block) : Struct → Block
  | .cache => b₁
  | .slab => b₂
  | _ => b₃

theorem vpnToVaddr_place (hv : v + 3 ≤ 2 ^ 20) (hk : k ∈ bootKinds) :
    vpnToVaddr (v + k.rank) = bootPlace v k 0 := by
  have hrank := rank_lt hk
  rw [vpnToVaddr, bootPlace, Nat.shiftLeft_eq]
  omega

theorem bootPlace_add (v : Nat) (k : Struct) (j : Nat) :
    bootPlace v k 0 + j * k.size = bootPlace v k j := by
  rw [bootPlace, bootPlace, Nat.zero_mul, Nat.add_zero]

theorem bootBlock_inj {b₁ b₂ b₃ : Block} {s : Phys} (h : s.Grown free [b₃, b₂, b₁]) :
    ∀ i ∈ bootKinds, ∀ j ∈ bootKinds,
      (bootBlock b₁ b₂ b₃ i).ppn = (bootBlock b₁ b₂ b₃ j).ppn → i = j := by
  have hne : ∀ b c : Block, b.pages.Apart c.pages → b.ppn ≠ c.ppn := by
    intro b c hapart heq
    exact hapart _ b.ppn_mem (heq ▸ c.ppn_mem)
  have hpair := (List.pairwise_append.mp h.blocks.apart).2.1
  simp only [List.pairwise_cons, List.mem_cons, List.not_mem_nil, or_false, forall_eq_or_imp,
    forall_eq] at hpair
  obtain ⟨⟨h32, h31⟩, h21, -⟩ := hpair
  have h₁ := hne _ _ h32
  have h₂ := hne _ _ h31
  have h₃ := hne _ _ h21
  intro i hi j hj heq
  cases i <;> cases j <;>
    first | rfl | exact absurd hi (by decide) | exact absurd hj (by decide) | skip
  all_goals exact absurd heq (by first | assumption | exact Ne.symm ‹_›)

/-- The free blocks `blocks` and those in `live` are what three requests for a page have made of the
free blocks `free`. -/
structure BootTook (free blocks live : List Block) : Prop where
  left : ∀ x, InFree blocks x → InFree free x
  taken : ∀ b ∈ live, ∀ x ∈ b.pages, InFree free x
  room : ∀ n, HasPages free (n + 3) → HasPages blocks n

theorem SlabBootReady.pages {x : Nat → Nat → Nat → Nat → Nat → Nat → Prog Panic Kernel α}
    (h : SlabBootReady k free) (hrest : t.rest = k.rest)
    (hv : k.bootVpn = ⟨v, last⟩) (hE : E .tooManyPpages ∧ E .blockOrderTooLarge ∨ HasPages free 3)
    (hx : ∀ block live free' t', t.PagesOnly t' → t'.rest.bootVpn = ⟨v + 3, last⟩ →
      PagesMapped v last block [.vregion, .slab, .cache] t'.rest.paging →
      SlabsSet v block free' live [] t'.rest.phys → (∀ i ∈ bootKinds, block i ∈ live) →
      (∀ i ∈ bootKinds, ∀ j ∈ bootKinds, (block i).ppn = (block j).ppn → i = j) →
      BootTook free free' live →
      Runs Shows E Q (x v (v + 1) (v + 2) (block .cache).ppn (block .slab).ppn
        (block .vregion).ppn) t') :
    Runs Shows E Q (do
      let objsCacheSlabVpn ← onBootVpn (bootVirtualPagesAlloc vpagesPerSlabCacheObjsCache)
      let slabSlabVpn ← onBootVpn (bootVirtualPagesAlloc vpagesPerSlabCacheSlab)
      let vregionSlabVpn ← onBootVpn (bootVirtualPagesAlloc vpagesPerSlabCacheVregion)
      let ppagesForObjsCacheSlab ← onPhys (ppagesAlloc vpagesPerSlabCacheObjsCache)
      let ppagesForSlabSlab ← onPhys (ppagesAlloc vpagesPerSlabCacheSlab)
      let ppagesForVregionSlab ← onPhys (ppagesAlloc vpagesPerSlabCacheVregion)
      onPaging (mapPages ppagesForObjsCacheSlab objsCacheSlabVpn vpagesPerSlabCacheObjsCache
        kernelPageFlags)
      onPaging (mapPages ppagesForSlabSlab slabSlabVpn vpagesPerSlabCacheSlab kernelPageFlags)
      onPaging (mapPages ppagesForVregionSlab vregionSlabVpn vpagesPerSlabCacheVregion
        kernelPageFlags)
      x objsCacheSlabVpn slabSlabVpn vregionSlabVpn ppagesForObjsCacheSlab ppagesForSlabSlab
        ppagesForVregionSlab) t := by
  obtain ⟨hphys, hlastPpn, htables, hvpages, hpresent, -, -⟩ := h
  rw [hv] at hvpages hpresent
  simp only at hvpages hpresent
  obtain ⟨hv1, hvlast, hlast⟩ := hvpages
  have hbootVpn : t.rest.bootVpn = ⟨v, last⟩ := by
    rw [hrest]
    exact hv
  have hphys₀ : t.rest.phys = k.phys := by
    rw [hrest]
    rfl
  have hpaging₀ : t.rest.paging = k.paging := by
    rw [hrest]
    rfl
  refine .bootVpage hbootVpn (by omega) (by omega) fun t₁ ho₁ hb₁ hp₁ hm₁ => ?_
  refine .bootVpage hb₁ (by omega) (by omega) fun t₂ ho₂ hb₂ hp₂ hm₂ => ?_
  replace hb₂ : t₂.rest.bootVpn = ⟨v + 2, last⟩ := hb₂
  refine .bootVpage hb₂ (by omega) (by omega) fun t₃ ho₃ hb₃ hp₃ hm₃ => ?_
  replace hb₃ : t₃.rest.bootVpn = ⟨v + 3, last⟩ := hb₃
  rw [← hphys₀, ← hp₁, ← hp₂, ← hp₃] at hphys hlastPpn
  refine .bootPpage hphys (hE.imp id (·.le (by decide))) fun c₁ free₁ t₄ ho₄ horder₁ htaken₁ hb₄
    hm₄ => ?_
  have hE₁ := hE.imp id fun hroom => hroom.taken horder₁ htaken₁.left
  refine .bootPpage htaken₁.grown (hE₁.imp id (·.le (by decide)))
    fun c₂ free₂ t₅ ho₅ horder₂ htaken₂ hb₅ hm₅ => ?_
  have hE₂ := hE₁.imp id fun hroom => hroom.taken horder₂ htaken₂.left
  refine .bootPpage htaken₂.grown hE₂
    fun c₃ free₃ t₆ ho₆ horder₃ htaken₃ hb₆ hm₆ => ?_
  rw [← hpaging₀, ← hm₁, ← hm₂, ← hm₃, ← hm₄, ← hm₅, ← hm₆] at htables hpresent
  have hinj := bootBlock_inj htaken₃.grown
  have hlive : ∀ i ∈ bootKinds, bootBlock c₁ c₂ c₃ i ∈ [c₃, c₂, c₁] := by
    intro i hi
    cases i <;> simp [bootBlock]
  have hset : SlabsSet v (bootBlock c₁ c₂ c₃) free₃ [c₃, c₂, c₁] [] t₆.rest.phys := by
    refine ⟨List.nil_subset _, htaken₃.grown, ?_, fun _ hk => (nomatch hk)⟩
    rw [htaken₃.lastPpn, htaken₂.lastPpn, htaken₁.lastPpn]
    exact hlastPpn
  have hppn : ∀ i ∈ bootKinds, (bootBlock c₁ c₂ c₃ i).ppn + 1 ≤ 2 ^ 20 := by
    intro i hi
    have hle := htaken₃.grown.blocks.le_last _ (List.mem_append_right _ (hlive i hi))
    have hpow := Nat.two_pow_pos (bootBlock c₁ c₂ c₃ i).order
    have hlt := hset.lastPpn_lt
    omega
  have hnil : PagesMapped v last (bootBlock c₁ c₂ c₃) [] t₆.rest.paging :=
    ⟨List.nil_subset _, htables, hpresent, fun _ hk => (nomatch hk)⟩
  refine hnil.map (k := .cache) (by decide) (by decide) hv1 hvlast hlast
    (hppn .cache (by decide)) rfl rfl fun t₇ ho₇ hmap₁ hb₇ hp₇ => ?_
  refine hmap₁.map (k := .slab) (by decide) (by decide) hv1 hvlast hlast
    (hppn .slab (by decide)) rfl rfl fun t₈ ho₈ hmap₂ hb₈ hp₈ => ?_
  refine hmap₂.map (k := .vregion) (by decide) (by decide) hv1 hvlast hlast
    (hppn .vregion (by decide)) rfl rfl fun t₉ ho₉ hmap₃ hb₉ hp₉ => ?_
  refine hx (bootBlock c₁ c₂ c₃) [c₃, c₂, c₁] free₃ t₉ ?_ ?_ hmap₃ ?_ hlive hinj ⟨?_, ?_, ?_⟩
  · exact ho₁.trans (ho₂.trans (ho₃.trans (ho₄.trans (ho₅.trans (ho₆.trans (ho₇.trans
      (ho₈.trans ho₉)))))))
  · rw [hb₉, hb₈, hb₇, hb₆, hb₅, hb₄, hb₃]
  · rw [hp₉, hp₈, hp₇]
    exact hset
  · intro x hx
    exact ((htaken₁.pages x).mp ((htaken₂.pages x).mp ((htaken₃.pages x).mp hx).1).1).1
  · intro b hb x hx
    simp only [List.mem_cons, List.not_mem_nil, or_false] at hb
    rcases hb with rfl | rfl | rfl
    · exact ((htaken₁.pages x).mp ((htaken₂.pages x).mp (htaken₃.taken x hx)).1).1
    · exact ((htaken₁.pages x).mp (htaken₂.taken x hx)).1
    · exact htaken₁.taken x hx
  · intro n hroom
    exact ((hroom.taken horder₁ htaken₁.left).taken horder₂ htaken₂.left).taken horder₃ htaken₃.left

theorem RegionsBegun.all (h : RegionsBegun v spare [] t) (hlt : v + 3 ≤ 2 ^ 20)
    {x : Prog Panic Kernel α}
    (hx : ∀ t', Booting v spare [] [] t' → t'.rest = t.rest → Runs Shows E Q x t') :
    Runs Shows E Q (do
      vregionInit (bootPlace v .vregion 0) v 1
      vregionInit (bootPlace v .vregion 1) (v + 1) 1
      vregionInit (bootPlace v .vregion 2) (v + 2) 1
      (vregionNextOf (bootPlace v .vregion 0)).write (some (bootPlace v .vregion 1))
      (vregionNextOf (bootPlace v .vregion 1)).write (some (bootPlace v .vregion 2))
      (vregionNextOf (bootPlace v .vregion 2)).write none
      x) t := by
  refine h.init (k := .cache) (by decide) (by decide) hlt fun t₁ h₁ hr₁ => ?_
  refine h₁.init (k := .slab) (by decide) (by decide) hlt fun t₂ h₂ hr₂ => ?_
  refine h₂.init (k := .vregion) (by decide) (by decide) hlt fun t₃ h₃ hr₃ => ?_
  refine h₃.link fun t' hb hr => hx t' hb ?_
  rw [hr, hr₃, hr₂, hr₁]

theorem Booting.slabs (h : Booting v spare [] [] t) (hv : 1 ≤ v) (hlt : v + 3 ≤ 2 ^ 20)
    {x : Prog Panic Kernel α}
    (hx : ∀ t', Booting v spare bootKinds [] t' → t'.rest = t.rest → Runs Shows E Q x t') :
    Runs Shows E Q (do
      let _ ← initializeSlab (bootPlace v .slab 0) (bootPlace v .vregion 0) Struct.cache.size 3
      let _ ← initializeSlab (bootPlace v .slab 1) (bootPlace v .vregion 1) Struct.slab.size 3
      let _ ← initializeSlab (bootPlace v .slab 2) (bootPlace v .vregion 2) Struct.vregion.size 3
      x) t := by
  refine .bind (h.initSlab (k := .cache) hv hlt (by decide) (by decide)) ?_
  rintro _ t₁ ⟨h₁, hr₁⟩
  refine .bind (h₁.initSlab (k := .slab) hv hlt (by decide) (by decide)) ?_
  rintro _ t₂ ⟨h₂, hr₂⟩
  refine .bind (h₂.initSlab (k := .vregion) hv hlt (by decide) (by decide)) ?_
  rintro _ t₃ ⟨h₃, hr₃⟩
  refine hx t₃ (h₃.congr (fun k => ?_) fun _ => Iff.rfl) ?_
  · cases k <;> decide
  · rw [hr₃, hr₂, hr₁]

theorem SlabsSet.all (h : SlabsSet v block free live [] t.rest.phys)
    (hb : Booting v spare bootKinds [] t) (hlive : ∀ i ∈ bootKinds, block i ∈ live)
    (hinj : ∀ i ∈ bootKinds, ∀ j ∈ bootKinds, (block i).ppn = (block j).ppn → i = j)
    {x : Prog Panic Kernel α}
    (hx : ∀ t', Booting v spare bootKinds [] t' →
      SlabsSet v block free live [.vregion, .slab, .cache] t'.rest.phys →
      t'.rest = { t.rest with phys := t'.rest.phys } → Runs Shows E Q x t') :
    Runs Shows E Q (do
      ppagesSetSlab (block .cache).ppn 1 (bootPlace v .slab 0)
      ppagesSetSlab (block .slab).ppn 1 (bootPlace v .slab 1)
      ppagesSetSlab (block .vregion).ppn 1 (bootPlace v .slab 2)
      x) t := by
  have hkept : ∀ {t t' : View}, t'.heap = t.heap → Booting v spare bootKinds [] t →
      Booting v spare bootKinds [] t' := by
    rintro t t' heq ⟨hkinds, hslot, hstruct, hwords, hnext, hspare, hslab⟩
    exact ⟨hkinds, heq ▸ hslot, heq ▸ hstruct, heq ▸ hwords, heq ▸ hnext, heq ▸ hspare, heq ▸ hslab⟩
  refine h.set (k := .cache) hb (by decide) (by decide) (hlive _ (by decide))
    (fun i hi => hinj i hi _ (by decide)) fun t₁ heap₁ h₁ hr₁ => ?_
  refine h₁.set (k := .slab) (hkept heap₁ hb) (by decide) (by decide) (hlive _ (by decide))
    (fun i hi => hinj i hi _ (by decide)) fun t₂ heap₂ h₂ hr₂ => ?_
  refine h₂.set (k := .vregion) (hkept (heap₂.trans heap₁) hb) (by decide) (by decide)
    (hlive _ (by decide)) (fun i hi => hinj i hi _ (by decide)) fun t₃ heap₃ h₃ hr₃ => ?_
  refine hx t₃ (hkept (heap₃.trans (heap₂.trans heap₁)) hb) h₃ ?_
  rw [hr₃, hr₂, hr₁]

theorem CachesBegun.all (h : CachesBegun v spare [] t) {x : Prog Panic Kernel α}
    (hx : ∀ t', CachesBegun v spare bootKinds t' →
      t'.rest = { t.rest with cachesClist := t'.rest.cachesClist } → Runs Shows E Q x t') :
    Runs Shows E Q (do
      objsCacheInit (bootPlace v .cache 0) (some nameObjsCache) Struct.cache.size 1
      objsCacheInit (bootPlace v .cache 1) (some nameSlab) Struct.slab.size 1
      objsCacheInit (bootPlace v .cache 2) (some nameVregion) Struct.vregion.size 1
      x) t := by
  refine h.init (k := .cache) (by decide) (by decide) _ fun t₁ h₁ hr₁ => ?_
  refine h₁.init (k := .slab) (by decide) (by decide) _ fun t₂ h₂ hr₂ => ?_
  refine h₂.init (k := .vregion) (by decide) (by decide) _ fun t₃ h₃ hr₃ => ?_
  refine hx t₃ h₃ ?_
  rw [hr₃, hr₂, hr₁]

/-- The static variables of the caches are set. -/
def View.withOwnCaches (t : View) (v : Nat) : View :=
  { t with rest := { t.rest with
    cacheObjsCache := some (bootPlace v .cache 0)
    cacheSlab := some (bootPlace v .cache 1)
    cacheVregion := some (bootPlace v .cache 2) } }

theorem SlabsListed.withOwnCaches (h : SlabsListed v spare added t) :
    SlabsListed v spare added (t.withOwnCaches v) := by
  obtain ⟨⟨hkinds, hslot, hstruct, hwords, hnext, hspare, hslab⟩, hring, hcache⟩ := h
  exact ⟨⟨hkinds, hslot, hstruct, hwords, hnext, hspare, hslab⟩, hring, hcache⟩

theorem SlabsListed.all (h : SlabsListed v spare [] t) {x : Prog Panic Kernel α}
    (hx : ∀ t', SlabsListed v spare [.vregion, .slab, .cache] t' → t'.rest = t.rest →
      Runs Shows E Q x t') :
    Runs Shows E Q (do
      objsCacheAddSlab (bootPlace v .cache 0) (bootPlace v .slab 0) .statusPartial
      objsCacheAddSlab (bootPlace v .cache 1) (bootPlace v .slab 1) .statusPartial
      objsCacheAddSlab (bootPlace v .cache 2) (bootPlace v .slab 2) .statusPartial
      x) t := by
  refine h.add (k := .cache) (by decide) (by decide) fun t₁ h₁ hr₁ => ?_
  refine h₁.add (k := .slab) (by decide) (by decide) fun t₂ h₂ hr₂ => ?_
  refine h₂.add (k := .vregion) (by decide) (by decide) fun t₃ h₃ hr₃ => ?_
  refine hx t₃ h₃ ?_
  rw [hr₃, hr₂, hr₁]

/-- `objs_cache_boot_init` leaves the three caches and all the other pages free. The successor of
the first free region is what the memory holds. -/
theorem SlabBootReady.runs (h : SlabBootReady k free)
    (hE : E .tooManyPpages ∧ E .blockOrderTooLarge ∨ HasPages free 3) (hd : 2 ≤ depth) :
    Runs Shows E (fun _ t' => ∃ W t₁ o blocks live, BootTook free blocks live ∧
      BootMade k.bootVpn.firstFree k.bootVpn.lastFree (bootSpare k.bootVpn.firstFree k.mem) blocks
        live W t₁ o t')
      (objsCacheBootInit (depth + 1)) ⟨bootHeap k.bootVpn.firstFree k.mem, k.rest⟩ := by
  obtain ⟨hv, hvlast, hlast⟩ := h.vpages
  obtain ⟨v, hvdef⟩ : ∃ v, k.bootVpn.firstFree = v := ⟨_, rfl⟩
  obtain ⟨last, hldef⟩ : ∃ last, k.bootVpn.lastFree = last := ⟨_, rfl⟩
  have hbootVpn : k.bootVpn = ⟨v, last⟩ := by rw [← hvdef, ← hldef]
  rw [hvdef] at hv hvlast ⊢
  rw [hldef] at hvlast hlast ⊢
  have hlt : v + 3 ≤ 2 ^ 20 := by omega
  have hcache := vpnToVaddr_place hlt (k := .cache) (by decide)
  have hslab := vpnToVaddr_place hlt (k := .slab) (by decide)
  have hvregion := vpnToVaddr_place hlt (k := .vregion) (by decide)
  simp only [Struct.rank, Nat.add_zero] at hcache hslab hvregion
  unfold objsCacheBootInit
  refine h.pages (t := ⟨bootHeap v k.mem, k.rest⟩) rfl hbootVpn hE ?_
  intro block live free' t₁ honly hvpn hmap hset hlive hinj hleft
  have hvregions : bootPlace v .vregion 0 + sizeofVregion = bootPlace v .vregion 1 ∧
      bootPlace v .vregion 0 + 2 * sizeofVregion = bootPlace v .vregion 2 :=
    ⟨by rw [← bootPlace_add v .vregion 1, Nat.one_mul]; rfl, bootPlace_add v .vregion 2⟩
  have hslabs : bootPlace v .slab 0 + sizeofSlab = bootPlace v .slab 1 ∧
      bootPlace v .slab 0 + 2 * sizeofSlab = bootPlace v .slab 2 :=
    ⟨by rw [← bootPlace_add v .slab 1, Nat.one_mul]; rfl, bootPlace_add v .slab 2⟩
  have hcaches : bootPlace v .cache 0 + sizeofObjsCache = bootPlace v .cache 1 ∧
      bootPlace v .cache 0 + 2 * sizeofObjsCache = bootPlace v .cache 2 :=
    ⟨by rw [← bootPlace_add v .cache 1, Nat.one_mul]; rfl, bootPlace_add v .cache 2⟩
  have hsizes : max sizeofObjsCache sizeofPointer = Struct.cache.size ∧
      max sizeofSlab sizeofPointer = Struct.slab.size ∧
      max sizeofVregion sizeofPointer = Struct.vregion.size := ⟨rfl, rfl, rfl⟩
  simp only [hcache, hslab, hvregion, hvregions.1, hvregions.2, hslabs.1, hslabs.2, hcaches.1,
    hcaches.2, hsizes.1, hsizes.2.1, hsizes.2.2]
  have hbegun : RegionsBegun v (bootSpare v k.mem) [] t₁ := .nil honly.heap
  refine hbegun.all hlt fun t₂ hb₂ hr₂ => ?_
  refine hb₂.slabs hv hlt fun t₃ hb₃ hr₃ => ?_
  have hset₃ : SlabsSet v block free' live [] t₃.rest.phys := by
    rw [hr₃, hr₂]
    exact hset
  refine hset₃.all hb₃ hlive hinj fun t₄ hb₄ hset₄ hr₄ => ?_
  have hnone : t₄.rest.cachesClist = none := by
    rw [hr₄, hr₃, hr₂, honly.rest]
    exact h.cachesClist
  have hcaches₄ : CachesBegun v (bootSpare v k.mem) [] t₄ := by
    refine ⟨hb₄, ?_, fun _ hk => absurd hk List.not_mem_nil⟩
    rw [hnone]
    exact .nil _
  refine hcaches₄.all fun t₅ hcaches₅ hr₅ => ?_
  have hown : ∀ k, Shows k t₅ → Shows { k with
      cacheSlab := some (bootPlace v .cache 1)
      cacheObjsCache := some (bootPlace v .cache 0)
      cacheVregion := some (bootPlace v .cache 2) } (t₅.withOwnCaches v) :=
    fun k hk => ⟨hk.models, by rw [View.withOwnCaches, ← hk.rest]; rfl⟩
  refine .modify hown ?_
  refine hcaches₅.listed.withOwnCaches.all fun t₆ hlisted₆ hr₆ => ?_
  have hassembled : BootAssembled v last (bootSpare v k.mem) [.vregion, .slab, .cache] block
      free' live t₆ := by
    refine ⟨hlisted₆, toPtr_ne _, by decide, ⟨hv, hvlast, hlast⟩, ?_, ?_, ?_, ?_, ?_, ?_, ?_, hlive,
      fun i hi j hj heq => hinj i hi j hj (by rw [heq])⟩
    all_goals rw [hr₆, View.withOwnCaches]
    all_goals simp only
    all_goals rw [hr₅]
    · rw [hr₄, hr₃, hr₂, honly.rest]
      exact h.freeVregions
    · rw [hr₄, hr₃, hr₂]
      exact hvpn
    · rw [hr₄, hr₃, hr₂]
      exact hmap
    · exact hset₄
  have hcount : t₆.heap.word .freeObjsCount (bootPlace v .cache 1) = 201 := by
    have hcache₆ := (hlisted₆.cache .slab (by decide)).freeCount
    rw [bootWorld_freeObjs (by decide) (by decide)] at hcache₆
    exact hcache₆
  refine .readWord .freeObjsCount (hlisted₆.cache .slab (by decide)).lists.cache (.passes ?_ ?_)
  · rw [hcount]
    decide
  · refine (hassembled.regionStart hd).imp ?_
    rintro _ t' ⟨W, t₁, o, hmade⟩
    exact ⟨W, t₁, o, free', live, hleft, hmade⟩

theorem SlabBootReady.shows (h : SlabBootReady k free) :
    Shows k ⟨bootHeap k.bootVpn.firstFree k.mem, k.rest⟩ := by
  obtain ⟨hv, hvlast, hlast⟩ := h.vpages
  exact ⟨bootHeap_models hv (by omega) k.mem, rfl⟩

/-- The kernel after `objs_cache_boot_init`, when the successor of the first free region is null. -/
def SlabBooted (k : Kernel) (free : List Block) (k' : Kernel) : Prop :=
  ∃ t W free', Shows k' t ∧ BootLeft k.bootVpn.firstFree k.bootVpn.lastFree free' W t ∧
    BootTook free free' W.live

theorem SlabBootReady.boots (h : SlabBootReady k free)
    (hspare : bootSpare k.bootVpn.firstFree k.mem = none)
    (hE : E .tooManyPpages ∧ E .blockOrderTooLarge ∨ HasPages free 3) (hd : 2 ≤ depth) :
    Ends E (fun _ k' => SlabBooted k free k') (objsCacheBootInit (depth + 1) k) := by
  refine (h.runs hE hd k h.shows).imp ?_
  rintro - k' ⟨t, hk', W, t₁, o, free', live, htook, hmade⟩
  rw [hspare] at hmade
  refine ⟨t, _, free', hk', hmade.left, ?_⟩
  change BootTook free free' W.live
  rw [hmade.live]
  exact htook

theorem SlabBootReady.booted (h : SlabBootReady k free)
    (hspare : bootSpare k.bootVpn.firstFree k.mem = none) (hd : 2 ≤ depth)
    (hboot : objsCacheBootInit (depth + 1) k = .ok ((), k')) : SlabBooted k free k' :=
  (h.boots (E := fun _ => True) hspare (.inl ⟨trivial, trivial⟩) hd).ok hboot

/-- `physical_page_boot_init` leaves a kernel in which the slab allocator can start. -/
theorem PhysHandover.slabBootReady {F : BlockFamily} (h : PhysHandover k k' b e l F)
    (hl : l < 2 ^ 20) (hv : 1 ≤ k.bootVpn.firstFree)
    (hlast : k.bootVpn.firstFree + dscrPages (l + 1) + 2 ≤ k.bootVpn.lastFree)
    (hlt : k.bootVpn.lastFree < 1023 * 1024)
    (hpresent : ∀ w, k.bootVpn.firstFree ≤ w → w ≤ k.bootVpn.lastFree →
      entryPresent (k.paging.pde (w / 2 ^ 10)))
    (hnone : k.freeVregions = none ∧ k.cachesClist = none) : SlabBootReady k' (F .free) := by
  obtain ⟨phys, paging, bootPpn, bootVpn, dscrs, hrest⟩ := h.rest
  have hmapped := h.array_mapped
  refine ⟨h.starts.grown hl, ?_, hmapped.tables, ?_, fun w hw hwl => ?_, ?_, ?_⟩
  · rw [h.starts.lastPpn]
    exact hl
  · rw [h.bootVpn]
    simp only
    omega
  · rw [h.bootVpn] at hw hwl
    simp only at hw hwl
    rw [hmapped.directory _ (by omega)]
    exact hpresent w (by omega) hwl
  · rw [hrest]
    exact hnone.1
  · rw [hrest]
    exact hnone.2

/-- A machine of 512 pages, with one page table. -/
def slabKernel : Kernel := { smallKernel with bootPpn := bootPagesInit 258 511 }

theorem slabKernel_ready : PhysBootReady slabKernel 0x100000 0x102000 511 where
  last_lt := by decide
  start_ge := by decide
  start_aligned := by decide
  end_gt := by decide
  end_aligned := by decide
  bootPpn := rfl
  ppages := by decide
  vpages := by decide
  vpage_pos := by decide
  vpage_lt := by decide
  tables := oneTable_recursive
  present := by decide
  freeClists := rfl
  usedClists := rfl

theorem PhysBootReady.withMem {k : Kernel} (h : PhysBootReady k b e l) (m : Mem) :
    PhysBootReady { k with mem := m } b e l :=
  ⟨h.last_lt, h.start_ge, h.start_aligned, h.end_gt, h.end_aligned, h.bootPpn, h.ppages, h.vpages,
    h.vpage_pos, h.vpage_lt, h.tables, h.present, h.freeClists, h.usedClists⟩

/-- The kernel once the memory management of the small machine has started, on any memory. -/
theorem slabKernel_boots (m : Mem) : ∃ k free,
    physicalPageBootInit 0x100000 0x102000 0 511 { slabKernel with mem := m } = .ok ((), k) ∧
      SlabBootReady k free ∧ HasPages free 250 ∧ k.bootVpn = ⟨303, 1023⟩ ∧ k.mem = m := by
  have hready := slabKernel_ready.withMem m
  obtain ⟨k', hrun⟩ := hready.boots
  obtain ⟨F, hover⟩ := hready.handover hrun
  have hbootVpn : k'.bootVpn = ⟨303, 1023⟩ := hover.bootVpn
  have hpresent : ∀ w, 300 ≤ w → w ≤ 1023 → entryPresent (slabKernel.paging.pde (w / 2 ^ 10)) := by
    intro w _ hw
    have hzero : w / 2 ^ 10 = 0 := by omega
    rw [hzero]
    decide
  have hfirst : 1 ≤ (bootPagesInit 300 1023).firstFree := by decide
  have hlast : (bootPagesInit 300 1023).firstFree + dscrPages (511 + 1) + 2 ≤
      (bootPagesInit 300 1023).lastFree := by decide
  have hlt : (bootPagesInit 300 1023).lastFree < 1023 * 1024 := by decide
  refine ⟨k', F .free, hrun, hover.slabBootReady (by decide) hfirst hlast hlt hpresent ⟨rfl, rfl⟩,
    ⟨List.range' 261 250, List.nodup_range', by rw [List.length_range'], fun x hx => ?_⟩,
    hbootVpn, ?_⟩
  · refine (hover.free_pages x).mpr (.inr ?_)
    have hbootPpn : k'.bootPpn = ⟨261, 511⟩ := hover.bootPpn
    rw [List.mem_range'_1] at hx
    rw [hbootPpn]
    simp only
    omega
  · obtain ⟨phys, paging, bootPpn, bootVpn, dscrs, hrest⟩ := hover.rest
    rw [hrest]

end Atros
