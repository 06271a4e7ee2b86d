import Atros.RegionConservation

namespace Atros
set_option autoImplicit true

variable {W W' W₀ : World} {t t' t₀ : View} {k k' k₀ : Kernel} {s s' : Session} {free : List Block}

/-! ### Objects and pages apart -/

/-- The object `o` of the cache `c` has been returned, or is in use as a descriptor. -/
inductive Session.Object (s : Session) : Nat → Nat → Prop
  | given (h : (some c, o) ∈ s.given) : Object s c o
  | cache (hc : s.kernel.cacheObjsCache = some c) (ho : s.kernel.OnCaches o) : Object s c o
  | slab (hc : s.kernel.cacheSlab = some c) (hd : s.kernel.OnCaches d)
      (ho : s.kernel.OnStatus d st o) : Object s c o
  | vregion (hc : s.kernel.cacheVregion = some c) (ho : s.kernel.OnFree o ∨ s.kernel.OnUsed o) :
      Object s c o

/-- The bytes of an object of the cache `c`. -/
def Kernel.objectBytes (k : Kernel) (c o : Nat) : Extent := ⟨o, k.wordOf .actualObjSize c⟩

/-- The bytes of the pages of a region. -/
def Kernel.regionBytes (k : Kernel) (r : Nat) : Extent :=
  ⟨k.wordOf .firstVpn r * vpageSize, k.wordOf .nbrPages r * vpageSize⟩

/-- The cache `c` has the slab `sl`, whose region is `r`. -/
structure Kernel.SlabAt (k : Kernel) (c sl r : Nat) : Prop where
  cache : k.OnCaches c
  slab : ∃ st, k.OnStatus c st sl
  region : k.ptrOf .slabVregion sl = some r

/-- Objects do not meet, each lies in one slab of its cache, and the pages of the slabs are pages of
their own which were free in `k₀`. -/
structure Session.Isolated (k₀ : Kernel) (s : Session) : Prop where
  apart : ∀ c o c' o', s.Object c o → s.Object c' o' → (c, o) ≠ (c', o') →
    (s.kernel.objectBytes c o).Apart (s.kernel.objectBytes c' o')
  once : (s.given.map Prod.snd).Nodup
  home : ∀ c o, s.Object c o → ∃ sl r j, s.kernel.SlabAt c sl r ∧
    o = (s.kernel.regionBytes r).base + j * s.kernel.wordOf .actualObjSize c ∧
    (s.kernel.objectBytes c o).Within (s.kernel.regionBytes r) ∧
    ∀ sl' r', s.kernel.SlabAt c sl' r' →
      (s.kernel.objectBytes c o).Within (s.kernel.regionBytes r') → sl' = sl
  translated : ∀ c sl r, s.kernel.SlabAt c sl r → ∀ v ∈ s.kernel.region r,
    ∃ p, s.kernel.paging.walk (v * vpageSize) = some (p * vpageSize) ∧
      ¬s.kernel.phys.FreePage p ∧ k₀.phys.FreePage p
  distinct : ∀ c sl r v c' sl' r' v' p, s.kernel.SlabAt c sl r → s.kernel.SlabAt c' sl' r' →
    v ∈ s.kernel.region r → v' ∈ s.kernel.region r' →
    s.kernel.paging.walk (v * vpageSize) = some (p * vpageSize) →
    s.kernel.paging.walk (v' * vpageSize) = some (p * vpageSize) → v = v' ∧ sl = sl'

section
variable (hk : Shows k t) (h : W.Sound t)
include hk h

theorem World.Sound.slabAt_iff :
    k.SlabAt c sl r ↔ c ∈ W.caches ∧ sl ∈ W.all c ∧ r = W.region sl := by
  have hregion : c ∈ W.caches → sl ∈ W.all c → k.ptrOf .slabVregion sl = some (W.region sl) := by
    intro hc hs
    have hcache := h.caches.cache c hc
    obtain ⟨st, hst⟩ := mem_allOf.mp hs
    rw [hk.ptrOf .slabVregion (hcache.lists.slab st sl hst), (hcache.slabOk hs).region]
  constructor
  · rintro ⟨hc, ⟨st, hst⟩, hr⟩
    have hc' := (h.caches.onCaches_iff hk).mp hc
    have hs : sl ∈ W.all c := mem_allOf.mpr ⟨st, (h.caches.onStatus_iff hk hc').mp hst⟩
    rw [hregion hc' hs] at hr
    exact ⟨hc', hs, (Option.some.inj hr).symm⟩
  · rintro ⟨hc, hs, rfl⟩
    obtain ⟨st, hst⟩ := mem_allOf.mp hs
    exact ⟨(h.caches.onCaches_iff hk).mpr hc, ⟨st, (h.caches.onStatus_iff hk hc).mpr hst⟩,
      hregion hc hs⟩

theorem World.Sound.region_slab (hc : c ∈ W.caches) (hs : sl ∈ W.all c) :
    k.region (W.region sl) = ⟨(W.extent (W.region sl)).base, W.pages c⟩ := by
  obtain ⟨hused, hlen⟩ := h.slabRegions.region c hc sl hs
  rw [h.regions.region hk (List.mem_append_right _ hused), ← hlen]

theorem World.Sound.size_eq (hc : c ∈ W.caches) : k.wordOf .actualObjSize c = W.size c := by
  have hcache := h.caches.cache c hc
  rw [hk.wordOf .actualObjSize hcache.lists.cache, hcache.actualObjSize]

end

theorem World.Sound.place (h : W.Sound t) (hc : c ∈ W.caches) (hs : sl ∈ W.all c)
    (hslot : t.heap.slot o = some ⟨sl, W.size c⟩) : o ∈ W.places c sl := by
  obtain ⟨c', hc', sl', hs', heq, ho⟩ := (h.placed.slot o _).mp hslot
  obtain ⟨rfl, -⟩ := Slot.mk.inj heq
  have howner := ((h.caches.cache c hc).slabOk hs).owner
  rw [← howner, ((h.caches.cache c' hc').slabOk hs').owner]
  exact ho

theorem World.place_within (ho : o ∈ W.places c sl) :
    ∃ j, o = (W.extent (W.region sl)).base * vpageSize + j * W.size c ∧
      o + W.size c ≤ (W.extent (W.region sl)).base * vpageSize + W.pages c * vpageSize := by
  have hsize : vpageSize = 4096 := rfl
  obtain ⟨j, hj, rfl⟩ := mem_objsFrom.mp ho
  refine ⟨j, by rw [hsize], ?_⟩
  have hper : W.per c * W.size c ≤ W.pages c * vpageSize :=
    (Nat.div_mul_le_self _ _).trans (Nat.mod_le _ _)
  have hj' : (j + 1) * W.size c ≤ W.per c * W.size c := Nat.mul_le_mul_right _ hj
  rw [Nat.add_one_mul] at hj'
  rw [← hsize, Nat.add_assoc]
  exact Nat.add_le_add_left (hj'.trans hper) _

theorem Extent.div_mem (hz : 0 < z) (h : x ∈ Extent.mk (b * z) (n * z)) :
    x / z ∈ Extent.mk b n := by
  rw [Extent.mem_mk, ← Nat.add_mul] at h
  exact ⟨(Nat.le_div_iff_mul_le hz).mpr h.1, (Nat.div_lt_iff_lt_mul hz).mpr h.2⟩

theorem World.SlabRegions.slabs_apart (h : W.SlabRegions) (hc : c ∈ W.caches) (hs : sl ∈ W.all c)
    (hs' : sl' ∈ W.all c) (hne : sl ≠ sl') :
    (Extent.mk (W.extent (W.region sl)).base (W.pages c)).Apart
      ⟨(W.extent (W.region sl')).base, W.pages c⟩ := by
  obtain ⟨hused, hlen⟩ := h.region c hc sl hs
  obtain ⟨hused', hlen'⟩ := h.region c hc sl' hs'
  have hregion : W.region sl ≠ W.region sl' := fun heq => hne (h.inj c hc c hc sl hs sl' hs' heq)
  have hapart := Extent.apart_of_pairwise h.apart hused hused' hregion
  rw [Extent.apart_iff] at hapart ⊢
  simp only
  omega

theorem Session.Kept.object (h : s.Kept W t) (ho : s.Object c o) :
    c ∈ W.caches ∧ ∃ sl ∈ W.all c, t.heap.slot o = some ⟨sl, W.size c⟩ := by
  have hsound := h.ready.sound
  have hown := hsound.caches.own
  have hhome : ∀ i : Struct, i ≠ .object → t.heap.struct o = some i → W.homeOf i = c →
      c ∈ W.caches ∧ ∃ sl ∈ W.all c, t.heap.slot o = some ⟨sl, W.size c⟩ := by
    rintro i hi hstruct rfl
    exact ⟨hown.mem i, hsound.placed.home o i hi hstruct⟩
  cases ho with
  | given hgiven =>
    have hgave := h.gave _ hgiven
    generalize hcache : some c = d at hgave
    cases hgave with
    | cache ho =>
      exact hhome .cache (by decide) (hsound.caches.cache o ho).lists.cache
        (Option.some.inj hcache).symm
    | object hc _ ho =>
      obtain rfl := Option.some.inj hcache
      exact ⟨hc, ho.slot⟩
    | region ho =>
      exact hhome .vregion (by decide) (hsound.regions.used.2 o ho) (Option.some.inj hcache).symm
  | cache hc ho =>
    have hc' := (hsound.reads_cacheObjsCache _ h.shows).symm.trans hc
    have ho' := (hsound.caches.onCaches_iff h.shows).mp ho
    exact hhome .cache (by decide) (hsound.caches.cache o ho').lists.cache (Option.some.inj hc')
  | slab hc hd ho =>
    have hc' := (hsound.reads_cacheSlab _ h.shows).symm.trans hc
    have hd' := (hsound.caches.onCaches_iff h.shows).mp hd
    have ho' := (hsound.caches.onStatus_iff h.shows hd').mp ho
    exact hhome .slab (by decide) ((hsound.caches.cache _ hd').lists.slab _ o ho')
      (Option.some.inj hc')
  | vregion hc ho =>
    have hc' := (hsound.reads_cacheVregion _ h.shows).symm.trans hc
    rw [hsound.regions.onFree_iff h.shows, hsound.regions.onUsed_iff h.shows] at ho
    exact hhome .vregion (by decide) (ho.elim (hsound.regions.free.2 o) (hsound.regions.used.2 o))
      (Option.some.inj hc')

theorem World.Sound.slabPage (hk : Shows k t) (h : W.Sound t) (hc : c ∈ W.caches)
    (hs : sl ∈ W.all c) (hv : v ∈ k.region (W.region sl)) : ∃ p, k.paging.walk (v * vpageSize) =
    some (p * vpageSize) ∧
      p ∈ (W.block sl).pages ∧ p + (W.extent (W.region sl)).base = (W.block sl).ppn + v := by
  have hsize : vpageSize = 2 ^ 12 := rfl
  rw [h.region_slab hk hc hs, Extent.mem_mk] at hv
  obtain ⟨i, rfl⟩ := Nat.exists_eq_add_of_le hv.1
  have hi : i < W.pages c := by omega
  have hmapped := h.backed.mapped c hc sl hs i hi 0 (by decide)
  have hpages := (h.backed.block c hc sl hs).2
  refine ⟨(W.block sl).ppn + i, ?_, ?_, by omega⟩
  · rw [Nat.add_zero, Nat.add_zero] at hmapped
    rw [hk.paging, hsize, hmapped]
  · rw [Block.pages, Extent.mem_mk]
    omega

/-- The block of a slab is off the free pages and off those of the other slabs. -/
theorem World.Backed.block_apart (h : W.Backed k) (hc : c ∈ W.caches) (hs : sl ∈ W.all c)
    (hp : p ∈ (W.block sl).pages) : ¬InFree W.freeBlocks p ∧
      ∀ c' ∈ W.caches, ∀ sl' ∈ W.all c', p ∈ (W.block sl').pages → sl = sl' := by
  obtain ⟨-, hlive, hcross⟩ := List.pairwise_append.mp h.phys.blocks.apart
  have hmem := (h.block c hc sl hs).1
  refine ⟨?_, fun c' hc' sl' hs' hp' => ?_⟩
  · rintro ⟨b, hb, hpb⟩
    exact hcross b hb _ hmem p hpb hp
  · refine h.inj c hc c' hc' sl hs sl' hs' ?_
    by_contra hne
    exact Extent.apart_of_pairwise hlive hmem (h.block c' hc' sl' hs').1 hne p hp hp'

theorem Session.Kept.isolated (h : s.Kept W t)
    (hfree : ∀ c ∈ W.caches, ∀ sl ∈ W.all c, ∀ p ∈ (W.block sl).pages, k₀.phys.FreePage p) :
    s.Isolated k₀ := by
  have hk := h.shows
  have hsound := h.ready.sound
  have hbacked := hsound.backed
  have hbase : ∀ c ∈ W.caches, ∀ sl ∈ W.all c, s.kernel.regionBytes (W.region sl) =
      ⟨(W.extent (W.region sl)).base * vpageSize, W.pages c * vpageSize⟩ := by
    intro c hc sl hs
    have hregion := hsound.region_slab hk hc hs
    have hfirst : s.kernel.wordOf .firstVpn (W.region sl) = _ := congrArg Extent.base hregion
    have hpages : s.kernel.wordOf .nbrPages (W.region sl) = _ := congrArg Extent.len hregion
    rw [Kernel.regionBytes, hfirst, hpages]
  refine ⟨fun c o c' o' ho ho' hne => ?_, h.nodup, fun c o ho => ?_, fun c sl r hsl v hv => ?_,
    fun c sl r v c' sl' r' v' p hsl hsl' hv hv' hp hp' => ?_⟩
  · obtain ⟨hc, sl, hs, hslot⟩ := h.object ho
    obtain ⟨hc', sl', hs', hslot'⟩ := h.object ho'
    rw [Kernel.objectBytes, Kernel.objectBytes, hsound.size_eq hk hc, hsound.size_eq hk hc',
      Extent.apart_iff]
    refine .inr (.inr (hk.models.apart o o' _ _ hslot hslot' fun heq => hne ?_))
    rw [heq, hslot'] at hslot
    obtain ⟨rfl, -⟩ := Slot.mk.inj (Option.some.inj hslot)
    rw [heq, ← ((hsound.caches.cache c hc).slabOk hs).owner,
      ((hsound.caches.cache c' hc').slabOk hs').owner]
  · obtain ⟨hc, sl, hs, hslot⟩ := h.object ho
    obtain ⟨j, hj, hend⟩ := World.place_within (hsound.place hc hs hslot)
    have hpos := (hsound.caches.cache c hc).size_ge
    refine ⟨sl, W.region sl, j, (hsound.slabAt_iff hk).mpr ⟨hc, hs, rfl⟩, ?_, ?_, ?_⟩
    · rw [hbase c hc sl hs, hsound.size_eq hk hc]
      exact hj
    · rw [hbase c hc sl hs, Kernel.objectBytes, hsound.size_eq hk hc]
      refine Extent.within_of_le ?_ hend
      simp only
      omega
    · intro sl' r' hsl' hwithin
      obtain ⟨-, hs', rfl⟩ := (hsound.slabAt_iff hk).mp hsl'
      rw [hbase c hc sl' hs', Kernel.objectBytes, hsound.size_eq hk hc] at hwithin
      have hin : o ∈ Extent.mk ((W.extent (W.region sl)).base * vpageSize)
        (W.pages c * vpageSize) := by
        rw [Extent.mem_mk]
        omega
      have hin' := hwithin o (Extent.mem_mk.mpr ⟨le_refl o, by omega⟩)
      by_contra hne
      refine hsound.slabRegions.slabs_apart hc hs' hs hne (o / vpageSize) ?_ ?_
      · exact Extent.div_mem (by decide) hin'
      · exact Extent.div_mem (by decide) hin
  · obtain ⟨hc, hs, rfl⟩ := (hsound.slabAt_iff hk).mp hsl
    obtain ⟨p, hwalk, hp, -⟩ := hsound.slabPage hk hc hs hv
    refine ⟨p, hwalk, ?_, hfree c hc sl hs p hp⟩
    rw [hk.phys, hbacked.freePage_iff]
    exact (hbacked.block_apart hc hs hp).1
  · obtain ⟨hc, hs, rfl⟩ := (hsound.slabAt_iff hk).mp hsl
    obtain ⟨hc', hs', rfl⟩ := (hsound.slabAt_iff hk).mp hsl'
    obtain ⟨q, hwalk, hq, heq⟩ := hsound.slabPage hk hc hs hv
    obtain ⟨q', hwalk', hq', heq'⟩ := hsound.slabPage hk hc' hs' hv'
    obtain rfl := Nat.eq_of_mul_eq_mul_right (by decide : 0 < vpageSize)
      (Option.some.inj (hp.symm.trans hwalk))
    obtain rfl := Nat.eq_of_mul_eq_mul_right (by decide : 0 < vpageSize)
      (Option.some.inj (hp'.symm.trans hwalk'))
    obtain rfl := (hbacked.block_apart hc hs hq).2 c' hc' sl' hs' hq'
    exact ⟨by omega, rfl⟩

/-- The physical pages of the slabs were free before the first of them was made. -/
theorem BootTook.block_free {blocks : List Block} (h : BootTook free blocks W₀.live)
    (hk : SlabBootReady k free) (hfree : W₀.freeBlocks = blocks) (hg : W₀.Grows t₀ W t)
    (hs : W.Sound t) : ∀ c ∈ W.caches, ∀ sl ∈ W.all c, ∀ p ∈ (W.block sl).pages,
    k.phys.FreePage p := by
  intro c hc sl hsl p hp
  rw [hk.phys.sound.partition.freePage_iff]
  rcases hg.live _ (hs.backed.block c hc sl hsl).1 with hlive | hnew
  · exact h.taken _ hlive p hp
  · exact h.left p (hfree ▸ hnew p hp)

/-- The physical pages that `physical_page_boot_init` marks as used: the first megabyte, the image
of the kernel, and the pages of the boot allocator. -/
def BootReserved (bootPaStart kernelPaEnd bootFirstFreePpn p : Nat) : Prop :=
  p < paddrToPpn (1 * MB) ∨
    paddrToPpn bootPaStart ≤ p ∧ p < paddrToPpn (roundup kernelPaEnd ppageSize) ∨
    paddrToPpn kernelPaEnd ≤ p ∧ p < bootFirstFreePpn

theorem PhysBootReady.freePage_not_reserved {b e l : Nat} (h : PhysBootReady k₀ b e l)
    (hrun : physicalPageBootInit b e 0 l k₀ = .ok ((), k)) (hp : k.phys.FreePage p) :
    ¬BootReserved b e k.bootPpn.firstFree p := by
  obtain ⟨F, hover⟩ := h.handover hrun
  have hgrown := hover.starts.grown h.last_lt
  rw [hgrown.sound.partition.freePage_iff] at hp
  have hpages := (hover.free_pages p).mp hp
  have hlast := h.last_lt
  have hppages := h.ppages
  have hpos : 1 ≤ dscrPages (l + 1) := dscrPages_pos (Nat.succ_pos _)
  have hend : e = e >>> 12 * 4096 := by
    have ha := h.end_aligned
    rw [Nat.shiftRight_eq_div_pow]
    omega
  have hstart : b = b >>> 12 * 4096 := by
    have ha := h.start_aligned
    rw [Nat.shiftRight_eq_div_pow]
    omega
  have hge : 256 ≤ b >>> 12 := by
    have hs := h.start_ge
    rw [MB, KB] at hs
    omega
  have hlt : b >>> 12 < e >>> 12 := by
    have he := h.end_gt
    omega
  have hround : roundup e ppageSize = e := by
    rw [roundup_pages (by omega)]
    omega
  rw [hover.bootPpn] at hpages ⊢
  rw [BootReserved, hround, show paddrToPpn (1 * MB) = 256 from rfl, paddrToPpn, paddrToPpn]
  simp only at hpages ⊢
  omega

/-- In every run from boot objects do not meet, and neither do the pages behind them. -/
theorem slabRun_isolated (hk : SlabBootReady k free)
    (hspare : bootSpare k.bootVpn.firstFree k.mem = none) (hd : 5 ≤ depth)
    (hboot : objsCacheBootInit (depth + 1) k = .ok ((), k'))
    (hrun : SlabRun depth (.start k') s) :
    s.Isolated k ∧ ∀ k₀ b e l, PhysBootReady k₀ b e l → physicalPageBootInit b e 0 l k₀ =
    .ok ((), k) →
      ∀ c sl r v p, s.kernel.SlabAt c sl r → v ∈ s.kernel.region r →
        s.kernel.paging.walk (v * vpageSize) = some (p * vpageSize) →
          ¬BootReserved b e k.bootPpn.firstFree p := by
  have hbooted := hk.booted hspare (Nat.le_trans (by decide) hd) hboot
  obtain ⟨t₀, W₀, blocks, hk', hleft, htook⟩ := hbooted
  obtain ⟨W, t, hs, hg⟩ := hrun.kept hd (.start hk' hleft.ready)
  have hisolated := hs.isolated (htook.block_free hk hleft.freeBlocks hg hs.ready.sound)
  refine ⟨hisolated, fun k₀ b e l h hinit c sl r v p hsl hv hp => ?_⟩
  obtain ⟨q, hq, -, hfree⟩ := hisolated.translated c sl r hsl v hv
  obtain rfl := Nat.eq_of_mul_eq_mul_right (by decide : 0 < vpageSize)
    (Option.some.inj (hp.symm.trans hq))
  exact h.freePage_not_reserved hinit hfree

theorem slabRun_isolated_slabKernel : ∃ k k' s, objsCacheBootInit 6 k = .ok ((), k') ∧
    SlabRun 5 (.start k') s ∧ s.given.length = 3 ∧ s.Isolated k := by
  obtain ⟨k, free, k₀, s, hready, hspare, hboot, hrun, hgiven⟩ := slabKernel_calls
  exact ⟨k, k₀, s, hboot, hrun, hgiven,
    (slabRun_isolated hready hspare (le_refl 5) hboot hrun).1⟩

/-! ### A region in no slab -/

section
variable {v last o : Nat} {spare : Option Nat} {blocks live : List Block} {t₁ : View}
  (h : BootMade v last spare blocks live W t₁ o t)
include h

theorem BootMade.slabTaken_slabAt (hk : Shows k (t.slabTaken v o))
    (hsl : k.SlabAt (bootPlace v .cache 2) sl r) : (k.regionBytes r).base =
    (v + 2) * vpageSize := by
  have hcaches := h.made.cachesOk
  have hhome : W.homeOf .vregion = bootPlace v .cache 2 := h.home .vregion (by decide)
  have hcache := hcaches.cache _ (hcaches.own.mem .vregion)
  change (W.withFree o _).CacheOk t.heap (W.homeOf .vregion) at hcache
  rw [hhome] at hcache
  obtain ⟨st, hst⟩ := hsl.slab
  have hch := hk.chain .slabNext (hcache.lists.chain st).toChain (hcache.lists.slab st)
  have hhead : k.ptrOf (.statusList st) (bootPlace v .cache 2) = _ :=
    hk.ptrOf (.statusList st) hcache.lists.cache
  rw [Kernel.OnStatus, hhead] at hst
  have hmem := hch.onList_iff.mp hst
  have hall : sl ∈ W.all (bootPlace v .cache 2) := mem_allOf.mpr ⟨st, hmem⟩
  obtain rfl := (h.all .vregion (by decide) sl).mp hall
  have hpoints : k.ptrOf .slabVregion (bootPlace v .slab 2) = _ :=
    hk.ptrOf .slabVregion (hcache.lists.slab st _ hmem)
  have hregion := hpoints.trans (hcache.slab st _ hmem).1.region
  have hr : r = bootPlace v .vregion 2 :=
    (Option.some.inj (hregion.symm.trans hsl.region)).symm.trans (h.region .vregion (by decide))
  obtain ⟨htyped, hfirst, -⟩ := h.usedWords (i := .vregion) (by decide)
  have hword : k.wordOf .firstVpn (bootPlace v .vregion 2) = _ := hk.wordOf .firstVpn htyped
  rw [Kernel.regionBytes, hr, hword]
  exact congrArg (fun n => n * vpageSize) hfirst

end

/-- A slab that is returned as a region lies in no slab of the cache of regions. -/
theorem slabRun_not_isolated : ¬∀ depth k free k' s, SlabBootReady k free → 5 ≤ depth →
    objsCacheBootInit (depth + 1) k = .ok ((), k') → SlabRun depth (.start k') s →
      s.Isolated k ∧ ∀ k₀ b e l, PhysBootReady k₀ b e l →
        physicalPageBootInit b e 0 l k₀ = .ok ((), k) →
        ∀ c sl r v p, s.kernel.SlabAt c sl r → v ∈ s.kernel.region r →
          s.kernel.paging.walk (v * vpageSize) = some (p * vpageSize) →
            ¬BootReserved b e k.bootPpn.firstFree p := by
  intro hclaim
  obtain ⟨k, free, k₀, k₁, hready, hboot, hrun, W, t₁, o, t, blocks, live, hk, hk₁, hmade⟩ :=
    slabKernel_takesSlab (by decide : 2 ≤ 5)
  obtain ⟨hisolated, -⟩ := hclaim 5 k free k₀ _ hready (le_refl 5) hboot hrun
  have hvar : k₀.vpagesCacheVregion = some (bootPlace 303 .cache 2) := by
    rw [hk.vpagesCacheVregion, hmade.made.cachesOk.own.vpagesVar]
    exact congrArg some (hmade.home .vregion (by decide))
  obtain ⟨sl, r, j, hsl, hplace, -⟩ := hisolated.home (bootPlace 303 .cache 2) (staleRegion 303)
    (.given (hvar ▸ List.mem_cons_self))
  have hbase := hmade.slabTaken_slabAt hk₁ hsl
  have hle : (303 + 2) * vpageSize ≤ staleRegion 303 := by
    rw [hplace, ← hbase]
    exact Nat.le_add_right _ _
  exact absurd hle (by decide)

end Atros
