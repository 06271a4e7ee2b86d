import Atros.BootPhysical
import Atros.RegionOrder
import Atros.RegionStart

namespace Atros
set_option autoImplicit true

variable {t t' : View} {E : Panic → Prop} {Q : α → View → Prop} {v last : Nat}
  {spare : Option Nat} {added : List Struct} {block : Struct → Block} {free live : List Block}

/-! ### The memory management after boot -/

/-- The static variables that point to the first caches. -/
structure BootVars (v : Nat) (k : Kernel) : Prop where
  objsCache : k.cacheObjsCache = some (bootPlace v .cache 0)
  slab : k.cacheSlab = some (bootPlace v .cache 1)
  vregion : k.cacheVregion = some (bootPlace v .cache 2)
  vpages : k.vpagesCacheVregion = some (bootPlace v .cache 2)

theorem BootVars.ownCaches (h : BootVars v k) :
    (bootWorld v added block free live).OwnCaches k := by
  have hne : ∀ i < 3, ∀ j < 3, i ≠ j → bootPlace v .cache i ≠ bootPlace v .cache j := by
    intro i hi j hj hij heq
    have hper : (3 : Nat) ≤ Struct.cache.perPage := by decide
    exact hij (bootPlace_inj (by omega) (by omega) heq).2
  refine ⟨h.objsCache, h.slab, h.vregion, h.vpages, fun k => ?_, ⟨?_, ?_, ?_⟩, fun k hk => ?_,
    fun _ => rfl⟩
  · cases k with
    | cache | object => exact mem_bootCaches.mpr ⟨.cache, by decide, rfl⟩
    | slab => exact mem_bootCaches.mpr ⟨.slab, by decide, rfl⟩
    | vregion => exact mem_bootCaches.mpr ⟨.vregion, by decide, rfl⟩
  · exact hne 0 (by decide) 1 (by decide) (by decide)
  · exact hne 0 (by decide) 2 (by decide) (by decide)
  · exact hne 1 (by decide) 2 (by decide) (by decide)
  · have hmem : k ∈ bootKinds := by
      revert hk
      cases k <;> decide
    rw [bootWorld_homeOf hmem, bootWorld_size hmem]

theorem SlabsListed.cachesOk (h : SlabsListed v spare added t) (hvars : BootVars v t.rest) :
    (bootWorld v added block free live).CachesOk t := by
  refine ⟨hvars.ownCaches, h.ring, fun c hc => ?_⟩
  obtain ⟨k, hk, rfl⟩ := mem_bootCaches.mp hc
  exact (h.cache k hk).congr ⟨rfl, rfl, rfl, fun _ _ => ⟨rfl, rfl, rfl⟩⟩
    (.refl (fun _ _ => False) _) fun _ _ _ => id

theorem bootWorld_slab (hc : c ∈ (bootWorld v added block free live).caches)
    (hs : s ∈ (bootWorld v added block free live).all c) :
    ∃ k ∈ bootKinds, bootPlace v .cache k.rank = c ∧ bootPlace v .slab k.rank = s := by
  obtain ⟨k, hk, rfl⟩ := mem_bootCaches.mp hc
  exact ⟨k, hk, rfl, ((mem_bootWorld_all hk).mp hs).2.symm⟩

theorem SlabsListed.placed (h : SlabsListed v spare added t) (hadded : bootKinds ⊆ added) :
    (bootWorld v added block free live).Placed t.heap := by
  refine ⟨fun a u => ?_, fun a k hk ha => ?_⟩
  · rw [h.booting.slot, bootSlot_iff]
    constructor
    · rintro ⟨k, hk, j, hj, rfl, rfl⟩
      refine ⟨_, mem_bootCaches.mpr ⟨k, hk, rfl⟩, _, (mem_bootWorld_all hk).mpr ⟨hadded hk, rfl⟩,
        ?_, ?_⟩
      · rw [bootWorld_size hk]
      · rw [bootWorld_places hk]
        exact mem_bootPlaces.mpr ⟨j, hj, rfl⟩
    · rintro ⟨c, hc, s, hs, rfl, ha⟩
      obtain ⟨k, hk, rfl, rfl⟩ := bootWorld_slab hc hs
      rw [bootWorld_places hk] at ha
      obtain ⟨j, hj, rfl⟩ := mem_bootPlaces.mp ha
      exact ⟨k, hk, j, hj, rfl, by rw [bootWorld_size hk]⟩
  · have hmem : k ∈ bootKinds := by
      revert hk
      cases k <;> decide
    have hplace : ∃ i ∈ bootKinds, a = bootPlace v k i.rank := by
      have htyped := (h.booting.struct a k).mp ha
      cases k with
      | object => exact absurd rfl hk
      | vregion | slab | cache => exact htyped
    obtain ⟨i, hi, rfl⟩ := hplace
    rw [bootWorld_homeOf hmem]
    refine ⟨_, (mem_bootWorld_all hmem).mpr ⟨hadded hmem, rfl⟩, ?_⟩
    rw [bootWorld_size hmem, h.booting.slot]
    exact bootSlot_iff.mpr ⟨k, hmem, i.rank, rank_lt_perPage hi _, rfl, rfl⟩

theorem mem_bootRegions : r ∈ (bootWorld v added block free live).freeRegions ++
    (bootWorld v added block free live).usedRegions ↔
    ∃ k ∈ bootKinds, bootPlace v .vregion k.rank = r := List.mem_map

theorem SlabsListed.regionsOk (h : SlabsListed v spare added t) (hfree : t.rest.freeVregions = none)
    (hused : t.rest.usedVregions = some (bootPlace v .vregion 0)) :
    (bootWorld v added block free live).RegionsOk t := by
  refine ⟨⟨hfree, fun x hx => (nomatch hx)⟩, ⟨?_, fun x hx => ?_⟩, fun r hr => ?_, ?_,
    fun r hr => (nomatch hr)⟩
  · change Chain _ t.rest.usedVregions _
    rw [hused]
    exact h.booting.next
  · obtain ⟨k, hk, rfl⟩ := List.mem_map.mp hx
    exact (h.booting.struct _ .vregion).mpr ⟨k, hk, rfl⟩
  · obtain ⟨k, hk, rfl⟩ := mem_bootRegions.mp hr
    rw [bootWorld_extent hk]
    exact h.booting.words k hk
  · exact ⟨List.nodup_nil, fun f hf => (nomatch hf), .nil, fun f hf => (nomatch hf)⟩

theorem bootWorld_slabRegions (hv : 1 ≤ v) (hlt : v + 3 ≤ 1023 * 1024) :
    (bootWorld v added block free live).SlabRegions := by
  have hinj : ∀ k ∈ bootKinds, ∀ k' ∈ bootKinds, k ≠ k' → k.rank ≠ k'.rank := fun k _ k' _ hne =>
    mt rank_inj.mp hne
  refine ⟨?_, fun r hr => ?_, fun c hc s hs => ?_, fun c hc c' hc' s hs s' hs' heq => ?_⟩
  · refine List.pairwise_map.mpr ?_
    have hnodup : bootKinds.Nodup := by decide
    refine hnodup.imp_of_mem fun {k k'} hk hk' hne => ?_
    rw [bootWorld_extent hk, bootWorld_extent hk', Extent.apart_iff]
    have hrank := hinj k hk k' hk' hne
    simp only
    omega
  · obtain ⟨k, hk, rfl⟩ := mem_bootRegions.mp hr
    have hrank := rank_lt hk
    rw [bootWorld_extent hk]
    simp only
    omega
  · obtain ⟨k, hk, rfl, rfl⟩ := bootWorld_slab hc hs
    rw [bootWorld_region hk, bootWorld_extent hk]
    exact ⟨List.mem_map.mpr ⟨k, hk, rfl⟩, rfl⟩
  · obtain ⟨k, hk, rfl, rfl⟩ := bootWorld_slab hc hs
    obtain ⟨k', hk', rfl, rfl⟩ := bootWorld_slab hc' hs'
    rw [bootWorld_region hk, bootWorld_region hk'] at heq
    rw [bootPlace_rank_inj hk hk' heq]

theorem bootWorld_backed {k : Kernel} {done done' : List Struct}
    (hpages : PagesMapped v last block done k.paging) (hdone : bootKinds ⊆ done)
    (hset : SlabsSet v block free live done' k.phys) (hblock : ∀ i ∈ bootKinds, block i ∈ live)
    (hinj : ∀ i ∈ bootKinds, ∀ j ∈ bootKinds, block i = block j → i = j) (hlast : v + 2 ≤ last) :
    (bootWorld v added block free live).Backed k := by
  refine ⟨hpages.tables, fun r hr w hw => ?_, hset.lastPpn_lt, hset.grown, fun c hc s hs => ?_,
    fun c hc c' hc' s hs s' hs' heq => ?_, fun c hc s hs i hi o ho => ?_⟩
  · obtain ⟨k, hk, rfl⟩ := mem_bootRegions.mp hr
    have hrank := rank_lt hk
    rw [bootWorld_extent hk, Extent.mem_mk] at hw
    exact hpages.present w (by omega) (by omega)
  · obtain ⟨k, hk, rfl, rfl⟩ := bootWorld_slab hc hs
    rw [bootWorld_block hk]
    exact ⟨hblock k hk, Nat.one_le_two_pow⟩
  · obtain ⟨k, hk, rfl, rfl⟩ := bootWorld_slab hc hs
    obtain ⟨k', hk', rfl, rfl⟩ := bootWorld_slab hc' hs'
    rw [bootWorld_block hk, bootWorld_block hk'] at heq
    rw [hinj k hk k' hk' heq]
  · obtain ⟨k, hk, rfl, rfl⟩ := bootWorld_slab hc hs
    change i < 1 at hi
    obtain rfl : i = 0 := by omega
    rw [bootWorld_region hk, bootWorld_extent hk, bootWorld_block hk]
    exact hpages.mapped k (hdone hk) o ho

theorem SlabsSet.recorded {done : List Struct} (h : SlabsSet v block free live done t.rest.phys)
    (hdone : bootKinds ⊆ done) : (bootWorld v added block free live).Recorded t := by
  intro c hc s hs i hi
  obtain ⟨k, hk, rfl, rfl⟩ := bootWorld_slab hc hs
  change i < 1 at hi
  obtain rfl : i = 0 := by omega
  rw [bootWorld_block hk]
  exact h.slab k (hdone hk)

theorem bootWorld_freeObjs (hk : k ∈ bootKinds) (hadded : k ∈ added) :
    (bootWorld v added block free live).freeObjs (bootPlace v .cache k.rank) = k.perPage - 3 := by
  have hall : (bootWorld v added block free live).all (bootPlace v .cache k.rank) =
      [bootPlace v .slab k.rank] := by
    have hslabs : ∀ st, (bootWorld v added block free live).slabs (bootPlace v .cache k.rank) st =
        if k ∈ added ∧ st = .statusPartial then [bootPlace v .slab k.rank] else [] :=
      bootWorld_slabs hk
    rw [World.all, allOf, hslabs, hslabs, hslabs]
    simp only [hadded, true_and, reduceCtorEq, if_true, if_false, List.nil_append, List.append_nil]
  rw [World.freeObjs, hall, List.map_singleton, List.sum_singleton, bootWorld_objs hk,
    objsFrom_length]

theorem bootRegions_inOrder {H : Heap}
    (hwords : ∀ k ∈ bootKinds, H.word .firstVpn (bootPlace v .vregion k.rank) = v + k.rank ∧
      H.word .nbrPages (bootPlace v .vregion k.rank) = 1) (hlt : v + 3 ≤ 2 ^ 20) :
    (bootKinds.map fun k => bootPlace v .vregion k.rank).IsChain H.InOrder := by
  have hstep : ∀ k ∈ bootKinds, ∀ k' ∈ bootKinds, k'.rank = k.rank + 1 →
      H.InOrder (bootPlace v .vregion k.rank) (bootPlace v .vregion k'.rank) := by
    intro k hk k' hk' hnext
    have hrank := rank_lt hk
    rw [Heap.InOrder, (hwords k hk).1, (hwords k hk).2, (hwords k' hk').1, lastVpn,
      add32_of_lt (by omega), sub32_of_le (by omega) (by omega)]
    omega
  refine .cons_cons (hstep .cache (by decide) .slab (by decide) rfl) ?_
  exact .cons_cons (hstep .slab (by decide) .vregion (by decide) rfl) (.singleton _)

/-- The first slabs and their pages before `virtual_page_boot_init`. -/
structure BootAssembled (v last : Nat) (spare : Option Nat) (added : List Struct)
    (block : Struct → Block) (free live : List Block) (t : View) : Prop where
  listed : SlabsListed v spare added t
  spare_ne : spare ≠ some 0
  all_added : bootKinds ⊆ added
  range : 1 ≤ v ∧ v + 2 ≤ last ∧ last < 1023 * 1024
  objsCache : t.rest.cacheObjsCache = some (bootPlace v .cache 0)
  slab : t.rest.cacheSlab = some (bootPlace v .cache 1)
  vregion : t.rest.cacheVregion = some (bootPlace v .cache 2)
  none_free : t.rest.freeVregions = none
  bootVpn : t.rest.bootVpn = ⟨v + 3, last⟩
  pages : PagesMapped v last block added t.rest.paging
  set : SlabsSet v block free live added t.rest.phys
  live : ∀ k ∈ bootKinds, block k ∈ live
  blocks : ∀ i ∈ bootKinds, ∀ j ∈ bootKinds, block i = block j → i = j

/-- What boot leaves: three used regions, and the free region `o` of all the other pages, which
leads on to `spare`. In the view `t₁`, of which `W` is the world, `o` is not yet a region. -/
structure BootMade (v last : Nat) (spare : Option Nat) (blocks live : List Block) (W : World)
    (t₁ : View) (o : Nat) (t : View) : Prop where
  made : FreeMade W t₁ o ⟨v + 3, last + 1 - (v + 3)⟩ spare t
  place : o = bootPlace v .vregion 3
  recorded : W.Recorded t₁
  used : W.usedRegions = bootKinds.map fun k => bootPlace v .vregion k.rank
  extents : ∀ k ∈ bootKinds, W.extent (bootPlace v .vregion k.rank) = ⟨v + k.rank, 1⟩
  home : ∀ k ∈ bootKinds, W.homeOf k = bootPlace v .cache k.rank
  all : ∀ k ∈ bootKinds, ∀ s, s ∈ W.all (bootPlace v .cache k.rank) ↔ s = bootPlace v .slab k.rank
  region : ∀ k ∈ bootKinds, W.region (bootPlace v .slab k.rank) = bootPlace v .vregion k.rank
  objs : W.objs (bootPlace v .slab 0) = objsFrom (bootPlace v .cache 3) sizeofObjsCache 37
  slabs : W.slabs (bootPlace v .cache 0) .statusPartial = [bootPlace v .slab 0]
  caches : W.freeObjs W.cacheObjsCache = 37
  slabObjs : W.freeObjs W.cacheSlab = 201
  regionObjs : W.freeObjs W.cacheVregion = 337
  freeBlocks : W.freeBlocks = blocks
  live : W.live = live
  bootVpn : t.rest.bootVpn = ⟨v + 3, last⟩

/-- What boot leaves: three used regions, and one free region of all the other pages. -/
structure BootLeft (v last : Nat) (blocks : List Block) (W : World) (t : View) : Prop where
  ready : W.Ready t
  recorded : W.Recorded t
  free : ∃ o, W.freeRegions = [o] ∧ W.extent o = ⟨v + 3, last + 1 - (v + 3)⟩
  used : W.usedRegions = bootKinds.map fun k => bootPlace v .vregion k.rank
  extents : ∀ k ∈ bootKinds, W.extent (bootPlace v .vregion k.rank) = ⟨v + k.rank, 1⟩
  caches : W.freeObjs W.cacheObjsCache = 37
  slabs : W.freeObjs W.cacheSlab = 201
  regions : W.freeObjs W.cacheVregion = 337
  freeBlocks : W.freeBlocks = blocks
  bootVpn : t.rest.bootVpn = ⟨v + 3, last⟩

/-- The view in which the variables of virtual_pages.c are set. -/
def View.withRegionVars (t : View) (v : Nat) : View :=
  { t with rest := { t.rest with
    vpagesCacheVregion := some (bootPlace v .cache 2)
    usedVregions := some (bootPlace v .vregion 0) } }

section
variable (h : BootAssembled v last spare added block free live t)
include h

theorem BootAssembled.listed' : SlabsListed v spare added (t.withRegionVars v) := by
  obtain ⟨⟨hkinds, hslot, hstruct, hwords, hnext, hspare, hslab⟩, hring, hcache⟩ := h.listed
  exact ⟨⟨hkinds, hslot, hstruct, hwords, hnext, hspare, hslab⟩, hring, hcache⟩

theorem BootAssembled.freeObjs (hk : k ∈ bootKinds) :
    (bootWorld v added block free live).freeObjs (bootPlace v .cache k.rank) = k.perPage - 3 :=
  bootWorld_freeObjs hk (h.all_added hk)

theorem BootAssembled.ready : (bootWorld v added block free live).Ready (t.withRegionVars v) := by
  obtain ⟨hv, hvlast, hlast⟩ := h.range
  refine ⟨⟨h.listed'.cachesOk ⟨h.objsCache, h.slab, h.vregion, rfl⟩, h.listed'.placed h.all_added,
    h.listed'.regionsOk h.none_free rfl, bootWorld_slabRegions hv (by omega),
    bootWorld_backed h.pages h.all_added h.set h.live h.blocks hvlast⟩,
    ⟨Nat.zero_le _, fun u _ f hf => (nomatch hf)⟩, ?_, ?_⟩
  · change 2 ≤ (bootWorld v added block free live).freeObjs (bootPlace v .cache Struct.slab.rank)
    rw [h.freeObjs (by decide)]
    decide
  · change 2 ≤ (bootWorld v added block free live).freeObjs (bootPlace v .cache Struct.vregion.rank)
    rw [h.freeObjs (by decide)]
    decide

theorem BootAssembled.inOrder :
    (bootKinds.map fun k => bootPlace v .vregion k.rank).IsChain t.heap.InOrder :=
  bootRegions_inOrder h.listed.booting.words (by have := h.range; omega)

theorem BootAssembled.checksUsed : Runs Shows E (fun _ t' => t' = t.withRegionVars v)
    (usedVregionsLoop listRounds (some (bootPlace v .vregion 0))) (t.withRegionVars v) := by
  have hbooting := h.listed'.booting
  have hused : ∀ x ∈ bootKinds.map fun k => bootPlace v .vregion k.rank,
      (t.withRegionVars v).heap.struct x = some .vregion := by
    intro x hx
    obtain ⟨k, hk, rfl⟩ := List.mem_map.mp hx
    exact (hbooting.struct _ .vregion).mpr ⟨k, hk, rfl⟩
  have hthree : (bootKinds.map fun k => bootPlace v .vregion k.rank).length < listRounds := by
    rw [List.length_map]
    decide
  have horder := h.inOrder
  exact (usedVregionsLoop_runs hbooting.next hused hthree).mono (fun _ hn => absurd horder hn)
    fun _ _ ht => ht.1

/-- The first free region has been made of an object of the cache of regions. -/
theorem BootAssembled.made {W₂ : World} {t₂ : View}
    (ho : HandedOut (bootWorld v added block free live) (t.withRegionVars v)
      (bootPlace v .cache 2) o
      W₂ t₂) (hf : FreeMade W₂ t₂ o ⟨v + 3, last + 1 - (v + 3)⟩ spare t')
    (hplace : o = bootPlace v .vregion 3) : BootMade v last spare free live W₂ t₂ o t' := by
  have hready := h.ready
  have hown := hready.sound.caches.own
  have hS : W₂.cacheSlab = bootPlace v .cache 1 := ho.grows.cacheSlab
  have hV : W₂.cacheVregion = bootPlace v .cache 2 := ho.grows.cacheVregion
  have hC : W₂.cacheObjsCache = bootPlace v .cache 0 := ho.grows.own .cache
  have hne₀ : bootPlace v .cache 0 ≠ bootPlace v .cache 2 := hown.apart.2.1
  have hmem₀ : bootPlace v .cache 0 ∈ (bootWorld v added block free live).caches := hown.mem .cache
  have hall : ∀ k ∈ bootKinds, ∀ s, s ∈ W₂.all (bootPlace v .cache k.rank) ↔
      s = bootPlace v .slab k.rank := by
    intro k hk s
    rw [ho.same.all, mem_bootWorld_all hk]
    exact and_iff_right (h.all_added hk)
  have hrecorded : (bootWorld v added block free live).Recorded (t.withRegionVars v) :=
    h.set.recorded h.all_added
  refine ⟨hf, hplace, ?_, ho.used, fun k hk => ?_, fun k hk => ?_, hall, fun k hk => ?_, ?_, ?_, ?_,
    ?_, ?_, ho.same.freeBlocks, ho.same.live, ?_⟩
  · exact hrecorded.same ho.same fun x => by rw [ho.rest]
  · rw [ho.extent, bootWorld_extent hk]
  · rw [ho.grows.own, bootWorld_homeOf hk]
  · rw [ho.same.region, bootWorld_region hk]
  · rw [ho.objs]
    · exact bootWorld_objs (k := .cache) (by decide)
    · intro hin
      obtain ⟨-, heq⟩ := (mem_bootWorld_all (k := .vregion) (by decide)).mp hin
      have hinj := bootPlace_inj (k := .slab) (by decide) (by decide) heq
      exact absurd hinj.2 (by decide)
  · rw [ho.slabs _ hne₀]
    exact (bootWorld_slabs (k := .cache) (by decide) _).trans
      (if_pos ⟨h.all_added (by decide), rfl⟩)
  · rw [hC, ho.others _ hmem₀ hne₀]
    exact h.freeObjs (k := .cache) (by decide)
  · rw [hS]
    exact (ho.others _ hready.sound.slab_mem hown.apart.2.2).trans
      (h.freeObjs (k := .slab) (by decide))
  · have hcount := ho.count.trans (h.freeObjs (k := .vregion) (by decide))
    rw [hV]
    exact Nat.succ.inj hcount
  · rw [hf.rest]
    change t₂.rest.bootVpn = _
    rw [ho.rest]
    exact h.bootVpn

end

theorem BootMade.left {W : World} {t₁ : View} (h : BootMade v last none free live W t₁ o t) :
    BootLeft v last free (W.withFree o ⟨v + 3, last + 1 - (v + 3)⟩) t := by
  have hf := h.made
  have hmem : ∀ k ∈ bootKinds, bootPlace v .vregion k.rank ∈ W.usedRegions := by
    intro k hk
    rw [h.used]
    exact List.mem_map_of_mem hk
  refine ⟨⟨hf.sound' rfl, ⟨Nat.le_refl 1, ?_⟩, h.slabObjs.ge.trans' (by decide),
    h.regionObjs.ge.trans' (by decide)⟩, fun c hc s hs i hi => ?_, ⟨o, rfl, W.withFree_extent o _⟩,
    h.used,
    fun k hk => ?_, h.caches, h.slabObjs, h.regionObjs, h.freeBlocks, h.bootVpn⟩
  · intro u hu f hf'
    have hu' : u = bootPlace v .vregion Struct.cache.rank := by
      change W.usedRegions.head? = some u at hu
      rw [h.used] at hu
      exact (Option.some.inj hu).symm
    have hu₁ : u ∈ W.usedRegions := hu' ▸ hmem .cache (by decide)
    rw [List.mem_singleton.mp hf', W.withFree_extent, hf.extent_used hu₁, hu',
      h.extents _ (by decide)]
    refine ⟨Nat.le_add_left _ _, ?_⟩
    rw [Extent.Below]
    simp only [Struct.rank]
    omega
  · rw [hf.rest]
    exact h.recorded c hc s hs i hi
  · rw [hf.extent_used (hmem k hk), h.extents k hk]

theorem BootAssembled.regionStart (h : BootAssembled v last spare added block free live t)
    (hd : 2 ≤ depth) :
    Runs Shows E (fun _ t' => ∃ W t₁ o, BootMade v last spare free live W t₁ o t')
      (virtualPageBootInit (depth + 1) (bootPlace v .cache 2) (bootPlace v .vregion 0)) t := by
  obtain ⟨hv, hvlast, hlast⟩ := h.range
  have hcache := h.listed.cache .vregion (by decide)
  have hready := h.ready
  have hslabs : (bootWorld v added block free live).freeObjs (bootPlace v .cache 1) = 201 :=
    h.freeObjs (k := .slab) (by decide)
  have hregions : (bootWorld v added block free live).freeObjs (bootPlace v .cache 2) = 338 :=
    h.freeObjs (k := .vregion) (by decide)
  unfold virtualPageBootInit
  refine .readWord .freeObjsCount hcache.lists.cache (.passes ?_ ?_)
  · have hcount : t.heap.word .freeObjsCount (bootPlace v .cache 2) = 338 :=
      hcache.freeCount.trans (bootWorld_freeObjs (k := .vregion) (by decide)
      (h.all_added (by decide)))
    rw [hcount]
    decide
  have hvar : ∀ k, Shows k t → Shows { k with vpagesCacheVregion := some (bootPlace v .cache 2) }
      { t with rest := { t.rest with vpagesCacheVregion := some (bootPlace v .cache 2) } } :=
    fun k hk => ⟨hk.models, by rw [← hk.rest]; rfl⟩
  refine .modify hvar ?_
  refine .write (writes_usedVregions _ _) ?_
  change Runs Shows E _ _ (t.withRegionVars v)
  refine .bind h.checksUsed ?_
  rintro - _ rfl
  refine .bind (hready.takesAmple ⟨?_, ?_⟩ hd hready.sound.vregion_mem ?_) ?_
  · exact hslabs.ge.trans' (by decide)
  · exact hregions.ge.trans' (by decide)
  · exact hregions.ge.trans' (by decide)
  rintro o t₂ ⟨W₂, ho⟩
  refine .write (writes_freeVregions _ _) (.get fun k hk => ?_)
  have hbootVpn : k.bootVpn = ⟨v + 3, last⟩ := by
    rw [hk.bootVpn, ho.rest]
    exact h.bootVpn
  have hlen : add32 (sub32 last (v + 3)) 1 = last + 1 - (v + 3) := by
    rw [add32, sub32]
    omega
  rw [hbootVpn]
  simp only [hlen]
  have hplace : o = bootPlace v .vregion 3 := by
    obtain ⟨s, hs, os, hos⟩ := ho.head
    obtain ⟨-, rfl⟩ := (mem_bootWorld_all (k := .vregion) (by decide)).mp hs
    rw [bootWorld_objs (k := .vregion) (by decide)] at hos
    exact (List.cons.inj hos).1.symm
  have hlastPtr : t₂.heap.ptr .vregionNext o = spare := by
    rw [ho.next, hplace]
    exact h.listed'.booting.spare_eq
  have hout : W₂.Out t₂.heap W₂.cacheVregion o := by
    have hV : W₂.cacheVregion = bootPlace v .cache 2 := ho.grows.cacheVregion
    rw [hV]
    exact ho.out
  refine (ho.sound.makesFree (e := ⟨v + 3, last + 1 - (v + 3)⟩) ho.free hout hlastPtr h.spare_ne
    ⟨by simp only; omega, by simp only; omega⟩ ?_ ?_).imp ?_
  · intro u hu
    rw [ho.used] at hu
    obtain ⟨k, hk, rfl⟩ := List.mem_map.mp hu
    have hrank := rank_lt hk
    rw [ho.extent, bootWorld_extent hk, Extent.apart_iff]
    simp only
    omega
  · intro w hw
    rw [Extent.mem_mk] at hw
    rw [ho.rest]
    exact h.pages.present w (by omega) (by omega)
  · rintro - t' hf
    exact ⟨W₂, t₂, o, h.made ho hf hplace⟩

end Atros
