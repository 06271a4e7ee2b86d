import Atros.SlabSystem

namespace Atros
set_option autoImplicit true

variable {W W' W₁ : World} {H H' : Heap} {t t' t₁ : View} {E : Panic → Prop}

/-! ### Operations that create no slab -/

/-- The same caches and slabs, which may have other free objects. -/
structure World.SameSlabs (W W' : World) : Prop where
  own : ∀ k, W'.homeOf k = W.homeOf k
  caches : W'.caches = W.caches
  size : W'.size = W.size
  pages : W'.pages = W.pages
  region : W'.region = W.region
  block : W'.block = W.block
  owner : W'.owner = W.owner
  freeBlocks : W'.freeBlocks = W.freeBlocks
  live : W'.live = W.live
  all : ∀ c s, s ∈ W'.all c ↔ s ∈ W.all c

theorem World.SameSlabs.per (h : W.SameSlabs W') (c : Nat) : W'.per c = W.per c := by
  rw [World.per, World.per, h.size, h.pages]

theorem World.OwnCaches.same (h : W.OwnCaches k) (hW : W.SameSlabs W') : W'.OwnCaches k where
  objsCacheVar := h.objsCacheVar.trans (congrArg some (hW.own .cache).symm)
  slabVar := h.slabVar.trans (congrArg some (hW.own .slab).symm)
  vregionVar := h.vregionVar.trans (congrArg some (hW.own .vregion).symm)
  vpagesVar := h.vpagesVar.trans (congrArg some (hW.own .vregion).symm)
  mem k := by
    rw [hW.own, hW.caches]
    exact h.mem k
  apart := by
    have hcache : W'.cacheObjsCache = W.cacheObjsCache := hW.own .cache
    have hslab : W'.cacheSlab = W.cacheSlab := hW.own .slab
    have hvregion : W'.cacheVregion = W.cacheVregion := hW.own .vregion
    rw [hcache, hslab, hvregion]
    exact h.apart
  size k hk := by
    rw [hW.own, hW.size]
    exact h.size k hk
  pages k := by
    rw [hW.own, hW.pages]
    exact h.pages k

theorem World.CacheOk.owned_apart (h : W.CacheOk H c) (h' : W.CacheOk H c') (hne : c ≠ c')
    (ha : W.Owned c k a) : ¬W.Owned c' k a := by
  have hslab : ∀ s ∈ W.all c, s ∉ W.all c' := fun s hs hs' =>
    hne ((h.slabOk hs).owner.symm.trans (h'.slabOk hs').owner)
  intro ha'
  cases k with
  | cache => exact hne (ha.symm.trans ha')
  | slab => exact hslab a ha ha'
  | object =>
    obtain ⟨s, hs, ho⟩ := ha
    obtain ⟨s', hs', ho'⟩ := ha'
    have hslot := ((h.slabOk hs).obj a ho).2.symm.trans ((h'.slabOk hs').obj a ho').2
    have hss : s = s' := congrArg Slot.slab (Option.some.inj hslot)
    exact hslab s hs (hss ▸ hs')
  | vregion => exact ha

theorem World.CachesOk.step {F : Struct → Nat → Prop} (h : W.CachesOk t) (hW : W.SameSlabs W')
    (hc : W'.CacheOk t'.heap c) (hslabs : ∀ c', c' ≠ c → W'.slabs c' = W.slabs c')
    (hobjs : ∀ s ∉ W.all c, W'.objs s = W.objs s) (hcmem : c ∈ W.caches)
    (hchanges : t.heap.ChangesOnly F t'.heap)
    (hoff : ∀ c' ∈ W.caches, c' ≠ c → ∀ k a, W.Owned c' k a → ¬F k a)
    (hlinks : t.heap.SameLinks t'.heap) (hown : W.OwnCaches t'.rest)
    (hclist : t'.rest.cachesClist = t.rest.cachesClist) : W'.CachesOk t' := by
  refine ⟨hown.same hW, ?_, fun c' hc' => ?_⟩
  · rw [hclist, hW.caches]
    exact h.ring.transport (fun x _ => congrFun hlinks.next x) fun x _ => congrFun hlinks.prev x
  · rw [hW.caches] at hc'
    by_cases hcc : c' = c
    · rw [hcc]
      exact hc
    · have hcache := h.cache c' hc'
      refine hcache.congr ⟨hslabs c' hcc, by rw [hW.size], by rw [hW.pages], fun s hs => ?_⟩
        hchanges (hoff c' hc' hcc)
      have hs' : s ∉ W.all c := by
        intro hin
        exact hcache.owned_apart (h.cache c hcmem) hcc (k := .slab) hs hin
      exact ⟨hobjs s hs', by rw [hW.region], by rw [hW.owner]⟩

theorem World.SameSlabs.places (hW : W.SameSlabs W')
    (hext : W'.extent (W.region s) = W.extent (W.region s)) : W'.places c s = W.places c s := by
  rw [World.places, World.places, hW.region, hext, hW.size, hW.per]

theorem World.Placed.step (h : W.Placed H) (hW : W.SameSlabs W')
    (hext : ∀ c ∈ W.caches, ∀ s ∈ W.all c, W'.extent (W.region s) = W.extent (W.region s))
    (hslot : H'.slot = H.slot)
    (hstruct : ∀ a k, k ≠ .object → H'.struct a = some k → H.struct a = some k ∨
      ∃ s ∈ W.all (W.homeOf k), H.slot a = some ⟨s, W.size (W.homeOf k)⟩) : W'.Placed H' := by
  refine ⟨fun a u => ?_, fun a k hk ha => ?_⟩
  · rw [hslot, h.slot, hW.caches, hW.size]
    constructor
    · rintro ⟨c, hc, s, hs, hu, ha⟩
      exact ⟨c, hc, s, (hW.all c s).mpr hs, hu, by rw [hW.places (hext c hc s hs)]; exact ha⟩
    · rintro ⟨c, hc, s, hs, hu, ha⟩
      rw [hW.all] at hs
      exact ⟨c, hc, s, hs, hu, by rw [← hW.places (hext c hc s hs)]; exact ha⟩
  · rw [hslot, hW.own, hW.size]
    have hhome : ∃ s ∈ W.all (W.homeOf k), H.slot a = some ⟨s, W.size (W.homeOf k)⟩ := by
      rcases hstruct a k hk ha with hold | hnew
      · exact h.home a k hk hold
      · exact hnew
    obtain ⟨s, hs, hu⟩ := hhome
    exact ⟨s, (hW.all _ s).mpr hs, hu⟩

theorem World.Backed.step {k k' : Kernel} (h : W.Backed k) (hW : W.SameSlabs W')
    (hpaging : k'.paging = k.paging) (hphys : k'.phys = k.phys)
    (hext : ∀ c ∈ W.caches, ∀ s ∈ W.all c, W'.extent (W.region s) = W.extent (W.region s))
    (hcover : ∀ v, Covers (W'.freeRegions ++ W'.usedRegions) W'.extent v →
      Covers (W.freeRegions ++ W.usedRegions) W.extent v) : W'.Backed k' := by
  refine ⟨?_, ?_, ?_, ?_, ?_, ?_, ?_⟩
  · rw [hpaging]
    exact h.tables
  · intro r hr v hv
    obtain ⟨r', hr', hv'⟩ := hcover v ⟨r, hr, hv⟩
    rw [hpaging]
    exact h.present r' hr' v hv'
  · rw [hphys]
    exact h.lastPpn_lt
  · rw [hphys, hW.freeBlocks, hW.live]
    exact h.phys
  · intro c hc s hs
    rw [hW.caches] at hc
    rw [hW.all] at hs
    rw [hW.block, hW.live, hW.pages]
    exact h.block c hc s hs
  · intro c hc c' hc' s hs s' hs' heq
    rw [hW.caches] at hc hc'
    rw [hW.all] at hs hs'
    rw [hW.block] at heq
    exact h.inj c hc c' hc' s hs s' hs' heq
  · intro c hc s hs i hi o ho
    rw [hW.caches] at hc
    rw [hW.all] at hs
    rw [hW.pages] at hi
    rw [hpaging, hW.region, hW.block, hext c hc s hs]
    exact h.mapped c hc s hs i hi o ho

/-! ### An object of a cache -/

/-- The object `o` of the cache `c` has been handed out, and nothing else has happened. -/
structure HandedOut (W : World) (t : View) (c o : Nat) (W' : World) (t' : View) : Prop where
  sound : W'.Sound t'
  grows : W.Grows t W' t'
  out : W'.Out t'.heap c o
  fresh : t.heap.struct o = some .object
  count : W'.freeObjs c + 1 = W.freeObjs c
  others : ∀ c' ∈ W.caches, c' ≠ c → W'.freeObjs c' = W.freeObjs c'
  same : W.SameSlabs W'
  free : W'.freeRegions = W.freeRegions
  used : W'.usedRegions = W.usedRegions
  extent : W'.extent = W.extent
  rest : t'.rest = t.rest
  head : ∃ s ∈ W.all c, ∃ os, W.objs s = o :: os
  objs : ∀ s, s ∉ W.all c → W'.objs s = W.objs s
  slabs : ∀ c', c' ≠ c → W'.slabs c' = W.slabs c'
  next : t'.heap.ptr .vregionNext = t.heap.ptr .vregionNext

theorem World.Sound.handedOut (h : W.Sound t) (hc : c ∈ W.caches)
    (hret : Retrieved W t.heap c o W' t'.heap) (hrest : t'.rest = t.rest) :
    HandedOut W t c o W' t' := by
  have hcache := h.caches.cache c hc
  obtain ⟨s₀, os, L, rfl, hs₀, ho, hperm⟩ := hret.world
  have hall : ∀ c' s, s ∈ World.all { W with
      slabs := Function.update W.slabs c L, objs := Function.update W.objs s₀ os } c' ↔
      s ∈ W.all c' := by
    intro c' s
    simp only [World.all]
    by_cases hcc : c' = c
    · rw [hcc, Function.update_self]
      exact hperm.mem_iff
    · rw [Function.update_of_ne hcc]
  have hsame : W.SameSlabs { W with
      slabs := Function.update W.slabs c L, objs := Function.update W.objs s₀ os } :=
    ⟨fun _ => rfl, rfl, rfl, rfl, rfl, rfl, rfl, rfl, rfl, hall⟩
  have hstruct : ∀ a k, t'.heap.struct a = some k → t.heap.struct a = some k := by
    intro a k ha
    rw [hret.struct, Function.update_apply] at ha
    split at ha
    · cases ha
    · exact ha
  have hkept : ∀ a k, k ≠ .object → t.heap.struct a = some k → t'.heap.struct a = some k := by
    intro a k hk ha
    rw [hret.struct, Function.update_of_ne, ha]
    rintro rfl
    rw [hret.obj] at ha
    exact hk (Option.some.inj ha).symm
  have hobjs : ∀ s ∉ W.all c, Function.update W.objs s₀ os s = W.objs s := by
    intro s hs
    refine Function.update_of_ne ?_ _ _
    rintro rfl
    exact hs hs₀
  have hregion : ∀ f a, f.struct = .vregion → t'.heap.word f a = t.heap.word f a := by
    intro f a hf
    refine hret.changes.word f a ?_
    rw [hf]
    exact id
  have hregions : t.KeepsRegions t' := by
    refine ⟨fun l => ?_, fun a => hkept a .vregion (by decide), hregion,
      fun a => hret.changes.ptr .vregionNext a id⟩
    unfold RegionList.head
    rw [hrest]
  refine ⟨⟨?_, ?_, ?_, ?_, ?_⟩, ?_, ?_, hret.obj, ?_, ?_, hsame, rfl, rfl, rfl, hrest,
    ⟨s₀, hs₀, os, ho⟩, hobjs, fun c' hc' => Function.update_of_ne hc' _ _,
    funext fun a => hret.changes.ptr .vregionNext a id⟩
  · refine h.caches.step hsame hret.cache (fun c' hc' => Function.update_of_ne hc' _ _) hobjs hc
      hret.changes ?_ hret.links (by rw [hrest]; exact h.caches.own) (by rw [hrest])
    exact fun c' hc' hne k a ha => (h.caches.cache c' hc').owned_apart hcache hne ha
  · exact h.placed.step hsame (fun _ _ _ _ => rfl) hret.slots fun a k _ ha => .inl (hstruct a k ha)
  · exact h.regions.kept hregions rfl rfl rfl
  · refine ⟨h.slabRegions.apart, h.slabRegions.range, ?_, ?_⟩
    · exact fun c' hc' s hs => h.slabRegions.region c' hc' s ((hall c' s).mp hs)
    · exact fun c₁ h₁ c₂ h₂ s hs s' hs' => h.slabRegions.inj c₁ h₁ c₂ h₂ s ((hall c₁ s).mp hs) s'
        ((hall c₂ s').mp hs')
  · exact h.backed.step hsame (by rw [hrest]) (by rw [hrest]) (fun _ _ _ _ => rfl) fun _ hv => hv
  · refine ⟨fun _ => rfl, fun _ hc => hc, fun _ _ => ⟨rfl, rfl⟩, ?_, fun _ hr => ⟨hr, rfl⟩,
      fun _ => Iff.rfl, ?_, ?_, hkept, fun _ hx => hx, fun _ hb => .inl hb, ?_⟩
    · exact fun c' _ s hs => ⟨(hall c' s).mpr hs, rfl, rfl⟩
    · intro a u hu
      rw [hret.slots]
      exact hu
    · intro a _ ha
      rw [hret.struct, Function.update_apply]
      split
      · rfl
      · exact ha
    · intro _ _ _ _ _ _
      rw [hrest]
  · obtain ⟨s, hs, hslot⟩ := hret.slot
    refine ⟨?_, s, (hall c s).mpr hs, ?_⟩
    · rw [hret.struct]
      exact Function.update_self ..
    · rw [hret.slots]
      exact hslot
  · have hcount := hret.count
    rwa [hret.cache.freeCount, hcache.freeCount] at hcount
  · intro c' hc' hne
    have hcache' := h.caches.cache c' hc'
    refine World.SameCache.freeObjs ⟨Function.update_of_ne hne _ _, rfl, rfl, fun s hs => ?_⟩
    refine ⟨hobjs s fun hin => ?_, rfl, rfl⟩
    exact hcache'.owned_apart hcache hne (k := .slab) hs hin

theorem World.Sound.retrieve (h : W.Sound t) (hc : c ∈ W.caches) :
    Runs Shows E (fun r t' => r = none ∧ t' = t ∧ W.freeObjs c = 0 ∨
      ∃ o W', r = some o ∧ HandedOut W t c o W' t') (retrieveFreeObjFromObjsCache c) t := by
  refine (retrieve_runs (h.caches.cache c hc)).imp ?_
  rintro r t' (hnone | ⟨o, rfl, hrest, W', hret⟩)
  · exact .inl hnone
  · exact .inr ⟨o, W', rfl, h.handedOut hc hret hrest⟩

end Atros
