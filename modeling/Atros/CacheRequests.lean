import Atros.RegionAnswers

namespace Atros
set_option autoImplicit true

variable {W W' : World} {t t' : View} {k k' k₁ : Kernel} {objSize pages : Nat}
  {name : Option (List UInt8)}

/-! ### Which parameters `objs_cache_create` can serve -/

/-- The slab allocator has its reserves, as in every state after boot. -/
def Kernel.Ready (k : Kernel) : Prop := ∃ (W : World) (t : View), Shows k t ∧ W.Ready t

/-- The caches on the list of caches, in memory. -/
def Kernel.CachesRing (k : Kernel) (cs : List Nat) : Prop :=
  Links.Ring ⟨k.ptrOf .cacheNext, k.ptrOf .cachePrev⟩ k.cachesClist cs

/-- The cache `c` is new, empty and linked once, and its slabs are used to the last byte that an
object fits into. -/
structure Kernel.NewCache (k k' : Kernel) (c objSize pages : Nat) : Prop where
  linked : ∃ cs cs', k.CachesRing cs ∧ k'.CachesRing (cs' ++ [c]) ∧ c ∉ cs ∧ cs ⊆ cs'
  no_slab : ∀ st, k'.ptrOf (.statusList st) c = none ∧ k'.wordOf (.statusCount st) c = 0
  no_object : k'.wordOf .slabsCount c = 0 ∧ k'.wordOf .freeObjsCount c = 0 ∧
    k'.wordOf .usedObjsCount c = 0
  large : max objSize sizeofPointer ≤ k'.wordOf .actualObjSize c
  holds : 1 ≤ k'.wordOf .objsPerSlab c
  exact : k'.wordOf .objsPerSlab c * k'.wordOf .actualObjSize c +
    k'.wordOf .wastedMemoryPerSlab c = pages * vpageSize
  wasted : k'.wordOf .wastedMemoryPerSlab c < k'.wordOf .actualObjSize c

/-- `objs_cache_create` returns a null pointer and changes nothing, or makes a cache. -/
def Kernel.Serves (k : Kernel) (depth : Nat) (name : Option (List UInt8)) (objSize pages : Nat) :
    Prop :=
  ∃ x k', objsCacheCreate depth name objSize pages k = .ok (x, k') ∧
    match x with
    | none => k' = k
    | some c => k.NewCache k' c objSize pages

/-- An object of the cache of caches can be allocated. -/
def Kernel.GivesCache (k : Kernel) (depth : Nat) : Prop :=
  ∃ c o k₁, k.cacheObjsCache = some c ∧ objsCacheAlloc depth c k = .ok (o, k₁)

theorem Shows.cachesRing {cs : List Nat} (hk : Shows k t)
    (hring : t.heap.cacheLinks.Ring t.rest.cachesClist cs)
    (hcache : ∀ c ∈ cs, t.heap.struct c = some .cache) : k.CachesRing cs := by
  rw [Kernel.CachesRing, hk.cachesClist]
  exact hring.transport (fun c hc => hk.ptrOf .cacheNext (hcache c hc)) fun c hc =>
    hk.ptrOf .cachePrev (hcache c hc)

theorem World.CachesOk.cachesRing (hk : Shows k t) (h : W.CachesOk t) : k.CachesRing W.caches :=
  hk.cachesRing h.ring fun c hc => (h.cache c hc).lists.cache

theorem slab_division {size z : Nat} (hz : 0 < z) (hsize : size < 2 ^ 32) (hfits : z ≤ size) :
    1 ≤ size / z ∧ size / z * z + sub32 size (mul32 (size / z) z) = size ∧
      sub32 size (mul32 (size / z) z) < z := by
  have hle : size / z * z ≤ size := Nat.div_mul_le_self _ _
  have hmod := Nat.mod_lt size hz
  have hdiv := Nat.div_add_mod' size z
  rw [mul32_of_lt (by omega), sub32_of_le hle hsize]
  exact ⟨Nat.div_pos hfits hz, by omega, by omega⟩

theorem CacheAdded.newCache {W₀ W₁ : World} {t₀ t₁ : View} (h : CacheAdded W₁ t₁ c objSize pages t')
    (hk : Shows k t₀) (hs : W₀.Sound t₀) (hg : W₀.Grows t₀ W₁ t₁) (hk' : Shows k' t')
    (hpages : pages < 2 ^ 20) : k.NewCache k' c objSize pages := by
  have hempty := h.made.empty
  have hring := h.sound'.caches.cachesRing hk'
  have hword : ∀ f : WordField, f.struct = .cache → k'.wordOf f c = t'.heap.word f c :=
    fun f hf => hk'.wordOf f (hempty.struct.trans (congrArg some hf.symm))
  have hsize : mul32 pages vpageSize = pages * vpageSize :=
    mul32_of_lt (by rw [vpageSize, vpageShift, Nat.one_shiftLeft]; omega)
  have hpos : 0 < max objSize sizeofPointer := Nat.lt_of_lt_of_le (by decide) (le_max_right _ _)
  obtain ⟨hper, hexact, hwasted⟩ := slab_division hpos (mul32_lt pages vpageSize) h.fits
  refine ⟨⟨W₀.caches, W₁.caches, hs.caches.cachesRing hk, hring, fun hc => h.new (hg.caches c hc),
    hg.caches⟩, fun st => ⟨?_, ?_⟩, ⟨?_, ?_, ?_⟩, ?_, ?_, ?_, ?_⟩
  · rw [hk'.ptrOf (.statusList st) hempty.struct, hempty.statusList]
  · rw [hword _ rfl, hempty.statusCount]
  · rw [hword _ rfl, hempty.slabsCount]
  · rw [hword _ rfl, hempty.freeCount]
  · rw [hword _ rfl, hempty.usedCount]
  · rw [hword _ rfl, hempty.actualObjSize]
  · rw [hword _ rfl, hempty.objsPerSlab]
    exact hper
  · rw [hword _ rfl, hword _ rfl, hword _ rfl, hempty.objsPerSlab, hempty.actualObjSize,
      hempty.wasted, ← hsize]
    exact hexact
  · rw [hword _ rfl, hword _ rfl, hempty.actualObjSize, hempty.wasted]
    exact hwasted

theorem objsCacheCreate_refuses (h : mul32 pages vpageSize < max objSize sizeofPointer)
    (k : Kernel) : objsCacheCreate depth name objSize pages k = .ok (none, k) := by
  rw [objsCacheCreate, if_neg (Nat.not_le.mpr h)]
  rfl

theorem objsCacheCreate_fits {o : Nat} (h : max objSize sizeofPointer ≤ mul32 pages vpageSize)
    (hc : k.cacheObjsCache = some c) (halloc : objsCacheAlloc depth c k = .ok (o, k₁)) :
    objsCacheCreate depth name objSize pages k = (do
      objsCacheInit o name objSize pages
      return some o) k₁ := by
  have hcache : cacheOf Kernel.cacheObjsCache k = .ok (c, k) := by
    unfold cacheOf
    rw [bind_get, hc]
    rfl
  rw [objsCacheCreate, if_pos h, bind_ok hcache, bind_ok halloc]

theorem objsCacheCreate_zero (h : sizeofPointer ≤ mul32 pages vpageSize)
    (halloc : k.GivesCache depth) : objsCacheCreate depth name 0 pages k = .error .objSizeZero := by
  obtain ⟨c, o, k₁, hc, halloc⟩ := halloc
  rw [objsCacheCreate_fits (by rwa [Nat.zero_max]) hc halloc]
  refine bind_error ?_
  unfold objsCacheInit
  exact bind_error (check_error (Nat.lt_irrefl 0))

theorem Kernel.Ready.creates (name : Option (List UInt8)) (h : k.Ready) (hd : 5 ≤ depth)
    (hobj : 0 < objSize) (hlt : objSize < 2 ^ 32) (hpages : pages < 2 ^ 32)
    (hfits : max objSize sizeofPointer ≤ mul32 pages vpageSize) (halloc : k.GivesCache depth) :
    ∃ c k', objsCacheCreate depth name objSize pages k = .ok (some c, k') ∧
      ∃ W t W₁ t₁ t', Shows k t ∧ World.Sound W t ∧ W.Grows t W₁ t₁ ∧ Shows k' t' ∧
        CacheAdded W₁ t₁ c objSize pages t' := by
  obtain ⟨W, t, hk, hready⟩ := h
  obtain ⟨c, o, k₁, hc, halloc⟩ := halloc
  have hown := hready.sound.caches.own
  obtain rfl : c = W.cacheObjsCache :=
    Option.some.inj ((hc.symm.trans hk.cacheObjsCache).trans hown.objsCacheVar)
  have hruns := hready.objsCacheAlloc (E := fun _ => True) (.inl fun _ _ => trivial) hd
    (hown.mem .cache) fun heq => absurd heq hown.apart.1
  obtain ⟨t₁, hk₁, W₁, ha⟩ := (hruns k hk).ok halloc
  have hout : W₁.Out t₁.heap W₁.cacheObjsCache o := by
    rw [show W₁.cacheObjsCache = W.cacheObjsCache from ha.grows.own .cache]
    exact ha.out
  obtain ⟨⟨⟩, k', hinit, t', hk', hadded⟩ :=
    (ha.ready.sound.objsCacheInit (E := fun _ => False) hout
    hobj hlt hpages hfits name k₁ hk₁).returns
  refine ⟨o, k', ?_, W, t, W₁, t₁, t', hk, hready.sound, ha.grows, hk', hadded⟩
  rw [objsCacheCreate_fits hfits hc halloc, bind_ok hinit]
  rfl

/-- `objs_cache_create` refuses or serves its parameters exactly when the guard refuses them, or the
size is positive and the slab does not go beyond the 32-bit sizes. -/
theorem objsCacheCreate_serves_iff (h : k.Ready) (hd : 5 ≤ depth) (hlt : objSize < 2 ^ 32)
    (hpages : pages < 2 ^ 32) (halloc : k.GivesCache depth) :
    k.Serves depth name objSize pages ↔
      mul32 pages vpageSize < max objSize sizeofPointer ∨ 1 ≤ objSize ∧ pages < 2 ^ 20 := by
  by_cases hfits : max objSize sizeofPointer ≤ mul32 pages vpageSize
  swap
  · have hrefused := Nat.not_le.mp hfits
    exact iff_of_true ⟨none, k, objsCacheCreate_refuses hrefused k, rfl⟩ (.inl hrefused)
  rw [or_iff_right (Nat.not_lt.mpr hfits)]
  rcases Nat.eq_zero_or_pos objSize with rfl | hobj
  · refine iff_of_false ?_ fun hc => absurd hc.1 (by decide)
    rintro ⟨x, k', hrun, -⟩
    rw [objsCacheCreate_zero ((le_max_right _ _).trans hfits) halloc] at hrun
    exact nomatch hrun
  rw [and_iff_right (Nat.succ_le_of_lt hobj)]
  obtain ⟨c, k', hrun, W, t, W₁, t₁, t', hk, hs, hg, hk', hadded⟩ :=
    h.creates name hd hobj hlt hpages hfits halloc
  constructor
  · rintro ⟨x, k'', hrun', hx⟩
    obtain ⟨rfl, rfl⟩ := Prod.mk.inj (Except.ok.inj (hrun.symm.trans hrun'))
    by_contra hlarge
    have hempty := hadded.made.empty
    have hword : ∀ f : WordField, f.struct = .cache → k'.wordOf f c = t'.heap.word f c :=
      fun f hf => hk'.wordOf f (hempty.struct.trans (congrArg some hf.symm))
    have hpos : 0 < max objSize sizeofPointer := Nat.lt_of_lt_of_le hobj (le_max_left _ _)
    have hexact := hx.exact
    rw [hword _ rfl, hword _ rfl, hword _ rfl, hempty.objsPerSlab, hempty.actualObjSize,
      hempty.wasted, (slab_division hpos (mul32_lt pages vpageSize) hfits).2.1] at hexact
    have hsize := mul32_lt pages vpageSize
    rw [hexact, vpageSize, vpageShift, Nat.one_shiftLeft] at hsize
    omega
  · intro hsmall
    exact ⟨some c, k', hrun, hadded.newCache hk hs hg hk' hsmall⟩

theorem slabKernel_givesCache : ∃ k : Kernel, k.Ready ∧ k.GivesCache 5 := by
  obtain ⟨-, -, k, -, -, -, W, t, blocks, hk, hleft, -⟩ := slabKernel_booted (le_refl 2)
  have hown := hleft.ready.sound.caches.own
  have hample : W.Ample := by
    rw [World.Ample, hleft.slabs, hleft.regions]
    decide
  have hpos : 0 < W.freeObjs W.cacheObjsCache := by
    rw [hleft.caches]
    decide
  have htakes : Runs Shows (fun _ => False) (fun _ _ => True)
      (objsCacheAlloc 5 W.cacheObjsCache) t :=
    (hleft.ready.takesAmple hample (by decide) (hown.mem .cache) hpos).imp fun _ _ _ => trivial
  obtain ⟨o, k₁, hrun, -⟩ := (htakes k hk).returns
  exact ⟨k, ⟨W, t, hk, hleft.ready⟩, W.cacheObjsCache, o, k₁,
    hk.cacheObjsCache.trans hown.objsCacheVar, hrun⟩

/-- A size of zero passes the guard and fails an assertion. -/
theorem objsCacheCreate_not_serves : ¬∀ (k : Kernel) depth name objSize pages, k.Ready → 5 ≤ depth →
    objSize < 2 ^ 32 → pages < 2 ^ 32 → k.GivesCache depth → k.Serves depth name objSize pages := by
  intro hclaim
  obtain ⟨k, hready, hgives⟩ := slabKernel_givesCache
  obtain ⟨x, k', hrun, -⟩ := hclaim k 5 none 0 1 hready (le_refl 5) (by decide) (by decide) hgives
  rw [objsCacheCreate_zero (by decide) hgives] at hrun
  exact nomatch hrun

theorem objsCacheCreate_serves_iff_slabKernel : ∃ k : Kernel, k.GivesCache 5 ∧
    (k.Serves 5 none 16 1 ↔ mul32 1 vpageSize < max 16 sizeofPointer ∨ 1 ≤ 16 ∧ 1 < 2 ^ 20) := by
  obtain ⟨k, hready, hgives⟩ := slabKernel_givesCache
  exact ⟨k, hgives, objsCacheCreate_serves_iff hready (le_refl 5) (by decide) (by decide) hgives⟩

end Atros
