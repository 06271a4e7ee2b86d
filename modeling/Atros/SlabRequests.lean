import Atros.SlabService

namespace Atros
set_option autoImplicit true

variable {W W' W₁ W₂ : World} {t t' t₁ t₂ : View} {E : Panic → Prop} {Q : α → View → Prop}

/-! ### Requests to a system that keeps its reserves -/

/-- A sound state with one region free at most, in which both reserves are there. -/
structure World.Ready (W : World) (t : View) : Prop where
  sound : W.Sound t
  bottom : W.Bottom
  slabs : 2 ≤ W.freeObjs W.cacheSlab
  regions : 2 ≤ W.freeObjs W.cacheVregion

/-- Both caches have more than their reserve, so that no request refills one. -/
def World.Ample (W : World) : Prop :=
  3 ≤ W.freeObjs W.cacheSlab ∧ 3 ≤ W.freeObjs W.cacheVregion

/-- Nothing has happened when `ample` holds, and a cache was refilled when it does not. -/
def KeptOrRestocked (ample : Prop) (W : World) (t : View) (W' : World) (t' : View) : Prop :=
  W' = W ∧ t' = t ∧ ample ∨ Restocked W t W' t' ∧ ¬ample

theorem KeptOrRestocked.sound (h : KeptOrRestocked p W t W' t') (hs : W.Sound t) : W'.Sound t' := by
  rcases h with ⟨rfl, rfl, -⟩ | ⟨hr, -⟩
  · exact hs
  · exact hr.sound

theorem KeptOrRestocked.grows (h : KeptOrRestocked p W t W' t') : W.Grows t W' t' := by
  rcases h with ⟨rfl, rfl, -⟩ | ⟨hr, -⟩
  · exact .refl _ _
  · exact hr.grows

theorem KeptOrRestocked.bottom (h : KeptOrRestocked p W t W' t') (hb : W.Bottom) : W'.Bottom := by
  rcases h with ⟨rfl, rfl, -⟩ | ⟨hr, -⟩
  · exact hb
  · exact hr.bottom hb

theorem KeptOrRestocked.ready (h : KeptOrRestocked p W t W' t') (hW : W.Ready t)
    (hslabs : 2 ≤ W'.freeObjs W.cacheSlab) (hregions : 2 ≤ W'.freeObjs W.cacheVregion) :
    W'.Ready t' := by
  refine ⟨h.sound hW.sound, h.bottom hW.bottom, ?_, ?_⟩
  · rw [h.grows.cacheSlab]
    exact hslabs
  · rw [h.grows.cacheVregion]
    exact hregions

theorem KeptOrRestocked.others (h : KeptOrRestocked p W t W' t') (hc : c ∈ W.caches)
    (hs : c ≠ W.cacheSlab) (hv : c ≠ W.cacheVregion) : W'.freeObjs c = W.freeObjs c := by
  rcases h with ⟨rfl, rfl, -⟩ | ⟨hr, -⟩
  · rfl
  · exact hr.others c hc hs hv

/-- After the tests of both reserves. -/
structure Reserved (W : World) (t : View) (W' : World) (t' : View) : Prop where
  case : KeptOrRestocked W.Ample W t W' t'
  slabs : 2 ≤ W'.freeObjs W.cacheSlab
  regions : 3 ≤ W'.freeObjs W.cacheVregion
  both : 3 ≤ W.freeObjs W.cacheVregion → 3 ≤ W'.freeObjs W.cacheSlab
  spends : W.Spends 4 W'

/-- After the test of the reserve of regions only. -/
structure RegionReserved (W : World) (t : View) (W' : World) (t' : View) : Prop where
  case : KeptOrRestocked (3 ≤ W.freeObjs W.cacheVregion) W t W' t'
  slabs : 2 ≤ W'.freeObjs W.cacheSlab
  regions : 3 ≤ W'.freeObjs W.cacheVregion
  spends : W.Spends 2 W'

theorem World.Ready.allows (h : W.Ready t) (hE : W.Pages E m n) (hp : p) : W.Allows E m n p :=
  .inr ⟨hE, h.bottom, hp⟩

section
variable (h : W.Ready t)
include h

theorem World.Ready.reserveVregion (hE : W.freeObjs W.cacheVregion = 2 → W.Pages E m 2)
    (hd : 2 ≤ depth) {x : Prog Panic Kernel α}
    (hkeep : W.freeObjs W.cacheVregion ≠ 2 → Runs Shows E Q x t)
    (hfill : ∀ W₁ t₁, Restocked W t W₁ t₁ → W.RestockedVregion W₁ → W.Spends 2 W₁ →
      W.freeObjs W.cacheVregion = 2 → Runs Shows E Q x t₁) :
    Runs Shows E Q (do
      if (← (freeObjsCountOf W.cacheVregion).read) = minFreeObjsCacheVregion then
        createSlabForCacheVregion depth
      x) t := by
  have hVm : W.cacheVregion ∈ W.caches := h.sound.vregion_mem
  refine h.sound.readFree hVm (.ite (fun hlow => ?_) fun hlow => hkeep hlow)
  have hserves : W.ServesVregion 2 := ⟨Nat.le_of_succ_le h.regions, h.slabs, .inl (le_refl 2)⟩
  refine .bind ((refills_runs hd).1 W t h.sound (h.allows (hE hlow) hserves)) ?_
  rintro - t₁ ⟨W₁, hr, hleft, hspent⟩
  exact hfill W₁ t₁ hr hleft (hspent hserves) hlow

theorem World.Ready.reserves (hE : ¬W.Ample → W.Pages E m 4) (hd : 2 ≤ depth)
    {x : Prog Panic Kernel α} (hx : ∀ W₁ t₁, Reserved W t W₁ t₁ → Runs Shows E Q x t₁) :
    Runs Shows E Q (do
      let cacheSlab ← cacheOf Kernel.cacheSlab
      check ((← (freeObjsCountOf cacheSlab).read) ≥ minFreeObjsCacheSlab) .slabReserve
      if (← (freeObjsCountOf cacheSlab).read) = minFreeObjsCacheSlab then
        createSlabForCacheSlab depth
      let cacheVregion ← cacheOf Kernel.cacheVregion
      if (← (freeObjsCountOf cacheVregion).read) = minFreeObjsCacheVregion then
        createSlabForCacheVregion depth
      x) t := by
  have hSm : W.cacheSlab ∈ W.caches := h.sound.slab_mem
  refine .cacheOf h.sound.reads_cacheSlab (h.sound.readFree hSm (.passes h.slabs ?_))
  refine h.sound.readFree hSm (.ite (fun hlow => ?_) fun hlow => ?_)
  · change W.freeObjs W.cacheSlab = 2 at hlow
    have hserves : W.ServesSlab 2 := ⟨h.regions, Nat.le_of_succ_le h.slabs, .inl (le_refl 2)⟩
    have hample : ¬W.Ample := fun hample => by have := hample.1; omega
    have hpages : W.Pages E m (2 + 2) := hE hample
    refine .bind ((refills_runs hd).2 W t h.sound
      (h.allows (hpages.le (Nat.le_add_left 2 2)) hserves)) ?_
    rintro - t₁ ⟨W₁, hr, hleft, hspent⟩
    replace hspent := hspent hserves
    obtain ⟨hs₁, hv₁, hboth⟩ := hleft h.regions (Nat.le_of_succ_le h.slabs)
    have hS : W₁.cacheSlab = W.cacheSlab := hr.grows.cacheSlab
    have hV : W₁.cacheVregion = W.cacheVregion := hr.grows.cacheVregion
    have hready : W₁.Ready t₁ := by
      refine ⟨hr.sound, hr.bottom h.bottom, ?_, ?_⟩
      · rw [hS]
        omega
      · rw [hV]
        exact hv₁
    refine .cacheOf (c := W₁.cacheVregion) hready.sound.reads_cacheVregion ?_
    refine hready.reserveVregion (fun _ => hpages.spend hspent) hd
      (fun hkeep => hx W₁ t₁ ⟨.inr ⟨hr, hample⟩, ?_, ?_, ?_, hspent.le (Nat.le_add_left 2 2)⟩)
      fun W₂ t₂ hr₂ hleft₂ hspent₂ hlow₂ =>
        hx W₂ t₂ ⟨.inr ⟨hr.trans hr₂, hample⟩, ?_, ?_, ?_, hspent.trans hspent₂⟩
    · omega
    · rw [hV] at hkeep
      omega
    · intro _
      omega
    all_goals
      rw [World.RestockedVregion, hS, hV] at hleft₂
      rw [hV] at hlow₂
      omega
  · change ¬W.freeObjs W.cacheSlab = 2 at hlow
    have hslabs := h.slabs
    refine .cacheOf h.sound.reads_cacheVregion ?_
    have hpages : W.freeObjs W.cacheVregion = 2 → W.Pages E m 2 := fun hlow₂ =>
      (hE fun hample => by have := hample.2; omega).le (Nat.le_add_left 2 2)
    have hnone : W.Spends 4 W := (World.Spends.refl W).le (Nat.zero_le 4)
    refine h.reserveVregion hpages hd
      (fun hkeep => hx W t ⟨.inl ⟨rfl, rfl, ?_⟩, hslabs, ?_, ?_, hnone⟩)
      fun W₂ t₂ hr hleft hspent hlow₂ =>
        hx W₂ t₂ ⟨.inr ⟨hr, fun hample => ?_⟩, ?_, ?_, ?_, hspent.le (Nat.le_add_left 2 2)⟩
    · have hregions := h.regions
      exact ⟨by omega, by omega⟩
    · have hregions := h.regions
      omega
    · intro _
      omega
    · have := hample.2
      omega
    all_goals
      rw [World.RestockedVregion] at hleft
      omega

/-- `vregion_alloc` of `n` pages: after a refill, if one was due, the region is taken. -/
theorem World.Ready.vregionAlloc (hE : W.Pages E m (1 + 2)) (hd : 2 ≤ depth) :
    Runs Shows E (fun x t' => ∃ W₁ t₁, RegionReserved W t W₁ t₁ ∧
      (x = none ∧ t' = t₁ ∧ (∀ r ∈ W₁.freeRegions, (W₁.extent r).len < n) ∨
        ∃ r W', x = some r ∧ RegionOut W₁ t₁ n r W' t')) (Atros.vregionAlloc depth n) t := by
  have hVm : W.cacheVregion ∈ W.caches := h.sound.vregion_mem
  have hread := h.sound.reads_vpagesCacheVregion
  have htake : ∀ W₁ t₁, RegionReserved W t W₁ t₁ → Runs Shows E (fun x t' => ∃ W₁ t₁,
      RegionReserved W t W₁ t₁ ∧
      (x = none ∧ t' = t₁ ∧ (∀ r ∈ W₁.freeRegions, (W₁.extent r).len < n) ∨
        ∃ r W', x = some r ∧ RegionOut W₁ t₁ n r W' t')) (vregionAlloc_ n) t₁ := by
    intro W₁ t₁ hr
    have hpages := hE.spend hr.spends
    have hregions := hr.regions
    rw [← hr.case.grows.cacheVregion] at hregions
    have hnone : E .noFreeVregion ∨ W₁.freeRegions ≠ [] := by
      refine hpages.imp (fun h => h _ (.inl rfl)) fun hspare => ?_
      obtain ⟨r, hr, -⟩ := hspare.fits
      exact List.ne_nil_of_mem hr
    refine ((hr.case.sound h.sound).vregionAlloc_ hnone (.inr ⟨by omega, ?_⟩)).imp
      fun x t' hx => ⟨W₁, t₁, hr, hx⟩
    exact (hr.case.bottom h.bottom).below
  refine .cacheOf hread (h.sound.readFree hVm (.passes h.regions ?_))
  refine h.reserveVregion (fun _ => hE.le (Nat.le_add_left 2 1)) hd
    (fun hkeep => htake W t ?_) fun W₁ t₁ hr hleft hspent hlow => htake W₁ t₁ ?_
  · have hregions := h.regions
    exact ⟨.inl ⟨rfl, rfl, by omega⟩, h.slabs, by omega, (World.Spends.refl W).le (Nat.zero_le 2)⟩
  · obtain ⟨hs, -, hv⟩ := hleft (by omega) h.slabs
    exact ⟨.inr ⟨hr, by omega⟩, hs, hv, hspent⟩

end

/-! ### The pages of the slabs tell their slab -/

/-- Every page of every slab tells the slab. -/
def World.Recorded (W : World) (t : View) : Prop :=
  ∀ c ∈ W.caches, ∀ s ∈ W.all c, ∀ i < W.pages c,
    (t.rest.phys.dscrs ((W.block s).ppn + i)).slab = s

theorem World.Recorded.same (h : W.Recorded t) (hW : W.SameSlabs W')
    (ht : ∀ x, (t'.rest.phys.dscrs x).slab = (t.rest.phys.dscrs x).slab) : W'.Recorded t' := by
  intro c hc s hs i hi
  rw [hW.caches] at hc
  rw [hW.all] at hs
  rw [hW.pages] at hi
  rw [hW.block, ht]
  exact h c hc s hs i hi

theorem World.CacheOk.pages_pos (h : W.CacheOk H c) : 1 ≤ W.pages c := by
  have hper := h.per_pos
  rcases Nat.eq_zero_or_pos (W.pages c) with h0 | h0
  · rw [World.per, h0, mul32, Nat.zero_mul, Nat.zero_mod, Nat.zero_div] at hper
    omega
  · exact h0

theorem World.Unset.not_recorded (hu : W.Unset t) (h : W.CachesOk t) : ¬W.Recorded t := by
  obtain ⟨c, hc, s, hs, hpos, hzero⟩ := hu
  intro hrec
  have hs₀ := hrec c hc s hs 0 (h.cache c hc).pages_pos
  rw [Nat.add_zero, hzero] at hs₀
  omega

/-! ### Allocation of objects -/

/-- The object `o` of the cache `c` has been allocated. -/
structure Allocated (W : World) (t : View) (c o : Nat) (W' : World) (t' : View) : Prop where
  ready : W'.Ready t'
  grows : W.Grows t W' t'
  out : W'.Out t'.heap c o
  fresh : t.heap.NotOut o
  regions : c = W.cacheSlab → 3 ≤ W'.freeObjs W.cacheVregion
  spends : 0 < W.freeObjs c → W.Spends 4 W'
  recorded : W.Ample → W.Recorded t → W'.Recorded t'
  unset : ¬W.Ample → W'.Unset t'

theorem HandedOut.bottom (h : HandedOut W t c o W' t') (hb : W.Bottom) : W'.Bottom := by
  refine ⟨by rw [h.free]; exact hb.single, fun u hu f hf => ?_⟩
  rw [h.used] at hu
  rw [h.free] at hf
  rw [h.extent]
  exact hb.below u hu f hf

theorem HandedOut.ready (ho : HandedOut W t c o W' t') (h : W.Ready t) (hs : c ≠ W.cacheSlab)
    (hv : c ≠ W.cacheVregion) : W'.Ready t' := by
  refine ⟨ho.sound, ho.bottom h.bottom, ?_, ?_⟩
  · rw [ho.grows.cacheSlab, ho.others _ h.sound.slab_mem hs.symm]
    exact h.slabs
  · rw [ho.grows.cacheVregion, ho.others _ h.sound.vregion_mem hv.symm]
    exact h.regions

theorem HandedOut.spends (h : HandedOut W t c o W' t') : W.Spends 0 W' := by
  intro m n hspare
  obtain ⟨hregion, hpages, hroom⟩ := hspare
  rw [← h.same.freeBlocks] at hpages hroom
  refine ⟨?_, hpages, hroom⟩
  rw [h.free, h.extent]
  exact hregion

theorem HandedOut.notOut (h : HandedOut W t c o W' t') : t.heap.NotOut o := by
  intro _
  rw [h.fresh]
  exact Option.some_ne_none _

theorem Reserved.handedOut (h : W.Ready t) (hr : Reserved W t W₁ t₁) (hc : c ∈ W.caches)
    (hslab : c = W.cacheSlab → 3 ≤ W.freeObjs W.cacheVregion) (ho : HandedOut W₁ t₁ c o W' t') :
    Allocated W t c o W' t' := by
  have hgrows := hr.case.grows
  have hSm : W.cacheSlab ∈ W₁.caches := hgrows.caches _ h.sound.slab_mem
  have hVm : W.cacheVregion ∈ W₁.caches := hgrows.caches _ h.sound.vregion_mem
  have hS : W'.cacheSlab = W.cacheSlab := ho.grows.cacheSlab.trans hgrows.cacheSlab
  have hV : W'.cacheVregion = W.cacheVregion := ho.grows.cacheVregion.trans hgrows.cacheVregion
  have hne := h.sound.caches.own.apart.2.2
  have hcount := ho.count
  have hslabs := hr.slabs
  have hregions := hr.regions
  refine ⟨⟨ho.sound, ho.bottom (hr.case.bottom h.bottom), ?_, ?_⟩, hgrows.trans ho.grows, ho.out,
    ho.notOut.before hgrows, ?_, fun _ => hr.spends.trans ho.spends, fun hample hrec => ?_,
    fun hample => ?_⟩
  · rw [hS]
    by_cases hcs : W.cacheSlab = c
    · have hboth := hr.both (hslab hcs.symm)
      rw [hcs] at hboth ⊢
      omega
    · rw [ho.others _ hSm hcs]
      exact hslabs
  · rw [hV]
    by_cases hcv : W.cacheVregion = c
    · rw [hcv] at hregions ⊢
      omega
    · rw [ho.others _ hVm hcv]
      omega
  · intro hcs
    rw [ho.others _ hVm (by rw [hcs]; exact hne.symm)]
    exact hregions
  · rcases hr.case with ⟨rfl, rfl, -⟩ | ⟨-, hno⟩
    · exact hrec.same ho.same fun x => by rw [ho.rest]
    · exact absurd hample hno
  · rcases hr.case with ⟨-, -, hyes⟩ | ⟨hre, -⟩
    · exact absurd hyes hample
    · exact hre.unset.grows ho.grows

theorem World.Ready.takesHeld (h : W.Ready t) (hE : ¬W.Ample → W.Pages E m 4)
    (hd : 2 ≤ depth) (hc : c ∈ W.caches)
    (hheld : c = W.cacheSlab ∨ c = W.cacheVregion ∨ 0 < W.freeObjs c) :
    Runs Shows E (fun o t' => ∃ W₁ t₁ W', Reserved W t W₁ t₁ ∧ HandedOut W₁ t₁ c o W' t')
      (Atros.objsCacheAlloc (depth + 1) c) t := by
  rw [Atros.objsCacheAlloc]
  refine h.reserves hE hd fun W₁ t₁ hr => ?_
  have hsound := hr.case.sound h.sound
  have hc₁ : c ∈ W₁.caches := hr.case.grows.caches c hc
  have hpos : 0 < W₁.freeObjs c := by
    have hslabs := hr.slabs
    have hregions := hr.regions
    by_cases hs : c = W.cacheSlab
    · rw [hs]
      omega
    · by_cases hv : c = W.cacheVregion
      · rw [hv]
        omega
      · rw [hr.case.others hc hs hv]
        exact (hheld.resolve_left hs).resolve_left hv
  refine hsound.readFree hc₁ (.ite (fun hzero => absurd hzero (by omega)) fun _ => ?_)
  refine .bind (hsound.retrieve hc₁) ?_
  rintro _ t' (⟨-, -, hzero⟩ | ⟨o, W', rfl, ho⟩)
  · omega
  · exact .pure ⟨W₁, t₁, W', hr, ho⟩

theorem World.Ready.allocHeld (h : W.Ready t) (hE : W.Pages E m 4) (hd : 2 ≤ depth)
    (hc : c ∈ W.caches) (hslab : c = W.cacheSlab → 3 ≤ W.freeObjs W.cacheVregion)
    (hheld : c = W.cacheSlab ∨ c = W.cacheVregion ∨ 0 < W.freeObjs c) :
    Runs Shows E (fun o t' => ∃ W', Allocated W t c o W' t' ∧ W.Spends 4 W')
      (Atros.objsCacheAlloc (depth + 1) c) t := by
  refine (h.takesHeld (fun _ => hE) hd hc hheld).imp ?_
  rintro o t' ⟨W₁, t₁, W', hr, ho⟩
  exact ⟨W', hr.handedOut h hc hslab ho, hr.spends.trans ho.spends⟩

theorem World.Ready.takesAmple (h : W.Ready t) (hample : W.Ample) (hd : 2 ≤ depth)
    (hc : c ∈ W.caches) (hpos : 0 < W.freeObjs c) :
    Runs Shows E (fun o t' => ∃ W', HandedOut W t c o W' t') (Atros.objsCacheAlloc (depth + 1) c)
      t := by
  refine (h.takesHeld (m := 0) (absurd hample) hd hc (.inr (.inr hpos))).imp ?_
  rintro o t' ⟨W₁, t₁, W', hr, ho⟩
  rcases hr.case with ⟨rfl, rfl, -⟩ | ⟨-, hno⟩
  · exact ⟨W', ho⟩
  · exact absurd hample hno

/-- The slab `a` has been made for `c` in the world `W'`, and is on none of its lists. -/
structure Created (W : World) (t : View) (c a r : Nat) (b : Block) (W' : World) (t₁ t' : View) :
    Prop where
  prepared : Prepared W' t₁ c a r b t'
  grows : W.Grows t W' t₁
  fresh : t.heap.NotOut a
  bottom : W'.Bottom
  slabs : 2 ≤ W'.freeObjs W.cacheSlab
  regions : 2 ≤ W'.freeObjs W.cacheVregion
  set : ∀ i < W'.pages c, (t'.rest.phys.dscrs (b.ppn + i)).slab = a
  recorded : W.Ample → W.Recorded t → W'.Recorded t₁

theorem World.Ready.createSlab (h : W.Ready t) (hE : W.Pages E (W.pages c) 7) (hd : 2 ≤ depth)
    (hc : c ∈ W.caches) (hregions : 3 ≤ W.freeObjs W.cacheVregion) :
    Runs Shows E (fun x t' => ∃ a r b W' t₁, x = some a ∧ Created W t c a r b W' t₁ t')
      (Atros.createSlab (depth + 2) (W.pages c) (W.size c)) t := by
  have hSm : W.cacheSlab ∈ W.caches := h.sound.slab_mem
  have hpages := (h.sound.caches.cache c hc).pages_pos
  rw [Atros.createSlab]
  refine .cacheOf h.sound.reads_cacheSlab ?_
  refine .bind (h.allocHeld (hE.le (Nat.le_add_left 4 3)) hd hSm (fun _ => hregions) (.inl rfl)) ?_
  rintro a t₁ ⟨W₁, ha, hspent⟩
  have hE₁ : W₁.Pages E (W.pages c) 3 := hE.spend hspent
  refine .bind (ha.ready.vregionAlloc hE₁ (by omega)) ?_
  have hslab₁ := ha.grows.cacheSlab
  have hvregion₁ := ha.grows.cacheVregion
  have hkept := ha.regions rfl
  rintro x t₂ ⟨W₂, t₂', hr, hx⟩
  obtain ⟨rfl, rfl, -⟩ | ⟨-, hno⟩ := hr.case
  swap
  · rw [hvregion₁] at hno
    exact absurd hkept hno
  rcases hx with ⟨rfl, -, hsmall⟩ | ⟨r, W₃, rfl, hout⟩
  · refine .bind (R := fun _ _ => False) (.throw ?_) fun _ _ h => h.elim
    rcases hE₁ with hE | hspare
    · exact hE _ (.inr (.inr (.inl rfl)))
    · obtain ⟨r, hr, hfits⟩ := hspare.fits
      have hlt := hsmall r hr
      omega
  have hc₂ : c ∈ W₂.caches := ha.grows.caches c hc
  have hcaches : W₃.caches = W₂.caches := hout.same.caches
  have hlen : (W₃.extent r).len = W.pages c := by rw [hout.taken.taken]
  have hpages₃ : W₃.pages c = W.pages c := by rw [hout.same.pages, (ha.grows.attrs c hc).2]
  have hregion : ∀ c ∈ W₃.caches, ∀ s ∈ W₃.all c, W₃.region s ≠ r := by
    intro c' hc' s hs
    rw [hout.same.region]
    rw [hcaches] at hc'
    exact hout.other c' hc' s ((hout.same.all c' s).mp hs)
  refine .bind (hout.sound.mapVregion hout.used hpages hlen hregion ?_) ?_
  · refine hE₁.imp (fun hE => ⟨hE _ (.inr (.inr (.inr (.inl rfl)))),
      hE _ (.inr (.inr (.inr (.inr rfl))))⟩) fun hspare => ?_
    rw [hout.same.freeBlocks]
    exact (hspare.room.resolve_left (by omega)).le (Nat.zero_le 3)
  rintro p t₃ ⟨k, W₄, hmapped⟩
  have hslab₃ : W₃.cacheSlab = W.cacheSlab := hout.grows.cacheSlab.trans hslab₁
  have hparts : W₄.Parts t₃ c a r ⟨p, k⟩ := by
    refine .of_mapped hout.sound hmapped (hcaches ▸ hc₂) ?_ hout.used (hlen.trans hpages₃.symm)
      hregion
    rw [hslab₃]
    exact ha.out.grows (ha.grows.caches _ hSm) hout.grows
  have hgrows : W.Grows t W₄ t₃ := (ha.grows.trans hout.grows).trans hmapped.grows
  obtain ⟨hsize₄, hpages₄⟩ := hgrows.attrs c hc
  rw [← hsize₄]
  refine .bind hparts.prepare ?_
  rintro - t₄ ⟨-, -, hprepared⟩
  refine .bind (hprepared.setSlab hpages₄.symm) ?_
  rintro - t' ⟨hprepared', -, hset⟩
  have hSm₂ : W.cacheSlab ∈ W₂.caches := ha.grows.caches _ hSm
  have hne := h.sound.caches.own.apart.2.2
  have hslabs := ha.ready.slabs
  rw [hslab₁] at hslabs
  have hcount := hout.taken.count_le
  rw [hvregion₁] at hcount
  obtain ⟨free, rfl⟩ := hmapped.world
  refine .pure ⟨a, r, ⟨p, k⟩, _, t₃, rfl, hprepared', hgrows, ha.fresh, ?_, ?_, ?_, fun i hi => ?_,
    fun hample hrec => ?_⟩
  · obtain ⟨hsingle, hbelow⟩ := hout.bottom ha.ready.bottom
    exact ⟨hsingle, hbelow⟩
  · change 2 ≤ W₃.freeObjs W.cacheSlab
    rw [hout.others _ hSm₂ (by rw [hvregion₁]; exact hne)]
    exact hslabs
  · change 2 ≤ W₃.freeObjs W.cacheVregion
    omega
  · exact hset _ (Extent.mem_mk.mpr ⟨Nat.le_add_right _ _, Nat.add_lt_add_left hi _⟩)
  · have hrec₃ := (ha.recorded hample hrec).same hout.same fun x => by rw [hout.phys]
    intro c' hc' s hs i hi
    rw [hmapped.slab]
    exact hrec₃ c' hc' s hs i hi

theorem Reserved.ready (hr : Reserved W t W₁ t₁) (h : W.Ready t) : W₁.Ready t₁ :=
  hr.case.ready h hr.slabs (Nat.le_of_succ_le hr.regions)

section
variable (hn : Created W t c a r b W₁ t₁ t₂) (hl : Listed W₁ t₁ c a r b t₂ t')
include hn hl

theorem Created.ready (h : W.Ready t) (hs : c ≠ W.cacheSlab) (hv : c ≠ W.cacheVregion) :
    (W₁.filled c a r b).Ready t' := by
  have hSm : W.cacheSlab ∈ W₁.caches := hn.grows.caches _ h.sound.slab_mem
  have hVm : W.cacheVregion ∈ W₁.caches := hn.grows.caches _ h.sound.vregion_mem
  obtain ⟨-, hkeep⟩ := hl.freeObjs
  refine ⟨hl.sound, ⟨hn.bottom.single, hn.bottom.below⟩, ?_, ?_⟩
  · change 2 ≤ (W₁.filled c a r b).freeObjs W₁.cacheSlab
    rw [hn.grows.cacheSlab, hkeep _ hSm hs.symm]
    exact hn.slabs
  · change 2 ≤ (W₁.filled c a r b).freeObjs W₁.cacheVregion
    rw [hn.grows.cacheVregion, hkeep _ hVm hv.symm]
    exact hn.regions

theorem Created.listed_recorded (hrec : W₁.Recorded t₁) : (W₁.filled c a r b).Recorded t' := by
  have hparts := hl.prepared.parts
  intro c' hc' s hs i hi
  rcases (W₁.filled_all c a r b c' s).mp hs with ⟨rfl, rfl⟩ | hs
  · have hblock : (W₁.filled c' s r b).block s = b := Function.update_self ..
    rw [hblock, hl.rest]
    exact hn.set i hi
  · have hsa : s ≠ a := fun heq => hparts.not_slab hc' (heq ▸ hs)
    have hblock : (W₁.filled c a r b).block s = W₁.block s := Function.update_of_ne hsa _ _
    have hlarge := (hparts.sound.backed.block c' hc' s hs).2
    change i < W₁.pages c' at hi
    have hx : (W₁.block s).ppn + i ∈ (W₁.block s).pages := by
      rw [Block.pages, Extent.mem_mk]
      omega
    rw [hblock, hl.slabOf hc' hs hx]
    exact hrec c' hc' s hs i hi

end

theorem World.Ready.objsCacheAlloc (h : W.Ready t) (hE : W.Pages E (W.pages c) 11) (hd : 5 ≤ depth)
    (hc : c ∈ W.caches) (hslab : c = W.cacheSlab → 3 ≤ W.freeObjs W.cacheVregion) :
    Runs Shows E (fun o t' => ∃ W', Allocated W t c o W' t') (Atros.objsCacheAlloc depth c) t := by
  obtain ⟨depth, rfl⟩ := Nat.exists_eq_add_of_le' hd
  rw [Atros.objsCacheAlloc]
  refine h.reserves (fun _ => hE.le (Nat.le_add_left 4 7)) (by omega) fun W₁ t₁ hr => ?_
  have hready := hr.ready h
  have hE₁ : W₁.Pages E (W₁.pages c) 7 := by
    rw [(hr.case.grows.attrs c hc).2]
    exact hE.spend hr.spends
  have hc₁ : c ∈ W₁.caches := hr.case.grows.caches c hc
  refine hready.sound.readFree hc₁ (.ite (fun hzero => ?_) fun hpos => ?_)
  · have hslabs := hr.slabs
    have hregions := hr.regions
    have hs : c ≠ W₁.cacheSlab := by
      rw [hr.case.grows.cacheSlab]
      rintro rfl
      omega
    have hv : c ≠ W₁.cacheVregion := by
      rw [hr.case.grows.cacheVregion]
      rintro rfl
      omega
    have hcache₁ := hready.sound.caches.cache c hc₁
    refine hready.sound.readPages hc₁ (.readWord .actualObjSize hcache₁.lists.cache ?_)
    rw [hcache₁.actualObjSize]
    have hdepth : 2 ≤ depth + 2 := Nat.le_add_left 2 depth
    refine .bind (hready.createSlab hE₁ hdepth hc₁ ?_) ?_
    · rw [hr.case.grows.cacheVregion]
      exact hregions
    rintro _ t₂ ⟨a, r, b, W₂, t₂', rfl, hn⟩
    refine .deref (.bind hn.prepared.add ?_)
    rintro - t₃ ⟨hrest, hadded⟩
    have hl : Listed W₂ t₂' c a r b t₂ t₃ := ⟨hn.prepared, hadded, hrest⟩
    have hready₃ := hn.ready hl hready hs hv
    have hc₃ : c ∈ (W₂.filled c a r b).caches := hn.grows.caches c hc₁
    have hpos : 0 < (W₂.filled c a r b).freeObjs c := by
      rw [hl.freeObjs.1]
      have hper := (hn.prepared.parts.sound.caches.cache c hn.prepared.parts.cache).per_pos
      omega
    have hgrows : W.Grows t (W₂.filled c a r b) t₃ :=
      hr.case.grows.trans (hl.grows hn.grows hn.fresh)
    refine .bind (hready₃.sound.retrieve hc₃) ?_
    rintro _ t' (⟨-, -, hzero⟩ | ⟨o, W', rfl, ho⟩)
    · omega
    · refine .pure ⟨W', ⟨?_, hgrows.trans ho.grows, ho.out, ho.notOut.before hgrows, fun heq => ?_,
        fun hfree => ?_, fun hample hrec => ?_, fun hample => ?_⟩⟩
      · refine ho.ready hready₃ ?_ ?_
        · exact fun heq => hs (heq.trans hn.grows.cacheSlab)
        · exact fun heq => hv (heq.trans hn.grows.cacheVregion)
      · rw [hr.case.grows.cacheSlab] at hs
        exact absurd heq hs
      · rw [hr.case.grows.cacheSlab] at hs
        rw [hr.case.grows.cacheVregion] at hv
        rw [← hr.case.others hc hs hv] at hfree
        omega
      · rcases hr.case with ⟨rfl, rfl, -⟩ | ⟨-, hno⟩
        · exact (hn.listed_recorded hl (hn.recorded hample hrec)).same ho.same fun x => by
            rw [ho.rest]
        · exact absurd hample hno
      · rcases hr.case with ⟨-, -, hyes⟩ | ⟨hre, -⟩
        · exact absurd hyes hample
        · exact hre.unset.grows ((hl.grows hn.grows hn.fresh).trans ho.grows)
  · refine .bind (hready.sound.retrieve hc₁) ?_
    rintro _ t' (⟨-, -, hzero⟩ | ⟨o, W', rfl, ho⟩)
    · omega
    · exact .pure ⟨W', hr.handedOut h hc hslab ho⟩

end Atros
