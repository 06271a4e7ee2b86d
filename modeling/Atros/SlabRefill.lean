import Atros.SlabGrow

namespace Atros
set_option autoImplicit true

variable {W W' W₁ W₂ : World} {t t' t₁ t₂ : View} {E : Panic → Prop} {Q : α → View → Prop}

/-! ### One refill -/

/-- The faults of a system that has run out of virtual or physical pages. The last two are also
those of a slab of more than 512 pages. -/
def Exhausted (e : Panic) : Prop :=
  e = .noFreeVregion ∨ e = .refillNoVregion ∨ e = .objsCacheFreeNotImplemented ∨
    e = .tooManyPpages ∨ e = .blockOrderTooLarge

/-- There are pages, virtual and physical ones, for `n` slabs of one page and then, unless `m` is
zero, for one of `m` pages. -/
structure World.Spare (W : World) (m n : Nat) : Prop where
  region : m + n = 0 ∨ ∃ r ∈ W.freeRegions, m + n ≤ (W.extent r).len
  pages : HasPages W.freeBlocks n
  room : m = 0 ∨ HasRoom W.freeBlocks m n

theorem World.Spare.le (h : W.Spare m n) (hle : n' ≤ n) : W.Spare m n' := by
  obtain ⟨hregion, hpages, hroom⟩ := h
  refine ⟨?_, hpages.le hle, hroom.imp id fun hroom => hroom.le hle⟩
  rcases hregion with hzero | ⟨r, hr, hn⟩
  · exact .inl (by omega)
  · exact .inr ⟨r, hr, by omega⟩

theorem World.Spare.fits (h : W.Spare m (n + 1)) :
    ∃ r ∈ W.freeRegions, m + n + 1 ≤ (W.extent r).len :=
  h.region.resolve_left (Nat.succ_ne_zero (m + n))

theorem RegionTaken.fits (h : RegionTaken W t 1 r W' t')
    (hfits : ∃ r ∈ W.freeRegions, n + 1 ≤ (W.extent r).len) :
    n = 0 ∨ ∃ r ∈ W'.freeRegions, n ≤ (W'.extent r).len := by
  obtain ⟨as, bs, hfree, -, hcase⟩ := h.shape
  obtain ⟨x, hx, hlen⟩ := hfits
  by_cases hxr : x = r
  · subst hxr
    rcases hcase with ⟨-, hone⟩ | ⟨o, hfree', -, ho⟩
    · exact .inl (by omega)
    · refine .inr ⟨o, ?_, ?_⟩
      · rw [hfree']
        exact List.mem_append_right as List.mem_cons_self
      · rw [ho]
        exact Nat.le_sub_of_add_le hlen
  · have hext := h.extents x (List.mem_append_left _ hx) hxr
    rw [hfree, List.perm_middle.mem_iff, List.mem_cons] at hx
    have hmem := hx.resolve_left hxr
    refine .inr ⟨x, ?_, by rw [hext]; omega⟩
    rcases hcase with ⟨hfree', -⟩ | ⟨o, hfree', -, -⟩
    · rw [hfree']
      exact hmem
    · rw [hfree', List.perm_middle.mem_iff]
      exact List.mem_cons_of_mem o hmem

/-- What the cache `c` of slabs or of regions gains, one object of the cache of slabs and at most
one of the cache of regions being spent. -/
structure Refilled (W : World) (t : View) (c : Nat) (W' : World) (t' : View) : Prop where
  sound : W'.Sound t'
  grows : W.Grows t W' t'
  bottom : W.Bottom → W'.Bottom
  slabs : W'.freeObjs W.cacheSlab + 1 =
      W.freeObjs W.cacheSlab + if c = W.cacheSlab then W.per c else 0
  regions : W'.freeObjs W.cacheVregion ≤
      W.freeObjs W.cacheVregion + (if c = W.cacheVregion then W.per c else 0) ∧
    W.freeObjs W.cacheVregion + (if c = W.cacheVregion then W.per c else 0) ≤
      W'.freeObjs W.cacheVregion + 1
  others : ∀ c' ∈ W.caches, c' ≠ W.cacheSlab → c' ≠ W.cacheVregion →
    W'.freeObjs c' = W.freeObjs c'
  unset : ∃ s ∈ W'.all c, 0 < s ∧ (t'.rest.phys.dscrs (W'.block s).ppn).slab = 0
  spare : ∀ m n, W.Spare m (n + 1) → W'.Spare m n

/-- The parts for a slab of `c`, once the region has got a block of physical pages. -/
theorem World.Parts.of_mapped (h : W.Sound t) (hmapped : MappedOut W t r b W' t')
    (hc : c ∈ W.caches) (hout : W.Out t.heap W.cacheSlab a) (hr : r ∈ W.usedRegions)
    (hlen : (W.extent r).len = W.pages c)
    (hregion : ∀ c ∈ W.caches, ∀ s ∈ W.all c, W.region s ≠ r) : W'.Parts t' c a r b := by
  obtain ⟨free, rfl⟩ := hmapped.world
  have hblock : ∀ c ∈ W.caches, ∀ s ∈ W.all c, W.block s ≠ b := by
    rintro c' hc' s hs rfl
    have hlive := (h.backed.block c' hc' s hs).1
    obtain ⟨b', hb', hx⟩ := hmapped.fresh _ (Block.ppn_mem (W.block s))
    have hcross := (List.pairwise_append.mp h.backed.phys.blocks.apart).2.2
    exact hcross b' hb' _ hlive _ hx (Block.ppn_mem (W.block s))
  have hlarge := hmapped.large
  have hpaged := hmapped.mapped
  rw [hlen] at hlarge hpaged
  refine ⟨hmapped.sound, hc, ?_, hr, hlen, hregion, List.mem_cons_self, hlarge, hblock, hpaged⟩
  obtain ⟨huntyped, s, hs, hslot⟩ := hout
  rw [hmapped.heap]
  exact ⟨huntyped, s, hs, hslot⟩

theorem World.Parts.of_taken {W₁ W₂ W₃ : World} {t₁ t₂ t₃ : View} (hout : RegionOut W t n r W₁ t₁)
    (hhanded : HandedOut W₁ t₁ W.cacheSlab a W₂ t₂) (hmapped : MappedOut W₂ t₂ r b W₃ t₃)
    (hc : c ∈ W.caches) (hn : n = W.pages c) : W₃.Parts t₃ c a r b := by
  have hsame₁ := hout.same
  have hsame₂ := hhanded.same
  have hslab : W₂.cacheSlab = W.cacheSlab := (hsame₂.own .slab).trans (hsame₁.own .slab)
  refine .of_mapped hhanded.sound hmapped ?_ ?_ ?_ ?_ fun c' hc' s hs => ?_
  · rw [hsame₂.caches, hsame₁.caches]
    exact hc
  · rw [hslab]
    exact hhanded.out
  · rw [hhanded.used]
    exact hout.used
  · rw [hhanded.extent, hout.taken.taken, hsame₂.pages, hsame₁.pages, ← hn]
  · rw [hsame₂.region, hsame₁.region]
    rw [hsame₂.caches, hsame₁.caches] at hc'
    exact hout.other c' hc' s ((hsame₁.all c' s).mp ((hsame₂.all c' s).mp hs))

/-- What has happened when the parts are there. -/
structure Gathered (W : World) (t : View) (c a r : Nat) (b : Block) (W₃ : World) (t₃ : View) :
    Prop where
  parts : W₃.Parts t₃ c a r b
  grows : W.Grows t W₃ t₃
  fresh : t.heap.struct a = some .object
  bottom : W.Bottom → W₃.Bottom
  slabs : W₃.freeObjs W.cacheSlab + 1 = W.freeObjs W.cacheSlab
  regions : W₃.freeObjs W.cacheVregion ≤ W.freeObjs W.cacheVregion ∧
    W.freeObjs W.cacheVregion ≤ W₃.freeObjs W.cacheVregion + 1
  others : ∀ c' ∈ W.caches, c' ≠ W.cacheSlab → c' ≠ W.cacheVregion →
    W₃.freeObjs c' = W.freeObjs c'
  unset : ∀ x ∈ b.pages, (t₃.rest.phys.dscrs x).slab = 0
  spare : ∀ m n, W.Spare m (n + 1) → W₃.Spare m n

theorem Gathered.of_taken {W₁ W₂ W₃ : World} {t₁ t₂ t₃ : View} (h : W.Sound t)
    (hout : RegionOut W t n r W₁ t₁) (hhanded : HandedOut W₁ t₁ W.cacheSlab a W₂ t₂)
    (hmapped : MappedOut W₂ t₂ r b W₃ t₃) (hc : c ∈ W.caches) (hn : n = W.pages c) (hone : n = 1) :
    Gathered W t c a r b W₃ t₃ := by
  subst hone
  have hown := h.caches.own
  have hSm : W.cacheSlab ∈ W.caches := hown.mem .slab
  have hVm : W.cacheVregion ∈ W.caches := hown.mem .vregion
  have hV : W.cacheVregion ∈ W₁.caches := hout.same.caches ▸ hVm
  have hparts := World.Parts.of_taken hout hhanded hmapped hc hn
  obtain ⟨free, rfl⟩ := hmapped.world
  refine ⟨hparts, (hout.grows.trans hhanded.grows).trans hmapped.grows, ?_, fun hb => ?_, ?_, ?_,
    fun c' hc' hs hv => ?_, fun x hx => ?_, fun m n hspare => ?_⟩
  · rcases hout.taken.struct a .object hhanded.fresh with hold | ⟨hv, -⟩
    · exact hold
    · exact nomatch hv
  · obtain ⟨hsingle, hbelow⟩ := hout.bottom hb
    refine ⟨?_, ?_⟩
    · change W₂.freeRegions.length ≤ 1
      rw [hhanded.free]
      exact hsingle
    · intro u hu f hf
      change W₂.usedRegions.head? = some u at hu
      change f ∈ W₂.freeRegions at hf
      change 1 ≤ (W₂.extent u).base + (W₂.extent u).len ∧ (W₂.extent u).Below (W₂.extent f)
      rw [hhanded.used] at hu
      rw [hhanded.free] at hf
      rw [hhanded.extent]
      exact hbelow u hu f hf
  · change W₂.freeObjs W.cacheSlab + 1 = _
    rw [hhanded.count, hout.others _ hSm hown.apart.2.2]
  · change W₂.freeObjs W.cacheVregion ≤ _ ∧ _ ≤ W₂.freeObjs W.cacheVregion + 1
    rw [hhanded.others _ hV hown.apart.2.2.symm]
    exact hout.taken.count_le
  · change W₂.freeObjs c' = _
    rw [hhanded.others c' (hout.same.caches ▸ hc') hs, hout.others c' hc' hv]
  · rw [hmapped.slab]
    exact hhanded.sound.backed.phys.unset x (hmapped.fresh x hx)
  · have hsame : W₂.freeBlocks = W.freeBlocks :=
      hhanded.same.freeBlocks.trans hout.same.freeBlocks
    have hone : b.order = 0 := hmapped.single (by rw [hhanded.extent, hout.taken.taken])
    have hleft := hmapped.left
    have hblocks := hmapped.blocks
    rw [hsame] at hleft hblocks
    refine ⟨?_, hspare.pages.taken hone hleft,
      hspare.room.imp id fun hroom => hroom.taken hone hleft hblocks⟩
    change m + n = 0 ∨ ∃ r ∈ W₂.freeRegions, m + n ≤ (W₂.extent r).len
    rw [hhanded.free, hhanded.extent]
    exact hout.taken.fits hspare.fits

/-- Running out of pages is an allowed fault, or there are pages. -/
def World.Pages (W : World) (E : Panic → Prop) (m n : Nat) : Prop :=
  (∀ e, Exhausted e → E e) ∨ W.Spare m n

/-- Any fault is allowed, or the caches can serve and only running out of pages is a fault. -/
def World.Allows (W : World) (E : Panic → Prop) (m n : Nat) (serves : Prop) : Prop :=
  (∀ e, E e) ∨ W.Pages E m n ∧ W.Bottom ∧ serves

theorem World.Allows.pages (h : W.Allows E m n p) : W.Pages E m n :=
  h.elim (fun h => .inl fun e _ => h e) fun h => h.1

theorem World.Sound.gather (h : W.Sound t) (hc : c ∈ W.caches) (hpages : W.pages c = 1)
    (hE : W.Allows E m (n + 1) (1 ≤ W.freeObjs W.cacheVregion ∧ 1 ≤ W.freeObjs W.cacheSlab))
    {f : Nat → Nat → Prog Panic Kernel α}
    (hf : ∀ a r b W₃ t₃, Gathered W t c a r b W₃ t₃ → Runs Shows E Q (f a r) t₃) :
    Runs Shows E Q (do
      let aVregion ← Atros.vregionAlloc_ 1
      let aSlab ← retrieveFreeObjFromObjsCache W.cacheSlab
      let aVregion ← deref aVregion .refillNoVregion
      let aSlab ← deref aSlab .refillNoSlab
      let _ ← Atros.mapVregion aVregion 1
      f aSlab aVregion) t := by
  have hSm : W.cacheSlab ∈ W.caches := h.slab_mem
  have hnone : E .noFreeVregion ∨ W.freeRegions ≠ [] := by
    refine hE.pages.imp (fun h => h _ (.inl rfl)) fun hspare => ?_
    obtain ⟨r, hr, -⟩ := hspare.fits
    exact List.ne_nil_of_mem hr
  have hregion := h.vregionAlloc_ (n := 1) (E := E) hnone
    (hE.imp id fun h => ⟨h.2.2.1, h.2.1.below⟩)
  refine .bind hregion ?_
  rintro x t₁ hx
  rcases hx with ⟨rfl, rfl, hsmall⟩ | ⟨r, W₁, rfl, hout⟩
  · refine .bind (h.retrieve hSm) ?_
    intro x t₂ _
    rcases hE.pages with hexhausted | hspare
    · exact .throw (hexhausted _ (.inr (.inl rfl)))
    · obtain ⟨r, hr, hfits⟩ := hspare.fits
      have hlt := hsmall r hr
      omega
  · have hS : W.cacheSlab ∈ W₁.caches := hout.same.caches ▸ hSm
    refine .bind (hout.sound.retrieve hS) ?_
    rintro x t₂ (⟨rfl, rfl, hzero⟩ | ⟨a, W₂, rfl, hhanded⟩)
    · rw [hout.others _ hSm h.caches.own.apart.2.2] at hzero
      rcases hE with hE | ⟨-, -, -, hpos⟩
      · exact .throw (hE _)
      · omega
    · have hr : r ∈ W₂.usedRegions := by
        rw [hhanded.used]
        exact hout.used
      have hlen : (W₂.extent r).len = 1 := by
        rw [hhanded.extent, hout.taken.taken]
      have hother : ∀ c ∈ W₂.caches, ∀ s ∈ W₂.all c, W₂.region s ≠ r := by
        intro c' hc' s hs
        rw [hhanded.same.region, hout.same.region]
        rw [hhanded.same.caches, hout.same.caches] at hc'
        exact hout.other c' hc' s ((hout.same.all c' s).mp ((hhanded.same.all c' s).mp hs))
      refine .deref (.deref (.bind (hhanded.sound.mapVregion hr (le_refl 1) hlen hother ?_) ?_))
      · refine hE.pages.imp (fun h => ⟨h _ (.inr (.inr (.inr (.inl rfl)))),
          h _ (.inr (.inr (.inr (.inr rfl))))⟩) fun hspare => ?_
        rw [hhanded.same.freeBlocks, hout.same.freeBlocks]
        exact (hspare.pages.le (Nat.le_add_left 1 n)).room
      · rintro p t₃ ⟨k, W₃, hmapped⟩
        exact hf a r _ W₃ t₃ (.of_taken h hout hhanded hmapped hc hpages.symm rfl)

theorem World.Sound.slot_pos (h : W.Sound t) (hu : t.heap.slot a = some u) : 0 < a := by
  obtain ⟨c, hc, s, hs, rfl, ha⟩ := (h.placed.slot a u).mp hu
  obtain ⟨hused, -⟩ := h.slabRegions.region c hc s hs
  have hrange := h.slabRegions.range _ (List.mem_append_right _ hused)
  have hbounds := World.mem_placesIn (c := c) (r := W.region s) ha
  omega

theorem Gathered.refilled (h : W.Sound t) (hg : Gathered W t c a r b W₁ t₁)
    (hlist : Listed W₁ t₁ c a r b t₂ t') (hrest : t'.rest = t₁.rest) (hc : c ∈ W.caches)
    (hcase : c = W.cacheSlab ∨ c = W.cacheVregion) :
    Refilled W t c (W₁.filled c a r b) t' := by
  have hgrows := hlist.grows hg.grows fun _ => by
    rw [hg.fresh]
    exact Option.some_ne_none _
  have hSm : W.cacheSlab ∈ W₁.caches := hg.grows.caches _ h.slab_mem
  have hVm : W.cacheVregion ∈ W₁.caches := hg.grows.caches _ h.vregion_mem
  have hper : W₁.per c = W.per c := by
    rw [World.per, World.per, (hg.grows.attrs c hc).1, (hg.grows.attrs c hc).2]
  have hne : W.cacheSlab ≠ W.cacheVregion := h.caches.own.apart.2.2
  obtain ⟨hadd, hkeep⟩ := hlist.freeObjs
  rw [hper] at hadd
  refine ⟨hlist.sound, hgrows, fun hb => ⟨(hg.bottom hb).single, (hg.bottom hb).below⟩, ?_, ?_,
    fun c' hc' hs hv => ?_, ?_, fun m n hspare => ?_⟩
  · rcases hcase with rfl | rfl
    · rw [hadd, if_pos rfl, Nat.add_right_comm, hg.slabs]
    · rw [hkeep _ hSm hne, if_neg hne.symm, hg.slabs]
      rfl
  · rcases hcase with rfl | rfl
    · rw [hkeep _ hVm hne.symm, if_neg hne]
      exact hg.regions
    · have hbounds := hg.regions
      rw [hadd, if_pos rfl]
      omega
  · have hcc : c' ≠ c := by
      rcases hcase with rfl | rfl
      · exact hs
      · exact hv
    rw [hkeep c' (hg.grows.caches c' hc') hcc, hg.others c' hc' hs hv]
  · refine ⟨a, (W₁.filled_all c a r b c a).mpr (.inl ⟨rfl, rfl⟩), ?_, ?_⟩
    · obtain ⟨s, -, hslot⟩ := hg.parts.out.slot
      exact hg.parts.sound.slot_pos hslot
    · have hblock : (W₁.filled c a r b).block a = b := Function.update_self ..
      rw [hblock, hrest]
      exact hg.unset _ b.ppn_mem
  · obtain ⟨hregion, hpages, hroom⟩ := hg.spare m n hspare
    exact ⟨hregion, hpages, hroom⟩

/-- What both functions that refill a cache do after their assertions. -/
theorem World.Sound.refill (h : W.Sound t) (hc : c = W.cacheSlab ∨ c = W.cacheVregion)
    (hE : W.Allows E m (n + 1) (1 ≤ W.freeObjs W.cacheVregion ∧ 1 ≤ W.freeObjs W.cacheSlab))
    {x : Prog Panic Kernel α} (hx : ∀ W' t', Refilled W t c W' t' → Runs Shows E Q x t') :
    Runs Shows E Q (do
      let aVregion ← Atros.vregionAlloc_ 1
      let aSlab ← retrieveFreeObjFromObjsCache W.cacheSlab
      let aVregion ← deref aVregion .refillNoVregion
      let aSlab ← deref aSlab .refillNoSlab
      let _ ← Atros.mapVregion aVregion 1
      let _ ← initializeSlab aSlab aVregion (← (actualObjSizeOf c).read) 0
      objsCacheAddSlab c aSlab .statusFree
      x) t := by
  have hown := h.caches.own
  have hcm : c ∈ W.caches := by
    rcases hc with rfl | rfl
    · exact hown.mem .slab
    · exact hown.mem .vregion
  have hpages : W.pages c = 1 := by
    rcases hc with rfl | rfl
    · exact hown.pages .slab
    · exact hown.pages .vregion
  refine h.gather hcm hpages hE fun a r b W₃ t₃ hg => ?_
  have hcache := hg.parts.sound.caches.cache c hg.parts.cache
  refine .readWord .actualObjSize hcache.lists.cache ?_
  rw [hcache.actualObjSize]
  refine .bind hg.parts.prepare ?_
  rintro - t₄ ⟨-, hkept, hprepared⟩
  refine .bind hprepared.add ?_
  rintro - t₅ ⟨hrest, hadded⟩
  exact hx _ t₅ (hg.refilled h ⟨hprepared, hadded, hrest⟩ (hrest.trans hkept) hcm hc)

end Atros
