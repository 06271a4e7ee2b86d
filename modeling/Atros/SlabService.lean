import Atros.SlabRefill

namespace Atros
set_option autoImplicit true

variable {W W' W₁ : World} {t t' t₁ : View} {E : Panic → Prop} {Q : α → View → Prop}

/-! ### The caches of slabs and of regions refill each other -/

theorem Runs.cacheOf {cache : Kernel → Option Nat} {f : Nat → Prog Panic Kernel α}
    (hread : ∀ k, Shows k t → cache k = some c) (hf : Runs Shows E Q (f c) t) :
    Runs Shows E Q (Atros.cacheOf cache >>= f) t := by
  intro k hk
  have hcache : Atros.cacheOf cache k = .ok (c, k) := by
    unfold Atros.cacheOf
    rw [bind_get, hread k hk]
    rfl
  rw [bind_ok hcache]
  exact hf k hk

section
variable (h : W.Sound t)
include h

theorem World.Sound.reads_cacheSlab (k : Kernel) (hk : Shows k t) :
    k.cacheSlab = some W.cacheSlab := hk.cacheSlab.trans h.caches.own.slabVar

theorem World.Sound.reads_cacheVregion (k : Kernel) (hk : Shows k t) :
    k.cacheVregion = some W.cacheVregion := hk.cacheVregion.trans h.caches.own.vregionVar

theorem World.Sound.reads_cacheObjsCache (k : Kernel) (hk : Shows k t) :
    k.cacheObjsCache = some W.cacheObjsCache := hk.cacheObjsCache.trans h.caches.own.objsCacheVar

theorem World.Sound.reads_vpagesCacheVregion (k : Kernel) (hk : Shows k t) :
    k.vpagesCacheVregion = some W.cacheVregion := hk.vpagesCacheVregion.trans h.caches.own.vpagesVar

theorem World.Sound.readFree (hc : c ∈ W.caches) {f : Nat → Prog Panic Kernel α}
    (hf : Runs Shows E Q (f (W.freeObjs c)) t) :
    Runs Shows E Q ((freeObjsCountOf c).read >>= f) t := by
  have hcache := h.caches.cache c hc
  refine .readWord .freeObjsCount hcache.lists.cache ?_
  rw [hcache.freeCount]
  exact hf

theorem World.Sound.readPages (hc : c ∈ W.caches) {f : Nat → Prog Panic Kernel α}
    (hf : Runs Shows E Q (f (W.pages c)) t) :
    Runs Shows E Q ((pagesPerSlabOf c).read >>= f) t := by
  have hcache := h.caches.cache c hc
  refine .readWord .pagesPerSlab hcache.lists.cache ?_
  rw [hcache.pagesPerSlab]
  exact hf

end

theorem World.OwnCaches.per (h : W.OwnCaches k) (hs : s ≠ .object) :
    W.per (W.homeOf s) = 4096 / s.size := by
  rw [World.per, h.pages, h.size s hs]
  rfl

/-- A slab, at an address, of which the first page does not tell. -/
def World.Unset (W : World) (t : View) : Prop :=
  ∃ c ∈ W.caches, ∃ s ∈ W.all c, 0 < s ∧ (t.rest.phys.dscrs (W.block s).ppn).slab = 0

theorem World.Unset.grows (h : W.Unset t) (hg : W.Grows t W' t') : W'.Unset t' := by
  obtain ⟨c, hc, s, hs, hpos, hzero⟩ := h
  obtain ⟨hs', -, hblock⟩ := hg.slabs c hc s hs
  refine ⟨c, hg.caches c hc, s, hs', hpos, ?_⟩
  rw [hblock, hg.slabOf c hc s hs _ (W.block s).ppn_mem, hzero]

/-- Slabs have been made for the caches of slabs and of regions only. -/
structure Restocked (W : World) (t : View) (W' : World) (t' : View) : Prop where
  sound : W'.Sound t'
  grows : W.Grows t W' t'
  bottom : W.Bottom → W'.Bottom
  others : ∀ c ∈ W.caches, c ≠ W.cacheSlab → c ≠ W.cacheVregion → W'.freeObjs c = W.freeObjs c
  unset : W'.Unset t'

theorem World.Grows.cacheSlab (h : W.Grows t W' t') : W'.cacheSlab = W.cacheSlab := h.own .slab

theorem World.Grows.cacheVregion (h : W.Grows t W' t') : W'.cacheVregion = W.cacheVregion :=
  h.own .vregion

theorem Refilled.restocked (h : Refilled W t c W' t') (hc : c ∈ W.caches) :
    Restocked W t W' t' := by
  obtain ⟨s, hs, hpos, hzero⟩ := h.unset
  exact ⟨h.sound, h.grows, h.bottom, h.others, c, h.grows.caches c hc, s, hs, hpos, hzero⟩

theorem Restocked.trans (h : Restocked W t W₁ t₁) (h' : Restocked W₁ t₁ W' t') :
    Restocked W t W' t' := by
  refine ⟨h'.sound, h.grows.trans h'.grows, fun hb => h'.bottom (h.bottom hb),
    fun c hc hs hv => ?_, h'.unset⟩
  rw [h'.others c (h.grows.caches c hc) (by rw [h.grows.cacheSlab]; exact hs)
    (by rw [h.grows.cacheVregion]; exact hv), h.others c hc hs hv]

/-- The objects left by `_create_slab_for_cache_Vregion`. -/
def World.RestockedVregion (W W' : World) : Prop :=
  1 ≤ W.freeObjs W.cacheVregion → 2 ≤ W.freeObjs W.cacheSlab →
    2 ≤ W'.freeObjs W.cacheSlab ∧ W.freeObjs W.cacheSlab ≤ W'.freeObjs W.cacheSlab + 1 ∧
      3 ≤ W'.freeObjs W.cacheVregion

/-- The objects left by `_create_slab_for_cache_Slab`. -/
def World.RestockedSlab (W W' : World) : Prop :=
  2 ≤ W.freeObjs W.cacheVregion → 1 ≤ W.freeObjs W.cacheSlab →
    4 ≤ W'.freeObjs W.cacheSlab ∧ 2 ≤ W'.freeObjs W.cacheVregion ∧
      (W.freeObjs W.cacheVregion ≤ W'.freeObjs W.cacheVregion + 1 ∨
        3 ≤ W'.freeObjs W.cacheVregion)

/-- The objects with which `_create_slab_for_cache_Vregion` gets along when `d` slabs are made. -/
def World.ServesVregion (W : World) (d : Nat) : Prop :=
  1 ≤ W.freeObjs W.cacheVregion ∧ 2 ≤ W.freeObjs W.cacheSlab ∧
    (2 ≤ d ∨ 1 ≤ d ∧ 3 ≤ W.freeObjs W.cacheSlab)

/-- The objects with which `_create_slab_for_cache_Slab` gets along when `d` slabs are made. -/
def World.ServesSlab (W : World) (d : Nat) : Prop :=
  2 ≤ W.freeObjs W.cacheVregion ∧ 1 ≤ W.freeObjs W.cacheSlab ∧
    (2 ≤ d ∨ 1 ≤ d ∧ 3 ≤ W.freeObjs W.cacheVregion)

/-- No more than `d` pages have been used. -/
def World.Spends (W : World) (d : Nat) (W' : World) : Prop :=
  ∀ m n, W.Spare m (n + d) → W'.Spare m n

theorem World.Allows.imp (h : W.Allows E m n p) (hpq : p → q) : W.Allows E m n q :=
  Or.imp id (fun h => ⟨h.1, h.2.1, hpq h.2.2⟩) h

theorem World.Allows.pred (h : W.Allows E m d p) (hd : p → 1 ≤ d) : W.Allows E m (d - 1 + 1) p := by
  refine Or.imp id (fun h => ⟨?_, h.2⟩) h
  rw [Nat.sub_add_cancel (hd h.2.2)]
  exact h.1

theorem World.Allows.refilled (h : W.Allows E m (n + 1) p) (hr : Refilled W t c W' t')
    (hpq : p → q) : W'.Allows E m n q :=
  Or.imp id (fun h => ⟨h.1.imp id (hr.spare m n), hr.bottom h.2.1, hpq h.2.2⟩) h

theorem Refilled.spends (h : Refilled W t c W₁ t₁) (hd : 1 ≤ d) (hspent : W₁.Spends (d - 1) W') :
    W.Spends d W' := by
  intro m n hspare
  refine hspent m n (h.spare m (n + (d - 1)) (hspare.le ?_))
  omega

theorem Refilled.spends_one (h : Refilled W t c W' t') (hd : 1 ≤ d) : W.Spends d W' :=
  h.spends hd fun _ _ hspare => hspare.le (Nat.le_add_right _ _)

theorem World.Spends.trans (h : W.Spends d₁ W₁) (h' : W₁.Spends d₂ W₂) :
    W.Spends (d₁ + d₂) W₂ := by
  intro m n hspare
  refine h' m n (h m (n + d₂) ?_)
  rwa [Nat.add_assoc, Nat.add_comm d₂]

theorem World.Spends.le (h : W.Spends d W') (hle : d ≤ d') : W.Spends d' W' :=
  fun m n hspare => h m n (hspare.le (Nat.add_le_add_left hle n))

theorem World.Spends.refl (W : World) : W.Spends 0 W := fun _ _ h => h

theorem World.Pages.le (h : W.Pages E m n) (hle : n' ≤ n) : W.Pages E m n' :=
  h.imp id fun hspare => hspare.le hle

theorem World.Pages.spend (h : W.Pages E m (n + d)) (hs : W.Spends d W') : W'.Pages E m n :=
  h.imp id (hs m n)

theorem World.Allows.check [Decidable p] {e : Panic} {f : Unit → Prog Panic Kernel α}
    (h : W.Allows E m n q) (hp : q → p) (hf : p → Runs Shows E Q (f ()) t) :
    Runs Shows E Q (Atros.check p e >>= f) t := by
  refine .check (fun hn => ?_) hf
  rcases h with h | ⟨-, -, hq⟩
  · exact h e
  · exact absurd (hp hq) hn

theorem refillVregion_step (h : W.Sound t) (hE : W.Allows E m d (W.ServesVregion d))
    (ih : ∀ W t, W.Sound t → W.Allows E m (d - 1) (W.ServesSlab (d - 1)) →
      Runs Shows E (fun _ t' => ∃ W', Restocked W t W' t' ∧ W.RestockedSlab W' ∧
        (W.ServesSlab (d - 1) → W.Spends (d - 1) W')) (createSlabForCacheSlab depth) t) :
    Runs Shows E (fun _ t' => ∃ W', Restocked W t W' t' ∧ W.RestockedVregion W' ∧
      (W.ServesVregion d → W.Spends d W')) (createSlabForCacheVregion (depth + 1)) t := by
  have hpos : W.ServesVregion d → 1 ≤ d := fun hs => hs.2.2.elim (by omega) And.left
  replace hE := hE.pred hpos
  have hSm : W.cacheSlab ∈ W.caches := h.slab_mem
  have hVm : W.cacheVregion ∈ W.caches := h.vregion_mem
  have hper : W.per W.cacheVregion = 341 := h.caches.own.per (s := .vregion) (by decide)
  have hne : W.cacheSlab ≠ W.cacheVregion := h.caches.own.apart.2.2
  rw [createSlabForCacheVregion]
  refine .cacheOf h.reads_cacheVregion (h.readFree hVm (hE.check (fun hs => hs.1) fun _ => ?_))
  refine h.readPages hVm (.passes (h.caches.own.pages .vregion) ?_)
  refine .cacheOf h.reads_cacheSlab ?_
  refine h.refill (.inr rfl) (hE.imp fun hs => ⟨hs.1, Nat.le_of_succ_le hs.2.1⟩) ?_
  intro W₁ t₁ hr
  have hSm₁ : W.cacheSlab ∈ W₁.caches := hr.grows.caches _ hSm
  have hslabs := hr.slabs
  have hregions := hr.regions
  rw [if_neg hne.symm] at hslabs
  rw [if_pos rfl, hper] at hregions
  refine hr.sound.readFree hSm₁ (.ite (fun hlow => ?_) fun hlow => .pure ⟨W₁, hr.restocked hVm, ?_,
    fun hs => hr.spends_one (hpos hs)⟩)
  · change W₁.freeObjs W.cacheSlab = 1 at hlow
    have hserves : W.ServesVregion d → W₁.ServesSlab (d - 1) := by
      rintro ⟨hv, hs, hd⟩
      rw [World.ServesSlab, hr.grows.cacheSlab, hr.grows.cacheVregion]
      omega
    refine (ih W₁ t₁ hr.sound (hE.refilled hr hserves)).imp ?_
    · rintro - t' ⟨W', hr', hleft, hspent⟩
      refine ⟨W', (hr.restocked hVm).trans hr', fun hv hs => ?_,
        fun hs => hr.spends (hpos hs) (hspent (hserves hs))⟩
      rw [World.RestockedSlab, hr.grows.cacheSlab, hr.grows.cacheVregion] at hleft
      omega
  · change ¬W₁.freeObjs W.cacheSlab = 1 at hlow
    intro hv hs
    omega

theorem refillSlab_step (h : W.Sound t) (hE : W.Allows E m d (W.ServesSlab d))
    (ih : ∀ W t, W.Sound t → W.Allows E m (d - 1) (W.ServesVregion (d - 1)) →
      Runs Shows E (fun _ t' => ∃ W', Restocked W t W' t' ∧ W.RestockedVregion W' ∧
        (W.ServesVregion (d - 1) → W.Spends (d - 1) W')) (createSlabForCacheVregion depth) t) :
    Runs Shows E (fun _ t' => ∃ W', Restocked W t W' t' ∧ W.RestockedSlab W' ∧
      (W.ServesSlab d → W.Spends d W')) (createSlabForCacheSlab (depth + 1)) t := by
  have hpos : W.ServesSlab d → 1 ≤ d := fun hs => hs.2.2.elim (by omega) And.left
  replace hE := hE.pred hpos
  have hSm : W.cacheSlab ∈ W.caches := h.slab_mem
  have hVm : W.cacheVregion ∈ W.caches := h.vregion_mem
  have hper : W.per W.cacheSlab = 204 := h.caches.own.per (s := .slab) (by decide)
  have hne : W.cacheSlab ≠ W.cacheVregion := h.caches.own.apart.2.2
  rw [createSlabForCacheSlab]
  refine .cacheOf h.reads_cacheSlab (h.readFree hSm (hE.check (fun hs => hs.2.1) fun _ => ?_))
  refine h.readPages hSm (.passes (h.caches.own.pages .slab) ?_)
  refine h.refill (.inl rfl) (hE.imp fun hs => ⟨Nat.le_of_succ_le hs.1, hs.2.1⟩) ?_
  intro W₁ t₁ hr
  have hVm₁ : W.cacheVregion ∈ W₁.caches := hr.grows.caches _ hVm
  have hslabs := hr.slabs
  have hregions := hr.regions
  rw [if_pos rfl, hper] at hslabs
  rw [if_neg hne] at hregions
  have hread : ∀ k, Shows k t₁ → k.cacheVregion = some W.cacheVregion := fun k hk => by
    rw [hr.sound.reads_cacheVregion k hk, hr.grows.cacheVregion]
  refine .cacheOf hread ?_
  refine hr.sound.readFree hVm₁ (.ite (fun hlow => ?_) fun hlow => .pure ⟨W₁, hr.restocked hSm, ?_,
    fun hs => hr.spends_one (hpos hs)⟩)
  · change W₁.freeObjs W.cacheVregion = 1 at hlow
    have hserves : W.ServesSlab d → W₁.ServesVregion (d - 1) := by
      rintro ⟨hv, hs, hd⟩
      rw [World.ServesVregion, hr.grows.cacheSlab, hr.grows.cacheVregion]
      omega
    refine (ih W₁ t₁ hr.sound (hE.refilled hr hserves)).imp ?_
    · rintro - t' ⟨W', hr', hleft, hspent⟩
      refine ⟨W', (hr.restocked hSm).trans hr', fun hv hs => ?_,
        fun hs => hr.spends (hpos hs) (hspent (hserves hs))⟩
      rw [World.RestockedVregion, hr.grows.cacheSlab, hr.grows.cacheVregion] at hleft
      omega
  · change ¬W₁.freeObjs W.cacheVregion = 1 at hlow
    intro hv hs
    omega

/-- The two functions that refill a cache, at any depth of calls. -/
theorem refills_runs (hle : d ≤ depth) :
    (∀ W t, W.Sound t → W.Allows E m d (W.ServesVregion d) →
      Runs Shows E (fun _ t' => ∃ W', Restocked W t W' t' ∧ W.RestockedVregion W' ∧
        (W.ServesVregion d → W.Spends d W')) (createSlabForCacheVregion depth) t) ∧
    ∀ W t, W.Sound t → W.Allows E m d (W.ServesSlab d) →
      Runs Shows E (fun _ t' => ∃ W', Restocked W t W' t' ∧ W.RestockedSlab W' ∧
        (W.ServesSlab d → W.Spends d W')) (createSlabForCacheSlab depth) t := by
  induction depth generalizing d with
  | zero =>
    refine ⟨fun W t h hE => ?_, fun W t h hE => ?_⟩ <;> rcases hE with hE | ⟨-, -, -, -, hd⟩
    · exact .throw (hE _)
    · omega
    · exact .throw (hE _)
    · omega
  | succ depth ih =>
    obtain ⟨hvregion, hslab⟩ := ih (Nat.pred_le_of_le_succ hle)
    exact ⟨fun W t h hE => refillVregion_step h hE hslab,
      fun W t h hE => refillSlab_step h hE hvregion⟩

end Atros
