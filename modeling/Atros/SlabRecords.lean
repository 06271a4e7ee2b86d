import Atros.SlabRuns

namespace Atros
set_option autoImplicit true

variable {W W' : World} {t t' : View} {k k' : Kernel}

/-! ### The slabs that the lists of the kernel lead to -/

def Kernel.OnCaches (k : Kernel) (c : Nat) : Prop := OnList (k.ptrOf .cacheNext) k.cachesClist c

/-- The slab `s` is on the list of a status of the cache `c`. -/
def Kernel.OnStatus (k : Kernel) (c : Nat) (st : SlabStatus) (s : Nat) : Prop :=
  OnList (k.ptrOf .slabNext) (k.ptrOf (.statusList st) c) s

section
variable (hk : Shows k t) (h : W.CachesOk t)
include hk h

theorem World.CachesOk.onCaches_iff : k.OnCaches c ↔ c ∈ W.caches :=
  (h.cachesRing hk).onList_iff

theorem World.CachesOk.onStatus_iff (hc : c ∈ W.caches) : k.OnStatus c st s ↔ s ∈ W.slabs c st := by
  have hlists := (h.cache c hc).lists
  have hch := hk.chain .slabNext (hlists.chain st).toChain (hlists.slab st)
  rw [Kernel.OnStatus, hk.ptrOf (.statusList st) hlists.cache]
  exact hch.onList_iff

end

/-- The physical page of every page of every slab tells the slab. -/
def Kernel.SlabsRecorded (k : Kernel) : Prop :=
  ∀ c, k.OnCaches c → ∀ st s, k.OnStatus c st s → ∀ r, k.ptrOf .slabVregion s = some r →
    ∀ i < k.wordOf .nbrPages r, ∃ p, k.paging.walk ((k.wordOf .firstVpn r + i) * vpageSize) =
      some (p * vpageSize) ∧ (k.phys.dscrs p).slab = s

theorem World.Sound.slabsRecorded_iff (hk : Shows k t) (h : W.Sound t) :
    k.SlabsRecorded ↔ W.Recorded t := by
  have hsize : vpageSize = 2 ^ 12 := rfl
  have hpaging := hk.paging
  have hphys := hk.phys
  have hslab : ∀ c ∈ W.caches, ∀ st, ∀ s ∈ W.slabs c st,
      k.ptrOf .slabVregion s = some (W.region s) ∧
        k.wordOf .firstVpn (W.region s) = (W.extent (W.region s)).base ∧
        k.wordOf .nbrPages (W.region s) = W.pages c := by
    intro c hc st s hs
    have hcache := h.caches.cache c hc
    have hall : s ∈ W.all c := mem_allOf.mpr ⟨st, hs⟩
    obtain ⟨hused, hlen⟩ := h.slabRegions.region c hc s hall
    have htyped := h.regions.used.2 _ hused
    obtain ⟨hfirst, hpages⟩ := h.regions.words _ (List.mem_append_right _ hused)
    rw [hk.ptrOf .slabVregion (hcache.lists.slab st s hs), (hcache.slabOk hall).region,
      hk.wordOf .firstVpn htyped, hk.wordOf .nbrPages htyped, hfirst, hpages, hlen]
    exact ⟨rfl, rfl, rfl⟩
  have hwalk : ∀ c ∈ W.caches, ∀ s ∈ W.all c, ∀ i < W.pages c,
      k.paging.walk (((W.extent (W.region s)).base + i) * vpageSize) =
        some (((W.block s).ppn + i) * vpageSize) := by
    intro c hc s hs i hi
    have hmapped := h.backed.mapped c hc s hs i hi 0 (by decide)
    rw [Nat.add_zero, Nat.add_zero] at hmapped
    rw [hpaging, hsize, hmapped]
  constructor
  · intro hrec c hc s hs i hi
    obtain ⟨st, hst⟩ := mem_allOf.mp hs
    obtain ⟨hregion, hfirst, hpages⟩ := hslab c hc st s hst
    obtain ⟨p, hp, hdscr⟩ := hrec c ((h.caches.onCaches_iff hk).mpr hc) st s
      ((h.caches.onStatus_iff hk hc).mpr hst) _ hregion i (hpages ▸ hi)
    rw [hfirst, hwalk c hc s hs i hi] at hp
    have heq := Nat.eq_of_mul_eq_mul_right (by decide : 0 < vpageSize) (Option.some.inj hp)
    rw [← hphys, heq]
    exact hdscr
  · intro hrec c hc st s hs r hr i hi
    have hc' := (h.caches.onCaches_iff hk).mp hc
    have hs' := (h.caches.onStatus_iff hk hc').mp hs
    obtain ⟨hregion, hfirst, hpages⟩ := hslab c hc' st s hs'
    obtain rfl := Option.some.inj (hregion.symm.trans hr)
    rw [hpages] at hi
    have hall : s ∈ W.all c := mem_allOf.mpr ⟨st, hs'⟩
    refine ⟨(W.block s).ppn + i, ?_, ?_⟩
    · rw [hfirst]
      exact hwalk c hc' s hall i hi
    · rw [hphys]
      exact hrec c hc' s hall i hi

/-- Both reserves have `n` free objects. -/
def Kernel.Reserves (k : Kernel) (n : Nat) : Prop :=
  ∀ c, k.cacheSlab = some c ∨ k.cacheVregion = some c → n ≤ k.wordOf .freeObjsCount c

/-- Both reserves are above their minimum. -/
def Kernel.Ample (k : Kernel) : Prop := k.Reserves 3

theorem World.Sound.reserves_iff (hk : Shows k t) (h : W.Sound t) :
    k.Reserves n ↔ n ≤ W.freeObjs W.cacheSlab ∧ n ≤ W.freeObjs W.cacheVregion := by
  have hS : k.cacheSlab = some W.cacheSlab := h.reads_cacheSlab k hk
  have hV : k.cacheVregion = some W.cacheVregion := h.reads_cacheVregion k hk
  have hcount : ∀ c ∈ W.caches, k.wordOf .freeObjsCount c = W.freeObjs c := fun c hc => by
    rw [hk.wordOf .freeObjsCount (h.caches.cache c hc).lists.cache, (h.caches.cache c hc).freeCount]
  rw [Kernel.Reserves, hS, hV]
  constructor
  · intro hall
    have hslabs := hall _ (.inl rfl)
    have hregions := hall _ (.inr rfl)
    rw [hcount _ h.slab_mem] at hslabs
    rw [hcount _ h.vregion_mem] at hregions
    exact ⟨hslabs, hregions⟩
  · rintro ⟨hslabs, hregions⟩ c (hc | hc)
    · rw [← Option.some.inj hc, hcount _ h.slab_mem]
      exact hslabs
    · rw [← Option.some.inj hc, hcount _ h.vregion_mem]
      exact hregions

theorem World.Sound.ample_iff (hk : Shows k t) (h : W.Sound t) : k.Ample ↔ W.Ample :=
  h.reserves_iff hk

/-- The reserves that the call tests are above their minimum. -/
def Kernel.AmpleFor (k : Kernel) : SlabCall → Prop
  | .objsCacheCreate _ objSize pages => max objSize sizeofPointer ≤ mul32 pages vpageSize → k.Ample
  | .objsCacheAlloc _ => k.Ample
  | .vregionAlloc _ => ∀ c ∈ k.vpagesCacheVregion, 3 ≤ k.wordOf .freeObjsCount c

theorem World.Sound.ampleFor_iff (hk : Shows k t) (h : W.Sound t) (call : SlabCall) :
    k.AmpleFor call ↔ W.AmpleFor call := by
  cases call with
  | objsCacheCreate => exact imp_congr_right fun _ => h.ample_iff hk
  | objsCacheAlloc => exact h.ample_iff hk
  | vregionAlloc =>
    have hcache := h.caches.cache W.cacheVregion h.vregion_mem
    rw [Kernel.AmpleFor, h.reads_vpagesCacheVregion k hk, World.AmpleFor, ← hcache.freeCount,
      ← hk.wordOf .freeObjsCount hcache.lists.cache]
    exact ⟨fun hall => hall _ rfl, fun hle c hc => Option.some.inj hc ▸ hle⟩

/-- A call that returns and that finds the reserves it tests above their minimum. -/
inductive AmpleStep (depth : Nat) : Session → Session → Prop
  | call (hample : s.kernel.AmpleFor call) (hc : call.Allowed s)
      (hrun : call.run depth s.kernel = .ok (x, k₁)) : AmpleStep depth s (s.after call x k₁)

abbrev AmpleRun (depth : Nat) := Relation.ReflTransGen (AmpleStep depth)

theorem AmpleStep.step {s s' : Session} (h : AmpleStep depth s s') : SlabStep depth s s' := by
  obtain ⟨-, hc, hrun⟩ := h
  exact .call hc hrun

theorem AmpleRun.run {s s' : Session} (h : AmpleRun depth s s') : SlabRun depth s s' :=
  h.lift id fun _ _ hstep => hstep.step

theorem AmpleRun.recorded {s s' : Session} (hd : 5 ≤ depth) (h : AmpleRun depth s s')
    (hs : s.Kept W t) (hrec : W.Recorded t) : ∃ W' t', s'.Kept W' t' ∧ W'.Recorded t' := by
  induction h with
  | refl => exact ⟨W, t, hs, hrec⟩
  | tail _ hstep ih =>
    obtain ⟨W₁, t₁, hs₁, hrec₁⟩ := ih
    cases hstep with
    | call hample hc hok =>
      obtain ⟨W', t', hk', hcalled⟩ := SlabCall.called hc hd hs₁ hok
      have hW := (hs₁.ready.sound.ampleFor_iff hs₁.shows _).mp hample
      exact ⟨W', t', hcalled.kept hs₁ hk', hcalled.recorded hW hrec₁⟩

/-- A refill leaves a slab that its page does not tell, whatever is called afterwards. -/
theorem SlabRun.ample_or_unset {s s' : Session} (hd : 5 ≤ depth) (h : SlabRun depth s s')
    (hs : s.Kept W t) : AmpleRun depth s s' ∨ ∃ W' t', s'.Kept W' t' ∧ W'.Unset t' := by
  induction h with
  | refl => exact .inl .refl
  | tail hrun hstep ih =>
    cases hstep with
    | @call call x k₁ hc hok =>
      rcases ih with hample | ⟨W₁, t₁, hs₁, hunset⟩
      · obtain ⟨W₁, t₁, hs₁, -⟩ := SlabRun.kept hd hrun hs
        obtain ⟨W', t', hk', hcalled⟩ := SlabCall.called hc hd hs₁ hok
        by_cases hW : W₁.AmpleFor call
        · have hk := (hs₁.ready.sound.ampleFor_iff hs₁.shows call).mpr hW
          exact .inl (hample.tail (.call hk hc hok))
        · exact .inr ⟨W', t', hcalled.kept hs₁ hk', hcalled.unset hW⟩
      · obtain ⟨W', t', hk', hcalled⟩ := SlabCall.called hc hd hs₁ hok
        exact .inr ⟨W', t', hcalled.kept hs₁ hk', hunset.grows hcalled.grows⟩

theorem SlabBooted.kept (h : SlabBooted k free k') : ∃ W t, (Session.start k').Kept W t ∧
    W.Recorded t := by
  obtain ⟨t, W, free', hk', hleft, -⟩ := h
  exact ⟨W, t, .start hk' hleft.ready, hleft.recorded⟩

theorem SlabBooted.run {s : Session} (h : SlabBooted k free k') (hd : 5 ≤ depth)
    (hrun : SlabRun depth (.start k') s) : ∃ W t, s.Kept W t := by
  obtain ⟨W₀, t₀, hs₀, -⟩ := h.kept
  obtain ⟨W, t, hs, -⟩ := hrun.kept hd hs₀
  exact ⟨W, t, hs⟩

/-- After a run every slab is recorded in its pages exactly if no call of the run has found a
reserve that it tests at its minimum. -/
theorem slabsRecorded_iff_ample {s : Session} (hk : SlabBootReady k free)
    (hspare : bootSpare k.bootVpn.firstFree k.mem = none) (hd : 5 ≤ depth)
    (hboot : objsCacheBootInit (depth + 1) k = .ok ((), k'))
    (hrun : SlabRun depth (.start k') s) :
    s.kernel.SlabsRecorded ↔ AmpleRun depth (.start k') s := by
  obtain ⟨W, t, hs, hrec⟩ := (hk.booted hspare (Nat.le_trans (by decide) hd) hboot).kept
  constructor
  · intro hrecorded
    refine (hrun.ample_or_unset hd hs).resolve_right ?_
    rintro ⟨W', t', hs', hunset⟩
    have hsound := hs'.ready.sound
    exact hunset.not_recorded hsound.caches ((hsound.slabsRecorded_iff hs'.shows).mp hrecorded)
  · intro hample
    obtain ⟨W', t', hs', hrec'⟩ := hample.recorded hd hs hrec
    exact (hs'.ready.sound.slabsRecorded_iff hs'.shows).mpr hrec'

/-! ### A reserve that is used up -/

/-- A session with `m` free virtual pages, `n` free objects in the cache of regions, and enough of
everything else. -/
def Session.Plenty (s : Session) (m n : Nat) : Prop :=
  ∃ W t, s.Kept W t ∧ (∃ r, W.freeRegions = [r] ∧ (W.extent r).len = m) ∧
    W.freeObjs W.cacheVregion = n ∧ 3 ≤ W.freeObjs W.cacheSlab ∧
    0 < W.freeObjs W.cacheObjsCache ∧ HasPages W.freeBlocks 16

theorem World.Ready.takesPage (h : W.Ready t) (hk : Shows k t)
    (hfree : ∃ r ∈ W.freeRegions, 3 ≤ (W.extent r).len) (hpages : HasPages W.freeBlocks 3) :
    ∃ x k' W₁ t₁ t', Atros.vregionAlloc 5 1 k = .ok (x, k') ∧ Shows k' t' ∧
    RegionReserved W t W₁ t₁ ∧
      (x = none ∧ t' = t₁ ∧ (∀ r ∈ W₁.freeRegions, (W₁.extent r).len < 1) ∨
        ∃ r W', x = some r ∧ RegionOut W₁ t₁ 1 r W' t') := by
  have hspare : W.Spare 0 3 := ⟨.inr hfree, hpages, .inl rfl⟩
  obtain ⟨x, k', hok, t', hk', W₁, t₁, hr, hx⟩ :=
    (h.vregionAlloc (n := 1) (E := fun _ => False) (.inr hspare)
      (by decide : 2 ≤ 5) k hk).returns
  exact ⟨x, k', W₁, t₁, t', hok, hk', hr, hx⟩

theorem Session.Plenty.step {s : Session} (h : s.Plenty (m + 1) (n + 1)) (hm : 3 ≤ m) (hn : 2 ≤ n) :
    ∃ s', AmpleStep 5 s s' ∧ s'.Plenty m n ∧ s'.given.length = s.given.length + 1 := by
  obtain ⟨W, t, hs, ⟨r, hfree, hlen⟩, hregions, hslabs, hcaches, hpages⟩ := h
  have hr : r ∈ W.freeRegions := by
    rw [hfree]
    exact List.mem_singleton_self r
  have hready := hs.ready
  have hown := hready.sound.caches.own
  obtain ⟨x, k', W₁, t₁, t', hok, hk', hres, hx⟩ :=
    hready.takesPage hs.shows ⟨r, hr, by omega⟩ (hpages.le (by decide))
  have hample : W.AmpleFor (.vregionAlloc 1) := show 3 ≤ W.freeObjs W.cacheVregion by omega
  obtain ⟨rfl, rfl, -⟩ | ⟨-, hno⟩ := hres.case
  swap
  · exact absurd hample hno
  rcases hx with ⟨-, -, hsmall⟩ | ⟨o, W', rfl, hout⟩
  · exact absurd (hsmall r hr) (by omega)
  have hk := (hready.sound.ampleFor_iff hs.shows _).mpr hample
  refine ⟨s.after (.vregionAlloc 1) (some o) k', .call hk trivial hok, ⟨W', t',
    (hout.called hready hres).kept hs hk', ?_, ?_, ?_, ?_, ?_⟩, rfl⟩
  · obtain ⟨as, bs, hsplit, -, hcase⟩ := hout.taken.shape
    rw [hfree] at hsplit
    obtain ⟨rfl, rfl, rfl⟩ : as = [] ∧ r = o ∧ bs = [] := by
      cases as with
      | nil => exact ⟨rfl, (List.cons.inj hsplit).1, (List.cons.inj hsplit).2.symm⟩
      | cons a as => exact absurd (List.cons.inj hsplit).2 (by simp)
    rcases hcase with ⟨-, hone⟩ | ⟨u, hfree', -, hext⟩
    · omega
    · refine ⟨u, hfree', ?_⟩
      rw [hext]
      simp only
      omega
  · have hlt : 1 < (W₁.extent o).len := by
      have ho := hout.free
      rw [hfree, List.mem_singleton] at ho
      rw [ho, hlen]
      omega
    have hcount := hout.taken.count
    rw [if_pos hlt] at hcount
    rw [hout.grows.cacheVregion]
    omega
  · rw [hout.grows.cacheSlab, hout.others _ hready.sound.slab_mem hown.apart.2.2]
    exact hslabs
  · have hsame : W'.cacheObjsCache = W₁.cacheObjsCache := hout.grows.own .cache
    rw [hsame, hout.others W₁.cacheObjsCache (hown.mem .cache) hown.apart.2.1]
    exact hcaches
  · rw [hout.same.freeBlocks]
    exact hpages

theorem Session.Plenty.run {s : Session} (h : s.Plenty (m + j) (n + j)) (hm : 3 ≤ m) (hn : 2 ≤ n) :
    ∃ s', AmpleRun 5 s s' ∧ s'.Plenty m n := by
  induction j generalizing s with
  | zero => exact ⟨s, .refl, h⟩
  | succ j ih =>
    have hm' : 3 ≤ m + j := Nat.le_add_right_of_le hm
    have hn' : 2 ≤ n + j := Nat.le_add_right_of_le hn
    obtain ⟨s₁, hstep, h₁, -⟩ := Session.Plenty.step h hm' hn'
    obtain ⟨s', hrun, h'⟩ := ih h₁
    exact ⟨s', .head hstep hrun, h'⟩

/-- The request that finds the reserve of regions at its minimum adds a slab that no page tells. -/
theorem Session.Plenty.unrecorded {s : Session} (h : s.Plenty m 2) (hm : 3 ≤ m) :
    ∃ s', SlabStep 5 s s' ∧ ¬s'.kernel.SlabsRecorded := by
  obtain ⟨W, t, hs, ⟨r, hfree, hlen⟩, hregions, -, -, hpages⟩ := h
  have hr : r ∈ W.freeRegions := by
    rw [hfree]
    exact List.mem_singleton_self r
  obtain ⟨x, k', W₁, t₁, t', hok, hk', hres, hx⟩ :=
    hs.ready.takesPage hs.shows ⟨r, hr, hlen ▸ hm⟩ (hpages.le (by decide))
  refine ⟨s.after (.vregionAlloc 1) x k', .call trivial hok, fun hrec => ?_⟩
  obtain ⟨-, -, hyes⟩ | ⟨hre, -⟩ := hres.case
  · omega
  rcases hx with ⟨-, rfl, -⟩ | ⟨o, W', -, hout⟩
  · exact hre.unset.not_recorded hre.sound.caches ((hre.sound.slabsRecorded_iff hk').mp hrec)
  · exact (hre.unset.grows hout.grows).not_recorded hout.sound.caches
      ((hout.sound.slabsRecorded_iff hk').mp hrec)

theorem BootLeft.plenty (h : BootLeft 303 1023 blocks W t) (hk : Shows k t)
    (hpages : HasPages blocks 247) : (Session.start k).Plenty 718 337 := by
  obtain ⟨o, hfree, hext⟩ := h.free
  refine ⟨W, t, .start hk h.ready, ⟨o, hfree, by rw [hext]⟩, h.regions, ?_, ?_, ?_⟩
  · rw [h.slabs]
    decide
  · rw [h.caches]
    decide
  · rw [h.freeBlocks]
    exact hpages.le (by decide)

theorem Session.Plenty.allocates {s : Session} (h : s.Plenty m n) (hm : 16 ≤ m) :
    ∃ s', SlabRun 5 s s' ∧ s'.given.length = s.given.length + 2 := by
  obtain ⟨W, t, hs, ⟨r, hfree, hlen⟩, -, -, hcaches, hpages⟩ := h
  have hregion : 0 + 16 = 0 ∨ ∃ r ∈ W.freeRegions, 0 + 16 ≤ (W.extent r).len := by
    refine .inr ⟨r, ?_, ?_⟩
    · rw [hfree]
      exact List.mem_singleton_self r
    · rwa [hlen, Nat.zero_add]
  have hspare : W.Spare 1 (11 + 4) := ⟨hregion, hpages.le (by decide), .inr hpages.room⟩
  have hcreate := hs.ready.objsCacheCreate (E := fun _ => False)
    (.inr (hspare.le (Nat.le_add_right 11 4))) (le_refl 5) (.inl (by decide : 0 < 64)) (by decide)
    (by decide : 1 < 2 ^ 32) none
  obtain ⟨x, k₁, hok, t', hk', hx⟩ := (hcreate s.kernel hs.shows).returns
  obtain ⟨-, -, hrefused⟩ | ⟨o, W₁, t₁, rfl, ha, hadded⟩ := hx
  · exact absurd hrefused (by decide)
  have hcalled : Called W t (.objsCacheCreate none 64 1) (some o) (W₁.withCache o 64 1) t' :=
    hadded.called hs.ready.sound ha
  have hs₁ := hcalled.kept hs hk'
  obtain ⟨hregion₁, hpages₁, hroom₁⟩ := ha.spends hcaches 1 11 hspare
  have hpagesOf : (W₁.withCache o 64 1).pages o = 1 := Function.update_self ..
  have hspare₁ : (W₁.withCache o 64 1).Spare ((SlabCall.objsCacheAlloc o).pages
      (W₁.withCache o 64 1)) 11 := by
    rw [SlabCall.pages, hpagesOf]
    exact ⟨hregion₁, hpages₁, hroom₁⟩
  have hallowed : (SlabCall.objsCacheAlloc o).Allowed
      (s.after (.objsCacheCreate none 64 1) (some o) k₁) := List.mem_cons_self
  have halloc := hs₁.ready.call (E := fun _ => False) (.inr hspare₁) (le_refl 5) hs₁.created
    hallowed fun _ _ => nofun
  obtain ⟨y, k₂, hok₂, -⟩ := (halloc k₁ hk').returns
  have hsome : ∃ p, y = some p := by
    rw [SlabCall.run, ← bind_pure_comp] at hok₂
    obtain ⟨p, k₃, -, heq⟩ := of_bind_ok hok₂
    cases heq
    exact ⟨p, rfl⟩
  obtain ⟨p, rfl⟩ := hsome
  have hcreated : (SlabCall.objsCacheCreate none 64 1).Allowed s := ⟨by decide, by decide⟩
  exact ⟨_, .tail (.single (.call hcreated hok)) (.call hallowed hok₂), rfl⟩

theorem slabKernel_calls : ∃ k free k₀ s, SlabBootReady k free ∧
    bootSpare k.bootVpn.firstFree k.mem = none ∧ objsCacheBootInit 6 k = .ok ((), k₀) ∧
      SlabRun 5 (.start k₀) s ∧ s.given.length = 3 := by
  obtain ⟨k, free, k₀, hready, hspare, hboot, W, t, blocks, hk₀, hleft, hpages⟩ :=
    slabKernel_booted (by decide : 2 ≤ 5)
  have hplenty : (Session.start k₀).Plenty (717 + 1) (336 + 1) := hleft.plenty hk₀ hpages
  obtain ⟨s₁, hstep, h₁, hone⟩ := hplenty.step (by decide) (by decide)
  obtain ⟨s, hrun, hthree⟩ := h₁.allocates (by decide)
  exact ⟨k, free, k₀, s, hready, hspare, hboot, .head hstep.step hrun, by rw [hthree, hone]; rfl⟩

/-- The slabs that the refills of the reserves make are not recorded. -/
theorem slabsRecorded_not_kept : ¬∀ depth k free k' s, SlabBootReady k free → 5 ≤ depth →
    objsCacheBootInit (depth + 1) k = .ok ((), k') → SlabRun depth (.start k') s →
      s.kernel.SlabsRecorded := by
  intro hclaim
  obtain ⟨k, free, k₀, hready, -, hboot, W, t, blocks, hk₀, hleft, hpages⟩ :=
    slabKernel_booted (by decide : 2 ≤ 5)
  have hplenty : (Session.start k₀).Plenty (383 + 335) (2 + 335) := hleft.plenty hk₀ hpages
  obtain ⟨s₁, hrun, h₁⟩ := hplenty.run (by decide) (le_refl 2)
  obtain ⟨s₂, hstep, hun⟩ := h₁.unrecorded (by decide)
  exact hun (hclaim 5 k free k₀ s₂ hready (le_refl 5) hboot (hrun.run.tail hstep))

/-- Of 336 requests for a page the first 335 leave every slab recorded, and the last does not. -/
theorem slabsRecorded_iff_ample_slabKernel : ∃ k k' s s', objsCacheBootInit 6 k = .ok ((), k') ∧
    AmpleRun 5 (.start k') s ∧ s.kernel.SlabsRecorded ∧
    SlabStep 5 s s' ∧ ¬AmpleRun 5 (.start k') s' := by
  obtain ⟨k, free, k₀, hready, hspare, hboot, W, t, blocks, hk₀, hleft, hpages⟩ :=
    slabKernel_booted (by decide : 2 ≤ 5)
  have hplenty : (Session.start k₀).Plenty (383 + 335) (2 + 335) := hleft.plenty hk₀ hpages
  obtain ⟨s₁, hrun, h₁⟩ := hplenty.run (by decide) (le_refl 2)
  obtain ⟨s₂, hstep, hun⟩ := h₁.unrecorded (by decide)
  have hiff := slabsRecorded_iff_ample hready hspare (le_refl 5) hboot hrun.run
  have hiff' := slabsRecorded_iff_ample hready hspare (le_refl 5) hboot (hrun.run.tail hstep)
  exact ⟨k, k₀, s₁, s₂, hboot, hrun, hiff.mpr hrun, hstep, mt hiff'.mpr hun⟩

end Atros
