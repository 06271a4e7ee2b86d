import Atros.SlabReserves

namespace Atros
set_option autoImplicit true

variable {W : World} {t : View} {k k' : Kernel} {s : Session} {free : List Block}

/-! ### The accounts of a cache -/

/-- The lists and the counters of the cache `c` agree: `L` are its slabs by their status, `O` the
free objects of each slab. -/
structure Kernel.Accounts (k : Kernel) (c : Nat) (L : SlabStatus → List Nat) (O : Nat → List Nat) :
    Prop where
  linked : ∀ st,
    DChain (k.ptrOf .slabNext) (k.ptrOf .slabPrev) none (k.ptrOf (.statusList st) c) (L st)
  apart : ∀ st st' s, s ∈ L st → s ∈ L st' → st = st'
  statusCount : ∀ st, k.wordOf (.statusCount st) c = (L st).length
  slabsCount : k.wordOf .slabsCount c = k.wordOf (.statusCount .statusFree) c +
    k.wordOf (.statusCount .statusPartial) c + k.wordOf (.statusCount .statusFull) c
  objs : ∀ st, ∀ s ∈ L st, Chain (k.ptrOf .objectNext) (k.ptrOf .freeObjsList s) (O s) ∧
    k.wordOf .slabFreeObjsCount s = (O s).length
  status : ∀ st, ∀ s ∈ L st,
    (st = .statusFree ↔ k.wordOf .slabFreeObjsCount s = k.wordOf .objsPerSlab c) ∧
      (st = .statusFull ↔ k.wordOf .slabFreeObjsCount s = 0)
  freeCount : k.wordOf .freeObjsCount c = ((allOf L).map (k.wordOf .slabFreeObjsCount)).sum
  usedCount : k.wordOf .usedObjsCount c + k.wordOf .freeObjsCount c =
    k.wordOf .objsPerSlab c * k.wordOf .slabsCount c

/-- The accounts of every cache agree, and no slab is in two caches. -/
def Kernel.Accounted (k : Kernel) : Prop :=
  ∃ (L : Nat → SlabStatus → List Nat) (O : Nat → List Nat),
    (∀ c, k.OnCaches c → k.Accounts c (L c) O) ∧
      ∀ c c' s, k.OnCaches c → k.OnCaches c' → s ∈ allOf (L c) → s ∈ allOf (L c') → c = c'

theorem statusOf_iff (hper : 1 ≤ per) :
    (statusOf per n = .statusFree ↔ n = per) ∧ (statusOf per n = .statusFull ↔ n = 0) := by
  rw [statusOf]
  split
  · subst n
    exact ⟨iff_of_true rfl rfl, iff_of_false (by decide) (by omega)⟩
  · split
    · exact ⟨iff_of_false (by decide) ‹_›, iff_of_true rfl ‹_›⟩
    · exact ⟨iff_of_false (by decide) ‹_›, iff_of_false (by decide) ‹_›⟩

theorem World.CacheOk.accounts (hk : Shows k t) (h : W.CacheOk t.heap c) :
    k.Accounts c (W.slabs c) W.objs := by
  have hword : ∀ f : WordField, f.struct = .cache → k.wordOf f c = t.heap.word f c := fun f hf =>
    hk.wordOf f (h.lists.cache.trans (congrArg some hf.symm))
  have hslab : ∀ st, ∀ s ∈ W.slabs c st, k.wordOf .slabFreeObjsCount s = (W.objs s).length := by
    intro st s hs
    rw [hk.wordOf .slabFreeObjsCount (h.lists.slab st s hs), (h.slab st s hs).1.count]
  have hall : ((allOf (W.slabs c)).map (k.wordOf .slabFreeObjsCount)).sum = W.freeObjs c := by
    refine congrArg List.sum (List.map_congr_left fun s hs => ?_)
    obtain ⟨st, hst⟩ := mem_allOf.mp hs
    exact hslab st s hst
  refine ⟨fun st => ?_, h.lists.apart, fun st => ?_, ?_, fun st s hs => ⟨?_, hslab st s hs⟩,
    fun st s hs => ?_, ?_, ?_⟩
  · rw [hk.ptrOf (.statusList st) h.lists.cache]
    exact (h.lists.chain st).congr (fun s hs => hk.ptrOf .slabNext (h.lists.slab st s hs))
      fun s hs =>
      hk.ptrOf .slabPrev (h.lists.slab st s hs)
  · rw [hword _ rfl, h.statusCount]
  · rw [hword _ rfl, hword _ rfl, hword _ rfl, hword _ rfl, h.slabsCount, h.statusCount,
      h.statusCount, h.statusCount, World.all, allOf, List.length_append, List.length_append]
  · have hok := (h.slab st s hs).1
    rw [hk.ptrOf .freeObjsList (h.lists.slab st s hs)]
    exact hk.chain .objectNext hok.chain fun o ho => (hok.obj o ho).1
  · rw [hslab st s hs, hword _ rfl, h.objsPerSlab, ← (h.slab st s hs).2]
    exact statusOf_iff h.per_pos
  · rw [hall, hword _ rfl, h.freeCount]
  · rw [hword _ rfl, hword _ rfl, hword _ rfl, hword _ rfl, h.usedCount, h.objsPerSlab,
      h.slabsCount]

theorem World.Sound.accounted (hk : Shows k t) (h : W.Sound t) : k.Accounted := by
  have hmem : ∀ c, k.OnCaches c → c ∈ W.caches := fun c hc => (h.caches.onCaches_iff hk).mp hc
  refine ⟨W.slabs, W.objs, fun c hc => (h.caches.cache c (hmem c hc)).accounts hk, ?_⟩
  intro c c' s hc hc' hs hs'
  rw [← ((h.caches.cache c (hmem c hc)).slabOk hs).owner,
    ← ((h.caches.cache c' (hmem c' hc')).slabOk hs').owner]

/-- In every run from boot the accounts of every cache agree. -/
theorem slabRun_accounted (hk : SlabBootReady k free)
    (hspare : bootSpare k.bootVpn.firstFree k.mem = none) (hd : 5 ≤ depth)
    (hboot : objsCacheBootInit (depth + 1) k = .ok ((), k'))
    (hrun : SlabRun depth (.start k') s) : s.kernel.Accounted := by
  have hbooted := hk.booted hspare (Nat.le_trans (by decide) hd) hboot
  obtain ⟨W, t, hs⟩ := hbooted.run hd hrun
  exact hs.ready.sound.accounted hs.shows

theorem slabRun_accounted_slabKernel : ∃ k k' s, objsCacheBootInit 6 k = .ok ((), k') ∧
    SlabRun 5 (.start k') s ∧ s.given.length = 3 ∧ s.kernel.Accounted := by
  obtain ⟨k, free, k₀, s, hready, hspare, hboot, hrun, hgiven⟩ := slabKernel_calls
  exact ⟨k, k₀, s, hboot, hrun, hgiven, slabRun_accounted hready hspare (le_refl 5) hboot hrun⟩

/-! ### A slab that leads back to a region -/

section
variable {v last : Nat} {spare : Option Nat} {blocks live : List Block} {t₁ : View} {o : Nat}
  (h : BootMade v last spare blocks live W t₁ o t)
include h

/-- The first slab of the cache of caches, as memory has it once the slab has been taken. -/
theorem BootMade.slabTaken_shown (hk : Shows k (t.slabTaken v o)) :
    k.OnCaches (bootPlace v .cache 0) ∧
      k.ptrOf (.statusList .statusPartial) (bootPlace v .cache 0) = some (bootPlace v .slab 0) ∧
      k.ptrOf .slabPrev (bootPlace v .slab 0) = some (bootPlace v .vregion 0) := by
  have hcaches := h.made.cachesOk
  have hhome : W.homeOf .cache = bootPlace v .cache 0 := h.home .cache (by decide)
  have hmem : bootPlace v .cache 0 ∈ (W.withFree o ⟨v + 3, last + 1 - (v + 3)⟩).caches := by
    rw [← hhome]
    exact hcaches.own.mem .cache
  have hlists := (hcaches.cache _ hmem).lists
  have hring := hk.cachesRing hcaches.ring fun c hc => (hcaches.cache c hc).lists.cache
  have hone : (W.withFree o ⟨v + 3, last + 1 - (v + 3)⟩).slabs (bootPlace v .cache 0)
      .statusPartial = [bootPlace v .slab 0] := h.slabs
  have hchain := hlists.chain .statusPartial
  rw [hone] at hchain
  refine ⟨hring.onList_iff.mpr hmem, ?_, ?_⟩
  · exact (hk.ptrOf (.statusList .statusPartial) hlists.cache).trans hchain.1
  · exact (hk.ptrOf .slabPrev h.slab₀.1).trans (if_pos ⟨rfl, rfl⟩)

theorem BootMade.slabTaken_not_accounted (hk : Shows k (t.slabTaken v o)) : ¬k.Accounted := by
  rintro ⟨L, O, hall, -⟩
  obtain ⟨hcache, hlist, hprev⟩ := h.slabTaken_shown hk
  have hlinked := (hall _ hcache).linked .statusPartial
  rw [hlist] at hlinked
  obtain ⟨xs, hxs⟩ := hlinked.toChain.eq_cons
  rw [hxs] at hlinked
  rw [hlinked.2.1] at hprev
  exact absurd hprev.symm (Option.some_ne_none _)

end

/-- A slab that has been taken for a region is no longer linked as a slab. -/
theorem slabRun_not_accounted : ¬∀ depth k free k' s, SlabBootReady k free → 5 ≤ depth →
    objsCacheBootInit (depth + 1) k = .ok ((), k') → SlabRun depth (.start k') s →
      s.kernel.Accounted := by
  intro hclaim
  obtain ⟨k, free, k₀, k₁, hready, hboot, hrun, W, t₁, o, t, blocks, live, -, hk₁, hmade⟩ :=
    slabKernel_takesSlab (by decide : 2 ≤ 5)
  exact hmade.slabTaken_not_accounted hk₁ (hclaim 5 k free k₀ _ hready (le_refl 5) hboot hrun)

end Atros
