import Atros.KernelLists
import Atros.RegionRuns

namespace Atros
set_option autoImplicit true

/-! ### What a request for a region answers -/

/-- `cache_Vregion` of virtual_pages.c has a free object. -/
def Kernel.VregionFree (k : Kernel) : Prop :=
  ∃ c, k.vpagesCacheVregion = some c ∧ 1 ≤ k.wordOf .freeObjsCount c

/-- Requests of at least one page to `_vregion_alloc` lead from `k` to the kernel. -/
inductive RequestsFrom (k : Kernel) : Kernel → Prop
  | start : RequestsFrom k k
  | request (h : RequestsFrom k k₁) (hn : 1 ≤ n) (hfree : k₁.VregionFree)
      (hrun : Atros.vregionAlloc_ n k₁ = .ok (x, k')) : RequestsFrom k k'

variable {W W' : World} {t t' : View} {k k' k₀ k₁ : Kernel}

def Kernel.OnFree (k : Kernel) (r : Nat) : Prop := OnList (k.ptrOf .vregionNext) k.freeVregions r

def Kernel.OnUsed (k : Kernel) (r : Nat) : Prop := OnList (k.ptrOf .vregionNext) k.usedVregions r

/-- Both lists of regions are as before, and so are the regions on them. -/
structure Kernel.SameRegions (k k' : Kernel) : Prop where
  free : k'.freeVregions = k.freeVregions
  used : k'.usedVregions = k.usedVregions
  region : ∀ r, k.OnFree r ∨ k.OnUsed r → k'.ptrOf .vregionNext r = k.ptrOf .vregionNext r ∧
    k'.wordOf .firstVpn r = k.wordOf .firstVpn r ∧ k'.wordOf .nbrPages r = k.wordOf .nbrPages r

/-- The request returns a used region of exactly `n` pages, or a null pointer and changes no
list. -/
def Kernel.Answers (k : Kernel) (n : Nat) : Prop :=
  ∃ x k', Atros.vregionAlloc_ n k = .ok (x, k') ∧
    match x with
    | some r => k'.OnUsed r ∧ k'.wordOf .nbrPages r = n
    | none => k.SameRegions k'

/-- Sound, with one region free at most. -/
def Kernel.Steady (k : Kernel) : Prop := ∃ (W : World) (t : View), Shows k t ∧ W.Sound t ∧ W.Bottom

section
variable (hk : Shows k t) (h : W.RegionsOk t)
include hk h

theorem World.RegionsOk.freeHead : k.freeVregions = W.freeRegions.head? :=
  hk.freeVregions.trans h.free.1.head

theorem World.RegionsOk.usedHead : k.usedVregions = W.usedRegions.head? :=
  hk.usedVregions.trans h.used.1.head

theorem World.RegionsOk.onFree_iff : k.OnFree r ↔ r ∈ W.freeRegions := by
  have hch := hk.chain .vregionNext h.free.1 h.free.2
  rw [Kernel.OnFree, hk.freeVregions]
  exact hch.onList_iff

theorem World.RegionsOk.onUsed_iff : k.OnUsed r ↔ r ∈ W.usedRegions := by
  have hch := hk.chain .vregionNext h.used.1 h.used.2
  rw [Kernel.OnUsed, hk.usedVregions]
  exact hch.onList_iff

theorem World.RegionsOk.sameRegions (hk' : Shows k' t) : k.SameRegions k' := by
  refine ⟨?_, ?_, fun r hr => ?_⟩
  · rw [h.freeHead hk, h.freeHead hk']
  · rw [h.usedHead hk, h.usedHead hk']
  · have htyped : t.heap.struct r = some .vregion := by
      rw [h.onFree_iff hk, h.onUsed_iff hk] at hr
      exact hr.elim (h.free.2 r) (h.used.2 r)
    rw [hk'.ptrOf .vregionNext htyped, hk.ptrOf .vregionNext htyped, hk'.wordOf .firstVpn htyped,
      hk.wordOf .firstVpn htyped, hk'.wordOf .nbrPages htyped, hk.wordOf .nbrPages htyped]
    exact ⟨rfl, rfl, rfl⟩

end

theorem World.Sound.vregionFree_iff (hk : Shows k t) (h : W.Sound t) :
    k.VregionFree ↔ 0 < W.freeObjs W.cacheVregion := by
  have hvar : k.vpagesCacheVregion = some W.cacheVregion := h.reads_vpagesCacheVregion k hk
  have hcache := h.caches.cache _ h.vregion_mem
  have hcount : k.wordOf .freeObjsCount W.cacheVregion = W.freeObjs W.cacheVregion := by
    rw [hk.wordOf .freeObjsCount hcache.lists.cache, hcache.freeCount]
  constructor
  · rintro ⟨c, hc, hpos⟩
    obtain rfl := Option.some.inj (hvar.symm.trans hc)
    rwa [hcount] at hpos
  · exact fun hpos => ⟨_, hvar, hcount ▸ hpos⟩

theorem Kernel.Steady.request (h : k.Steady) (hrun : Atros.vregionAlloc_ n k = .ok (x, k')) :
    k'.Steady := by
  obtain ⟨W, t, hk, hs, hb⟩ := h
  have hend := hs.vregionAlloc_ (n := n) (E := fun _ => True) (.inl trivial) (.inl fun _ => trivial)
    k hk
  obtain ⟨t', hk', hx⟩ := hend.ok hrun
  rcases hx with ⟨-, rfl, -⟩ | ⟨r, W', -, hout⟩
  · exact ⟨W, t', hk', hs, hb⟩
  · exact ⟨W', t', hk', hout.sound, hout.bottom hb⟩

theorem RequestsFrom.steady (h : RequestsFrom k k') (hk : k.Steady) : k'.Steady := by
  induction h with
  | start => exact hk
  | request _ _ _ hrun ih => exact ih.request hrun

/-- In a steady state a request is answered exactly when the list of free regions is not empty. -/
theorem Kernel.Steady.answers_iff (h : k.Steady) (hfree : k.VregionFree) :
    k.Answers n ↔ k.freeVregions ≠ none := by
  obtain ⟨W, t, hk, hs, hb⟩ := h
  rw [hs.vregionFree_iff hk] at hfree
  have hhead := hs.regions.freeHead hk
  constructor
  · rintro ⟨x, k', hrun, -⟩ hnone
    have hfault : Atros.vregionAlloc_ n k = .error .noFreeVregion := by
      unfold Atros.vregionAlloc_
      have hread : freeVregionsVar.read k = .ok (k.freeVregions, k) := rfl
      rw [bind_ok hread, bind_error (check_error fun hne => hne hnone)]
    rw [hfault] at hrun
    exact nomatch hrun
  · intro hne
    have hnil : W.freeRegions ≠ [] := by
      rw [hhead, Ne, List.head?_eq_none_iff] at hne
      exact hne
    obtain ⟨x, k', hrun, t', hk', hx⟩ := (hs.vregionAlloc_ (n := n) (E := fun _ => False)
      (.inr hnil) (.inr ⟨hfree, hb.below⟩) k hk).returns
    refine ⟨x, k', hrun, ?_⟩
    rcases hx with ⟨rfl, rfl, -⟩ | ⟨r, W', rfl, hout⟩
    · exact hs.regions.sameRegions hk hk'
    · have hregions := hout.sound.regions
      have htyped := hregions.used.2 r hout.used
      refine ⟨(hregions.onUsed_iff hk').mpr hout.used, ?_⟩
      rw [hk'.wordOf .nbrPages htyped, (hregions.words r (List.mem_append_right _ hout.used)).2,
        hout.taken.taken]

theorem SlabBooted.steady (h : SlabBooted k free k') : k'.Steady := by
  obtain ⟨t, W, free', hk', hleft, -⟩ := h
  exact ⟨W, t, hk', hleft.ready.sound, hleft.ready.bottom⟩

/-- From the state left by boot, requests are answered as long as a region is free. -/
theorem vregionAlloc_answers_iff (hk : SlabBootReady k free)
    (hspare : bootSpare k.bootVpn.firstFree k.mem = none) (hd : 2 ≤ depth)
    (hboot : objsCacheBootInit (depth + 1) k = .ok ((), k₀)) (hreq : RequestsFrom k₀ k₁)
    (hfree : k₁.VregionFree) : k₁.Answers n ↔ k₁.freeVregions ≠ none := by
  have hbooted := hk.booted hspare hd hboot
  exact (hreq.steady hbooted.steady).answers_iff hfree

theorem slabKernel_takesAll : ∃ k free k₀ k₁, SlabBootReady k free ∧
    bootSpare k.bootVpn.firstFree k.mem = none ∧ objsCacheBootInit 3 k = .ok ((), k₀) ∧
      RequestsFrom k₀ k₁ ∧ k₁.VregionFree ∧ k₁.freeVregions = none := by
  obtain ⟨k, free, k₀, hready, hspare, hboot, W, t, blocks, hk₀, hleft, -⟩ :=
    slabKernel_booted (le_refl 2)
  obtain ⟨r, k₁, W', t', hok, hk₁, hout⟩ :=
    hleft.ready.takesRegion hk₀ (hleft.fits (n := 718) (by decide))
  have hsound := hleft.ready.sound
  obtain ⟨o, hfree, hext⟩ := hleft.free
  obtain rfl : r = o := by
    have hr := hout.free
    rw [hfree] at hr
    exact List.mem_singleton.mp hr
  have hlen : (W.extent r).len = 718 := by rw [hext]
  have hnil : W'.freeRegions = [] := by
    obtain ⟨as, bs, hsplit, -, hcase⟩ := hout.taken.shape
    have hone := congrArg List.length hsplit
    rw [hfree, List.length_singleton, List.length_append, List.length_cons] at hone
    have has : as = [] := List.length_eq_zero_iff.mp (by omega)
    have hbs : bs = [] := List.length_eq_zero_iff.mp (by omega)
    rcases hcase with ⟨hfree', -⟩ | ⟨-, -, hlt, -⟩
    · rw [hfree', has, hbs]
      rfl
    · omega
  have hcount : W'.freeObjs W'.cacheVregion = 337 := by
    have hcount := hout.taken.count
    rw [if_neg (by omega), hleft.regions] at hcount
    rw [hout.grows.cacheVregion]
    exact hcount
  refine ⟨k, free, k₀, k₁, hready, hspare, hboot, .request .start (by decide) ?_ hok, ?_, ?_⟩
  · rw [hsound.vregionFree_iff hk₀, hleft.regions]
    decide
  · rw [hout.sound.vregionFree_iff hk₁, hcount]
    decide
  · rw [hout.sound.regions.freeHead hk₁, hnil]
    rfl

/-- A request stops with a failed assertion when a request before it took the last free pages. -/
theorem vregionAlloc_crashes : ¬∀ depth k free k₀ k₁ n, SlabBootReady k free →
    objsCacheBootInit (depth + 1) k = .ok ((), k₀) → RequestsFrom k₀ k₁ → 1 ≤ n →
    k₁.VregionFree → k₁.Answers n := by
  intro hclaim
  obtain ⟨k, free, k₀, k₁, hready, hspare, hboot, hreq, hfree, hnone⟩ := slabKernel_takesAll
  have hanswers := hclaim 2 k free k₀ k₁ 1 hready hboot hreq (le_refl 1) hfree
  have hbooted := hready.booted hspare (le_refl 2) hboot
  exact ((hreq.steady hbooted.steady).answers_iff hfree).mp hanswers hnone

theorem vregionAlloc_answers_iff_slabKernel :
    ∃ k₁ : Kernel, k₁.VregionFree ∧ k₁.freeVregions = none ∧
      (k₁.Answers 1 ↔ k₁.freeVregions ≠ none) := by
  obtain ⟨k, free, k₀, k₁, hready, hspare, hboot, hreq, hfree, hnone⟩ := slabKernel_takesAll
  exact ⟨k₁, hfree, hnone, vregionAlloc_answers_iff hready hspare (le_refl 2) hboot hreq hfree⟩

end Atros
