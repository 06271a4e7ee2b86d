import Atros.PhysicalGrowth
import Atros.RecursivePaging
import Atros.RegionAlloc
import Atros.SlabAdd
import Atros.SlabInit

namespace Atros
set_option autoImplicit true

variable {W W' W₁ : World} {H H' : Heap} {t t' t₁ : View} {E : Panic → Prop}

/-! ### The memory management as a whole -/

/-- The cache whose objects are the structures of a kind. -/
def World.homeOf (W : World) : Struct → Nat
  | .vregion => W.cacheVregion
  | .slab => W.cacheSlab
  | _ => W.cacheObjsCache

/-- The places for objects in a slab. -/
def World.places (W : World) (c s : Nat) : List Nat :=
  objsFrom ((W.extent (W.region s)).base * 4096) (W.size c) (W.per c)

/-- The pointers of the list of caches. -/
def Heap.cacheLinks (H : Heap) : Links Nat := ⟨H.ptr .cacheNext, H.ptr .cachePrev⟩

/-- The caches of caches, of slabs and of regions. -/
structure World.OwnCaches (W : World) (k : Kernel) : Prop where
  objsCacheVar : k.cacheObjsCache = some W.cacheObjsCache
  slabVar : k.cacheSlab = some W.cacheSlab
  vregionVar : k.cacheVregion = some W.cacheVregion
  vpagesVar : k.vpagesCacheVregion = some W.cacheVregion
  mem : ∀ k, W.homeOf k ∈ W.caches
  apart : W.cacheObjsCache ≠ W.cacheSlab ∧ W.cacheObjsCache ≠ W.cacheVregion ∧
    W.cacheSlab ≠ W.cacheVregion
  size : ∀ k, k ≠ .object → W.size (W.homeOf k) = k.size
  pages : ∀ k, W.pages (W.homeOf k) = 1

/-- Every cache is on the list of caches and in order. -/
structure World.CachesOk (W : World) (t : View) : Prop where
  own : W.OwnCaches t.rest
  ring : t.heap.cacheLinks.Ring t.rest.cachesClist W.caches
  cache : ∀ c ∈ W.caches, W.CacheOk t.heap c

/-- The slots are the places of the slabs, and structures are objects of their caches. -/
structure World.Placed (W : World) (H : Heap) : Prop where
  slot : ∀ a u, H.slot a = some u ↔
    ∃ c ∈ W.caches, ∃ s ∈ W.all c, u = ⟨s, W.size c⟩ ∧ a ∈ W.places c s
  home : ∀ a k, k ≠ .object → H.struct a = some k →
    ∃ s ∈ W.all (W.homeOf k), H.slot a = some ⟨s, W.size (W.homeOf k)⟩

/-- The regions of the slabs. -/
structure World.SlabRegions (W : World) : Prop where
  apart : W.usedRegions.Pairwise fun r r' => (W.extent r).Apart (W.extent r')
  range : ∀ r ∈ W.freeRegions ++ W.usedRegions,
    1 ≤ (W.extent r).base ∧ (W.extent r).base + (W.extent r).len ≤ 1023 * 1024
  region : ∀ c ∈ W.caches, ∀ s ∈ W.all c,
    W.region s ∈ W.usedRegions ∧ (W.extent (W.region s)).len = W.pages c
  inj : ∀ c ∈ W.caches, ∀ c' ∈ W.caches, ∀ s ∈ W.all c, ∀ s' ∈ W.all c',
    W.region s = W.region s' → s = s'

/-- The physical pages of the slabs. -/
structure World.Backed (W : World) (k : Kernel) : Prop where
  tables : k.paging.RecursiveTables
  present : ∀ r ∈ W.freeRegions ++ W.usedRegions, ∀ v ∈ W.extent r,
    entryPresent (k.paging.pde (v / 2 ^ 10))
  lastPpn_lt : k.phys.lastPpn + 1 ≤ 2 ^ 20
  phys : k.phys.Grown W.freeBlocks W.live
  block : ∀ c ∈ W.caches, ∀ s ∈ W.all c,
    W.block s ∈ W.live ∧ W.pages c ≤ 2 ^ (W.block s).order
  inj : ∀ c ∈ W.caches, ∀ c' ∈ W.caches, ∀ s ∈ W.all c, ∀ s' ∈ W.all c',
    W.block s = W.block s' → s = s'
  mapped : ∀ c ∈ W.caches, ∀ s ∈ W.all c, ∀ i < W.pages c, ∀ o < 2 ^ 12,
    k.paging.walk (((W.extent (W.region s)).base + i) * 2 ^ 12 + o) =
      some (((W.block s).ppn + i) * 2 ^ 12 + o)

/-- The invariant of the slab allocator over regions and physical pages. -/
structure World.Sound (W : World) (t : View) : Prop where
  caches : W.CachesOk t
  placed : W.Placed t.heap
  regions : W.RegionsOk t
  slabRegions : W.SlabRegions
  backed : W.Backed t.rest

theorem World.Sound.slab_mem (h : W.Sound t) : W.cacheSlab ∈ W.caches := h.caches.own.mem .slab

theorem World.Sound.vregion_mem (h : W.Sound t) : W.cacheVregion ∈ W.caches :=
  h.caches.own.mem .vregion

/-- What no operation takes back. -/
structure World.Grows (W : World) (t : View) (W' : World) (t' : View) : Prop where
  own : ∀ k, W'.homeOf k = W.homeOf k
  caches : ∀ c ∈ W.caches, c ∈ W'.caches
  attrs : ∀ c ∈ W.caches, W'.size c = W.size c ∧ W'.pages c = W.pages c
  slabs : ∀ c ∈ W.caches, ∀ s ∈ W.all c,
    s ∈ W'.all c ∧ W'.region s = W.region s ∧ W'.block s = W.block s
  regions : ∀ r ∈ W.usedRegions, r ∈ W'.usedRegions ∧ W'.extent r = W.extent r
  cover : ∀ v, Covers (W'.freeRegions ++ W'.usedRegions) W'.extent v ↔
    Covers (W.freeRegions ++ W.usedRegions) W.extent v
  slots : ∀ a u, t.heap.slot a = some u → t'.heap.slot a = some u
  out : ∀ a, t.heap.slot a ≠ none → t.heap.struct a = none → t'.heap.struct a = none
  typed : ∀ a k, k ≠ .object → t.heap.struct a = some k → t'.heap.struct a = some k
  blocks : ∀ x, InFree W'.freeBlocks x → InFree W.freeBlocks x
  live : ∀ b ∈ W'.live, b ∈ W.live ∨ ∀ x ∈ b.pages, InFree W.freeBlocks x
  slabOf : ∀ c ∈ W.caches, ∀ s ∈ W.all c, ∀ x ∈ (W.block s).pages,
    (t'.rest.phys.dscrs x).slab = (t.rest.phys.dscrs x).slab

theorem World.Grows.refl (W : World) (t : View) : W.Grows t W t where
  own _ := rfl
  caches _ h := h
  attrs _ _ := ⟨rfl, rfl⟩
  slabs _ _ _ h := ⟨h, rfl, rfl⟩
  regions _ h := ⟨h, rfl⟩
  cover _ := Iff.rfl
  slots _ _ h := h
  out _ _ h := h
  typed _ _ _ h := h
  blocks _ h := h
  live _ h := .inl h
  slabOf _ _ _ _ _ _ := rfl

theorem World.Grows.trans (h : W.Grows t W₁ t₁) (h' : W₁.Grows t₁ W' t') : W.Grows t W' t' where
  own k := (h'.own k).trans (h.own k)
  caches c hc := h'.caches c (h.caches c hc)
  attrs c hc := ⟨(h'.attrs c (h.caches c hc)).1.trans (h.attrs c hc).1,
    (h'.attrs c (h.caches c hc)).2.trans (h.attrs c hc).2⟩
  slabs c hc s hs := by
    obtain ⟨hs₁, hregion, hblock⟩ := h.slabs c hc s hs
    obtain ⟨hs', hregion', hblock'⟩ := h'.slabs c (h.caches c hc) s hs₁
    exact ⟨hs', hregion'.trans hregion, hblock'.trans hblock⟩
  regions r hr := by
    obtain ⟨hr₁, hext⟩ := h.regions r hr
    obtain ⟨hr', hext'⟩ := h'.regions r hr₁
    exact ⟨hr', hext'.trans hext⟩
  cover v := (h'.cover v).trans (h.cover v)
  slots a u hu := h'.slots a u (h.slots a u hu)
  out a hslot ha := by
    refine h'.out a ?_ (h.out a hslot ha)
    obtain ⟨u, hu⟩ := Option.ne_none_iff_exists'.mp hslot
    rw [h.slots a u hu]
    exact Option.some_ne_none u
  typed a k hk ha := h'.typed a k hk (h.typed a k hk ha)
  blocks x hx := h.blocks x (h'.blocks x hx)
  live b hb := by
    rcases h'.live b hb with hb | hb
    · exact h.live b hb
    · exact .inr fun x hx => h.blocks x (hb x hx)
  slabOf c hc s hs x hx := by
    obtain ⟨hs₁, -, hblock⟩ := h.slabs c hc s hs
    rw [h'.slabOf c (h.caches c hc) s hs₁ x (hblock ▸ hx), h.slabOf c hc s hs x hx]

/-- An object of the cache `c` that has been handed out. -/
structure World.Out (W : World) (H : Heap) (c o : Nat) : Prop where
  untyped : H.struct o = none
  slot : ∃ s ∈ W.all c, H.slot o = some ⟨s, W.size c⟩

/-- The address is no object that has been handed out. -/
def Heap.NotOut (H : Heap) (a : Nat) : Prop := H.slot a ≠ none → H.struct a ≠ none

theorem Heap.NotOut.before (h : t'.heap.NotOut a) (hg : W.Grows t W' t') : t.heap.NotOut a := by
  intro hslot hn
  refine h ?_ (hg.out a hslot hn)
  obtain ⟨u, hu⟩ := Option.ne_none_iff_exists'.mp hslot
  rw [hg.slots a u hu]
  exact Option.some_ne_none u

theorem World.Out.grows (h : W.Out t.heap c o) (hc : c ∈ W.caches) (hg : W.Grows t W' t') :
    W'.Out t'.heap c o := by
  obtain ⟨s, hs, hslot⟩ := h.slot
  refine ⟨hg.out o ?_ h.untyped, s, (hg.slabs c hc s hs).1, ?_⟩
  · rw [hslot]
    exact Option.some_ne_none _
  · rw [hg.slots o _ hslot, (hg.attrs c hc).1]

end Atros
