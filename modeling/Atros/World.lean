import Mathlib.Data.List.Count
import Mathlib.Algebra.BigOperators.Group.List.Basic
import Atros.SlabLists
import Atros.PhysicalAlloc

namespace Atros
set_option autoImplicit true

/-- What the memory of the slabs holds: the nodes of every list, the place of every slab, and
what each structure is for. -/
structure World where
  cacheObjsCache : Nat
  cacheSlab : Nat
  cacheVregion : Nat
  caches : List Nat
  /-- The slabs of a cache, by their status. -/
  slabs : Nat → SlabStatus → List Nat
  /-- The free objects of a slab. -/
  objs : Nat → List Nat
  /-- The cache of a slab. -/
  owner : Nat → Nat
  /-- The actual size of the objects of a cache. -/
  size : Nat → Nat
  /-- The pages of each slab of a cache. -/
  pages : Nat → Nat
  /-- The descriptor of the region of a slab. -/
  region : Nat → Nat
  freeRegions : List Nat
  usedRegions : List Nat
  /-- The pages of a region. -/
  extent : Nat → Extent
  /-- The physical pages of a slab. -/
  block : Nat → Block
  freeBlocks : List Block
  live : List Block

variable {W W' : World} {H H' : Heap} {F : Struct → Nat → Prop}

/-! ### Lists by status -/

def allOf (L : SlabStatus → List Nat) : List Nat :=
  L .statusFree ++ L .statusPartial ++ L .statusFull

theorem mem_allOf {L : SlabStatus → List Nat} : s ∈ allOf L ↔ ∃ st, s ∈ L st := by
  rw [allOf, List.mem_append, List.mem_append]
  constructor
  · rintro ((h | h) | h) <;> exact ⟨_, h⟩
  · rintro ⟨st, h⟩
    cases st with
    | statusFree => exact .inl (.inl h)
    | statusPartial => exact .inl (.inr h)
    | statusFull => exact .inr h

theorem moved_perm {L : SlabStatus → List Nat} (hL : L source = s :: xs) (hne : source ≠ target) :
    (allOf (moved L source target s xs)).Perm (allOf L) := by
  rw [List.perm_iff_count]
  intro a
  have hs := congrArg (List.count a) hL
  cases source <;> cases target <;> first | exact absurd rfl hne | skip
  all_goals
    simp only [allOf, moved, Function.update_apply, List.count_append, List.count_cons,
      reduceCtorEq, if_true, if_false] at *
    omega

theorem push_perm (L : SlabStatus → List Nat) (st : SlabStatus) (s : Nat) :
    (allOf (Function.update L st (s :: L st))).Perm (s :: allOf L) := by
  rw [List.perm_iff_count]
  intro a
  cases st
  all_goals
    simp only [allOf, Function.update_apply, List.count_append, List.count_cons, reduceCtorEq,
      if_true, if_false]
    omega

theorem Heap.Lists.nodup_all (h : H.Lists c L) : (allOf L).Nodup := by
  rw [allOf, List.nodup_append, List.nodup_append]
  refine ⟨⟨h.nodup _, h.nodup _, ?_⟩, h.nodup _, ?_⟩
  · rintro a ha _ hb rfl
    exact nomatch h.apart _ _ a ha hb
  · rintro a ha _ hb rfl
    rcases List.mem_append.mp ha with ha | ha
    · exact nomatch h.apart _ _ a ha hb
    · exact nomatch h.apart _ _ a ha hb

/-! ### A cache -/

/-- The number of objects of a slab. -/
def World.per (W : World) (c : Nat) : Nat := mul32 (W.pages c) vpageSize / W.size c

def World.all (W : World) (c : Nat) : List Nat := allOf (W.slabs c)

/-- The number of free objects of a cache. -/
def World.freeObjs (W : World) (c : Nat) : Nat := ((W.all c).map fun s => (W.objs s).length).sum

/-- The status of a slab that has `n` of its `per` objects free. -/
def statusOf (per n : Nat) : SlabStatus :=
  if n = per then .statusFree else if n = 0 then .statusFull else .statusPartial

theorem statusOf_zero (h : 0 < per) : statusOf per 0 = .statusFull := by
  rw [statusOf, if_neg (Nat.ne_of_lt h), if_pos rfl]

theorem statusOf_between (h : n ≠ 0) (hlt : n < per) : statusOf per n = .statusPartial := by
  rw [statusOf, if_neg (Nat.ne_of_lt hlt), if_neg h]

/-- The slab `s` of the cache `c` and its list of free objects. -/
structure World.SlabOk (W : World) (H : Heap) (c s : Nat) : Prop where
  count : H.word .slabFreeObjsCount s = (W.objs s).length
  chain : Chain (H.ptr .objectNext) (H.ptr .freeObjsList s) (W.objs s)
  obj : ∀ o ∈ W.objs s, H.struct o = some .object ∧ H.slot o = some ⟨s, W.size c⟩
  region : H.ptr .slabVregion s = some (W.region s)
  owner : W.owner s = c
  room : (W.objs s).length ≤ W.per c

/-- The cache `c`, its lists and its counters. -/
structure World.CacheOk (W : World) (H : Heap) (c : Nat) : Prop where
  lists : H.Lists c (W.slabs c)
  slab : ∀ st, ∀ s ∈ W.slabs c st, W.SlabOk H c s ∧ statusOf (W.per c) (W.objs s).length = st
  statusCount : ∀ st, H.word (.statusCount st) c = (W.slabs c st).length
  slabsCount : H.word .slabsCount c = (W.all c).length
  freeCount : H.word .freeObjsCount c = W.freeObjs c
  usedCount : H.word .usedObjsCount c + H.word .freeObjsCount c = W.per c * (W.all c).length
  actualObjSize : H.word .actualObjSize c = W.size c
  pagesPerSlab : H.word .pagesPerSlab c = W.pages c
  objsPerSlab : H.word .objsPerSlab c = W.per c
  size_ge : 4 ≤ W.size c
  per_pos : 1 ≤ W.per c
  room : W.per c * (W.all c).length < 2 ^ 32

/-- The structures of a cache. -/
def World.Owned (W : World) (c : Nat) : Struct → Nat → Prop
  | .cache, a => a = c
  | .slab, a => a ∈ W.all c
  | .object, a => ∃ s ∈ W.all c, a ∈ W.objs s
  | .vregion, _ => False

theorem World.CacheOk.slabOk (h : W.CacheOk H c) (hs : s ∈ W.all c) : W.SlabOk H c s := by
  obtain ⟨st, hst⟩ := mem_allOf.mp hs
  exact (h.slab st s hst).1

theorem World.CacheOk.typed (h : W.CacheOk H c) (ha : W.Owned c k a) : H.struct a = some k := by
  cases k with
  | cache =>
    cases ha
    exact h.lists.cache
  | slab =>
    obtain ⟨st, hst⟩ := mem_allOf.mp ha
    exact h.lists.slab st a hst
  | object =>
    obtain ⟨s, hs, ho⟩ := ha
    exact ((h.slabOk hs).obj a ho).1
  | vregion => exact ha.elim

/-- Two worlds that agree on the cache `c`. -/
structure World.SameCache (W W' : World) (c : Nat) : Prop where
  slabs : W'.slabs c = W.slabs c
  size : W'.size c = W.size c
  pages : W'.pages c = W.pages c
  slab : ∀ s ∈ W.all c, W'.objs s = W.objs s ∧ W'.region s = W.region s ∧ W'.owner s = W.owner s

theorem World.SameCache.all (h : W.SameCache W' c) : W'.all c = W.all c := by
  rw [World.all, h.slabs, World.all]

theorem World.SameCache.per (h : W.SameCache W' c) : W'.per c = W.per c := by
  rw [World.per, h.size, h.pages, World.per]

theorem World.SameCache.freeObjs (h : W.SameCache W' c) : W'.freeObjs c = W.freeObjs c := by
  rw [World.freeObjs, h.all]
  refine congrArg List.sum (List.map_congr_left ?_)
  intro s hs
  rw [(h.slab s hs).1]

/-- A slab keeps its description when its fields and those of its free objects do. -/
theorem World.SlabOk.congr (h : W.SlabOk H c s) (hobjs : W'.objs s = W.objs s)
    (hregion : W'.region s = W.region s) (howner : W'.owner s = W.owner s)
    (hsize : W'.size c = W.size c) (hper : W'.per c = W.per c)
    (hH : H.ChangesOnly F H') (hF : ¬F .slab s) (hFo : ∀ o ∈ W.objs s, ¬F .object o) :
    W'.SlabOk H' c s := by
  refine ⟨?_, ?_, ?_, ?_, howner.trans h.owner, ?_⟩
  · rw [hH.word .slabFreeObjsCount s hF, h.count, hobjs]
  · rw [hH.ptr .freeObjsList s hF, hobjs]
    exact h.chain.congr fun o ho => hH.ptr .objectNext o (hFo o ho)
  · intro o ho
    rw [hobjs] at ho
    obtain ⟨hstruct, hslot⟩ := h.obj o ho
    rw [hsize]
    exact ⟨hH.struct _ o (hFo o ho) hstruct, hH.slot o _ hslot⟩
  · rw [hH.ptr .slabVregion s hF, h.region, hregion]
  · rw [hobjs, hper]
    exact h.room

theorem Heap.Lists.congr (h : H.Lists c L) (hH : H.ChangesOnly F H') (hc : ¬F .cache c)
    (hF : ∀ st, ∀ s ∈ L st, ¬F .slab s) : H'.Lists c L := by
  refine ⟨hH.struct _ c hc h.cache, fun st s hs => hH.struct _ s (hF st s hs) (h.slab st s hs),
    ?_, h.apart⟩
  intro st
  rw [hH.ptr (.statusList st) c hc]
  exact (h.chain st).congr (fun s hs => hH.ptr .slabNext s (hF st s hs)) fun s hs =>
    hH.ptr .slabPrev s (hF st s hs)

theorem World.CacheOk.congr (h : W.CacheOk H c) (hW : W.SameCache W' c)
    (hH : H.ChangesOnly F H') (hF : ∀ k a, W.Owned c k a → ¬F k a) : W'.CacheOk H' c := by
  have hc : ¬F .cache c := hF .cache c rfl
  have hs : ∀ st, ∀ s ∈ W.slabs c st, ¬F .slab s := fun st s hmem =>
    hF .slab s (mem_allOf.mpr ⟨st, hmem⟩)
  refine ⟨?_, ?_, ?_, ?_, ?_, ?_, ?_, ?_, ?_, ?_, ?_, ?_⟩
  · rw [hW.slabs]
    exact h.lists.congr hH hc hs
  · intro st s hmem
    rw [hW.slabs] at hmem
    have hall : s ∈ W.all c := mem_allOf.mpr ⟨st, hmem⟩
    obtain ⟨hobjs, hregion, howner⟩ := hW.slab s hall
    obtain ⟨hok, hst⟩ := h.slab st s hmem
    refine ⟨hok.congr hobjs hregion howner hW.size hW.per hH (hs st s hmem) ?_, ?_⟩
    · exact fun o ho => hF .object o ⟨s, hall, ho⟩
    · rw [hW.per, hobjs, hst]
  · intro st
    rw [hH.word (.statusCount st) c hc, h.statusCount, hW.slabs]
  · rw [hH.word .slabsCount c hc, h.slabsCount, hW.all]
  · rw [hH.word .freeObjsCount c hc, h.freeCount, hW.freeObjs]
  · rw [hH.word .usedObjsCount c hc, hH.word .freeObjsCount c hc, h.usedCount, hW.per, hW.all]
  · rw [hH.word .actualObjSize c hc, h.actualObjSize, hW.size]
  · rw [hH.word .pagesPerSlab c hc, h.pagesPerSlab, hW.pages]
  · rw [hH.word .objsPerSlab c hc, h.objsPerSlab, hW.per]
  · rw [hW.size]
    exact h.size_ge
  · rw [hW.per]
    exact h.per_pos
  · rw [hW.per, hW.all]
    exact h.room

end Atros
