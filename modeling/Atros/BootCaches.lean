import Atros.BootSlabs

namespace Atros
set_option autoImplicit true

variable {W : World} {H H' : Heap} {t t' : View} {E : Panic → Prop} {Q : α → View → Prop} {v : Nat}
  {spare : Option Nat} {ds dc added : List Struct} {block : Struct → Block} {free live : List Block}

/-! ### The caches made at boot -/

theorem Heap.EmptyCache.congr {F : Struct → Nat → Prop} (h : H.EmptyCache o objSize pages)
    (hH : H.ChangesOnly F H') (ho : ¬F .cache o) : H'.EmptyCache o objSize pages where
  struct := hH.struct _ o ho h.struct
  actualObjSize := (hH.word .actualObjSize o ho).trans h.actualObjSize
  pagesPerSlab := (hH.word .pagesPerSlab o ho).trans h.pagesPerSlab
  slabSize := (hH.word .slabSize o ho).trans h.slabSize
  objsPerSlab := (hH.word .objsPerSlab o ho).trans h.objsPerSlab
  wasted := (hH.word .wastedMemoryPerSlab o ho).trans h.wasted
  freeCount := (hH.word .freeObjsCount o ho).trans h.freeCount
  usedCount := (hH.word .usedObjsCount o ho).trans h.usedCount
  slabsCount := (hH.word .slabsCount o ho).trans h.slabsCount
  statusCount st := (hH.word (.statusCount st) o ho).trans (h.statusCount st)
  statusList st := (hH.ptr (.statusList st) o ho).trans (h.statusList st)

theorem BootTyped.congr (hds : ∀ k, k ∈ ds ↔ k ∈ ds') (hdc : ∀ k, k ∈ dc ↔ k ∈ dc') :
    BootTyped v ds dc k x ↔ BootTyped v ds' dc' k x := by
  cases k <;> simp only [BootTyped, hds, hdc]

theorem Booting.congr (h : Booting v spare ds dc t) (hds : ∀ k, k ∈ ds ↔ k ∈ ds')
    (hdc : ∀ k, k ∈ dc ↔ k ∈ dc') : Booting v spare ds' dc' t where
  kinds := ⟨fun k hk => h.kinds.1 ((hds k).mpr hk), fun k hk => h.kinds.2 ((hdc k).mpr hk)⟩
  slot := h.slot
  struct x k := (h.struct x k).trans (BootTyped.congr hds hdc)
  words := h.words
  next := h.next
  spare_eq := h.spare_eq
  slab k hk := h.slab k ((hds k).mpr hk)

theorem World.SlabOk.linked (h : W.SlabOk t.heap c s) (ht : t.Linked t') :
    W.SlabOk t'.heap c s := by
  have hptr : ∀ f, f.struct ≠ .cache → t'.heap.ptr f = t.heap.ptr f := by
    intro f hf
    refine ht.ptr f ?_ ?_ <;> rintro rfl <;> exact hf rfl
  refine ⟨?_, ?_, ?_, ?_, h.owner, h.room⟩
  · rw [ht.word]
    exact h.count
  · rw [hptr .objectNext (by decide), hptr .freeObjsList (by decide)]
    exact h.chain
  · rw [ht.struct, ht.slot]
    exact h.obj
  · rw [hptr .slabVregion (by decide)]
    exact h.region

/-- The caches in `dc` have been made, in this order. -/
structure CachesBegun (v : Nat) (spare : Option Nat) (dc : List Struct) (t : View) : Prop where
  booting : Booting v spare bootKinds dc t
  ring : t.heap.cacheLinks.Ring t.rest.cachesClist (dc.map fun k => bootPlace v .cache k.rank)
  empty : ∀ k ∈ dc, t.heap.EmptyCache (bootPlace v .cache k.rank) k.size 1

theorem CachesBegun.made (h : CachesBegun v spare dc t) (hk : k ∈ bootKinds) (hnew : k ∉ dc)
    (hmade : CacheMade t (bootPlace v .cache k.rank) k.size 1
      (dc.map fun k => bootPlace v .cache k.rank) t') : CachesBegun v spare (dc ++ [k]) t' := by
  obtain ⟨t₁, hchanges, hlinked, hstruct, hslot, -⟩ := hmade.step
  have hb := h.booting
  have hcaches : ∀ i ∈ bootKinds, i ≠ k →
      bootPlace v .cache i.rank ≠ bootPlace v .cache k.rank := fun i hi hik heq =>
    hik (bootPlace_rank_inj hi hk heq)
  have hword : ∀ f, f.struct = .vregion → t'.heap.word f = t.heap.word f := by
    intro f hf
    rw [hlinked.word]
    refine funext fun a => hchanges.word f a fun hc => ?_
    rw [hf] at hc
    exact nomatch hc.1
  have hdc : dc ++ [k] ⊆ bootKinds :=
    List.append_subset.mpr ⟨hb.kinds.2, List.cons_subset.mpr ⟨hk, List.nil_subset _⟩⟩
  have hnext : ∀ x, t'.heap.ptr .vregionNext x = t.heap.ptr .vregionNext x := by
    intro x
    rw [hlinked.ptr _ PointerField.noConfusion PointerField.noConfusion]
    exact hchanges.ptr .vregionNext x fun hc => nomatch hc.1
  refine ⟨⟨⟨hb.kinds.1, hdc⟩, ?_, fun x k' => ?_, fun i hi => ?_, ?_, ?_, fun i hi => ?_⟩, ?_,
    fun i hi => ?_⟩
  · rw [hlinked.slot, hslot, hb.slot]
  · rw [hlinked.struct, hstruct, Function.update_apply]
    split
    · rename_i hx
      subst hx
      refine ⟨fun heq => ?_, fun htyped => ?_⟩
      · obtain rfl := Option.some.inj heq
        exact ⟨k, List.mem_append_right _ (List.mem_singleton_self k), rfl⟩
      · have hrank := rank_lt hk
        rcases htyped.place hb.kinds.1 hdc (rank_lt_perPage hk _) with ⟨-, -, h3⟩ | ⟨rfl, -⟩
        · omega
        · rfl
    · rename_i hx
      rw [hb.struct]
      cases k' with
      | vregion | slab | object => exact Iff.rfl
      | cache =>
        constructor
        · rintro ⟨i, hi, heq⟩
          exact ⟨i, List.mem_append_left _ hi, heq⟩
        · rintro ⟨i, hi, heq⟩
          rcases List.mem_append.mp hi with hi | hi
          · exact ⟨i, hi, heq⟩
          · rw [List.mem_singleton.mp hi] at heq
            exact absurd heq hx
  · rw [hword _ rfl, hword _ rfl]
    exact hb.words i hi
  · exact hb.next.congr fun x _ => hnext x
  · rw [hnext, hb.spare_eq]
  · refine World.SlabOk.linked ((hb.slab i hi).congr rfl rfl rfl rfl rfl hchanges ?_ ?_) hlinked
    · exact fun hc => nomatch hc.1
    · exact fun _ _ hc => nomatch hc.1
  · rw [List.map_append]
    exact hmade.ring
  · rcases List.mem_append.mp hi with hi | hi
    · refine ((h.empty i hi).congr hchanges fun hc => ?_).linked hlinked
      exact hcaches i (hb.kinds.2 hi) (fun heq => hnew (heq ▸ hi)) hc.2
    · rw [List.mem_singleton.mp hi]
      exact hmade.empty

theorem CachesBegun.init (h : CachesBegun v spare dc t) (hk : k ∈ bootKinds) (hnew : k ∉ dc)
    (name : Option (List UInt8)) {x : Unit → Prog Panic Kernel α}
    (hx : ∀ t', CachesBegun v spare (dc ++ [k]) t' →
      t'.rest = { t.rest with cachesClist := t'.rest.cachesClist } → Runs Shows E Q (x ()) t') :
    Runs Shows E Q (objsCacheInit (bootPlace v .cache k.rank) name k.size 1 >>= x) t := by
  have hslot : t.heap.slot (bootPlace v .cache k.rank) =
      some ⟨bootPlace v .slab Struct.cache.rank, Struct.cache.size⟩ := by
    rw [h.booting.slot]
    exact bootSlot_iff.mpr ⟨.cache, by decide, k.rank, rank_lt_perPage hk _, rfl, rfl⟩
  have hsize : 0 < k.size ∧ k.size < 2 ^ 32 ∧ k.size ≤ mul32 1 vpageSize := by
    cases k <;> decide
  have hcaches : ∀ c ∈ dc.map fun k => bootPlace v .cache k.rank, t.heap.struct c =
    some .cache := by
    intro c hc
    obtain ⟨i, hi, rfl⟩ := List.mem_map.mp hc
    exact (h.booting.struct _ _).mpr ⟨i, hi, rfl⟩
  refine .bind (objsCacheInit_runs hslot ?_ (h.booting.cache_untyped hk hnew) hsize.1 hsize.2.1
    (by decide) (by decide) hsize.2.2 h.ring hcaches name) ?_
  · exact Nat.le_refl Struct.cache.size
  rintro - t' hmade
  refine hx t' (h.made hk hnew hmade) ?_
  obtain ⟨t₁, -, hlinked, -, -, hrest⟩ := hmade.step
  have hlist := hlinked.rest
  rwa [hrest] at hlist

/-! ### The first slabs are put on their lists -/

/-- The slabs of the kinds in `added` are on the lists of their caches. -/
structure SlabsListed (v : Nat) (spare : Option Nat) (added : List Struct) (t : View) : Prop where
  booting : Booting v spare bootKinds bootKinds t
  ring : t.heap.cacheLinks.Ring t.rest.cachesClist
    (bootKinds.map fun k => bootPlace v .cache k.rank)
  cache : ∀ k ∈ bootKinds, (bootWorld v added (fun _ => ⟨0, 0⟩) [] []).CacheOk t.heap
    (bootPlace v .cache k.rank)

theorem CachesBegun.listed (h : CachesBegun v spare bootKinds t) : SlabsListed v spare [] t := by
  refine ⟨h.booting, h.ring, fun k hk => .of_empty (h.empty k hk) ?_ ?_ rfl ?_⟩
  · funext st
    rw [bootWorld_slabs hk, if_neg fun hc => nomatch hc.1]
  · rw [bootWorld_size hk]
    revert hk
    cases k <;> decide
  · revert hk
    cases k <;> decide

theorem SlabsListed.more (h : SlabsListed v spare added t) (hk : k ∈ bootKinds) (hnew : k ∉ added)
    (hadded : Added (bootWorld v added (fun _ => ⟨0, 0⟩) [] []) t.heap (bootPlace v .cache k.rank)
      (bootPlace v .slab k.rank) .statusPartial t'.heap)
    (hrest : t'.rest = t.rest) : SlabsListed v spare (k :: added) t' := by
  have hb := h.booting
  have hcache := h.cache k hk
  have hcache' := hadded.cache
  rw [bootWorld_withSlab hk hnew] at hcache'
  have hslabs : ∀ i ∈ bootKinds, i ≠ k → bootPlace v .slab i.rank ≠ bootPlace v .slab k.rank :=
    fun i hi hik heq => hik (bootPlace_rank_inj hi hk heq)
  have hregion : ∀ x, ¬(bootWorld v added (fun _ => ⟨0, 0⟩) [] []).OwnedOr
      (bootPlace v .cache k.rank) (bootPlace v .slab k.rank) .vregion x := by
    rintro x (hc | ⟨hc, -⟩)
    · exact hc
    · exact nomatch hc
  refine ⟨⟨hb.kinds, hadded.slots.trans hb.slot, fun x k' => ?_, fun i hi => ?_, ?_, ?_,
    fun i hi => ?_⟩, ?_, fun i hi => ?_⟩
  · rw [hadded.struct]
    exact hb.struct x k'
  · rw [hadded.changes.word .firstVpn _ (hregion _), hadded.changes.word .nbrPages _ (hregion _)]
    exact hb.words i hi
  · exact hb.next.congr fun x _ => hadded.changes.ptr .vregionNext x (hregion x)
  · rw [hadded.changes.ptr .vregionNext _ (hregion _), hb.spare_eq]
  · by_cases hik : i = k
    · subst hik
      have hmem : bootPlace v .slab i.rank ∈
          (bootWorld v (i :: added) (fun _ => ⟨0, 0⟩) [] []).all (bootPlace v .cache i.rank) :=
        (mem_bootWorld_all hi).mpr ⟨List.mem_cons_self, rfl⟩
      obtain ⟨hcount, hchain, hobj, hreg, howner, hroom⟩ := hcache'.slabOk hmem
      exact ⟨hcount, hchain, hobj, hreg, howner, hroom⟩
    · refine (hb.slab i hi).congr rfl rfl rfl rfl rfl hadded.changes ?_ ?_
      · rintro (hc | ⟨-, hc⟩)
        · exact hnew ((mem_bootWorld_all hk).mp hc).1
        · exact hslabs i hi hik hc
      · rintro o - (⟨s, hs, -⟩ | ⟨hc, -⟩)
        · exact hnew ((mem_bootWorld_all hk).mp hs).1
        · exact nomatch hc
  · rw [hrest]
    exact h.ring.transport (fun x _ => congrFun hadded.links.next x) fun x _ =>
      congrFun hadded.links.prev x
  · by_cases hik : i = k
    · rw [hik]
      exact hcache'
    · refine (h.cache i hi).congr ⟨?_, rfl, rfl, fun _ _ => ⟨rfl, rfl, rfl⟩⟩ hadded.changes ?_
      · funext st
        rw [bootWorld_slabs hi, bootWorld_slabs hi]
        refine if_congr (and_congr_left fun _ => ?_) rfl rfl
        rw [List.mem_cons, or_iff_right hik]
      · rintro k' a ha (hc | ⟨rfl, rfl⟩)
        · exact (h.cache i hi).owned_apart hcache
            (fun heq => hik (bootPlace_rank_inj hi hk heq)) ha hc
        · exact hslabs i hi hik ((mem_bootWorld_all hi).mp ha).2.symm

theorem SlabsListed.add (h : SlabsListed v spare added t) (hk : k ∈ bootKinds) (hnew : k ∉ added)
    {x : Unit → Prog Panic Kernel α}
    (hx : ∀ t', SlabsListed v spare (k :: added) t' → t'.rest = t.rest → Runs Shows E Q (x ()) t') :
    Runs Shows E Q (objsCacheAddSlab (bootPlace v .cache k.rank) (bootPlace v .slab k.rank)
      .statusPartial >>= x) t := by
  have hcache := h.cache k hk
  have hslab : t.heap.struct (bootPlace v .slab k.rank) = some .slab :=
    (h.booting.struct _ .slab).mpr ⟨k, hk, rfl⟩
  have hok : (bootWorld v added (fun _ => ⟨0, 0⟩) [] []).SlabOk t.heap (bootPlace v .cache k.rank)
      (bootPlace v .slab k.rank) := by
    obtain ⟨hcount, hchain, hobj, hregion, howner, hroom⟩ := h.booting.slab k hk
    exact ⟨hcount, hchain, hobj, hregion, howner, hroom⟩
  have hall : (bootWorld v added (fun _ => ⟨0, 0⟩) [] []).all (bootPlace v .cache k.rank) = [] := by
    refine List.eq_nil_iff_forall_not_mem.mpr fun s hs => hnew ?_
    exact ((mem_bootWorld_all hk).mp hs).1
  refine .bind (objsCacheAddSlab_runs hcache hslab ?_ hok ?_ ?_) ?_
  · rw [hall]
    exact List.not_mem_nil
  · rw [bootWorld_per hk, bootWorld_objs hk, objsFrom_length]
    revert hk
    cases k <;> decide
  · rw [hall, bootWorld_per hk]
    revert hk
    cases k <;> decide
  rintro - t' ⟨hrest, hadded⟩
  exact hx t' (h.more hk hnew hadded hrest) hrest

end Atros
