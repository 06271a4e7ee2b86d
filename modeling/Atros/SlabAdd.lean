import Atros.SlabAlloc

namespace Atros
set_option autoImplicit true

variable {W W' : World} {H H' H₁ : Heap} {t t' t₁ : View} {E : Panic → Prop}

/-! ### A new slab of a cache -/

/-- The world in which the slab `s` is one more slab of `c`. -/
def World.withSlab (W : World) (c s : Nat) (st : SlabStatus) : World :=
  { W with slabs := Function.update W.slabs c (Function.update (W.slabs c) st (s :: W.slabs c st)) }

theorem World.withSlab_all (W : World) (c s : Nat) (st : SlabStatus) :
    ((W.withSlab c s st).all c).Perm (s :: W.all c) := by
  simp only [withSlab, World.all, Function.update_self]
  exact push_perm (W.slabs c) st s

/-- The structures that change when `s` goes to the cache `c`. -/
def World.OwnedOr (W : World) (c s : Nat) (k : Struct) (a : Nat) : Prop :=
  W.Owned c k a ∨ k = .slab ∧ a = s

/-- The counters of free and used objects of `c` have grown. -/
structure Heap.Counted (c free used : Nat) (H H₁ : Heap) : Prop where
  freeCount : H₁.word .freeObjsCount c = H.word .freeObjsCount c + free
  usedCount : H₁.word .usedObjsCount c = H.word .usedObjsCount c + used
  word : ∀ f a, f ≠ .freeObjsCount ∧ f ≠ .usedObjsCount ∨ a ≠ c → H₁.word f a = H.word f a
  ptr : H₁.ptr = H.ptr
  struct : H₁.struct = H.struct
  slot : H₁.slot = H.slot

/-- What `objs_cache_add_slab` leaves. -/
structure Added (W : World) (H : Heap) (c s : Nat) (st : SlabStatus) (H' : Heap) : Prop where
  cache : (W.withSlab c s st).CacheOk H' c
  changes : H.ChangesOnly (W.OwnedOr c s) H'
  struct : H'.struct = H.struct
  slots : H'.slot = H.slot
  count : H'.word .freeObjsCount c = H.word .freeObjsCount c + (W.objs s).length
  links : H.SameLinks H'

/-- The slab `s` has gone to the list of its status, and the counters of `c` have grown. -/
structure Heap.Enlisted (W : World) (c s : Nat) (st : SlabStatus) (H H' : Heap) : Prop where
  lists : H'.Lists c ((W.withSlab c s st).slabs c)
  statusCount : ∀ st', H'.word (.statusCount st') c = ((W.withSlab c s st).slabs c st').length
  slabsCount : H'.word .slabsCount c = (W.all c).length + 1
  freeCount : H'.word .freeObjsCount c = H.word .freeObjsCount c + (W.objs s).length
  usedCount : H'.word .usedObjsCount c = H.word .usedObjsCount c + (W.per c - (W.objs s).length)
  word : ∀ f a, (∀ st, f ≠ .statusCount st) ∧ f ≠ .slabsCount ∧ f ≠ .freeObjsCount ∧
    f ≠ .usedObjsCount ∨ a ≠ c → H'.word f a = H.word f a
  ptr : ∀ f a, ¬listTouch c (fun x => x = s ∨ x ∈ W.slabs c st) f a → H'.ptr f a = H.ptr f a
  struct : H'.struct = H.struct
  slot : H'.slot = H.slot

section
variable (he : Heap.Enlisted W c s st H H')
include he

theorem Heap.Enlisted.ptr_other (f : PointerField) (a : Nat) (hp : f ≠ .slabPrev)
    (hn : f ≠ .slabNext) (hl : ∀ st, f ≠ .statusList st) : H'.ptr f a = H.ptr f a := by
  refine he.ptr f a fun ht => ?_
  cases f <;> first | exact hp rfl | exact hn rfl | exact hl _ rfl | exact ht

theorem Heap.Enlisted.slabOk (hok : W.SlabOk H c x) : (W.withSlab c s st).SlabOk H' c x := by
  refine ⟨?_, ?_, fun o ho => ?_, ?_, hok.owner, hok.room⟩
  · rw [he.word _ _ (.inl ⟨fun _ => WordField.noConfusion, WordField.noConfusion,
      WordField.noConfusion, WordField.noConfusion⟩)]
    exact hok.count
  · rw [he.ptr_other .freeObjsList x PointerField.noConfusion PointerField.noConfusion
      fun _ => PointerField.noConfusion]
    exact hok.chain.congr fun o _ => he.ptr_other .objectNext o PointerField.noConfusion
      PointerField.noConfusion fun _ => PointerField.noConfusion
  · rw [he.struct, he.slot]
    exact hok.obj o ho
  · rw [he.ptr_other .slabVregion x PointerField.noConfusion PointerField.noConfusion
      fun _ => PointerField.noConfusion]
    exact hok.region

/-- The sizes that a cache has been made with. -/
theorem Heap.Enlisted.sizes (h : W.CacheOk H c) : H'.word .actualObjSize c = W.size c ∧
    H'.word .pagesPerSlab c = W.pages c ∧ H'.word .objsPerSlab c = W.per c := by
  refine ⟨?_, ?_, ?_⟩
  · rw [he.word _ _ (.inl ⟨fun _ => WordField.noConfusion, WordField.noConfusion,
      WordField.noConfusion, WordField.noConfusion⟩), h.actualObjSize]
  · rw [he.word _ _ (.inl ⟨fun _ => WordField.noConfusion, WordField.noConfusion,
      WordField.noConfusion, WordField.noConfusion⟩), h.pagesPerSlab]
  · rw [he.word _ _ (.inl ⟨fun _ => WordField.noConfusion, WordField.noConfusion,
      WordField.noConfusion, WordField.noConfusion⟩), h.objsPerSlab]

/-- The counters of the cache agree with its slabs again. -/
theorem Heap.Enlisted.counts (h : W.CacheOk H c) (hroom : (W.objs s).length ≤ W.per c) :
    H'.word .freeObjsCount c = (W.withSlab c s st).freeObjs c ∧
      H'.word .usedObjsCount c + H'.word .freeObjsCount c =
        W.per c * ((W.withSlab c s st).all c).length := by
  have hperm := W.withSlab_all c s st
  have hsum : (W.withSlab c s st).freeObjs c = (W.objs s).length + W.freeObjs c :=
    (hperm.map fun x => (W.objs x).length).sum_eq
  have hused := h.usedCount
  rw [h.freeCount] at hused
  rw [he.usedCount, he.freeCount, h.freeCount, hsum, hperm.length_eq, List.length_cons,
    Nat.mul_add, Nat.mul_one, ← hused]
  omega

theorem Heap.Enlisted.cacheOk (h : W.CacheOk H c) (hok : W.SlabOk H c s)
    (hstatus : statusOf (W.per c) (W.objs s).length = st)
    (hroom : W.per c * ((W.all c).length + 1) < 2 ^ 32) :
    (W.withSlab c s st).CacheOk H' c := by
  have hperm := W.withSlab_all c s st
  have hcounts := he.counts h hok.room
  have hsizes := he.sizes h
  refine ⟨he.lists, fun st' x hx => ?_, he.statusCount, ?_, hcounts.1, hcounts.2, hsizes.1,
    hsizes.2.1, hsizes.2.2, h.size_ge, h.per_pos, ?_⟩
  · simp only [World.withSlab, Function.update_self] at hx
    have hx' : x = s ∧ st' = st ∨ x ∈ W.slabs c st' := by
      by_cases hst : st' = st
      · subst hst
        rw [Function.update_self] at hx
        exact (List.mem_cons.mp hx).imp (fun hxs => ⟨hxs, rfl⟩) id
      · rw [Function.update_of_ne hst] at hx
        exact .inr hx
    rcases hx' with ⟨rfl, rfl⟩ | hx'
    · exact ⟨he.slabOk hok, hstatus⟩
    · exact ⟨he.slabOk (h.slab st' x hx').1, (h.slab st' x hx').2⟩
  · rw [he.slabsCount, hperm.length_eq, List.length_cons]
  · rw [hperm.length_eq, List.length_cons]
    exact hroom

theorem Heap.Enlisted.changes : H.ChangesOnly (W.OwnedOr c s) H' := by
  refine ⟨fun f a hF => ?_, fun f a hF => ?_, fun k a _ ha => ?_, fun a _ ha _ => ?_,
    fun a u hu => ?_⟩
  · refine he.word f a ?_
    by_cases hf : f.struct = .cache
    · refine .inr ?_
      rintro rfl
      refine hF (.inl ?_)
      rw [hf]
      rfl
    · refine .inl ⟨?_, ?_, ?_, ?_⟩
      · rintro st rfl
        exact hf rfl
      all_goals
        rintro rfl
        exact hf rfl
  · refine he.ptr f a fun ht => ?_
    cases f <;> first | exact ht | exact hF (.inl ht) | skip
    all_goals
      rcases ht with rfl | ht
      · exact hF (.inr ⟨rfl, rfl⟩)
      · exact hF (.inl (mem_allOf.mpr ⟨st, ht⟩))
  · exact (congrFun he.struct a).trans ha
  · exact (congrFun he.struct a).trans ha
  · exact (congrFun he.slot a).trans hu

theorem Heap.Enlisted.added (h : W.CacheOk H c) (hok : W.SlabOk H c s)
    (hstatus : statusOf (W.per c) (W.objs s).length = st)
    (hroom : W.per c * ((W.all c).length + 1) < 2 ^ 32) : Added W H c s st H' where
  cache := he.cacheOk h hok hstatus hroom
  changes := he.changes
  struct := he.struct
  slots := he.slot
  count := he.freeCount
  links := ⟨funext fun a => he.ptr .cachePrev a id, funext fun a => he.ptr .cacheNext a id⟩

end

/-- The part of `objs_cache_add_slab` that is the same for all statuses. -/
theorem addTail_runs (h : W.CacheOk t.heap c) (hs : t.heap.struct s = some .slab)
    (hnew : s ∉ W.all c) (hlen : (W.all c).length + 1 < 2 ^ 32) (st : SlabStatus)
    (hrest : t₁.rest = t.rest)
    (h₁ : Heap.Counted c (W.objs s).length (W.per c - (W.objs s).length) t.heap t₁.heap) :
    Runs Shows E (fun _ t' => t'.rest = t.rest ∧ Heap.Enlisted W c s st t.heap t'.heap) (do
      (slabsCountOfStatus st c).increase 1
      dlistPushHead (slabsOfStatus st c) slabPrevOf slabNextOf s
      (slabsCountOf c).increase 1) t₁ := by
  have hle : (W.slabs c st).length ≤ (W.all c).length := by
    rw [World.all, allOf, List.length_append, List.length_append]
    cases st <;> omega
  have hcache₁ : t₁.heap.struct c = some .cache := by rw [h₁.struct, h.lists.cache]
  have hword₁ : ∀ f, f ≠ .freeObjsCount → f ≠ .usedObjsCount → t₁.heap.word f c = t.heap.word f c :=
    fun f hf hf' => h₁.word f c (.inl ⟨hf, hf'⟩)
  have hstatusCount : t₁.heap.word (.statusCount st) c = (W.slabs c st).length := by
    rw [hword₁ _ WordField.noConfusion WordField.noConfusion, h.statusCount]
  refine Runs.increase (.statusCount st) hcache₁ (by rw [hstatusCount]; omega) ?_
  have hlists₂ :
      (t₁.setWord (.statusCount st) c (t₁.heap.word (.statusCount st) c + 1)).heap.Lists c
      (W.slabs c) := by
    refine ⟨hcache₁, fun st' x hx => ?_, fun st' => ?_, h.lists.apart⟩
    · exact (congrFun h₁.struct x).trans (h.lists.slab st' x hx)
    · rw [View.setWord_heap, Heap.setWord_ptr, h₁.ptr]
      exact h.lists.chain st'
  have hs₂ : (t₁.setWord (.statusCount st) c (t₁.heap.word (.statusCount st) c + 1)).heap.struct s =
      some .slab := (congrFun h₁.struct s).trans hs
  refine .bind (dlistPushHead_runs hlists₂ hs₂ (fun st' hmem => hnew (mem_allOf.mpr ⟨st', hmem⟩))
    st) ?_
  rintro - t₂ ⟨hrest₂, hlists, hr⟩
  have hword₂ : t₂.heap.word = (t₁.heap.setWord (.statusCount st) c
      (t₁.heap.word (.statusCount st) c + 1)).word := hr.word
  have hslabsCount : t₂.heap.word .slabsCount c = (W.all c).length := by
    rw [hword₂, Heap.setWord_of_field _ WordField.noConfusion,
      hword₁ _ WordField.noConfusion WordField.noConfusion, h.slabsCount]
  rw [← bind_pure (Place.increase _ _)]
  refine Runs.increase .slabsCount hlists.cache (by rw [hslabsCount]; omega) (.pure ?_)
  -- of the words only those two have changed since `t₁`
  have hword : ∀ f, f ≠ .statusCount st → f ≠ .slabsCount →
      (t₂.setWord .slabsCount c (t₂.heap.word .slabsCount c + 1)).heap.word f = t₁.heap.word f := by
    intro f hf hf'
    rw [View.setWord_heap, Heap.setWord_of_field _ hf', hword₂, Heap.setWord_of_field _ hf]
  refine ⟨hrest₂.trans hrest, ?_, fun st' => ?_, ?_, ?_, ?_, fun f a hfa => ?_, fun f a hf => ?_,
    hr.struct.trans h₁.struct, hr.slot.trans h₁.slot⟩
  · simp only [World.withSlab, Function.update_self]
    exact ⟨hlists.cache, hlists.slab, hlists.chain, hlists.apart⟩
  · simp only [World.withSlab, Function.update_self]
    rw [View.setWord_heap, Heap.setWord_of_field _ WordField.noConfusion, hword₂]
    by_cases hst : st' = st
    · subst hst
      rw [Heap.setWord_self, hstatusCount, Function.update_self, List.length_cons]
    · rw [Heap.setWord_of_field _ (fun hc => hst (WordField.statusCount.inj hc)),
        hword₁ _ WordField.noConfusion WordField.noConfusion, h.statusCount,
        Function.update_of_ne hst]
  · rw [View.setWord_heap, Heap.setWord_self, hslabsCount]
  · rw [hword _ WordField.noConfusion WordField.noConfusion, h₁.freeCount]
  · rw [hword _ WordField.noConfusion WordField.noConfusion, h₁.usedCount]
  · rcases hfa with ⟨hst, hsl, hf, hf'⟩ | ha
    · rw [hword f (hst st) hsl]
      exact h₁.word f a (.inl ⟨hf, hf'⟩)
    · rw [View.setWord_heap, Heap.setWord_of_addr _ _ ha, hword₂, Heap.setWord_of_addr _ _ ha]
      exact h₁.word f a (.inr ha)
  · rw [View.setWord_heap, Heap.setWord_ptr, hr.ptr f a hf, View.setWord_heap, Heap.setWord_ptr,
      h₁.ptr]

theorem objsCacheAddSlab_runs (h : W.CacheOk t.heap c) (hs : t.heap.struct s = some .slab)
    (hnew : s ∉ W.all c) (hok : W.SlabOk t.heap c s)
    (hstatus : statusOf (W.per c) (W.objs s).length = st)
    (hroom : W.per c * ((W.all c).length + 1) < 2 ^ 32) :
    Runs Shows E (fun _ t' => t'.rest = t.rest ∧ Added W t.heap c s st t'.heap)
      (objsCacheAddSlab c s st) t := by
  have hcache := h.lists.cache
  have hused := h.usedCount
  have hroomS := hok.room
  have hper := h.per_pos
  rw [Nat.mul_add, Nat.mul_one, ← hused] at hroom
  have hroom' : W.per c * ((W.all c).length + 1) < 2 ^ 32 := by
    rw [Nat.mul_add, Nat.mul_one, ← hused]
    exact hroom
  have htotal : (W.all c).length + 1 ≤ W.per c * ((W.all c).length + 1) :=
    Nat.le_mul_of_pos_left _ hper
  have htail : ∀ t₁ : View, t₁.rest = t.rest →
      Heap.Counted c (W.objs s).length (W.per c - (W.objs s).length) t.heap t₁.heap →
      Runs Shows E (fun _ t' => t'.rest = t.rest ∧ Added W t.heap c s st t'.heap) (do
        (slabsCountOfStatus st c).increase 1
        dlistPushHead (slabsOfStatus st c) slabPrevOf slabNextOf s
        (slabsCountOf c).increase 1) t₁ := by
    intro t₁ hrest h₁
    refine (addTail_runs h hs hnew (by omega) st hrest h₁).imp ?_
    rintro - t' ⟨hrest', he⟩
    exact ⟨hrest', he.added h hok hstatus hroom'⟩
  have hperWord := h.objsPerSlab
  have hcount := hok.count
  unfold objsCacheAddSlab
  refine .readWord .objsPerSlab hcache (.readWord .slabFreeObjsCount hs ?_)
  rw [hperWord, hcount]
  cases st with
  | statusFree =>
    have hfull : (W.objs s).length = W.per c := by
      rw [statusOf] at hstatus
      split at hstatus
      · assumption
      · split at hstatus <;> cases hstatus
    refine .passes (.inr hfull.symm) ?_
    refine .readWord .objsPerSlab hcache ?_
    rw [hperWord]
    refine Runs.increase .freeObjsCount hcache (by omega) ?_
    refine htail _ rfl ⟨?_, ?_, ?_, rfl, rfl, rfl⟩
    · rw [View.setWord_heap, Heap.setWord_self, hfull]
    · rw [View.setWord_heap, Heap.setWord_of_field _ WordField.noConfusion, hfull, Nat.sub_self,
        Nat.add_zero]
    · rintro f a (⟨hf, -⟩ | ha)
      · rw [View.setWord_heap, Heap.setWord_of_field _ hf]
      · rw [View.setWord_heap, Heap.setWord_of_addr _ _ ha]
  | statusPartial =>
    refine .passes (.inl SlabStatus.noConfusion) ?_
    refine .readWord .slabFreeObjsCount hs ?_
    rw [hcount]
    refine Runs.increase .freeObjsCount hcache (by omega) ?_
    refine Runs.readWord .objsPerSlab hcache (Runs.readWord .slabFreeObjsCount hs ?_)
    have hper₁ : (t.setWord .freeObjsCount c (t.heap.word .freeObjsCount c +
        (W.objs s).length)).heap.word .objsPerSlab c = W.per c := by
      rw [View.setWord_heap, Heap.setWord_of_field _ WordField.noConfusion, hperWord]
    have hcount₁ : (t.setWord .freeObjsCount c (t.heap.word .freeObjsCount c +
        (W.objs s).length)).heap.word .slabFreeObjsCount s = (W.objs s).length := by
      rw [View.setWord_heap, Heap.setWord_of_field _ WordField.noConfusion, hcount]
    have hused₁ : (t.setWord .freeObjsCount c (t.heap.word .freeObjsCount c +
        (W.objs s).length)).heap.word .usedObjsCount c = t.heap.word .usedObjsCount c := by
      rw [View.setWord_heap, Heap.setWord_of_field _ WordField.noConfusion]
    rw [hper₁, hcount₁, sub32_of_le hroomS (by omega)]
    refine Runs.increase .usedObjsCount ?_ (by rw [hused₁]; omega) ?_
    · exact hcache
    rw [hused₁]
    refine htail _ rfl ⟨?_, ?_, ?_, rfl, rfl, rfl⟩
    · rw [View.setWord_heap, Heap.setWord_of_field _ WordField.noConfusion, View.setWord_heap,
        Heap.setWord_self]
    · rw [View.setWord_heap, Heap.setWord_self]
    · rintro f a (⟨hf, hf'⟩ | ha)
      · rw [View.setWord_heap, Heap.setWord_of_field _ hf', View.setWord_heap,
          Heap.setWord_of_field _ hf]
      · rw [View.setWord_heap, Heap.setWord_of_addr _ _ ha, View.setWord_heap,
          Heap.setWord_of_addr _ _ ha]
  | statusFull =>
    have hempty : (W.objs s).length = 0 := by
      rw [statusOf] at hstatus
      split at hstatus
      · cases hstatus
      · split at hstatus
        · assumption
        · cases hstatus
    refine .passes (.inl SlabStatus.noConfusion) ?_
    refine .readWord .objsPerSlab hcache ?_
    rw [hperWord]
    refine Runs.increase .usedObjsCount hcache (by omega) ?_
    refine htail _ rfl ⟨?_, ?_, ?_, rfl, rfl, rfl⟩
    · rw [View.setWord_heap, Heap.setWord_of_field _ WordField.noConfusion, hempty, Nat.add_zero]
    · rw [View.setWord_heap, Heap.setWord_self, hempty, Nat.sub_zero]
    · rintro f a (⟨-, hf⟩ | ha)
      · rw [View.setWord_heap, Heap.setWord_of_field _ hf]
      · rw [View.setWord_heap, Heap.setWord_of_addr _ _ ha]

end Atros
