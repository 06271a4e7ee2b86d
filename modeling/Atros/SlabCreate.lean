import Atros.SlabRequests

namespace Atros
set_option autoImplicit true

variable {W W' W₁ : World} {H H' : Heap} {t t' t₁ : View} {E : Panic → Prop} {Q : α → View → Prop}

/-! ### The list of caches -/

/-- Only the list of caches has changed. -/
structure View.Linked (t t' : View) : Prop where
  word : t'.heap.word = t.heap.word
  ptr : ∀ f, f ≠ .cachePrev → f ≠ .cacheNext → t'.heap.ptr f = t.heap.ptr f
  struct : t'.heap.struct = t.heap.struct
  slot : t'.heap.slot = t.heap.slot
  rest : t'.rest = { t.rest with cachesClist := t'.rest.cachesClist }

theorem View.Linked.refl (t : View) : t.Linked t :=
  ⟨rfl, fun _ _ _ => rfl, rfl, rfl, rfl⟩

theorem View.Linked.setPtr (h : t.Linked t') (hf : f = .cachePrev ∨ f = .cacheNext) (a : Nat)
    (v : Option Nat) : t.Linked (t'.setPtr f a v) := by
  refine ⟨h.word, fun g hp hn => ?_, h.struct, h.slot, h.rest⟩
  have hgf : g ≠ f := by
    rintro rfl
    exact hf.elim hp hn
  rw [View.setPtr_heap, Heap.setPtr_of_field _ hgf, h.ptr g hp hn]

theorem clistPushTail_runs (h : t.heap.cacheLinks.Ring t.rest.cachesClist cs)
    (hcs : ∀ c ∈ cs, t.heap.struct c = some .cache) (ho : t.heap.struct o = some .cache)
    (hnew : o ∉ cs) :
    Runs Shows E (fun _ t' => t'.heap.cacheLinks.Ring t'.rest.cachesClist (cs ++ [o]) ∧ t.Linked t')
      (clistPushTail cachesClistVar cachePrevOf cacheNextOf o) t := by
  refine Runs.shown fun k hk => ?_
  have hoOk := hk.addrOk ho
  unfold clistPushTail
  refine .read (reads_cachesClist t) ?_
  cases cs with
  | nil =>
    rw [h.eq_none]
    refine .writePtr .cacheNext ho hoOk (.writePtr .cachePrev ho hoOk ?_)
    refine .writeLast (writes_cachesClist _ _) ⟨?_, ?_⟩
    · exact .singleton (if_pos ⟨rfl, rfl⟩) (if_pos ⟨rfl, rfl⟩)
    · exact ⟨rfl, fun g hp hn =>
        ((View.Linked.refl t).setPtr (.inr rfl) _ _ |>.setPtr (.inl rfl) _ _).ptr g hp hn,
        rfl, rfl, rfl⟩
  | cons a as =>
    have ha := hcs a List.mem_cons_self
    obtain ⟨q, hqmem, hq, -⟩ := h.prev_mem (x := a) List.mem_cons_self
    have hqs := hcs q hqmem
    have hoa : o ≠ a := fun heq => hnew (heq ▸ List.mem_cons_self)
    have hoq : o ≠ q := fun heq => hnew (heq ▸ hqmem)
    have hhead : t.rest.cachesClist = some a := h.head
    change t.heap.ptr .cachePrev a = some q at hq
    rw [hhead]
    refine .writePtr .cacheNext ho (hk.addrOk ha) (.readPtr .cachePrev ha ?_)
    have hq₁ : (t.setPtr .cacheNext o (some a)).heap.ptr .cachePrev a = some q := hq
    rw [hq₁]
    refine .writePtr .cachePrev ho (hk.addrOk hqs) (.readPtr .cachePrev ha ?_)
    have hq₂ : ((t.setPtr .cacheNext o (some a)).setPtr .cachePrev o (some q)).heap.ptr
      .cachePrev a =
        some q := (if_neg fun hc => hoa hc.2.symm).trans hq
    rw [hq₂]
    refine .follow (.writePtr .cacheNext hqs hoOk ?_)
    refine .writeLast (writes_ptr .cachePrev ha hoOk) ⟨?_, ?_⟩
    · rw [hhead] at h
      have hmem : ∀ y ∈ a :: as, y ≠ o := fun y hy heq => hnew (heq ▸ hy)
      change Links.Ring _ t.rest.cachesClist _
      rw [hhead]
      refine h.push hnew hq (fun y hy hyq => ?_) (fun y hy hya => ?_) ⟨?_, ?_⟩ ⟨?_, ?_⟩
      · exact (if_neg fun hc => hyq hc.2).trans (if_neg fun hc => hmem y hy hc.2)
      · exact (if_neg fun hc => hya hc.2).trans (if_neg fun hc => hmem y hy hc.2)
      · exact if_pos ⟨rfl, rfl⟩
      · exact (if_neg fun hc => hoa hc.2).trans (if_pos ⟨rfl, rfl⟩)
      · exact (if_neg fun hc => hoq hc.2).trans (if_pos ⟨rfl, rfl⟩)
      · exact if_pos ⟨rfl, rfl⟩
    · exact ((((View.Linked.refl t).setPtr (.inr rfl) _ _).setPtr (.inl rfl) _ _).setPtr
        (.inr rfl) _ _).setPtr (.inl rfl) _ _

theorem World.CacheOk.linked (h : W.CacheOk t.heap c) (ht : t.Linked t') : W.CacheOk t'.heap c := by
  have hptr : ∀ f, f.struct ≠ .cache → t'.heap.ptr f = t.heap.ptr f := by
    intro f hf
    refine ht.ptr f ?_ ?_ <;> rintro rfl <;> exact hf rfl
  have hlist : ∀ st, t'.heap.ptr (.statusList st) = t.heap.ptr (.statusList st) :=
    fun st => ht.ptr _ PointerField.noConfusion PointerField.noConfusion
  refine ⟨⟨?_, ?_, fun st => ?_, h.lists.apart⟩, fun st s hs => ?_, fun st => ?_, ?_, ?_, ?_, ?_,
    ?_, ?_, h.size_ge, h.per_pos, h.room⟩
  · rw [ht.struct]
    exact h.lists.cache
  · rw [ht.struct]
    exact h.lists.slab
  · rw [hlist, hptr .slabNext (by decide), hptr .slabPrev (by decide)]
    exact h.lists.chain st
  · obtain ⟨hok, hstatus⟩ := h.slab st s hs
    refine ⟨⟨?_, ?_, ?_, ?_, hok.owner, hok.room⟩, hstatus⟩
    · rw [ht.word]
      exact hok.count
    · rw [hptr .objectNext (by decide), hptr .freeObjsList (by decide)]
      exact hok.chain
    · rw [ht.struct, ht.slot]
      exact hok.obj
    · rw [hptr .slabVregion (by decide)]
      exact hok.region
  all_goals rw [ht.word]
  · exact h.statusCount st
  · exact h.slabsCount
  · exact h.freeCount
  · exact h.usedCount
  · exact h.actualObjSize
  · exact h.pagesPerSlab
  · exact h.objsPerSlab

/-! ### A new cache -/

theorem strncpy_outside (num : Nat) (h : x < dest ∨ dest + num ≤ x) :
    strncpy dest src num m x = m x := by
  induction num generalizing dest src m with
  | zero => cases src <;> rfl
  | succ num ih =>
    have hne : x ≠ dest := by omega
    cases src with
    | nil =>
      rw [strncpy, ih (by omega)]
      exact Function.update_of_ne hne _ _
    | cons c src =>
      rw [strncpy, ih (by omega)]
      exact Function.update_of_ne hne _ _

theorem setName_outside (name : Option (List UInt8)) (h : x < c ∨ c + 24 ≤ x) :
    setName c name m x = m x := by
  cases name with
  | none => exact Function.update_of_ne (by omega) _ _
  | some name =>
    have hlen : cacheNameMaxLength = 20 := rfl
    rw [setName, Function.update_of_ne (by omega), strncpy_outside _ (by omega)]

theorem Heap.Models.setName (h : H.Models m) (ho : H.struct o = some .cache)
    (name : Option (List UInt8)) : H.Models (Atros.setName o name m) := by
  refine h.congr (fun k a ha i hi hcache => load32_congr fun x hx hx' => setName_outside name ?_)
    fun a t ha hsize hfree => load32_congr fun x hx hx' => setName_outside name ?_
  rotate_left
  · have hapart := h.spare_apart ho (i := 0) (by decide) ha hsize hfree
    have hapart' := h.spare_apart ho (i := 20) (by decide) ha hsize hfree
    have hoff : PointerField.vregionNext.offset = 8 := rfl
    have hvregion : sizeofVregion = 12 := rfl
    have hne : a ≠ o := by
      rintro rfl
      rw [ho] at hfree
      rcases hfree with hfree | hfree <;> exact nomatch hfree
    obtain ⟨v, hv, hcv⟩ := h.slot o .cache ho
    have hslots := h.apart a o t v ha hv hne
    change 100 ≤ v.size at hcv
    omega
  by_cases hao : a = o
  · subst hao
    rw [ho] at ha
    have h24 := hcache (Option.some.inj ha).symm
    omega
  · have hapart := h.fields_apart ha ho hao hi (j := 0) (by decide)
    have hapart' := h.fields_apart ha ho hao hi (j := 20) (by decide)
    obtain ⟨u, hu, hku⟩ := h.slot a k ha
    obtain ⟨v, hv, hcv⟩ := h.slot o .cache ho
    have hslots := h.apart a o u v hu hv hao
    change 100 ≤ v.size at hcv
    omega

/-- The heap with a cache at `o` that has no slab yet. -/
structure Heap.EmptyCache (H : Heap) (o objSize pages : Nat) : Prop where
  struct : H.struct o = some .cache
  actualObjSize : H.word .actualObjSize o = max objSize sizeofPointer
  pagesPerSlab : H.word .pagesPerSlab o = pages
  slabSize : H.word .slabSize o = mul32 pages vpageSize
  objsPerSlab : H.word .objsPerSlab o = mul32 pages vpageSize / max objSize sizeofPointer
  wasted : H.word .wastedMemoryPerSlab o = sub32 (mul32 pages vpageSize)
    (mul32 (mul32 pages vpageSize / max objSize sizeofPointer) (max objSize sizeofPointer))
  freeCount : H.word .freeObjsCount o = 0
  usedCount : H.word .usedObjsCount o = 0
  slabsCount : H.word .slabsCount o = 0
  statusCount : ∀ st, H.word (.statusCount st) o = 0
  statusList : ∀ st, H.ptr (.statusList st) o = none

/-- The cache `o` has been initialised and is on the list of caches `cs` now. -/
structure CacheMade (t : View) (o objSize pages : Nat) (cs : List Nat) (t' : View) : Prop where
  empty : t'.heap.EmptyCache o objSize pages
  ring : t'.heap.cacheLinks.Ring t'.rest.cachesClist (cs ++ [o])
  step : ∃ t₁ : View, t.heap.ChangesOnly (fun k a => k = .cache ∧ a = o) t₁.heap ∧ t₁.Linked t' ∧
    t₁.heap.struct = Function.update t.heap.struct o (some .cache) ∧ t₁.heap.slot = t.heap.slot ∧
    t₁.rest = t.rest

theorem Heap.EmptyCache.linked (h : t.heap.EmptyCache o objSize pages) (ht : t.Linked t') :
    t'.heap.EmptyCache o objSize pages := by
  refine ⟨by rw [ht.struct]; exact h.struct, ?_, ?_, ?_, ?_, ?_, ?_, ?_, ?_, fun st => ?_,
    fun st => ?_⟩
  all_goals first | rw [ht.word] | rw [ht.ptr _ PointerField.noConfusion PointerField.noConfusion]
  · exact h.actualObjSize
  · exact h.pagesPerSlab
  · exact h.slabSize
  · exact h.objsPerSlab
  · exact h.wasted
  · exact h.freeCount
  · exact h.usedCount
  · exact h.slabsCount
  · exact h.statusCount st
  · exact h.statusList st

theorem clistPushTail_made (hempty : t₁.heap.EmptyCache o objSize pages)
    (hchanges : t.heap.ChangesOnly (fun k a => k = .cache ∧ a = o) t₁.heap)
    (hring : t.heap.cacheLinks.Ring t.rest.cachesClist cs)
    (hcs : ∀ c ∈ cs, t.heap.struct c = some .cache)
    (hstruct : t₁.heap.struct = Function.update t.heap.struct o (some .cache))
    (hslot : t₁.heap.slot = t.heap.slot) (hrest : t₁.rest = t.rest) (hnew : o ∉ cs) :
    Runs Shows E (fun _ t' => CacheMade t o objSize pages cs t')
      (clistPushTail cachesClistVar cachePrevOf cacheNextOf o) t₁ := by
  have hoff : ∀ x ∈ cs, ¬(Struct.cache = .cache ∧ x = o) := fun x hx hc => hnew (hc.2 ▸ hx)
  have hring₁ : t₁.heap.cacheLinks.Ring t₁.rest.cachesClist cs := by
    rw [hrest]
    exact hring.transport (fun x hx => hchanges.ptr .cacheNext x (hoff x hx)) fun x hx =>
      hchanges.ptr .cachePrev x (hoff x hx)
  have hcs₁ : ∀ c ∈ cs, t₁.heap.struct c = some .cache := fun c hc =>
    hchanges.struct .cache c (hoff c hc) (hcs c hc)
  refine (clistPushTail_runs hring₁ hcs₁ hempty.struct hnew).imp ?_
  rintro - t' ⟨hring', hlinked⟩
  exact ⟨hempty.linked hlinked, hring', t₁, hchanges, hlinked, hstruct, hslot, hrest⟩

theorem objsCacheInit_runs (hu : t.heap.slot o = some u) (hsize : sizeofObjsCache ≤ u.size)
    (hn : t.heap.struct o = none) (hobj : 0 < objSize) (hobjlt : objSize < 2 ^ 32)
    (hpages : 0 < pages) (hpageslt : pages < 2 ^ 32) (hfits : objSize ≤ mul32 pages vpageSize)
    (hring : t.heap.cacheLinks.Ring t.rest.cachesClist cs)
    (hcs : ∀ c ∈ cs, t.heap.struct c = some .cache) (name : Option (List UInt8)) :
    Runs Shows E (fun _ t' => CacheMade t o objSize pages cs t')
      (objsCacheInit o name objSize pages) t := by
  have hmax : max objSize sizeofPointer < 2 ^ 32 := by
    rw [show sizeofPointer = 4 from rfl]
    omega
  have hslab : mul32 pages vpageSize < 2 ^ 32 := Nat.mod_lt _ (by decide)
  have hper : mul32 pages vpageSize / max objSize sizeofPointer < 2 ^ 32 :=
    Nat.lt_of_le_of_lt (Nat.div_le_self _ _) hslab
  have hwaste : ∀ a b, sub32 a b < 2 ^ 32 := fun _ _ => Nat.mod_lt _ (by decide)
  have hnew : o ∉ cs := by
    intro ho
    have htyped := hcs o ho
    rw [hn] at htyped
    exact nomatch htyped
  refine .retype (s := .cache) hu hn hsize fun m => ?_
  have hchanges : t.heap.ChangesOnly (fun k a => k = .cache ∧ a = o)
      (t.retype m o .cache).heap := by
    exact (Heap.ChangesOnly.refl _ _).retype (k := .cache) ⟨rfl, rfl⟩ hn
  have hstruct : (t.retype m o .cache).heap.struct o = some .cache := Function.update_self ..
  have hrest : (t.retype m o .cache).rest = t.rest := rfl
  have hupdate : (t.retype m o .cache).heap.struct =
    Function.update t.heap.struct o (some .cache) :=
    rfl
  have hslot : (t.retype m o .cache).heap.slot = t.heap.slot := rfl
  generalize t.retype m o .cache = t₁ at *
  unfold objsCacheInit
  refine .passes hobj (.passes hpages (.passes hfits ?_))
  have hname : ∀ k, Shows k t₁ → Shows { k with mem := setName o name k.mem } t₁ :=
    fun k hk => ⟨hk.models.setName hstruct name, hk.rest⟩
  refine .modify hname ?_
  refine .writeWord .objSize hstruct hobjlt (.writeWord .actualObjSize hstruct hmax ?_)
  refine .writeWord .pagesPerSlab hstruct hpageslt (.writeWord .slabSize hstruct hslab ?_)
  refine .readWord .actualObjSize hstruct ?_
  simp only [View.setWord_heap, Heap.setWord_word, reduceCtorEq, false_and, if_false, and_self,
    if_true]
  refine .writeWord .objsPerSlab hstruct hper (.readWord .slabSize hstruct ?_)
  refine .readWord .objsPerSlab hstruct (.readWord .actualObjSize hstruct ?_)
  simp only [View.setWord_heap, Heap.setWord_word, reduceCtorEq, false_and, if_false, and_self,
    if_true]
  refine .writeWord .wastedMemoryPerSlab hstruct (hwaste _ _) ?_
  refine .writeWord .freeObjsCount hstruct (by decide) (.writeWord .usedObjsCount hstruct
    (by decide) ?_)
  refine .writeWord .slabsCount hstruct (by decide) ?_
  refine .writeWord (.statusCount .statusFree) hstruct (by decide) ?_
  refine .writeWord (.statusCount .statusPartial) hstruct (by decide) ?_
  refine .writeWord (.statusCount .statusFull) hstruct (by decide) ?_
  refine .writePtr (.statusList .statusFree) hstruct .none ?_
  refine .writePtr (.statusList .statusPartial) hstruct .none ?_
  refine .writePtr (.statusList .statusFull) hstruct .none ?_
  refine .writePtr .cachePrev hstruct .none (.writePtr .cacheNext hstruct .none ?_)
  refine clistPushTail_made (t := t) ?_ ?_ hring hcs hupdate hslot hrest hnew
  · refine ⟨hstruct, ?_, ?_, ?_, ?_, ?_, ?_, ?_, ?_, fun st => ?_, fun st => ?_⟩
    all_goals
      try cases st
      all_goals
        simp only [View.setPtr_heap, Heap.setPtr_word, Heap.setPtr_ptr, View.setWord_heap,
          Heap.setWord_ptr, Heap.setWord_word, reduceCtorEq, false_and, if_false, and_self, if_true,
          PointerField.statusList.injEq, WordField.statusCount.injEq]
  · iterate 5 refine Heap.ChangesOnly.setPtr ?_ ⟨rfl, rfl⟩ _
    iterate 12 refine Heap.ChangesOnly.setWord ?_ ⟨rfl, rfl⟩ _
    exact hchanges

theorem World.CacheOk.of_empty {pages : Nat} (h : H.EmptyCache c objSize pages)
    (hslabs : W.slabs c = fun _ => []) (hsize : W.size c = max objSize sizeofPointer)
    (hpages : W.pages c = pages)
    (hfits : max objSize sizeofPointer ≤ mul32 pages vpageSize) : W.CacheOk H c := by
  have hall : W.all c = [] := by
    rw [World.all, hslabs]
    rfl
  have hfree : W.freeObjs c = 0 := by
    rw [World.freeObjs, hall]
    rfl
  have hper : W.per c = mul32 pages vpageSize / max objSize sizeofPointer := by
    rw [World.per, hsize, hpages]
  refine ⟨⟨h.struct, ?_, fun st => ?_, ?_⟩, ?_, fun st => ?_, ?_, ?_, ?_, ?_, ?_, ?_, ?_, ?_, ?_⟩
  · rw [hslabs]
    exact fun st s hs => absurd hs List.not_mem_nil
  · rw [hslabs]
    exact h.statusList st
  · rw [hslabs]
    exact fun st st' s hs => absurd hs List.not_mem_nil
  · rw [hslabs]
    exact fun st s hs => absurd hs List.not_mem_nil
  · rw [hslabs]
    exact h.statusCount st
  · rw [hall]
    exact h.slabsCount
  · rw [hfree]
    exact h.freeCount
  · rw [hall, h.usedCount, h.freeCount]
    rfl
  · rw [hsize]
    exact h.actualObjSize
  · rw [hpages]
    exact h.pagesPerSlab
  · rw [hper]
    exact h.objsPerSlab
  · rw [hsize]
    exact le_max_right _ _
  · rw [hper]
    exact Nat.div_pos hfits (Nat.lt_of_lt_of_le (by decide) (le_max_right _ _))
  · rw [hall]
    exact Nat.two_pow_pos 32

/-- The world in which `o` is a cache too, which has no slab yet. -/
def World.withCache (W : World) (o objSize pages : Nat) : World :=
  { W with
    caches := W.caches ++ [o]
    slabs := Function.update W.slabs o fun _ => []
    size := Function.update W.size o (max objSize sizeofPointer)
    pages := Function.update W.pages o pages }

theorem World.withCache_slabs (W : World) (o objSize pages : Nat) :
    (W.withCache o objSize pages).slabs o = fun _ => [] := Function.update_self ..

theorem World.withCache_all (W : World) (o objSize pages : Nat) :
    (W.withCache o objSize pages).all o = [] := by
  rw [World.all, withCache_slabs]
  rfl

/-- The object `o` of the cache of caches has been made a cache. -/
structure CacheAdded (W : World) (t : View) (o objSize pages : Nat) (t' : View) : Prop where
  sound : W.Sound t
  out : W.Out t.heap W.cacheObjsCache o
  made : CacheMade t o objSize pages W.caches t'
  fits : max objSize sizeofPointer ≤ mul32 pages vpageSize

section
variable (h : CacheAdded W t o objSize pages t')
include h

theorem CacheAdded.new : o ∉ W.caches := by
  intro ho
  have htyped := (h.sound.caches.cache o ho).lists.cache
  rw [h.out.untyped] at htyped
  exact nomatch htyped

theorem CacheAdded.same (hc : c ∈ W.caches) : W.SameCache (W.withCache o objSize pages) c := by
  have hco : c ≠ o := fun heq => h.new (heq ▸ hc)
  exact ⟨Function.update_of_ne hco _ _, Function.update_of_ne hco _ _,
    Function.update_of_ne hco _ _,
    fun _ _ => ⟨rfl, rfl, rfl⟩⟩

theorem CacheAdded.all (c s : Nat) : (c ∈ (W.withCache o objSize pages).caches ∧
    s ∈ (W.withCache o objSize pages).all c) ↔ c ∈ W.caches ∧ s ∈ W.all c := by
  constructor
  · rintro ⟨hc, hs⟩
    rcases List.mem_append.mp hc with hc | hc
    · exact ⟨hc, (h.same hc).all ▸ hs⟩
    · rw [List.mem_singleton.mp hc, World.withCache_all] at hs
      exact nomatch hs
  · rintro ⟨hc, hs⟩
    exact ⟨List.mem_append_left _ hc, (h.same hc).all.symm ▸ hs⟩

theorem CacheAdded.empty : (W.withCache o objSize pages).CacheOk t'.heap o :=
  .of_empty h.made.empty (W.withCache_slabs o objSize pages) (Function.update_self ..)
  (Function.update_self ..) h.fits

theorem CacheAdded.struct (x : Nat) (k : Struct) : t'.heap.struct x = some k ↔
    x = o ∧ k = .cache ∨ t.heap.struct x = some k := by
  obtain ⟨t₁, -, hlinked, hstruct, -, -⟩ := h.made.step
  rw [hlinked.struct, hstruct, Function.update_apply]
  by_cases hx : x = o
  · rw [if_pos hx, hx, h.out.untyped]
    simp only [Option.some.injEq, true_and, reduceCtorEq, or_false]
    exact eq_comm
  · rw [if_neg hx]
    simp only [hx, false_and, false_or]

theorem CacheAdded.slot : t'.heap.slot = t.heap.slot := by
  obtain ⟨t₁, -, hlinked, -, hslot, -⟩ := h.made.step
  rw [hlinked.slot, hslot]

theorem CacheAdded.rest : t'.rest = { t.rest with cachesClist := t'.rest.cachesClist } := by
  obtain ⟨t₁, -, hlinked, -, -, hrest⟩ := h.made.step
  have hlist := hlinked.rest
  rwa [hrest] at hlist

theorem CacheAdded.region : (∀ f, f.struct = .vregion → t'.heap.word f = t.heap.word f) ∧
    t'.heap.ptr .vregionNext = t.heap.ptr .vregionNext := by
  obtain ⟨t₁, hchanges, hlinked, -, -, -⟩ := h.made.step
  refine ⟨fun f hf => funext fun a => ?_, funext fun a => ?_⟩
  · rw [hlinked.word]
    refine hchanges.word f a fun hc => ?_
    rw [hf] at hc
    exact nomatch hc.1
  · rw [hlinked.ptr _ (by decide) (by decide)]
    exact hchanges.ptr _ a fun hc => nomatch hc.1

theorem CacheAdded.cachesOk : (W.withCache o objSize pages).CachesOk t' := by
  have hown := h.sound.caches.own
  have hne : ∀ k, W.homeOf k ≠ o := fun k heq => h.new (heq ▸ hown.mem k)
  refine ⟨?_, h.made.ring, fun c hc => ?_⟩
  · rw [h.rest]
    refine ⟨hown.objsCacheVar, hown.slabVar, hown.vregionVar, hown.vpagesVar,
      fun k => List.mem_append_left _ (hown.mem k), hown.apart, fun k hk => ?_, fun k => ?_⟩
    · exact (Function.update_of_ne (hne k) _ _).trans (hown.size k hk)
    · exact (Function.update_of_ne (hne k) _ _).trans (hown.pages k)
  · rcases List.mem_append.mp hc with hc | hc
    · obtain ⟨t₁, hchanges, hlinked, -, -, -⟩ := h.made.step
      have hcache := h.sound.caches.cache c hc
      refine World.CacheOk.linked (hcache.congr (h.same hc) hchanges fun k a ha => ?_) hlinked
      rintro ⟨rfl, hao⟩
      have hac : a = c := ha
      exact h.new (hao ▸ hac ▸ hc)
    · rw [List.mem_singleton.mp hc]
      exact h.empty

theorem CacheAdded.placed : (W.withCache o objSize pages).Placed t'.heap := by
  have hown := h.sound.caches.own
  have hplaced := h.sound.placed
  have hsize : ∀ c ∈ W.caches, (W.withCache o objSize pages).size c = W.size c := fun c hc =>
    (h.same hc).size
  have hplaces : ∀ c ∈ W.caches, ∀ s, (W.withCache o objSize pages).places c s = W.places c s := by
    intro c hc s
    rw [World.places, World.places, (h.same hc).per, hsize c hc]
    rfl
  refine ⟨fun a u => ?_, fun a k hk ha => ?_⟩
  · rw [h.slot, hplaced.slot]
    constructor
    · rintro ⟨c, hc, s, hs, rfl, ha⟩
      obtain ⟨hc', hs'⟩ := (h.all c s).mpr ⟨hc, hs⟩
      exact ⟨c, hc', s, hs', by rw [hsize c hc], by rw [hplaces c hc]; exact ha⟩
    · rintro ⟨c, hc, s, hs, rfl, ha⟩
      obtain ⟨hc', hs'⟩ := (h.all c s).mp ⟨hc, hs⟩
      exact ⟨c, hc', s, hs', by rw [hsize c hc'], by rw [hplaces c hc'] at ha; exact ha⟩
  · have hmem := hown.mem k
    change ∃ s ∈ (W.withCache o objSize pages).all (W.homeOf k),
      t'.heap.slot a = some ⟨s, (W.withCache o objSize pages).size (W.homeOf k)⟩
    rw [h.slot, (h.same hmem).all, hsize _ hmem]
    rcases (h.struct a k).mp ha with ⟨rfl, rfl⟩ | ha
    · exact h.out.slot
    · exact hplaced.home a k hk ha

theorem CacheAdded.sound' : (W.withCache o objSize pages).Sound t' := by
  have hslabs := h.sound.slabRegions
  have hbacked := h.sound.backed
  obtain ⟨hword, hptr⟩ := h.region
  have hpages : ∀ c ∈ W.caches, (W.withCache o objSize pages).pages c = W.pages c := fun c hc =>
    (h.same hc).pages
  have hkept : t.KeepsRegions t' := by
    refine ⟨fun l => ?_, fun a ha => (h.struct a .vregion).mpr (.inr ha),
      fun f a hf => congrFun (hword f hf) a, fun a => congrFun hptr a⟩
    unfold RegionList.head
    rw [h.rest]
  refine ⟨h.cachesOk, h.placed, h.sound.regions.kept hkept rfl rfl rfl,
    ⟨hslabs.apart, hslabs.range, fun c hc s hs => ?_, fun c hc c' hc' s hs s' hs' => ?_⟩, ?_⟩
  · obtain ⟨hc, hs⟩ := (h.all c s).mp ⟨hc, hs⟩
    rw [hpages c hc]
    exact hslabs.region c hc s hs
  · obtain ⟨hc, hs⟩ := (h.all c s).mp ⟨hc, hs⟩
    obtain ⟨hc', hs'⟩ := (h.all c' s').mp ⟨hc', hs'⟩
    exact hslabs.inj c hc c' hc' s hs s' hs'
  · rw [h.rest]
    refine ⟨hbacked.tables, hbacked.present, hbacked.lastPpn_lt, hbacked.phys, fun c hc s hs => ?_,
      fun c hc c' hc' s hs s' hs' => ?_, fun c hc s hs => ?_⟩
    · obtain ⟨hc, hs⟩ := (h.all c s).mp ⟨hc, hs⟩
      rw [hpages c hc]
      exact hbacked.block c hc s hs
    · obtain ⟨hc, hs⟩ := (h.all c s).mp ⟨hc, hs⟩
      obtain ⟨hc', hs'⟩ := (h.all c' s').mp ⟨hc', hs'⟩
      exact hbacked.inj c hc c' hc' s hs s' hs'
    · obtain ⟨hc, hs⟩ := (h.all c s).mp ⟨hc, hs⟩
      rw [hpages c hc]
      exact hbacked.mapped c hc s hs

theorem CacheAdded.grows {W₀ : World} {t₀ : View} (hg : W₀.Grows t₀ W t)
    (hfresh : t₀.heap.NotOut o) : W₀.Grows t₀ (W.withCache o objSize pages) t' := by
  refine ⟨hg.own, fun c hc => List.mem_append_left _ (hg.caches c hc), fun c hc => ?_,
    fun c hc s hs => ?_, hg.regions, hg.cover, fun a u hu => ?_, fun a hslot hn => ?_,
    fun a k hk ha => (h.struct a k).mpr (.inr (hg.typed a k hk ha)), hg.blocks, hg.live,
    fun c hc s hs x hx => ?_⟩
  · have hsame := h.same (hg.caches c hc)
    rw [hsame.size, hsame.pages]
    exact hg.attrs c hc
  · obtain ⟨hs', hregion, hblock⟩ := hg.slabs c hc s hs
    exact ⟨((h.all c s).mpr ⟨hg.caches c hc, hs'⟩).2, hregion, hblock⟩
  · rw [h.slot]
    exact hg.slots a u hu
  · by_contra hne
    obtain ⟨k, hk⟩ := Option.ne_none_iff_exists'.mp hne
    rcases (h.struct a k).mp hk with ⟨rfl, -⟩ | hk
    · exact hfresh hslot hn
    · rw [hg.out a hslot hn] at hk
      exact nomatch hk
  · rw [h.rest]
    exact hg.slabOf c hc s hs x hx

theorem CacheAdded.freeObjs (hc : c ∈ W.caches) :
    (W.withCache o objSize pages).freeObjs c = W.freeObjs c := (h.same hc).freeObjs

end

theorem World.Sound.objsCacheInit {pages : Nat} (h : W.Sound t)
    (hout : W.Out t.heap W.cacheObjsCache o) (hobj : 0 < objSize) (hlt : objSize < 2 ^ 32)
    (hpages : pages < 2 ^ 32) (hfits : max objSize sizeofPointer ≤ mul32 pages vpageSize)
    (name : Option (List UInt8)) : Runs Shows E (fun _ t' => CacheAdded W t o objSize pages t')
      (Atros.objsCacheInit o name objSize pages) t := by
  obtain ⟨s, -, hslot⟩ := hout.slot
  have hsize : sizeofObjsCache ≤ W.size W.cacheObjsCache :=
    le_of_eq (h.caches.own.size .cache (by decide)).symm
  have hpos : 0 < pages := by
    rcases Nat.eq_zero_or_pos pages with rfl | hpos
    · rw [mul32, Nat.zero_mul, Nat.zero_mod] at hfits
      have hmax := le_max_left objSize sizeofPointer
      omega
    · exact hpos
  refine (objsCacheInit_runs hslot hsize hout.untyped hobj hlt hpos hpages
    ((le_max_left _ _).trans hfits) h.caches.ring (fun c hc => (h.caches.cache c hc).lists.cache)
    name).imp ?_
  intro _ t' hmade
  exact ⟨h, hout, hmade, hfits⟩

/-- `objs_cache_create` refuses, or makes an object of the cache of caches a cache. -/
theorem World.Ready.objsCacheCreate {pages : Nat} (h : W.Ready t) (hE : W.Pages E 1 11)
    (hd : 5 ≤ depth) (hobj : 0 < objSize ∨ E .objSizeZero) (hlt : objSize < 2 ^ 32)
    (hpages : pages < 2 ^ 32) (name : Option (List UInt8)) :
    Runs Shows E (fun x t' =>
      x = none ∧ t' = t ∧ mul32 pages vpageSize < max objSize sizeofPointer ∨
      ∃ o W₁ t₁, x = some o ∧ Allocated W t W.cacheObjsCache o W₁ t₁ ∧
        CacheAdded W₁ t₁ o objSize pages t')
      (Atros.objsCacheCreate depth name objSize pages) t := by
  have hread := h.sound.reads_cacheObjsCache
  have hmem : W.cacheObjsCache ∈ W.caches := h.sound.caches.own.mem .cache
  unfold Atros.objsCacheCreate
  refine .ite (fun hfits => ?_) fun hfits => .pure (.inl ⟨rfl, rfl, by omega⟩)
  rw [← h.sound.caches.own.pages .cache] at hE
  refine .cacheOf hread (.bind (h.objsCacheAlloc hE hd hmem fun heq => ?_) ?_)
  · exact absurd heq h.sound.caches.own.apart.1
  rintro o t₁ ⟨W₁, ha⟩
  by_cases hpos : 0 < objSize
  swap
  · refine .bind (R := fun _ _ => False) ?_ fun _ _ hf => hf.elim
    unfold objsCacheInit
    exact .check (fun _ => hobj.resolve_left hpos) fun hp => absurd hp hpos
  have hout : W₁.Out t₁.heap W₁.cacheObjsCache o := by
    have hhome : W₁.cacheObjsCache = W.cacheObjsCache := ha.grows.own .cache
    rw [hhome]
    exact ha.out
  refine .bind (ha.ready.sound.objsCacheInit hout hpos hlt hpages hfits name) ?_
  intro _ t' hadded
  exact .pure (.inr ⟨o, W₁, t₁, rfl, ha, hadded⟩)

theorem CacheAdded.ready (h : CacheAdded W t o objSize pages t') (hr : W.Ready t) :
    (W.withCache o objSize pages).Ready t' := by
  refine ⟨h.sound', ⟨hr.bottom.single, hr.bottom.below⟩, ?_, ?_⟩
  · exact hr.slabs.trans (h.freeObjs hr.sound.slab_mem).ge
  · exact hr.regions.trans (h.freeObjs hr.sound.vregion_mem).ge

end Atros
