import Atros.SlabRuns

namespace Atros
set_option autoImplicit true

variable {t t' t₁ : View} {W : World} {E : Panic → Prop} {Q : Option Nat → View → Prop}
  {R : Option Nat × Option Nat → View → Prop} {v last : Nat} {spare : Option Nat}
  {blocks live : List Block}

/-! ### A first free region that leads on to what the memory held

Neither `vregion_init` nor `virtual_page_boot_init` sets the successor of the first free region. -/

section
variable (h : BootMade v last spare blocks live W t₁ o t)
include h

theorem BootMade.region_struct : t.heap.struct o = some .vregion := by
  rw [h.made.struct]
  exact Function.update_self ..

theorem BootMade.request (hx : Runs Shows E Q (vregionAlloc_ n) t) :
    Runs Shows E Q (vregionAlloc depth n) t := by
  have hcaches := h.made.cachesOk
  have hV := hcaches.cache _ (hcaches.own.mem .vregion)
  have hcount : t.heap.word .freeObjsCount W.cacheVregion = 337 := hV.freeCount.trans h.regionObjs
  unfold vregionAlloc
  refine .cacheOf (c := W.cacheVregion)
    (fun k hk => hk.vpagesCacheVregion.trans hcaches.own.vpagesVar) ?_
  refine .readWord .freeObjsCount hV.lists.cache ?_
  rw [hcount]
  refine .passes (by decide) (.readWord .freeObjsCount hV.lists.cache ?_)
  rw [hcount]
  exact .ite (fun heq => absurd heq (by decide)) fun _ => hx

/-- A search for more pages than the first free region has goes on to what it leads to. -/
theorem BootMade.searchOn (hn : last + 1 - (v + 3) < n) {prev : Option Nat}
    (hx : Runs Shows E R (firstFitLoop n rounds (some o) spare) t) :
    Runs Shows E R (firstFitLoop n (rounds + 1) prev (some o)) t := by
  have htyped := h.region_struct
  have hlen : t.heap.word .nbrPages o = last + 1 - (v + 3) := h.made.words.2
  rw [firstFitLoop]
  refine .readWord .nbrPages htyped (.ite (fun hfit => ?_) fun _ => ?_)
  · rw [hlen] at hfit
    exact absurd hfit (Nat.not_le.mpr hn)
  · refine .readPtr .vregionNext htyped ?_
    rw [h.made.last]
    exact hx

end

/-- A region that leads to itself is searched for ever. -/
theorem BootMade.endless (h : BootMade v last (some o) blocks live W t₁ o t)
    (hn : last + 1 - (v + 3) < n) :
    Runs Shows (fun e => e = .endless) (fun _ _ => False) (vregionAlloc depth n) t := by
  have hloop : ∀ rounds prev, Runs Shows (fun e => e = .endless) (fun _ _ => False)
      (firstFitLoop n rounds prev (some o)) t := by
    intro rounds
    induction rounds with
    | zero => exact fun _ => .throw rfl
    | succ rounds ih => exact fun _ => h.searchOn hn (ih (some o))
  have hhead : t.rest.freeVregions = some o := by rw [h.made.rest]
  refine h.request ?_
  unfold vregionAlloc_
  refine .read (reads_freeVregions t) ?_
  rw [hhead]
  exact .passes (Option.some_ne_none o) (.bind (hloop _ _) fun _ _ hfalse => hfalse.elim)

/-! ### A slab taken for a region

The successor of the first free region is the address of the second word of a slab, the words of
which are then read as those of a region. -/

/-- A pointer of a structure, read as the number in a word of another one. -/
theorem reads_overlaid {f : PointerField} (g : WordField) (ha : t.heap.struct a = some f.struct)
    (hb : b + g.offset = a + f.offset) : Reads Shows (g.of b) t (ofPtr (t.heap.ptr f a)) := by
  intro k hk
  change load32 k.mem (b + g.offset) = _
  rw [hb]
  exact hk.models.ptr f a ha

/-- The second word of the slab of caches. -/
def staleRegion (v : Nat) : Nat := bootPlace v .slab 0 + 4

section
variable (h : BootMade v last spare blocks live W t₁ o t)
include h

theorem BootMade.slab₀ : t.heap.struct (bootPlace v .slab 0) = some .slab ∧
    t.heap.ptr .slabVregion (bootPlace v .slab 0) = some (bootPlace v .vregion 0) ∧
    t.heap.ptr .freeObjsList (bootPlace v .slab 0) = some (bootPlace v .cache 3) ∧
    t.heap.ptr .slabPrev (bootPlace v .slab 0) = none := by
  have hcaches := h.made.cachesOk
  have hhome : W.homeOf .cache = bootPlace v .cache 0 := h.home .cache (by decide)
  have hcache := hcaches.cache _ (hcaches.own.mem .cache)
  change (W.withFree o _).CacheOk t.heap (W.homeOf .cache) at hcache
  rw [hhome] at hcache
  have hone : (W.withFree o ⟨v + 3, last + 1 - (v + 3)⟩).slabs (bootPlace v .cache 0)
      .statusPartial = [bootPlace v .slab 0] := h.slabs
  have hmem : bootPlace v .slab 0 ∈ (W.withFree o ⟨v + 3, last + 1 - (v + 3)⟩).slabs
      (bootPlace v .cache 0) .statusPartial := by
    rw [hone]
    exact List.mem_singleton_self _
  have hok := (hcache.slab _ _ hmem).1
  have hchain := hok.chain
  change Chain _ _ (W.objs (bootPlace v .slab 0)) at hchain
  rw [h.objs] at hchain
  have hregion := hok.region
  have hprev := hcache.lists.chain .statusPartial
  rw [hone] at hprev
  refine ⟨hcache.lists.slab _ _ hmem, hregion.trans (congrArg some (h.region .cache (by decide))),
    hchain.head.trans rfl, hprev.2.1⟩

theorem BootMade.usedWords (hi : i ∈ bootKinds) :
    t.heap.struct (bootPlace v .vregion i.rank) = some .vregion ∧
      t.heap.word .firstVpn (bootPlace v .vregion i.rank) = v + i.rank ∧
      t.heap.word .nbrPages (bootPlace v .vregion i.rank) = 1 := by
  have hregions := h.made.sound.regions
  have hmem : bootPlace v .vregion i.rank ∈ W.usedRegions := by
    rw [h.used]
    exact List.mem_map_of_mem hi
  have hne := h.made.used_ne hmem
  have hoff : ¬(Struct.vregion = .vregion ∧ bootPlace v .vregion i.rank = o) := fun hc => hne hc.2
  have hwords := hregions.words _ (List.mem_append_right _ hmem)
  rw [h.extents i hi] at hwords
  refine ⟨?_, ?_, ?_⟩
  · rw [h.made.struct, Function.update_of_ne hne]
    exact hregions.used.2 _ hmem
  · rw [h.made.changes.word .firstVpn _ hoff, hwords.1]
  · rw [h.made.changes.word .nbrPages _ hoff, hwords.2]

theorem BootMade.usedHead : t.rest.usedVregions = some (bootPlace v .vregion 0) := by
  have hhead : t₁.rest.usedVregions = W.usedRegions.head? := h.made.sound.regions.used.1.head
  rw [h.used] at hhead
  rw [h.made.rest]
  exact hhead

end

/-- The view after the slab has been taken. -/
def View.slabTaken (t : View) (v o : Nat) : View :=
  (((t.setPtr .vregionNext o none).setPtr .slabPrev (bootPlace v .slab 0) none).setPtr .slabPrev
    (bootPlace v .slab 0) (some (bootPlace v .vregion 0))).setHead .used (some (staleRegion v))

theorem vregionCmp_reads {x y a m c n : Nat} (hx : Reads Shows (firstVpnOf x) t a)
    (hxn : Reads Shows (nbrPagesOf x) t m) (hy : Reads Shows (firstVpnOf y) t c)
    (hyn : Reads Shows (nbrPagesOf y) t n) (hlow : c < a) (hlast : lastVpn c n ≤ lastVpn a m) :
    Runs Shows E (fun v t' => t' = t ∧ v ≤ 0) (vregionCmp x (some y)) t := by
  unfold vregionCmp vregionFirstVpn vregionLastVpn
  simp only [bind_assoc, pure_bind]
  refine .deref (.read hx (.read hx (.read hxn (.read hy (.read hy (.read hyn ?_))))))
  refine .passes (.inr ⟨hlow.le, hlast⟩) (.pure ⟨rfl, ?_⟩)
  rw [if_neg (by omega), if_neg (by omega)]
  decide

/-- The words of the slab, as those of a region. -/
structure View.ReadsSlab (t : View) (v : Nat) : Prop where
  first : Reads Shows (firstVpnOf (staleRegion v)) t (bootPlace v .vregion 0)
  pages : Reads Shows (nbrPagesOf (staleRegion v)) t (bootPlace v .cache 3)

theorem View.ReadsSlab.of_slab (hs : t.heap.struct (bootPlace v .slab 0) = some .slab)
    (hregion : t.heap.ptr .slabVregion (bootPlace v .slab 0) = some (bootPlace v .vregion 0))
    (hobjs : t.heap.ptr .freeObjsList (bootPlace v .slab 0) = some (bootPlace v .cache 3)) :
    t.ReadsSlab v := by
  have hfirst := reads_overlaid (f := .slabVregion) (b := staleRegion v) .firstVpn hs
    (Nat.add_zero (bootPlace v .slab 0 + 4))
  have hpages := reads_overlaid (f := .freeObjsList) (b := staleRegion v) .nbrPages hs
    (Nat.add_assoc (bootPlace v .slab 0) 4 4)
  rw [hregion] at hfirst
  rw [hobjs] at hpages
  exact ⟨hfirst, hpages⟩

theorem staleRegion_next (v : Nat) :
    vregionNextOf (staleRegion v) = slabPrevOf (bootPlace v .slab 0) :=
  congrArg pointerAt (Nat.add_assoc (bootPlace v .slab 0) 4 8)

theorem BootMade.deletesSlab (h : BootMade v last (some (staleRegion v)) blocks live W t₁ o t)
    (hne : o ≠ staleRegion v) :
    Runs Shows E (fun _ t' => t' = (t.setPtr .vregionNext o none).setPtr .slabPrev
        (bootPlace v .slab 0) none)
      (listDeleteEl freeVregionsVar vregionNextOf (some o) (staleRegion v)) t := by
  obtain ⟨hs, -, -, hprev⟩ := h.slab₀
  have hhead : t.rest.freeVregions = some o := by rw [h.made.rest]
  unfold listDeleteEl
  refine .read (reads_freeVregions t) (.passes (fun hc => absurd hc.1 (Option.some_ne_none o)) ?_)
  refine .read (reads_freeVregions t) ?_
  rw [hhead, if_neg (fun heq => hne (Option.some.inj heq)), staleRegion_next]
  refine .readPtr .slabPrev hs ?_
  rw [hprev]
  refine .writePtr .vregionNext h.region_struct .none ?_
  exact .writeLast (writes_ptr .slabPrev hs .none) rfl

theorem BootMade.takesSlab (h : BootMade 303 1023 (some (staleRegion 303)) blocks live W t₁ o t) :
    Runs Shows E (fun x t' => x = some (staleRegion 303) ∧ t' = t.slabTaken 303 o)
      (vregionAlloc depth (bootPlace 303 .cache 3)) t := by
  obtain ⟨hs, hregion, hobjs, hprev⟩ := h.slab₀
  obtain ⟨hu, hfirst, hpages⟩ := h.usedWords (i := .cache) (by decide)
  change t.heap.word .firstVpn (bootPlace 303 .vregion 0) = 303 at hfirst
  change t.heap.word .nbrPages (bootPlace 303 .vregion 0) = 1 at hpages
  have hused := h.usedHead
  have hne : o ≠ staleRegion 303 := by
    rw [h.place]
    decide
  have hhead : t.rest.freeVregions = some o := by rw [h.made.rest]
  have hreads := View.ReadsSlab.of_slab hs hregion hobjs
  have hrounds : listRounds = (listRounds - 2) + 1 + 1 := rfl
  refine h.request ?_
  unfold vregionAlloc_
  refine .read (reads_freeVregions t) ?_
  rw [hhead]
  refine .passes (Option.some_ne_none o) (.bind (R := fun r t' => t' = t ∧
    r = (some o, some (staleRegion 303))) ?_ ?_)
  · rw [hrounds]
    refine h.searchOn (by decide) ?_
    rw [firstFitLoop]
    exact .read hreads.pages (.ite (fun _ => .pure ⟨rfl, rfl⟩) fun hn => absurd (le_refl _) hn)
  rintro ⟨prev, found⟩ t' ⟨ht, heq⟩
  cases heq
  rw [ht]
  refine .bind (h.deletesSlab hne) ?_
  rintro - t₂ rfl
  have hreads₂ : ((t.setPtr .vregionNext o none).setPtr .slabPrev
      (bootPlace 303 .slab 0) none).ReadsSlab 303 := .of_slab hs hregion hobjs
  refine .read hreads₂.pages (.ite (fun hlt => absurd hlt (Nat.lt_irrefl _)) fun _ => ?_)
  refine .bind (R := fun _ t' => t' = t.slabTaken 303 o) ?_ fun _ _ ht => .pure ⟨rfl, ht⟩
  unfold listInsertOrdered
  refine .read (reads_usedVregions _) ?_
  have hused₂ : ((t.setPtr .vregionNext o none).setPtr .slabPrev
      (bootPlace 303 .slab 0) none).rest.usedVregions = some (bootPlace 303 .vregion 0) := hused
  rw [hused₂]
  refine .bind (vregionCmp_reads hreads₂.first hreads₂.pages (reads_word .firstVpn hu)
    (reads_word .nbrPages hu) ?_ ?_) ?_
  · change t.heap.word .firstVpn _ < _
    rw [hfirst]
    decide
  · change lastVpn (t.heap.word .firstVpn _) (t.heap.word .nbrPages _) ≤ _
    rw [hfirst, hpages]
    decide
  rintro c t₃ ⟨rfl, hc⟩
  refine .ite (fun _ => ?_) fun hn => absurd hc hn
  unfold listPushHead
  refine .read (reads_usedVregions _) ?_
  rw [hused₂, staleRegion_next]
  exact .writePtr .slabPrev hs (.some (by decide) (by decide))
    (.writeLast (writes_usedVregions _ _) rfl)

theorem slabKernel_stale (hw : w < 2 ^ 32) (hd : 2 ≤ depth) : ∃ k free k₀, SlabBootReady k free ∧
    objsCacheBootInit (depth + 1) k = .ok ((), k₀) ∧ ∃ W t₁ o t blocks live, Shows k₀ t ∧
      BootMade 303 1023 (toPtr w) blocks live W t₁ o t ∧ HasPages blocks 247 := by
  obtain ⟨k, free, -, hready, hroom, hvpn, hmem⟩ := slabKernel_boots
    (store32 (bootPlace 303 .vregion 3 + PointerField.vregionNext.offset) w slabKernel.mem)
  have hspare : bootSpare k.bootVpn.firstFree k.mem = toPtr w := by
    rw [hvpn, hmem, bootSpare, load32_store32 hw]
  have hroom' : HasPages free 3 := hroom.le (by decide)
  obtain ⟨⟨⟩, k₀, hrun, t, hk₀, W, t₁, o, blocks, live, htook, hmade⟩ :=
    (hready.runs (E := fun _ => False) (.inr hroom') hd k hready.shows).returns
  rw [hspare, hvpn] at hmade
  exact ⟨k, free, k₀, hready, hrun, W, t₁, o, t, blocks, live, hk₀, hmade, htook.room 247 hroom⟩

/-- The session in which one request got the slab of caches. -/
def staleSession (k₀ k₁ : Kernel) : Session :=
  (Session.start k₀).after (.vregionAlloc (bootPlace 303 .cache 3)) (some (staleRegion 303)) k₁

theorem slabKernel_takesSlab (hd : 2 ≤ depth) : ∃ k free k₀ k₁, SlabBootReady k free ∧
    objsCacheBootInit (depth + 1) k = .ok ((), k₀) ∧
    SlabRun depth (.start k₀) (staleSession k₀ k₁) ∧
      ∃ W t₁ o t blocks live, Shows k₀ t ∧ Shows k₁ (t.slabTaken 303 o) ∧
        BootMade 303 1023 (some (staleRegion 303)) blocks live W t₁ o t := by
  obtain ⟨k, free, k₀, hready, hboot, W, t₁, o, t, blocks, live, hk, hmade, -⟩ :=
    slabKernel_stale (w := staleRegion 303) (by decide) hd
  have hspare : toPtr (staleRegion 303) = some (staleRegion 303) := by decide
  rw [hspare] at hmade
  have htakes : Runs Shows (fun _ => False)
      (fun x t' => x = some (staleRegion 303) ∧ t' = t.slabTaken 303 o)
      (vregionAlloc depth (bootPlace 303 .cache 3)) t := hmade.takesSlab
  obtain ⟨x, k₁, hrun, _, hk₁, rfl, rfl⟩ := (htakes k₀ hk).returns
  have hallowed : SlabCall.Allowed (.start k₀) (.vregionAlloc (bootPlace 303 .cache 3)) := trivial
  exact ⟨k, free, k₀, k₁, hready, hboot, .single (.call hallowed hrun), W, t₁, o, t, blocks, live,
    hk, hk₁, hmade⟩

end Atros
