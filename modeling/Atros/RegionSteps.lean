import Atros.SlabSteps

namespace Atros
set_option autoImplicit true

variable {W W' W₁ : World} {H H' : Heap} {t t' t₁ : View} {E : Panic → Prop}

/-! ### Taking a region in a sound state -/

/-- At most one region is free, and the head of the used regions is below it. -/
structure World.Bottom (W : World) : Prop where
  single : W.freeRegions.length ≤ 1
  below : W.UsedBelow

theorem World.RegionsOk.not_mem (h : W.RegionsOk t) (hsplit : W.freeRegions = as ++ r :: bs) :
    r ∉ as ++ bs ∧ r ∉ W.usedRegions := by
  have hnodup := h.regions.nodup
  rw [hsplit] at hnodup
  exact ⟨(List.nodup_cons.mp (List.nodup_middle.mp hnodup)).1,
    h.regions.not_used r (hsplit ▸ List.mem_append_right as List.mem_cons_self)⟩

theorem RegionTaken.cover (h : RegionTaken W t n r W' t') (hok : W.RegionsOk t) (v : Nat) :
    Covers (W'.freeRegions ++ W'.usedRegions) W'.extent v ↔
      Covers (W.freeRegions ++ W.usedRegions) W.extent v := by
  obtain ⟨as, bs, hfree, -, hcase⟩ := h.shape
  obtain ⟨us, vs, hused, hused', -, -⟩ := h.used
  obtain ⟨hrfree, hrused⟩ := hok.not_mem hfree
  have hsame : ∀ xs, (∀ x ∈ xs, x ∈ W.freeRegions ++ W.usedRegions ∧ x ≠ r) →
      (Covers xs W'.extent v ↔ Covers xs W.extent v) := fun xs hxs =>
    Covers.congr fun x hx => h.extents x (hxs x hx).1 (hxs x hx).2
  have has := hsame as fun x hx =>
    ⟨by rw [hfree]; exact List.mem_append_left _ (List.mem_append_left _ hx),
    fun heq => hrfree (heq ▸ List.mem_append_left bs hx)⟩
  have hbs := hsame bs fun x hx => ⟨by
      rw [hfree]
      exact List.mem_append_left _ (List.mem_append_right _ (List.mem_cons_of_mem r hx)),
    fun heq => hrfree (heq ▸ List.mem_append_right as hx)⟩
  have hus := hsame us fun x hx => ⟨List.mem_append_right _ (hused ▸ List.mem_append_left vs hx),
    fun heq => hrused (heq ▸ hused ▸ List.mem_append_left vs hx)⟩
  have hvs := hsame vs fun x hx => ⟨List.mem_append_right _ (hused ▸ List.mem_append_right us hx),
    fun heq => hrused (heq ▸ hused ▸ List.mem_append_right us hx)⟩
  have hr := h.taken
  rw [hfree, hused, hused']
  rcases hcase with ⟨hfree', hlen⟩ | ⟨o, hfree', hlt, ho⟩
  · have hsameR : W'.extent r = W.extent r := by
      rw [hr, ← hlen]
    rw [hfree']
    simp only [Covers.append, Covers.cons, has, hbs, hus, hvs, hsameR, or_assoc, or_comm,
      or_left_comm]
  · have hsplit : v ∈ W.extent r ↔ v ∈ W'.extent r ∨ v ∈ W'.extent o := by
      rw [hr, ho, Extent.mem_iff, Extent.mem_mk, Extent.mem_mk]
      omega
    rw [hfree']
    simp only [Covers.append, Covers.cons, has, hbs, hus, hvs, hsplit, or_assoc, or_comm,
      or_left_comm]

theorem RegionTaken.bottom (h : RegionTaken W t n r W' t') (hok : W.RegionsOk t)
    (hn : 1 ≤ (W.extent r).base + n)
    (hb : W.Bottom) : W'.Bottom := by
  obtain ⟨as, bs, hfree, -, hcase⟩ := h.shape
  obtain ⟨us, vs, hused, hused', -, -⟩ := h.used
  obtain ⟨-, hrused⟩ := hok.not_mem hfree
  have hsingle := hb.single
  rw [hfree, List.length_append, List.length_cons] at hsingle
  have has : as = [] := List.length_eq_zero_iff.mp (by omega)
  have hbs : bs = [] := List.length_eq_zero_iff.mp (by omega)
  subst has hbs
  have hrmem : r ∈ W.freeRegions := hfree ▸ List.mem_cons_self
  rcases hcase with ⟨hfree', -⟩ | ⟨o, hfree', hlt, ho⟩
  · refine ⟨by rw [hfree']; exact Nat.zero_le _, fun u _ f hf => ?_⟩
    rw [hfree'] at hf
    exact nomatch hf
  · refine ⟨by rw [hfree']; exact le_refl _, fun u hu f hf => ?_⟩
    rw [hfree', List.nil_append, List.mem_singleton] at hf
    rw [hf, ho]
    rw [hused'] at hu
    cases us with
    | nil =>
      rw [List.nil_append, List.head?_cons, Option.some.injEq] at hu
      rw [← hu, h.taken]
      exact ⟨hn, le_refl _⟩
    | cons u' us =>
      have hu' : u' = u := Option.some.inj hu
      subst hu'
      have humem : u' ∈ W.usedRegions := hused ▸ List.mem_cons_self
      have hur : u' ≠ r := fun heq => hrused (heq ▸ humem)
      have hbelow := hb.below u' (by rw [hused]; rfl) r hrmem
      rw [h.extents u' (List.mem_append_right _ humem) hur]
      rw [Extent.Below] at hbelow ⊢
      simp only
      omega

/-- The region `r` has been taken for `n` pages, and nothing else has happened but for one object
of the cache of regions. -/
structure RegionOut (W : World) (t : View) (n r : Nat) (W' : World) (t' : View) : Prop where
  sound : W'.Sound t'
  grows : W.Grows t W' t'
  same : W.SameSlabs W'
  taken : RegionTaken W t n r W' t'
  free : r ∈ W.freeRegions
  used : r ∈ W'.usedRegions
  other : ∀ c ∈ W.caches, ∀ s ∈ W.all c, W.region s ≠ r
  others : ∀ c ∈ W.caches, c ≠ W.cacheVregion → W'.freeObjs c = W.freeObjs c
  bottom : W.Bottom → W'.Bottom
  phys : t'.rest.phys = t.rest.phys
  paging : t'.rest.paging = t.rest.paging

theorem World.SlabRegions.taken (h : W.SlabRegions) (hok : W.RegionsOk t)
    (ht : RegionTaken W t n r W' t') (hsame : W.SameSlabs W') : W'.SlabRegions := by
  obtain ⟨as, bs, hfree, -, hcase⟩ := ht.shape
  obtain ⟨us, vs, hused, hused', -, -⟩ := ht.used
  obtain ⟨hrfree, hrused⟩ := hok.not_mem hfree
  have hrmem : r ∈ W.freeRegions := hfree ▸ List.mem_append_right as List.mem_cons_self
  have hle : n ≤ (W.extent r).len := by
    rcases hcase with ⟨-, hlen⟩ | ⟨-, -, hlt, -⟩ <;> omega
  have hold : ∀ x ∈ W.usedRegions, W'.extent x = W.extent x := fun x hx =>
    ht.extents x (List.mem_append_right _ hx) fun heq => hrused (heq ▸ hx)
  have hold' : ∀ x ∈ as ++ bs, W'.extent x = W.extent x ∧ x ∈ W.freeRegions := by
    intro x hx
    have hx' : x ∈ W.freeRegions :=
      hfree ▸ List.perm_middle.mem_iff.mpr (List.mem_cons_of_mem r hx)
    exact ⟨ht.extents x (List.mem_append_left _ hx') fun heq => hrfree (heq ▸ hx), hx'⟩
  have hrange : ∀ r ∈ W.freeRegions ++ W.usedRegions,
    1 ≤ (W.extent r).base ∧ (W.extent r).base + (W.extent r).len ≤ 1023 * 1024 := h.range
  have hrr := hrange r (List.mem_append_left _ hrmem)
  refine ⟨?_, ?_, ?_, ?_⟩
  · have hpair := h.apart
    rw [hused] at hpair hold
    rw [hused', List.pairwise_middle fun hab => hab.symm, List.pairwise_cons]
    refine ⟨fun x hx v hv hvx => ?_, hpair.imp_of_mem fun ha hb hab => ?_⟩
    · rw [hold x hx] at hvx
      refine hok.regions.apart r hrmem x (hused ▸ hx) v ?_ hvx
      rw [ht.taken, Extent.mem_mk] at hv
      rw [Extent.mem_iff]
      omega
    · rwa [hold _ ha, hold _ hb]
  · intro x hx
    have hcases : x = r ∨ x ∈ as ++ bs ∨ x ∈ W.usedRegions ∨
        n < (W.extent r).len ∧ W'.extent x = ⟨(W.extent r).base + n, (W.extent r).len - n⟩ := by
      rcases List.mem_append.mp hx with hx | hx
      · rcases hcase with ⟨hfree', -⟩ | ⟨o, hfree', hlt, ho⟩
        · exact .inr (.inl (hfree' ▸ hx))
        · rw [hfree', List.perm_middle.mem_iff, List.mem_cons] at hx
          rcases hx with rfl | hx
          · exact .inr (.inr (.inr ⟨hlt, ho⟩))
          · exact .inr (.inl hx)
      · rw [hused', List.perm_middle.mem_iff, List.mem_cons] at hx
        rcases hx with rfl | hx
        · exact .inl rfl
        · exact .inr (.inr (.inl (hused ▸ hx)))
    rcases hcases with rfl | hx | hx | ⟨hlt, hx⟩
    · rw [ht.taken]
      exact ⟨hrr.1, by simp only; omega⟩
    · rw [(hold' x hx).1]
      exact hrange x (List.mem_append_left _ (hold' x hx).2)
    · rw [hold x hx]
      exact hrange x (List.mem_append_right _ hx)
    · rw [hx]
      simp only
      omega
  · intro c hc s hs
    rw [hsame.caches] at hc
    rw [hsame.all] at hs
    obtain ⟨hmem, hlen⟩ := h.region c hc s hs
    rw [hsame.region, hsame.pages, hold _ hmem, hused', List.perm_middle.mem_iff]
    exact ⟨List.mem_cons_of_mem r (hused ▸ hmem), hlen⟩
  · intro c hc c' hc' s hs s' hs' heq
    rw [hsame.caches] at hc hc'
    rw [hsame.all] at hs hs'
    rw [hsame.region] at heq
    exact h.inj c hc c' hc' s hs s' hs' heq

theorem RegionTaken.mem (h : RegionTaken W t n r W' t') (hx : x ∈ W.freeRegions ++ W.usedRegions) :
    x ∈ W'.freeRegions ++ W'.usedRegions := by
  obtain ⟨as, bs, hfree, -, hcase⟩ := h.shape
  obtain ⟨us, vs, hused, hused', -, -⟩ := h.used
  rw [List.mem_append, hfree, hused, List.perm_middle.mem_iff, List.mem_cons] at hx
  rw [List.mem_append, hused', List.perm_middle.mem_iff (a := x), List.mem_cons]
  rcases hx with (rfl | hx) | hx
  · exact .inr (.inl rfl)
  · refine .inl ?_
    rcases hcase with ⟨hfree', -⟩ | ⟨o, hfree', -, -⟩
    · exact hfree' ▸ hx
    · exact hfree' ▸ List.perm_middle.mem_iff.mpr (List.mem_cons_of_mem o hx)
  · exact .inr (.inr hx)

theorem RegionTaken.sameSlabs (h : RegionTaken W t n r W' t') : W.SameSlabs W' ∧
    (∀ c, c ≠ W.cacheVregion → W'.slabs c = W.slabs c) ∧
    ∀ s ∉ W.all W.cacheVregion, W'.objs s = W.objs s := by
  obtain ⟨L, O, F, U, X, rfl, hperm, hO⟩ := h.world
  refine ⟨⟨fun _ => rfl, rfl, rfl, rfl, rfl, rfl, rfl, rfl, rfl, fun c s => ?_⟩,
    fun c hc => Function.update_of_ne hc _ _, hO⟩
  simp only [World.all]
  by_cases hc : c = W.cacheVregion
  · rw [hc, Function.update_self]
    exact hperm.mem_iff
  · rw [Function.update_of_ne hc]

theorem World.Sound.regionOut (h : W.Sound t) (ht : RegionTaken W t n r W' t') :
    RegionOut W t n r W' t' := by
  obtain ⟨hsame, hslabs, hobjs⟩ := ht.sameSlabs
  obtain ⟨as, bs, hfree, hsmall, -⟩ := ht.shape
  obtain ⟨us, vs, hused, hused', -, -⟩ := ht.used
  obtain ⟨-, hrused⟩ := h.regions.not_mem hfree
  have hrmem : r ∈ W.freeRegions := hfree ▸ List.mem_append_right as List.mem_cons_self
  have hbase : 1 ≤ (W.extent r).base + n :=
    (h.slabRegions.range r (List.mem_append_left _ hrmem)).1.trans (Nat.le_add_right _ _)
  have hhome : W.cacheVregion ∈ W.caches := h.caches.own.mem .vregion
  have hcacheV := h.caches.cache _ hhome
  have hold : ∀ x ∈ W.usedRegions, x ∈ W'.usedRegions ∧ W'.extent x = W.extent x := by
    intro x hx
    refine ⟨?_, ht.extents x (List.mem_append_right _ hx) fun heq => hrused (heq ▸ hx)⟩
    rw [hused', List.perm_middle.mem_iff]
    exact List.mem_cons_of_mem r (hused ▸ hx)
  have hext : ∀ c ∈ W.caches, ∀ s ∈ W.all c, W'.extent (W.region s) = W.extent (W.region s) :=
    fun c hc s hs => (hold _ (h.slabRegions.region c hc s hs).1).2
  have hrest := ht.rest
  have htypedFree : ∀ a, a ∈ W.freeRegions ∨ a ∈ W.usedRegions → t.heap.struct a = some .vregion ∧
      t'.heap.struct a = some .vregion := by
    intro a ha
    refine ⟨ha.elim (h.regions.free.2 a) (h.regions.used.2 a), ?_⟩
    rcases List.mem_append.mp (ht.mem (List.mem_append.mpr ha)) with ha' | ha'
    · exact ht.regions.free.2 a ha'
    · exact ht.regions.used.2 a ha'
  have hsound : W'.Sound t' := by
    refine ⟨?_, ?_, ht.regions, h.slabRegions.taken h.regions ht hsame, ?_⟩
    · refine h.caches.step hsame ht.cache hslabs hobjs hhome ht.changes ?_ ht.links ?_ ?_
      · rintro c hc hne k a ha (hown | ⟨rfl, -⟩)
        · exact (h.caches.cache c hc).owned_apart hcacheV hne ha hown
        · exact ha
      · rw [hrest]
        exact ⟨h.caches.own.objsCacheVar, h.caches.own.slabVar, h.caches.own.vregionVar,
          h.caches.own.vpagesVar, h.caches.own.mem, h.caches.own.apart, h.caches.own.size,
          h.caches.own.pages⟩
      · rw [hrest]
    · refine h.placed.step hsame hext ht.slots fun a k _ ha => ?_
      rcases ht.struct a k ha with hold | ⟨rfl, -, hslot⟩
      · exact .inl hold
      · exact .inr hslot
    · exact h.backed.step hsame (by rw [hrest]) (by rw [hrest]) hext fun v =>
        (ht.cover h.regions v).mp
  refine ⟨hsound, ?_, hsame, ht, hrmem, ?_, ?_, ?_, ht.bottom h.regions hbase, by rw [hrest],
    by rw [hrest]⟩
  · refine ⟨hsame.own, fun c hc => hsame.caches ▸ hc, fun c _ => ⟨by rw [hsame.size],
      by rw [hsame.pages]⟩, fun c _ s hs => ⟨(hsame.all c s).mpr hs, by rw [hsame.region],
      by rw [hsame.block]⟩, hold, ht.cover h.regions, fun a u hu => by rw [ht.slots, hu], ?_, ?_,
      fun x hx => hsame.freeBlocks ▸ hx, fun b hb => .inl (hsame.live ▸ hb), fun _ _ _ _ _ _ => by
        rw [hrest]⟩
    · intro a hslot ha
      refine ht.changes.untyped a (fun k hk => ?_) ha hslot
      rcases hk with hown | ⟨rfl, hfr | hu | hobj⟩
      · exact Option.some_ne_none k ((hcacheV.typed hown).symm.trans ha)
      · exact Option.some_ne_none _ ((htypedFree a (.inl hfr)).1.symm.trans ha)
      · exact Option.some_ne_none _ ((htypedFree a (.inr hu)).1.symm.trans ha)
      · exact Option.some_ne_none _ (hobj.symm.trans ha)
    · intro a k hk ha
      by_cases hfoot : W.RegionFoot t.heap k a
      · rcases hfoot with hown | ⟨rfl, hfr | hu | hobj⟩
        · refine ht.cache.typed ?_
          cases k with
          | cache => exact hown
          | slab => exact (hsame.all _ a).mpr hown
          | object => exact absurd rfl hk
          | vregion => exact hown
        · exact (htypedFree a (.inl hfr)).2
        · exact (htypedFree a (.inr hu)).2
        · rw [hobj] at ha
          exact nomatch ha
      · exact ht.changes.struct k a hfoot ha
  · rw [hused', List.perm_middle.mem_iff]
    exact List.mem_cons_self
  · intro c hc s hs heq
    exact hrused (heq ▸ (h.slabRegions.region c hc s hs).1)
  · intro c hc hne
    refine World.SameCache.freeObjs ⟨hslabs c hne, by rw [hsame.size], by rw [hsame.pages],
      fun s hs => ⟨hobjs s fun hin => ?_, by rw [hsame.region], by rw [hsame.owner]⟩⟩
    exact (h.caches.cache c hc).owned_apart hcacheV hne (k := .slab) hs hin

theorem World.Sound.vregionAlloc_ (h : W.Sound t)
    (hnone : E .noFreeVregion ∨ W.freeRegions ≠ [])
    (hE : (∀ e, E e) ∨ 0 < W.freeObjs W.cacheVregion ∧ W.UsedBelow) :
    Runs Shows E (fun x t' => x = none ∧ t' = t ∧ (∀ r ∈ W.freeRegions, (W.extent r).len < n) ∨
      ∃ r W', x = some r ∧ RegionOut W t n r W' t') (vregionAlloc_ n) t := by
  have hhome : W.cacheVregion ∈ W.caches := h.caches.own.mem .vregion
  have hsize : sizeofVregion ≤ W.size W.cacheVregion :=
    le_of_eq (h.caches.own.size .vregion (by decide)).symm
  refine (vregionAlloc_runs h.regions (h.caches.cache _ hhome) h.caches.own.vpagesVar hsize ?_ hnone
    hE).imp ?_
  · intro f hf
    have hbase := (h.slabRegions.range f (List.mem_append_left _ hf)).1
    omega
  rintro x t' (hx | ⟨r, W', rfl, ht⟩)
  · exact .inl hx
  · exact .inr ⟨r, W', rfl, h.regionOut ht⟩

end Atros
