import Mathlib.Data.List.Nodup
import Atros.SlabMapping

namespace Atros
set_option autoImplicit true

variable {W W' : World} {H H' : Heap} {t t' t₁ : View} {E : Panic → Prop}

/-! ### Room for one more slab -/

theorem length_mul_le {es : List Extent} (hapart : es.Pairwise Extent.Apart)
    (hes : ∀ e ∈ es, e.len = n ∧ e.base + e.len ≤ m) : es.length * n ≤ m := by
  have hnodup : (es.flatMap fun e => List.range' e.base e.len).Nodup := by
    rw [List.nodup_flatMap]
    refine ⟨fun e _ => List.nodup_range', hapart.imp ?_⟩
    intro e e' h x hx hx'
    rw [List.mem_range'_1] at hx hx'
    exact h x hx hx'
  have hsub : (es.flatMap fun e => List.range' e.base e.len) ⊆ List.range m := by
    intro x hx
    obtain ⟨e, he, hx⟩ := List.mem_flatMap.mp hx
    rw [List.mem_range'_1] at hx
    have hend := (hes e he).2
    rw [List.mem_range]
    omega
  have hlen := (hnodup.subperm hsub).length_le
  have hsum : (es.map fun e => (List.range' e.base e.len).length).sum = es.length * n := by
    have hconst : es.map (fun e => (List.range' e.base e.len).length) =
      List.replicate es.length n := by
      rw [List.eq_replicate_iff, List.length_map]
      refine ⟨rfl, fun k hk => ?_⟩
      obtain ⟨e, he, rfl⟩ := List.mem_map.mp hk
      rw [List.length_range', (hes e he).1]
    rw [hconst, List.sum_replicate_nat]
  rw [List.length_flatMap, hsum, List.length_range] at hlen
  exact hlen

/-- The places for the objects of a slab of `c` in the region `r`. -/
def World.placesIn (W : World) (c r : Nat) : List Nat :=
  objsFrom ((W.extent r).base * 4096) (W.size c) (W.per c)

theorem World.per_mul_size_le (W : World) (c : Nat) : W.per c * W.size c ≤ W.pages c * 4096 :=
  (Nat.div_mul_le_self _ _).trans (Nat.mod_le _ _)

theorem World.mem_placesIn (ha : a ∈ W.placesIn c r) :
    (W.extent r).base * 4096 ≤ a ∧ a + W.size c ≤ ((W.extent r).base + W.pages c) * 4096 := by
  obtain ⟨j, hj, rfl⟩ := mem_objsFrom.mp ha
  have hle := W.per_mul_size_le c
  have hmul : (j + 1) * W.size c ≤ W.per c * W.size c := Nat.mul_le_mul_right _ hj
  rw [Nat.succ_mul] at hmul
  rw [Nat.add_mul]
  omega

theorem places_apart {e e' : Extent} (h : e.Apart e') (hz : 1 ≤ z) (hz' : 1 ≤ z')
    (ha : e.base * 4096 ≤ a ∧ a + z ≤ (e.base + e.len) * 4096)
    (hb : e'.base * 4096 ≤ b ∧ b + z' ≤ (e'.base + e'.len) * 4096) :
    a + z ≤ b ∨ b + z' ≤ a := by
  rw [Extent.apart_iff] at h
  omega

/-! ### What a new slab is made of -/

/-- The object `a` of the cache of slabs, the used region `r` and the block `b`, none of which
belongs to a slab yet, make a slab of `c`. -/
structure World.Parts (W : World) (t : View) (c a r : Nat) (b : Block) : Prop where
  sound : W.Sound t
  cache : c ∈ W.caches
  out : W.Out t.heap W.cacheSlab a
  used : r ∈ W.usedRegions
  pages : (W.extent r).len = W.pages c
  region : ∀ c ∈ W.caches, ∀ s ∈ W.all c, W.region s ≠ r
  live : b ∈ W.live
  large : W.pages c ≤ 2 ^ b.order
  block : ∀ c ∈ W.caches, ∀ s ∈ W.all c, W.block s ≠ b
  mapped : ∀ i < W.pages c, ∀ o < 2 ^ 12,
    t.rest.paging.walk (((W.extent r).base + i) * 2 ^ 12 + o) = some ((b.ppn + i) * 2 ^ 12 + o)

section
variable (h : W.Parts t c a r b)
include h

theorem World.Parts.not_slab (hc : c' ∈ W.caches) : a ∉ W.all c' := by
  intro ha
  have htyped := (h.sound.caches.cache c' hc).typed (k := .slab) ha
  rw [h.out.untyped] at htyped
  exact nomatch htyped

theorem World.Parts.range : 1 ≤ (W.extent r).base ∧
    (W.extent r).base + W.pages c ≤ 1023 * 1024 := by
  rw [← h.pages]
  exact h.sound.slabRegions.range r (List.mem_append_right _ h.used)

theorem World.Parts.per_eq : W.pages c * 4096 / W.size c = W.per c := by
  have hrange := h.range
  rw [World.per, mul32_of_lt]
  · rfl
  · rw [show vpageSize = 4096 from rfl]
    omega

theorem World.Parts.room : W.per c * ((W.all c).length + 1) < 2 ^ 32 := by
  have hcache := h.sound.caches.cache c h.cache
  have hsize := hcache.size_ge
  have hnodup : ((W.all c).map W.region).Nodup := by
    refine (List.nodup_map_iff_inj_on hcache.lists.nodup_all).mpr ?_
    exact fun s hs s' hs' => h.sound.slabRegions.inj c h.cache c h.cache s hs s' hs'
  have hmem : ∀ x ∈ r :: (W.all c).map W.region, x ∈ W.usedRegions ∧
      (W.extent x).len = W.pages c := by
    intro x hx
    rcases List.mem_cons.mp hx with rfl | hx
    · exact ⟨h.used, h.pages⟩
    · obtain ⟨s, hs, rfl⟩ := List.mem_map.mp hx
      exact h.sound.slabRegions.region c h.cache s hs
  have hcons : (r :: (W.all c).map W.region).Nodup := by
    refine List.nodup_cons.mpr ⟨fun hr => ?_, hnodup⟩
    obtain ⟨s, hs, heq⟩ := List.mem_map.mp hr
    exact h.region c h.cache s hs heq
  have hapart : ((r :: (W.all c).map W.region).map W.extent).Pairwise Extent.Apart := by
    refine List.pairwise_map.mpr (hcons.imp_of_mem fun hx hy hne => ?_)
    exact h.sound.slabRegions.used_apart (hmem _ hx).1 (hmem _ hy).1 hne
  have htotal := length_mul_le (n := W.pages c) (m := 1023 * 1024) hapart fun e he => by
    obtain ⟨x, hx, rfl⟩ := List.mem_map.mp he
    exact ⟨(hmem x hx).2, (h.sound.slabRegions.range x (List.mem_append_right _ (hmem x hx).1)).2⟩
  rw [List.length_map, List.length_cons, List.length_map, Nat.mul_comm] at htotal
  have hper : W.per c ≤ W.pages c * 1024 := by
    rw [← h.per_eq]
    refine Nat.div_le_of_le_mul ?_
    have hmul : 4 * (W.pages c * 1024) ≤ W.size c * (W.pages c * 1024) :=
      Nat.mul_le_mul_right _ hsize
    omega
  have hprod : W.per c * ((W.all c).length + 1) ≤ W.pages c * 1024 * ((W.all c).length + 1) :=
    Nat.mul_le_mul_right _ hper
  rw [Nat.mul_right_comm] at hprod
  omega

theorem World.Parts.placesIn_bounds (hx : x ∈ W.placesIn c r) :
    0 < x ∧ x + W.size c ≤ 2 ^ 32 := by
  have hrange := h.range
  have hx' := World.mem_placesIn hx
  omega

theorem World.Parts.apart (hx : x ∈ W.placesIn c r) (hu : t.heap.slot y = some u) :
    x + W.size c ≤ y ∨ y + u.size ≤ x := by
  obtain ⟨c', hc', s, hs, rfl, hy⟩ := (h.sound.placed.slot y u).mp hu
  obtain ⟨hused, hlen⟩ := h.sound.slabRegions.region c' hc' s hs
  have hapart := h.sound.slabRegions.used_apart h.used hused (h.region c' hc' s hs).symm
  have hsize := (h.sound.caches.cache c h.cache).size_ge
  have hsize' := (h.sound.caches.cache c' hc').size_ge
  have hx' := World.mem_placesIn hx
  have hy' := World.mem_placesIn (c := c') (r := W.region s) hy
  rw [← hlen] at hy'
  rw [← h.pages] at hx'
  have hpos : 1 ≤ W.size c := by omega
  have hpos' : 1 ≤ W.size c' := by omega
  exact places_apart hapart hpos hpos' hx' hy'

theorem World.Parts.fresh (hx : x ∈ W.placesIn c r) : t.heap.slot x = none := by
  by_contra hne
  obtain ⟨u, hu⟩ := Option.ne_none_iff_exists'.mp hne
  have hapart := h.apart hx hu
  have hsize := (h.sound.caches.cache c h.cache).size_ge
  obtain ⟨c', hc', s, hs, rfl, -⟩ := (h.sound.placed.slot x u).mp hu
  have hsize' := (h.sound.caches.cache c' hc').size_ge
  simp only at hapart
  omega

end

/-- The heap in which the addresses `xs` are places for objects. -/
def Heap.withSlots (H : Heap) (xs : List Nat) (u : Slot) : Heap :=
  { H with slot := fun x => if x ∈ xs then some u else H.slot x }

theorem World.Parts.models (h : W.Parts t c a r b) (hm : t.heap.Models m) :
    (t.heap.withSlots (W.placesIn c r) ⟨a, W.size c⟩).Models m := by
  refine hm.addSlots (fun x u hu => ?_) (fun x y u v hu hv hne => ?_) fun x u hu => ?_
  · rw [if_neg, hu]
    intro hx
    rw [h.fresh hx] at hu
    exact nomatch hu
  · split at hu
    · cases hu
      split at hv
      · cases hv
        exact objsFrom_apart ‹_› ‹_› hne
      · exact h.apart ‹_› hv
    · split at hv
      · cases hv
        exact (h.apart ‹_› hu).symm
      · exact hm.apart x y u v hu hv hne
  · split at hu
    · cases hu
      exact h.placesIn_bounds ‹_›
    · exact hm.bounds x u hu

/-! ### The new slab before it is on a list -/

/-- The world in which the parts make a slab of `c`, on none of its lists yet. -/
def World.fill (W : World) (c a r : Nat) (b : Block) : World :=
  { W with
    objs := Function.update W.objs a (W.placesIn c r)
    owner := Function.update W.owner a c
    region := Function.update W.region a r
    block := Function.update W.block a b }

/-- What changes when the slab `a` with the free objects `xs` is made. -/
def NewSlab (a : Nat) (xs : List Nat) (k : Struct) (x : Nat) : Prop :=
  k = .slab ∧ x = a ∨ k = .object ∧ x ∈ xs

/-- The slab `a` of `c` is ready to go to its list. -/
structure Prepared (W : World) (t : View) (c a r : Nat) (b : Block) (t₁ : View) : Prop where
  parts : W.Parts t c a r b
  slab : (W.fill c a r b).SlabOk t₁.heap c a
  descriptor : t₁.heap.struct a = some .slab
  struct : ∀ x, x ≠ a → x ∉ W.placesIn c r → t₁.heap.struct x = t.heap.struct x
  object : ∀ x ∈ W.placesIn c r, t₁.heap.struct x = some .object
  slot : t₁.heap.slot = (t.heap.withSlots (W.placesIn c r) ⟨a, W.size c⟩).slot
  changes : t.heap.ChangesOnly (NewSlab a (W.placesIn c r)) t₁.heap
  rest : t₁.rest = { t.rest with phys := t₁.rest.phys }
  grown : t₁.rest.phys.Grown W.freeBlocks W.live
  lastPpn : t₁.rest.phys.lastPpn = t.rest.phys.lastPpn
  others : ∀ x, x ∉ b.pages → (t₁.rest.phys.dscrs x).slab = (t.rest.phys.dscrs x).slab

theorem World.Parts.prepare (h : W.Parts t c a r b) :
    Runs Shows E (fun x t₁ => x = some a ∧ t₁.rest = t.rest ∧ Prepared W t c a r b t₁)
      (initializeSlab a r (W.size c) 0) t := by
  refine Runs.shown fun k hk => ?_
  have hcache := h.sound.caches.cache c h.cache
  have hrange := h.range
  have hrmem : r ∈ W.freeRegions ++ W.usedRegions := List.mem_append_right _ h.used
  obtain ⟨hfirst, hpages⟩ := h.sound.regions.words r hrmem
  have hr := h.sound.regions.used.2 r h.used
  have hra : r ≠ a := by
    rintro rfl
    rw [h.out.untyped] at hr
    exact nomatch hr
  obtain ⟨s₀, -, hslot⟩ := h.out.slot
  have hsize : Struct.slab.size ≤ W.size W.cacheSlab :=
    le_of_eq (h.sound.caches.own.size .slab (by decide)).symm
  have hstruct : ∀ x ∈ W.placesIn c r, t.heap.struct x = none := by
    intro x hx
    by_contra hne
    obtain ⟨k', hk'⟩ := Option.ne_none_iff_exists'.mp hne
    obtain ⟨u, hu, -⟩ := hk.models.slot x k' hk'
    rw [h.fresh hx] at hu
    exact nomatch hu
  have haOut : a ∉ W.placesIn c r := by
    intro hx
    rw [h.fresh hx] at hslot
    exact nomatch hslot
  have hslots : ∀ k, Shows k t →
      Shows k { t with heap := t.heap.withSlots (W.placesIn c r) ⟨a, W.size c⟩ } :=
    fun k hk => ⟨h.models hk.models, hk.rest⟩
  refine .redescribe hslots ?_
  refine .retype (s := .slab) (a := a) (u := ⟨s₀, W.size W.cacheSlab⟩) ?_ h.out.untyped hsize
    fun m => ?_
  · exact (if_neg haOut).trans hslot
  have hword : ∀ f, f.struct = .vregion → ((t.heap.withSlots (W.placesIn c r)
      ⟨a, W.size c⟩).retype m a .slab).word f r = t.heap.word f r := fun f _ =>
    if_neg fun hc => hra hc.1
  refine (initializeSlab_runs (Function.update_self ..)
    ((Function.update_of_ne hra _ _).trans hr) ((hword .firstVpn rfl).trans hfirst)
    ((hword .nbrPages rfl).trans hpages) hrange.1 hcache.per_pos (by rw [h.pages]; omega)
    hcache.size_ge (by rw [h.pages, h.per_eq, Nat.zero_add]) ?_).imp ?_
  · intro j hj
    have hmem : (W.extent r).base * 4096 + (0 + j) * W.size c ∈ W.placesIn c r :=
      mem_objsFrom.mpr ⟨j, hj, by rw [Nat.zero_add]⟩
    refine ⟨if_pos hmem, (Function.update_of_ne ?_ _ _).trans (hstruct _ hmem)⟩
    exact fun heq => haOut (heq ▸ hmem)
  rintro x t₁ ⟨rfl, hrest, hinit⟩
  rw [Nat.zero_mul, Nat.add_zero] at hinit
  have hobjs : (W.fill c a r b).objs a = W.placesIn c r := Function.update_self ..
  have hregion : (W.fill c a r b).region a = r := Function.update_self ..
  have hrest : t₁.rest = t.rest := hrest
  have hchanges : t.heap.ChangesOnly (NewSlab a (W.placesIn c r)) t₁.heap := by
    have hnew : t.heap.ChangesOnly (NewSlab a (W.placesIn c r))
        (t.heap.withSlots (W.placesIn c r) ⟨a, W.size c⟩) := by
      refine ⟨fun _ _ _ => rfl, fun _ _ _ => rfl, fun _ _ _ hx => hx, fun _ _ hx _ => hx, ?_⟩
      intro x u hu
      refine (if_neg fun hx => ?_).trans hu
      rw [h.fresh hx] at hu
      exact nomatch hu
    exact (hnew.retype (k := .slab) (.inl ⟨rfl, rfl⟩) h.out.untyped).trans hinit.changes
  refine ⟨rfl, hrest, h, ⟨?_, ?_, ?_, ?_, Function.update_self .., ?_⟩, ?_, ?_, hinit.object,
    hinit.slot, hchanges, ?_, ?_, ?_, ?_⟩
  · rw [hinit.count, hobjs]
    exact (objsFrom_length _ _ _).symm
  · rw [hobjs]
    exact hinit.chain
  · intro o ho
    rw [hobjs] at ho
    refine ⟨hinit.object o ho, ?_⟩
    rw [hinit.slot]
    exact if_pos ho
  · rw [hinit.region, hregion]
  · rw [hobjs]
    exact le_of_eq (objsFrom_length _ _ _)
  · rw [hinit.struct a haOut]
    exact Function.update_self ..
  · intro x hxa hx
    rw [hinit.struct x hx]
    exact Function.update_of_ne hxa _ _
  · rw [hrest]
  · rw [hrest]
    exact h.sound.backed.phys
  · rw [hrest]
  · intro x _
    rw [hrest]

theorem ppagesSetSlab_runs (hs : t.heap.struct s = some .slab)
    (hregion : t.heap.ptr .slabVregion s = some r) (hr : t.heap.struct r = some .vregion)
    (hn : t.heap.word .nbrPages r = n) (hpos : 1 ≤ n) (hfirst : t.rest.phys.firstPpn ≤ p)
    (hlast : p + n ≤ t.rest.phys.lastPpn + 1) (hlt : t.rest.phys.lastPpn + 1 < 2 ^ 32) :
    Runs Shows E (fun _ t' => ∃ s', t.rest.phys.SlabSet s' p n s ∧
      t' = { t with rest := { t.rest with phys := s' } }) (ppagesSetSlab p n s) t := by
  obtain ⟨s', hrun, hset⟩ := setSlabLoop_set hfirst hlast hlt s
  unfold ppagesSetSlab
  refine .get fun k hk => ?_
  rw [hk.phys]
  refine .passes (by omega) (.passes ?_ ?_)
  · rw [add32_of_lt (by omega), sub32_of_le (by omega) (by omega)]
    omega
  refine .readPtr .slabVregion hs ?_
  rw [hregion]
  refine .deref (.readWord .nbrPages hr (.passes hn ?_))
  refine Runs.onPhys (R := fun _ s'' => s'' = s') ?_ ?_
  · rw [hrun]
    exact rfl
  rintro - _ rfl
  exact ⟨_, hset, rfl⟩

section
variable (h : Prepared W t c a r b t₁)
include h

theorem Prepared.region_word {f : WordField} (hf : f.struct = .vregion) (x : Nat) :
    t₁.heap.word f x = t.heap.word f x := by
  refine h.changes.word f x ?_
  rw [hf]
  rintro (⟨hc, -⟩ | ⟨hc, -⟩) <;> exact nomatch hc

theorem Prepared.regionStruct (hx : t.heap.struct x = some .vregion) :
    t₁.heap.struct x = some .vregion := by
  refine h.changes.struct .vregion x ?_ hx
  rintro (⟨hc, -⟩ | ⟨hc, -⟩) <;> exact nomatch hc

theorem Prepared.pages_used (hx : x ∈ Extent.mk b.ppn (W.pages c)) : x ∈ b.pages := by
  have hlarge := h.parts.large
  rw [Extent.mem_mk] at hx
  exact (Block.mem_pages_mk (o := b.order)).mpr ⟨hx.1, by omega⟩

theorem Prepared.notFree (hx : x ∈ b.pages) : ¬InFree W.freeBlocks x := by
  rintro ⟨b', hb', hx'⟩
  have hcross := (List.pairwise_append.mp h.grown.blocks.apart).2.2
  exact hcross b' hb' b h.parts.live x hx' hx

theorem Prepared.setSlab (hn : n = W.pages c) :
    Runs Shows E (fun _ t₂ => Prepared W t c a r b t₂ ∧ t₂.heap = t₁.heap ∧
      ∀ x ∈ Extent.mk b.ppn (W.pages c), (t₂.rest.phys.dscrs x).slab = a)
      (ppagesSetSlab b.ppn n a) t₁ := by
  subst hn
  have hmem : b ∈ W.freeBlocks ++ W.live := List.mem_append_right _ h.parts.live
  have hfirst := h.grown.blocks.first_le b hmem
  have hlast := h.grown.blocks.le_last b hmem
  have hlt := h.parts.sound.backed.lastPpn_lt
  have hpages := h.parts.large
  have hpow := Nat.two_pow_pos b.order
  rw [← h.lastPpn] at hlt
  have hpos : 1 ≤ W.pages c := by
    have hper := (h.parts.sound.caches.cache c h.parts.cache).per_pos
    have heq := h.parts.per_eq
    rcases Nat.eq_zero_or_pos (W.pages c) with h0 | h0
    · rw [h0, Nat.zero_mul, Nat.zero_div] at heq
      omega
    · exact h0
  have hr₁ := h.regionStruct (h.parts.sound.regions.used.2 r h.parts.used)
  have hregion : t₁.heap.ptr .slabVregion a = some r :=
    h.slab.region.trans (congrArg some (Function.update_self (β := fun _ => Nat) a r W.region))
  obtain ⟨-, hwords⟩ := h.parts.sound.regions.words r (List.mem_append_right _ h.parts.used)
  have hnbr : t₁.heap.word .nbrPages r = W.pages c := by
    rw [h.region_word rfl, hwords, h.parts.pages]
  refine (ppagesSetSlab_runs h.descriptor hregion hr₁ hnbr hpos hfirst (by omega) (by omega)).imp ?_
  rintro - _ ⟨s, hset, rfl⟩
  refine ⟨⟨h.parts, h.slab, h.descriptor, h.struct, h.object, h.slot, h.changes, ?_, ?_, ?_,
    ?_⟩, rfl,
    fun x hx => by rw [hset.pages x hx]⟩
  · rw [h.rest]
  · exact h.grown.slabSet hset fun x hx => h.notFree (h.pages_used hx)
  · exact hset.lastPpn.trans h.lastPpn
  · intro x hx
    rw [hset.others x fun hin => hx (h.pages_used hin)]
    exact h.others x hx

end

end Atros
