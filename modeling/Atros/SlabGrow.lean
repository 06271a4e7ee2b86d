import Atros.SlabFill

namespace Atros
set_option autoImplicit true

variable {W W' : World} {H H' : Heap} {t t' t₁ : View} {E : Panic → Prop}

/-! ### A new slab on its list -/

/-- The world with the new slab on the list of the free slabs of `c`. -/
def World.filled (W : World) (c a r : Nat) (b : Block) : World :=
  (W.fill c a r b).withSlab c a .statusFree

theorem World.filled_all (W : World) (c a r : Nat) (b : Block) (c' s : Nat) :
    s ∈ (W.filled c a r b).all c' ↔ c' = c ∧ s = a ∨ s ∈ W.all c' := by
  by_cases hc : c' = c
  · subst hc
    have hperm := (W.fill c' a r b).withSlab_all c' a .statusFree
    rw [World.filled, hperm.mem_iff, List.mem_cons]
    exact or_congr (by simp) Iff.rfl
  · have hslabs : (W.filled c a r b).slabs c' = W.slabs c' := Function.update_of_ne hc _ _
    rw [World.all, hslabs]
    simp only [hc, false_and, false_or]
    exact Iff.rfl

section
variable (h : Prepared W t c a r b t₁)
include h

theorem Prepared.fill_same (hc : c' ∈ W.caches) : W.SameCache (W.fill c a r b) c' := by
  refine ⟨rfl, rfl, rfl, fun s hs => ?_⟩
  have hsa : s ≠ a := fun heq => h.parts.not_slab hc (heq ▸ hs)
  exact ⟨Function.update_of_ne hsa _ _, Function.update_of_ne hsa _ _,
    Function.update_of_ne hsa _ _⟩

theorem Prepared.owned_off (hc : c' ∈ W.caches) (ho : W.Owned c' k x) :
    ¬NewSlab a (W.placesIn c r) k x := by
  have htyped := (h.parts.sound.caches.cache c' hc).typed ho
  rintro (⟨rfl, rfl⟩ | ⟨rfl, hx⟩)
  · exact h.parts.not_slab hc ho
  · obtain ⟨s, hs, hx'⟩ := ho
    have hslot := (((h.parts.sound.caches.cache c' hc).slabOk hs).obj x hx').2
    rw [h.parts.fresh hx] at hslot
    exact nomatch hslot

theorem Prepared.cache (hc : c' ∈ W.caches) : (W.fill c a r b).CacheOk t₁.heap c' :=
  (h.parts.sound.caches.cache c' hc).congr (h.fill_same hc) h.changes fun _ _ ho =>
  h.owned_off hc ho

theorem Prepared.add : Runs Shows E (fun _ t' => t'.rest = t₁.rest ∧
    Added (W.fill c a r b) t₁.heap c a .statusFree t'.heap)
    (objsCacheAddSlab c a .statusFree) t₁ := by
  have hlen : ((W.fill c a r b).objs a).length = W.per c := by
    have hobjs : (W.fill c a r b).objs a = W.placesIn c r := Function.update_self ..
    rw [hobjs]
    exact objsFrom_length _ _ _
  refine objsCacheAddSlab_runs (h.cache h.parts.cache) h.descriptor (h.parts.not_slab h.parts.cache)
    h.slab ?_ h.parts.room
  rw [hlen]
  exact if_pos rfl

end

/-- The heap after the slab `a` of `c` has gone to its list. -/
structure Listed (W : World) (t : View) (c a r : Nat) (b : Block) (t₁ t' : View) : Prop where
  prepared : Prepared W t c a r b t₁
  added : Added (W.fill c a r b) t₁.heap c a .statusFree t'.heap
  rest : t'.rest = t₁.rest

/-- The structures that a new slab changes, from the start to its list. -/
def World.NewFoot (W : World) (c a r : Nat) (k : Struct) (x : Nat) : Prop :=
  NewSlab a (W.placesIn c r) k x ∨ W.Owned c k x

theorem World.newFoot_vregion (W : World) (c a r x : Nat) : ¬W.NewFoot c a r .vregion x := by
  rintro ((⟨hc, -⟩ | ⟨hc, -⟩) | ho)
  · exact nomatch hc
  · exact nomatch hc
  · exact ho

section
variable (h : Listed W t c a r b t₁ t')
include h

theorem Listed.changes : t.heap.ChangesOnly (W.NewFoot c a r) t'.heap := by
  refine (h.prepared.changes.weaken fun _ _ hn => .inl hn).trans (h.added.changes.weaken ?_)
  rintro k x (ho | ⟨rfl, rfl⟩)
  · cases k with
    | cache => exact .inr ho
    | slab => exact .inr ho
    | object =>
      obtain ⟨s, hs, ho⟩ := ho
      have hsa : s ≠ a := fun heq => h.prepared.parts.not_slab h.prepared.parts.cache (heq ▸ hs)
      have hobjs : (W.fill c a r b).objs s = W.objs s := Function.update_of_ne hsa _ _
      exact .inr ⟨s, hs, hobjs ▸ ho⟩
    | vregion => exact ho.elim
  · exact .inl (.inl ⟨rfl, rfl⟩)

theorem Listed.off (hc : c' ∈ W.caches) (hne : c' ≠ c) (ho : W.Owned c' k x) :
    ¬W.NewFoot c a r k x := by
  have hcaches := h.prepared.parts.sound.caches
  rintro (hn | ho')
  · exact h.prepared.owned_off hc ho hn
  · exact (hcaches.cache c' hc).owned_apart (hcaches.cache c h.prepared.parts.cache) hne ho ho'

theorem Listed.struct (x : Nat) : t'.heap.struct x = t₁.heap.struct x :=
  congrFun h.added.struct x

theorem Listed.slot (x : Nat) : t'.heap.slot x =
    if x ∈ W.placesIn c r then some ⟨a, W.size c⟩ else t.heap.slot x := by
  rw [h.added.slots, h.prepared.slot]
  rfl

theorem Listed.same (hc : c' ∈ W.caches) (hne : c' ≠ c) : W.SameCache (W.filled c a r b) c' := by
  have hsame := h.prepared.fill_same hc
  exact ⟨Function.update_of_ne hne _ _, rfl, rfl, hsame.slab⟩

theorem Listed.cachesOk : (W.filled c a r b).CachesOk t' := by
  have hcaches := h.prepared.parts.sound.caches
  have hown := hcaches.own
  have hlinks : t.heap.SameLinks t'.heap :=
    (h.prepared.changes.sameLinks fun x hx => by
      rcases hx with ⟨hx, -⟩ | ⟨hx, -⟩ <;> exact nomatch hx).trans h.added.links
  have hrest : t'.rest = { t.rest with phys := t₁.rest.phys } := h.rest.trans h.prepared.rest
  refine ⟨?_, ?_, fun c' hc' => ?_⟩
  · rw [hrest]
    exact ⟨hown.objsCacheVar, hown.slabVar, hown.vregionVar, hown.vpagesVar, hown.mem, hown.apart,
      hown.size, hown.pages⟩
  · rw [hrest]
    exact hcaches.ring.transport (fun x _ => congrFun hlinks.next x) fun x _ =>
      congrFun hlinks.prev x
  · by_cases hne : c' = c
    · rw [hne]
      exact h.added.cache
    · exact (hcaches.cache c' hc').congr (h.same hc' hne) h.changes fun _ _ ho => h.off hc' hne ho

theorem Listed.placed : (W.filled c a r b).Placed t'.heap := by
  have hparts := h.prepared.parts
  have hplaces : ∀ c' ∈ W.caches, ∀ s ∈ W.all c', (W.filled c a r b).places c' s =
    W.places c' s := by
    intro c' hc' s hs
    have hsa : s ≠ a := fun heq => hparts.not_slab hc' (heq ▸ hs)
    have hregion : (W.filled c a r b).region s = W.region s := Function.update_of_ne hsa _ _
    rw [World.places, hregion]
    rfl
  have hnew : (W.filled c a r b).places c a = W.placesIn c r := by
    have hregion : (W.filled c a r b).region a = r := Function.update_self ..
    rw [World.places, hregion]
    rfl
  refine ⟨fun x u => ?_, fun x k hk hx => ?_⟩
  · rw [h.slot]
    constructor
    · split
      · rintro ⟨⟩
        exact ⟨c, hparts.cache, a, (W.filled_all c a r b c a).mpr (.inl ⟨rfl, rfl⟩), rfl,
          by rw [hnew]; assumption⟩
      · intro hu
        obtain ⟨c', hc', s, hs, rfl, hx⟩ := (hparts.sound.placed.slot x u).mp hu
        exact ⟨c', hc', s, (W.filled_all c a r b c' s).mpr (.inr hs), rfl,
          by rw [hplaces c' hc' s hs]; exact hx⟩
    · rintro ⟨c', hc', s, hs, rfl, hx⟩
      rcases (W.filled_all c a r b c' s).mp hs with ⟨rfl, rfl⟩ | hs
      · rw [hnew] at hx
        exact if_pos hx
      · rw [hplaces c' hc' s hs] at hx
        have hu : t.heap.slot x = some ⟨s, W.size c'⟩ :=
          (hparts.sound.placed.slot x _).mpr ⟨c', hc', s, hs, rfl, hx⟩
        rw [if_neg, hu]
        · rfl
        · intro hin
          rw [hparts.fresh hin] at hu
          cases hu
  · have hold : ∀ s ∈ W.all (W.homeOf k), t.heap.slot x = some ⟨s, W.size (W.homeOf k)⟩ →
        ∃ s ∈ (W.filled c a r b).all (W.homeOf k),
          t'.heap.slot x = some ⟨s, W.size (W.homeOf k)⟩ := by
      intro s hs hu
      refine ⟨s, (W.filled_all c a r b _ s).mpr (.inr hs), ?_⟩
      rw [h.slot, if_neg, hu]
      intro hin
      rw [hparts.fresh hin] at hu
      cases hu
    rw [h.struct] at hx
    by_cases hxa : x = a
    · subst hxa
      rw [h.prepared.descriptor] at hx
      cases hx
      obtain ⟨s, hs, hu⟩ := hparts.out.slot
      exact hold s hs hu
    · by_cases hin : x ∈ W.placesIn c r
      · rw [h.prepared.object x hin] at hx
        exact absurd (Option.some.inj hx).symm hk
      · rw [h.prepared.struct x hxa hin] at hx
        obtain ⟨s, hs, hu⟩ := hparts.sound.placed.home x k hk hx
        exact hold s hs hu

theorem Listed.regionsOk : (W.filled c a r b).RegionsOk t' := by
  have hrest : t'.rest = { t.rest with phys := t₁.rest.phys } := h.rest.trans h.prepared.rest
  have hoff := W.newFoot_vregion c a r
  have hkept : t.KeepsRegions t' := by
    refine ⟨fun l => ?_, fun x hx => h.changes.struct .vregion x (hoff x) hx, fun f x hf => ?_,
      fun x => h.changes.ptr .vregionNext x (hoff x)⟩
    · unfold RegionList.head
      rw [hrest]
    · refine h.changes.word f x ?_
      rw [hf]
      exact hoff x
  exact h.prepared.parts.sound.regions.kept hkept rfl rfl rfl

theorem Listed.slabRegions : (W.filled c a r b).SlabRegions := by
  have hparts := h.prepared.parts
  have hslabs := hparts.sound.slabRegions
  have hregion : ∀ c' ∈ W.caches, ∀ s ∈ W.all c', (W.filled c a r b).region s = W.region s := by
    intro c' hc' s hs
    have hsa : s ≠ a := fun heq => hparts.not_slab hc' (heq ▸ hs)
    exact Function.update_of_ne hsa _ _
  have hnew : (W.filled c a r b).region a = r := Function.update_self ..
  refine ⟨hslabs.apart, hslabs.range, fun c' hc' s hs => ?_,
    fun c' hc' c'' hc'' s hs s' hs' heq => ?_⟩
  · rcases (W.filled_all c a r b c' s).mp hs with ⟨rfl, rfl⟩ | hs
    · rw [hnew]
      exact ⟨hparts.used, hparts.pages⟩
    · rw [hregion c' hc' s hs]
      exact hslabs.region c' hc' s hs
  · rcases (W.filled_all c a r b c' s).mp hs with ⟨rfl, rfl⟩ | h₁ <;>
      rcases (W.filled_all _ _ _ _ c'' s').mp hs' with ⟨rfl, rfl⟩ | h₂
    · rfl
    · rw [hnew, hregion c'' hc'' s' h₂] at heq
      exact absurd heq.symm (hparts.region c'' hc'' s' h₂)
    · rw [hnew, hregion c' hc' s h₁] at heq
      exact absurd heq (hparts.region c' hc' s h₁)
    · rw [hregion c' hc' s h₁, hregion c'' hc'' s' h₂] at heq
      exact hslabs.inj c' hc' c'' hc'' s h₁ s' h₂ heq

theorem Listed.backed : (W.filled c a r b).Backed t'.rest := by
  have hparts := h.prepared.parts
  have hbacked := hparts.sound.backed
  have hrest : t'.rest = { t.rest with phys := t₁.rest.phys } := h.rest.trans h.prepared.rest
  have hold : ∀ c' ∈ W.caches, ∀ s ∈ W.all c', (W.filled c a r b).block s = W.block s ∧
      (W.filled c a r b).region s = W.region s := by
    intro c' hc' s hs
    have hsa : s ≠ a := fun heq => hparts.not_slab hc' (heq ▸ hs)
    exact ⟨Function.update_of_ne hsa _ _, Function.update_of_ne hsa _ _⟩
  have hblock : (W.filled c a r b).block a = b := Function.update_self ..
  have hregion : (W.filled c a r b).region a = r := Function.update_self ..
  rw [hrest]
  refine ⟨hbacked.tables, hbacked.present, ?_, h.prepared.grown, fun c' hc' s hs => ?_,
    fun c' hc' c'' hc'' s hs s' hs' heq => ?_, fun c' hc' s hs i hi o ho => ?_⟩
  · exact h.prepared.lastPpn ▸ hbacked.lastPpn_lt
  · rcases (W.filled_all c a r b c' s).mp hs with ⟨rfl, rfl⟩ | hs
    · rw [hblock]
      exact ⟨hparts.live, hparts.large⟩
    · rw [(hold c' hc' s hs).1]
      exact hbacked.block c' hc' s hs
  · rcases (W.filled_all c a r b c' s).mp hs with ⟨rfl, rfl⟩ | h₁ <;>
      rcases (W.filled_all _ _ _ _ c'' s').mp hs' with ⟨rfl, rfl⟩ | h₂
    · rfl
    · rw [hblock, (hold c'' hc'' s' h₂).1] at heq
      exact absurd heq.symm (hparts.block c'' hc'' s' h₂)
    · rw [hblock, (hold c' hc' s h₁).1] at heq
      exact absurd heq (hparts.block c' hc' s h₁)
    · rw [(hold c' hc' s h₁).1, (hold c'' hc'' s' h₂).1] at heq
      exact hbacked.inj c' hc' c'' hc'' s h₁ s' h₂ heq
  · rcases (W.filled_all c a r b c' s).mp hs with ⟨rfl, rfl⟩ | hs
    · rw [hblock, hregion]
      exact hparts.mapped i hi o ho
    · rw [(hold c' hc' s hs).1, (hold c' hc' s hs).2]
      exact hbacked.mapped c' hc' s hs i hi o ho

theorem Listed.sound : (W.filled c a r b).Sound t' :=
  ⟨h.cachesOk, h.placed, h.regionsOk, h.slabRegions, h.backed⟩

theorem Listed.slabOf (hc : c' ∈ W.caches) (hs : s ∈ W.all c') (hx : x ∈ (W.block s).pages) :
    (t'.rest.phys.dscrs x).slab = (t.rest.phys.dscrs x).slab := by
  have hparts := h.prepared.parts
  have hbacked := hparts.sound.backed
  have hlive := (hbacked.block c' hc s hs).1
  have hapart := Extent.apart_of_pairwise (List.pairwise_append.mp hbacked.phys.blocks.apart).2.1
    hlive hparts.live (hparts.block c' hc s hs)
  rw [h.rest, h.prepared.others x (hapart x hx)]

theorem Listed.grows {W₀ : World} {t₀ : View} (hg : W₀.Grows t₀ W t)
    (hfresh : t₀.heap.NotOut a) : W₀.Grows t₀ (W.filled c a r b) t' := by
  have hparts := h.prepared.parts
  have hslot : ∀ x, t.heap.slot x ≠ none → x ∉ W.placesIn c r :=
    fun x hx hin => hx (hparts.fresh hin)
  have hkept : ∀ x, x ≠ a → t.heap.slot x ≠ none → t'.heap.struct x = t.heap.struct x :=
    fun x hxa hx => (h.struct x).trans (h.prepared.struct x hxa (hslot x hx))
  have htyped : ∀ x k, k ≠ .object → t.heap.struct x = some k → t.heap.slot x ≠ none := by
    intro x k hk hx
    obtain ⟨s, -, hu⟩ := hparts.sound.placed.home x k hk hx
    rw [hu]
    exact Option.some_ne_none _
  refine ⟨hg.own, hg.caches, hg.attrs, fun c' hc' s hs => ?_, hg.regions, hg.cover,
    fun x u hu => ?_,
    fun x hx hn => ?_, fun x k hk hx => ?_, hg.blocks, hg.live, fun c' hc' s hs x hx => ?_⟩
  · obtain ⟨hs', hregion, hblock⟩ := hg.slabs c' hc' s hs
    have hsa : s ≠ a := fun heq => hparts.not_slab (hg.caches c' hc') (heq ▸ hs')
    exact ⟨(W.filled_all c a r b c' s).mpr (.inr hs'),
      (Function.update_of_ne hsa _ _).trans hregion,
      (Function.update_of_ne hsa _ _).trans hblock⟩
  · have hu' := hg.slots x u hu
    rw [h.slot, if_neg (hslot x (by rw [hu']; exact Option.some_ne_none u)), hu']
  · have hxa : x ≠ a := by
      rintro rfl
      exact hfresh hx hn
    obtain ⟨u, hu⟩ := Option.ne_none_iff_exists'.mp hx
    rw [hkept x hxa (by rw [hg.slots x u hu]; exact Option.some_ne_none u)]
    exact hg.out x hx hn
  · have hx' := hg.typed x k hk hx
    have hxa : x ≠ a := by
      rintro rfl
      rw [hparts.out.untyped] at hx'
      exact nomatch hx'
    rw [hkept x hxa (htyped x k hk hx'), hx']
  · obtain ⟨hs', -, hblock⟩ := hg.slabs c' hc' s hs
    rw [h.slabOf (hg.caches c' hc') hs' (hblock ▸ hx)]
    exact hg.slabOf c' hc' s hs x hx

theorem Listed.freeObjs : (W.filled c a r b).freeObjs c = W.freeObjs c + W.per c ∧
    ∀ c' ∈ W.caches, c' ≠ c → (W.filled c a r b).freeObjs c' = W.freeObjs c' := by
  have hparts := h.prepared.parts
  refine ⟨?_, fun c' hc' hne => (h.same hc' hne).freeObjs⟩
  have hcount := h.added.count
  have hobjs : (W.fill c a r b).objs a = W.placesIn c r := Function.update_self ..
  rw [h.added.cache.freeCount, (h.prepared.cache hparts.cache).freeCount,
    (h.prepared.fill_same hparts.cache).freeObjs, hobjs] at hcount
  rw [World.filled, hcount]
  exact congrArg (W.freeObjs c + ·) (objsFrom_length _ _ _)

end

end Atros
