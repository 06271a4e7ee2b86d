import Atros.SlabRequests

namespace Atros
set_option autoImplicit true

variable {W W' : World} {t t' : View} {E : Panic → Prop} {Q : α → View → Prop} {spare : Option Nat}

/-! ### The first free region -/

/-- The slot `o` is seen as a region from here on; its successor is what was known of it. -/
theorem Runs.retypeRegion {x : Prog Panic Kernel α} (hu : t.heap.slot o = some u)
    (hn : t.heap.struct o = none) (hs : sizeofVregion ≤ u.size)
    (hknown : t.heap.ptr .vregionNext o ≠ some 0)
    (hx : ∀ m, (t.retype m o .vregion).heap.ptr .vregionNext o = t.heap.ptr .vregionNext o →
      Runs Shows E Q x (t.retype m o .vregion)) : Runs Shows E Q x t := by
  intro k hk
  have hspare := (hk.models.spare o u hu hs (.inl hn)).resolve_left hknown
  refine hx k.mem ?_ k ⟨hk.models.retype hu hn hs, hk.rest⟩
  have hptr : (t.retype k.mem o .vregion).heap.ptr .vregionNext o =
      toPtr (load32 k.mem (o + PointerField.vregionNext.offset)) := if_pos ⟨rfl, rfl⟩
  rw [hptr, hspare, toPtr_ofPtr hknown]

/-- The world in which `o` describes the only free region. -/
def World.withFree (W : World) (o : Nat) (e : Extent) : World :=
  { W with freeRegions := [o], extent := Function.update W.extent o e }

theorem World.withFree_extent (W : World) (o : Nat) (e : Extent) : (W.withFree o e).extent o = e :=
  Function.update_self ..

/-- The object `o` of the cache of regions has been made the first free region, which leads on to
`spare`. -/
structure FreeMade (W : World) (t : View) (o : Nat) (e : Extent) (spare : Option Nat) (t' : View) :
    Prop where
  sound : W.Sound t
  none_free : W.freeRegions = []
  out : W.Out t.heap W.cacheVregion o
  range : 1 ≤ e.base ∧ e.base + e.len ≤ 1023 * 1024
  apart : ∀ u ∈ W.usedRegions, e.Apart (W.extent u)
  present : ∀ v ∈ e, entryPresent (t.rest.paging.pde (v / 2 ^ 10))
  changes : t.heap.ChangesOnly (fun k a => k = .vregion ∧ a = o) t'.heap
  struct : t'.heap.struct = Function.update t.heap.struct o (some .vregion)
  slot : t'.heap.slot = t.heap.slot
  words : t'.heap.word .firstVpn o = e.base ∧ t'.heap.word .nbrPages o = e.len
  last : t'.heap.ptr .vregionNext o = spare
  rest : t'.rest = { t.rest with freeVregions := some o }

section
variable (h : FreeMade W t o e spare t')
include h

theorem FreeMade.used_ne (hu : u ∈ W.usedRegions) : u ≠ o := by
  rintro rfl
  have htyped := h.sound.regions.used.2 u hu
  rw [h.out.untyped] at htyped
  exact nomatch htyped

theorem FreeMade.extent_used (hu : u ∈ W.usedRegions) :
    (W.withFree o e).extent u = W.extent u := Function.update_of_ne (h.used_ne hu) _ _

theorem FreeMade.cachesOk : (W.withFree o e).CachesOk t' := by
  have hcaches := h.sound.caches
  refine ⟨?_, ?_, fun c hc => ?_⟩
  · rw [h.rest]
    have hown := hcaches.own
    exact ⟨hown.objsCacheVar, hown.slabVar, hown.vregionVar, hown.vpagesVar, hown.mem, hown.apart,
      hown.size, hown.pages⟩
  · rw [h.rest]
    exact hcaches.ring.transport (fun x _ => h.changes.ptr .cacheNext x fun hc => nomatch hc.1)
      fun x _ => h.changes.ptr .cachePrev x fun hc => nomatch hc.1
  · refine (hcaches.cache c hc).congr ⟨rfl, rfl, rfl, fun _ _ => ⟨rfl, rfl, rfl⟩⟩ h.changes ?_
    rintro k a ha ⟨rfl, -⟩
    exact ha

theorem FreeMade.placed : (W.withFree o e).Placed t'.heap := by
  have hplaced := h.sound.placed
  have hplaces : ∀ c ∈ W.caches, ∀ s ∈ W.all c, (W.withFree o e).places c s = W.places c s := by
    intro c hc s hs
    have hext := h.extent_used (h.sound.slabRegions.region c hc s hs).1
    rw [World.places, World.places]
    change objsFrom (((W.withFree o e).extent (W.region s)).base * 4096) _ _ = _
    rw [hext]
    rfl
  refine ⟨fun a u => ?_, fun a k hk ha => ?_⟩
  · rw [h.slot, hplaced.slot]
    constructor
    · rintro ⟨c, hc, s, hs, hu, ha⟩
      exact ⟨c, hc, s, hs, hu, by rw [hplaces c hc s hs]; exact ha⟩
    · rintro ⟨c, hc, s, hs, hu, ha⟩
      rw [hplaces c hc s hs] at ha
      exact ⟨c, hc, s, hs, hu, ha⟩
  · rw [h.slot]
    rw [h.struct, Function.update_apply] at ha
    split at ha
    · rename_i hao
      rw [← Option.some.inj ha, hao]
      exact h.out.slot
    · exact hplaced.home a k hk ha

theorem FreeMade.regionsOk (hnone : spare = none) : (W.withFree o e).RegionsOk t' := by
  have hregions := h.sound.regions
  have hstruct : ∀ u ∈ W.usedRegions, t'.heap.struct u = some .vregion := by
    intro u hu
    rw [h.struct, Function.update_of_ne (h.used_ne hu)]
    exact hregions.used.2 u hu
  have hoff : ∀ u ∈ W.usedRegions, ¬(Struct.vregion = .vregion ∧ u = o) := fun u hu hc =>
    h.used_ne hu hc.2
  refine ⟨⟨⟨?_, h.last.trans hnone⟩, fun x hx => ?_⟩, ?_, fun r hr => ?_,
    ⟨List.nodup_singleton o,
    fun f hf hu => ?_, List.pairwise_singleton _ _, fun f hf u hu => ?_⟩, fun r hr => ?_⟩
  · change t'.rest.freeVregions = some o
    rw [h.rest]
  · rw [List.mem_singleton.mp hx, h.struct]
    exact Function.update_self ..
  · refine hregions.used.congr ?_ (fun x hx _ => hstruct x hx) fun x hx =>
      h.changes.ptr .vregionNext x (hoff x hx)
    change t'.rest.usedVregions = t.rest.usedVregions
    rw [h.rest]
  · rcases List.mem_append.mp hr with hr | hr
    · rw [List.mem_singleton.mp hr, W.withFree_extent]
      exact h.words
    · rw [h.extent_used hr, h.changes.word .firstVpn r (hoff r hr),
        h.changes.word .nbrPages r (hoff r hr)]
      exact hregions.words r (List.mem_append_right _ hr)
  · exact h.used_ne hu (List.mem_singleton.mp hf)
  · rw [List.mem_singleton.mp hf, W.withFree_extent, h.extent_used hu]
    exact h.apart u hu
  · have hrange := h.range.2
    rw [List.mem_singleton.mp hr, W.withFree_extent]
    omega

theorem FreeMade.slabRegions : (W.withFree o e).SlabRegions := by
  have hslabs := h.sound.slabRegions
  refine ⟨?_, fun r hr => ?_, fun c hc s hs => ?_, hslabs.inj⟩
  · refine hslabs.apart.imp_of_mem fun hu hu' hab => ?_
    rw [h.extent_used hu, h.extent_used hu']
    exact hab
  · rcases List.mem_append.mp hr with hr | hr
    · rw [List.mem_singleton.mp hr, W.withFree_extent]
      exact h.range
    · rw [h.extent_used hr]
      exact hslabs.range r (List.mem_append_right _ hr)
  · obtain ⟨hused, hlen⟩ := hslabs.region c hc s hs
    refine ⟨hused, ?_⟩
    change ((W.withFree o e).extent (W.region s)).len = _
    rw [h.extent_used hused]
    exact hlen

theorem FreeMade.backed : (W.withFree o e).Backed t'.rest := by
  have hbacked := h.sound.backed
  rw [h.rest]
  refine ⟨hbacked.tables, fun r hr v hv => ?_, hbacked.lastPpn_lt, hbacked.phys, hbacked.block,
    hbacked.inj, fun c hc s hs i hi x hx => ?_⟩
  · rcases List.mem_append.mp hr with hr | hr
    · rw [List.mem_singleton.mp hr, W.withFree_extent] at hv
      exact h.present v hv
    · rw [h.extent_used hr] at hv
      exact hbacked.present r (List.mem_append_right _ hr) v hv
  · change t.rest.paging.walk ((((W.withFree o e).extent (W.region s)).base + i) * 2 ^ 12 + x) = _
    rw [h.extent_used (h.sound.slabRegions.region c hc s hs).1]
    exact hbacked.mapped c hc s hs i hi x hx

theorem FreeMade.sound' (hnone : spare = none) : (W.withFree o e).Sound t' :=
  ⟨h.cachesOk, h.placed, h.regionsOk hnone, h.slabRegions, h.backed⟩

end

/-- The last steps of `virtual_page_boot_init`, which leave the spare word of the object. -/
theorem World.Sound.makesFree {e : Extent} (h : W.Sound t) (hnone : W.freeRegions = [])
    (hout : W.Out t.heap W.cacheVregion o) (hlast : t.heap.ptr .vregionNext o = spare)
    (hspare : spare ≠ some 0)
    (hrange : 1 ≤ e.base ∧ e.base + e.len ≤ 1023 * 1024)
    (hapart : ∀ u ∈ W.usedRegions, e.Apart (W.extent u))
    (hpresent : ∀ v ∈ e, entryPresent (t.rest.paging.pde (v / 2 ^ 10))) :
    Runs Shows E (fun _ t' => FreeMade W t o e spare t') (vregionInit o e.base e.len)
      { t with rest := { t.rest with freeVregions := some o } } := by
  obtain ⟨s, hs, hslot⟩ := hout.slot
  have hsize : sizeofVregion ≤ W.size W.cacheVregion :=
    le_of_eq (h.caches.own.size .vregion (by decide)).symm
  refine Runs.retypeRegion (o := o) hslot hout.untyped hsize ?_ fun m hptr => ?_
  · change t.heap.ptr .vregionNext o ≠ some 0
    rw [hlast]
    exact hspare
  have hself : Function.update t.heap.struct o (some .vregion) o = some .vregion :=
    Function.update_self ..
  unfold vregionInit
  refine .writeWord .firstVpn hself (by omega)
    (.writeLast (writes_word .nbrPages hself (by omega)) ?_)
  refine ⟨h, hnone, hout, hrange, hapart, hpresent, ?_, rfl, rfl, ⟨?_, ?_⟩, hptr.trans hlast, rfl⟩
  · exact (((Heap.ChangesOnly.refl _ t.heap).retype (k := .vregion) ⟨rfl, rfl⟩ hout.untyped).setWord
      (f := .firstVpn) ⟨rfl, rfl⟩ _).setWord (f := .nbrPages) ⟨rfl, rfl⟩ _
  · rw [View.setWord_heap, Heap.setWord_of_field _ WordField.noConfusion, View.setWord_heap,
      Heap.setWord_self]
  · rw [View.setWord_heap, Heap.setWord_self]

end Atros
