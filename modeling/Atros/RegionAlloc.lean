import Atros.SlabAlloc
import Atros.Regions
import Atros.RegionSearch

namespace Atros
set_option autoImplicit true

variable {W W' : World} {H H' H₁ : Heap} {t t' t₁ : View} {E : Panic → Prop}

/-- The lists of regions and the pages of each. -/
structure World.RegionsOk (W : World) (t : View) : Prop where
  free : RegionList.Holds .free t W.freeRegions
  used : RegionList.Holds .used t W.usedRegions
  words : ∀ r ∈ W.freeRegions ++ W.usedRegions,
    t.heap.word .firstVpn r = (W.extent r).base ∧ t.heap.word .nbrPages r = (W.extent r).len
  regions : Regions W.freeRegions W.usedRegions W.extent
  bound : ∀ r ∈ W.freeRegions, (W.extent r).base + (W.extent r).len ≤ 2 ^ 32

/-- Nothing of a region has changed. -/
structure View.KeepsRegions (t t' : View) : Prop where
  head : ∀ l : RegionList, l.head t' = l.head t
  struct : ∀ a, t.heap.struct a = some .vregion → t'.heap.struct a = some .vregion
  word : ∀ f a, f.struct = .vregion → t'.heap.word f a = t.heap.word f a
  next : ∀ a, t'.heap.ptr .vregionNext a = t.heap.ptr .vregionNext a

theorem World.RegionsOk.kept (h : W.RegionsOk t) (hk : t.KeepsRegions t')
    (hfree : W'.freeRegions = W.freeRegions) (hused : W'.usedRegions = W.usedRegions)
    (hextent : W'.extent = W.extent) : W'.RegionsOk t' := by
  have hholds : ∀ l xs, RegionList.Holds l t xs → RegionList.Holds l t' xs := fun l xs hl =>
    hl.congr (hk.head l) (fun x _ => hk.struct x) fun x _ => hk.next x
  refine ⟨?_, ?_, fun r hr => ?_, ?_, fun r hr => ?_⟩
  · rw [hfree]
    exact hholds _ _ h.free
  · rw [hused]
    exact hholds _ _ h.used
  · rw [hfree, hused] at hr
    rw [hk.word _ r rfl, hk.word _ r rfl, hextent]
    exact h.words r hr
  · rw [hfree, hused, hextent]
    exact h.regions
  · rw [hfree] at hr
    rw [hextent]
    exact h.bound r hr

theorem View.Relisted.changes (h : View.Relisted l X t t') :
    t.heap.ChangesOnly (fun k a => k = .vregion ∧ X a) t'.heap := by
  refine ⟨fun f a _ => by rw [h.word], fun f a hF => h.ptr f a ?_, ?_, ?_, ?_⟩
  · rintro ⟨rfl, hX⟩
    exact hF ⟨rfl, hX⟩
  · intro k a _ ha
    rw [h.struct, ha]
  · intro a _ ha _
    rw [h.struct, ha]
  · intro a u hu
    rw [h.slot, hu]

/-! ### Splitting a region -/

/-- The region `r` has kept `n` pages, the others are those of the new region `o`. -/
structure Split (o r first pages n : Nat) (H H' : Heap) : Prop where
  changes : H.ChangesOnly (fun k a => k = .vregion ∧ (a = o ∨ a = r)) H'
  struct : H'.struct = Function.update H.struct o (some .vregion)
  slot : H'.slot = H.slot
  upper : H'.word .firstVpn o = first + n ∧ H'.word .nbrPages o = pages - n
  lower : H'.word .firstVpn r = first ∧ H'.word .nbrPages r = n
  ptr : ∀ f a, a ≠ o → H'.ptr f a = H.ptr f a

theorem vregionSplit_runs (hV : W.CacheOk t.heap c) (hc : t.rest.vpagesCacheVregion = some c)
    (hsize : sizeofVregion ≤ W.size c) (hr : t.heap.struct r = some .vregion)
    (hfirst : t.heap.word .firstVpn r = first) (hpages : t.heap.word .nbrPages r = pages)
    (hn : n < pages) (hbound : first + pages ≤ 2 ^ 32)
    (hE : E .splitWithoutVregion ∨ 0 < W.freeObjs c) :
    Runs Shows E (fun o t' => ∃ W₁ H₁, Retrieved W t.heap c o W₁ H₁ ∧ t'.rest = t.rest ∧
      Split o r first pages n H₁ t'.heap) (vregionSplit r n) t := by
  refine Runs.shown fun k hk => ?_
  have hplt : pages < 2 ^ 32 := by
    rw [← hpages, ← hk.models.word .nbrPages r hr]
    exact load32_lt _ _
  unfold vregionSplit vregionFirstVpn
  refine .readWord .nbrPages hr ?_
  rw [hpages]
  refine .passes hn ?_
  refine .get fun k hk => ?_
  rw [hk.vpagesCacheVregion.trans hc]
  refine .follow (.bind (retrieve_runs hV) ?_)
  rintro _ t₁ (⟨rfl, -, hzero⟩ | ⟨o, rfl, hrest₁, W₁, hret⟩)
  · rcases hE with hE | hE
    · exact .throw hE
    · omega
  refine .deref ?_
  obtain ⟨s, -, hslot⟩ := hret.slot
  have hro : r ≠ o := by
    rintro rfl
    have hobj := hret.obj
    rw [hr] at hobj
    cases hobj
  have hr₁ : t₁.heap.struct r = some .vregion := by
    rw [hret.struct]
    exact (Function.update_of_ne hro _ _).trans hr
  have hsame : ∀ f a, f.struct = .vregion → t₁.heap.word f a = t.heap.word f a := by
    intro f a hf
    refine hret.changes.word f a ?_
    rw [hf]
    exact id
  have ho₁ : t₁.heap.struct o = none := by
    rw [hret.struct]
    exact Function.update_self o _ _
  refine .retype (s := .vregion) (u := ⟨s, W.size c⟩) (by rw [hret.slots]; exact hslot) ho₁
    hsize fun m => ?_
  have hword : ∀ f, (t₁.retype m o .vregion).heap.word f r = t₁.heap.word f r := fun f =>
    if_neg fun hc => hro hc.1
  have hrt : (t₁.retype m o .vregion).heap.struct r = some .vregion :=
    (Function.update_of_ne hro _ _).trans hr₁
  have hot : (t₁.retype m o .vregion).heap.struct o = some .vregion := Function.update_self o _ _
  refine .readWord .firstVpn hrt ?_
  rw [hword, hsame _ _ rfl, hfirst, add32_of_lt (by omega)]
  refine Runs.writeWord .firstVpn hot (by omega) (.readWord .nbrPages hrt ?_)
  rw [View.setWord_heap, Heap.setWord_of_addr _ _ hro, hword, hsame _ _ rfl, hpages,
    sub32_of_le (by omega) (by omega)]
  refine Runs.writeWord .nbrPages hot (by omega) (Runs.writeWord .nbrPages hrt (by omega)
    (.pure ?_))
  refine ⟨W₁, t₁.heap, hret, hrest₁, ?_, rfl, rfl, ?_, ?_, ?_⟩
  · exact ((((Heap.ChangesOnly.refl _ t₁.heap).retype (k := .vregion) ⟨rfl, .inl rfl⟩ ho₁).setWord
      (f := .firstVpn) ⟨rfl, .inl rfl⟩ _).setWord (f := .nbrPages) ⟨rfl, .inl rfl⟩ _).setWord
      (f := .nbrPages) ⟨rfl, .inr rfl⟩ _
  · refine ⟨?_, ?_⟩
    · rw [View.setWord_heap, Heap.setWord_of_addr _ _ hro.symm, View.setWord_heap,
        Heap.setWord_of_field _ WordField.noConfusion, View.setWord_heap, Heap.setWord_self]
    · rw [View.setWord_heap, Heap.setWord_of_addr _ _ hro.symm, View.setWord_heap,
        Heap.setWord_self]
  · refine ⟨?_, ?_⟩
    · rw [View.setWord_heap, Heap.setWord_of_field _ WordField.noConfusion, View.setWord_heap,
        Heap.setWord_of_field _ WordField.noConfusion, View.setWord_heap,
        Heap.setWord_of_addr _ _ hro, hword, hsame _ _ rfl, hfirst]
    · rw [View.setWord_heap, Heap.setWord_self]
  · intro f a ha
    exact if_neg fun hc => ha hc.1

/-! ### Allocating a region -/

/-- What an allocation of a region may change. -/
def World.RegionFoot (W : World) (H : Heap) (k : Struct) (a : Nat) : Prop :=
  W.Owned W.cacheVregion k a ∨
    k = .vregion ∧ (a ∈ W.freeRegions ∨ a ∈ W.usedRegions ∨ H.struct a = some .object)

/-- The region `r` has been taken from the free ones, cut down to `n` pages. -/
structure RegionTaken (W : World) (t : View) (n r : Nat) (W' : World) (t' : View) : Prop where
  regions : W'.RegionsOk t'
  cache : W'.CacheOk t'.heap W.cacheVregion
  changes : t.heap.ChangesOnly (W.RegionFoot t.heap) t'.heap
  struct : ∀ a k, t'.heap.struct a = some k → t.heap.struct a = some k ∨
    k = .vregion ∧ t.heap.struct a = some .object ∧
      ∃ s ∈ W.all W.cacheVregion, t.heap.slot a = some ⟨s, W.size W.cacheVregion⟩
  slots : t'.heap.slot = t.heap.slot
  rest : t'.rest = { t.rest with
    freeVregions := t'.rest.freeVregions, usedVregions := t'.rest.usedVregions }
  shape : ∃ as bs, W.freeRegions = as ++ r :: bs ∧ (∀ a ∈ as, (W.extent a).len < n) ∧
    (W'.freeRegions = as ++ bs ∧ (W.extent r).len = n ∨ ∃ o, W'.freeRegions = as ++ o :: bs ∧
      n < (W.extent r).len ∧ W'.extent o = ⟨(W.extent r).base + n, (W.extent r).len - n⟩)
  used : ∃ us vs, W.usedRegions = us ++ vs ∧ W'.usedRegions = us ++ r :: vs ∧
    (vs = [] → us = []) ∧ ∀ v, vs.head? = some v → (W.extent v).base ≤ (W.extent r).base
  links : t.heap.SameLinks t'.heap
  taken : W'.extent r = ⟨(W.extent r).base, n⟩
  extents : ∀ x ∈ W.freeRegions ++ W.usedRegions, x ≠ r → W'.extent x = W.extent x
  count : W'.freeObjs W.cacheVregion + (if n < (W.extent r).len then 1 else 0) =
    W.freeObjs W.cacheVregion
  world : ∃ L O F U X, W' = { W with
    slabs := Function.update W.slabs W.cacheVregion L, objs := O,
    freeRegions := F, usedRegions := U, extent := X } ∧
    (allOf L).Perm (W.all W.cacheVregion) ∧ ∀ x, x ∉ W.all W.cacheVregion → O x = W.objs x

theorem RegionTaken.count_le (h : RegionTaken W t n r W' t') :
    W'.freeObjs W.cacheVregion ≤ W.freeObjs W.cacheVregion ∧
      W.freeObjs W.cacheVregion ≤ W'.freeObjs W.cacheVregion + 1 := by
  have hcount := h.count
  split at hcount <;> omega

/-- The head of the used regions, if there is one, is below every free region. -/
def World.UsedBelow (W : World) : Prop :=
  ∀ u, W.usedRegions.head? = some u → ∀ f ∈ W.freeRegions,
    1 ≤ (W.extent u).base + (W.extent u).len ∧ (W.extent u).Below (W.extent f)

/-- The state in which the region `r` is on no list; `F` are the free regions. -/
structure RegionCut (W : World) (t : View) (r : Nat) (F : List Nat) (X : Nat → Extent)
    (L : SlabStatus → List Nat) (O : Nat → List Nat) (t' : View) : Prop where
  free : RegionList.Holds .free t' F
  used : RegionList.Holds .used t' W.usedRegions
  region : t'.heap.struct r = some .vregion
  off : r ∉ F ∧ r ∉ W.usedRegions
  words : ∀ x, x = r ∨ x ∈ F ∨ x ∈ W.usedRegions →
    t'.heap.word .firstVpn x = (X x).base ∧ t'.heap.word .nbrPages x = (X x).len
  cache : { W with slabs := Function.update W.slabs W.cacheVregion L, objs := O }.CacheOk
    t'.heap W.cacheVregion
  changes : t.heap.ChangesOnly (W.RegionFoot t.heap) t'.heap
  struct : ∀ a k, t'.heap.struct a = some k → t.heap.struct a = some k ∨
    k = .vregion ∧ t.heap.struct a = some .object ∧
      ∃ s ∈ W.all W.cacheVregion, t.heap.slot a = some ⟨s, W.size W.cacheVregion⟩
  slots : t'.heap.slot = t.heap.slot
  links : t.heap.SameLinks t'.heap
  rest : t'.rest = { t.rest with freeVregions := t'.rest.freeVregions }

theorem lastVpn_eq (hn : 1 ≤ first + n) (h : first + n ≤ 2 ^ 32) :
    lastVpn first n = first + n - 1 := by
  rw [lastVpn, sub32, add32]
  omega

/-- The free regions `F` and the extents `X` when `r` has been cut down to its first `n` pages. -/
structure World.CutDown (W : World) (n r : Nat) (F : List Nat) (X : Nat → Extent) : Prop where
  own : X r = ⟨(W.extent r).base, n⟩
  regions : ∀ us vs, W.usedRegions = us ++ vs → Regions F (us ++ r :: vs) X
  bound : ∀ f ∈ F, (X f).base + (X f).len ≤ 2 ^ 32
  shape : ∃ as bs, W.freeRegions = as ++ r :: bs ∧ (∀ a ∈ as, (W.extent a).len < n) ∧
    (F = as ++ bs ∧ (W.extent r).len = n ∨ ∃ o, F = as ++ o :: bs ∧
      n < (W.extent r).len ∧ X o = ⟨(W.extent r).base + n, (W.extent r).len - n⟩)
  extents : ∀ x ∈ W.freeRegions ++ W.usedRegions, x ≠ r → X x = W.extent x

section
variable (h : W.RegionsOk t) (hsplit : W.freeRegions = as ++ r :: bs)
  (hsmall : ∀ a ∈ as, (W.extent a).len < n)
include hsplit

theorem World.mem_freeRegions (hx : x = r ∨ x ∈ as ++ bs) : x ∈ W.freeRegions := by
  rw [hsplit]
  exact List.perm_middle.mem_iff.mpr (List.mem_cons.mpr hx)

theorem World.mem_freeRegions_before (hx : x = r ∨ x ∈ as) : x ∈ W.freeRegions :=
  World.mem_freeRegions hsplit (hx.imp_right (List.mem_append_left bs))

include h

theorem World.RegionsOk.not_mem_others : r ∉ as ++ bs := by
  have hnodup := h.regions.nodup
  rw [hsplit] at hnodup
  exact (List.nodup_cons.mp (List.nodup_middle.mp hnodup)).1

include hsmall

theorem World.RegionsOk.cutDown_whole (hlen : (W.extent r).len = n) :
    W.CutDown n r (as ++ bs) W.extent where
  own := by rw [← hlen]
  regions us vs husvs := by
    have hregions := h.regions
    rw [hsplit, husvs] at hregions
    exact hregions.take.1
  bound f hf := h.bound f (World.mem_freeRegions hsplit (.inr hf))
  shape := ⟨as, bs, hsplit, hsmall, .inl ⟨rfl, hlen⟩⟩
  extents _ _ _ := rfl

theorem World.RegionsOk.cutDown_part (hlarge : n < (W.extent r).len) (ho : o ∉ W.freeRegions)
    (ho' : o ∉ W.usedRegions) : W.CutDown n r (as ++ o :: bs) (cutAt W.extent r o n) where
  own := cutAt_self W.extent (fun heq => ho (World.mem_freeRegions hsplit (.inl heq))) n
  regions us vs husvs := by
    have hregions := h.regions
    rw [hsplit, husvs] at hregions
    exact (hregions.cut hlarge (hsplit ▸ ho) (husvs ▸ ho')).1
  bound f hf := by
    have hbound := h.bound r (World.mem_freeRegions hsplit (.inl rfl))
    rcases List.mem_cons.mp (List.perm_middle.mem_iff.mp hf) with rfl | hf
    · rw [cutAt_upper]
      simp only
      omega
    · have hfree := World.mem_freeRegions hsplit (.inr hf)
      have hfr : f ≠ r := fun heq => h.not_mem_others hsplit (heq ▸ hf)
      have hfo : f ≠ o := fun heq => ho (heq ▸ hfree)
      rw [cutAt_other W.extent hfr hfo]
      exact h.bound f hfree
  shape := ⟨as, bs, hsplit, hsmall, .inr ⟨o, rfl, hlarge, cutAt_upper W.extent r o n⟩⟩
  extents x hx hxr := by
    refine cutAt_other W.extent hxr ?_ n
    rintro rfl
    exact (List.mem_append.mp hx).elim ho ho'

end

theorem RegionCut.insert (h : RegionCut W t r F X L O t₁) (hX : W.CutDown n r F X)
    (hn : 1 ≤ (W.extent r).base + n) (hr : r ∈ W.freeRegions)
    (hbound : (W.extent r).base + n ≤ 2 ^ 32) (hE : (∀ e, E e) ∨ W.UsedBelow)
    (hcount : { W with slabs := Function.update W.slabs W.cacheVregion L, objs := O }.freeObjs
        W.cacheVregion + (if n < (W.extent r).len then 1 else 0) = W.freeObjs W.cacheVregion)
    (hperm : (allOf L).Perm (W.all W.cacheVregion))
    (hO : ∀ x, x ∉ W.all W.cacheVregion → O x = W.objs x) :
    Runs Shows E (fun x t' => ∃ W', x = some r ∧ RegionTaken W t n r W' t') (do
      listInsertOrdered usedVregionsVar vregionNextOf listRounds r vregionCmp
      return some r) t₁ := by
  have hrw := h.words r (.inl rfl)
  rw [hX.own] at hrw
  simp only at hrw
  have hused : ∀ u ∈ W.usedRegions, X u = W.extent u := fun u hu =>
    hX.extents u (List.mem_append_right _ hu) fun heq => h.off.2 (heq ▸ hu)
  refine .bind (listInsertOrdered_runs h.used h.region h.off.2 ?_) ?_
  · refine hE.imp id fun hE u hu => ?_
    have humem := List.mem_of_mem_head? hu
    obtain ⟨hpos, hbelow⟩ := hE u hu r hr
    have huw := h.words u (.inr (.inr humem))
    rw [hused u humem] at huw
    rw [Extent.Below] at hbelow
    rw [Heap.NotNested, huw.1, huw.2, hrw.1, hrw.2, lastVpn_eq hn hbound,
      lastVpn_eq hpos (by omega)]
    omega
  rintro - t' ⟨us, vs, ⟨husvs, hstop, hnext⟩, hinserted, hrel⟩
  refine .pure ⟨{ W with
    slabs := Function.update W.slabs W.cacheVregion L, objs := O,
    freeRegions := F, usedRegions := us ++ r :: vs, extent := X }, rfl, ?_⟩
  have hword : t'.heap.word = t₁.heap.word := hrel.word
  have hregions := hX.regions us vs husvs
  have hlinks : t₁.heap.SameLinks t'.heap :=
    hrel.changes.sameLinks fun a hc => absurd hc.1 (by decide)
  refine ⟨⟨?_, hinserted, ?_, hregions, hX.bound⟩, ?_, ?_, ?_, hrel.slot.trans h.slots, ?_,
    hX.shape, ⟨us, vs, husvs, rfl, ?_, ?_⟩, h.links.trans hlinks, hX.own,
    hX.extents, hcount, ⟨L, O, F, _, X, rfl, hperm, hO⟩⟩
  · refine h.free.other hrel (by decide) ?_
    rintro x hx (rfl | hu)
    · exact h.off.1 hx
    · refine hregions.not_used x hx (List.perm_middle.mem_iff.mpr ?_)
      exact List.mem_cons_of_mem r (husvs ▸ hu)
  · intro x hx
    rw [hword]
    refine h.words x ?_
    rcases List.mem_append.mp hx with hx | hx
    · exact .inr (.inl hx)
    · rcases List.mem_cons.mp (List.perm_middle.mem_iff.mp hx) with rfl | hx
      · exact .inl rfl
      · exact .inr (.inr (husvs ▸ hx))
  · refine h.cache.congr ⟨rfl, rfl, rfl, fun s _ => ⟨rfl, rfl, rfl⟩⟩ hrel.changes ?_
    rintro k a hown ⟨rfl, -⟩
    exact hown
  · refine h.changes.trans (hrel.changes.weaken ?_)
    rintro k a ⟨rfl, rfl | hu⟩
    · exact .inr ⟨rfl, .inl hr⟩
    · exact .inr ⟨rfl, .inr (.inl hu)⟩
  · intro a k ha
    rw [hrel.struct] at ha
    exact h.struct a k ha
  · have hrest := hrel.rest
    simp only [View.setHead, RegionList.head] at hrest
    rw [h.rest] at hrest
    rw [hrest]
  · intro hvs
    have hnil := hstop hvs
    rw [husvs] at hnil
    exact (List.append_eq_nil_iff.mp hnil).1
  · intro v hv
    have hle := hnext v hv
    have hvs : v ∈ W.usedRegions := husvs ▸ List.mem_append_right us (List.mem_of_mem_head? hv)
    rwa [(h.words v (.inr (.inr hvs))).1, hrw.1, hused v hvs] at hle

section
variable {W₁ : World} {t₂ : View} {P : Nat → Prop} (hrel : t.Relisted .free P t₁)
  (hret : Retrieved W t₁.heap W.cacheVregion o W₁ H₁) (hrest : t₂.rest = t₁.rest)
  (hsp : Split o r first pages n H₁ t₂.heap)

include hrel hret in
theorem split_obj : t.heap.struct o = some .object := by
  rw [← hrel.struct]
  exact hret.obj

include hrel hret in
theorem split_ne (hx : t.heap.struct x = some .vregion) : x ≠ o := by
  rintro rfl
  have hobj := split_obj hrel hret
  rw [hx] at hobj
  cases hobj

include hrel hret hsp in
theorem split_struct (hx : x ≠ o) : t₂.heap.struct x = t.heap.struct x := by
  rw [hsp.struct, hret.struct, Function.update_of_ne hx, Function.update_of_ne hx, hrel.struct]

include hret hsp in
theorem split_word {f : WordField} (hf : f.struct = .vregion) (hxo : x ≠ o) (hxr : x ≠ r) :
    t₂.heap.word f x = t₁.heap.word f x := by
  rw [hsp.changes.word f x, hret.changes.word f x]
  · rw [hf]
    exact id
  · rintro ⟨-, hx | hx⟩
    · exact hxo hx
    · exact hxr hx

include hrel hret hsp hrest in
theorem split_holds {l : RegionList} (hl : l.Holds t₁ xs) (hne : ∀ x ∈ xs, x ≠ o) :
    l.Holds t₂ xs := by
  have hhead : l.head t₂ = l.head t₁ := by
    unfold RegionList.head
    rw [hrest]
  refine hl.congr hhead (fun x hx hs => ?_) fun x hx => ?_
  · rw [split_struct hrel hret hsp (hne x hx), ← hrel.struct]
    exact hs
  · exact (hsp.ptr _ x (hne x hx)).trans (hret.changes.ptr .vregionNext x id)

include hret hsp in
theorem split_cache : W₁.CacheOk t₂.heap W.cacheVregion := by
  refine hret.cache.congr ⟨rfl, rfl, rfl, fun s _ => ⟨rfl, rfl, rfl⟩⟩ hsp.changes ?_
  rintro k a hown ⟨rfl, -⟩
  exact hown

include hrel hret hsp in
theorem split_changes (hr : r ∈ W.freeRegions) (hP : ∀ a, P a → a ∈ W.freeRegions) :
    t.heap.ChangesOnly (W.RegionFoot t.heap) t₂.heap := by
  refine (hrel.changes.weaken ?_).trans ((hret.changes.weaken fun k a hown => .inl hown).trans
    (hsp.changes.weaken ?_))
  · rintro k a ⟨rfl, ha⟩
    exact .inr ⟨rfl, .inl (hP a ha)⟩
  · rintro k a ⟨rfl, rfl | rfl⟩
    · exact .inr ⟨rfl, .inr (.inr (split_obj hrel hret))⟩
    · exact .inr ⟨rfl, .inl hr⟩

end

/-! ### The region is off the free list -/

section
variable (h : W.RegionsOk t) (hsplit : W.freeRegions = as ++ r :: bs)
  (hrel : t.Relisted .free (fun a => a = r ∨ a ∈ as) t₁)
include h hsplit hrel

theorem World.RegionsOk.used_unlisted : RegionList.Holds .used t₁ W.usedRegions :=
  h.used.other hrel (by decide) fun x hx hX =>
    h.regions.not_used x (World.mem_freeRegions_before hsplit hX) hx

theorem World.RegionsOk.struct_unlisted : t₁.heap.struct r = some .vregion := by
  rw [hrel.struct]
  exact h.free.2 r (World.mem_freeRegions hsplit (.inl rfl))

omit hsplit in
theorem World.RegionsOk.words_unlisted (hx : x ∈ W.freeRegions ++ W.usedRegions) :
    t₁.heap.word .firstVpn x = (W.extent x).base ∧
      t₁.heap.word .nbrPages x = (W.extent x).len := by
  rw [hrel.word]
  exact h.words x hx

omit h hsplit in
theorem World.CacheOk.unlisted (hV : W.CacheOk t.heap c) : W.CacheOk t₁.heap c := by
  refine hV.congr ⟨rfl, rfl, rfl, fun s _ => ⟨rfl, rfl, rfl⟩⟩ hrel.changes ?_
  rintro k a hown ⟨rfl, -⟩
  exact hown

/-- A region that is as large as the request is taken as it is. -/
theorem World.RegionsOk.uncut (hV : W.CacheOk t.heap W.cacheVregion)
    (hfree : RegionList.Holds .free t₁ (as ++ bs)) :
    RegionCut W t r (as ++ bs) W.extent (W.slabs W.cacheVregion) W.objs t₁ where
  free := hfree
  used := h.used_unlisted hsplit hrel
  region := h.struct_unlisted hsplit hrel
  off := ⟨h.not_mem_others hsplit, h.regions.not_used r (World.mem_freeRegions hsplit (.inl rfl))⟩
  words x hx := by
    refine h.words_unlisted hrel (List.mem_append.mpr ?_)
    rcases hx with rfl | hx | hx
    · exact .inl (World.mem_freeRegions hsplit (.inl rfl))
    · exact .inl (World.mem_freeRegions hsplit (.inr hx))
    · exact .inr hx
  cache := by
    rw [Function.update_eq_self]
    exact hV.unlisted hrel
  changes := by
    refine hrel.changes.weaken ?_
    rintro k a ⟨rfl, ha⟩
    exact .inr ⟨rfl, .inl (World.mem_freeRegions_before hsplit ha)⟩
  struct a k ha := by
    rw [hrel.struct] at ha
    exact .inl ha
  slots := hrel.slot
  links := hrel.changes.sameLinks fun a hc => nomatch hc.1
  rest := hrel.rest

/-- The state after the upper part of the region has gone back to the free regions. -/
theorem World.RegionsOk.cut {t₂ t₃ : View} {L : SlabStatus → List Nat} {O : Nat → List Nat}
    (hret : Retrieved W t₁.heap W.cacheVregion o { W with
      slabs := Function.update W.slabs W.cacheVregion L, objs := O } H₁)
    (hrest₂ : t₂.rest = t₁.rest)
    (hsp : Split o r (W.extent r).base (W.extent r).len n H₁ t₂.heap)
    (hfree₃ : RegionList.Holds .free t₃ (as ++ o :: bs))
    (hrel₃ : t₂.Relisted .free (fun a => a = o ∨ a ∈ as) t₃) :
    RegionCut W t r (as ++ o :: bs) (cutAt W.extent r o n) L O t₃ := by
  have hr : r ∈ W.freeRegions := World.mem_freeRegions hsplit (.inl rfl)
  have hrnot := h.not_mem_others hsplit
  have hrused : r ∉ W.usedRegions := h.regions.not_used r hr
  have hasFree : ∀ a, a = r ∨ a ∈ as → a ∈ W.freeRegions := fun a ha =>
    World.mem_freeRegions_before hsplit ha
  have hneFree : ∀ x ∈ W.freeRegions, x ≠ o := fun x hx => split_ne hrel hret (h.free.2 x hx)
  have hneUsed : ∀ x ∈ W.usedRegions, x ≠ o := fun x hx => split_ne hrel hret (h.used.2 x hx)
  have hro : r ≠ o := hneFree r hr
  have hused₁ := h.used_unlisted hsplit hrel
  have ho₂ : t₂.heap.struct o = some .vregion := by
    rw [hsp.struct, Function.update_self]
  refine ⟨hfree₃, ?_, ?_, ⟨?_, hrused⟩, ?_, ?_, ?_, ?_, ?_, ?_, ?_⟩
  · refine (split_holds hrel hret hrest₂ hsp hused₁ hneUsed).other hrel₃ (by decide) ?_
    rintro x hx (rfl | hX)
    · exact hneUsed x hx rfl
    · exact h.regions.not_used x (hasFree x (.inr hX)) hx
  · rw [hrel₃.struct, split_struct hrel hret hsp hro]
    exact h.free.2 r hr
  · rw [List.perm_middle.mem_iff, List.mem_cons, not_or]
    exact ⟨hro, hrnot⟩
  · intro x hx
    rw [hrel₃.word]
    by_cases hxr : x = r
    · rw [hxr, cutAt_self W.extent hro.symm]
      exact hsp.lower
    by_cases hxo : x = o
    · rw [hxo, cutAt_upper]
      exact hsp.upper
    rw [split_word hret hsp rfl hxo hxr, split_word hret hsp rfl hxo hxr,
      cutAt_other W.extent hxr hxo]
    refine h.words_unlisted hrel (List.mem_append.mpr ?_)
    rcases hx with hx | hx | hx
    · exact absurd hx hxr
    · rcases List.mem_cons.mp (List.perm_middle.mem_iff.mp hx) with hx | hx
      · exact absurd hx hxo
      · exact .inl (World.mem_freeRegions hsplit (.inr hx))
    · exact .inr hx
  · refine (split_cache hret hsp).congr ⟨rfl, rfl, rfl, fun s _ => ⟨rfl, rfl, rfl⟩⟩ hrel₃.changes ?_
    rintro k a hown ⟨rfl, -⟩
    exact hown
  · refine (split_changes hrel hret hsp hr hasFree).trans (hrel₃.changes.weaken ?_)
    rintro k a ⟨rfl, rfl | ha⟩
    · exact .inr ⟨rfl, .inr (.inr (split_obj hrel hret))⟩
    · exact .inr ⟨rfl, .inl (hasFree a (.inr ha))⟩
  · intro a k ha
    rw [hrel₃.struct] at ha
    by_cases hao : a = o
    · subst hao
      rw [ho₂] at ha
      cases ha
      obtain ⟨s', hs', hslot⟩ := hret.slot
      refine .inr ⟨rfl, split_obj hrel hret, s', hs', ?_⟩
      rw [← hrel.slot]
      exact hslot
    · rw [split_struct hrel hret hsp hao] at ha
      exact .inl ha
  · rw [hrel₃.slot, hsp.slot, hret.slots, hrel.slot]
  · exact (hrel.changes.sameLinks fun a hc => nomatch hc.1).trans (hret.links.trans
      ((hsp.changes.sameLinks fun a hc => nomatch hc.1).trans
        (hrel₃.changes.sameLinks fun a hc => nomatch hc.1)))
  · have hrest₃ := hrel₃.rest
    have hrest₁ := hrel.rest
    simp only [View.setHead, RegionList.head] at hrest₃ hrest₁
    rw [hrest₂, hrest₁] at hrest₃
    rw [hrest₃]

/-- A larger region is split, and its upper part goes back in its place. -/
theorem World.RegionsOk.takenPart (hV : W.CacheOk t.heap W.cacheVregion)
    (hc : t.rest.vpagesCacheVregion = some W.cacheVregion)
    (hsize : sizeofVregion ≤ W.size W.cacheVregion) (hn : 1 ≤ (W.extent r).base + n)
    (hE : (∀ e, E e) ∨ 0 < W.freeObjs W.cacheVregion ∧ W.UsedBelow)
    (hsmall : ∀ a ∈ as, (W.extent a).len < n) (hlarge : n < (W.extent r).len)
    (hfree₁ : RegionList.Holds .free t₁ (as ++ bs)) :
    Runs Shows E (fun x t' => ∃ W', x = some r ∧ RegionTaken W t n r W' t') (do
      let upperPart ← vregionSplit r n
      listInsertAfter freeVregionsVar vregionNextOf as.getLast? upperPart
      listInsertOrdered usedVregionsVar vregionNextOf listRounds r vregionCmp
      return some r) t₁ := by
  have hr : r ∈ W.freeRegions := World.mem_freeRegions hsplit (.inl rfl)
  have hbound := h.bound r hr
  have hrw := h.words_unlisted hrel (List.mem_append_left _ hr)
  have hcache₁ := hV.unlisted hrel
  have hrest₁ : t₁.rest = { t.rest with freeVregions := t₁.rest.freeVregions } := hrel.rest
  have hc₁ : t₁.rest.vpagesCacheVregion = some W.cacheVregion := by
    rw [hrest₁]
    exact hc
  refine .bind (vregionSplit_runs hcache₁ hc₁ hsize (h.struct_unlisted hsplit hrel) hrw.1 hrw.2
    hlarge hbound (hE.imp (fun hE => hE _) And.left)) ?_
  rintro o t₂ ⟨W₁, H₁, hret, hrest₂, hsp⟩
  obtain ⟨s, os, L, rfl, hs, hos, hperm⟩ := hret.world
  have ho : o ∉ W.freeRegions := fun hx => split_ne hrel hret (h.free.2 o hx) rfl
  have ho' : o ∉ W.usedRegions := fun hx => split_ne hrel hret (h.used.2 o hx) rfl
  have ho₂ : t₂.heap.struct o = some .vregion := by
    rw [hsp.struct, Function.update_self]
  have hfree₂ : RegionList.Holds .free t₂ (as ++ bs) :=
    split_holds hrel hret hrest₂ hsp hfree₁ fun x hx heq =>
      ho (World.mem_freeRegions hsplit (.inr (heq ▸ hx)))
  have hofree : o ∉ as ++ bs := fun hx => ho (World.mem_freeRegions hsplit (.inr hx))
  have hinsert : Runs Shows E (fun _ t' => RegionList.Holds .free t' (as ++ o :: bs) ∧
      t₂.Relisted .free (fun a => a = o ∨ a ∈ as) t')
      (listInsertAfter freeVregionsVar vregionNextOf as.getLast? o) t₂ :=
    listInsertAfter_runs hfree₂ ho₂ hofree
  refine .bind hinsert ?_
  rintro - t₃ ⟨hfree₃, hrel₃⟩
  have hcount := hret.count
  rw [hret.cache.freeCount, hcache₁.freeCount] at hcount
  refine (h.cut hsplit hrel hret hrest₂ hsp hfree₃ hrel₃).insert
    (h.cutDown_part hsplit hsmall hlarge ho ho') hn hr (by omega) (hE.imp id And.right)
    (by rw [if_pos hlarge]; omega) hperm fun x hx => ?_
  have hxs : x ≠ s := by
    rintro rfl
    exact hx hs
  exact Function.update_of_ne hxs _ _

theorem World.RegionsOk.takenWhole (hV : W.CacheOk t.heap W.cacheVregion)
    (hn : 1 ≤ (W.extent r).base + n)
    (hE : (∀ e, E e) ∨ 0 < W.freeObjs W.cacheVregion ∧ W.UsedBelow)
    (hsmall : ∀ a ∈ as, (W.extent a).len < n) (hlen : (W.extent r).len = n)
    (hfree₁ : RegionList.Holds .free t₁ (as ++ bs)) :
    Runs Shows E (fun x t' => ∃ W', x = some r ∧ RegionTaken W t n r W' t') (do
      listInsertOrdered usedVregionsVar vregionNextOf listRounds r vregionCmp
      return some r) t₁ := by
  have hr : r ∈ W.freeRegions := World.mem_freeRegions hsplit (.inl rfl)
  have hbound := h.bound r hr
  have hself : Function.update W.slabs W.cacheVregion (W.slabs W.cacheVregion) = W.slabs :=
    Function.update_eq_self _ _
  refine (h.uncut hsplit hrel hV hfree₁).insert (h.cutDown_whole hsplit hsmall hlen) hn hr
    (by omega) (hE.imp id And.right) ?_ (.refl _) fun _ _ => rfl
  rw [hself, if_neg (by omega)]
  rfl

theorem World.RegionsOk.taken (hV : W.CacheOk t.heap W.cacheVregion)
    (hc : t.rest.vpagesCacheVregion = some W.cacheVregion)
    (hsize : sizeofVregion ≤ W.size W.cacheVregion) (hn : 1 ≤ (W.extent r).base + n)
    (hE : (∀ e, E e) ∨ 0 < W.freeObjs W.cacheVregion ∧ W.UsedBelow)
    (hsmall : ∀ a ∈ as, (W.extent a).len < n) (hfit : n ≤ (W.extent r).len)
    (hfree₁ : RegionList.Holds .free t₁ (as ++ bs)) :
    Runs Shows E (fun x t' => ∃ W', x = some r ∧ RegionTaken W t n r W' t') (do
      if (← (nbrPagesOf r).read) > n then
        let upperPart ← vregionSplit r n
        listInsertAfter freeVregionsVar vregionNextOf as.getLast? upperPart
      listInsertOrdered usedVregionsVar vregionNextOf listRounds r vregionCmp
      return some r) t₁ := by
  have hr : r ∈ W.freeRegions := World.mem_freeRegions hsplit (.inl rfl)
  have hrw := h.words_unlisted hrel (List.mem_append_left _ hr)
  refine .readWord .nbrPages (h.struct_unlisted hsplit hrel) (.ite (fun hlarge => ?_) fun hexact =>
    ?_)
  · rw [hrw.2] at hlarge
    exact h.takenPart hsplit hrel hV hc hsize hn hE hsmall hlarge hfree₁
  · rw [hrw.2] at hexact
    exact h.takenWhole hsplit hrel hV hn hE hsmall (by omega) hfree₁

end

/-- `_vregion_alloc` takes the first pages of the first region that has enough. -/
theorem vregionAlloc_runs (h : W.RegionsOk t) (hV : W.CacheOk t.heap W.cacheVregion)
    (hc : t.rest.vpagesCacheVregion = some W.cacheVregion)
    (hsize : sizeofVregion ≤ W.size W.cacheVregion)
    (hn : ∀ f ∈ W.freeRegions, 1 ≤ (W.extent f).base + n)
    (hnone : E .noFreeVregion ∨ W.freeRegions ≠ [])
    (hE : (∀ e, E e) ∨ 0 < W.freeObjs W.cacheVregion ∧ W.UsedBelow) :
    Runs Shows E (fun x t' => x = none ∧ t' = t ∧ (∀ r ∈ W.freeRegions, (W.extent r).len < n) ∨
      ∃ r W', x = some r ∧ RegionTaken W t n r W' t') (vregionAlloc_ n) t := by
  refine Runs.shown fun k hk => ?_
  unfold vregionAlloc_
  have hhead : t.rest.freeVregions = W.freeRegions.head? := h.free.1.head
  refine .read (reads_freeVregions t) (.check (fun hn => ?_) fun _ => ?_)
  · refine hnone.resolve_right fun hne => hn ?_
    rw [hhead, Ne, List.head?_eq_none_iff]
    exact hne
  have hlenAddr : W.freeRegions.length < listRounds := by
    refine length_lt_of_nodup h.free.1.nodup (fun x hx => ?_) (by decide)
    exact hk.addrOk (h.free.2 x hx) x rfl
  refine .bind (firstFitLoop_runs [] h.free.1 h.free.2 hlenAddr) ?_
  rintro ⟨prev, found⟩ t' ⟨rfl, hcase⟩
  have hfreeWords : ∀ x ∈ W.freeRegions, t'.heap.word .nbrPages x = (W.extent x).len := fun x hx =>
    (h.words x (List.mem_append_left _ hx)).2
  rcases hcase with ⟨as, r, bs, hsplit, heq, hsmall, hfit⟩ | ⟨hnone, hall⟩
  · cases heq
    have hr : r ∈ W.freeRegions := hsplit ▸ List.mem_append_right as List.mem_cons_self
    have hfree := h.free
    rw [hsplit] at hfree
    refine .bind (listDeleteEl_runs hfree) ?_
    rintro - t₁ ⟨hfree₁, hrel₁⟩
    have hprev : ([] ++ as).getLast? = as.getLast? := rfl
    rw [hprev]
    rw [hfreeWords r hr] at hfit
    refine (h.taken hsplit hrel₁ hV hc hsize (hn r hr) hE ?_ hfit hfree₁).imp fun x t' hx => .inr ?_
    · intro a ha
      rw [← hfreeWords a (hsplit ▸ List.mem_append_left _ ha)]
      exact hsmall a ha
    · obtain ⟨W', rfl, htaken⟩ := hx
      exact ⟨r, W', rfl, htaken⟩
  · change found = none at hnone
    subst hnone
    refine .pure (.inl ⟨rfl, rfl, ?_⟩)
    intro r hr
    rw [← hfreeWords r hr]
    exact hall r hr

end Atros
