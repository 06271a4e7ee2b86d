import Atros.CacheAccounts

namespace Atros
set_option autoImplicit true

variable {W W' : World} {t t' : View} {k k' k₀ : Kernel} {s s' : Session} {fs us fs' us' : List Nat}
  {X X' : Nat → Extent} {free : List Block}

/-! ### One request -/

/-- The pages of the region that a descriptor describes. -/
def Kernel.region (k : Kernel) (r : Nat) : Extent := ⟨k.wordOf .firstVpn r, k.wordOf .nbrPages r⟩

/-- The regions `fs` have pages and ascend strictly, and meet neither each other nor one of `us`. -/
structure Ascending (X : Nat → Extent) (fs us : List Nat) : Prop where
  pages : ∀ f ∈ fs, 1 ≤ (X f).len ∧ (X f).base + (X f).len ≤ 2 ^ 32
  ascending : fs.Pairwise fun a b => (X a).base < (X b).base
  apart : fs.Pairwise fun a b => (X a).Apart (X b)
  not_used : ∀ f ∈ fs, ∀ u ∈ us, (X f).Apart (X u)

/-- `free_vregions` leads through `fs` and `used_vregions` through `us`. The regions on both lists
are descriptors that do not meet, and their cache is in order. -/
structure Kernel.RegionLists (k : Kernel) (fs us : List Nat) : Prop where
  free : Chain (k.ptrOf .vregionNext) k.freeVregions fs
  used : Chain (k.ptrOf .vregionNext) k.usedVregions us
  memory : ∃ (W : World) (t : View), Shows k t ∧ (∀ r ∈ fs ++ us, t.heap.struct r = some .vregion) ∧
    k.vpagesCacheVregion = some W.cacheVregion ∧ W.CacheOk t.heap W.cacheVregion ∧
      sizeofVregion ≤ W.size W.cacheVregion

/-- The first `n` pages of the lowest free region with as many have been taken. -/
structure Kernel.Took (k : Kernel) (n : Nat) (fs us : List Nat) (r : Nat) (k' : Kernel)
    (fs' us' : List Nat) : Prop where
  lists : k'.RegionLists fs' us'
  ordered : Ascending k'.region fs' us'
  free : r ∈ fs
  fits : n ≤ (k.region r).len
  lowest : ∀ f ∈ fs, n ≤ (k.region f).len → (k.region r).base ≤ (k.region f).base
  taken : k'.region r = ⟨(k.region r).base, n⟩
  pages : ∀ w, Covers fs' k'.region w ↔ Covers fs k.region w ∧ w ∉ k'.region r
  added : r ∉ us ∧ ∃ as bs, us = as ++ bs ∧ us' = as ++ r :: bs
  kept : ∀ u ∈ us, k'.region u = k.region u

theorem Ascending.congr (h : Ascending X fs us) (hX : ∀ r ∈ fs ++ us, X' r = X r) :
    Ascending X' fs us := by
  have hfs : ∀ f ∈ fs, X' f = X f := fun f hf => hX f (List.mem_append_left us hf)
  refine ⟨fun f hf => ?_, h.ascending.imp_of_mem fun ha hb hab => ?_,
    h.apart.imp_of_mem fun ha hb hab => ?_, fun f hf u hu => ?_⟩
  · rw [hfs f hf]
    exact h.pages f hf
  · rwa [hfs _ ha, hfs _ hb]
  · rwa [hfs _ ha, hfs _ hb]
  · rw [hfs f hf, hX u (List.mem_append_right fs hu)]
    exact h.not_used f hf u hu

theorem Ascending.regions (h : Ascending X fs us) : Regions fs us X := by
  refine ⟨?_, fun f hf hu => ?_, ?_, h.not_used⟩
  · refine h.ascending.imp ?_
    rintro a _ hab rfl
    exact absurd hab (Nat.lt_irrefl _)
  · have hself := h.not_used f hf f hu
    have hpages := h.pages f hf
    rw [Extent.apart_iff] at hself
    omega
  · refine (h.ascending.and h.apart).imp_of_mem fun ha hb hab => ?_
    have hpages := h.pages _ ha
    have hpages' := h.pages _ hb
    obtain ⟨hlt, hapart⟩ := hab
    rw [Extent.apart_iff] at hapart
    rw [Extent.Below]
    omega

theorem World.RegionsOk.ascending (h : W.RegionsOk t)
    (hpages : ∀ f ∈ W.freeRegions, 1 ≤ (W.extent f).len) :
    Ascending W.extent W.freeRegions W.usedRegions := by
  have hregions := h.regions
  refine ⟨fun f hf => ⟨hpages f hf, h.bound f hf⟩, ?_, hregions.ascending.imp fun hab => hab.apart,
    hregions.apart⟩
  refine hregions.ascending.imp_of_mem fun ha _ hab => ?_
  have hlen := hpages _ ha
  rw [Extent.Below] at hab
  omega

theorem World.RegionsOk.region (hk : Shows k t) (h : W.RegionsOk t)
    (hr : r ∈ W.freeRegions ++ W.usedRegions) : k.region r = W.extent r := by
  have htyped : t.heap.struct r = some .vregion := by
    rcases List.mem_append.mp hr with hr | hr
    · exact h.free.2 r hr
    · exact h.used.2 r hr
  rw [Kernel.region, hk.wordOf .firstVpn htyped, hk.wordOf .nbrPages htyped, (h.words r hr).1,
    (h.words r hr).2]

theorem World.RegionsOk.lists (hk : Shows k t) (h : W.RegionsOk t)
    (hV : W.CacheOk t.heap W.cacheVregion) (hvar : k.vpagesCacheVregion = some W.cacheVregion)
    (hsize : sizeofVregion ≤ W.size W.cacheVregion) :
    k.RegionLists W.freeRegions W.usedRegions := by
  refine ⟨?_, ?_, W, t, hk, fun r hr => ?_, hvar, hV, hsize⟩
  · rw [hk.freeVregions]
    exact hk.chain .vregionNext h.free.1 h.free.2
  · rw [hk.usedVregions]
    exact hk.chain .vregionNext h.used.1 h.used.2
  · exact (List.mem_append.mp hr).elim (h.free.2 r) (h.used.2 r)

theorem Kernel.RegionLists.world (h : k.RegionLists fs us) (ho : Ascending k.region fs us) :
    ∃ (W : World) (t : View), Shows k t ∧ W.RegionsOk t ∧ W.CacheOk t.heap W.cacheVregion ∧
      t.rest.vpagesCacheVregion = some W.cacheVregion ∧ sizeofVregion ≤ W.size W.cacheVregion ∧
      W.freeRegions = fs ∧ W.usedRegions = us ∧ W.extent = k.region := by
  obtain ⟨W, t, hk, htyped, hvar, hV, hsize⟩ := h.memory
  have hsame : W.SameCache { W with freeRegions := fs, usedRegions := us, extent := k.region }
      W.cacheVregion := ⟨rfl, rfl, rfl, fun _ _ => ⟨rfl, rfl, rfl⟩⟩
  have hfs : ∀ f ∈ fs, t.heap.struct f = some .vregion := fun f hf =>
    htyped f (List.mem_append_left us hf)
  have hus : ∀ u ∈ us, t.heap.struct u = some .vregion := fun u hu =>
    htyped u (List.mem_append_right fs hu)
  refine ⟨{ W with freeRegions := fs, usedRegions := us, extent := k.region }, t, hk,
    ⟨⟨?_, hfs⟩, ⟨?_, hus⟩, fun r hr => ?_, ho.regions, fun f hf => (ho.pages f hf).2⟩,
    hV.congr hsame (.refl (fun _ _ => False) _) fun _ _ _ => id, ?_, hsize, rfl, rfl, rfl⟩
  · change Chain _ t.rest.freeVregions _
    rw [← hk.freeVregions]
    exact h.free.congr fun f hf => (hk.ptrOf .vregionNext (hfs f hf)).symm
  · change Chain _ t.rest.usedVregions _
    rw [← hk.usedVregions]
    exact h.used.congr fun u hu => (hk.ptrOf .vregionNext (hus u hu)).symm
  · exact ⟨(hk.wordOf .firstVpn (htyped r hr)).symm, (hk.wordOf .nbrPages (htyped r hr)).symm⟩
  · exact hk.vpagesCacheVregion.symm.trans hvar

theorem RegionTaken.pages (h : RegionTaken W t n r W' t') (hok : W.RegionsOk t) (w : Nat) :
    Covers W'.freeRegions W'.extent w ↔ Covers W.freeRegions W.extent w ∧ w ∉ W'.extent r := by
  obtain ⟨as, bs, hfree, -, -⟩ := h.shape
  obtain ⟨us, vs, hused, hused', -, -⟩ := h.used
  obtain ⟨-, hrused⟩ := hok.not_mem hfree
  have hcover := h.cover hok w
  have hapart := hok.regions.apart
  have hapart' := h.regions.regions.apart
  have hr : r ∈ W'.usedRegions := by
    rw [hused']
    exact List.mem_append_right us List.mem_cons_self
  have hold : ∀ u ∈ W.usedRegions, u ∈ W'.usedRegions ∧ W'.extent u = W.extent u := by
    intro u hu
    refine ⟨?_, h.extents u (List.mem_append_right _ hu) fun heq => hrused (heq ▸ hu)⟩
    rw [hused', List.perm_middle.mem_iff]
    exact List.mem_cons_of_mem r (hused ▸ hu)
  constructor
  · rintro ⟨f, hf, hw⟩
    refine ⟨?_, hapart' f hf r hr w hw⟩
    have hbefore := hcover.mp ⟨f, List.mem_append_left _ hf, hw⟩
    rcases Covers.append.mp hbefore with hbefore | ⟨u, hu, hwu⟩
    · exact hbefore
    · obtain ⟨hu', hext⟩ := hold u hu
      exact absurd (hext ▸ hwu) (hapart' f hf u hu' w hw)
  · rintro ⟨⟨f, hf, hw⟩, hwr⟩
    have hafter := hcover.mpr ⟨f, List.mem_append_left _ hf, hw⟩
    rcases Covers.append.mp hafter with hafter | ⟨u, hu', hwu⟩
    · exact hafter
    rw [hused', List.perm_middle.mem_iff, List.mem_cons] at hu'
    rcases hu' with rfl | hu
    · exact absurd hwu hwr
    · have hu₀ : u ∈ W.usedRegions := hused ▸ hu
      exact absurd ((hold u hu₀).2 ▸ hwu) (hapart f hf u hu₀ w hw)

theorem RegionTaken.nonempty (h : RegionTaken W t n r W' t') (hok : W.RegionsOk t)
    (hpages : ∀ f ∈ W.freeRegions, 1 ≤ (W.extent f).len) :
    ∀ f ∈ W'.freeRegions, 1 ≤ (W'.extent f).len := by
  obtain ⟨as, bs, hfree, -, hcase⟩ := h.shape
  obtain ⟨hrfree, -⟩ := hok.not_mem hfree
  have hold : ∀ f ∈ as ++ bs, 1 ≤ (W'.extent f).len := by
    intro f hf
    have hf' : f ∈ W.freeRegions :=
      hfree ▸ List.perm_middle.mem_iff.mpr (List.mem_cons_of_mem r hf)
    rw [h.extents f (List.mem_append_left _ hf') fun heq => hrfree (heq ▸ hf)]
    exact hpages f hf'
  intro f hf
  rcases hcase with ⟨hfree', -⟩ | ⟨o, hfree', hlt, ho⟩
  · exact hold f (hfree' ▸ hf)
  · rw [hfree', List.perm_middle.mem_iff, List.mem_cons] at hf
    rcases hf with rfl | hf
    · rw [ho]
      simp only
      omega
    · exact hold f hf

/-- The region that was taken is the lowest one with enough pages. -/
theorem RegionTaken.lowest (h : RegionTaken W t n r W' t') (hok : W.RegionsOk t) :
    n ≤ (W.extent r).len ∧ r ∈ W.freeRegions ∧
      ∀ f ∈ W.freeRegions, n ≤ (W.extent f).len → (W.extent r).base ≤ (W.extent f).base := by
  obtain ⟨as, bs, hfree, hsmall, hcase⟩ := h.shape
  have hregions := hok.regions
  rw [hfree] at hregions
  refine ⟨by rcases hcase with ⟨-, hlen⟩ | ⟨-, -, hlt, -⟩ <;> omega,
    hfree ▸ List.mem_append_right as List.mem_cons_self, fun f hf hn => ?_⟩
  rw [hfree, List.mem_append, List.mem_cons] at hf
  rcases hf with hf | rfl | hf
  · exact absurd (hsmall f hf) (Nat.not_lt.mpr hn)
  · exact le_refl _
  · have habove := hregions.neighbours.2.1 f hf
    rw [Extent.Below] at habove
    exact (Nat.le_add_right _ _).trans habove

theorem RegionTaken.took (h : RegionTaken W t n r W' t') (hk : Shows k t) (hok : W.RegionsOk t)
    (hvar : t.rest.vpagesCacheVregion = some W.cacheVregion)
    (hsize : sizeofVregion ≤ W.size W.cacheVregion)
    (hpages : ∀ f ∈ W.freeRegions, 1 ≤ (W.extent f).len) (hk' : Shows k' t') :
    k.Took n W.freeRegions W.usedRegions r k' W'.freeRegions W'.usedRegions := by
  obtain ⟨hfits, hfree, hlowest⟩ := h.lowest hok
  obtain ⟨us, vs, hused, hused', -, -⟩ := h.used
  obtain ⟨L, O, F, U, X, hW, -, -⟩ := h.world
  have hV : W'.cacheVregion = W.cacheVregion := by rw [hW]
  have hS : W'.size = W.size := by rw [hW]
  have hrused : r ∉ W.usedRegions := hok.regions.not_used r hfree
  have hvar' : k'.vpagesCacheVregion = some W'.cacheVregion := by
    rw [hk'.vpagesCacheVregion, h.rest, hV]
    exact hvar
  have hregion : ∀ f ∈ W.freeRegions ++ W.usedRegions, k.region f = W.extent f := fun f hf =>
    hok.region hk hf
  have hregion' : ∀ f ∈ W'.freeRegions ++ W'.usedRegions, k'.region f = W'.extent f := fun f hf =>
    h.regions.region hk' hf
  have hr : k'.region r = W'.extent r := by
    refine hregion' r (List.mem_append_right _ ?_)
    rw [hused']
    exact List.mem_append_right us List.mem_cons_self
  have hfreeRegion : ∀ f ∈ W.freeRegions, k.region f = W.extent f := fun f hf =>
    hregion f (List.mem_append_left _ hf)
  refine ⟨h.regions.lists hk' (hV.symm ▸ h.cache) hvar' (by rw [hV, hS]; exact hsize),
    (h.regions.ascending (h.nonempty hok hpages)).congr hregion', hfree, ?_, fun f hf hn => ?_, ?_,
    fun w => ?_, ⟨hrused, us, vs, hused, hused'⟩, fun u hu => ?_⟩
  · rw [hfreeRegion r hfree]
    exact hfits
  · rw [hfreeRegion r hfree, hfreeRegion f hf]
    rw [hfreeRegion f hf] at hn
    exact hlowest f hf hn
  · rw [hr, h.taken, hfreeRegion r hfree]
  · have hfree' : ∀ f ∈ W'.freeRegions, k'.region f = W'.extent f := fun f hf =>
      hregion' f (List.mem_append_left _ hf)
    rw [Covers.congr hfree', Covers.congr hfreeRegion, hr]
    exact h.pages hok w
  · have hu' : u ∈ W'.usedRegions := by
      rw [hused', List.perm_middle.mem_iff]
      exact List.mem_cons_of_mem r (hused ▸ hu)
    rw [hregion' u (List.mem_append_right _ hu'), hregion u (List.mem_append_right _ hu),
      h.extents u (List.mem_append_right _ hu) fun heq => hrused (heq ▸ hu)]

theorem firstFitLoop_keeps (n rounds : Nat) (prev current : Option Nat) (k : Kernel) :
    Ends (fun _ => True) (fun _ k' => k' = k) (firstFitLoop n rounds prev current k) := by
  induction rounds generalizing prev current with
  | zero => trivial
  | succ rounds ih =>
    cases current with
    | none => rfl
    | some r =>
      rw [firstFitLoop, bind_read]
      split
      · rfl
      · rw [bind_read]
        exact ih _ _

/-- A request that gets nothing changes nothing. -/
theorem vregionAlloc_none (h : vregionAlloc_ n k = .ok (none, k')) : k' = k := by
  have any : ∀ {α : Type} {r : Except Panic (α × Kernel)},
      Ends (fun _ => True) (fun _ _ => True) r := .of_ok fun _ _ _ => trivial
  have hends : Ends (fun _ => True) (fun x k' => x = none → k' = k) (vregionAlloc_ n k) := by
    unfold vregionAlloc_
    rw [bind_read]
    refine .bind (Ends.check fun _ => trivial) ?_
    rintro - _ ⟨rfl, -⟩
    refine .bind (firstFitLoop_keeps n listRounds none _ _) ?_
    rintro ⟨prev, found⟩ k₁ rfl
    cases found with
    | none => exact fun _ => rfl
    | some current =>
      have hsome : Ends (fun _ => True) (fun x _ => x ≠ none) ((do
          listDeleteEl freeVregionsVar vregionNextOf prev current
          if (← (nbrPagesOf current).read) > n then
            let upperPart ← vregionSplit current n
            listInsertAfter freeVregionsVar vregionNextOf prev upperPart
          listInsertOrdered usedVregionsVar vregionNextOf listRounds current vregionCmp
          return some current : Prog Panic Kernel (Option Nat)) k₁) := by
        refine .bind any fun _ _ _ => ?_
        rw [bind_read]
        split
        · refine .bind any fun _ _ _ => .bind any fun _ _ _ => ?_
          exact .bind any fun _ _ _ => Option.some_ne_none current
        · exact .bind any fun _ _ _ => Option.some_ne_none current
      exact hsome.imp fun x _ hx hn => absurd hn hx
  exact hends.ok h rfl

theorem Kernel.RegionLists.request (h : k.RegionLists fs us) (ho : Ascending k.region fs us)
    (hn : 1 ≤ n) (hrun : vregionAlloc_ n k = .ok (x, k')) :
    x = none ∧ k' = k ∧ (∀ f ∈ fs, (k.region f).len < n) ∨
      ∃ r fs' us', x = some r ∧ k.Took n fs us r k' fs' us' := by
  obtain ⟨W, t, hk, hok, hV, hvar, hsize, rfl, rfl, hX⟩ := h.world ho
  have hruns := vregionAlloc_runs (n := n) (E := fun _ => True) hok hV hvar hsize
    (fun f _ => Nat.le_add_left_of_le hn) (.inl trivial) (.inl fun _ => trivial)
  obtain ⟨t', hk', hx⟩ := (hruns k hk).ok hrun
  rcases hx with ⟨rfl, -, hsmall⟩ | ⟨r, W', rfl, htaken⟩
  · exact .inl ⟨rfl, vregionAlloc_none hrun, fun f hf => hX ▸ hsmall f hf⟩
  · refine .inr ⟨r, W'.freeRegions, W'.usedRegions, rfl, htaken.took hk hok hvar hsize ?_ hk'⟩
    intro f hf
    rw [hX]
    exact (ho.pages f hf).1

/-! ### Runs -/

/-- The free pages and those handed out since `k₀` are the pages that boot left. -/
structure Session.Conserves (k₀ : Kernel) (s : Session) : Prop where
  apart : ∀ r r', s.kernel.OnUsed r → s.kernel.OnUsed r' → r ≠ r' →
    (s.kernel.region r).Apart (s.kernel.region r')
  not_free : ∀ r r', s.kernel.OnFree r → s.kernel.OnUsed r' →
    (s.kernel.region r).Apart (s.kernel.region r')
  pages : ∀ w, (∃ r, (s.kernel.OnFree r ∨ s.kernel.OnUsed r ∧ ¬k₀.OnUsed r) ∧
    w ∈ s.kernel.region r) ↔ k₀.bootVpn.firstFree ≤ w ∧ w ≤ k₀.bootVpn.lastFree
  given : ∀ r, (s.kernel.vpagesCacheVregion, r) ∈ s.given → s.kernel.OnUsed r ∧ ¬k₀.OnUsed r
  nodup : (s.given.map Prod.snd).Nodup

theorem SlabStep.fresh (hd : 5 ≤ depth) (h : SlabStep depth s s') (hs : s.Kept W t) :
    ∃ W' t', s'.Kept W' t' ∧ W.Grows t W' t' ∧
      ∀ p ∈ s'.given, p ∈ s.given ∨ ∀ c, ¬W.Gave t c p.2 := by
  cases h with
  | @call call x k' hc hrun =>
    obtain ⟨W', t', hk', hcalled⟩ := SlabCall.called hc hd hs hrun
    refine ⟨W', t', hcalled.kept hs hk', hcalled.grows, fun p hp => ?_⟩
    rcases List.mem_append.mp hp with hp | hp
    · obtain ⟨o, ho, rfl⟩ := List.mem_map.mp hp
      exact .inr (hcalled.gave o (Option.mem_toList.mp ho)).2
    · exact .inl hp

theorem SlabRun.fresh (hd : 5 ≤ depth) (h : SlabRun depth s s') (hs : s.Kept W t) :
    ∃ W' t', s'.Kept W' t' ∧ W.Grows t W' t' ∧
      ∀ p ∈ s'.given, p ∈ s.given ∨ ∀ c, ¬W.Gave t c p.2 := by
  induction h with
  | refl => exact ⟨W, t, hs, .refl W t, fun p hp => .inl hp⟩
  | tail _ hstep ih =>
    obtain ⟨W₁, t₁, hs₁, hg, hfresh⟩ := ih
    obtain ⟨W', t', hs', hg', hfresh'⟩ := hstep.fresh hd hs₁
    refine ⟨W', t', hs', hg.trans hg', fun p hp => ?_⟩
    rcases hfresh' p hp with hp | hnew
    · exact hfresh p hp
    · exact .inr fun c hgave => hnew c (hgave.grows hg)

/-- A region that has been returned is in use, and has not been since boot. -/
theorem World.Gave.onUsed (h : W.Gave t (some W.cacheVregion) r) (hs : W.Sound t) :
    r ∈ W.usedRegions := by
  generalize hc : some W.cacheVregion = c at h
  cases h with
  | cache => exact absurd (Option.some.inj hc).symm hs.caches.own.apart.2.1
  | object _ hne => exact absurd (Option.some.inj hc).symm (hne .vregion)
  | region hr => exact hr

section
variable {v last : Nat} {blocks : List Block}

theorem BootLeft.pages (h : BootLeft v last blocks W t) (hg : W.Grows t W' t') (hs : W'.Sound t')
    (w : Nat) : (∃ r, (r ∈ W'.freeRegions ∨ r ∈ W'.usedRegions ∧ r ∉ W.usedRegions) ∧
    w ∈ W'.extent r) ↔
      v + 3 ≤ w ∧ w ≤ last := by
  obtain ⟨o, hfree, hext⟩ := h.free
  have hcover := hg.cover w
  have ho : w ∈ W.extent o ↔ v + 3 ≤ w ∧ w ≤ last := by
    rw [hext, Extent.mem_mk]
    omega
  have hbelow : ∀ u ∈ W.usedRegions, w ∈ W.extent u → w < v + 3 := by
    intro u hu hw
    rw [h.used] at hu
    obtain ⟨i, hi, rfl⟩ := List.mem_map.mp hu
    have hrank := rank_lt hi
    rw [h.extents i hi, Extent.mem_mk] at hw
    omega
  constructor
  · rintro ⟨r, hr, hw⟩
    have hbefore := hcover.mp ⟨r, List.mem_append.mpr (hr.imp_right And.left), hw⟩
    rcases Covers.append.mp hbefore with ⟨f, hf, hwf⟩ | ⟨u, hu, hwu⟩
    · rw [hfree, List.mem_singleton] at hf
      exact ho.mp (hf ▸ hwf)
    · obtain ⟨hu', hextU⟩ := hg.regions u hu
      rw [← hextU] at hwu
      rcases hr with hr | ⟨hr, hnew⟩
      · exact absurd hwu (hs.regions.regions.apart r hr u hu' w hw)
      · have hne : r ≠ u := fun heq => hnew (heq ▸ hu)
        exact absurd hwu (Extent.apart_of_pairwise hs.slabRegions.apart hr hu' hne w hw)
  · intro hw
    have hafter := hcover.mpr ⟨o, List.mem_append_left _ (hfree ▸ List.mem_singleton_self o),
      ho.mpr hw⟩
    obtain ⟨r, hr, hwr⟩ := hafter
    refine ⟨r, (List.mem_append.mp hr).imp_right fun hr => ⟨hr, fun hold => ?_⟩, hwr⟩
    rw [(hg.regions r hold).2] at hwr
    exact absurd (hbelow r hold hwr) (Nat.not_lt.mpr hw.1)

theorem BootLeft.conserves (h : BootLeft v last blocks W t) (hk : Shows k₀ t) (hg : W.Grows t W' t')
    (hs : s.Kept W' t') (hfresh : ∀ p ∈ s.given, ∀ c, ¬W.Gave t c p.2) : s.Conserves k₀ := by
  have hsound := hs.ready.sound
  have hregions := hsound.regions
  have hregions₀ := h.ready.sound.regions
  have hext : ∀ r ∈ W'.freeRegions ++ W'.usedRegions, s.kernel.region r = W'.extent r := fun r hr =>
    hregions.region hs.shows hr
  have hfree : ∀ r, s.kernel.OnFree r ↔ r ∈ W'.freeRegions := fun r => hregions.onFree_iff hs.shows
  have hused : ∀ r, s.kernel.OnUsed r ↔ r ∈ W'.usedRegions := fun r => hregions.onUsed_iff hs.shows
  have hused₀ : ∀ r, k₀.OnUsed r ↔ r ∈ W.usedRegions := fun r => hregions₀.onUsed_iff hk
  have hvpn : k₀.bootVpn = ⟨v + 3, last⟩ := hk.bootVpn.trans h.bootVpn
  have hvar := hsound.reads_vpagesCacheVregion _ hs.shows
  refine ⟨fun r r' hr hr' hne => ?_, fun r r' hr hr' => ?_, fun w => ?_, fun r hr => ?_, hs.nodup⟩
  · rw [hused] at hr hr'
    rw [hext r (List.mem_append_right _ hr), hext r' (List.mem_append_right _ hr')]
    exact Extent.apart_of_pairwise hsound.slabRegions.apart hr hr' hne
  · rw [hfree] at hr
    rw [hused] at hr'
    rw [hext r (List.mem_append_left _ hr), hext r' (List.mem_append_right _ hr')]
    exact hregions.regions.apart r hr r' hr'
  · rw [hvpn, ← h.pages hg hsound w]
    refine exists_congr fun r => ?_
    rw [hfree, hused, hused₀]
    refine and_congr_right fun hr => ?_
    rw [hext r (List.mem_append.mpr (hr.imp_right And.left))]
  · rw [hvar] at hr
    rw [hused, hused₀]
    refine ⟨(hs.gave _ hr).onUsed hsound, fun hold => ?_⟩
    exact hfresh _ hr _ (.region hold)

end

/-- A request takes the first pages of the lowest free region with as many, and nothing else. In
every run from boot the regions handed out are apart, and they and the free ones are the initial
range. -/
theorem vregionAlloc_conserves (n depth : Nat) :
    (∀ k fs us x k', k.RegionLists fs us → Ascending k.region fs us → 1 ≤ n →
      vregionAlloc_ n k = .ok (x, k') →
        x = none ∧ k' = k ∧ (∀ f ∈ fs, (k.region f).len < n) ∨
          ∃ r fs' us', x = some r ∧ k.Took n fs us r k' fs' us') ∧
    ∀ k free k' s, SlabBootReady k free → bootSpare k.bootVpn.firstFree k.mem = none →
      5 ≤ depth → objsCacheBootInit (depth + 1) k = .ok ((), k') → SlabRun depth (.start k') s →
        s.Conserves k' := by
  refine ⟨fun k fs us x k' h ho hn hrun => h.request ho hn hrun, ?_⟩
  intro k free k' s hk hspare hd hboot hrun
  have hbooted := hk.booted hspare (Nat.le_trans (by decide) hd) hboot
  obtain ⟨t, W, free', hk', hleft, -⟩ := hbooted
  obtain ⟨W', t', hs, hg, hfresh⟩ := hrun.fresh hd (.start hk' hleft.ready)
  refine hleft.conserves hk' hg hs fun p hp => ?_
  exact (hfresh p hp).resolve_left List.not_mem_nil

/-- A first free region that leads on to a slab has the slab's words handed out as pages. -/
theorem vregionAlloc_not_conserves : ¬∀ n depth : Nat,
    (∀ k fs us x k', k.RegionLists fs us → Ascending k.region fs us → 1 ≤ n →
      vregionAlloc_ n k = .ok (x, k') →
        x = none ∧ k' = k ∧ (∀ f ∈ fs, (k.region f).len < n) ∨
          ∃ r fs' us', x = some r ∧ k.Took n fs us r k' fs' us') ∧
    ∀ k free k' s, SlabBootReady k free → 5 ≤ depth →
      objsCacheBootInit (depth + 1) k = .ok ((), k') → SlabRun depth (.start k') s →
        s.Conserves k' := by
  intro hclaim
  obtain ⟨-, hclaim⟩ := hclaim 1 5
  obtain ⟨k, free, k₀, k₁, hready, hboot, hrun, W, t₁, o, t, blocks, live, hk, hk₁, hmade⟩ :=
    slabKernel_takesSlab (by decide : 2 ≤ 5)
  have hconserves := hclaim k free k₀ _ hready (le_refl 5) hboot hrun
  have hvar : k₀.vpagesCacheVregion = k₁.vpagesCacheVregion :=
    hk.vpagesCacheVregion.trans hk₁.vpagesCacheVregion.symm
  have hgiven := hconserves.given (staleRegion 303) (hvar ▸ List.mem_cons_self)
  obtain ⟨hs, hregion, hobjs, -⟩ := hmade.slab₀
  have hreads : (t.slabTaken 303 o).ReadsSlab 303 := .of_slab hs hregion hobjs
  have hext : k₁.region (staleRegion 303) = ⟨bootPlace 303 .vregion 0, bootPlace 303 .cache 3⟩ :=
    Extent.ext (hreads.first k₁ hk₁) (hreads.pages k₁ hk₁)
  have hpages := (hconserves.pages (bootPlace 303 .vregion 0)).mp
    ⟨staleRegion 303, .inr hgiven, by
      change _ ∈ k₁.region _
      rw [hext]
      decide⟩
  have hvpn : k₀.bootVpn = ⟨303 + 3, 1023⟩ := hk.bootVpn.trans hmade.bootVpn
  rw [hvpn] at hpages
  exact absurd hpages.2 (by decide)

theorem vregionAlloc_conserves_slabKernel : ∃ k k' k₁ r fs us fs' us',
    objsCacheBootInit 6 k = .ok ((), k') ∧ (Session.start k').Conserves k' ∧
      vregionAlloc_ 1 k' = .ok (some r, k₁) ∧ k'.Took 1 fs us r k₁ fs' us' := by
  obtain ⟨k, free, k₀, hready, hspare, hboot, W, t, blocks, hk, hleft, -⟩ :=
    slabKernel_booted (by decide : 2 ≤ 5)
  obtain ⟨hrequest, hruns⟩ := vregionAlloc_conserves 1 5
  obtain ⟨r, k₁, W', t', hrun, -, -⟩ := hleft.ready.takesRegion hk (hleft.fits (n := 1) (by decide))
  have hsound := hleft.ready.sound
  have hown := hsound.caches.own
  have hvar := hsound.reads_vpagesCacheVregion _ hk
  have hlists := hsound.regions.lists hk (hsound.caches.cache _ hsound.vregion_mem) hvar
    (le_of_eq (hown.size .vregion (by decide)).symm)
  have hordered : Ascending k₀.region W.freeRegions W.usedRegions := by
    obtain ⟨o, hfree, hext⟩ := hleft.free
    refine (hsound.regions.ascending fun f hf => ?_).congr fun f hf => hsound.regions.region hk hf
    rw [hfree, List.mem_singleton] at hf
    rw [hf, hext]
    decide
  rcases hrequest k₀ _ _ (some r) k₁ hlists hordered (le_refl 1) hrun with ⟨hnone, -⟩ | hsome
  · exact absurd hnone (Option.some_ne_none r)
  · obtain ⟨_, fs', us', heq, htook⟩ := hsome
    obtain rfl := Option.some.inj heq
    exact ⟨k, k₀, k₁, r, W.freeRegions, W.usedRegions, fs', us', hboot,
      hruns k free k₀ _ hready hspare (le_refl 5) hboot .refl, hrun, htook⟩

end Atros
