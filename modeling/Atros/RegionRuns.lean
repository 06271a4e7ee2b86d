import Atros.BootStart

namespace Atros
set_option autoImplicit true

variable {W W' W₁ : World} {t t' t₁ : View} {E : Panic → Prop}

/-! ### Requests for regions -/

/-- The kernel is in a sound state of the slab allocator and of the regions. -/
def Kernel.Sound (k : Kernel) : Prop := ∃ (W : World) (t : View), Shows k t ∧ W.Sound t

inductive RegionCall
  | vregionAlloc (n : Nat)
  | vregionAlloc_ (n : Nat)

def RegionCall.pages : RegionCall → Nat
  | vregionAlloc n => n
  | vregionAlloc_ n => n

def RegionCall.run (depth : Nat) : RegionCall → Prog Panic Kernel (Option Nat)
  | vregionAlloc n => Atros.vregionAlloc depth n
  | vregionAlloc_ n => Atros.vregionAlloc_ n

/-- Requests of at least one page, each of which got a region, and the states after them. -/
inductive TakesRegions (depth : Nat) : Kernel → List Kernel → Prop
  | nil (k : Kernel) : TakesRegions depth k []
  | cons {c : RegionCall} (hn : 1 ≤ c.pages) (hc : c.run depth k = .ok (some r, k'))
      (hks : TakesRegions depth k' ks) : TakesRegions depth k (k' :: ks)

/-- The check of the used regions in `virtual_page_boot_init` passes. -/
def Kernel.PassesCheck (k : Kernel) : Prop :=
  ∃ k', usedVregionsLoop listRounds k.usedVregions k = .ok ((), k')

theorem Kernel.passesCheck_iff {k : Kernel} (hk : Shows k t) (h : W.RegionsOk t) :
    k.PassesCheck ↔ W.usedRegions.IsChain t.heap.InOrder := by
  have hlen : W.usedRegions.length < listRounds := by
    refine length_lt_of_nodup h.used.1.nodup (fun x hx => ?_) (by decide)
    exact hk.addrOk (h.used.2 x hx) x rfl
  have hhead : RegionList.used.head t = k.usedVregions := hk.usedVregions.symm
  have hrun := usedVregionsLoop_runs h.used.1 h.used.2 hlen k hk
  rw [hhead] at hrun
  constructor
  · rintro ⟨k', hok⟩
    obtain ⟨t', -, -, hc⟩ := hrun.ok hok
    exact hc
  · intro hc
    rcases hres : usedVregionsLoop listRounds k.usedVregions k with e | ⟨⟨⟩, k'⟩
    · exact absurd hc (hrun.error hres)
    · exact ⟨k', hres⟩

/-- A region that was taken is in order only when it is the only used one. -/
theorem RegionTaken.inOrder_iff (h : RegionTaken W t n r W' t') (hok : W.RegionsOk t) (hn : 1 ≤ n)
    (hr : r ∈ W.freeRegions) :
    W'.usedRegions.IsChain t'.heap.InOrder ↔ W.usedRegions = [] := by
  obtain ⟨us, vs, hused, hused', hnil, hhead⟩ := h.used
  obtain ⟨as, bs, -, -, hcase⟩ := h.shape
  have hle : n ≤ (W.extent r).len := by
    rcases hcase with ⟨-, hlen⟩ | ⟨-, -, hlt, -⟩ <;> omega
  have hbound := hok.bound r hr
  rw [hused', hused]
  cases vs with
  | nil =>
    rw [hnil rfl]
    exact iff_of_true (.singleton r) rfl
  | cons v vs =>
    refine iff_of_false (fun hc => ?_) (by simp)
    have hpair : t'.heap.InOrder r v := (List.isChain_append_cons_cons.mp hc).2.1
    have hvu : v ∈ W.usedRegions := hused ▸ List.mem_append_right us List.mem_cons_self
    have hvr : v ≠ r := by
      rintro rfl
      exact hok.regions.not_used _ hr hvu
    have hwords := h.regions.words
    have hmem : ∀ x, x = r ∨ x = v → x ∈ W'.freeRegions ++ W'.usedRegions := by
      intro x hx
      rw [hused']
      refine List.mem_append_right _ (List.mem_append_right us ?_)
      rcases hx with rfl | rfl
      · exact List.mem_cons_self
      · exact List.mem_cons_of_mem r List.mem_cons_self
    obtain ⟨-, hlast⟩ := hpair
    rw [(hwords r (hmem r (.inl rfl))).1, (hwords r (hmem r (.inl rfl))).2,
      (hwords v (hmem v (.inr rfl))).1, h.taken, h.extents v (List.mem_append_right _ hvu) hvr,
      lastVpn_eq (by simp only; omega) (by simp only; omega)] at hlast
    have hbelow := hhead v rfl
    simp only at hlast
    omega

/-- The descriptor of a region lies in a slab, and the slab has a region. -/
theorem World.Sound.used_ne_nil (h : W.Sound t) (hr : t.heap.struct r = some .vregion) :
    W.usedRegions ≠ [] := by
  intro hnil
  obtain ⟨s, hs, -⟩ := h.placed.home r .vregion (by decide) hr
  have hused := (h.slabRegions.region W.cacheVregion h.vregion_mem s hs).1
  rw [hnil] at hused
  exact nomatch hused

theorem World.Sound.regionCall (h : W.Sound t) (c : RegionCall) :
    Runs Shows (fun _ => True) (fun x t' => ∃ (W₁ : World) (t₁ : View), W₁.Sound t₁ ∧
      (x = none ∨ ∃ r W', x = some r ∧ RegionOut W₁ t₁ c.pages r W' t')) (c.run depth) t := by
  have htake : ∀ (W₁ : World) (t₁ : View) n, W₁.Sound t₁ → Runs Shows (fun _ => True)
      (fun x t' => ∃ (W₁ : World) (t₁ : View), W₁.Sound t₁ ∧
        (x = none ∨ ∃ r W', x = some r ∧ RegionOut W₁ t₁ n r W' t'))
      (Atros.vregionAlloc_ n) t₁ := by
    intro W₁ t₁ n hs
    refine (hs.vregionAlloc_ (.inl trivial) (.inl fun _ => trivial)).imp ?_
    rintro x t' (⟨hx, -, -⟩ | hx)
    · exact ⟨W₁, t₁, hs, .inl hx⟩
    · exact ⟨W₁, t₁, hs, .inr hx⟩
  cases c with
  | vregionAlloc_ n => exact htake W t n h
  | vregionAlloc n =>
    have hVm := h.vregion_mem
    refine .cacheOf h.reads_vpagesCacheVregion
      (h.readFree hVm (.check (fun _ => trivial) fun _ => ?_))
    refine h.readFree hVm (.ite (fun _ => ?_) fun _ => htake W t n h)
    refine .bind ((refills_runs (m := 0) (Nat.zero_le depth)).1 W t h (.inl fun _ => trivial)) ?_
    rintro - t₁ ⟨W₁, hr, -, -⟩
    exact htake W₁ t₁ n hr.sound

theorem Kernel.Sound.takesRegion {c : RegionCall} {k k' : Kernel} (h : k.Sound) (hn : 1 ≤ c.pages)
    (hc : c.run depth k = .ok (some r, k')) : ¬k'.PassesCheck := by
  obtain ⟨W, t, hk, hs⟩ := h
  obtain ⟨t', hk', W₁, t₁, hs₁, hx⟩ := (hs.regionCall c k hk).ok hc
  obtain ⟨r, W', -, hout⟩ := hx.resolve_left (Option.some_ne_none r)
  rw [Kernel.passesCheck_iff hk' hout.sound.regions,
    hout.taken.inOrder_iff hs₁.regions hn hout.free]
  exact hs₁.used_ne_nil (hs₁.regions.free.2 _ hout.free)

/-- The check of `virtual_page_boot_init` passes after each of the requests only when there is
none. -/
theorem usedVregions_passesCheck_iff (h : k.Sound) (hks : TakesRegions depth k ks) :
    (∀ k' ∈ ks, k'.PassesCheck) ↔ ks = [] := by
  cases hks with
  | nil => exact iff_of_true (fun k' hk' => nomatch hk') rfl
  | cons hn hc hks =>
    refine iff_of_false (fun hall => ?_) (List.cons_ne_nil _ _)
    exact h.takesRegion hn hc (hall _ List.mem_cons_self)

theorem BootLeft.passesCheck {k : Kernel} (h : BootLeft v last blocks W t) (hk : Shows k t)
    (hlt : v + 3 ≤ 2 ^ 20) : k.PassesCheck := by
  have hregions := h.ready.sound.regions
  rw [Kernel.passesCheck_iff hk hregions, h.used]
  refine bootRegions_inOrder (fun i hi => ?_) hlt
  have hmem : bootPlace v .vregion i.rank ∈ W.usedRegions := by
    rw [h.used]
    exact List.mem_map_of_mem hi
  rw [(hregions.words _ (List.mem_append_right _ hmem)).1,
    (hregions.words _ (List.mem_append_right _ hmem)).2, h.extents i hi]
  exact ⟨rfl, rfl⟩

theorem World.Ready.takesRegion {k : Kernel} (h : W.Ready t) (hk : Shows k t)
    (hfits : ∃ r ∈ W.freeRegions, n ≤ (W.extent r).len) :
    ∃ r k' W' t', Atros.vregionAlloc_ n k = .ok (some r, k') ∧ Shows k' t' ∧
      RegionOut W t n r W' t' := by
  obtain ⟨f, hf, hn⟩ := hfits
  have hpos : 0 < W.freeObjs W.cacheVregion := Nat.lt_of_lt_of_le (by decide) h.regions
  obtain ⟨x, k', hok, t', hk', hx⟩ := (h.sound.vregionAlloc_ (n := n) (E := fun _ => False)
    (.inr (List.ne_nil_of_mem hf)) (.inr ⟨hpos, h.bottom.below⟩) k hk).returns
  rcases hx with ⟨-, -, hsmall⟩ | ⟨r, W', rfl, hout⟩
  · exact absurd (hsmall f hf) (Nat.not_lt.mpr hn)
  · exact ⟨r, k', W', t', hok, hk', hout⟩

theorem slabKernel_booted (hd : 2 ≤ depth) : ∃ k free k₀, SlabBootReady k free ∧
    bootSpare k.bootVpn.firstFree k.mem = none ∧ objsCacheBootInit (depth + 1) k = .ok ((), k₀) ∧
      ∃ W t blocks, Shows k₀ t ∧ BootLeft 303 1023 blocks W t ∧ HasPages blocks 247 := by
  obtain ⟨k, free, -, hready, hroom, hvpn, hmem⟩ := slabKernel_boots slabKernel.mem
  have hspare : bootSpare k.bootVpn.firstFree k.mem = none := by
    rw [hvpn, hmem]
    rfl
  have hroom' : HasPages free 3 := hroom.le (by decide)
  obtain ⟨⟨⟩, k₀, hrun, t, W, blocks, hk₀, hleft, htook⟩ :=
    (hready.boots (E := fun _ => False) hspare (.inr hroom') hd).returns
  rw [hvpn] at hleft
  exact ⟨k, free, k₀, hready, hspare, hrun, W, t, blocks, hk₀, hleft, htook.room 247 hroom⟩

theorem BootLeft.fits (h : BootLeft v last blocks W t) (hn : n ≤ last + 1 - (v + 3)) :
    ∃ r ∈ W.freeRegions, n ≤ (W.extent r).len := by
  obtain ⟨o, hfree, hext⟩ := h.free
  refine ⟨o, by rw [hfree]; exact List.mem_singleton_self o, ?_⟩
  rw [hext]
  exact hn

theorem slabKernel_takesRegion : ∃ k k', k.Sound ∧ k.PassesCheck ∧ TakesRegions 3 k [k'] := by
  obtain ⟨-, -, k, -, -, -, W, t, blocks, hk, hleft, -⟩ := slabKernel_booted (le_refl 2)
  obtain ⟨r, k', W', t', hok, hk', hout⟩ :=
    hleft.ready.takesRegion hk (hleft.fits (n := 1) (by decide))
  exact ⟨k, k', ⟨W, t, hk, hleft.ready.sound⟩, hleft.passesCheck hk (by decide),
    .cons (c := .vregionAlloc_ 1) (le_refl 1) hok (.nil k')⟩

/-- The used regions are not kept in order. -/
theorem usedVregions_unordered : ¬∀ depth k ks, k.Sound → k.PassesCheck →
    TakesRegions depth k ks → ∀ k' ∈ ks, k'.PassesCheck := by
  intro hclaim
  obtain ⟨k, k', hsound, hpass, htakes⟩ := slabKernel_takesRegion
  have hpass' := hclaim 3 k [k'] hsound hpass htakes k' List.mem_cons_self
  cases htakes with
  | cons hn hc hks => exact hsound.takesRegion hn hc hpass'

theorem usedVregions_passesCheck_iff_slabKernel : ∃ k ks, k.Sound ∧ k.PassesCheck ∧
    TakesRegions 3 k ks ∧ ks.length = 1 ∧ ((∀ k' ∈ ks, k'.PassesCheck) ↔ ks = []) := by
  obtain ⟨k, k', hsound, hpass, htakes⟩ := slabKernel_takesRegion
  exact ⟨k, [k'], hsound, hpass, htakes, rfl, usedVregions_passesCheck_iff hsound htakes⟩

end Atros
