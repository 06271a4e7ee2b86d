import Atros.RegionSteps

namespace Atros
set_option autoImplicit true

variable {W W' : World} {t t' : View} {E : Panic → Prop} {Q : α → View → Prop}

/-! ### Programs on the physical pages and on the page tables -/

theorem Runs.onPhys {x : Prog Panic Phys α} {R : α → Phys → Prop} (h : Ends E R (x t.rest.phys))
    (hput : ∀ a s, R a s → Q a { t with rest := { t.rest with phys := s } }) :
    Runs Shows E Q (onPhys x) t := by
  refine Runs.onPart (fun k hk => ?_) h fun a s hr => ⟨_, hput a s hr, fun k hk => ⟨hk.models, ?_⟩⟩
  · rw [← hk.rest]
    rfl
  · rw [← hk.rest]
    rfl

theorem Runs.onPaging {x : Prog Panic Paging α} {R : α → Paging → Prop}
    (h : Ends E R (x t.rest.paging))
    (hput : ∀ a p, R a p → Q a { t with rest := { t.rest with paging := p } }) :
    Runs Shows E Q (onPaging x) t := by
  refine Runs.onPart (fun k hk => ?_) h fun a s hr => ⟨_, hput a s hr, fun k hk => ⟨hk.models, ?_⟩⟩
  · rw [← hk.rest]
    rfl
  · rw [← hk.rest]
    rfl

theorem Runs.onBootVpn {x : Prog Panic BootPages α} {R : α → BootPages → Prop}
    (h : Ends E R (x t.rest.bootVpn))
    (hput : ∀ a b, R a b → Q a { t with rest := { t.rest with bootVpn := b } }) :
    Runs Shows E Q (onBootVpn x) t := by
  refine Runs.onPart (fun k hk => ?_) h fun a s hr => ⟨_, hput a s hr, fun k hk => ⟨hk.models, ?_⟩⟩
  · rw [← hk.rest]
    rfl
  · rw [← hk.rest]
    rfl

/-! ### Physical pages for a region -/

/-- The pages of the region `r` are now mapped to a new block of physical pages. -/
structure MappedOut (W : World) (t : View) (r : Nat) (b : Block) (W' : World) (t' : View) :
    Prop where
  sound : W'.Sound t'
  grows : W.Grows t W' t'
  world : ∃ free, W' = { W with freeBlocks := free, live := b :: W.live }
  heap : t'.heap = t.heap
  rest : t'.rest = { t.rest with phys := t'.rest.phys, paging := t'.rest.paging }
  fresh : ∀ x ∈ b.pages, InFree W.freeBlocks x
  large : (W.extent r).len ≤ 2 ^ b.order
  single : (W.extent r).len = 1 → b.order = 0
  blocks : ∃ c, ∀ a ∈ W.freeBlocks, a ≠ c → a ∈ W'.freeBlocks
  left : ∀ x, InFree W.freeBlocks x → x ∉ b.pages → InFree W'.freeBlocks x
  slab : ∀ x, (t'.rest.phys.dscrs x).slab = (t.rest.phys.dscrs x).slab
  mapped : ∀ i < (W.extent r).len, ∀ o < 2 ^ 12,
    t'.rest.paging.walk (((W.extent r).base + i) * 2 ^ 12 + o) = some ((b.ppn + i) * 2 ^ 12 + o)

theorem World.SlabRegions.used_apart (h : W.SlabRegions) (hr : r ∈ W.usedRegions)
    (hr' : r' ∈ W.usedRegions) (hne : r ≠ r') : (W.extent r).Apart (W.extent r') := by
  have : Std.Symm fun r r' => (W.extent r).Apart (W.extent r') := ⟨fun _ _ hab => hab.symm⟩
  exact h.apart.forall hr hr' hne

theorem World.Sound.mappedOut {s : Phys} {p : Paging} (h : W.Sound t) (hr : r ∈ W.usedRegions)
    (hother : ∀ c ∈ W.caches, ∀ s ∈ W.all c, W.region s ≠ r)
    (hlarge : (W.extent r).len ≤ 2 ^ b.order) (hsingle : (W.extent r).len = 1 → b.order = 0)
    (ht : t.rest.phys.Taken s W.freeBlocks W.live b free)
    (hm : t.rest.paging.Mapped p b.ppn (W.extent r).base (W.extent r).len) :
    MappedOut W t r b { W with freeBlocks := free, live := b :: W.live }
      { t with rest := { t.rest with phys := s, paging := p } } := by
  have hrange : ∀ r ∈ W.freeRegions ++ W.usedRegions,
    1 ≤ (W.extent r).base ∧ (W.extent r).base + (W.extent r).len ≤ 1023 * 1024 :=
    h.slabRegions.range
  refine ⟨⟨⟨?_, h.caches.ring, fun c hc => ?_⟩, ⟨h.placed.slot, h.placed.home⟩,
      ⟨h.regions.free, h.regions.used, h.regions.words, h.regions.regions, h.regions.bound⟩,
      ⟨h.slabRegions.apart, hrange, h.slabRegions.region, h.slabRegions.inj⟩, ?_⟩, ?_,
    ⟨free, rfl⟩, rfl, rfl, ht.taken, hlarge, hsingle,
    ht.blocks, ht.left, ht.slab, hm.pages⟩
  · have hown := h.caches.own
    exact ⟨hown.objsCacheVar, hown.slabVar, hown.vregionVar, hown.vpagesVar, hown.mem, hown.apart,
      hown.size, hown.pages⟩
  · exact (h.caches.cache c hc).congr ⟨rfl, rfl, rfl, fun _ _ => ⟨rfl, rfl, rfl⟩⟩
      (.refl (fun _ _ => False) _) fun _ _ _ => id
  · refine ⟨hm.tables, ?_, ?_, ht.grown, ?_, h.backed.inj, ?_⟩
    · intro r' hr' v hv
      have hv' := hrange r' hr'
      have hvlt : v / 2 ^ 10 < 2 ^ 10 := by
        have hv₁ : (W.extent r').base ≤ v ∧ v < (W.extent r').base + (W.extent r').len := hv
        omega
      rw [hm.directory _ hvlt]
      exact h.backed.present r' hr' v hv
    · rw [ht.lastPpn]
      exact h.backed.lastPpn_lt
    · intro c hc s hs
      obtain ⟨hlive, hle⟩ := h.backed.block c hc s hs
      exact ⟨List.mem_cons_of_mem b hlive, hle⟩
    · intro c hc s hs i hi o ho
      obtain ⟨hused, hlen⟩ := h.slabRegions.region c hc s hs
      have hapart := h.slabRegions.used_apart hused hr (hother c hc s hs)
        ((W.extent (W.region s)).base + i)
        (by rw [Extent.mem_iff, hlen]; exact ⟨Nat.le_add_right _ _, Nat.add_lt_add_left hi _⟩)
      have hb := hrange _ (List.mem_append_right _ hused)
      change i < W.pages c at hi
      change p.walk (((W.extent (W.region s)).base + i) * 2 ^ 12 + o) =
        some (((W.block s).ppn + i) * 2 ^ 12 + o)
      rw [Extent.mem_iff] at hapart
      rw [hm.others _ (by omega) (by omega) o ho]
      exact h.backed.mapped c hc s hs i hi o ho
  · exact ⟨fun _ => rfl, fun _ hc => hc, fun _ _ => ⟨rfl, rfl⟩, fun _ _ _ hs => ⟨hs, rfl, rfl⟩,
      fun _ hr => ⟨hr, rfl⟩, fun _ => Iff.rfl, fun _ _ hu => hu, fun _ _ ha => ha,
      fun _ _ _ ha => ha, fun x hx => ((ht.pages x).mp hx).1,
      fun b' hb' => (List.mem_cons.mp hb').symm.imp id fun (heq : b' = b) x hx =>
        ht.taken x (heq ▸ hx),
      fun _ _ _ _ x _ => ht.slab x⟩

theorem World.Sound.mapVregion (h : W.Sound t) (hr : r ∈ W.usedRegions) (hn : 1 ≤ n)
    (hlen : (W.extent r).len = n) (hother : ∀ c ∈ W.caches, ∀ s ∈ W.all c, W.region s ≠ r)
    (hE : E .tooManyPpages ∧ E .blockOrderTooLarge ∨ HasRoom W.freeBlocks n 0) :
    Runs Shows E (fun p t' => ∃ k W', MappedOut W t r ⟨p, k⟩ W' t') (mapVregion r n) t := by
  have hrmem : r ∈ W.freeRegions ++ W.usedRegions := List.mem_append_right _ hr
  obtain ⟨hbase, hend⟩ := h.slabRegions.range r hrmem
  obtain ⟨hfirst, -⟩ := h.regions.words r hrmem
  have halloc : Runs Shows E (fun p t₁ => ∃ s, t₁ = { t with rest := { t.rest with phys := s } } ∧
      ∃ k free, n ≤ 2 ^ k ∧ (n = 1 → k = 0) ∧
        t.rest.phys.Taken s W.freeBlocks W.live ⟨p, k⟩ free)
      (Atros.onPhys (ppagesAlloc n)) t := by
    refine Runs.onPhys ((ppagesAlloc_grown h.backed.phys hn).mono (fun e he => ?_)
      fun _ _ h => h) fun _ s h => ⟨s, rfl, h⟩
    rcases hE with hE | hroom
    · rcases he.1 with rfl | rfl
      · exact hE.1
      · exact hE.2
    · exact absurd hroom he.2
  unfold Atros.mapVregion
  refine .bind halloc ?_
  rintro p t₁ ⟨s, rfl, k, free, hk, hone, htaken⟩
  have hroom := htaken.grown.blocks.le_last ⟨p, k⟩ (List.mem_append_right _ List.mem_cons_self)
  have hlast := h.backed.lastPpn_lt
  rw [htaken.lastPpn] at hroom
  simp only at hroom
  refine .readWord .firstVpn (h.regions.used.2 r hr) ?_
  change Runs Shows E _
    (Atros.onPaging (mapPages p (t.heap.word .firstVpn r) n kernelPageFlags) >>= _) _
  rw [hfirst]
  obtain ⟨q, hrun, hm⟩ := mapPages_mapped (f := p) (n := n)
    h.backed.tables hbase (by omega) (by omega) (by decide : kernelPageFlags < 2 ^ 12) (by decide)
    (by decide)
    fun i hi => h.backed.present r hrmem _ (by rw [Extent.mem_iff]; omega)
  refine .bind (R := fun _ t₂ => t₂ = { t with rest := { t.rest with phys := s, paging := q } })
    (Runs.onPaging (R := fun _ q' => q' = q) ?_ fun _ _ hq => by rw [hq]) ?_
  · change Ends E _ (mapPages p (W.extent r).base n kernelPageFlags t.rest.paging)
    rw [hrun]
    exact rfl
  rintro - t₂ rfl
  subst hlen
  exact .pure ⟨k, _, h.mappedOut hr hother hk hone htaken hm⟩

end Atros
