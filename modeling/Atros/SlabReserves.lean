import Atros.SlabRecords
import Atros.StaleRegion

namespace Atros
set_option autoImplicit true

variable {W : World} {t : View} {k k' : Kernel} {s : Session} {free : List Block}

/-! ### The reserves of slabs and of regions -/

/-- A cache is not created for objects of no size. -/
def SlabCall.Sized : SlabCall → Prop
  | objsCacheCreate _ objSize _ => 1 ≤ objSize
  | _ => True

/-- The pages of the slab that a call may make for its cache, in memory. -/
def SlabCall.pagesIn (k : Kernel) : SlabCall → Nat
  | objsCacheCreate _ _ _ => 1
  | objsCacheAlloc cache => k.wordOf .pagesPerSlab cache
  | vregionAlloc _ => 0

/-- There are pages for eleven slabs of the reserves, more than any call makes, and then for one of
`m` pages: virtual pages in one free region, and physical ones, for a slab of more pages than one in
a dozen blocks of which each is large enough. -/
structure Kernel.Room (k : Kernel) (m : Nat) : Prop where
  region : ∃ r, k.OnFree r ∧ m + 11 ≤ k.wordOf .nbrPages r
  pages : ∃ xs : List Nat, xs.Nodup ∧ 12 ≤ xs.length ∧ ∀ x ∈ xs, k.phys.FreePage x
  blocks : 2 ≤ m → m ≤ 512 ∧ ∃ bs : List Block, bs.Nodup ∧ 12 ≤ bs.length ∧ ∀ b ∈ bs,
    enoughOrder m maxPpageBlockOrder 0 ≤ b.order ∧
      k.phys.links.Reach (k.phys.freeClists b.order) b.ppn

/-- The call returns with two objects in each reserve, or it finds that there are no more pages,
and this only when there was not room for it: no other check fails, and no loop and no recursion is
endless. -/
def Kernel.Completes (k : Kernel) (depth : Nat) (call : SlabCall) : Prop :=
  Ends (fun e => Exhausted e ∧ ¬k.Room (call.pagesIn k)) (fun _ k' => k'.Reserves 2)
    (call.run depth k)

theorem World.Sound.spare (h : W.Sound t) (hk : Shows k t) (hroom : k.Room m) : W.Spare m 11 := by
  obtain ⟨⟨r, hr, hlen⟩, ⟨xs, hnodup, hlong, hfree⟩, hblocks⟩ := hroom
  have hpartition := h.backed.phys.sound.partition
  rw [hk.phys] at hfree hblocks
  have hpages : HasPages W.freeBlocks 12 :=
    ⟨xs, hnodup, hlong, fun x hx => hpartition.freePage_iff.mp (hfree x hx)⟩
  refine ⟨.inr ⟨r, (h.regions.onFree_iff hk).mp hr, ?_⟩, hpages.le (by decide), ?_⟩
  · have hmem := (h.regions.onFree_iff hk).mp hr
    rwa [hk.wordOf .nbrPages (h.regions.free.2 r hmem),
      (h.regions.words r (List.mem_append_left _ hmem)).2] at hlen
  · obtain rfl | rfl | hm : m = 0 ∨ m = 1 ∨ 2 ≤ m := by omega
    · exact .inl rfl
    · exact .inr (.inl ⟨rfl, hpages⟩)
    · obtain ⟨hsmall, bs, hnodup, hlong, hreach⟩ := hblocks hm
      refine .inr (.inr ⟨hsmall, bs, hnodup, hlong, fun b hb => ?_⟩)
      obtain ⟨horder, hb⟩ := hreach b hb
      exact ⟨horder, hpartition.reach_iff.mp hb⟩

theorem Session.Kept.reserves (h : s.Kept W t) : s.kernel.Reserves 2 :=
  (h.ready.sound.reserves_iff h.shows).mpr ⟨h.ready.slabs, h.ready.regions⟩

theorem Session.Kept.completes (h : s.Kept W t) (hd : 5 ≤ depth) {call : SlabCall}
    (hc : call.Allowed s) (hsize : call.Sized) : s.kernel.Completes depth call := by
  have hsound := h.ready.sound
  have hpages : call.pagesIn s.kernel = call.pages W := by
    cases call with
    | objsCacheAlloc c =>
      have hcache := hsound.caches.cache c (h.created c hc).1
      exact (h.shows.wordOf .pagesPerSlab hcache.lists.cache).trans hcache.pagesPerSlab
    | objsCacheCreate => rfl
    | vregionAlloc => rfl
  have hE : W.Pages (fun e => Exhausted e ∧ ¬s.kernel.Room (call.pagesIn s.kernel))
      (call.pages W) 11 := by
    by_cases hroom : s.kernel.Room (call.pagesIn s.kernel)
    · exact .inr (hpages ▸ hsound.spare h.shows hroom)
    · exact .inl fun e he => ⟨he, hroom⟩
  refine (h.ready.call hE hd h.created hc ?_ s.kernel h.shows).imp ?_
  · rintro name pages rfl
    exact absurd hsize (Nat.not_succ_le_zero 0)
  rintro x k' ⟨t', hk', W', hcalled⟩
  exact (hcalled.kept h hk').reserves

/-- In every run from boot both reserves have their two objects, and every call is completed. -/
theorem slabRun_completes {call : SlabCall} (hk : SlabBootReady k free)
    (hspare : bootSpare k.bootVpn.firstFree k.mem = none) (hd : 5 ≤ depth)
    (hboot : objsCacheBootInit (depth + 1) k = .ok ((), k'))
    (hrun : SlabRun depth (.start k') s) (hc : call.Allowed s) (hsize : call.Sized) :
    s.kernel.Reserves 2 ∧ s.kernel.Completes depth call := by
  have hbooted := hk.booted hspare (Nat.le_trans (by decide) hd) hboot
  obtain ⟨W, t, hs⟩ := hbooted.run hd hrun
  exact ⟨hs.reserves, hs.completes hd hc hsize⟩

theorem slabRun_completes_slabKernel : ∃ k k' s, objsCacheBootInit 6 k = .ok ((), k') ∧
    SlabRun 5 (.start k') s ∧ s.given.length = 3 ∧ s.kernel.Reserves 2 ∧
    s.kernel.Completes 5 (.objsCacheCreate none 5000 2) := by
  obtain ⟨k, free, k₀, s, hready, hspare, hboot, hrun, hgiven⟩ := slabKernel_calls
  have hallowed : SlabCall.Allowed s (.objsCacheCreate none 5000 2) := ⟨by decide, by decide⟩
  have hsize : (SlabCall.objsCacheCreate none 5000 2).Sized := (by decide : 1 ≤ 5000)
  exact ⟨k, k₀, s, hboot, hrun, hgiven,
    slabRun_completes hready hspare (le_refl 5) hboot hrun hallowed hsize⟩

/-- A page of a free region, and one of a free block. -/
def Kernel.PagesLeft (k : Kernel) : Prop :=
  (∃ r, k.OnFree r ∧ 1 ≤ k.wordOf .nbrPages r) ∧ ∃ x, k.phys.FreePage x

theorem World.Backed.freePage_iff (h : W.Backed k) : k.phys.FreePage x ↔ InFree W.freeBlocks x :=
  h.phys.sound.partition.freePage_iff

section
variable {v last : Nat} {spare : Option Nat} {blocks live : List Block} {t₁ : View} {o : Nat}

theorem BootMade.onFree (h : BootMade v last spare blocks live W t₁ o t) (hk : Shows k t) :
    k.OnFree o := by
  rw [Kernel.OnFree, hk.freeVregions, h.made.rest]
  exact .here o

theorem BootMade.pagesLeft (h : BootMade v last spare blocks live W t₁ o t) (hk : Shows k t)
    (hlast : v + 3 ≤ last) (hpages : HasPages blocks 1) : k.PagesLeft := by
  refine ⟨⟨o, h.onFree hk, ?_⟩, ?_⟩
  · rw [hk.wordOf .nbrPages h.region_struct, h.made.words.2]
    simp only
    omega
  · obtain ⟨b, hb⟩ := List.exists_mem_of_ne_nil _ hpages.ne_nil
    have hphys : k.phys = t₁.rest.phys := by rw [hk.phys, h.made.rest]
    refine ⟨b.ppn, ?_⟩
    rw [hphys, h.made.sound.backed.freePage_iff, h.freeBlocks]
    exact InFree.head hb

end

/-- When the first free region leads to itself, a request for more pages than it has runs on. -/
theorem slabRun_endless : ¬∀ depth k free k' s call, SlabBootReady k free → 5 ≤ depth →
    objsCacheBootInit (depth + 1) k = .ok ((), k') → SlabRun depth (.start k') s →
      SlabCall.Allowed s call → call.Sized → s.kernel.PagesLeft →
      s.kernel.Completes depth call := by
  intro hclaim
  obtain ⟨k, free, k₀, hready, hboot, W, t₁, o, t, blocks, live, hk, hmade, hpages⟩ :=
    slabKernel_stale (w := bootPlace 303 .vregion 3) (by decide) (by decide : 2 ≤ 5)
  have hpages' : HasPages blocks 1 := hpages.le (by decide)
  have hleft := hmade.pagesLeft hk (by decide) hpages'
  have hloop : toPtr (bootPlace 303 .vregion 3) = some o := by
    rw [hmade.place]
    decide
  rw [hloop] at hmade
  have hends := hclaim 5 k free k₀ (.start k₀) (.vregionAlloc 719) hready (le_refl 5) hboot
    .refl trivial
    trivial hleft
  change Ends _ _ (vregionAlloc 5 719 k₀) at hends
  rcases hrun : vregionAlloc 5 719 k₀ with e | ⟨x, k'⟩
  · have he : e = .endless := (hmade.endless (by decide) k₀ hk).error hrun
    rw [hrun, he] at hends
    exact absurd hends (by simp [Ends, Exhausted])
  · obtain ⟨-, -, hfalse⟩ := (hmade.endless (by decide) k₀ hk).ok hrun
    exact hfalse

end Atros
