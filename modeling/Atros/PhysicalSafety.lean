import Mathlib.Data.List.Pairwise
import Atros.PhysicalRuns

namespace Atros
set_option autoImplicit true

variable {s s' : Phys} {free live : List Block}

/-- A page of a block that is reachable from a list of free blocks. -/
def Phys.FreePage (s : Phys) (x : Nat) : Prop :=
  ∃ k < maxPpageBlockOrder, ∃ b, s.links.Reach (s.freeClists k) b ∧ x ∈ (Block.mk b k).pages

theorem Phys.Partition.reach_iff (h : Phys.Partition s free live) :
    s.links.Reach (s.freeClists k) x ↔ ⟨x, k⟩ ∈ free := by
  rw [← mem_headsOf]
  exact (h.rings.ring .free k rfl).mem_iff_reach.symm

theorem Phys.Partition.freePage_iff (h : Phys.Partition s free live) :
    s.FreePage x ↔ InFree free x := by
  constructor
  · rintro ⟨k, -, b, hb, hx⟩
    exact ⟨⟨b, k⟩, h.reach_iff.mp hb, hx⟩
  · rintro ⟨b, hb, hx⟩
    exact ⟨b.order, h.order_lt b hb, b.ppn, h.reach_iff.mpr hb, hx⟩

theorem Phys.ServesOff.of_iff (h : s.ServesOff P order) (hPQ : ∀ x, Q x → P x) :
    s.ServesOff Q order := by
  intro i hi hempty a ha
  obtain ⟨hna, hnq⟩ := h i hi hempty a ha
  exact ⟨fun hq => hna (hPQ a hq), fun q hq hQ => hnq q hq (hPQ q hQ)⟩

theorem Phys.NeighboursOff.of_iff (h : s.NeighboursOff P p) (hPQ : ∀ x, Q x → P x) :
    s.NeighboursOff Q p :=
  ⟨fun q hq hQ => h.1 q hq (hPQ q hQ), fun q hq hQ => h.2 q hq (hPQ q hQ)⟩

theorem ppageBlockFree_freed (h : s.Partition free live) (hlive : ⟨p, k⟩ ∈ live)
    (hoff : s.NeighboursOff (InFree free) p) (hmerge : ¬s.Merges p k) :
    Ends (fun _ => True) (fun _ s' => s'.Partition (free ++ [⟨p, k⟩]) (live.erase ⟨p, k⟩))
      (ppageBlockFree_ p k s) := by
  unfold ppageBlockFree_
  rw [bind_read]
  refine Ends.bindCheck (fun _ => trivial) fun _ => ?_
  rw [bind_read]
  refine Ends.bindCheck (fun _ => trivial) fun horder => ?_
  rw [bind_read]
  refine Ends.bindCheck (fun _ => trivial) fun hlt => ?_
  rw [horder] at hlt
  rw [bind_read]
  refine Ends.bindCheck (fun _ => trivial) fun _ => ?_
  rw [bind_read]
  refine Ends.bindCheck (fun _ => trivial) fun _ => ?_
  rw [bind_read]
  refine Ends.bindCheck (fun _ => trivial) fun _ => ?_
  have hp : ¬InFree free p := h.live_not_free hlive (Block.ppn_mem ⟨p, k⟩)
  -- unlinking stores to the block and to its neighbours only
  have hunlink : Ends (fun _ => True) (fun _ t => t.Partition free live ∧
      ∀ x, (t.dscrs x).unlinked = (s.dscrs x).unlinked)
      (clistDeleteEl (usedPpagesBlocksClist k) prevOf nextOf p s) := by
    refine Ends.of_ok fun _ t hrun => ?_
    obtain ⟨ht, hsame⟩ := clistDeleteEl_frame (lawful_clist .used k) hrun
    have honly := Phys.OnlyRing.of_touched ht
    refine ⟨h.transport honly.firstPpn honly.lastPpn honly.freeClists_of_used ?_, honly.info⟩
    intro b hb
    refine hsame b.ppn (fun heq => hp (heq ▸ InFree.head hb)) ?_ ?_
    · exact fun heq => hoff.1 _ heq (InFree.head hb)
    · exact fun heq => hoff.2 _ heq (InFree.head hb)
  refine Ends.bind hunlink ?_
  rintro - t ⟨hpart, hinfo⟩
  refine Ends.step (Place.write_ok (countOf p) 0 t) ?_
  refine Ends.bind ((mergeLoop_stops hmerge hinfo horder).mono (fun _ _ => trivial)
    fun _ _ h => h) ?_
  rintro _ _ ⟨rfl, rfl, -⟩
  have hfreed := (hpart.same (t.sameRings_count p 0)).perm (List.perm_cons_erase hlive)
  obtain ⟨s', hpush, hpart', -, -⟩ := hfreed.push hlt
  change Ends _ _ (clistPushTail (freePpagesBlocksClist k) prevOf nextOf p _)
  rw [show clistPushTail (freePpagesBlocksClist k) prevOf nextOf p _ = _ from hpush]
  exact hpart'

/-! ### Runs -/

/-- The calls of the physical pages allocator. -/
inductive PpageCall
  | blockAlloc (order : Nat)
  | pagesAlloc (nbrPpages : Nat)
  | pageAlloc
  | blockFree (ppn order : Nat)
  | pageFree (ppn : Nat)
  deriving DecidableEq, Repr

/-- A call, with the list of the blocks that are allocated before and after it. -/
def PpageCall.run (live : List Block) : PpageCall → Prog Panic Phys (List Block)
  | blockAlloc order => do return ⟨← ppageBlockAlloc order, order⟩ :: live
  | pagesAlloc nbrPpages => do
    return ⟨← ppagesAlloc nbrPpages, enoughOrder nbrPpages maxPpageBlockOrder 0⟩ :: live
  | pageAlloc => do return ⟨← ppageAlloc, 0⟩ :: live
  | blockFree ppn order => do
    ppageBlockFree ppn order
    return live.erase ⟨ppn, order⟩
  | pageFree ppn => do
    ppageFree ppn
    return live.erase ⟨ppn, 0⟩

/-- Allocations of an order that exists, and frees of allocated blocks. -/
def PpageCall.Legal (live : List Block) : PpageCall → Prop
  | blockAlloc order => order < maxPpageBlockOrder
  | pagesAlloc _ => True
  | pageAlloc => True
  | blockFree ppn order => ⟨ppn, order⟩ ∈ live
  | pageFree ppn => ⟨ppn, 0⟩ ∈ live

/-- The lists of used blocks that an allocation pushes onto do not lead to free pages. -/
def Phys.AllocSafe (s : Phys) (order : Nat) : Prop := s.ServesOff s.FreePage order

/-- The neighbours of a block to free are not free pages, and it does not merge. -/
def Phys.FreeSafe (s : Phys) (ppn order : Nat) : Prop :=
  s.NeighboursOff s.FreePage ppn ∧ ¬s.Merges ppn order

def PpageCall.Safe (s : Phys) : PpageCall → Prop
  | blockAlloc order => s.AllocSafe order
  | pagesAlloc nbrPpages => s.AllocSafe (enoughOrder nbrPpages maxPpageBlockOrder 0)
  | pageAlloc => s.AllocSafe 0
  | blockFree ppn order => s.FreeSafe ppn order
  | pageFree ppn => s.FreeSafe ppn 0

/-- The states and allocated blocks that legal calls lead to, each call meeting `ok`. -/
inductive PpageRun (ok : Phys → PpageCall → Prop) (s₀ : Phys) : Phys → List Block → Prop
  | start : PpageRun ok s₀ s₀ []
  | call (c : PpageCall) {s s' : Phys} {live live' : List Block} : PpageRun ok s₀ s live →
    c.Legal live → ok s c →
      c.run live s = .ok (live', s') → PpageRun ok s₀ s' live'

/-- No two allocated blocks meet, and none has a free page. -/
def Phys.Isolated (s : Phys) (live : List Block) : Prop :=
  (live.Pairwise fun b c => b.pages.Apart c.pages) ∧ ∀ b ∈ live, ∀ x ∈ b.pages, ¬s.FreePage x

theorem Phys.Partition.isolated (h : Phys.Partition s free live) : s.Isolated live := by
  refine ⟨(List.pairwise_append.mp h.blocks.apart).2.1, fun b hb x hx => ?_⟩
  rw [h.freePage_iff]
  exact h.live_not_free hb hx

theorem ppageBlockAlloc_partition (h : s.Partition free live) (hsafe : s.AllocSafe order) :
    Ends (fun _ => True) (fun x s' => ∃ free', s'.Partition free' (⟨x, order⟩ :: live))
      (ppageBlockAlloc order s) := by
  refine (ppageBlockAlloc_served h (hsafe.of_iff fun x => h.freePage_iff.mpr)).imp ?_
  rintro x s' ⟨-, free', hserved⟩
  exact ⟨free', hserved.partition⟩

theorem ppageBlockFree_partition (h : s.Partition free live) (hlive : ⟨p, k⟩ ∈ live)
    (hsafe : s.FreeSafe p k) :
    Ends (fun _ => True) (fun _ s' => ∃ free', s'.Partition free' (live.erase ⟨p, k⟩))
      (ppageBlockFree_ p k s) := by
  refine (ppageBlockFree_freed h hlive
    (hsafe.1.of_iff fun x => h.freePage_iff.mpr) hsafe.2).imp ?_
  exact fun _ _ h => ⟨_, h⟩

/-- One call keeps the partition. -/
theorem PpageCall.run_partition (c : PpageCall) (h : s.Partition free live)
    (hlegal : c.Legal live) (hsafe : c.Safe s) :
    Ends (fun _ => True) (fun live' s' => ∃ free', s'.Partition free' live')
      (c.run live s) := by
  cases c with
  | blockAlloc order =>
    refine Ends.bind (ppageBlockAlloc_partition h hsafe) ?_
    exact fun x s' hpart => hpart
  | pagesAlloc nbrPpages =>
    have halloc : Ends (fun _ => True) (fun x s' => ∃ free', s'.Partition free'
        (⟨x, enoughOrder nbrPpages maxPpageBlockOrder 0⟩ :: live))
        (ppagesAlloc nbrPpages s) := by
      unfold ppagesAlloc
      refine Ends.bindCheck (fun _ => trivial) fun _ => ?_
      exact ppageBlockAlloc_partition h hsafe
    refine Ends.bind halloc ?_
    exact fun x s' hpart => hpart
  | pageAlloc =>
    refine Ends.bind (ppageBlockAlloc_partition h hsafe) ?_
    exact fun x s' hpart => hpart
  | blockFree p k =>
    have hfree : Ends (fun _ => True) (fun _ s' => ∃ free',
        s'.Partition free' (live.erase ⟨p, k⟩)) (ppageBlockFree p k s) := by
      unfold ppageBlockFree
      refine Ends.bind (ppnToPpage_same p s) ?_
      rintro _ _ ⟨rfl, rfl⟩
      exact ppageBlockFree_partition h hlegal hsafe
    refine Ends.bind hfree ?_
    exact fun _ s' hpart => hpart
  | pageFree p =>
    have hfree : Ends (fun _ => True) (fun _ s' => ∃ free',
        s'.Partition free' (live.erase ⟨p, 0⟩)) (ppageFree p s) := by
      unfold ppageFree
      refine Ends.bind (ppnToPpage_same p s) ?_
      rintro _ _ ⟨rfl, rfl⟩
      exact ppageBlockFree_partition h hlegal hsafe
    refine Ends.bind hfree ?_
    exact fun _ s' hpart => hpart

theorem PpageRun.partition (h : s₀.Partition free₀ [])
    (hrun : PpageRun (fun s c => c.Safe s) s₀ s live) : ∃ free, s.Partition free live := by
  induction hrun with
  | start => exact ⟨free₀, h⟩
  | call c _ hlegal hsafe hcall ih =>
    obtain ⟨free, hpart⟩ := ih
    exact (c.run_partition hpart hlegal hsafe).ok hcall

theorem Phys.Starts.partition (h : Phys.Starts s lastPpage F) (hl : lastPpage < 2 ^ 20) :
    s.Partition (F .free) [] := by
  have hall : ∀ b ∈ F .free, b ∈ F .free ++ F .used := fun b hb => List.mem_append_left _ hb
  refine ⟨⟨?_, ?_⟩, h.order_lt .free, ⟨?_, ?_, ?_, ?_⟩⟩
  · rintro st k rfl
    exact h.freeRing k
  · rintro st k st' k' x rfl rfl hx hx'
    rw [mem_headsOf] at hx hx'
    refine ⟨rfl, ?_⟩
    by_contra hne
    refine Extent.apart_of_pairwise (List.pairwise_append.mp h.apart).1 hx hx' ?_ x
      (Block.ppn_mem ⟨x, k⟩) (Block.ppn_mem ⟨x, k'⟩)
    exact fun heq => hne (congrArg Block.order heq)
  · rw [List.append_nil]
    exact (List.pairwise_append.mp h.apart).1
  · rw [h.firstPpn]
    exact fun _ _ => Nat.zero_le _
  · intro b hb
    rw [List.append_nil] at hb
    have hpos := Nat.two_pow_pos b.order
    have hmem : b.ppn + 2 ^ b.order - 1 ∈ b.pages := by
      rw [Block.mem_pages]
      omega
    have hle := (h.tile _).mpr ⟨b, hall b hb, hmem⟩
    rw [h.lastPpn]
    omega
  · rw [h.lastPpn]
    omega

/-- As long as no call is unsafe, allocated blocks do not meet and have no free page. -/
theorem ppageRun_isolated (k : Kernel) (bootPaStart kernelPaEnd lastPpage : Nat)
    (h : PhysBootReady k bootPaStart kernelPaEnd lastPpage)
    (hboot : physicalPageBootInit bootPaStart kernelPaEnd 0 lastPpage k = .ok ((), k'))
    (hrun : PpageRun (fun s c => c.Safe s) k'.phys s live) : s.Isolated live := by
  obtain ⟨F, hover⟩ := h.handover hboot
  obtain ⟨free, hpart⟩ := hrun.partition (hover.starts.partition h.last_lt)
  exact hpart.isolated

/-- The free blocks are alone on their lists and begin at `lo` or behind it, the used ones that an
allocation pushes next to before it. -/
def Phys.FreeFrom (s : Phys) (lo : Nat) : Prop :=
  ∀ k < maxPpageBlockOrder,
    (∀ b ∈ s.freeClists k, lo ≤ b ∧ s.links.next b = some b ∧ s.links.prev b = some b) ∧
    ∀ a ∈ s.usedClists k, a < lo ∧ ∀ q ∈ s.links.prev a, q < lo

instance (s : Phys) (lo : Nat) : Decidable (s.FreeFrom lo) :=
  inferInstanceAs (Decidable (∀ _ < _, _))

theorem Phys.FreeFrom.freePage (h : s.FreeFrom lo) (hx : s.FreePage x) : lo ≤ x := by
  obtain ⟨k, hk, b, hb, hxb⟩ := hx
  have hself : ∀ b, s.links.Reach (s.freeClists k) b →
      lo ≤ b ∧ s.links.next b = some b ∧ s.links.prev b = some b := by
    intro b hb
    induction hb with
    | head hhead => exact (h k hk).1 _ hhead
    | next _ hnext ih =>
      obtain rfl := Option.some.inj (ih.2.1.symm.trans hnext)
      exact ih
    | prev _ hprev ih =>
      obtain rfl := Option.some.inj (ih.2.2.symm.trans hprev)
      exact ih
  exact (hself b hb).1.trans (Block.mem_pages_mk.mp hxb).1

theorem Phys.FreeFrom.allocSafe (h : s.FreeFrom lo) (hj : order ≤ j) (hlt : j < maxPpageBlockOrder)
    (hsome : s.freeClists j ≠ none) : s.AllocSafe order := by
  intro i hi hempty a ha
  have hij : i ≤ j := by
    by_contra hlt'
    exact hsome (hempty j hj (by omega))
  obtain ⟨halo, hprev⟩ := (h i (by omega)).2 a ha
  refine ⟨fun hfree => ?_, fun q hq hfree => ?_⟩
  · exact absurd (h.freePage hfree) (Nat.not_le.mpr halo)
  · exact absurd (h.freePage hfree) (Nat.not_le.mpr (hprev q hq))

theorem safe_eval : Ends (fun _ => False)
    (fun (r : (Phys × List Block) × Phys × List Block) s₂ =>
      (r.1.1.FreeFrom 260 ∧ r.1.1.freeClists 2 = some 260) ∧ r.1.2 = [⟨260, 0⟩] ∧
      (r.2.1.FreeFrom 261 ∧ r.2.1.freeClists 1 = some 262) ∧ r.2.2 = [⟨262, 1⟩, ⟨260, 0⟩] ∧
      s₂.phys.freeClists 0 = some 261)
    (physBootThen 0x100000 0x102000 263 (do
      let s₀ ← get
      let live₁ ← (PpageCall.blockAlloc 0).run []
      let s₁ ← get
      return ((s₀, live₁), s₁, ← (PpageCall.blockAlloc 1).run live₁)) smallKernel) := by
  decide +kernel

/-- Two blocks have been allocated, and a page is free. -/
theorem ppageRun_isolated_small : ∃ k' s, physicalPageBootInit 0x100000 0x102000 0 263 smallKernel =
      .ok ((), k') ∧ PpageRun (fun s c => c.Safe s) k'.phys s [⟨262, 1⟩, ⟨260, 0⟩] ∧
    s.FreePage 261 ∧ s.Isolated [⟨262, 1⟩, ⟨260, 0⟩] := by
  obtain ⟨k', ⟨⟨s₀, live₁⟩, s₁, live₂⟩, k'', hboot, hrun, ⟨hfrom₀, hsome₀⟩, hlive₁,
    ⟨hfrom₁, hsome₁⟩, hlive₂, hfree⟩ := of_physBootThen safe_eval
  rw [bind_get] at hrun
  obtain ⟨_, s, hcall₁, hrun⟩ := of_bind_ok hrun
  rw [bind_get] at hrun
  obtain ⟨_, _, hcall₂, heq⟩ := of_bind_ok hrun
  cases heq
  simp only at hlive₁ hlive₂ hsome₀ hsome₁ hfrom₀ hfrom₁
  subst hlive₁ hlive₂
  have hcall : PpageRun (fun s c => c.Safe s) k'.phys s₁ [⟨260, 0⟩] :=
    .call (.blockAlloc 0) .start (show 0 < maxPpageBlockOrder by decide)
      (hfrom₀.allocSafe (Nat.zero_le 2) (by decide) (hsome₀ ▸ Option.some_ne_none _)) hcall₁
  have hcalls : PpageRun (fun s c => c.Safe s) k'.phys k''.phys [⟨262, 1⟩, ⟨260, 0⟩] :=
    hcall.call (.blockAlloc 1) (show 1 < maxPpageBlockOrder by decide)
      (hfrom₁.allocSafe (le_refl 1) (by decide) (hsome₁ ▸ Option.some_ne_none _)) hcall₂
  exact ⟨k', k''.phys, hboot, hcalls, ⟨0, by decide, 261, .head hfree, Block.ppn_mem ⟨261, 0⟩⟩,
    ppageRun_isolated smallKernel _ _ _ smallKernel_ready hboot hcalls⟩

theorem overlap_eval : Ends (fun _ => False) (fun (r : List Block × List Block) k =>
    r.1 = [⟨260, 0⟩] ∧ r.2 = [⟨262, 1⟩] ∧ k.phys.freeClists 0 = some 261 ∧
      k.phys.links.next 261 = some 260 ∧ k.phys.links.next 260 = some 262)
    (physBootThen 0x100000 0x102000 263 (do
      let live₁ ← (PpageCall.blockAlloc 0).run []
      let live₂ ← (PpageCall.blockFree 260 0).run live₁
      return (live₁, ← (PpageCall.blockAlloc 1).run live₂)) smallKernel) := by
  decide +kernel

/-- Block 260 is freed while the list of used blocks of order 1 still leads to it. The next
block of that order is linked behind it, and with it behind the free page. -/
theorem ppageRun_overlaps : ¬∀ (k k' : Kernel) (bootPaStart kernelPaEnd lastPpage : Nat)
    (s : Phys) (live : List Block), PhysBootReady k bootPaStart kernelPaEnd lastPpage →
      physicalPageBootInit bootPaStart kernelPaEnd 0 lastPpage k = .ok ((), k') →
      PpageRun (fun _ _ => True) k'.phys s live → s.Isolated live := by
  intro hclaim
  obtain ⟨k', ⟨live₁, live₃⟩, k₃, hboot, hrun₀, hlive₁, hlive₃, hhead, hnext, hnext'⟩ :=
    of_physBootThen overlap_eval
  obtain ⟨_, s₁, hcall₁, hrun₁⟩ := of_bind_ok hrun₀
  obtain ⟨live₂, s₂, hcall₂, hrun₂⟩ := of_bind_ok hrun₁
  obtain ⟨_, _, hcall₃, heq⟩ := of_bind_ok hrun₂
  cases heq
  simp only at hlive₁ hlive₃
  subst hlive₁ hlive₃
  have halloc : PpageRun (fun _ _ => True) k'.phys s₁ [⟨260, 0⟩] :=
    .call (.blockAlloc 0) .start (show 0 < maxPpageBlockOrder by decide) trivial hcall₁
  have hfree : PpageRun (fun _ _ => True) k'.phys s₂ live₂ :=
    halloc.call (.blockFree 260 0) (List.mem_singleton_self _) trivial hcall₂
  have hcalls : PpageRun (fun _ _ => True) k'.phys k₃.phys [⟨262, 1⟩] :=
    hfree.call (.blockAlloc 1) (show 1 < maxPpageBlockOrder by decide) trivial hcall₃
  obtain ⟨-, hoff⟩ := hclaim smallKernel k' _ _ _ _ _ smallKernel_ready hboot hcalls
  refine hoff ⟨262, 1⟩ (List.mem_singleton_self _) 262 (Block.ppn_mem ⟨262, 1⟩) ?_
  exact ⟨0, by decide, 262, .next (.next (.head hhead) hnext) hnext', Block.ppn_mem ⟨262, 0⟩⟩

end Atros
