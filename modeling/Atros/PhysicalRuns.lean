import Atros.PhysicalBoot
import Atros.PhysicalAlloc

namespace Atros
set_option autoImplicit true

variable {s s' : Phys} {free live : List Block}

/-- The head of a used ring and its predecessor are not among the pages in `P`. -/
def Phys.UsedRingOff (s : Phys) (P : Nat → Prop) (i : Nat) : Prop :=
  ∀ a, s.usedClists i = some a → ¬P a ∧ ∀ q, s.links.prev a = some q → ¬P q

/-- The used rings that an allocation pushes onto, up to the first order with a free block, are
off the pages in `P`. -/
def Phys.ServesOff (s : Phys) (P : Nat → Prop) (order : Nat) : Prop :=
  ∀ i, order ≤ i → (∀ j, order ≤ j → j < i → s.freeClists j = none) → s.UsedRingOff P i

/-- A block has been taken from the free ones. -/
structure Phys.Served (s s' : Phys) (free live : List Block) (order x : Nat)
    (free' : List Block) : Prop where
  partition : s'.Partition free' (⟨x, order⟩ :: live)
  within : ∀ y, InFree free' y → InFree free y
  taken : ∀ y ∈ (Block.mk x order).pages, InFree free y
  used : ∀ i < order, s'.usedClists i = s.usedClists i
  prev : ∀ y, ¬InFree free y →
    s'.links.prev y = s.links.prev y ∨ s'.links.prev y = some x

theorem alloc_pop (h : s.Partition free live) (hsafe : s.UsedRingOff (InFree free) order)
    (hhead : s.freeClists order = some a) :
    Ends (fun _ => True) (fun r s' => ∃ x free', r = some x ∧
      Phys.Served s s' free live order x free') ((do
        let toReturn ← clistPopHead (freePpagesBlocksClist order) prevOf nextOf
        clistPushTail (usedPpagesBlocksClist order) prevOf nextOf toReturn
        ppageSetUsed toReturn
        return some toReturn : Prog Panic Phys (Option Nat)) s) := by
  have hring : s.links.Ring (s.freeClists order) (headsOf order free) :=
    h.rings.ring .free order rfl
  rw [hhead] at hring
  obtain ⟨xs, hk⟩ := hring.eq_cons
  obtain ⟨s₁, as, bs, hpop, hfree, hpart, honly, hsame⟩ := h.pop hk
  subst hfree
  refine Ends.step hpop ?_
  have ha : ⟨a, order⟩ ∈ as ++ ⟨a, order⟩ :: bs := List.mem_append_right _ List.mem_cons_self
  have hwithin : ∀ y, InFree (as ++ bs) y → InFree (as ++ ⟨a, order⟩ :: bs) y := by
    rintro y ⟨b, hb, hy⟩
    exact ⟨b, List.perm_middle.mem_iff.mpr (List.mem_cons_of_mem _ hb), hy⟩
  have hsafe₁ : s₁.UsedRingOff (InFree (as ++ bs)) order := by
    intro c hc
    rw [honly.usedClists_of_free] at hc
    obtain ⟨hnc, hnq⟩ := hsafe c hc
    refine ⟨fun hin => hnc (hwithin c hin), fun q hq hin => hnq q ?_ (hwithin q hin)⟩
    rw [← hq]
    exact (hsame c fun hc => hnc hc.inFree).2.symm
  refine Ends.bind (Ends.of_ok fun _ s₂ hrun => hpart.push_used
    (hpart.live_not_free List.mem_cons_self (Block.ppn_mem ⟨a, order⟩)) hsafe₁ hrun) ?_
  rintro - s₂ ⟨hpart₂, honly₂, hprev⟩
  have hcount := s₂.sameRings_count a 1
  refine ⟨a, as ++ bs, rfl, hpart₂.same hcount, hwithin, fun y hy => ⟨_, ha, hy⟩, ?_, ?_⟩
  · intro i hi
    rw [hcount.usedClists, honly₂.usedClists_of_ne (Nat.ne_of_lt hi), honly.usedClists_of_free]
  · intro y hy
    have hya : y ≠ a := fun heq => hy (heq ▸ InFree.head ha)
    rw [(hcount.pointers y).2, ← (hsame y fun hc => hy hc.inFree).2]
    exact hprev y hya

theorem alloc_split {s₁ : Phys} (hsafe : s.UsedRingOff (InFree free) order)
    (horder : order < maxPpageBlockOrder)
    (h : Phys.Served s s₁ free live (order + 1) x free₁) :
    Ends (fun _ => True) (fun r s' => ∃ y free', r = some y ∧
      Phys.Served s s' free live order y free') ((do
        let upperPart ← ppnToPpage (add32 (ppageToPpn x) (1 <<< order))
        (blockHeadOf upperPart).write true
        (blockOrderOf upperPart).write order
        ppageSetFree upperPart
        clistPushTail (freePpagesBlocksClist order) prevOf nextOf upperPart
        (blockOrderOf x).write (((← (blockOrderOf x).read) + 255) % 256)
        clistPushTail (usedPpagesBlocksClist order) prevOf nextOf x
        return some x : Prog Panic Phys (Option Nat)) s₁) := by
  have hpow : 2 ^ (order + 1) = 2 ^ order + 2 ^ order := by
    rw [Nat.pow_succ]
    omega
  have hpos := Nat.two_pow_pos order
  have hmem : ⟨x, order + 1⟩ ∈ free₁ ++ ⟨x, order + 1⟩ :: live :=
    List.mem_append_right _ List.mem_cons_self
  have hfirst := h.partition.blocks.first_le _ hmem
  have hlast := h.partition.blocks.le_last _ hmem
  have hlt := h.partition.blocks.last_lt
  simp only at hfirst hlast
  rw [ppageToPpn, Nat.one_shiftLeft, add32_of_lt (by omega)]
  refine Ends.step (ppnToPpage_ok (by omega) (by omega)) ?_
  simp only [ppageSetFree, bind_write]
  have hsame₂ := ((s₁.sameRings_blockHead (x + 2 ^ order) true).trans
    (Phys.sameRings_blockOrder _ (x + 2 ^ order) order)).trans
    (Phys.sameRings_count _ (x + 2 ^ order) 0)
  obtain ⟨s₃, hpush, hpart₃, honly₃, hout₃⟩ := (h.partition.halve.same hsame₂).push horder
  refine Ends.step hpush ?_
  rw [bind_read, bind_write]
  have hsame₄ := s₃.sameRings_blockOrder x (((blockOrderOf x).get s₃ + 255) % 256)
  generalize (blockOrderOf x).set (((blockOrderOf x).get s₃ + 255) % 256) s₃ = s₄ at hsame₄ ⊢
  have hpart₄ := hpart₃.same hsame₄
  have hupper : InFree free (x + 2 ^ order) :=
    h.taken _ (by rw [Block.mem_pages_mk]; omega)
  have hx : InFree free x := h.taken _ (Block.ppn_mem ⟨x, order + 1⟩)
  have hwithin : ∀ y, InFree (free₁ ++ [⟨x + 2 ^ order, order⟩]) y → InFree free y := by
    rintro y ⟨b, hb, hy⟩
    rcases List.mem_append.mp hb with hb | hb
    · exact h.within y ⟨b, hb, hy⟩
    · rw [List.mem_singleton.mp hb, Block.mem_pages_mk] at hy
      exact h.taken y (by rw [Block.mem_pages_mk]; omega)
  have hxout : ¬InFree (free₁ ++ [⟨x + 2 ^ order, order⟩]) x :=
    hpart₄.live_not_free List.mem_cons_self (Block.ppn_mem ⟨x, order⟩)
  -- a page off the free ones has kept its predecessor, or has got `x` as one
  have hprev₄ : ∀ y, ¬InFree free y → s₄.links.prev y = s₁.links.prev y := by
    intro y hy
    have hy₁ : ¬InFree free₁ y := fun hin => hy (h.within y hin)
    have hyu : y ≠ x + 2 ^ order := fun heq => hy (heq ▸ hupper)
    rw [(hsame₄.pointers y).2, (hout₃ y (fun hc => hy₁ hc.inFree) hyu).2, (hsame₂.pointers y).2]
  have hused₄ : ∀ i, s₄.usedClists i = s₁.usedClists i := by
    intro i
    rw [hsame₄.usedClists, honly₃.usedClists_of_free, hsame₂.usedClists]
  have hsafe₄ : s₄.UsedRingOff (InFree (free₁ ++ [⟨x + 2 ^ order, order⟩])) order := by
    intro a ha
    rw [hused₄, h.used order (Nat.lt_succ_self order)] at ha
    obtain ⟨hna, hnq⟩ := hsafe a ha
    refine ⟨fun hin => hna (hwithin a hin), fun q hq => ?_⟩
    have hq₁ := (hprev₄ a hna).symm.trans hq
    rcases h.prev a hna with heq | heq
    · rw [heq] at hq₁
      exact fun hin => hnq q hq₁ (hwithin q hin)
    · rw [heq] at hq₁
      cases hq₁
      exact hxout
  refine Ends.bind (Ends.of_ok fun _ s₅ hrun => hpart₄.push_used hxout hsafe₄ hrun) ?_
  rintro - s₅ ⟨hpart₅, honly₅, hprev₅⟩
  refine ⟨x, _, rfl, hpart₅, hwithin, ?_, ?_, ?_⟩
  · intro y hy
    refine h.taken y ?_
    rw [Block.mem_pages_mk] at *
    omega
  · intro i hi
    rw [honly₅.usedClists_of_ne (Nat.ne_of_lt hi), hused₄, h.used i (by omega)]
  · intro y hy
    have hyx : y ≠ x := fun heq => hy (heq ▸ hx)
    rcases hprev₅ y hyx with heq | heq
    · rw [heq, hprev₄ y hy]
      exact h.prev y hy
    · exact .inr heq

/-- `_ppage_block_alloc` takes a block from the free ones, as long as its used rings are off
the free pages. -/
theorem ppageBlockAllocFrom_served (h : s.Partition free live)
    (hr : order + rounds = maxPpageBlockOrder) (hsafe : s.ServesOff (InFree free) order) :
    Ends (fun _ => True) (fun r s' => ∃ x free', r = some x ∧
      Phys.Served s s' free live order x free') (ppageBlockAllocFrom rounds order s) := by
  induction rounds generalizing order with
  | zero => trivial
  | succ rounds ih =>
    have horder : order < maxPpageBlockOrder := by omega
    have hhere : s.UsedRingOff (InFree free) order :=
      hsafe order (le_refl order) fun j h₁ h₂ => by omega
    rw [ppageBlockAllocFrom]
    refine Ends.step (check_ok horder) ?_
    rw [bind_read]
    cases hhead : (freePpagesBlocksClist order).get s with
    | none =>
      rw [if_pos rfl]
      have hnext : s.ServesOff (InFree free) (order + 1) := by
        intro i hi hempty
        refine hsafe i (by omega) fun j h₁ h₂ => ?_
        rcases Nat.eq_or_lt_of_le h₁ with rfl | h₁
        · exact hhead
        · exact hempty j h₁ h₂
      refine Ends.bind (ih (by omega) hnext) ?_
      rintro r s₁ ⟨x, free₁, rfl, hserved⟩
      exact alloc_split hhere horder hserved
    | some a =>
      rw [if_neg (fun hc => nomatch hc)]
      exact alloc_pop h hhere hhead

theorem ppageBlockAlloc_served (h : s.Partition free live)
    (hsafe : s.ServesOff (InFree free) order) :
    Ends (fun _ => True) (fun x s' => order < maxPpageBlockOrder ∧ ∃ free',
      Phys.Served s s' free live order x free') (ppageBlockAlloc order s) := by
  unfold ppageBlockAlloc
  rcases Nat.lt_or_ge order maxPpageBlockOrder with horder | horder
  · refine Ends.bind (ppageBlockAllocFrom_served h (Nat.add_sub_of_le horder.le) hsafe) ?_
    rintro r s' ⟨x, free', rfl, hserved⟩
    exact ⟨horder, free', hserved⟩
  · rw [ppageBlockAlloc_, Nat.sub_eq_zero_of_le horder]
    trivial

/-! ### Freeing without a merge -/

/-- The test of the merging loop in the state in which the block `p` is being freed. -/
def Phys.Merges (s : Phys) (p order : Nat) : Prop :=
  order < maxPpageBlockOrder - 1 ∧
    ((s.dscrs (findBuddy p order)).count = 0 ∨ findBuddy p order = p) ∧
    (s.dscrs (findBuddy p order)).blockHead = true ∧
    (s.dscrs (findBuddy p order)).blockOrder = order

/-- The neighbours of the block on its used ring are not among the pages in `P`. -/
def Phys.NeighboursOff (s : Phys) (P : Nat → Prop) (p : Nat) : Prop :=
  (∀ q, s.links.prev p = some q → ¬P q) ∧ ∀ q, s.links.next p = some q → ¬P q

theorem setCount_blockHead (s : Phys) (p v x : Nat) :
    (((countOf p).set v s).dscrs x).blockHead = (s.dscrs x).blockHead := by
  simp only [countOf, Phys.dscrs_setDscr]
  split
  · rw [‹x = p›]
  · rfl

theorem setCount_blockOrder (s : Phys) (p v x : Nat) :
    (((countOf p).set v s).dscrs x).blockOrder = (s.dscrs x).blockOrder := by
  simp only [countOf, Phys.dscrs_setDscr]
  split
  · rw [‹x = p›]
  · rfl

theorem setCount_count (s : Phys) (hx : x ≠ p) (v : Nat) :
    (((countOf p).set v s).dscrs x).count = (s.dscrs x).count := by
  simp only [countOf, Phys.dscrs_setDscr]
  rw [if_neg hx]

theorem isFreeBuddy_false (h : ¬((s.dscrs b).count = 0 ∧ (s.dscrs b).blockHead = true ∧
    (s.dscrs b).blockOrder = order)) : isFreeBuddy b order s = .ok (false, s) := by
  unfold isFreeBuddy ppageIsFree
  refine congrArg (fun v => Except.ok (v, s)) (decide_eq_false ?_)
  rintro ⟨hc, hh, ho⟩
  exact h ⟨of_decide_eq_true hc, hh, ho⟩

theorem ppnToPpage_range (p : Nat) (s : Phys) :
    Ends (fun _ => ¬(s.firstPpn ≤ p ∧ p ≤ s.lastPpn))
      (fun r t => r = p ∧ t = s ∧ s.firstPpn ≤ p ∧ p ≤ s.lastPpn) (ppnToPpage p s) := by
  unfold ppnToPpage
  rw [bind_get]
  refine Ends.bindCheck (fun hno hin => hno hin.1) fun hfirst => ?_
  refine Ends.bindCheck (fun hno hin => hno hin.2) fun hlast => ?_
  exact ⟨rfl, rfl, hfirst, hlast⟩

theorem ppnToPpage_same (p : Nat) (s : Phys) :
    Ends (fun _ => True) (fun r t => r = p ∧ t = s) (ppnToPpage p s) :=
  (ppnToPpage_range p s).mono (fun _ _ => trivial) fun _ _ h => ⟨h.1, h.2.1⟩

/-- The merging loop ends when its test fails, unless the page it has found is out of range. -/
theorem mergeLoop_stop (horder : (s.dscrs p).blockOrder = order)
    (hfail : rounds ≠ 0 → ¬((s.dscrs (findBuddy p order)).count = 0 ∧
      (s.dscrs (findBuddy p order)).blockHead = true ∧
      (s.dscrs (findBuddy p order)).blockOrder = order)) :
    Ends (fun _ => rounds ≠ 0 ∧
        ¬(s.firstPpn ≤ findBuddy p order ∧ findBuddy p order ≤ s.lastPpn))
      (fun r t => r = (p, order) ∧ t = s ∧
        (rounds ≠ 0 → s.firstPpn ≤ findBuddy p order ∧ findBuddy p order ≤ s.lastPpn))
      (mergeLoop rounds p order s) := by
  cases rounds with
  | zero => exact ⟨rfl, rfl, fun hne => absurd rfl hne⟩
  | succ rounds =>
    rw [mergeLoop, bind_read, show (blockOrderOf p).get s = order from horder, ppageToPpn]
    refine Ends.bind ((ppnToPpage_range _ s).mono (fun _ hno => ⟨Nat.succ_ne_zero _, hno⟩)
      fun _ _ h => h) ?_
    intro r t hrange
    obtain ⟨hr, ht, hin⟩ := hrange
    rw [hr, ht]
    refine Ends.step (isFreeBuddy_false (hfail (Nat.succ_ne_zero _))) ?_
    exact ⟨rfl, rfl, fun _ => hin⟩

theorem mergeLoop_stops (hmerge : ¬Phys.Merges s p order)
    (hinfo : ∀ x, (s'.dscrs x).unlinked = (s.dscrs x).unlinked)
    (hp : (s.dscrs p).blockOrder = order) :
    Ends (fun _ => maxPpageBlockOrder - 1 - order ≠ 0 ∧
        ¬(s'.firstPpn ≤ findBuddy p order ∧ findBuddy p order ≤ s'.lastPpn))
      (fun r t => r = (p, order) ∧ t = (countOf p).set 0 s' ∧
        (maxPpageBlockOrder - 1 - order ≠ 0 →
          s'.firstPpn ≤ findBuddy p order ∧ findBuddy p order ≤ s'.lastPpn))
      (mergeLoop (maxPpageBlockOrder - 1 - order) p order ((countOf p).set 0 s')) := by
  have hblockHead : ∀ x, (s'.dscrs x).blockHead = (s.dscrs x).blockHead := by
    intro x
    have := congrArg Ppage.blockHead (hinfo x)
    exact this
  have hblockOrder : ∀ x, (s'.dscrs x).blockOrder = (s.dscrs x).blockOrder := by
    intro x
    have := congrArg Ppage.blockOrder (hinfo x)
    exact this
  have hcount : ∀ x, (s'.dscrs x).count = (s.dscrs x).count := by
    intro x
    have := congrArg Ppage.count (hinfo x)
    exact this
  refine mergeLoop_stop ?_ fun hrounds => ?_
  · rw [setCount_blockOrder, hblockOrder, hp]
  · rw [setCount_blockHead, setCount_blockOrder, hblockHead, hblockOrder]
    rintro ⟨hfree, hhead, heq⟩
    refine hmerge ⟨by omega, ?_, hhead, heq⟩
    by_cases hself : findBuddy p order = p
    · exact .inr hself
    · rw [setCount_count s' hself, hcount] at hfree
      exact .inl hfree

end Atros
