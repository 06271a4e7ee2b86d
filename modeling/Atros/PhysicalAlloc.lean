import Atros.PhysicalRange

namespace Atros
set_option autoImplicit true

variable {s s' : Phys} {free live : List Block}

def freeOnly (st : PpageStatus) : Prop := st = .free

/-- The blocks `bs` lie in the managed range and do not meet. -/
structure Phys.Blocks (s : Phys) (bs : List Block) : Prop where
  apart : bs.Pairwise fun b c => b.pages.Apart c.pages
  first_le : ∀ b ∈ bs, s.firstPpn ≤ b.ppn
  le_last : ∀ b ∈ bs, b.ppn + 2 ^ b.order ≤ s.lastPpn + 1
  last_lt : s.lastPpn + 1 < 2 ^ 32

theorem Phys.Blocks.perm (h : Phys.Blocks s bs) (hp : bs.Perm cs) : s.Blocks cs where
  apart := (List.Perm.pairwise_iff (fun hab => Extent.Apart.symm hab) hp).mp h.apart
  first_le b hb := h.first_le b (hp.mem_iff.mpr hb)
  le_last b hb := h.le_last b (hp.mem_iff.mpr hb)
  last_lt := h.last_lt

theorem Phys.Blocks.same (h : Phys.Blocks s bs) (hf : s'.firstPpn = s.firstPpn)
    (hl : s'.lastPpn = s.lastPpn) : s'.Blocks bs where
  apart := h.apart
  first_le b hb := by
    rw [hf]
    exact h.first_le b hb
  le_last b hb := by
    rw [hl]
    exact h.le_last b hb
  last_lt := by
    rw [hl]
    exact h.last_lt

theorem Phys.Blocks.halve (h : Phys.Blocks s (⟨x, k + 1⟩ :: bs)) :
    s.Blocks (⟨x + 2 ^ k, k⟩ :: ⟨x, k⟩ :: bs) := by
  have hpow : 2 ^ (k + 1) = 2 ^ k + 2 ^ k := by
    rw [Nat.pow_succ]
    omega
  have hpos := Nat.two_pow_pos k
  have hup : (Block.mk (x + 2 ^ k) k).pages.Within (Block.mk x (k + 1)).pages :=
    Extent.within_of_le (Nat.le_add_right _ _) (by simp only [Block.pages]; omega)
  have hlow : (Block.mk x k).pages.Within (Block.mk x (k + 1)).pages :=
    Extent.within_of_le (le_refl _) (by simp only [Block.pages]; omega)
  obtain ⟨hx, hbs⟩ := List.pairwise_cons.mp h.apart
  have hfirst := h.first_le _ List.mem_cons_self
  have hlast := h.le_last _ List.mem_cons_self
  simp only at hfirst hlast
  refine ⟨List.pairwise_cons.mpr ⟨?_, List.pairwise_cons.mpr ⟨?_, hbs⟩⟩, ?_, ?_, h.last_lt⟩
  · intro b hb
    rcases List.mem_cons.mp hb with rfl | hb
    · intro y hy hy'
      rw [Block.mem_pages_mk] at hy hy'
      omega
    · exact (hx b hb).mono hup fun _ h => h
  · exact fun b hb => (hx b hb).mono hlow fun _ h => h
  · intro b hb
    rcases List.mem_cons.mp hb with rfl | hb
    · simp only
      omega
    · rcases List.mem_cons.mp hb with rfl | hb
      · exact hfirst
      · exact h.first_le b (List.mem_cons_of_mem _ hb)
  · intro b hb
    rcases List.mem_cons.mp hb with rfl | hb
    · simp only
      omega
    · rcases List.mem_cons.mp hb with rfl | hb
      · simp only
        omega
      · exact h.le_last b (List.mem_cons_of_mem _ hb)

/-- The free blocks are on the rings of their orders, and free and live blocks do not meet. -/
structure Phys.Partition (s : Phys) (free live : List Block) : Prop where
  rings : s.Rings freeOnly fun _ k => headsOf k free
  order_lt : ∀ b ∈ free, b.order < maxPpageBlockOrder
  blocks : s.Blocks (free ++ live)

/-- A page of a free block. -/
def InFree (free : List Block) (x : Nat) : Prop := ∃ b ∈ free, x ∈ b.pages

theorem InFree.head (h : b ∈ free) : InFree free b.ppn := ⟨b, h, b.ppn_mem⟩

/-- The first page of one of the blocks. -/
def IsHead (bs : List Block) (x : Nat) : Prop := ∃ b ∈ bs, b.ppn = x

theorem IsHead.inFree (h : IsHead free x) : InFree free x := by
  obtain ⟨b, hb, rfl⟩ := h
  exact .head hb

theorem isHead_of_mem_headsOf (h : x ∈ headsOf k free) : IsHead free x :=
  ⟨_, mem_headsOf.mp h, rfl⟩

/-- Two states with the same list heads and pointers. -/
structure Phys.SameRings (s s' : Phys) : Prop where
  firstPpn : s'.firstPpn = s.firstPpn
  lastPpn : s'.lastPpn = s.lastPpn
  freeClists : s'.freeClists = s.freeClists
  usedClists : s'.usedClists = s.usedClists
  pointers : ∀ x, SamePointers s.links s'.links x

theorem Phys.SameRings.trans (h : Phys.SameRings s s₁) (h' : Phys.SameRings s₁ s₂) :
    Phys.SameRings s s₂ where
  firstPpn := h'.firstPpn.trans h.firstPpn
  lastPpn := h'.lastPpn.trans h.lastPpn
  freeClists := h'.freeClists.trans h.freeClists
  usedClists := h'.usedClists.trans h.usedClists
  pointers x := ⟨(h'.pointers x).1.trans (h.pointers x).1, (h'.pointers x).2.trans (h.pointers x).2⟩

theorem Phys.sameRings_setDscr (s : Phys) (hp : d.prev = (s.dscrs i).prev)
    (hn : d.next = (s.dscrs i).next) : Phys.SameRings s (s.setDscr i d) :=
  ⟨rfl, rfl, rfl, rfl, fun x => s.links_setDscr_of_unlinked x hp hn⟩

theorem Phys.sameRings_count (s : Phys) (i v : Nat) : Phys.SameRings s ((countOf i).set v s) :=
  s.sameRings_setDscr rfl rfl

theorem Phys.sameRings_blockHead (s : Phys) (i : Nat) (v : Bool) :
    Phys.SameRings s ((blockHeadOf i).set v s) := s.sameRings_setDscr rfl rfl

theorem Phys.sameRings_blockOrder (s : Phys) (i v : Nat) :
    Phys.SameRings s ((blockOrderOf i).set v s) := s.sameRings_setDscr rfl rfl

theorem Phys.Partition.transport (h : Phys.Partition s free live)
    (hf : s'.firstPpn = s.firstPpn) (hl : s'.lastPpn = s.lastPpn)
    (hlist : s'.freeClists = s.freeClists)
    (hsame : ∀ b ∈ free, SamePointers s.links s'.links b.ppn) : s'.Partition free live := by
  refine ⟨h.rings.transport ?_ ?_, h.order_lt, h.blocks.same hf hl⟩
  · rintro st k rfl
    exact congrFun hlist k
  · intro st k x _ hx
    exact hsame _ (mem_headsOf.mp hx)

theorem Phys.Partition.same (h : Phys.Partition s free live) (h' : Phys.SameRings s s') :
    s'.Partition free live :=
  h.transport h'.firstPpn h'.lastPpn h'.freeClists fun _ _ => h'.pointers _

theorem headsOf_split (h : headsOf k bs = x :: xs) :
    ∃ as cs, bs = as ++ ⟨x, k⟩ :: cs ∧ headsOf k as = [] ∧ headsOf k cs = xs := by
  induction bs with
  | nil => cases h
  | cons B bs ih =>
    rw [headsOf_cons] at h
    split at h
    · cases h
      exact ⟨[], bs, by rw [← ‹B.order = k›]; rfl, rfl, rfl⟩
    · obtain ⟨as, cs, rfl, has, hcs⟩ := ih h
      refine ⟨B :: as, cs, rfl, ?_, hcs⟩
      rw [headsOf_cons, if_neg ‹_›, has]

theorem Phys.Rings.congr (h : Phys.Rings A s R) (heq : ∀ st k, A st → R' st k = R st k) :
    s.Rings A R' := by
  refine ⟨fun st k hA => ?_, fun st k st' k' x hA hA' hx hx' => ?_⟩
  · rw [heq st k hA]
    exact h.ring st k hA
  · rw [heq st k hA] at hx
    rw [heq st' k' hA'] at hx'
    exact h.apart st k st' k' x hA hA' hx hx'

theorem Phys.Partition.pop (h : Phys.Partition s free live) (hk : headsOf k free = x :: xs) :
    ∃ s' as bs, clistPopHead (freePpagesBlocksClist k) prevOf nextOf s = .ok (x, s') ∧
      free = as ++ ⟨x, k⟩ :: bs ∧ s'.Partition (as ++ bs) (⟨x, k⟩ :: live) ∧
      Phys.OnlyRing .free k s s' ∧
      ∀ y, ¬IsHead free y → SamePointers s.links s'.links y := by
  obtain ⟨as, bs, rfl, has, hbs⟩ := headsOf_split hk
  obtain ⟨s', hrun, hrings, honly, hsame⟩ := h.rings.pop (show freeOnly .free from rfl) hk
  refine ⟨s', as, bs, hrun, rfl, ⟨?_, ?_, ?_⟩, honly, fun y hy => hsame y fun hmem => hy ?_⟩
  · refine hrings.congr ?_
    rintro st k' rfl
    by_cases hkk : k' = k
    · subst hkk
      rw [RingFamily.set_self, headsOf_append, has, hbs, List.nil_append]
    · rw [RingFamily.set_of_ne _ (fun hc => hkk hc.2), headsOf_append, headsOf_append,
        headsOf_cons, if_neg (fun hc => hkk hc.symm)]
  · exact fun b hb => h.order_lt b (List.perm_middle.mem_iff.mpr (List.mem_cons_of_mem _ hb))
  · refine (h.blocks.perm ?_).same honly.firstPpn honly.lastPpn
    rw [List.append_assoc, List.append_assoc, List.cons_append]
    refine List.Perm.append_left as ?_
    rw [← List.cons_append]
    exact List.perm_middle.symm
  · exact isHead_of_mem_headsOf hmem

/-- Appending a live block to the free ring of its order makes it a free one. -/
theorem Phys.Partition.push (h : Phys.Partition s free (B :: live))
    (hB : B.order < maxPpageBlockOrder) :
    ∃ s', clistPushTail (freePpagesBlocksClist B.order) prevOf nextOf B.ppn s = .ok ((), s') ∧
      s'.Partition (free ++ [B]) live ∧ Phys.OnlyRing .free B.order s s' ∧
      ∀ y, ¬IsHead free y → y ≠ B.ppn → SamePointers s.links s'.links y := by
  have hfresh : ∀ k, B.ppn ∉ headsOf k free := by
    intro k hmem
    exact (List.pairwise_append.mp h.blocks.apart).2.2 _ (mem_headsOf.mp hmem) B
      List.mem_cons_self _ (Block.ppn_mem ⟨B.ppn, k⟩) B.ppn_mem
  obtain ⟨s', hrun, hrings, honly, hsame⟩ :=
    h.rings.push B.order (show freeOnly .free from rfl) fun _ k _ => hfresh k
  refine ⟨s', hrun, ⟨?_, ?_, ?_⟩, honly, fun y hy hyB => hsame y (fun hmem => hy ?_) hyB⟩
  · refine hrings.congr ?_
    rintro st k rfl
    rw [headsOf_append, headsOf_cons]
    by_cases hk : k = B.order
    · subst hk
      rw [RingFamily.set_self, if_pos rfl]
      rfl
    · rw [RingFamily.set_of_ne _ (fun hc => hk hc.2), if_neg (fun hc => hk hc.symm)]
      exact List.append_nil _
  · intro b hb
    rcases List.mem_append.mp hb with hb | hb
    · exact h.order_lt b hb
    · rwa [List.mem_singleton.mp hb]
  · rw [List.append_assoc]
    exact h.blocks.same honly.firstPpn honly.lastPpn
  · exact isHead_of_mem_headsOf hmem

theorem Phys.Partition.perm (h : Phys.Partition s free live) (hp : live.Perm live') :
    s.Partition free live' :=
  ⟨h.rings, h.order_lt, h.blocks.perm (hp.append_left free)⟩

theorem Phys.Partition.halve (h : Phys.Partition s free (⟨x, k + 1⟩ :: live)) :
    s.Partition free (⟨x + 2 ^ k, k⟩ :: ⟨x, k⟩ :: live) := by
  refine ⟨h.rings, h.order_lt, ?_⟩
  have hmid := (h.blocks.perm List.perm_middle).halve
  exact hmid.perm ((List.perm_middle.symm.cons _).trans List.perm_middle.symm)

theorem Phys.Partition.live_not_free (h : Phys.Partition s free live) (hb : b ∈ live)
    (hx : x ∈ b.pages) : ¬InFree free x := by
  rintro ⟨c, hc, hxc⟩
  exact (List.pairwise_append.mp h.blocks.apart).2.2 c hc b hb x hxc hx

/-! ### Allocation -/

/-- Pushing onto a used ring stores to the pushed page, to the head of the ring and to its
predecessor; as long as none of them is a free page the free rings do not change. -/
theorem Phys.Partition.push_used (h : Phys.Partition s free live) (hx : ¬InFree free x)
    (hsafe : ∀ a, s.usedClists i = some a → ¬InFree free a ∧
      ∀ q, s.links.prev a = some q → ¬InFree free q)
    (hrun : clistPushTail (usedPpagesBlocksClist i) prevOf nextOf x s = .ok ((), s')) :
    s'.Partition free live ∧ Phys.OnlyRing .used i s s' ∧
      ∀ y, y ≠ x → s'.links.prev y = s.links.prev y ∨ s'.links.prev y = some x := by
  obtain ⟨ht, hsame⟩ := clistPushTail_frame (lawful_clist .used i) hrun
  have honly := Phys.OnlyRing.of_touched ht
  refine ⟨h.transport honly.firstPpn honly.lastPpn honly.freeClists_of_used ?_, honly,
    fun y hy => clistPushTail_prev (lawful_clist .used i) hrun hy⟩
  intro b hb
  refine hsame b.ppn (fun heq => hx (heq ▸ InFree.head hb)) ?_
  intro a ha
  obtain ⟨hna, hnq⟩ := hsafe a ha
  exact ⟨fun heq => hna (heq ▸ InFree.head hb), fun heq => hnq _ heq (InFree.head hb)⟩

theorem ppnToPpage_ok (hf : s.firstPpn ≤ p) (hl : p ≤ s.lastPpn) :
    ppnToPpage p s = .ok (p, s) := by
  rw [ppnToPpage, bind_get, bind_ok (check_ok hf), bind_ok (check_ok hl)]
  rfl

end Atros
