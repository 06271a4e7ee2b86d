import Atros.PhysicalAlloc

namespace Atros
set_option autoImplicit true

variable {s t : Phys} {free F : List Block}

/-- The page is marked as the head of a free block of order `k`. -/
structure Phys.FreeHead (s : Phys) (x k : Nat) : Prop where
  head : (s.dscrs x).blockHead = true
  count : (s.dscrs x).count = 0
  order : (s.dscrs x).blockOrder = k

/-- The free blocks are aligned, do not meet and are in the managed range, the rings of free
blocks hold their heads, and the pages marked as heads of free blocks are these heads. -/
structure Phys.FreeSound (s : Phys) (free : List Block) : Prop where
  partition : s.Partition free []
  aligned : ∀ b ∈ free, b.ppn % 2 ^ b.order = 0
  marked : ∀ x k, s.firstPpn ≤ x → x ≤ s.lastPpn → (s.FreeHead x k ↔ ⟨x, k⟩ ∈ free)

theorem Phys.Partition.nodup (h : s.Partition free live) : free.Nodup := by
  refine (List.pairwise_append.mp h.blocks.apart).1.imp ?_
  rintro b _ hbc rfl
  exact hbc b.ppn b.ppn_mem b.ppn_mem

theorem Phys.FreeSound.ring (h : s.FreeSound free) (k : Nat) :
    s.links.Ring (s.freeClists k) (headsOf k free) := h.partition.rings.ring .free k rfl

theorem Phys.FreeSound.first_mem (h : s.FreeSound free) (hp : s.freeClists k = some p) :
    ∃ xs, headsOf k free = p :: xs := by
  have hring := h.ring k
  rw [hp] at hring
  exact hring.eq_cons

theorem Phys.FreeSound.mem (h : s.FreeSound free) (hp : s.freeClists k = some p) :
    ⟨p, k⟩ ∈ free := by
  obtain ⟨xs, hxs⟩ := h.first_mem hp
  rw [← mem_headsOf, hxs]
  exact List.mem_cons_self

theorem Phys.FreeSound.blocks (h : s.FreeSound free) : s.Blocks free := by
  have hblocks := h.partition.blocks
  rwa [List.append_nil] at hblocks

theorem Phys.FreeSound.range (h : s.FreeSound free) (hb : b ∈ free) (hx : x ∈ b.pages) :
    s.firstPpn ≤ x ∧ x ≤ s.lastPpn := by
  have hfirst := h.blocks.first_le b hb
  have hlast := h.blocks.le_last b hb
  rw [Block.mem_pages] at hx
  omega

theorem Phys.FreeSound.freeHead (h : s.FreeSound free) (hb : ⟨p, k⟩ ∈ free) :
    s.FreeHead p k := by
  obtain ⟨hfirst, hlast⟩ := h.range hb (Block.ppn_mem ⟨p, k⟩)
  exact (h.marked p k hfirst hlast).mpr hb

/-! ### The blocks that a split leaves -/

/-- The upper parts that are left when a block at `p` is split `d` times, down to order `k`. -/
def upperParts (p : Nat) : Nat → Nat → List Block
  | _, 0 => []
  | k, d + 1 => upperParts p (k + 1) d ++ [⟨p + 2 ^ k, k⟩]

/-- The free blocks after a free block of order `k + d` at `p` has been split down to order `k`
and its lower part taken. -/
def afterSplit (free : List Block) (p k d : Nat) : List Block :=
  free.erase ⟨p, k + d⟩ ++ upperParts p k d

theorem afterSplit_succ (free : List Block) (p k d : Nat) :
    afterSplit free p k (d + 1) = afterSplit free p (k + 1) d ++ [⟨p + 2 ^ k, k⟩] := by
  rw [afterSplit, afterSplit, upperParts, List.append_assoc, Nat.add_right_comm, ← Nat.add_assoc]

theorem mem_upperParts : b ∈ upperParts p k d ↔ ∃ i, k ≤ i ∧ i < k + d ∧ b = ⟨p + 2 ^ i, i⟩ := by
  induction d generalizing k with
  | zero =>
    simp only [upperParts, List.not_mem_nil, false_iff]
    rintro ⟨i, h₁, h₂, -⟩
    omega
  | succ d ih =>
    rw [upperParts, List.mem_append, ih, List.mem_singleton]
    constructor
    · rintro (⟨i, h₁, h₂, rfl⟩ | rfl)
      · exact ⟨i, by omega, by omega, rfl⟩
      · exact ⟨k, le_refl k, by omega, rfl⟩
    · rintro ⟨i, h₁, h₂, rfl⟩
      rcases Nat.eq_or_lt_of_le h₁ with rfl | h₁
      · exact .inr rfl
      · exact .inl ⟨i, h₁, by omega, rfl⟩

theorem mem_afterSplit (hnd : free.Nodup) : b ∈ afterSplit free p k d ↔
    (b ∈ free ∧ b ≠ ⟨p, k + d⟩) ∨ ∃ i, k ≤ i ∧ i < k + d ∧ b = ⟨p + 2 ^ i, i⟩ := by
  rw [afterSplit, List.mem_append, mem_upperParts, hnd.mem_erase_iff, and_comm]

theorem Phys.Blocks.split (h : s.Blocks free) (hp : ⟨p, k + d⟩ ∈ free) :
    s.Blocks (⟨p, k⟩ :: afterSplit free p k d) := by
  induction d generalizing k with
  | zero =>
    rw [afterSplit, upperParts, List.append_nil]
    exact h.perm (List.perm_cons_erase hp)
  | succ d ih =>
    rw [show k + (d + 1) = (k + 1) + d by omega] at hp
    rw [afterSplit_succ]
    refine (ih hp).halve.perm ((List.Perm.swap _ _ _).trans (List.Perm.cons _ ?_))
    exact (List.perm_append_singleton _ _).symm

/-! ### Pushing onto a used ring -/

/-- The predecessors after `p` has been pushed onto the ring with the given head. -/
def pushedPrev (p : Nat) (head : Option Nat) (prev : Nat → Option Nat) : Nat → Option Nat :=
  match head with
  | none => Function.update prev p (some p)
  | some a => Function.update (Function.update prev p (prev a)) a (some p)

/-- The head of a ring and its predecessor are no heads of free blocks. -/
def PushOff (F : List Block) (prev : Nat → Option Nat) (head : Option Nat) : Prop :=
  ∀ a, head = some a → ¬IsHead F a ∧ ∃ q, prev a = some q ∧ ¬IsHead F q

/-- A pointer of the head of a free block leads to `p`. -/
def Phys.Bent (s : Phys) (F : List Block) (p : Nat) : Prop :=
  ∃ y, IsHead F y ∧ (s.links.prev y = some p ∨ s.links.next y = some p)

/-- The used block `p` has been pushed onto the used ring of order `i`. -/
structure Phys.UsedPushed (s t : Phys) (F : List Block) (i p : Nat) : Prop where
  only : Phys.OnlyRing .used i s t
  head : t.usedClists i = (s.usedClists i).or (some p)
  prevs : t.links.prev = pushedPrev p (s.usedClists i) s.links.prev
  off : PushOff F s.links.prev (s.usedClists i) →
    ∀ y, IsHead F y → SamePointers s.links t.links y
  bent : ¬PushOff F s.links.prev (s.usedClists i) → t.Bent F p
  stillBent : s.Bent F p → t.Bent F p

theorem Phys.Bent.transport (h : s.Bent F p)
    (hsame : ∀ y, IsHead F y → SamePointers s.links t.links y) : t.Bent F p := by
  obtain ⟨y, hy, hbent⟩ := h
  obtain ⟨hnext, hprev⟩ := hsame y hy
  exact ⟨y, hy, hbent.imp hprev.trans hnext.trans⟩

theorem Phys.UsedPushed.partition (h : s.UsedPushed t F i p) (hpart : s.Partition F live)
    (hoff : PushOff F s.links.prev (s.usedClists i)) : t.Partition F live :=
  hpart.transport h.only.firstPpn h.only.lastPpn h.only.freeClists_of_used
    fun b hb => h.off hoff b.ppn ⟨b, hb, rfl⟩

theorem push_none (st : PpageStatus) (k p : Nat) (hnone : (PpageStatus.clist st k).get s = none) :
    ∃ t, clistPushTail (st.clist k) prevOf nextOf p s = .ok ((), t) ∧ Phys.OnlyRing st k s t ∧
      (st.clist k).get t = some p ∧
      (∀ y, t.links.next y = if y = p then some p else s.links.next y) ∧
      ∀ y, t.links.prev y = if y = p then some p else s.links.prev y := by
  have L := lawful_clist st k
  have hrun := clistPushTail_of_none prevOf nextOf p hnone
  refine ⟨_, hrun, .of_touched (clistPushTail_frame L hrun).1, L.list_list (some p) _, ?_, ?_⟩
  · intro y
    simp only [Phys.links, linksOf, L.next_list, L.next_prev, L.next_next]
  · intro y
    simp only [Phys.links, linksOf, L.prev_list, L.prev_prev, L.prev_next]

theorem push_some (st : PpageStatus) (k p : Nat) (ha : (PpageStatus.clist st k).get s = some a)
    (hq : s.links.prev a = some q) :
    ∃ t, clistPushTail (st.clist k) prevOf nextOf p s = .ok ((), t) ∧ Phys.OnlyRing st k s t ∧
      (st.clist k).get t = some a ∧
      (∀ y, t.links.next y =
        if y = q then some p else if y = p then some a else s.links.next y) ∧
      ∀ y, t.links.prev y =
        if y = a then some p else if y = p then some q else s.links.prev y := by
  have L := lawful_clist st k
  have hrun := clistPushTail_of_some (x := p) L ha hq
  refine ⟨_, hrun, .of_touched (clistPushTail_frame L hrun).1, ?_, ?_, ?_⟩
  · rw [L.list_prev, L.list_next, L.list_prev, L.list_next, ha]
  · intro y
    simp only [Phys.links, linksOf, L.next_prev, L.next_next]
  · intro y
    simp only [Phys.links, linksOf, L.prev_prev, L.prev_next]

theorem used_push (hp : ¬IsHead F p) :
    Ends (fun _ => ¬PushOff F s.links.prev (s.usedClists i)) (fun _ t => s.UsedPushed t F i p)
      (clistPushTail (usedPpagesBlocksClist i) prevOf nextOf p s) := by
  have hpy : ∀ y, IsHead F y → y ≠ p := fun y hy heq => hp (heq ▸ hy)
  cases hhead : s.usedClists i with
  | none =>
    obtain ⟨t, hrun, honly, hlist, hnext, hprev⟩ := push_none .used i p hhead
    rw [show clistPushTail (usedPpagesBlocksClist i) prevOf nextOf p s = _ from hrun]
    have hkeep : ∀ y, IsHead F y → SamePointers s.links t.links y := fun y hy =>
      ⟨by rw [hnext, if_neg (hpy y hy)], by rw [hprev, if_neg (hpy y hy)]⟩
    have hoff : PushOff F s.links.prev none := fun a ha => nomatch ha
    refine ⟨honly, ?_, ?_, fun _ => hkeep, fun hno => absurd (hhead ▸ hoff) hno,
      fun hbent => hbent.transport hkeep⟩
    · rw [hhead]
      exact hlist
    · rw [hhead]
      funext y
      rw [hprev, pushedPrev, Function.update_apply]
  | some a =>
    cases hq : s.links.prev a with
    | none =>
      rw [show clistPushTail (usedPpagesBlocksClist i) prevOf nextOf p s = _ from
        clistPushTail_null (lawful_clist .used i) hhead hq]
      intro hoff
      obtain ⟨-, q, hq', -⟩ := hoff a rfl
      exact nomatch hq.symm.trans hq'
    | some q =>
      obtain ⟨t, hrun, honly, hlist, hnext, hprev⟩ := push_some .used i p hhead hq
      rw [show clistPushTail (usedPpagesBlocksClist i) prevOf nextOf p s = _ from hrun]
      refine ⟨honly, ?_, ?_, ?_, ?_, ?_⟩
      · rw [hhead]
        exact hlist
      · funext y
        rw [hprev, hhead]
        simp only [pushedPrev, Function.update_apply, hq]
      · intro hoff y hy
        obtain ⟨ha, q', hq', hnq⟩ := hoff a hhead
        cases hq.symm.trans hq'
        have hya : y ≠ a := fun heq => ha (heq ▸ hy)
        have hyq : y ≠ q := fun heq => hnq (heq ▸ hy)
        exact ⟨by rw [hnext, if_neg hyq, if_neg (hpy y hy)],
          by rw [hprev, if_neg hya, if_neg (hpy y hy)]⟩
      · intro hno
        by_cases ha : IsHead F a
        · exact ⟨a, ha, .inl (by rw [hprev, if_pos rfl])⟩
        · by_cases hnq : IsHead F q
          · exact ⟨q, hnq, .inr (by rw [hnext, if_pos rfl])⟩
          · refine absurd (fun b hb => ?_) hno
            cases hhead.symm.trans hb
            exact ⟨ha, q, hq, hnq⟩
      · rintro ⟨y, hy, hbent⟩
        refine ⟨y, hy, ?_⟩
        rcases hbent with hbent | hbent
        · refine .inl ?_
          rw [hprev]
          split
          · rfl
          · rw [if_neg (hpy y hy), hbent]
        · refine .inr ?_
          rw [hnext]
          split
          · rfl
          · rw [if_neg (hpy y hy), hbent]

/-! ### The pushes of one allocation -/

/-- The predecessors of pages that are no heads of free blocks, after the first `d` pushes of
`p`: onto the used rings of the orders `m`, `m - 1` and so on. -/
def Phys.usedPrevs (s : Phys) (p m : Nat) : Nat → Nat → Option Nat
  | 0 => Function.update s.links.prev p none
  | d + 1 => pushedPrev p (s.usedClists (m - d)) (s.usedPrevs p m d)

theorem Phys.usedPrevs_cases (s : Phys) (hx : x ≠ p) (m d : Nat) :
    s.usedPrevs p m d x = some p ∨ s.usedPrevs p m d x = s.links.prev x := by
  induction d with
  | zero =>
    right
    rw [usedPrevs, Function.update_of_ne hx]
  | succ d ih =>
    rw [usedPrevs]
    cases s.usedClists (m - d) with
    | none =>
      rw [pushedPrev, Function.update_of_ne hx]
      exact ih
    | some a =>
      rw [pushedPrev]
      by_cases hxa : x = a
      · subst hxa
        exact .inl (Function.update_self ..)
      · rw [Function.update_of_ne hxa, Function.update_of_ne hx]
        exact ih

/-- None of the pushes of `p`, from order `m` down by `d` orders, stores to the head of a block
that is free by then. -/
def Phys.PushesOff (s : Phys) (free : List Block) (p m d : Nat) : Prop :=
  ∀ e ≤ d, PushOff (afterSplit free p (m - e) e) (s.usedPrevs p m e) (s.usedClists (m - e))

theorem Phys.PushesOff.mono (h : s.PushesOff free p m d) (he : e ≤ d) :
    s.PushesOff free p m e := fun e' he' => h e' (he'.trans he)

/-- Two predecessor maps that agree where neither end is the head of a free block. -/
def SamePrev (F : List Block) (f g : Nat → Option Nat) : Prop :=
  ∀ y q, ¬IsHead F y → ¬IsHead F q → (f y = some q ↔ g y = some q)

theorem SamePrev.symm (h : SamePrev F f g) : SamePrev F g f :=
  fun y q hy hq => (h y q hy hq).symm

theorem PushOff.congr (h : PushOff F f head) (hfg : SamePrev F f g) : PushOff F g head := by
  intro a ha
  obtain ⟨hna, q, hq, hnq⟩ := h a ha
  exact ⟨hna, q, (hfg a q hna hnq).mp hq, hnq⟩

theorem SamePrev.push (h : SamePrev F f g) (hoff : PushOff F f head) :
    SamePrev F (pushedPrev p head f) (pushedPrev p head g) := by
  intro y q hy hq
  cases head with
  | none =>
    simp only [pushedPrev, Function.update_apply]
    split
    · exact Iff.rfl
    · exact h y q hy hq
  | some a =>
    simp only [pushedPrev, Function.update_apply]
    split
    · exact Iff.rfl
    · split
      · exact h a q (hoff a rfl).1 hq
      · exact h y q hy hq

/-! ### One allocation -/

/-- What an allocation that has split the block at `p` from order `k + d` down to order `k` has
done, whatever the pointers of the used rings are. -/
structure Phys.Carved (s t : Phys) (p k d : Nat) : Prop where
  firstPpn : t.firstPpn = s.firstPpn
  lastPpn : t.lastPpn = s.lastPpn
  otherFree : ∀ i, i < k ∨ k + d < i → t.freeClists i = s.freeClists i
  upperFree : ∀ i, k ≤ i → i < k + d → t.freeClists i = some (p + 2 ^ i)
  otherUsed : ∀ i, i < k ∨ k + d < i → t.usedClists i = s.usedClists i
  used : ∀ i, k ≤ i → i ≤ k + d → t.usedClists i = (s.usedClists i).or (some p)
  block : (t.dscrs p).unlinked = { (s.dscrs p).unlinked with blockOrder := k, count := 1 }
  upper : ∀ i, k ≤ i → i < k + d → (t.dscrs (p + 2 ^ i)).unlinked =
    { (s.dscrs (p + 2 ^ i)).unlinked with blockHead := true, blockOrder := i, count := 0 }
  others : ∀ x, x ≠ p → (∀ i, k ≤ i → i < k + d → x ≠ p + 2 ^ i) →
    (t.dscrs x).unlinked = (s.dscrs x).unlinked

/-- The free rings are as they should be, and so are the predecessors of used blocks. -/
structure Phys.Kept (s t : Phys) (free : List Block) (p k d : Nat) : Prop where
  partition : t.Partition (afterSplit free p k d) [⟨p, k⟩]
  prevs : SamePrev (afterSplit free p k d) t.links.prev (s.usedPrevs p (k + d) (d + 1))

/-- How an allocation that splits the block at `p` ends. -/
structure Phys.Outcome (s t : Phys) (free : List Block) (p k d : Nat) : Prop where
  carved : s.Carved t p k d
  kept : s.PushesOff free p (k + d) d → s.Kept t free p k d
  bent : ¬s.PushesOff free p (k + d) d → t.Bent (afterSplit free p k d) p

/-- A block is not the head of a block that is free after it has been split. -/
theorem Phys.FreeSound.not_head (h : s.FreeSound free) (hp : ⟨p, k + d⟩ ∈ free) :
    ¬IsHead (afterSplit free p k d) p := by
  rintro ⟨b, hb, hbp⟩
  have hapart := (List.pairwise_cons.mp (h.blocks.split hp).apart).1 b hb
  exact hapart p (Block.ppn_mem ⟨p, k⟩) (hbp ▸ b.ppn_mem)

theorem Phys.pushesOff_zero :
    s.PushesOff free p m 0 ↔
      PushOff (afterSplit free p m 0) (s.usedPrevs p m 0) (s.usedClists m) := by
  constructor
  · exact fun h => h 0 (le_refl 0)
  · intro h e he
    rw [Nat.le_zero.mp he]
    exact h

theorem setCount_unlinked (s : Phys) (p v x : Nat) :
    (((countOf p).set v s).dscrs x).unlinked =
      if x = p then { (s.dscrs p).unlinked with count := v } else (s.dscrs x).unlinked := by
  simp only [countOf, Phys.dscrs_setDscr]
  split <;> rfl

/-- Taking the head off its ring leaves the predecessors of pages that are no free heads. -/
theorem Phys.FreeSound.pop_prevs (h : s.FreeSound (as ++ ⟨p, k⟩ :: bs))
    (hk : headsOf k (as ++ ⟨p, k⟩ :: bs) = p :: xs)
    (hpop : clistPopHead (freePpagesBlocksClist k) prevOf nextOf s = .ok (p, s₁))
    (hsame : ∀ y, ¬IsHead (as ++ ⟨p, k⟩ :: bs) y → SamePointers s.links s₁.links y) :
    SamePrev (as ++ bs) s₁.links.prev (s.usedPrevs p k 0) := by
  have hring := h.ring k
  rw [hk] at hring
  intro y q hy hq
  simp only [usedPrevs, Function.update_apply]
  by_cases hyp : y = p
  · subst hyp
    rw [if_pos rfl]
    refine iff_of_false (fun hprev => hq ?_) (fun hc => nomatch hc)
    have hmem := clistPopHead_prev (lawful_clist .free k) hring hpop hprev
    have hqp : q ≠ y := fun heq => (List.nodup_cons.mp hring.nodup).1 (heq ▸ hmem)
    have hq' : ⟨q, k⟩ ∈ as ++ ⟨y, k⟩ :: bs := by
      rw [← mem_headsOf, hk]
      exact List.mem_cons_of_mem y hmem
    refine ⟨⟨q, k⟩, ?_, rfl⟩
    rcases List.mem_cons.mp (List.perm_middle.mem_iff.mp hq') with heq | hmem'
    · exact absurd (congrArg Block.ppn heq) hqp
    · exact hmem'
  · rw [if_neg hyp, (hsame y ?_).2]
    rintro ⟨b, hb, rfl⟩
    rcases List.mem_cons.mp (List.perm_middle.mem_iff.mp hb) with rfl | hb
    · exact hyp rfl
    · exact hy ⟨b, hb, rfl⟩

theorem pop_outcome (h : s.FreeSound free) (hp : s.freeClists k = some p) :
    Ends (fun _ => ¬s.PushesOff free p k 0) (fun r t => r = some p ∧ s.Outcome t free p k 0) ((do
        let toReturn ← clistPopHead (freePpagesBlocksClist k) prevOf nextOf
        clistPushTail (usedPpagesBlocksClist k) prevOf nextOf toReturn
        ppageSetUsed toReturn
        return some toReturn : Prog Panic Phys (Option Nat)) s) := by
  obtain ⟨xs, hk⟩ := h.first_mem hp
  have hnd := h.partition.nodup
  have hmem := h.mem hp
  have hnot := h.not_head (d := 0) hmem
  have horder := (h.freeHead hmem).order
  obtain ⟨s₁, as, bs, hpop, rfl, hpart, honly, hsame⟩ := h.partition.pop hk
  have hrest : afterSplit (as ++ ⟨p, k⟩ :: bs) p k 0 = as ++ bs := by
    have hnotin := (List.nodup_cons.mp (List.nodup_middle.mp hnd)).1
    rw [afterSplit, upperParts, List.append_nil, Nat.add_zero,
      List.erase_append_right _ fun hin => hnotin (List.mem_append_left _ hin),
      List.erase_cons_head]
  have hprevs := h.pop_prevs hk hpop hsame
  rw [hrest] at hnot
  refine Ends.step hpop ?_
  have hpush := used_push (s := s₁) (i := k) hnot
  rw [honly.usedClists_of_free] at hpush
  have hiff : s.PushesOff (as ++ ⟨p, k⟩ :: bs) p k 0 ↔
      PushOff (as ++ bs) s₁.links.prev (s.usedClists k) := by
    rw [Phys.pushesOff_zero, hrest]
    exact ⟨fun hoff => hoff.congr hprevs.symm, fun hoff => hoff.congr hprevs⟩
  refine Ends.bind (hpush.mono (fun _ hno hoff => hno (hiff.mp hoff)) fun _ _ hp => hp) ?_
  rintro - s₂ hpushed
  have hcount := s₂.sameRings_count p 1
  have hinfo : ∀ x, (s₂.dscrs x).unlinked = (s.dscrs x).unlinked := fun x =>
    (hpushed.only.info x).trans (honly.info x)
  have hcarved : s.Carved ((countOf p).set 1 s₂) p k 0 := by
    refine ⟨?_, ?_, ?_, ?_, ?_, ?_, ?_, ?_, ?_⟩
    · exact hcount.firstPpn.trans (hpushed.only.firstPpn.trans honly.firstPpn)
    · exact hcount.lastPpn.trans (hpushed.only.lastPpn.trans honly.lastPpn)
    · intro i hi
      rw [hcount.freeClists, hpushed.only.freeClists_of_used]
      exact honly.others .free i fun hc => by omega
    · intro i h₁ h₂
      omega
    · intro i hi
      rw [hcount.usedClists, hpushed.only.usedClists_of_ne (by omega), honly.usedClists_of_free]
    · intro i h₁ h₂
      obtain rfl : i = k := by omega
      rw [hcount.usedClists, hpushed.head, honly.usedClists_of_free]
    · rw [setCount_unlinked, if_pos rfl, hinfo, ← horder]
      rfl
    · intro i h₁ h₂
      omega
    · intro x hx _
      rw [setCount_unlinked, if_neg hx, hinfo]
  refine ⟨rfl, hcarved, fun hoff => ?_, fun hno => ?_⟩
  · have hoff₁ := hiff.mp hoff
    have hprev₂ := hpushed.prevs
    rw [honly.usedClists_of_free] at hprev₂
    refine ⟨?_, ?_⟩
    · rw [hrest]
      refine (hpushed.partition hpart ?_).same hcount
      rwa [honly.usedClists_of_free]
    · rw [hrest, show ((countOf p).set 1 s₂).links.prev = s₂.links.prev from
        funext fun y => (hcount.pointers y).2]
      have hpushedPrevs := hprevs.push (p := p) hoff₁
      rw [← hprev₂] at hpushedPrevs
      exact hpushedPrevs
  · have hno₁ := fun hoff => hno (hiff.mpr hoff)
    rw [hrest]
    refine (hpushed.bent ?_).transport fun y _ => hcount.pointers y
    rwa [honly.usedClists_of_free]

theorem setBlockOrder_unlinked (s : Phys) (p v x : Nat) :
    (((blockOrderOf p).set v s).dscrs x).unlinked =
      if x = p then { (s.dscrs p).unlinked with blockOrder := v }
      else (s.dscrs x).unlinked := by
  simp only [blockOrderOf, Phys.dscrs_setDscr]
  split <;> rfl

/-- The page `u` has become the head of the only free block of order `k`. -/
structure Phys.Released (s t : Phys) (u k : Nat) : Prop where
  firstPpn : t.firstPpn = s.firstPpn
  lastPpn : t.lastPpn = s.lastPpn
  otherFree : ∀ i, i ≠ k → t.freeClists i = s.freeClists i
  free : t.freeClists k = some u
  used : ∀ i, t.usedClists i = s.usedClists i
  head : (t.dscrs u).unlinked =
    { (s.dscrs u).unlinked with blockHead := true, blockOrder := k, count := 0 }
  others : ∀ x, x ≠ u → (t.dscrs x).unlinked = (s.dscrs x).unlinked
  pointers : ∀ y, y ≠ u → SamePointers s.links t.links y
  partition : ∀ F live, s.Partition F (⟨u, k⟩ :: live) → k < maxPpageBlockOrder →
    t.Partition (F ++ [⟨u, k⟩]) live

theorem release (s : Phys) (u : Nat) (hnone : s.freeClists k = none) :
    ∃ t, clistPushTail (freePpagesBlocksClist k) prevOf nextOf u
      ((countOf u).set 0 ((blockOrderOf u).set k ((blockHeadOf u).set true s))) = .ok ((), t) ∧
      s.Released t u k := by
  have L := lawful_clist .free k
  have hsame := ((s.sameRings_blockHead u true).trans (Phys.sameRings_blockOrder _ u k)).trans
    (Phys.sameRings_count _ u 0)
  have hinfo : ∀ x, (((countOf u).set 0 ((blockOrderOf u).set k
      ((blockHeadOf u).set true s))).dscrs x).unlinked =
      if x = u then { (s.dscrs u).unlinked with blockHead := true, blockOrder := k, count := 0 }
      else (s.dscrs x).unlinked := by
    intro x
    simp only [countOf, blockOrderOf, blockHeadOf, Phys.dscrs_setDscr]
    split <;> rfl
  generalize (countOf u).set 0 _ = s₁ at hsame hinfo ⊢
  have hnone₁ : (PpageStatus.free.clist k).get s₁ = none := by
    rw [← hnone, ← hsame.freeClists]
    rfl
  have hrun := clistPushTail_of_none prevOf nextOf u hnone₁
  obtain ⟨ht, hframe⟩ := clistPushTail_frame L hrun
  have honly := Phys.OnlyRing.of_touched ht
  refine ⟨_, hrun, ?_, ?_, ?_, ?_, ?_, ?_, ?_, ?_, ?_⟩
  · exact honly.firstPpn.trans hsame.firstPpn
  · exact honly.lastPpn.trans hsame.lastPpn
  · intro i hi
    rw [← hsame.freeClists]
    exact honly.others .free i fun hc => hi hc.2
  · exact L.list_list (some u) _
  · intro i
    rw [← hsame.usedClists]
    refine honly.others .used i ?_
    rintro ⟨hc, -⟩
    cases hc
  · rw [honly.info, hinfo, if_pos rfl]
  · intro x hx
    rw [honly.info, hinfo, if_neg hx]
  · intro y hy
    obtain ⟨hn, hp⟩ := hframe y hy fun a ha =>
      absurd (hnone₁.symm.trans ha) (Option.some_ne_none a).symm
    exact ⟨hn.trans (hsame.pointers y).1, hp.trans (hsame.pointers y).2⟩
  · intro F live hpart hk
    obtain ⟨t, hrun', hpart', -, -⟩ := (hpart.same hsame).push hk
    cases hrun.symm.trans hrun'
    exact hpart'

theorem Phys.pushesOff_succ : s.PushesOff free p (k + (d + 1)) (d + 1) ↔
    s.PushesOff free p (k + (d + 1)) d ∧
      PushOff (afterSplit free p k (d + 1)) (s.usedPrevs p (k + (d + 1)) (d + 1))
        (s.usedClists k) := by
  have hk : k + (d + 1) - (d + 1) = k := Nat.add_sub_cancel ..
  constructor
  · intro h
    have hlast := h (d + 1) (le_refl _)
    rw [hk] at hlast
    exact ⟨h.mono (Nat.le_succ d), hlast⟩
  · rintro ⟨h, hlast⟩ e he
    rcases Nat.eq_or_lt_of_le he with rfl | he
    · rw [hk]
      exact hlast
    · exact h e (Nat.le_of_lt_succ he)

theorem Phys.Carved.split (h : s.Carved t₁ p (k + 1) d) (hR : t₁.Released t₂ (p + 2 ^ k) k)
    (hpush : Phys.UsedPushed ((blockOrderOf p).set k t₂) t F k p) : s.Carved t p k (d + 1) := by
  have hsame := t₂.sameRings_blockOrder p k
  have hpos := Nat.two_pow_pos k
  have hinfo : ∀ x, x ≠ p → x ≠ p + 2 ^ k → (t.dscrs x).unlinked = (t₁.dscrs x).unlinked := by
    intro x hxp hxu
    rw [hpush.only.info, setBlockOrder_unlinked, if_neg hxp, hR.others x hxu]
  have hpu : p ≠ p + 2 ^ k := by omega
  refine ⟨?_, ?_, ?_, ?_, ?_, ?_, ?_, ?_, ?_⟩
  · exact hpush.only.firstPpn.trans (hsame.firstPpn.trans (hR.firstPpn.trans h.firstPpn))
  · exact hpush.only.lastPpn.trans (hsame.lastPpn.trans (hR.lastPpn.trans h.lastPpn))
  · intro i hi
    rw [hpush.only.freeClists_of_used, hsame.freeClists, hR.otherFree i (by omega),
      h.otherFree i (by omega)]
  · intro i h₁ h₂
    rw [hpush.only.freeClists_of_used, hsame.freeClists]
    rcases Nat.eq_or_lt_of_le h₁ with rfl | h₁
    · exact hR.free
    · rw [hR.otherFree i (by omega), h.upperFree i h₁ (by omega)]
  · intro i hi
    rw [hpush.only.usedClists_of_ne (by omega), hsame.usedClists, hR.used,
      h.otherUsed i (by omega)]
  · intro i h₁ h₂
    rcases Nat.eq_or_lt_of_le h₁ with rfl | h₁
    · rw [hpush.head, hsame.usedClists, hR.used, h.otherUsed k (by omega)]
    · rw [hpush.only.usedClists_of_ne (by omega), hsame.usedClists, hR.used,
        h.used i h₁ (by omega)]
  · rw [hpush.only.info, setBlockOrder_unlinked, if_pos rfl, hR.others p hpu, h.block]
  · intro i h₁ h₂
    have hposi := Nat.two_pow_pos i
    rcases Nat.eq_or_lt_of_le h₁ with rfl | h₁
    · rw [hpush.only.info, setBlockOrder_unlinked, if_neg (Ne.symm hpu), hR.head,
        h.others (p + 2 ^ k) (Ne.symm hpu) fun i h₁ h₂ heq => ?_]
      have hlt := Nat.pow_lt_pow_right (a := 2) (by decide) (show k < i by omega)
      omega
    · have hlt := Nat.pow_lt_pow_right (a := 2) (by decide) h₁
      rw [hinfo _ (by omega) (by omega), h.upper i h₁ (by omega)]
  · intro x hxp hx
    rw [hinfo x hxp (hx k (le_refl k) (by omega)),
      h.others x hxp fun i h₁ h₂ => hx i (by omega) (by omega)]

theorem split_outcome (h : s.FreeSound free) (hmem : ⟨p, k + (d + 1)⟩ ∈ free)
    (hk : k < maxPpageBlockOrder) (hnone : s.freeClists k = none)
    (hinner : s.Outcome t₁ free p (k + 1) d) :
    Ends (fun _ => ¬s.PushesOff free p (k + (d + 1)) (d + 1))
      (fun r t => r = some p ∧ s.Outcome t free p k (d + 1)) ((do
        let upperPart ← ppnToPpage (add32 (ppageToPpn p) (1 <<< k))
        (blockHeadOf upperPart).write true
        (blockOrderOf upperPart).write k
        ppageSetFree upperPart
        clistPushTail (freePpagesBlocksClist k) prevOf nextOf upperPart
        (blockOrderOf p).write (((← (blockOrderOf p).read) + 255) % 256)
        clistPushTail (usedPpagesBlocksClist k) prevOf nextOf p
        return some p : Prog Panic Phys (Option Nat)) t₁) := by
  have hm : k + (d + 1) = k + 1 + d := by omega
  have hcarved := hinner.carved
  have hpos := Nat.two_pow_pos k
  have hlt := Nat.pow_lt_pow_right (a := 2) (by decide) (show k < k + (d + 1) by omega)
  obtain ⟨hfirst, hlast⟩ := h.range (x := p + 2 ^ k) hmem (by rw [Block.mem_pages_mk]; omega)
  have hlast32 := h.blocks.last_lt
  rw [ppageToPpn, Nat.one_shiftLeft, add32_of_lt (by omega)]
  refine Ends.step (ppnToPpage_ok (by rwa [hcarved.firstPpn]) (by rwa [hcarved.lastPpn])) ?_
  simp only [ppageSetFree, bind_write]
  obtain ⟨t₂, hrelease, hR⟩ := release t₁ (p + 2 ^ k)
    (by rw [hcarved.otherFree k (by omega), hnone])
  refine Ends.step hrelease ?_
  have horder : ((blockOrderOf p).get t₂ + 255) % 256 = k := by
    have hblock := (hR.others p (by omega)).trans hcarved.block
    rw [show (blockOrderOf p).get t₂ = k + 1 from congrArg Ppage.blockOrder hblock]
    have : k < 10 := hk
    omega
  rw [bind_read, bind_write, horder]
  have hnot := h.not_head (d := d + 1) hmem
  have hsame := t₂.sameRings_blockOrder p k
  have hpush := used_push (s := (blockOrderOf p).set k t₂) (i := k) hnot
  have hused : ((blockOrderOf p).set k t₂).usedClists k = s.usedClists k := by
    rw [hsame.usedClists, hR.used, hcarved.otherUsed k (by omega)]
  have hpointers : ∀ y, y ≠ p + 2 ^ k →
      SamePointers t₁.links ((blockOrderOf p).set k t₂).links y := by
    intro y hy
    obtain ⟨hn, hp⟩ := hR.pointers y hy
    exact ⟨(hsame.pointers y).1.trans hn, (hsame.pointers y).2.trans hp⟩
  generalize hs₃ : (blockOrderOf p).set k t₂ = t₃ at hpush hused hpointers hsame ⊢
  rw [hused] at hpush
  have hsplit : afterSplit free p k (d + 1) = afterSplit free p (k + 1) d ++ [⟨p + 2 ^ k, k⟩] :=
    afterSplit_succ free p k d
  have hheads : ∀ y, IsHead (afterSplit free p (k + 1) d) y →
      IsHead (afterSplit free p k (d + 1)) y := by
    rintro y ⟨b, hb, rfl⟩
    exact ⟨b, by rw [hsplit]; exact List.mem_append_left _ hb, rfl⟩
  have hupper : ∀ y, IsHead (afterSplit free p (k + 1) d) y → y ≠ p + 2 ^ k := by
    rintro _ ⟨b, hb, rfl⟩ heq
    have hblocks := h.blocks.split (k := k) hmem
    rw [hsplit] at hblocks
    have hapart := (List.pairwise_append.mp (List.pairwise_cons.mp hblocks.apart).2).2.2 b hb
      ⟨p + 2 ^ k, k⟩ List.mem_cons_self
    exact hapart b.ppn b.ppn_mem (heq ▸ Block.ppn_mem ⟨p + 2 ^ k, k⟩)
  by_cases hoff : s.PushesOff free p (k + (d + 1)) d
  · have hkept := hinner.kept (hm ▸ hoff)
    have hprevs : SamePrev (afterSplit free p k (d + 1)) t₃.links.prev
        (s.usedPrevs p (k + (d + 1)) (d + 1)) := by
      intro y q hy hq
      have hyu : y ≠ p + 2 ^ k := by
        rintro rfl
        exact hy ⟨⟨p + 2 ^ k, k⟩, by rw [hsplit]; exact List.mem_append_right _ List.mem_cons_self,
          rfl⟩
      rw [(hpointers y hyu).2, hm]
      exact hkept.prevs y q (fun hc => hy (hheads y hc)) fun hc => hq (hheads q hc)
    have hiff : s.PushesOff free p (k + (d + 1)) (d + 1) ↔
        PushOff (afterSplit free p k (d + 1)) t₃.links.prev (s.usedClists k) := by
      rw [Phys.pushesOff_succ]
      exact ⟨fun hall => hall.2.congr hprevs.symm, fun hlast => ⟨hoff, hlast.congr hprevs⟩⟩
    refine Ends.bind (hpush.mono (fun _ hno hall => hno (hiff.mp hall)) fun _ _ hp => hp) ?_
    rintro - t hpushed
    subst hs₃
    refine ⟨rfl, hcarved.split hR hpushed, fun hall => ⟨?_, ?_⟩, fun hno => ?_⟩
    · have hpart := (hR.partition _ _ hkept.partition.halve hk).same hsame
      rw [← hsplit] at hpart
      refine hpushed.partition hpart ?_
      rw [hused]
      exact hiff.mp hall
    · have hstep := hprevs.push (p := p) (hiff.mp hall)
      rw [← hused, ← hpushed.prevs] at hstep
      rw [Phys.usedPrevs, show k + (d + 1) - (d + 1) = k from Nat.add_sub_cancel .., ← hused]
      exact hstep
    · refine hpushed.bent ?_
      rw [hused]
      exact fun hlast => hno (hiff.mpr hlast)
  · have hbent := hinner.bent (hm ▸ hoff)
    have hbent₃ : t₃.Bent (afterSplit free p k (d + 1)) p := by
      obtain ⟨y, hy, hy'⟩ := hbent
      obtain ⟨hn, hp⟩ := hpointers y (hupper y hy)
      exact ⟨y, hheads y hy, hy'.imp hp.trans hn.trans⟩
    have hno : ¬s.PushesOff free p (k + (d + 1)) (d + 1) := fun hall =>
      hoff (Phys.pushesOff_succ.mp hall).1
    refine Ends.bind (hpush.mono (fun _ _ => hno) fun _ _ hp => hp) ?_
    rintro - t hpushed
    subst hs₃
    exact ⟨rfl, hcarved.split hR hpushed, fun hall => absurd hall hno,
      fun _ => hpushed.stillBent hbent₃⟩

/-- An allocation takes the head of the first free ring that is not empty and splits its
block. -/
theorem ppageBlockAllocFrom_outcome (h : s.FreeSound free) (hp : s.freeClists (k + d) = some p)
    (hempty : ∀ i, k ≤ i → i < k + d → s.freeClists i = none)
    (hr : k + rounds = maxPpageBlockOrder) (hm : k + d < maxPpageBlockOrder) :
    Ends (fun _ => ¬s.PushesOff free p (k + d) d)
      (fun r t => r = some p ∧ s.Outcome t free p k d) (ppageBlockAllocFrom rounds k s) := by
  induction d generalizing k rounds with
  | zero =>
    cases rounds with
    | zero => omega
    | succ rounds =>
      rw [ppageBlockAllocFrom]
      refine Ends.step (check_ok (by omega)) ?_
      rw [bind_read, show (freePpagesBlocksClist k).get s = some p from hp,
        if_neg (fun hc => nomatch hc)]
      exact pop_outcome h hp
  | succ d ih =>
    cases rounds with
    | zero => omega
    | succ rounds =>
      have hnone : s.freeClists k = none := hempty k (le_refl k) (by omega)
      have hm' : k + (d + 1) = k + 1 + d := by omega
      rw [ppageBlockAllocFrom]
      refine Ends.step (check_ok (by omega)) ?_
      rw [bind_read, show (freePpagesBlocksClist k).get s = none from hnone, if_pos rfl]
      have hinner := ih (k := k + 1) (hm' ▸ hp)
        (fun i h₁ h₂ => hempty i (by omega) (by omega))
        (show k + 1 + rounds = maxPpageBlockOrder by omega) (by omega)
      refine Ends.bind (hinner.mono (fun _ hno hall => hno ?_) fun _ _ hp => hp) ?_
      · rw [← hm']
        exact (Phys.pushesOff_succ.mp hall).1
      · rintro _ t₁ ⟨rfl, hout⟩
        exact split_outcome h (h.mem hp) (by omega) hnone hout

end Atros
