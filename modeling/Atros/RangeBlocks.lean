import Atros.BlockFree

namespace Atros
set_option autoImplicit true

/-! ### The blocks of a range -/

theorem Tiles.increasing (h : Tiles a bs b) : bs.Pairwise fun B C => B.ppn < C.ppn := by
  induction bs generalizing a with
  | nil => exact .nil
  | cons B bs ih =>
    obtain ⟨rfl, h⟩ := h
    refine List.pairwise_cons.mpr ⟨fun C hC => ?_, ih h⟩
    have hC := h.pages_within hC C.ppn_mem
    have hpos := Nat.two_pow_pos B.order
    omega

theorem Tiles.headsOf_increasing (h : Tiles a bs b) (k : Nat) :
    (headsOf k bs).Pairwise (· < ·) :=
  List.pairwise_map.mpr (h.increasing.filter _)

/-- The buddy of an aligned block is the block after it or the block before it. -/
theorem xor_two_pow_aligned (h : p % 2 ^ k = 0) :
    p % 2 ^ (k + 1) = 0 ∧ p ^^^ 2 ^ k = p + 2 ^ k ∨
      (p ^^^ 2 ^ k) % 2 ^ (k + 1) = 0 ∧ p = (p ^^^ 2 ^ k) + 2 ^ k := by
  obtain ⟨a, rfl⟩ := Nat.dvd_of_mod_eq_zero h
  have hxor : 2 ^ k * a ^^^ 2 ^ k = 2 ^ k * (a ^^^ 1) := by
    have hdistrib := Nat.shiftLeft_xor_distrib (a := a) (b := 1) (i := k)
    rw [Nat.shiftLeft_eq, Nat.shiftLeft_eq, Nat.shiftLeft_eq, Nat.one_mul] at hdistrib
    rw [Nat.mul_comm, ← hdistrib, Nat.mul_comm]
  have hdiv : (a ^^^ 1) / 2 = a / 2 := by rw [Nat.xor_div_two, Nat.xor_zero]
  have hmod : (a ^^^ 1) % 2 = (a + 1) % 2 := Nat.xor_mod_two_eq
  rw [hxor, Nat.pow_succ]
  rcases Nat.mod_two_eq_zero_or_one a with heven | hodd
  · have ha : a ^^^ 1 = a + 1 := by omega
    refine .inl ⟨?_, by rw [ha, Nat.mul_succ]⟩
    rw [Nat.mul_mod_mul_left, heven, Nat.mul_zero]
  · have ha : a = (a ^^^ 1) + 1 := by omega
    refine .inr ⟨?_, ?_⟩
    · rw [Nat.mul_mod_mul_left, show (a ^^^ 1) % 2 = 0 by omega, Nat.mul_zero]
    · calc 2 ^ k * a = 2 ^ k * ((a ^^^ 1) + 1) := by rw [← ha]
        _ = 2 ^ k * (a ^^^ 1) + 2 ^ k := Nat.mul_succ _ _

/-- Of two buddies the first one would have been a block of the next order. -/
theorem RangeSet.noBuddies (h : RangeSet st a b bs R s s') : NoBuddies bs := by
  have hpair : ∀ B ∈ bs, ∀ C ∈ bs, B.order = C.order → B.order < maxPpageBlockOrder - 1 →
      B.ppn % 2 ^ (B.order + 1) = 0 → C.ppn ≠ B.ppn + 2 ^ B.order := by
    intro B hB C hC heq hlt hmod hnext
    have hbig := h.biggest B hB (B.order + 1) (Nat.lt_succ_self _) (by omega) hmod
    have hfit : C.ppn + 2 ^ C.order - 1 < b := by
      refine (h.tiles.pages_within hC ?_).2
      have hpos := Nat.two_pow_pos C.order
      rw [Block.mem_pages]
      omega
    rw [← heq] at hfit
    rw [Nat.pow_succ] at hbig
    omega
  intro B hB C hC heq hlt hbuddy
  rcases xor_two_pow_aligned (h.aligned B hB) with ⟨hmod, hxor⟩ | ⟨hmod, hxor⟩
  · exact hpair B hB C hC heq hlt hmod (hbuddy.trans hxor)
  · rw [← hbuddy, heq] at hmod hxor
    exact hpair C hC B hB heq.symm (heq ▸ hlt) hmod hxor

/-- What `_range_ppages_set_status` makes of the pages from `first` to `last`. -/
structure RangeBlocks (st : PpageStatus) (first last : Nat) (bs : List Block) (R : RingFamily)
    (s s' : Phys) : Prop where
  tiles : Tiles first bs (last + 1)
  order_le : ∀ B ∈ bs, B.order ≤ 9
  aligned : ∀ B ∈ bs, B.ppn % 2 ^ B.order = 0
  noBuddies : NoBuddies bs
  /-- The heads of the blocks are appended to the rings of their orders. -/
  rings : s'.Rings everyStatus fun st' k =>
    if st' = st then R st' k ++ headsOf k bs else R st' k
  increasing : ∀ k, (headsOf k bs).Pairwise (· < ·)
  info : ∀ B ∈ bs, ∀ x ∈ B.pages, (s'.dscrs x).unlinked = B.dscr st x
  others : ∀ x, x < first ∨ last < x → (s'.dscrs x).unlinked = (s.dscrs x).unlinked
  firstPpn : s'.firstPpn = s.firstPpn
  lastPpn : s'.lastPpn = s.lastPpn

theorem RangeSet.rangeBlocks (h : RangeSet st first (last + 1) bs R s s') :
    RangeBlocks st first last bs R s s' where
  tiles := h.tiles
  order_le B hB := Nat.le_of_lt_succ (h.order_lt B hB)
  aligned := h.aligned
  noBuddies := h.noBuddies
  rings := by
    have heq : R.add st bs = fun st' k => if st' = st then R st' k ++ headsOf k bs else R st' k :=
      funext₂ fun st' k => R.add_eq st bs st' k
    rw [← heq]
    exact h.rings
  increasing := h.tiles.headsOf_increasing
  info := h.marked.info
  others x hx := by
    refine h.marked.others x fun B hB hmem => ?_
    have hin := h.tiles.pages_within hB hmem
    omega
  firstPpn := h.marked.firstPpn
  lastPpn := h.marked.lastPpn

theorem rangePpagesSetStatus_blocks (st : PpageStatus) (s : Phys) (hlast : last < 2 ^ 20) :
    (∀ R, first ≤ last → s.Rings everyStatus R →
      (∀ st' k, ∀ x ∈ R st' k, x < first ∨ last < x) →
      ∃ s' bs, rangePpagesSetStatus first last st s = .ok ((), s') ∧
        RangeBlocks st first last bs R s s') ∧
    (last < first → rangePpagesSetStatus first last st s = .ok ((), s)) := by
  constructor
  · intro R hle hR hout
    obtain ⟨s', bs, hrun, hset⟩ := rangePpagesSetStatus_spec st (Nat.succ_pos last) (by omega)
      (Nat.le_succ_of_le hle) hR hout
    exact ⟨s', bs, hrun, hset.rangeBlocks⟩
  · intro hlt
    rw [rangePpagesSetStatus, rangeLoop, if_neg (Nat.not_le_of_lt hlt)]
    rfl

theorem rangePpagesSetStatus_blocks_small : ∃ s' bs,
    rangePpagesSetStatus 3 12 .free ⟨0, 15, fun _ => ⟨false, 0, 0, 0, 0, none, none⟩,
      fun _ => none, fun _ => none⟩ = .ok ((), s') ∧
    RangeBlocks .free 3 12 bs (fun _ _ => []) ⟨0, 15, fun _ => ⟨false, 0, 0, 0, 0, none, none⟩,
      fun _ => none, fun _ => none⟩ s' := by
  refine (rangePpagesSetStatus_blocks .free _ (by decide)).1 (fun _ _ => []) (by decide) ?_ ?_
  · refine ⟨fun st k _ => ?_, fun _ _ _ _ _ _ _ hx => (nomatch hx)⟩
    cases st <;> exact .nil _
  · intro _ _ x hx
    cases hx

end Atros
