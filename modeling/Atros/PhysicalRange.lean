import Atros.Extent
import Atros.PhysicalRings

namespace Atros
set_option autoImplicit true

/-- A block of `2 ^ order` pages. -/
@[ext] structure Block where
  ppn : Nat
  order : Nat
  deriving DecidableEq, Repr

def Block.pages (b : Block) : Extent := ⟨b.ppn, 2 ^ b.order⟩

@[simp] theorem Block.mem_pages (b : Block) : x ∈ b.pages ↔ b.ppn ≤ x ∧ x < b.ppn + 2 ^ b.order :=
  Iff.rfl

@[simp] theorem Block.mem_pages_mk : x ∈ (Block.mk p o).pages ↔ p ≤ x ∧ x < p + 2 ^ o := Iff.rfl

theorem Block.ppn_mem (b : Block) : b.ppn ∈ b.pages :=
  ⟨le_refl _, Nat.lt_add_of_pos_right (Nat.two_pow_pos _)⟩

/-- The blocks `bs` fill the pages from `a` to `b - 1` one after the other. -/
def Tiles : Nat → List Block → Nat → Prop
  | a, [], b => a = b
  | a, B :: bs, b => B.ppn = a ∧ Tiles (a + 2 ^ B.order) bs b

theorem Tiles.append (h : Tiles a bs b) (h' : Tiles b cs c) : Tiles a (bs ++ cs) c := by
  induction bs generalizing a with
  | nil =>
    cases h
    exact h'
  | cons B bs ih => exact ⟨h.1, ih h.2⟩

theorem Tiles.le (h : Tiles a bs b) : a ≤ b := by
  induction bs generalizing a with
  | nil => exact Nat.le_of_eq h
  | cons B bs ih =>
    have hle := ih h.2
    have hpos := Nat.two_pow_pos B.order
    omega

theorem Tiles.mem_iff (h : Tiles a bs b) : (∃ B ∈ bs, x ∈ B.pages) ↔ a ≤ x ∧ x < b := by
  induction bs generalizing a with
  | nil =>
    cases h
    simp only [List.not_mem_nil, false_and, exists_false, false_iff]
    omega
  | cons B bs ih =>
    obtain ⟨rfl, h⟩ := h
    have hle := h.le
    have hpos := Nat.two_pow_pos B.order
    have ih := ih h
    simp only [List.mem_cons, exists_eq_or_imp]
    rw [ih, Block.mem_pages]
    omega

theorem Tiles.pages_within (h : Tiles a bs b) (hB : B ∈ bs) (hx : x ∈ B.pages) :
    a ≤ x ∧ x < b := h.mem_iff.mp ⟨B, hB, hx⟩

theorem Tiles.apart (h : Tiles a bs b) :
    bs.Pairwise fun B C => B.pages.Apart C.pages := by
  induction bs generalizing a with
  | nil => exact .nil
  | cons B bs ih =>
    obtain ⟨rfl, h⟩ := h
    refine List.pairwise_cons.mpr ⟨?_, ih h⟩
    intro C hC x hx hx'
    have hb := h.pages_within hC hx'
    rw [Block.mem_pages] at hx
    omega

/-! ### The choice of an order -/

theorem fits_iff (hl : lastPpage + 2 ^ order < 2 ^ 32) (h : ppn ≤ lastPpage) :
    (isBuddyBlock ppn order ∧ sub32 (add32 ppn (1 <<< order)) 1 ≤ lastPpage) ↔
      ppn % 2 ^ order = 0 ∧ ppn + 2 ^ order ≤ lastPpage + 1 := by
  have hpos := Nat.two_pow_pos order
  rw [isBuddyBlock, decide_eq_true_eq, Nat.one_shiftLeft, add32_of_lt (by omega),
    sub32_of_le (by omega) (by omega)]
  refine and_congr_right fun _ => ?_
  omega

theorem biggestOrder_spec (order : Nat) (hl : lastPpage + 2 ^ order < 2 ^ 32)
    (h : ppn ≤ lastPpage) : ∃ o ≤ order, biggestOrder ppn lastPpage order = some o ∧
    ppn % 2 ^ o = 0 ∧
      ppn + 2 ^ o ≤ lastPpage + 1 ∧
      ∀ o', o < o' → o' ≤ order → ppn % 2 ^ o' = 0 → lastPpage + 1 < ppn + 2 ^ o' := by
  induction order with
  | zero =>
    have hfit := (fits_iff hl h).mpr ⟨by rw [Nat.pow_zero, Nat.mod_one], by omega⟩
    exact ⟨0, le_refl 0, if_pos hfit, by rw [Nat.pow_zero, Nat.mod_one], by omega,
      fun o' h₁ h₂ => absurd h₂ (by omega)⟩
  | succ order ih =>
    have hpow : 2 ^ (order + 1) = 2 ^ order + 2 ^ order := by
      rw [Nat.pow_succ]
      omega
    by_cases hfit : ppn % 2 ^ (order + 1) = 0 ∧ ppn + 2 ^ (order + 1) ≤ lastPpage + 1
    · exact ⟨order + 1, le_refl _, if_pos ((fits_iff hl h).mpr hfit), hfit.1, hfit.2,
        fun o' h₁ h₂ => absurd h₂ (by omega)⟩
    · obtain ⟨o, ho, heq, hmod, hle, hmax⟩ := ih (by omega)
      refine ⟨o, by omega, ?_, hmod, hle, ?_⟩
      · rw [biggestOrder, if_neg (fun hc => hfit ((fits_iff hl h).mp hc)), heq]
      · intro o' h₁ h₂ hmod'
        rcases Nat.lt_or_ge order o' with h₃ | h₃
        · have ho' : o' = order + 1 := by omega
          subst ho'
          exact Nat.lt_of_not_le fun hc => hfit ⟨hmod', hc⟩
        · exact hmax o' h₁ h₃ hmod'

/-! ### One block -/

/-- What the descriptor of a page of a block says, apart from its pointers. -/
def Block.dscr (b : Block) (st : PpageStatus) (x : Nat) : Ppage :=
  ⟨x = b.ppn, b.order, st.count, 0, 0, none, none⟩

/-- The descriptors of the pages of the blocks have been set, the others are as before. -/
structure Phys.Marked (st : PpageStatus) (bs : List Block) (s s' : Phys) : Prop where
  firstPpn : s'.firstPpn = s.firstPpn
  lastPpn : s'.lastPpn = s.lastPpn
  info : ∀ B ∈ bs, ∀ x ∈ B.pages, (s'.dscrs x).unlinked = B.dscr st x
  others : ∀ x, (∀ B ∈ bs, x ∉ B.pages) → (s'.dscrs x).unlinked = (s.dscrs x).unlinked

theorem Phys.Marked.cons (h : Phys.Marked st [B] s s₁) (h' : Phys.Marked st bs s₁ s₂)
    (hapart : ∀ C ∈ bs, B.pages.Apart C.pages) : Phys.Marked st (B :: bs) s s₂ where
  firstPpn := by rw [h'.firstPpn, h.firstPpn]
  lastPpn := by rw [h'.lastPpn, h.lastPpn]
  info C hC x hx := by
    rcases List.mem_cons.mp hC with rfl | hC
    · rw [h'.others x fun D hD => hapart D hD x hx]
      exact h.info C List.mem_cons_self x hx
    · exact h'.info C hC x hx
  others x hx := by
    rw [h'.others x fun C hC => hx C (List.mem_cons_of_mem B hC)]
    refine h.others x fun C hC => ?_
    rw [List.mem_singleton.mp hC]
    exact hx B List.mem_cons_self

theorem setBlockTail_eq (st : PpageStatus) (order n a : Nat) (s : Phys) :
    setBlockTail st order n a s = .ok ((), { s with
      dscrs := fun x => if a ≤ x ∧ x < a + n then
        ⟨false, order, st.count, 0, 0, none, none⟩ else s.dscrs x }) := by
  induction n generalizing a s with
  | zero =>
    have hfun : (fun x => if a ≤ x ∧ x < a + 0 then
        (⟨false, order, st.count, 0, 0, none, none⟩ : Ppage) else s.dscrs x) = s.dscrs := by
      funext x
      exact if_neg (by omega)
    rw [hfun]
    rfl
  | succ n ih =>
    have hstep : setBlockTail st order (n + 1) a s = setBlockTail st order n (a + 1)
        (s.setDscr a ⟨false, order, st.count, 0, 0, none, none⟩) := by
      cases st <;>
        simp only [setBlockTail, PpageStatus.set, ppageSetFree, ppageSetUsed, bind_write, countOf,
          blockHeadOf, blockOrderOf, slabOf, mappingOf, prevOf, nextOf, Phys.setDscr_setDscr,
          Phys.dscrs_setDscr, if_true, PpageStatus.count]
    rw [hstep, ih]
    refine congrArg (fun f => Except.ok ((), { s with dscrs := f })) ?_
    funext x
    rw [Phys.dscrs_setDscr]
    by_cases hx : x = a
    · rw [if_neg (by omega), if_pos hx, if_pos (by omega)]
    · rw [if_neg hx]
      by_cases hin : a + 1 ≤ x ∧ x < a + 1 + n
      · rw [if_pos hin, if_pos (by omega)]
      · rw [if_neg hin, if_neg (by omega)]

def everyStatus (_ : PpageStatus) : Prop := True

/-- `_range_ppages_set_status` on one block: its pages are marked and its head is appended to
the ring of its order. -/
theorem setBlock_spec (st : PpageStatus) (ppn order : Nat) (h : Phys.Rings everyStatus s R)
    (hout : ∀ st' k', ∀ x ∈ R st' k', x ∉ (Block.mk ppn order).pages) :
    ∃ s', setBlock st ppn order s = .ok ((), s') ∧
      s'.Rings everyStatus (R.set st order (R st order ++ [ppn])) ∧
      Phys.Marked st [⟨ppn, order⟩] s s' := by
  have hhead := Block.ppn_mem ⟨ppn, order⟩
  have hstart : ∃ d : Ppage, d.unlinked = Block.dscr ⟨ppn, order⟩ st ppn ∧
      d.prev = (s.dscrs ppn).prev ∧ d.next = (s.dscrs ppn).next ∧
      setBlock st ppn order s = (clistPushTail (st.clist order) prevOf nextOf ppn >>=
        fun _ => setBlockTail st order ((1 <<< order) - 1) (ppn + 1)) (s.setDscr ppn d) := by
    refine ⟨⟨true, order, st.count, 0, 0, (s.dscrs ppn).prev, (s.dscrs ppn).next⟩, ?_, rfl, rfl,
      ?_⟩
    · simp only [Ppage.unlinked, Block.dscr, decide_true]
    · cases st <;>
        simp only [setBlock, PpageStatus.set, ppageSetFree, ppageSetUsed, bind_write, countOf,
          blockHeadOf, blockOrderOf, slabOf, mappingOf, Phys.setDscr_setDscr, Phys.dscrs_setDscr,
          if_true, PpageStatus.count]
  obtain ⟨d, hd, hprev, hnext, hrun⟩ := hstart
  -- the head descriptor gets its fields, then its place on the ring, then come the tails
  have h₁ : (s.setDscr ppn d).Rings everyStatus R :=
    h.transport (fun _ _ _ => PpageStatus.get_setDscr ..)
      (fun _ _ x _ _ => s.links_setDscr_of_unlinked x hprev hnext)
  obtain ⟨s₂, hpush, h₂, honly, -⟩ := h₁.push order (show everyStatus st from trivial)
    (fun st' k' _ hmem => hout st' k' ppn hmem hhead)
  rw [bind_ok hpush, setBlockTail_eq] at hrun
  refine ⟨_, hrun, ?_, ?_⟩
  · refine h₂.transport (fun st' k' _ => by cases st' <;> rfl) ?_
    intro st' k' x _ hx
    have hnot : ¬(ppn + 1 ≤ x ∧ x < ppn + 1 + (1 <<< order - 1)) := by
      rw [Nat.one_shiftLeft]
      by_cases heq : st' = st ∧ k' = order
      · obtain ⟨rfl, rfl⟩ := heq
        rw [RingFamily.set_self] at hx
        rcases List.mem_append.mp hx with hx | hx
        · have hmem := hout _ _ x hx
          rw [Block.mem_pages_mk] at hmem
          omega
        · rw [List.mem_singleton.mp hx]
          omega
      · rw [R.set_of_ne heq] at hx
        have hmem := hout _ _ x hx
        rw [Block.mem_pages_mk] at hmem
        omega
    simp only [SamePointers, Phys.links, linksOf, prevOf, nextOf, if_neg hnot, and_self]
  · have hpos := Nat.two_pow_pos order
    refine ⟨honly.firstPpn, honly.lastPpn, ?_, ?_⟩
    · intro B hB x hx
      rw [List.mem_singleton.mp hB] at hx ⊢
      rw [Block.mem_pages_mk] at hx
      simp only [Nat.one_shiftLeft]
      by_cases hxp : x = ppn
      · subst hxp
        rw [if_neg (by omega), honly.info, Phys.dscrs_setDscr, if_pos rfl, hd]
      · rw [if_pos (by omega)]
        simp only [Ppage.unlinked, Block.dscr, hxp, decide_false]
    · intro x hx
      have hxB := hx _ List.mem_cons_self
      rw [Block.mem_pages_mk] at hxB
      simp only [Nat.one_shiftLeft]
      rw [if_neg (by omega), honly.info, Phys.dscrs_setDscr, if_neg (by omega)]

/-! ### The whole range -/

/-- The blocks' heads appended to the rings of their orders. -/
def RingFamily.add (R : RingFamily) (st : PpageStatus) (bs : List Block) : RingFamily :=
  bs.foldl (fun R B => R.set st B.order (R st B.order ++ [B.ppn])) R

/-- The heads of the blocks of an order. -/
def headsOf (k : Nat) (bs : List Block) : List Nat :=
  (bs.filter (·.order = k)).map Block.ppn

theorem mem_headsOf : x ∈ headsOf k bs ↔ ⟨x, k⟩ ∈ bs := by
  rw [headsOf, List.mem_map]
  constructor
  · rintro ⟨B, hB, rfl⟩
    obtain ⟨hB, hk⟩ := List.mem_filter.mp hB
    rw [← of_decide_eq_true hk]
    exact hB
  · intro h
    exact ⟨_, List.mem_filter.mpr ⟨h, decide_eq_true rfl⟩, rfl⟩

theorem headsOf_cons (k : Nat) (B : Block) (bs : List Block) :
    headsOf k (B :: bs) = if B.order = k then B.ppn :: headsOf k bs else headsOf k bs := by
  simp only [headsOf, List.filter_cons, decide_eq_true_eq]
  split <;> rfl

theorem headsOf_append (k : Nat) (bs cs : List Block) :
    headsOf k (bs ++ cs) = headsOf k bs ++ headsOf k cs := by
  rw [headsOf, List.filter_append, List.map_append, headsOf, headsOf]

theorem RingFamily.add_eq (R : RingFamily) (st : PpageStatus) (bs : List Block)
    (st' : PpageStatus) (k : Nat) :
    R.add st bs st' k = if st' = st then R st' k ++ headsOf k bs else R st' k := by
  induction bs generalizing R with
  | nil =>
    rw [headsOf, List.filter_nil, List.map_nil, List.append_nil, ite_self]
    rfl
  | cons B bs ih =>
    rw [add, List.foldl_cons, ← add, ih, headsOf_cons]
    by_cases hst : st' = st
    · subst hst
      rw [if_pos rfl, if_pos rfl]
      by_cases hk : B.order = k
      · subst hk
        rw [set_self, if_pos rfl, List.append_assoc, List.singleton_append]
      · rw [R.set_of_ne (fun h => hk h.2.symm), if_neg hk]
    · rw [if_neg hst, if_neg hst, R.set_of_ne (fun h => hst h.1)]

/-- What `_range_ppages_set_status` does to the pages from `a` to `b - 1`. -/
structure RangeSet (st : PpageStatus) (a b : Nat) (bs : List Block) (R : RingFamily)
    (s s' : Phys) : Prop where
  tiles : Tiles a bs b
  order_lt : ∀ B ∈ bs, B.order < maxPpageBlockOrder
  aligned : ∀ B ∈ bs, B.ppn % 2 ^ B.order = 0
  biggest : ∀ B ∈ bs, ∀ o, B.order < o → o < maxPpageBlockOrder → B.ppn % 2 ^ o = 0 →
    b < B.ppn + 2 ^ o
  marked : Phys.Marked st bs s s'
  rings : s'.Rings everyStatus (R.add st bs)

theorem rangeLoop_spec (st : PpageStatus) (hl : lastPpage + 2 ^ 10 < 2 ^ 32)
    (h : ppn ≤ lastPpage + 1)
    (hr : lastPpage + 2 ≤ rounds + ppn) (hR : Phys.Rings everyStatus s R)
    (hout : ∀ st' k', ∀ x ∈ R st' k', x < ppn ∨ lastPpage < x) :
    ∃ s' bs, rangeLoop st lastPpage rounds ppn s = .ok ((), s') ∧
      RangeSet st ppn (lastPpage + 1) bs R s s' := by
  induction rounds generalizing ppn s R with
  | zero => omega
  | succ rounds ih =>
    rw [rangeLoop]
    by_cases hle : ppn ≤ lastPpage
    · obtain ⟨o, ho, hbig, hmod, hfit, hmax⟩ :=
        biggestOrder_spec (maxPpageBlockOrder - 1) (Nat.lt_of_le_of_lt
          (Nat.add_le_add_left (Nat.pow_le_pow_right (by decide) (by decide)) _) hl) hle
      have hpos := Nat.two_pow_pos o
      rw [if_pos hle, hbig, bind_ok deref_some]
      obtain ⟨s₁, hrun, hR₁, hm₁⟩ := setBlock_spec st ppn o hR
        (by
          intro st' k' x hx hmem
          rw [Block.mem_pages_mk] at hmem
          have hb := hout st' k' x hx
          omega)
      rw [bind_ok hrun, Nat.one_shiftLeft, add32_of_lt (by omega)]
      obtain ⟨s₂, bs, hloop, hset⟩ := ih hfit (by omega) hR₁
        (by
          intro st' k' x hx
          by_cases heq : st' = st ∧ k' = o
          · obtain ⟨rfl, rfl⟩ := heq
            rw [RingFamily.set_self] at hx
            rcases List.mem_append.mp hx with hx | hx
            · have hb := hout _ _ x hx
              omega
            · rw [List.mem_singleton.mp hx]
              omega
          · rw [R.set_of_ne heq] at hx
            have hb := hout _ _ x hx
            omega)
      refine ⟨s₂, ⟨ppn, o⟩ :: bs, hloop, ⟨rfl, hset.tiles⟩, ?_, ?_, ?_, ?_, hset.rings⟩
      · intro B hB
        rcases List.mem_cons.mp hB with rfl | hB
        · exact Nat.lt_of_le_of_lt ho (by decide)
        · exact hset.order_lt B hB
      · intro B hB
        rcases List.mem_cons.mp hB with rfl | hB
        · exact hmod
        · exact hset.aligned B hB
      · intro B hB o' ho' hlt hmod'
        rcases List.mem_cons.mp hB with rfl | hB
        · exact hmax o' ho' (Nat.le_of_lt_succ hlt) hmod'
        · exact hset.biggest B hB o' ho' hlt hmod'
      · refine hm₁.cons hset.marked ?_
        intro C hC x hx hx'
        have hb := hset.tiles.pages_within hC hx'
        rw [Block.mem_pages_mk] at hx
        omega
    · rw [if_neg hle]
      have heq : ppn = lastPpage + 1 := by omega
      refine ⟨s, [], rfl, heq, ?_, ?_, ?_, ⟨rfl, rfl, ?_, fun _ _ => rfl⟩, hR⟩
      · intro B hB
        cases hB
      · intro B hB
        cases hB
      · intro B hB
        cases hB
      · intro B hB
        cases hB

/-- `_range_ppages_set_status` on the pages from `a` to `b - 1`, none of them on a ring. -/
theorem rangePpagesSetStatus_spec (st : PpageStatus) (hb : 1 ≤ b) (hl : b + 2 ^ 10 < 2 ^ 32)
    (hab : a ≤ b) (hR : Phys.Rings everyStatus s R)
    (hout : ∀ st' k', ∀ x ∈ R st' k', x < a ∨ b ≤ x) :
    ∃ s' bs, rangePpagesSetStatus a (b - 1) st s = .ok ((), s') ∧ RangeSet st a b bs R s s' := by
  have hsub : b - 1 + 1 = b := Nat.sub_add_cancel hb
  have hl' : b - 1 + 2 ^ 10 < 2 ^ 32 := by omega
  have ha : a ≤ b - 1 + 1 := by omega
  have hr : b - 1 + 2 ≤ b - 1 + 1 - a + 1 + a := by omega
  obtain ⟨s', bs, hrun, hset⟩ := rangeLoop_spec st hl' ha hr hR
    (fun st' k' x hx => by
      have hx := hout st' k' x hx
      omega)
  rw [hsub] at hset
  exact ⟨s', bs, hrun, hset⟩

end Atros
