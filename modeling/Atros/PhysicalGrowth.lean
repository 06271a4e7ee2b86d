import Atros.BlockOrders
import Atros.SlabCaches

namespace Atros
set_option autoImplicit true

variable {s t : Phys} {free live : List Block}

/-! ### The allocator as long as no block is freed -/

/-- The heads of the used rings and their predecessors are no free pages. -/
def Phys.UsedOff (s : Phys) (free : List Block) : Prop :=
  ∀ i a, s.usedClists i = some a →
    ¬InFree free a ∧ ∃ q, s.links.prev a = some q ∧ ¬InFree free q

/-- No block has been freed so far: the used rings are off the free pages, and no free page
belongs to a slab. -/
structure Phys.Grown (s : Phys) (free live : List Block) : Prop where
  sound : s.FreeSound free
  used : s.UsedOff free
  blocks : s.Blocks (free ++ live)
  unset : ∀ x, InFree free x → (s.dscrs x).slab = 0

theorem Phys.usedPrevs_off (s : Phys) (hp : InFree free p) (hx : ¬InFree free x)
    (hq : s.links.prev x = some q) (hnq : ¬InFree free q) (m d : Nat) :
    ∃ q', s.usedPrevs p m d x = some q' ∧ (q' = p ∨ ¬InFree free q') := by
  have hxp : x ≠ p := fun heq => hx (heq ▸ hp)
  rcases s.usedPrevs_cases hxp m d with hpush | hold
  · exact ⟨p, hpush, .inl rfl⟩
  · exact ⟨q, hold.trans hq, .inr hnq⟩

theorem Phys.UsedOff.usedPrevs_self (h : s.UsedOff free) (hp : InFree free p) (m d : Nat) :
    ∃ q', s.usedPrevs p m (d + 1) p = some q' ∧ (q' = p ∨ ¬InFree free q') := by
  rw [Phys.usedPrevs]
  cases ha : s.usedClists (m - d) with
  | none => exact ⟨p, Function.update_self .., .inl rfl⟩
  | some a =>
    obtain ⟨hna, q, hq, hnq⟩ := h _ a ha
    have hpa : p ≠ a := fun heq => hna (heq ▸ hp)
    rw [pushedPrev, Function.update_of_ne hpa, Function.update_self]
    exact s.usedPrevs_off hp hna hq hnq m d

theorem Phys.FreeSound.inFree_head (h : s.FreeSound free) (hmem : ⟨p, k + d⟩ ∈ free) :
    ∀ x, x = p ∨ ¬InFree free x → ¬IsHead (afterSplit free p k d) x := by
  rintro x (rfl | hx) hhead
  · exact h.not_head hmem hhead
  · exact hx ((inFree_afterSplit h hmem).mp hhead.inFree).1

theorem Phys.UsedOff.pushesOff (hu : s.UsedOff free) (h : s.FreeSound free)
    (hmem : ⟨p, k + d⟩ ∈ free) : s.PushesOff free p (k + d) d := by
  intro e he a ha
  have hsplit : k + d - e + e = k + d := by omega
  have hmem' : ⟨p, k + d - e + e⟩ ∈ free := by rwa [hsplit]
  obtain ⟨hna, q, hq, hnq⟩ := hu _ a ha
  obtain ⟨q', hq', hcase⟩ :=
    s.usedPrevs_off ⟨_, hmem, Block.ppn_mem ⟨p, k + d⟩⟩ hna hq hnq (k + d) e
  exact ⟨h.inFree_head hmem' a (.inr hna), q', hq', h.inFree_head hmem' q' hcase⟩

/-- What an allocation of the block `b` leaves. -/
structure Phys.Taken (s t : Phys) (free live : List Block) (b : Block) (free' : List Block) :
    Prop where
  grown : t.Grown free' (b :: live)
  blocks : ∃ c, ∀ a ∈ free, a ≠ c → a ∈ free'
  pages : ∀ x, InFree free' x ↔ InFree free x ∧ x ∉ b.pages
  taken : ∀ x, x ∈ b.pages → InFree free x
  slab : ∀ x, (t.dscrs x).slab = (s.dscrs x).slab
  firstPpn : t.firstPpn = s.firstPpn
  lastPpn : t.lastPpn = s.lastPpn

theorem Phys.Taken.left (h : Phys.Taken s t free live b free') (x : Nat) (hx : InFree free x)
    (hb : x ∉ b.pages) : InFree free' x := (h.pages x).mpr ⟨hx, hb⟩

theorem Phys.Carved.slab (hc : s.Carved t p k d) (x : Nat) :
    (t.dscrs x).slab = (s.dscrs x).slab := by
  change (t.dscrs x).unlinked.slab = (s.dscrs x).unlinked.slab
  by_cases hxp : x = p
  · rw [hxp, hc.block]
  by_cases hx : ∃ i, k ≤ i ∧ i < k + d ∧ x = p + 2 ^ i
  · obtain ⟨i, h₁, h₂, rfl⟩ := hx
    rw [hc.upper i h₁ h₂]
  · rw [hc.others x hxp fun i h₁ h₂ heq => hx ⟨i, h₁, h₂, heq⟩]

theorem Phys.Grown.blocks_split (h : s.Grown free live) (hmem : ⟨p, k + d⟩ ∈ free) :
    s.Blocks (afterSplit free p k d ++ ⟨p, k⟩ :: live) := by
  have hfree := h.sound.blocks.split hmem
  have hpages : ∀ b ∈ ⟨p, k⟩ :: afterSplit free p k d, ∀ x ∈ b.pages, InFree free x := by
    intro b hb x hx
    rcases List.mem_cons.mp hb with rfl | hb
    · refine ⟨_, hmem, ?_⟩
      have hpow := Nat.pow_le_pow_right (n := 2) (by decide) (Nat.le_add_right k d)
      rw [Block.mem_pages_mk] at *
      omega
    · exact ((inFree_afterSplit h.sound hmem).mp ⟨b, hb, hx⟩).1
  obtain ⟨-, hlive, hcross⟩ := List.pairwise_append.mp h.blocks.apart
  have hall : s.Blocks (⟨p, k⟩ :: afterSplit free p k d ++ live) := by
    refine ⟨List.pairwise_append.mpr ⟨hfree.apart, hlive, ?_⟩, ?_, ?_, hfree.last_lt⟩
    · intro b hb c hc x hx hxc
      obtain ⟨b', hb', hx'⟩ := hpages b hb x hx
      exact hcross b' hb' c hc x hx' hxc
    · intro b hb
      rcases List.mem_append.mp hb with hb | hb
      · exact hfree.first_le b hb
      · exact h.blocks.first_le b (List.mem_append_right free hb)
    · intro b hb
      rcases List.mem_append.mp hb with hb | hb
      · exact hfree.le_last b hb
      · exact h.blocks.le_last b (List.mem_append_right free hb)
  exact hall.perm List.perm_middle.symm

theorem Phys.Grown.taken (h : s.Grown free live) (hp : s.freeClists (k + d) = some p)
    (ho : s.Outcome t free p k d) : s.Taken t free live ⟨p, k⟩ (afterSplit free p k d) := by
  have hmem := h.sound.mem hp
  have hin : InFree free p := ⟨_, hmem, Block.ppn_mem ⟨p, k + d⟩⟩
  have hcarved := ho.carved
  have hkept := ho.kept (h.used.pushesOff h.sound hmem)
  have hpages := fun x => inFree_afterSplit (x := x) h.sound hmem
  have hout : ∀ x, x = p ∨ ¬InFree free x → ¬InFree (afterSplit free p k d) x := by
    rintro x (rfl | hx) hx'
    · exact ((hpages x).mp hx').2 (Block.ppn_mem ⟨x, k⟩)
    · exact hx ((hpages x).mp hx').1
  have hprev : ∀ x, x = p ∨ ¬InFree free x →
      (∃ q, s.usedPrevs p (k + d) (d + 1) x = some q ∧ (q = p ∨ ¬InFree free q)) →
      ∃ q, t.links.prev x = some q ∧ ¬InFree (afterSplit free p k d) q := by
    rintro x hx ⟨q, hq, hcase⟩
    refine ⟨q, (hkept.prevs x q ?_ ?_).mpr hq, hout q hcase⟩
    · exact h.sound.inFree_head hmem x hx
    · exact h.sound.inFree_head hmem q hcase
  have hold : ∀ i a, s.usedClists i = some a → ¬InFree (afterSplit free p k d) a ∧
      ∃ q, t.links.prev a = some q ∧ ¬InFree (afterSplit free p k d) q := by
    intro i a ha
    obtain ⟨hna, q, hq, hnq⟩ := h.used i a ha
    exact ⟨hout a (.inr hna), hprev a (.inr hna) (s.usedPrevs_off hin hna hq hnq (k + d) (d + 1))⟩
  have hothers : ∀ a ∈ free, a ≠ ⟨p, k + d⟩ → a ∈ afterSplit free p k d := fun a ha hne =>
    List.mem_append_left _ ((List.mem_erase_of_ne hne).mpr ha)
  refine ⟨⟨hkept.freeSound hcarved h.sound hmem, ?_, ?_, ?_⟩, ⟨_, hothers⟩, hpages, ?_,
    hcarved.slab, hcarved.firstPpn, hcarved.lastPpn⟩
  · intro i a ha
    by_cases hi : k ≤ i ∧ i ≤ k + d
    · rw [hcarved.used i hi.1 hi.2] at ha
      cases hold' : s.usedClists i with
      | some b =>
        rw [hold'] at ha
        cases ha
        exact hold i _ hold'
      | none =>
        rw [hold'] at ha
        cases ha
        exact ⟨hout _ (.inl rfl), hprev _ (.inl rfl) (h.used.usedPrevs_self hin (k + d) d)⟩
    · rw [hcarved.otherUsed i (by omega)] at ha
      exact hold i a ha
  · exact (h.blocks_split hmem).same hcarved.firstPpn hcarved.lastPpn
  · intro x hx
    rw [hcarved.slab]
    exact h.unset x ((hpages x).mp hx).1
  · intro x hx
    have hpow := Nat.pow_le_pow_right (n := 2) (by decide) (Nat.le_add_right k d)
    refine ⟨_, hmem, ?_⟩
    rw [Block.mem_pages_mk] at *
    omega

/-- There are `n` free blocks of order `k` or more. -/
def HasBlocks (free : List Block) (k n : Nat) : Prop :=
  ∃ bs : List Block, bs.Nodup ∧ n ≤ bs.length ∧ ∀ b ∈ bs, k ≤ b.order ∧ b ∈ free

theorem HasBlocks.le (h : HasBlocks free k n) (hle : m ≤ n) : HasBlocks free k m := by
  obtain ⟨bs, hnodup, hlen, hfree⟩ := h
  exact ⟨bs, hnodup, hle.trans hlen, hfree⟩

theorem HasBlocks.exists_mem (h : HasBlocks free k (n + 1)) : ∃ b ∈ free, k ≤ b.order := by
  obtain ⟨bs, -, hlen, hfree⟩ := h
  obtain ⟨b, hb⟩ := List.exists_mem_of_length_pos (Nat.lt_of_lt_of_le (Nat.succ_pos n) hlen)
  exact ⟨b, (hfree b hb).2, (hfree b hb).1⟩

theorem HasBlocks.of_mem (hb : b ∈ free) (hk : k ≤ b.order) : HasBlocks free k 1 :=
  ⟨[b], List.nodup_singleton b, le_refl 1, fun _ hc => List.mem_singleton.mp hc ▸ ⟨hk, hb⟩⟩

theorem HasBlocks.taken (h : HasBlocks free k (n + 1))
    (hblocks : ∃ c, ∀ a ∈ free, a ≠ c → a ∈ free') : HasBlocks free' k n := by
  obtain ⟨bs, hnodup, hlen, hfree⟩ := h
  obtain ⟨c, hc⟩ := hblocks
  refine ⟨bs.erase c, hnodup.erase _, ?_, fun b hb => ?_⟩
  · have herase := List.le_length_erase (a := c) (l := bs)
    omega
  · obtain ⟨hne, hb⟩ := hnodup.mem_erase_iff.mp hb
    exact ⟨(hfree b hb).1, hc b (hfree b hb).2 hne⟩

theorem ppageBlockAlloc_grown (h : s.Grown free live) (hk : k < maxPpageBlockOrder) :
    Ends (fun e => e = .blockOrderTooLarge ∧ ¬HasBlocks free k 1)
      (fun p t => ∃ free', s.Taken t free live ⟨p, k⟩ free') (ppageBlockAlloc k s) := by
  by_cases hempty : ∀ j, k ≤ j → j < maxPpageBlockOrder → s.freeClists j = none
  · have hfull : ppageBlockAlloc_ k s = .error .blockOrderTooLarge :=
      ppageBlockAllocFrom_exhausted hempty (Nat.add_sub_of_le hk.le)
    rw [ppageBlockAlloc, bind_error hfull]
    refine ⟨rfl, fun hblocks => ?_⟩
    obtain ⟨b, hb, horder⟩ := hblocks.exists_mem
    have hring := h.sound.ring b.order
    rw [hempty b.order horder (h.sound.partition.order_lt b hb)] at hring
    have hmem : b.ppn ∈ headsOf b.order free := mem_headsOf.mpr hb
    rw [hring.eq_nil] at hmem
    exact nomatch hmem
  · push Not at hempty
    obtain ⟨m, hm, -, hne⟩ := hempty
    obtain ⟨d, p, hp, hnone⟩ := exists_first_order ⟨m, hm, hne⟩
    have hoff := h.used.pushesOff h.sound (h.sound.mem hp)
    refine Ends.bind ((ppageBlockAlloc_outcome h.sound hp hnone).mono
      (fun _ hno => absurd hoff hno) fun _ _ h => h) ?_
    rintro _ t ⟨rfl, ho⟩
    exact ⟨_, h.taken hp ho⟩

/-- There are `n` free pages. -/
def HasPages (free : List Block) (n : Nat) : Prop :=
  ∃ xs : List Nat, xs.Nodup ∧ n ≤ xs.length ∧ ∀ x ∈ xs, InFree free x

theorem HasPages.le (h : HasPages free n) (hle : m ≤ n) : HasPages free m := by
  obtain ⟨xs, hnodup, hlen, hfree⟩ := h
  exact ⟨xs, hnodup, hle.trans hlen, hfree⟩

theorem HasPages.ne_nil (h : HasPages free (n + 1)) : free ≠ [] := by
  obtain ⟨xs, -, hlen, hfree⟩ := h
  obtain ⟨x, hx⟩ := List.exists_mem_of_length_pos (Nat.lt_of_lt_of_le (Nat.succ_pos n) hlen)
  obtain ⟨b, hb, -⟩ := hfree x hx
  exact List.ne_nil_of_mem hb

theorem HasPages.taken (h : HasPages free (n + 1)) (hb : b.order = 0)
    (hleft : ∀ x, InFree free x → x ∉ Block.pages b → InFree free' x) : HasPages free' n := by
  obtain ⟨xs, hnodup, hlen, hfree⟩ := h
  refine ⟨xs.erase b.ppn, hnodup.erase _, ?_, fun x hx => ?_⟩
  · have herase := List.le_length_erase (a := b.ppn) (l := xs)
    omega
  · refine hleft x (hfree x (List.mem_of_mem_erase hx)) fun hin => ?_
    rw [Block.pages, hb, Extent.mem_mk] at hin
    exact (hnodup.mem_erase_iff.mp hx).1 (by omega)

/-- There is a block for `m` pages, and `n` single pages can be taken before. -/
def HasRoom (free : List Block) (m n : Nat) : Prop :=
  m = 1 ∧ HasPages free (n + 1) ∨
    m ≤ 512 ∧ HasBlocks free (enoughOrder m maxPpageBlockOrder 0) (n + 1)

theorem HasRoom.le (h : HasRoom free m n) (hle : n' ≤ n) : HasRoom free m n' := by
  refine h.imp (fun ⟨hone, hpages⟩ => ⟨hone, hpages.le ?_⟩)
    fun ⟨hsmall, hblocks⟩ => ⟨hsmall, hblocks.le ?_⟩ <;> exact Nat.succ_le_succ hle

theorem HasRoom.taken (h : HasRoom free m (n + 1)) (hb : b.order = 0)
    (hleft : ∀ x, InFree free x → x ∉ Block.pages b → InFree free' x)
    (hblocks : ∃ c, ∀ a ∈ free, a ≠ c → a ∈ free') : HasRoom free' m n :=
  h.imp (fun ⟨hone, hpages⟩ => ⟨hone, hpages.taken hb hleft⟩)
    fun ⟨hsmall, h⟩ => ⟨hsmall, h.taken hblocks⟩

theorem HasPages.room (h : HasPages free (n + 1)) : HasRoom free 1 n := .inl ⟨rfl, h⟩

theorem HasRoom.blocks (h : HasRoom free m n) :
    m ≤ 512 ∧ HasBlocks free (enoughOrder m maxPpageBlockOrder 0) 1 := by
  rcases h with ⟨rfl, hpages⟩ | ⟨hsmall, hblocks⟩
  · obtain ⟨b, hb⟩ := List.exists_mem_of_ne_nil _ hpages.ne_nil
    exact ⟨by decide, .of_mem hb (Nat.zero_le _)⟩
  · exact ⟨hsmall, hblocks.le (Nat.succ_le_succ (Nat.zero_le n))⟩

theorem ppagesAlloc_grown (h : s.Grown free live) (hn : 1 ≤ n) :
    Ends (fun e => (e = .tooManyPpages ∨ e = .blockOrderTooLarge) ∧ ¬HasRoom free n 0)
      (fun p t => ∃ k free', n ≤ 2 ^ k ∧ (n = 1 → k = 0) ∧ s.Taken t free live ⟨p, k⟩ free')
      (ppagesAlloc n s) := by
  rcases Nat.lt_or_ge n 1024 with hlt | hge
  · rcases Nat.lt_or_ge 512 n with hgt | hle
    · rw [ppagesAlloc_order_ten hgt hlt]
      exact ⟨.inr rfl, fun hroom => absurd hroom.blocks.1 (Nat.not_le.mpr hgt)⟩
    · have hfits := enoughOrder_fits hn hle
      rw [ppagesAlloc_passed hlt]
      refine (ppageBlockAlloc_grown h hfits.order_lt).mono ?_ ?_
      · rintro e ⟨rfl, hno⟩
        exact ⟨.inr rfl, fun hroom => hno hroom.blocks.2⟩
      · rintro p t ⟨free', htaken⟩
        refine ⟨_, free', hfits.enough, ?_, htaken⟩
        rintro rfl
        rfl
  · rw [ppagesAlloc_refused hge]
    refine ⟨.inl rfl, fun hroom => ?_⟩
    have hsmall := hroom.blocks.1
    omega

theorem Phys.Starts.grown (h : Phys.Starts s lastPpage F) (hl : lastPpage < 2 ^ 20) :
    s.Grown (F .free) [] := by
  have hrings := h.ringsSound hl
  have hcross := (List.pairwise_append.mp h.apart).2.2
  have hused : ∀ i a, a ∈ headsOf i (F .used) → ¬InFree (F .free) a := by
    rintro i a ha ⟨b, hb, hab⟩
    exact hcross b hb _ (mem_headsOf.mp ha) a hab (Block.ppn_mem ⟨a, i⟩)
  refine ⟨hrings.freeSound, ?_, hrings.freeSound.partition.blocks, ?_⟩
  · intro i a ha
    have hring := h.usedRing i
    rw [ha] at hring
    obtain ⟨xs, hxs⟩ := hring.eq_cons
    have hmem : a ∈ headsOf i (F .used) := hxs ▸ List.mem_cons_self
    obtain ⟨q, hq, hprev, -⟩ := (h.usedRing i).prev_mem hmem
    exact ⟨hused i a hmem, q, hprev, hused i q hq⟩
  · rintro x ⟨b, hb, hx⟩
    change (s.dscrs x).unlinked.slab = 0
    rw [h.info .free b hb x hx]
    rfl

/-! ### The slab of a physical page -/

/-- Only the slab of the `n` pages from `p` on has changed. -/
structure Phys.SlabSet (s t : Phys) (p n slab : Nat) : Prop where
  pages : ∀ x ∈ Extent.mk p n, t.dscrs x = { s.dscrs x with slab }
  others : ∀ x ∉ Extent.mk p n, t.dscrs x = s.dscrs x
  firstPpn : t.firstPpn = s.firstPpn
  lastPpn : t.lastPpn = s.lastPpn
  freeClists : t.freeClists = s.freeClists
  usedClists : t.usedClists = s.usedClists

theorem setSlabLoop_set (hf : s.firstPpn ≤ p) (hl : p + n ≤ s.lastPpn + 1)
    (hlt : s.lastPpn + 1 < 2 ^ 32) (slab : Nat) :
    ∃ t, setSlabLoop slab n p s = .ok ((), t) ∧ s.SlabSet t p n slab := by
  induction n generalizing p s with
  | zero =>
    refine ⟨s, rfl, fun x hx => ?_, fun _ _ => rfl, rfl, rfl, rfl, rfl⟩
    rw [Extent.mem_mk] at hx
    omega
  | succ n ih =>
    obtain ⟨t, hrun, hset⟩ := ih (s := (slabOf p).set slab s) (p := p + 1)
      (show s.firstPpn ≤ p + 1 by omega) (show p + 1 + n ≤ s.lastPpn + 1 by omega) hlt
    have hself : ((slabOf p).set slab s).dscrs p = { s.dscrs p with slab } :=
      Function.update_self ..
    have hother : ∀ x, x ≠ p → ((slabOf p).set slab s).dscrs x = s.dscrs x := fun x hx =>
      Function.update_of_ne hx ..
    refine ⟨t, ?_, ?_, ?_, hset.firstPpn, hset.lastPpn, hset.freeClists, hset.usedClists⟩
    · rw [setSlabLoop, bind_ok (ppnToPpage_ok hf (by omega)), bind_write,
        add32_of_lt (by omega)]
      exact hrun
    · intro x hx
      rw [Extent.mem_mk] at hx
      by_cases hxp : x = p
      · subst hxp
        rw [hset.others x (by rw [Extent.mem_mk]; omega), hself]
      · rw [hset.pages x (by rw [Extent.mem_mk]; omega), hother x hxp]
    · intro x hx
      rw [Extent.mem_mk] at hx
      rw [hset.others x (by rw [Extent.mem_mk]; omega), hother x (by omega)]

theorem Phys.SlabSet.dscr (h : s.SlabSet t p n slab) (x : Nat) :
    ∃ v, t.dscrs x = { s.dscrs x with slab := v } := by
  by_cases hx : x ∈ Extent.mk p n
  · exact ⟨slab, h.pages x hx⟩
  · exact ⟨(s.dscrs x).slab, h.others x hx⟩

theorem Phys.SlabSet.sameRings (h : s.SlabSet t p n slab) : Phys.SameRings s t := by
  refine ⟨h.firstPpn, h.lastPpn, h.freeClists, h.usedClists, fun x => ?_⟩
  obtain ⟨v, hv⟩ := h.dscr x
  change (t.dscrs x).next = _ ∧ (t.dscrs x).prev = _
  rw [hv]
  exact ⟨rfl, rfl⟩

theorem Phys.Grown.slabSet (h : s.Grown free live) (hs : s.SlabSet t p n slab)
    (hout : ∀ x ∈ Extent.mk p n, ¬InFree free x) : t.Grown free live := by
  have hrings := hs.sameRings
  refine ⟨⟨h.sound.partition.same hrings, h.sound.aligned, ?_⟩, ?_,
    h.blocks.same hs.firstPpn hs.lastPpn, ?_⟩
  · intro x k hfirst hlast
    rw [hs.firstPpn] at hfirst
    rw [hs.lastPpn] at hlast
    obtain ⟨v, hv⟩ := hs.dscr x
    rw [← h.sound.marked x k hfirst hlast]
    constructor
    · rintro ⟨hhead, hcount, horder⟩
      rw [hv] at hhead hcount horder
      exact ⟨hhead, hcount, horder⟩
    · rintro ⟨hhead, hcount, horder⟩
      refine ⟨?_, ?_, ?_⟩ <;> rw [hv]
      · exact hhead
      · exact hcount
      · exact horder
  · intro i a ha
    rw [hs.usedClists] at ha
    obtain ⟨hna, q, hq, hnq⟩ := h.used i a ha
    exact ⟨hna, q, (hrings.pointers a).2.trans hq, hnq⟩
  · intro x hx
    have hxout : x ∉ Extent.mk p n := fun hin => hout x hin hx
    rw [hs.others x hxout]
    exact h.unset x hx

end Atros
