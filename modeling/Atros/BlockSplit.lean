import Mathlib.Data.List.Pairwise
import Atros.PhysicalSafety
import Atros.PhysicalSplit

namespace Atros
set_option autoImplicit true

variable {s t : Phys} {free used : List Block}

theorem Phys.Blocks.head_inj (h : s.Blocks bs) (hb : b ∈ bs) (hc : c ∈ bs)
    (heq : b.ppn = c.ppn) : b = c := by
  by_contra hne
  exact Extent.apart_of_pairwise h.apart hb hc hne b.ppn b.ppn_mem (heq ▸ c.ppn_mem)

theorem Ppage.unlinked_marks {d e : Ppage} (h : d.unlinked = e) :
    d.blockHead = e.blockHead ∧ d.count = e.count ∧ d.blockOrder = e.blockOrder := by
  subst h
  exact ⟨rfl, rfl, rfl⟩

theorem Phys.freeHead_congr (h : (t.dscrs x).unlinked = (s.dscrs x).unlinked) :
    t.FreeHead x k ↔ s.FreeHead x k := by
  obtain ⟨hhead, hcount, horder⟩ := Ppage.unlinked_marks h
  constructor
  · exact fun hf => ⟨hhead ▸ hf.head, hcount ▸ hf.count, horder ▸ hf.order⟩
  · exact fun hf => ⟨hhead ▸ hf.head, hcount ▸ hf.count, horder ▸ hf.order⟩

theorem Phys.freeHead_of_unlinked {d : Ppage} (h : (t.dscrs x).unlinked =
    { d with blockHead := true, blockOrder := i, count := 0 }) : t.FreeHead x k ↔ i = k := by
  obtain ⟨hhead, hcount, horder⟩ := Ppage.unlinked_marks h
  constructor
  · exact fun hf => horder.symm.trans hf.order
  · exact fun heq => ⟨hhead, hcount, horder.trans heq⟩

theorem Phys.Carved.marked (hc : s.Carved t p k d) (h : s.FreeSound free)
    (hmem : ⟨p, k + d⟩ ∈ free) (hfirst : s.firstPpn ≤ x) (hlast : x ≤ s.lastPpn) :
    t.FreeHead x j ↔ ⟨x, j⟩ ∈ afterSplit free p k d := by
  have hblocks := h.blocks.split hmem
  have hnd := h.partition.nodup
  by_cases hxp : x = p
  · subst hxp
    refine iff_of_false (fun hf => ?_) fun hin => h.not_head hmem ⟨_, hin, rfl⟩
    have hcount := congrArg Ppage.count hc.block
    exact nomatch hcount.symm.trans hf.count
  · by_cases hx : ∃ i, k ≤ i ∧ i < k + d ∧ x = p + 2 ^ i
    · obtain ⟨i, h₁, h₂, rfl⟩ := hx
      have hi : ⟨p + 2 ^ i, i⟩ ∈ afterSplit free p k d :=
        (mem_afterSplit hnd).mpr (.inr ⟨i, h₁, h₂, rfl⟩)
      rw [Phys.freeHead_of_unlinked (hc.upper i h₁ h₂)]
      constructor
      · rintro rfl
        exact hi
      · intro hj
        have heq := hblocks.head_inj (List.mem_cons_of_mem _ hi) (List.mem_cons_of_mem _ hj) rfl
        exact congrArg Block.order heq
    · have hne : ∀ i, k ≤ i → i < k + d → x ≠ p + 2 ^ i := fun i h₁ h₂ heq => hx ⟨i, h₁, h₂, heq⟩
      rw [Phys.freeHead_congr (hc.others x hxp hne), h.marked x j hfirst hlast,
        mem_afterSplit hnd]
      constructor
      · exact fun hin => .inl ⟨hin, fun heq => hxp (congrArg Block.ppn heq)⟩
      · rintro (⟨hin, -⟩ | ⟨i, h₁, h₂, heq⟩)
        · exact hin
        · exact absurd (congrArg Block.ppn heq) (hne i h₁ h₂)

theorem Phys.Partition.dropLive (h : s.Partition free live) : s.Partition free [] := by
  refine ⟨h.rings, h.order_lt, ?_⟩
  rw [List.append_nil]
  have hapart := (List.pairwise_append.mp h.blocks.apart).1
  exact ⟨hapart, fun b hb => h.blocks.first_le b (List.mem_append_left _ hb),
    fun b hb => h.blocks.le_last b (List.mem_append_left _ hb), h.blocks.last_lt⟩

theorem Phys.Kept.freeSound (hk : s.Kept t free p k d) (hc : s.Carved t p k d)
    (h : s.FreeSound free) (hmem : ⟨p, k + d⟩ ∈ free) :
    t.FreeSound (afterSplit free p k d) := by
  refine ⟨hk.partition.dropLive, ?_, ?_⟩
  · intro b hb
    rcases (mem_afterSplit h.partition.nodup).mp hb with ⟨hin, -⟩ | ⟨i, h₁, h₂, rfl⟩
    · exact h.aligned b hin
    · have hp := h.aligned _ hmem
      have hdvd : 2 ^ i ∣ p := (Nat.pow_dvd_pow 2 h₂.le).trans (Nat.dvd_of_mod_eq_zero hp)
      exact Nat.mod_eq_zero_of_dvd (Nat.dvd_add hdvd (Nat.dvd_refl _))
  · intro x j hfirst hlast
    rw [hc.firstPpn] at hfirst
    rw [hc.lastPpn] at hlast
    exact hc.marked h hmem hfirst hlast

theorem inFree_upperParts : InFree (upperParts p k d) x ↔ p + 2 ^ k ≤ x ∧ x < p + 2 ^ (k + d) := by
  induction d generalizing k with
  | zero =>
    refine iff_of_false ?_ (by rw [Nat.add_zero]; omega)
    rintro ⟨b, hb, -⟩
    exact nomatch hb
  | succ d ih =>
    have hpos := Nat.two_pow_pos k
    have hpow : 2 ^ (k + 1) = 2 ^ k + 2 ^ k := by
      rw [Nat.pow_succ]
      omega
    have hle := Nat.pow_le_pow_right (n := 2) (by decide) (show k + 1 ≤ k + 1 + d by omega)
    have hsplit : InFree (upperParts p k (d + 1)) x ↔
        InFree (upperParts p (k + 1) d) x ∨ x ∈ (Block.mk (p + 2 ^ k) k).pages := by
      simp only [InFree, upperParts, List.mem_append, List.mem_singleton, or_and_right,
        exists_or, exists_eq_left]
    rw [hsplit, ih, Block.mem_pages_mk, show k + (d + 1) = k + 1 + d by omega]
    omega

theorem inFree_afterSplit (h : s.FreeSound free) (hmem : ⟨p, k + d⟩ ∈ free) :
    InFree (afterSplit free p k d) x ↔ InFree free x ∧ x ∉ (Block.mk p k).pages := by
  have hnd := h.partition.nodup
  have hpos := Nat.two_pow_pos k
  have hpow := Nat.pow_le_pow_right (n := 2) (by decide) (show k ≤ k + d by omega)
  have hsplit : InFree (afterSplit free p k d) x ↔
      InFree (free.erase ⟨p, k + d⟩) x ∨ InFree (upperParts p k d) x := by
    simp only [InFree, afterSplit, List.mem_append, or_and_right, exists_or]
  rw [hsplit, inFree_upperParts, Block.mem_pages_mk]
  constructor
  · rintro (⟨b, hb, hx⟩ | hx)
    · rw [hnd.mem_erase_iff] at hb
      refine ⟨⟨b, hb.2, hx⟩, fun hin => ?_⟩
      exact Extent.apart_of_pairwise h.blocks.apart hb.2 hmem hb.1 x hx
        (by rw [Block.mem_pages_mk]; omega)
    · exact ⟨⟨_, hmem, by rw [Block.mem_pages_mk]; omega⟩, by omega⟩
  · rintro ⟨⟨b, hb, hx⟩, hout⟩
    by_cases heq : b = ⟨p, k + d⟩
    · subst heq
      rw [Block.mem_pages_mk] at hx
      exact .inr (by omega)
    · exact .inl ⟨b, hnd.mem_erase_iff.mpr ⟨heq, hb⟩, hx⟩

/-! ### The rings after a split -/

theorem headsOf_erase (h : headsOf k bs = p :: xs) : headsOf k (bs.erase ⟨p, k⟩) = xs := by
  obtain ⟨as, cs, rfl, has, hcs⟩ := headsOf_split h
  have hnotin : ⟨p, k⟩ ∉ as := fun hin => by
    rw [← mem_headsOf, has] at hin
    exact nomatch hin
  rw [List.erase_append_right _ hnotin, List.erase_cons_head, headsOf_append, has, hcs,
    List.nil_append]

theorem headsOf_erase_of_ne (h : j ≠ k) (bs : List Block) :
    headsOf j (bs.erase ⟨p, k⟩) = headsOf j bs := by
  induction bs with
  | nil => rfl
  | cons b bs ih =>
    rw [List.erase_cons]
    split
    · rename_i heq
      rw [headsOf_cons, if_neg]
      rw [eq_of_beq heq]
      exact fun hkj => h hkj.symm
    · rw [headsOf_cons, headsOf_cons, ih]

theorem headsOf_upperParts (p k d j : Nat) :
    headsOf j (upperParts p k d) = if k ≤ j ∧ j < k + d then [p + 2 ^ j] else [] := by
  induction d generalizing k with
  | zero =>
    rw [if_neg (by omega)]
    rfl
  | succ d ih =>
    rw [upperParts, headsOf_append, ih, headsOf_cons]
    by_cases hj : k = j
    · subst hj
      rw [if_neg (by omega), if_pos rfl, if_pos (by omega)]
      rfl
    · rw [if_neg hj, show headsOf j [] = [] from rfl, List.append_nil]
      by_cases hin : k + 1 ≤ j ∧ j < k + 1 + d
      · rw [if_pos hin, if_pos (by omega)]
      · rw [if_neg hin, if_neg (by omega)]

/-- What has to hold after `_ppage_block_alloc(k)` has returned `p`, which was the head of the
first free ring that is not empty, that of order `m`. -/
structure Phys.SplitsTo (s t : Phys) (free : List Block) (k m p : Nat) : Prop where
  left : t.links.Ring (t.freeClists m) (headsOf m free).tail
  appended : ∀ j, k ≤ j → j < m →
    t.links.Ring (t.freeClists j) (headsOf j free ++ [p + 2 ^ j]) ∧ t.FreeHead (p + 2 ^ j) j
  unchanged : ∀ j, j < k ∨ m < j →
    t.freeClists j = s.freeClists j ∧ t.links.Ring (t.freeClists j) (headsOf j free)
  count : (t.dscrs p).count = 1
  blockOrder : (t.dscrs p).blockOrder = k
  aligned : p % 2 ^ k = 0
  sound : ∃ free', t.FreeSound free' ∧
    ∀ x, InFree free' x ↔ InFree free x ∧ x ∉ (Block.mk p k).pages

theorem Phys.Outcome.splitsTo (ho : s.Outcome t free p k d) (h : s.FreeSound free)
    (hmem : s.freeClists (k + d) = some p) (hoff : s.PushesOff free p (k + d) d) :
    s.SplitsTo t free k (k + d) p := by
  have hkept := ho.kept hoff
  have hin := h.mem hmem
  have hsound := hkept.freeSound ho.carved h hin
  obtain ⟨xs, hxs⟩ := h.first_mem hmem
  refine ⟨?_, ?_, ?_, ?_, ?_, ?_, _, hsound, fun x => inFree_afterSplit h hin⟩
  · have hring := hsound.ring (k + d)
    rw [afterSplit, headsOf_append, headsOf_erase hxs, headsOf_upperParts, if_neg (by omega),
      List.append_nil] at hring
    rw [hxs]
    exact hring
  · intro j h₁ h₂
    refine ⟨?_, (Phys.freeHead_of_unlinked (ho.carved.upper j h₁ h₂)).mpr rfl⟩
    have hring := hsound.ring j
    rwa [afterSplit, headsOf_append, headsOf_erase_of_ne (by omega), headsOf_upperParts,
      if_pos ⟨h₁, h₂⟩] at hring
  · intro j hj
    refine ⟨ho.carved.otherFree j hj, ?_⟩
    have hring := hsound.ring j
    rwa [afterSplit, headsOf_append, headsOf_erase_of_ne (by omega), headsOf_upperParts,
      if_neg (by omega), List.append_nil] at hring
  · exact congrArg Ppage.count ho.carved.block
  · exact congrArg Ppage.blockOrder ho.carved.block
  · have hp := h.aligned _ hin
    exact Nat.mod_eq_zero_of_dvd
      ((Nat.pow_dvd_pow 2 (Nat.le_add_right k d)).trans (Nat.dvd_of_mod_eq_zero hp))

theorem Phys.FreeSound.next_of_head (h : s.FreeSound free) (hy : IsHead free y) :
    ∃ z, IsHead free z ∧ s.links.next y = some z ∧ s.links.prev z = some y := by
  obtain ⟨b, hb, rfl⟩ := hy
  obtain ⟨z, hz, hlink⟩ := (h.ring b.order).next_mem (mem_headsOf.mpr hb)
  exact ⟨z, isHead_of_mem_headsOf hz, hlink⟩

theorem Phys.FreeSound.prev_of_head (h : s.FreeSound free) (hy : IsHead free y) :
    ∃ z, IsHead free z ∧ s.links.prev y = some z ∧ s.links.next z = some y := by
  obtain ⟨b, hb, rfl⟩ := hy
  obtain ⟨z, hz, hlink⟩ := (h.ring b.order).prev_mem (mem_headsOf.mpr hb)
  exact ⟨z, isHead_of_mem_headsOf hz, hlink⟩

/-- A ring of free blocks does not lead to a page that is on none of them. -/
theorem Phys.Carved.not_bent (hc : s.Carved t p k d) (h : s.FreeSound free)
    (hmem : ⟨p, k + d⟩ ∈ free) (ht : t.FreeSound free') (hp : ¬IsHead free' p) :
    ¬t.Bent (afterSplit free p k d) p := by
  rintro ⟨y, ⟨b, hb, rfl⟩, hbent⟩
  have hblocks := h.blocks.split hmem
  have hb' := List.mem_cons_of_mem ⟨p, k⟩ hb
  have hpos := Nat.two_pow_pos b.order
  have hfirst := hblocks.first_le b hb'
  have hlast := hblocks.le_last b hb'
  have hhead := (hc.marked h hmem hfirst (by omega)).mpr hb
  have hin := (ht.marked b.ppn b.order (by rwa [hc.firstPpn])
    (by rw [hc.lastPpn]; omega)).mp hhead
  have hon : IsHead free' b.ppn := ⟨_, hin, rfl⟩
  rcases hbent with hprev | hnext
  · obtain ⟨q, hq, hlink, -⟩ := ht.prev_of_head hon
    cases hprev.symm.trans hlink
    exact hp hq
  · obtain ⟨q, hq, hlink, -⟩ := ht.next_of_head hon
    cases hnext.symm.trans hlink
    exact hp hq

theorem ppageBlockAlloc_outcome (h : s.FreeSound free) (hp : s.freeClists (k + d) = some p)
    (hempty : ∀ j, k ≤ j → j < k + d → s.freeClists j = none) :
    Ends (fun _ => ¬s.PushesOff free p (k + d) d)
      (fun r t => r = some p ∧ s.Outcome t free p k d) (ppageBlockAlloc_ k s) := by
  have hm := h.partition.order_lt _ (h.mem hp)
  simp only at hm
  exact ppageBlockAllocFrom_outcome h hp hempty (Nat.add_sub_of_le (by omega)) hm

/-! ### The used rings -/

/-- The page is marked as the head of a used block of order `k`. -/
structure Phys.UsedHead (s : Phys) (x k : Nat) : Prop where
  head : (s.dscrs x).blockHead = true
  count : (s.dscrs x).count ≠ 0
  order : (s.dscrs x).blockOrder = k

theorem Phys.usedHead_congr (h : (t.dscrs x).unlinked = (s.dscrs x).unlinked) :
    t.UsedHead x k ↔ s.UsedHead x k := by
  obtain ⟨hhead, hcount, horder⟩ := Ppage.unlinked_marks h
  constructor
  · exact fun hf => ⟨hhead ▸ hf.head, hcount ▸ hf.count, horder ▸ hf.order⟩
  · exact fun hf => ⟨hhead ▸ hf.head, hcount ▸ hf.count, horder ▸ hf.order⟩

/-- The free and the used rings hold the heads of the free and of the used blocks. -/
structure Phys.RingsSound (s : Phys) (free used : List Block) : Prop where
  freeSound : s.FreeSound free
  usedRing : ∀ k, s.links.Ring (s.usedClists k) (headsOf k used)
  blocks : s.Blocks (free ++ used)
  usedMarked : ∀ x k, s.firstPpn ≤ x → x ≤ s.lastPpn → (s.UsedHead x k ↔ ⟨x, k⟩ ∈ used)

theorem Phys.RingsSound.not_head (h : s.RingsSound free used) (hmem : ⟨p, k + d⟩ ∈ free)
    (hx : ⟨x, j⟩ ∈ used) : ¬IsHead (afterSplit free p k d) x := by
  intro hhead
  obtain ⟨b, hb, hxb⟩ := ((inFree_afterSplit h.freeSound hmem).mp hhead.inFree).1
  exact (List.pairwise_append.mp h.blocks.apart).2.2 b hb _ hx x hxb (Block.ppn_mem ⟨x, j⟩)

theorem Phys.RingsSound.ne_used (h : s.RingsSound free used) (hmem : ⟨p, m⟩ ∈ free)
    (hx : ⟨x, j⟩ ∈ used) : x ≠ p := by
  rintro rfl
  exact (List.pairwise_append.mp h.blocks.apart).2.2 _ hmem _ hx x (Block.ppn_mem ⟨x, m⟩)
    (Block.ppn_mem ⟨x, j⟩)

/-- All the while a used block is preceded by a used block or by the one being allocated. -/
theorem Phys.RingsSound.usedPrevs (h : s.RingsSound free used) (hmem : ⟨p, m⟩ ∈ free)
    (hx : ⟨x, j⟩ ∈ used) (d : Nat) :
    ∃ q, s.usedPrevs p m d x = some q ∧ (q = p ∨ ∃ i, ⟨q, i⟩ ∈ used) := by
  obtain ⟨q, hq, hlink, -⟩ := (h.usedRing j).prev_mem (mem_headsOf.mpr hx)
  rcases s.usedPrevs_cases (h.ne_used hmem hx) m d with hp | hold
  · exact ⟨p, hp, .inl rfl⟩
  · exact ⟨q, hold.trans hlink, .inr ⟨j, mem_headsOf.mp hq⟩⟩

theorem Phys.RingsSound.pushesOff (h : s.RingsSound free used) (hmem : ⟨p, k + d⟩ ∈ free) :
    s.PushesOff free p (k + d) d := by
  intro e he a ha
  have hsplit : k + d - e + e = k + d := by omega
  have hmem' : ⟨p, k + d - e + e⟩ ∈ free := by rwa [hsplit]
  have hring := h.usedRing (k + d - e)
  rw [ha] at hring
  obtain ⟨as, has⟩ := hring.eq_cons
  have hin : ⟨a, k + d - e⟩ ∈ used := by
    rw [← mem_headsOf, has]
    exact List.mem_cons_self
  obtain ⟨q, hq, hcase⟩ := h.usedPrevs hmem hin e
  refine ⟨h.not_head hmem' hin, q, hq, ?_⟩
  rcases hcase with rfl | ⟨i, hi⟩
  · exact h.freeSound.not_head hmem'
  · exact h.not_head hmem' hi

theorem Phys.Starts.info_of_le (h : Phys.Starts s lastPpage F) (hx : x ≤ lastPpage) :
    ∃ st, ∃ b ∈ F st, x ∈ b.pages ∧ (s.dscrs x).unlinked = b.dscr st x := by
  obtain ⟨b, hb, hxb⟩ := (h.tile x).mp hx
  rcases List.mem_append.mp hb with hb | hb
  · exact ⟨.free, b, hb, hxb, h.info .free b hb x hxb⟩
  · exact ⟨.used, b, hb, hxb, h.info .used b hb x hxb⟩

theorem Phys.Starts.mem_of_head (h : Phys.Starts s lastPpage F) (hx : x ≤ lastPpage)
    (hhead : (s.dscrs x).blockHead = true) :
    ∃ st, ⟨x, (s.dscrs x).blockOrder⟩ ∈ F st ∧ (s.dscrs x).count = st.count := by
  obtain ⟨st, b, hb, -, hinfo⟩ := h.info_of_le hx
  have hxb := (congrArg Ppage.blockHead hinfo).symm.trans hhead
  have horder : (s.dscrs x).blockOrder = b.order := congrArg Ppage.blockOrder hinfo
  refine ⟨st, ?_, congrArg Ppage.count hinfo⟩
  rw [horder, show x = b.ppn from of_decide_eq_true hxb]
  exact hb

theorem Phys.Starts.ringsSound (h : Phys.Starts s lastPpage F) (hl : lastPpage < 2 ^ 20) :
    s.RingsSound (F .free) (F .used) := by
  have hdscr : ∀ st x k, ⟨x, k⟩ ∈ F st → (s.dscrs x).blockHead = true ∧
      (s.dscrs x).count = st.count ∧ (s.dscrs x).blockOrder = k := by
    intro st x k hmem
    have hinfo := h.info st _ hmem x (Block.ppn_mem ⟨x, k⟩)
    exact ⟨(congrArg Ppage.blockHead hinfo).trans (decide_eq_true rfl),
      congrArg Ppage.count hinfo, congrArg Ppage.blockOrder hinfo⟩
  refine ⟨⟨h.partition hl, h.aligned .free, ?_⟩, h.usedRing, ⟨h.apart, ?_, ?_, ?_⟩, ?_⟩
  · intro x k _ hx
    rw [h.lastPpn] at hx
    constructor
    · rintro ⟨hhead, hcount, rfl⟩
      obtain ⟨st, hmem, hst⟩ := h.mem_of_head hx hhead
      cases st with
      | free => exact hmem
      | used => exact nomatch hcount.symm.trans hst
    · intro hmem
      obtain ⟨hhead, hcount, horder⟩ := hdscr .free x k hmem
      exact ⟨hhead, hcount, horder⟩
  · rw [h.firstPpn]
    exact fun _ _ => Nat.zero_le _
  · intro b hb
    have hpos := Nat.two_pow_pos b.order
    have hle := (h.tile (b.ppn + 2 ^ b.order - 1)).mpr
      ⟨b, hb, by rw [Block.mem_pages]; omega⟩
    rw [h.lastPpn]
    omega
  · rw [h.lastPpn]
    omega
  · intro x k _ hx
    rw [h.lastPpn] at hx
    constructor
    · rintro ⟨hhead, hcount, rfl⟩
      obtain ⟨st, hmem, hst⟩ := h.mem_of_head hx hhead
      cases st with
      | free => exact absurd hst hcount
      | used => exact hmem
    · intro hmem
      obtain ⟨hhead, hcount, horder⟩ := hdscr .used x k hmem
      exact ⟨hhead, fun hzero => (nomatch hcount.symm.trans hzero), horder⟩

end Atros
