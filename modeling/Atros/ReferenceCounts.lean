import Atros.BlockOrders
import Atros.PhysicalSafety

namespace Atros
set_option autoImplicit true

variable {s t : Phys} {free refs : List Block} {b c : Block}

/-! ### ppage_ref and ppage_unref -/

/-- The panics of the allocator, and that of `ppage_unref`. -/
inductive RefPanic
  | call (e : Panic)
  | unrefFreePpage
  deriving DecidableEq, Repr

def liftCall (x : Prog Panic Phys α) : Prog RefPanic Phys α := fun s => (x s).mapError .call

def ppageRef (ppage : Nat) : Prog Panic Phys Unit := do
  (countOf ppage).write (add32 (← (countOf ppage).read) 1)

def ppageUnref (ppage : Nat) : Prog RefPanic Phys Unit := do
  let count ← liftCall (countOf ppage).read
  if count > 1 then
    liftCall ((countOf ppage).write (count - 1))
  else if count = 1 then
    liftCall (do ppageBlockFree_ ppage (← (blockOrderOf ppage).read))
  else
    throw .unrefFreePpage

/-- Calls of those who share blocks of pages. -/
inductive RefCall
  | alloc (order : Nat)
  | ref (b : Block)
  | unref (b : Block)
  deriving DecidableEq, Repr

/-- A call, with the references held before and after it: a block that is shared occurs once for
each of its references. -/
def RefCall.run (refs : List Block) : RefCall → Prog RefPanic Phys (List Block)
  | alloc order => do return ⟨← liftCall (ppageBlockAlloc order), order⟩ :: refs
  | ref b => do
    liftCall (ppageRef b.ppn)
    return b :: refs
  | unref b => do
    ppageUnref b.ppn
    return refs.erase b

/-- Only who holds a reference makes another one or gives it back; the counter has 32 bits. -/
def RefCall.Legal (refs : List Block) : RefCall → Prop
  | alloc _ => True
  | ref b => b ∈ refs ∧ refs.count b + 1 < 2 ^ 32
  | unref b => b ∈ refs

/-! ### What holds between two calls -/

/-- The fields that are 0 in all descriptors. -/
def Ppage.Clean (d : Ppage) : Prop := d.mapping = 0 ∧ d.slab = 0

theorem Ppage.Clean.of_unlinked {d e : Ppage} (h : e.Clean)
    (hd : d.unlinked = { e.unlinked with blockHead := head, blockOrder := order, count := n }) :
    d.Clean :=
  ⟨(congrArg Ppage.mapping hd).trans h.1, (congrArg Ppage.slab hd).trans h.2⟩

/-- A block that is used by `n` holders. -/
structure Phys.HeldBlock (s : Phys) (free : List Block) (b : Block) (n : Nat) : Prop where
  blockHead : (s.dscrs b.ppn).blockHead = true
  blockOrder : (s.dscrs b.ppn).blockOrder = b.order
  count : (s.dscrs b.ppn).count = n
  order_lt : b.order < maxPpageBlockOrder
  aligned : b.ppn % 2 ^ b.order = 0
  first_le : s.firstPpn ≤ b.ppn
  le_last : b.ppn + 2 ^ b.order ≤ s.lastPpn + 1
  apart : ∀ c ∈ free, c.pages.Apart b.pages

/-- The free blocks are sound, and the count of a block is the number of its references. -/
structure Phys.Held (s : Phys) (free refs : List Block) : Prop where
  sound : s.FreeSound free
  held : ∀ b ∈ refs, s.HeldBlock free b (refs.count b)
  apart : ∀ b ∈ refs, ∀ c ∈ refs, b ≠ c → b.pages.Apart c.pages
  clean : ∀ x, s.firstPpn ≤ x → x ≤ s.lastPpn → (s.dscrs x).Clean

theorem Phys.HeldBlock.range (h : s.HeldBlock free b n) :
    s.firstPpn ≤ b.ppn ∧ b.ppn ≤ s.lastPpn := by
  have hfirst := h.first_le
  have hlast := h.le_last
  have hpos := Nat.two_pow_pos b.order
  omega

theorem Phys.HeldBlock.not_inFree (h : s.HeldBlock free b n) (hx : x ∈ b.pages) :
    ¬InFree free x := by
  rintro ⟨c, hc, hxc⟩
  exact h.apart c hc x hxc hx

theorem Phys.Held.live (h : s.Held free refs) (hb : b ∈ refs) (hcount : refs.count b = 1) :
    s.Live free b.ppn b.order := by
  have hheld := h.held b hb
  obtain ⟨hmapping, hslab⟩ := h.clean b.ppn hheld.range.1 hheld.range.2
  exact ⟨hheld.blockHead, hheld.blockOrder, hheld.count.trans hcount, hmapping, hslab,
    hheld.order_lt, hheld.aligned, hheld.first_le, hheld.le_last, hheld.apart⟩

theorem Phys.HeldBlock.transport (h : s.HeldBlock free b n)
    (hinfo : (t.dscrs b.ppn).unlinked = { (s.dscrs b.ppn).unlinked with count := m })
    (hfirst : t.firstPpn = s.firstPpn) (hlast : t.lastPpn = s.lastPpn)
    (hapart : ∀ c ∈ free', c.pages.Apart b.pages) : t.HeldBlock free' b m := by
  refine ⟨(congrArg Ppage.blockHead hinfo).trans h.blockHead,
    (congrArg Ppage.blockOrder hinfo).trans h.blockOrder, congrArg Ppage.count hinfo, h.order_lt,
    h.aligned, ?_, ?_, hapart⟩
  · rw [hfirst]
    exact h.first_le
  · rw [hlast]
    exact h.le_last

theorem Phys.HeldBlock.keep (h : s.HeldBlock free b n)
    (hinfo : (t.dscrs b.ppn).unlinked = (s.dscrs b.ppn).unlinked)
    (hfirst : t.firstPpn = s.firstPpn) (hlast : t.lastPpn = s.lastPpn)
    (hapart : ∀ c ∈ free', c.pages.Apart b.pages) : t.HeldBlock free' b n := by
  refine h.transport ?_ hfirst hlast hapart
  rw [hinfo, ← h.count]
  rfl

theorem Block.ppn_ne (h : c.pages.Apart b.pages) : c.ppn ≠ b.ppn := by
  intro heq
  refine h c.ppn c.ppn_mem ?_
  rw [heq]
  exact b.ppn_mem

/-! ### One more or one less reference -/

theorem Phys.Held.setCount (h : s.Held free refs) (hb : b ∈ refs) (hn : n ≠ 0)
    (hrefs : ∀ c ∈ refs', c ∈ refs)
    (hcount : ∀ c ∈ refs', refs'.count c = if c = b then n else refs.count c) :
    ((countOf b.ppn).set n s).Held free refs' := by
  have hsame := s.sameRings_count b.ppn n
  have hheld := h.held b hb
  have hinfo := setCount_unlinked s b.ppn n
  have hpos : refs.count b ≠ 0 := Nat.ne_of_gt (List.count_pos_iff.mpr hb)
  refine ⟨⟨h.sound.partition.same hsame, h.sound.aligned, ?_⟩, ?_, ?_, ?_⟩
  · intro x k hfirst hlast
    by_cases hx : x = b.ppn
    · subst hx
      have hset := hinfo b.ppn
      rw [if_pos rfl] at hset
      refine iff_of_false (fun hf => hn ?_) fun hin => ?_
      · exact (congrArg Ppage.count hset).symm.trans hf.count
      · exact hheld.not_inFree b.ppn_mem ⟨_, hin, Block.ppn_mem ⟨b.ppn, k⟩⟩
    · have hset := hinfo x
      rw [if_neg hx] at hset
      rw [Phys.freeHead_congr hset]
      exact h.sound.marked x k hfirst hlast
  · intro c hc
    have hc' := h.held c (hrefs c hc)
    rw [hcount c hc]
    have hset := hinfo c.ppn
    split
    · rename_i heq
      subst heq
      rw [if_pos rfl] at hset
      exact hc'.transport hset rfl rfl hc'.apart
    · rename_i hne
      rw [if_neg] at hset
      · exact hc'.keep hset rfl rfl hc'.apart
      · exact Block.ppn_ne (h.apart c (hrefs c hc) b hb hne)
  · exact fun c hc d hd => h.apart c (hrefs c hc) d (hrefs d hd)
  · intro x hfirst hlast
    have hset := hinfo x
    by_cases hx : x = b.ppn
    · subst hx
      rw [if_pos rfl] at hset
      exact (h.clean b.ppn hfirst hlast).of_unlinked hset
    · rw [if_neg hx] at hset
      exact (h.clean x hfirst hlast).of_unlinked hset

theorem Phys.Held.count_pos (_ : s.Held free refs) (hb : b ∈ refs) : 0 < refs.count b :=
  List.count_pos_iff.mpr hb

theorem ppageRef_held (h : s.Held free refs) (hb : b ∈ refs) (hlt : refs.count b + 1 < 2 ^ 32) :
    ∃ t, ppageRef b.ppn s = .ok ((), t) ∧ t.Held free (b :: refs) := by
  have hcount : (countOf b.ppn).get s = refs.count b := (h.held b hb).count
  refine ⟨(countOf b.ppn).set (refs.count b + 1) s, ?_, ?_⟩
  · rw [ppageRef, bind_read, hcount, add32_of_lt hlt]
    exact Place.write_ok (countOf b.ppn) _ s
  · refine h.setCount hb (Nat.succ_ne_zero _) (fun c hc => ?_) fun c hc => ?_
    · rcases List.mem_cons.mp hc with rfl | hc
      · exact hb
      · exact hc
    · rw [List.count_cons]
      by_cases hcb : c = b
      · subst hcb
        rw [if_pos rfl, if_pos (beq_self_eq_true c)]
      · rw [if_neg hcb, if_neg (by rwa [beq_iff_eq, eq_comm]), Nat.add_zero]

theorem ppageUnref_shared (h : s.Held free refs) (hb : b ∈ refs) (hcount : 1 < refs.count b) :
    ∃ t, ppageUnref b.ppn s = .ok ((), t) ∧ t.Held free (refs.erase b) := by
  have hget : (countOf b.ppn).get s = refs.count b := (h.held b hb).count
  refine ⟨(countOf b.ppn).set (refs.count b - 1) s, ?_, ?_⟩
  · have hread : liftCall (countOf b.ppn).read s = .ok (refs.count b, s) := by
      rw [← hget]
      rfl
    rw [ppageUnref, bind_ok hread, if_pos hcount]
    rfl
  · refine h.setCount hb (by omega) (fun c hc => List.mem_of_mem_erase hc) fun c hc => ?_
    by_cases hcb : c = b
    · subst hcb
      rw [if_pos rfl, List.count_erase_self]
    · rw [if_neg hcb, List.count_erase_of_ne hcb]

/-- The last reference to a block can be given back: the exact condition of `_ppage_block_free`. -/
structure Phys.UnrefClear (s : Phys) (free : List Block) (b : Block) : Prop where
  unlinks : s.UnlinksOff free b.ppn b.order
  stops : ¬s.Merges b.ppn b.order
  range : b.order < maxPpageBlockOrder - 1 →
    s.firstPpn ≤ findBuddy b.ppn b.order ∧ findBuddy b.ppn b.order ≤ s.lastPpn

theorem ppageUnref_last (h : s.Held free refs) (hb : b ∈ refs) (hcount : refs.count b = 1)
    (hclear : s.UnrefClear free b) :
    ∃ t, ppageUnref b.ppn s = .ok ((), t) ∧ t.Held (free ++ [b]) (refs.erase b) := by
  have hlive := h.live hb hcount
  obtain ⟨t, hrun, hsound⟩ := ppageBlockFree_sound h.sound hlive hclear.unlinks hclear.stops
    hclear.range
  obtain ⟨t₁, honly, -, -, hpush⟩ := ppageBlockFree_stops hlive hclear.stops hrun
  have hpushed := Phys.OnlyRing.of_touched
    (clistPushTail_frame (lawful_clist .free b.order) hpush).1
  have hinfo := honly.freedInfo hpushed
  have hfirst : t.firstPpn = s.firstPpn := hpushed.firstPpn.trans honly.firstPpn
  have hlast : t.lastPpn = s.lastPpn := hpushed.lastPpn.trans honly.lastPpn
  refine ⟨t, ?_, hsound, fun c hc => ?_, fun c hc d hd => ?_, fun x hx hx' => ?_⟩
  · have hread : liftCall (countOf b.ppn).read s = .ok (1, s) := by
      rw [← hlive.count]
      rfl
    have horder : (blockOrderOf b.ppn).get s = b.order := hlive.blockOrder
    rw [ppageUnref, bind_ok hread, if_neg (by decide), if_pos rfl, liftCall, bind_read, horder,
      hrun]
    rfl
  · have hne : c ≠ b := by
      rintro rfl
      have hpos := List.count_pos_iff.mpr hc
      rw [List.count_erase_self, hcount] at hpos
      exact absurd hpos (by decide)
    have hc' := List.mem_of_mem_erase hc
    have hset := hinfo c.ppn
    rw [if_neg (Block.ppn_ne (h.apart c hc' b hb hne))] at hset
    rw [List.count_erase_of_ne hne]
    refine (h.held c hc').keep hset hfirst hlast fun d hd => ?_
    rcases List.mem_append.mp hd with hd | hd
    · exact (h.held c hc').apart d hd
    · rw [List.mem_singleton.mp hd]
      exact h.apart b hb c hc' hne.symm
  · exact h.apart c (List.mem_of_mem_erase hc) d (List.mem_of_mem_erase hd)
  · rw [hfirst] at hx
    rw [hlast] at hx'
    have hset := hinfo x
    by_cases hxb : x = b.ppn
    · subst hxb
      rw [if_pos rfl] at hset
      exact (h.clean b.ppn hx hx').of_unlinked hset
    · rw [if_neg hxb] at hset
      exact (h.clean x hx hx').of_unlinked hset

/-! ### A new block -/

/-- A block can be allocated: the exact condition of `_ppage_block_alloc`. -/
def Phys.AllocClear (s : Phys) (free : List Block) (k : Nat) : Prop :=
  ∀ p d, s.freeClists (k + d) = some p → (∀ j, k ≤ j → j < k + d → s.freeClists j = none) →
    s.PushesOff free p (k + d) d

theorem Block.pages_upper (hi : i < m) : p + 2 ^ i ∈ (Block.mk p m).pages := by
  have hpos := Nat.two_pow_pos i
  have hlt := Nat.pow_lt_pow_right (a := 2) (by decide) hi
  rw [Block.mem_pages_mk]
  omega

theorem Block.pages_lower (hk : k ≤ m) (hx : x ∈ (Block.mk p k).pages) :
    x ∈ (Block.mk p m).pages := by
  have hpow := Nat.pow_le_pow_right (n := 2) (by decide) hk
  rw [Block.mem_pages_mk] at *
  omega

theorem Phys.Carved.used_same (hc : s.Carved t p k d) (hmem : ⟨p, k + d⟩ ∈ free)
    (hx : ¬InFree free x) : (t.dscrs x).unlinked = (s.dscrs x).unlinked := by
  refine hc.others x ?_ fun i _ hi => ?_
  · rintro rfl
    exact hx (.head hmem)
  · rintro rfl
    exact hx ⟨_, hmem, Block.pages_upper hi⟩

theorem Phys.Carved.clean (hc : s.Carved t p k d) (hx : (s.dscrs x).Clean) :
    (t.dscrs x).Clean := by
  by_cases hxp : x = p
  · subst hxp
    exact hx.of_unlinked hc.block
  · by_cases hupper : ∃ i, k ≤ i ∧ i < k + d ∧ x = p + 2 ^ i
    · obtain ⟨i, h₁, h₂, rfl⟩ := hupper
      exact hx.of_unlinked (hc.upper i h₁ h₂)
    · exact hx.of_unlinked (hc.others x hxp fun i h₁ h₂ heq => hupper ⟨i, h₁, h₂, heq⟩)

theorem Phys.Carved.newBlock (hc : s.Carved t p k d) (h : s.FreeSound free)
    (hmem : ⟨p, k + d⟩ ∈ free) : t.HeldBlock (afterSplit free p k d) ⟨p, k⟩ 1 := by
  have hhead := h.freeHead hmem
  have horder := h.partition.order_lt _ hmem
  have hblocks := h.blocks.split hmem
  have halign := Nat.dvd_of_mod_eq_zero (h.aligned _ hmem)
  refine ⟨(congrArg Ppage.blockHead hc.block).trans hhead.head, congrArg Ppage.blockOrder hc.block,
    congrArg Ppage.count hc.block, ?_, ?_, ?_, ?_, fun c hc => ?_⟩
  · simp only at horder ⊢
    omega
  · exact Nat.mod_eq_zero_of_dvd ((Nat.pow_dvd_pow 2 (Nat.le_add_right k d)).trans halign)
  · rw [hc.firstPpn]
    exact hblocks.first_le _ List.mem_cons_self
  · rw [hc.lastPpn]
    exact hblocks.le_last _ List.mem_cons_self
  · exact ((List.pairwise_cons.mp hblocks.apart).1 c hc).symm

theorem Phys.Carved.held (hc : s.Carved t p k d) (h : s.Held free refs)
    (hmem : ⟨p, k + d⟩ ∈ free) (hsound : t.FreeSound (afterSplit free p k d)) :
    t.Held (afterSplit free p k d) (⟨p, k⟩ :: refs) := by
  have hpages := fun x => inFree_afterSplit h.sound hmem (x := x)
  have hin : ∀ x ∈ (Block.mk p k).pages, InFree free x :=
    fun x hx => ⟨_, hmem, Block.pages_lower (Nat.le_add_right k d) hx⟩
  have hnew : ∀ b ∈ refs, ∀ x ∈ b.pages, x ∉ (Block.mk p k).pages :=
    fun b hb x hx hxp => (h.held b hb).not_inFree hx (hin x hxp)
  have hfresh : ∀ b ∈ refs, b ≠ ⟨p, k⟩ := by
    rintro b hb rfl
    exact hnew _ hb p (Block.ppn_mem ⟨p, k⟩) (Block.ppn_mem ⟨p, k⟩)
  refine ⟨hsound, ?_, ?_, ?_⟩
  · intro b hb
    rcases List.mem_cons.mp hb with rfl | hb
    · rw [List.count_cons_self, List.count_eq_zero.mpr fun hr => hfresh _ hr rfl]
      exact hc.newBlock h.sound hmem
    · have hheld := h.held b hb
      rw [List.count_cons_of_ne (hfresh b hb).symm]
      refine hheld.keep (hc.used_same hmem (hheld.not_inFree b.ppn_mem)) hc.firstPpn hc.lastPpn ?_
      exact fun c hc x hxc hxb => hheld.not_inFree hxb ((hpages x).mp ⟨c, hc, hxc⟩).1
  · intro b hb c hc hne
    rcases List.mem_cons.mp hb with rfl | hb
    · rcases List.mem_cons.mp hc with rfl | hc
      · exact absurd rfl hne
      · exact fun x hx hxc => hnew c hc x hxc hx
    · rcases List.mem_cons.mp hc with rfl | hc
      · exact fun x hx hxc => hnew b hb x hx hxc
      · exact h.apart b hb c hc hne
  · intro x hx hx'
    rw [hc.firstPpn] at hx
    rw [hc.lastPpn] at hx'
    exact hc.clean (h.clean x hx hx')

theorem ppageBlockAlloc_held (h : s.Held free refs) (hclear : s.AllocClear free k)
    (hrun : ppageBlockAlloc k s = .ok (p, t)) :
    ∃ d, ⟨p, k + d⟩ ∈ free ∧ t.Held (afterSplit free p k d) (⟨p, k⟩ :: refs) := by
  have halloc := of_ppageBlockAlloc_ok hrun
  have hk : k < maxPpageBlockOrder := by
    by_contra hk
    rw [ppageBlockAlloc_, Nat.sub_eq_zero_of_le (Nat.le_of_not_lt hk)] at halloc
    cases halloc
  have hserved : ∃ m, k ≤ m ∧ s.freeClists m ≠ none := by
    by_contra hno
    have hempty : ∀ j, k ≤ j → s.freeClists j = none := fun j hj =>
      of_not_not fun hne => hno ⟨j, hj, hne⟩
    have herror := ppageBlockAllocFrom_exhausted (fun j hj _ => hempty j hj)
      (Nat.add_sub_of_le hk.le)
    cases herror.symm.trans halloc
  obtain ⟨d, q, hq, hempty⟩ := exists_first_order hserved
  obtain ⟨hqp, hout⟩ := (ppageBlockAlloc_outcome h.sound hq hempty).ok halloc
  cases hqp
  have hmem := h.sound.mem hq
  have hsound := (hout.kept (hclear p d hq hempty)).freeSound hout.carved h.sound hmem
  exact ⟨d, hmem, hout.carved.held h hmem hsound⟩

/-! ### Runs -/

/-- The call does not make the used rings of the allocator write to free blocks, nor merge blocks
that are no buddies. -/
def RefCall.Clear (s : Phys) (refs : List Block) : RefCall → Prop
  | alloc order => ∀ free, s.FreeSound free → s.AllocClear free order
  | ref _ => True
  | unref b => refs.count b = 1 → ∀ free, s.FreeSound free → s.UnrefClear free b

inductive RefRun (s₀ : Phys) : Phys → List Block → Prop
  | start : RefRun s₀ s₀ []
  | call (c : RefCall) {s s' : Phys} {refs refs' : List Block} : RefRun s₀ s refs →
    c.Legal refs → c.Clear s refs → c.run refs s = .ok (refs', s') → RefRun s₀ s' refs'

/-- A page of a block that somebody refers to. -/
def InUse (refs : List Block) (x : Nat) : Prop := ∃ b ∈ refs, x ∈ b.pages

theorem InUse.congr {refs refs' : List Block} (h : ∀ b, b ∈ refs' ↔ b ∈ refs) :
    InUse refs' x ↔ InUse refs x :=
  exists_congr fun b => and_congr_left fun _ => h b

/-- The state is sound for some free blocks, which with those in use are the pages `P`. -/
def Phys.Accounted (s : Phys) (P : Nat → Prop) (refs : List Block) : Prop :=
  ∃ free, s.Held free refs ∧ ∀ x, InFree free x ∨ InUse refs x ↔ P x

theorem of_liftCall_ok {x : Prog Panic Phys α} (h : liftCall x s = .ok (a, t)) :
    x s = .ok (a, t) := by
  rw [liftCall] at h
  cases hx : x s with
  | error e =>
    rw [hx] at h
    cases h
  | ok r =>
    rw [hx] at h
    cases h
    rfl

theorem ppageUnref_accounted (h : s.Accounted P refs) (hb : b ∈ refs)
    (hclear : (RefCall.unref b).Clear s refs) :
    ∃ t, ppageUnref b.ppn s = .ok ((), t) ∧ t.Accounted P (refs.erase b) := by
  obtain ⟨free, hheld, hpages⟩ := h
  by_cases hcount : refs.count b = 1
  · obtain ⟨t, hrun, ht⟩ := ppageUnref_last hheld hb hcount (hclear hcount free hheld.sound)
    have hgone : b ∉ refs.erase b := by
      rw [← List.count_eq_zero, List.count_erase_self, hcount]
    refine ⟨t, hrun, _, ht, fun x => ?_⟩
    rw [inFree_append, ← hpages x, or_assoc]
    refine or_congr_right ⟨?_, ?_⟩
    · rintro (hx | ⟨c, hc, hx⟩)
      · exact ⟨b, hb, hx⟩
      · exact ⟨c, List.mem_of_mem_erase hc, hx⟩
    · rintro ⟨c, hc, hx⟩
      by_cases hcb : c = b
      · exact .inl (hcb ▸ hx)
      · exact .inr ⟨c, (List.mem_erase_of_ne hcb).mpr hc, hx⟩
  · have hpos := hheld.count_pos hb
    obtain ⟨t, hrun, ht⟩ := ppageUnref_shared hheld hb (by omega)
    refine ⟨t, hrun, _, ht, fun x => ?_⟩
    rw [← hpages x]
    refine or_congr_right (InUse.congr fun c => ?_)
    by_cases hcb : c = b
    · subst hcb
      refine iff_of_true (List.count_pos_iff.mp ?_) hb
      rw [List.count_erase_self]
      omega
    · exact List.mem_erase_of_ne hcb

theorem RefCall.run_accounted (c : RefCall) (h : s.Accounted P refs) (hlegal : c.Legal refs)
    (hclear : c.Clear s refs) (hrun : c.run refs s = .ok (refs', t)) : t.Accounted P refs' := by
  cases c with
  | alloc order =>
    obtain ⟨free, hheld, hpages⟩ := h
    obtain ⟨p, t', halloc, hrest⟩ := of_bind_ok hrun
    cases hrest
    obtain ⟨d, hmem, ht⟩ := ppageBlockAlloc_held hheld (hclear free hheld.sound)
      (of_liftCall_ok halloc)
    refine ⟨_, ht, fun x => ?_⟩
    rw [inFree_afterSplit hheld.sound hmem, ← hpages x]
    by_cases hx : x ∈ (Block.mk p order).pages
    · refine iff_of_true (.inr ⟨_, List.mem_cons_self, hx⟩) (.inl ⟨_, hmem, ?_⟩)
      exact Block.pages_lower (Nat.le_add_right order d) hx
    · refine or_congr (and_iff_left hx) ⟨?_, ?_⟩
      · rintro ⟨c, hc, hxc⟩
        rcases List.mem_cons.mp hc with rfl | hc
        · exact absurd hxc hx
        · exact ⟨c, hc, hxc⟩
      · rintro ⟨c, hc, hxc⟩
        exact ⟨c, List.mem_cons_of_mem _ hc, hxc⟩
  | ref b =>
    obtain ⟨free, hheld, hpages⟩ := h
    obtain ⟨_, t', href, hrest⟩ := of_bind_ok hrun
    cases hrest
    obtain ⟨t₁, hrun₁, ht⟩ := ppageRef_held hheld hlegal.1 hlegal.2
    cases (of_liftCall_ok href).symm.trans hrun₁
    refine ⟨free, ht, fun x => ?_⟩
    rw [← hpages x]
    refine or_congr_right (InUse.congr fun c => ?_)
    rw [List.mem_cons]
    exact or_iff_right_of_imp fun hcb => hcb ▸ hlegal.1
  | unref b =>
    obtain ⟨_, t', hunref, hrest⟩ := of_bind_ok hrun
    cases hrest
    obtain ⟨t₁, hrun₁, ht⟩ := ppageUnref_accounted h hlegal hclear
    cases hunref.symm.trans hrun₁
    exact ht

theorem RefRun.accounted {s₀ : Phys} (h : s₀.Accounted P []) (hrun : RefRun s₀ s refs) :
    s.Accounted P refs := by
  induction hrun with
  | start => exact h
  | call c _ hlegal hclear hcall ih => exact c.run_accounted ih hlegal hclear hcall

/-- What those who share blocks rely on: the counter of a block is the number of its references,
blocks that are in use do not meet and have no free page, the pages that were free at the start are
those that are free or in use, and a reference can be given back. -/
structure Phys.Shares (s₀ s : Phys) (refs : List Block) : Prop where
  counts : ∀ b ∈ refs, (s.dscrs b.ppn).count = refs.count b
  apart : ∀ b ∈ refs, ∀ c ∈ refs, b ≠ c → b.pages.Apart c.pages
  used : ∀ x, InUse refs x → ¬s.FreePage x
  pages : ∀ x, s.FreePage x ∨ InUse refs x ↔ s₀.FreePage x
  unref : ∀ b ∈ refs, (RefCall.unref b).Clear s refs → ∃ t, ppageUnref b.ppn s = .ok ((), t) ∧
    (t.FreePage b.ppn ↔ refs.count b = 1)

theorem Phys.Accounted.shares {s₀ : Phys} (h : s.Accounted s₀.FreePage refs) :
    s₀.Shares s refs := by
  have hacc := h
  obtain ⟨free, hheld, hpages⟩ := h
  have hfree := fun x => hheld.sound.partition.freePage_iff (x := x)
  refine ⟨fun b hb => (hheld.held b hb).count, hheld.apart, ?_, ?_, fun b hb hclear => ?_⟩
  · rintro x ⟨b, hb, hx⟩
    rw [hfree]
    exact (hheld.held b hb).not_inFree hx
  · intro x
    rw [hfree]
    exact hpages x
  · obtain ⟨t, hrun, free', hheld', hpages'⟩ := ppageUnref_accounted hacc hb hclear
    refine ⟨t, hrun, ?_⟩
    rw [hheld'.sound.partition.freePage_iff]
    have hin := (hpages' b.ppn).mpr ((hpages b.ppn).mp (.inr ⟨b, hb, b.ppn_mem⟩))
    constructor
    · intro hf
      by_contra hcount
      have hpos := hheld.count_pos hb
      have hmem : b ∈ refs.erase b := by
        refine List.count_pos_iff.mp ?_
        rw [List.count_erase_self]
        omega
      exact (hheld'.held b hmem).not_inFree b.ppn_mem hf
    · intro hcount
      refine hin.resolve_right ?_
      rintro ⟨c, hc, hx⟩
      have hne : b ≠ c := by
        rintro rfl
        have hpos := List.count_pos_iff.mpr hc
        rw [List.count_erase_self, hcount] at hpos
        exact absurd hpos (by decide)
      exact hheld.apart b hb c (List.mem_of_mem_erase hc) hne b.ppn b.ppn_mem hx

theorem Phys.Starts.accounted (h : Phys.Starts s lastPpage F) (hl : lastPpage < 2 ^ 20) :
    s.Accounted s.FreePage [] := by
  have hsound := (h.ringsSound hl).freeSound
  have hnone : ∀ b : Block, b ∉ ([] : List Block) := fun _ => List.not_mem_nil
  refine ⟨F .free, ⟨hsound, fun b hb => absurd hb (hnone b), fun b hb => absurd hb (hnone b), ?_⟩,
    fun x => ?_⟩
  · intro x _ hx
    rw [h.lastPpn] at hx
    obtain ⟨st, b, -, -, hinfo⟩ := h.info_of_le hx
    exact ⟨congrArg Ppage.mapping hinfo, congrArg Ppage.slab hinfo⟩
  · rw [hsound.partition.freePage_iff]
    exact or_iff_left fun ⟨b, hb, _⟩ => hnone b hb

/-- After boot, in every run of allocations and of references that are made and given back, in which
no call meets a stale used ring or a wrong buddy. -/
theorem refRun_shares (k : Kernel) (bootPaStart kernelPaEnd lastPpage : Nat)
    (h : PhysBootReady k bootPaStart kernelPaEnd lastPpage)
    (hboot : physicalPageBootInit bootPaStart kernelPaEnd 0 lastPpage k = .ok ((), k'))
    (hrun : RefRun k'.phys s refs) : k'.phys.Shares s refs := by
  obtain ⟨F, hover⟩ := h.handover hboot
  exact (hrun.accounted (hover.starts.accounted h.last_lt)).shares

theorem liftCall_ok {x : Prog Panic Phys α} (h : x s = .ok (a, t)) :
    liftCall x s = .ok (a, t) := by
  rw [liftCall, h]
  rfl

theorem shares_eval : Ends (fun _ => False) (fun (r : Phys × List Block) _ =>
    r.1.freeClists 2 = some 260 ∧ r.1.usedClists 2 = none ∧ r.2 = [⟨260, 2⟩])
    (physBootThen 0x100000 0x102000 263
      (do return (← get, ← (PpageCall.blockAlloc 2).run [])) smallKernel) := by
  decide +kernel

/-- A block is allocated, shared, and given back once. -/
theorem refRun_shares_small : ∃ k' s,
    physicalPageBootInit 0x100000 0x102000 0 263 smallKernel = .ok ((), k') ∧
      RefRun k'.phys s [⟨260, 2⟩] ∧ k'.phys.Shares s [⟨260, 2⟩] := by
  obtain ⟨k', ⟨s₀, live⟩, k'', hboot, hrun, hfree, hused, hlive⟩ := of_physBootThen shares_eval
  simp only at hfree hused hlive
  subst hlive
  rw [bind_get] at hrun
  obtain ⟨_, _, hcall, heq⟩ := of_bind_ok hrun
  cases heq
  obtain ⟨p, t, halloc, heq⟩ := of_bind_ok hcall
  cases heq
  have hclear : (RefCall.alloc 2).Clear k'.phys [] := by
    intro free _ p d hp hempty e he a ha
    obtain rfl : d = 0 := by
      by_contra hd
      exact nomatch hfree.symm.trans (hempty 2 (le_refl 2) (by omega))
    obtain rfl : e = 0 := Nat.le_zero.mp he
    exact nomatch hused.symm.trans ha
  have hfirst : RefRun k'.phys k''.phys [⟨260, 2⟩] :=
    .call (.alloc 2) .start trivial hclear (bind_ok (liftCall_ok halloc))
  obtain ⟨F, hover⟩ := smallKernel_ready.handover hboot
  have hstart := hover.starts.accounted (by decide)
  obtain ⟨free, hheld, -⟩ := hfirst.accounted hstart
  have hmem : (⟨260, 2⟩ : Block) ∈ [(⟨260, 2⟩ : Block)] := List.mem_singleton_self _
  have hlt : [(⟨260, 2⟩ : Block)].count ⟨260, 2⟩ + 1 < 2 ^ 32 := by decide
  obtain ⟨t₁, href, hheld₁⟩ := ppageRef_held hheld hmem hlt
  have hsecond := hfirst.call (.ref ⟨260, 2⟩) ⟨hmem, hlt⟩ trivial (bind_ok (liftCall_ok href))
  have hmem₁ : (⟨260, 2⟩ : Block) ∈ [(⟨260, 2⟩ : Block), ⟨260, 2⟩] := List.mem_cons_self
  obtain ⟨t₂, hunref, -⟩ := ppageUnref_shared hheld₁ hmem₁ (by decide)
  have hclear₂ : (RefCall.unref ⟨260, 2⟩).Clear t₁ [⟨260, 2⟩, ⟨260, 2⟩] := fun hcount =>
    absurd hcount (by decide)
  have hthird := hsecond.call (.unref ⟨260, 2⟩) hmem₁ hclear₂ (bind_ok hunref)
  exact ⟨k', t₂, hboot, hthird, refRun_shares smallKernel _ _ _ smallKernel_ready hboot hthird⟩

end Atros
