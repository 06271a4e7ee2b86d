import Atros.BlockSplit

namespace Atros
set_option autoImplicit true

variable {s t : Phys} {free : List Block}

/-- An allocated block of order `k` that can be freed. -/
structure Phys.Live (s : Phys) (free : List Block) (p k : Nat) : Prop where
  blockHead : (s.dscrs p).blockHead = true
  blockOrder : (s.dscrs p).blockOrder = k
  count : (s.dscrs p).count = 1
  mapping : (s.dscrs p).mapping = 0
  slab : (s.dscrs p).slab = 0
  order_lt : k < maxPpageBlockOrder
  aligned : p % 2 ^ k = 0
  first_le : s.firstPpn ≤ p
  le_last : p + 2 ^ k ≤ s.lastPpn + 1
  apart : ∀ b ∈ free, b.pages.Apart (Block.mk p k).pages

/-- No two free blocks could be joined to a block of the next order. -/
def NoBuddies (free : List Block) : Prop :=
  ∀ b ∈ free, ∀ c ∈ free, b.order = c.order → b.order < maxPpageBlockOrder - 1 →
    c.ppn ≠ b.ppn ^^^ 2 ^ b.order

/-- What has to hold after the block has been freed. -/
def Phys.Freed (t : Phys) (free : List Block) (p k : Nat) : Prop :=
  ∃ free', t.FreeSound free' ∧
    (∀ x, InFree free' x ↔ InFree free x ∨ x ∈ (Block.mk p k).pages) ∧ NoBuddies free'

/-! ### Merging -/

theorem findBuddy_eq (p k : Nat) : findBuddy p k = if p.testBit k then 2 ^ k else 0 := by
  rw [findBuddy, Nat.one_shiftLeft, Nat.and_two_pow]
  cases p.testBit k with
  | true => rw [Bool.toNat_true, Nat.one_mul, if_pos rfl]
  | false => rw [Bool.toNat_false, Nat.zero_mul, if_neg Bool.false_ne_true]

theorem findBuddy_and (p k : Nat) : p &&& findBuddy p k = findBuddy p k := by
  rw [findBuddy, ← Nat.and_assoc, Nat.and_self]

theorem isFreeBuddy_true (h : s.FreeHead b k) : isFreeBuddy b k s = .ok (true, s) := by
  unfold isFreeBuddy ppageIsFree
  refine congrArg (fun v => Except.ok (v, s)) (decide_eq_true ?_)
  exact ⟨decide_eq_true h.count, h.head, h.order⟩

/-- The descriptors of the pages off `P` are the same but for their pointers. -/
structure Phys.SameInfo (s t : Phys) (P : Nat → Prop) : Prop where
  firstPpn : t.firstPpn = s.firstPpn
  lastPpn : t.lastPpn = s.lastPpn
  info : ∀ x, ¬P x → (t.dscrs x).unlinked = (s.dscrs x).unlinked

theorem Phys.SameInfo.trans (h : s.SameInfo t P) (h' : t.SameInfo u P) : s.SameInfo u P :=
  ⟨h'.firstPpn.trans h.firstPpn, h'.lastPpn.trans h.lastPpn,
    fun x hx => (h'.info x hx).trans (h.info x hx)⟩

theorem mergeLoop_merges {Q : Nat × Nat → Phys → Prop} (horder : (s.dscrs p).blockOrder = k)
    (hb : s.FreeHead (findBuddy p k) k)
    (hnext : ∀ t, s.firstPpn ≤ findBuddy p k → findBuddy p k ≤ s.lastPpn →
      t.FreeHead (findBuddy p k) (k + 1) →
      s.SameInfo t (fun x => x = p ∨ x = findBuddy p k) →
      Ends (fun _ => True) Q (mergeLoop rounds (findBuddy p k) (k + 1) t)) :
    Ends (fun _ => True) Q (mergeLoop (rounds + 1) p k s) := by
  have hmerged := findBuddy_and p k
  rw [mergeLoop, bind_read, show (blockOrderOf p).get s = k from horder, ppageToPpn]
  generalize findBuddy p k = b at hb hnext hmerged ⊢
  refine Ends.bind ((ppnToPpage_range b s).mono (fun _ _ => trivial) fun _ _ h => h) ?_
  intro r s₁ hrange
  obtain ⟨hr, hs₁, hfirst, hlast⟩ := hrange
  rw [hr, hs₁]
  refine Ends.step (isFreeBuddy_true hb) ?_
  rw [if_pos rfl]
  have hunlink : Ends (fun _ => True) (fun _ t => Phys.OnlyRing .free k s t)
      (clistDeleteEl (freePpagesBlocksClist k) prevOf nextOf b s) :=
    Ends.of_ok fun _ t hrun => .of_touched (clistDeleteEl_frame (lawful_clist .free k) hrun).1
  refine Ends.bind hunlink ?_
  rintro - t honly
  simp only [bind_write]
  rw [hmerged]
  refine Ends.bind (ppnToPpage_same b _) ?_
  rintro r s₂ ⟨hr₂, hs₂⟩
  rw [hr₂, hs₂]
  simp only [bind_write]
  refine hnext _ hfirst hlast ?_ ⟨honly.firstPpn, honly.lastPpn, fun x hx => ?_⟩
  · refine ⟨?_, ?_, ?_⟩
    · simp only [blockOrderOf, blockHeadOf, Phys.dscrs_setDscr, if_true]
    · have hcount := congrArg Ppage.count (honly.info b)
      simp only [Ppage.unlinked] at hcount
      simp only [blockOrderOf, blockHeadOf, Phys.dscrs_setDscr, if_true]
      split
      · rename_i heq
        rw [← heq, hcount, hb.count]
      · rw [hcount, hb.count]
    · simp only [blockOrderOf, blockHeadOf, Phys.dscrs_setDscr, if_true]
  · rw [not_or] at hx
    simp only [blockOrderOf, blockHeadOf, Phys.dscrs_setDscr, if_neg hx.1, if_neg hx.2]
    exact honly.info x

/-- From page 0 on the loop merges the page with itself up to the largest order. -/
theorem mergeLoop_zero (h : s.FreeHead 0 k) :
    Ends (fun _ => True) (fun r t => r = (0, k + rounds) ∧ t.FreeHead 0 (k + rounds) ∧
      s.SameInfo t (· = 0)) (mergeLoop rounds 0 k s) := by
  have hbuddy : ∀ k, findBuddy 0 k = 0 := fun k => by
    rw [findBuddy_eq, Nat.zero_testBit, if_neg Bool.false_ne_true]
  induction rounds generalizing k s with
  | zero => exact ⟨rfl, h, rfl, rfl, fun _ _ => rfl⟩
  | succ rounds ih =>
    refine mergeLoop_merges h.order ?_ ?_
    · rw [hbuddy]
      exact h
    · rw [hbuddy]
      intro t _ _ hhead hsame
      refine (ih hhead).imp ?_
      rintro r u ⟨rfl, hu, hsame'⟩
      rw [show k + 1 + rounds = k + (rounds + 1) by omega] at *
      refine ⟨rfl, hu, Phys.SameInfo.trans ⟨hsame.firstPpn, hsame.lastPpn, ?_⟩ hsame'⟩
      exact fun x hx => hsame.info x fun hor => hx (hor.elim id id)

theorem ppageBlockFree_live (h : s.Live free p k) : ppageBlockFree_ p k s = (do
    clistDeleteEl (usedPpagesBlocksClist k) prevOf nextOf p
    ppageSetFree p
    let (block, order) ← mergeLoop (maxPpageBlockOrder - 1 - k) p k
    clistPushTail (freePpagesBlocksClist order) prevOf nextOf block : Prog Panic Phys Unit) s := by
  have horder : (blockOrderOf p).get s = k := h.blockOrder
  rw [ppageBlockFree_]
  rw [bind_read, bind_ok (check_ok (show (blockHeadOf p).get s = true from h.blockHead))]
  rw [bind_read, bind_ok (check_ok horder), bind_read, horder, bind_ok (check_ok h.order_lt)]
  rw [bind_read, bind_ok (check_ok (show (countOf p).get s = 1 from h.count))]
  rw [bind_read, bind_ok (check_ok (show (mappingOf p).get s = 0 from h.mapping))]
  rw [bind_read, bind_ok (check_ok (show (slabOf p).get s = 0 from h.slab))]

theorem Phys.Live.freeHead (h : s.Live free p k) (hs : s.FreeSound free)
    (hin : s.firstPpn ≤ x ∧ x ≤ s.lastPpn) (hx : s.FreeHead x j) : ⟨x, j⟩ ∈ free ∧ x ≠ p := by
  refine ⟨(hs.marked x j hin.1 hin.2).mp hx, ?_⟩
  rintro rfl
  exact nomatch hx.count.symm.trans h.count

theorem Phys.Live.not_inFree (h : s.Live free p k) (hx : x ∈ (Block.mk p k).pages) :
    ¬InFree free x := by
  rintro ⟨b, hb, hxb⟩
  exact h.apart b hb x hxb hx

theorem eq_of_aligned (ha : a % n = 0) (hb : b % n = 0) (hle : a ≤ b) (hlt : b < a + n) :
    a = b := by
  have hdvd := Nat.dvd_sub (Nat.dvd_of_mod_eq_zero hb) (Nat.dvd_of_mod_eq_zero ha)
  have hzero := Nat.eq_zero_of_dvd_of_lt hdvd (by omega)
  omega

/-- A block of the largest order at page 0 takes in pages that were free already. -/
theorem Phys.FreeSound.not_freed_zero (h : s.FreeSound free) (hl : s.Live free p k)
    (hbit : p.testBit k = false) (hk : k < maxPpageBlockOrder - 1) (hmerge : s.Merges p k)
    (hzero : s.firstPpn ≤ 0) (hhead : t.FreeHead 0 (maxPpageBlockOrder - 1))
    (hsame : s.SameInfo t fun x => x = p ∨ x = 0) : ¬t.Freed free p k := by
  rintro ⟨free', ht, hpages, -⟩
  have hin : ⟨0, maxPpageBlockOrder - 1⟩ ∈ free' :=
    (ht.marked 0 _ (by rwa [hsame.firstPpn]) (Nat.zero_le _)).mp hhead
  have hpow : 2 ^ k < 2 ^ (maxPpageBlockOrder - 1) := Nat.pow_lt_pow_right (by decide) hk
  have hpk : p ≠ 2 ^ k := by
    rintro rfl
    rw [Nat.testBit_two_pow_self] at hbit
    exact nomatch hbit
  have hpos := Nat.two_pow_pos k
  have hpage : 2 ^ k ∈ (Block.mk 0 (maxPpageBlockOrder - 1)).pages := by
    rw [Block.mem_pages_mk]
    omega
  obtain ⟨b, hb, hbx⟩ : InFree free (2 ^ k) := by
    rcases (hpages _).mp ⟨_, hin, hpage⟩ with hfree | hblock
    · exact hfree
    · -- the block is aligned, so it would have to start there
      rw [Block.mem_pages_mk] at hblock
      exact absurd (eq_of_aligned hl.aligned (Nat.mod_self _) hblock.1 hblock.2) hpk
  have hb0 : b.ppn ≠ 0 := by
    intro hb0
    obtain ⟨-, hcount, hbuddyHead, hbuddyOrder⟩ := hmerge
    rw [findBuddy_eq, hbit, if_neg Bool.false_ne_true] at hcount hbuddyHead hbuddyOrder
    rcases hcount with hcount | rfl
    · have hmem := (hl.freeHead h ⟨hzero, Nat.zero_le _⟩ ⟨hbuddyHead, hcount, hbuddyOrder⟩).1
      have heq := h.blocks.head_inj hb hmem hb0
      rw [heq, Block.mem_pages_mk] at hbx
      omega
    · refine hl.not_inFree (Block.ppn_mem ⟨0, k⟩) ⟨b, hb, ?_⟩
      rw [← hb0]
      exact b.ppn_mem
  have hbp : b.ppn ≠ p := fun heq =>
    hl.not_inFree (Block.ppn_mem ⟨p, k⟩) ⟨b, hb, heq ▸ b.ppn_mem⟩
  obtain ⟨hfirst, hlast⟩ := h.range hb b.ppn_mem
  have hb' : b ∈ free' := by
    refine (ht.marked b.ppn b.order (by rwa [hsame.firstPpn]) (by rwa [hsame.lastPpn])).mp ?_
    rw [Phys.freeHead_congr (hsame.info b.ppn fun hor => hor.elim hbp hb0)]
    exact h.freeHead hb
  refine Extent.apart_of_pairwise ht.blocks.apart hb' hin (fun heq => hb0 ?_) _ hbx hpage
  exact congrArg Block.ppn heq

theorem Phys.not_freed_odd (hfirst : s.firstPpn ≤ 2 ^ k) (hlast : 2 ^ k ≤ s.lastPpn)
    (hhead : t.FreeHead (2 ^ k) (k + 1)) (hsame : s.SameInfo t P) : ¬t.Freed free p k := by
  rintro ⟨free', ht, -, -⟩
  have hin := (ht.marked (2 ^ k) (k + 1) (by rwa [hsame.firstPpn]) (by rwa [hsame.lastPpn])).mp
    hhead
  have halign := ht.aligned _ hin
  have hpos := Nat.two_pow_pos k
  simp only at halign
  rw [Nat.pow_succ, Nat.mod_eq_of_lt (by omega)] at halign
  omega

/-- What merging ends with: page 0 as a block of the largest order, or page `2 ^ k` as a block
of order `k + 1`. -/
def Phys.Mismerged (s t : Phys) (p k : Nat) (r : Nat × Nat) : Prop :=
  r = (0, maxPpageBlockOrder - 1) ∧ p.testBit k = false ∧ s.firstPpn ≤ 0 ∧
      t.FreeHead 0 (maxPpageBlockOrder - 1) ∧ s.SameInfo t (fun x => x = p ∨ x = 0) ∨
    r = (2 ^ k, k + 1) ∧ s.firstPpn ≤ 2 ^ k ∧ 2 ^ k ≤ s.lastPpn ∧ t.FreeHead (2 ^ k) (k + 1) ∧
      s.SameInfo t (fun x => x = p ∨ x = 2 ^ k)

theorem Phys.SameInfo.mono (h : s.SameInfo t P) (hPQ : ∀ x, P x → Q x) : s.SameInfo t Q :=
  ⟨h.firstPpn, h.lastPpn, fun x hx => h.info x fun hP => hx (hPQ x hP)⟩

theorem mergeLoop_mismerged {s₂ : Phys} (h : s.FreeSound free) (hl : s.Live free p k)
    (hmerge : s.Merges p k) (hsame : s.SameInfo s₂ (· = p)) (hp : s₂.FreeHead p k) :
    Ends (fun _ => True) (fun r t => s.Mismerged t p k r)
      (mergeLoop (maxPpageBlockOrder - 1 - k) p k s₂) := by
  have hk := hmerge.1
  have hbuddy : s₂.FreeHead (findBuddy p k) k := by
    by_cases hself : findBuddy p k = p
    · rwa [hself]
    · rw [Phys.freeHead_congr (hsame.info _ hself)]
      exact ⟨hmerge.2.2.1, hmerge.2.1.resolve_right hself, hmerge.2.2.2⟩
  obtain ⟨rounds, hrounds⟩ : ∃ rounds, maxPpageBlockOrder - 1 - k = rounds + 1 :=
    ⟨maxPpageBlockOrder - 1 - k - 1, by omega⟩
  rw [hrounds]
  refine mergeLoop_merges hp.order hbuddy ?_
  cases hbit : p.testBit k with
  | false =>
    rw [findBuddy_eq, hbit, if_neg Bool.false_ne_true]
    intro t hfirst _ hhead hsame'
    refine (mergeLoop_zero hhead).imp ?_
    rintro r u ⟨rfl, hu, hsame''⟩
    rw [show k + 1 + rounds = maxPpageBlockOrder - 1 by omega] at *
    refine .inl ⟨rfl, hbit, by rwa [← hsame.firstPpn], hu, ?_⟩
    exact ((hsame.mono fun x hx => .inl hx).trans hsame').trans
      (hsame''.mono fun x hx => .inr hx)
  | true =>
    have hb : findBuddy p k = 2 ^ k := by rw [findBuddy_eq, hbit, if_pos rfl]
    rw [hb] at hbuddy ⊢
    intro t hfirst hlast hhead hsame'
    rw [hsame.firstPpn] at hfirst
    rw [hsame.lastPpn] at hlast
    have hall := (hsame.mono fun x hx => .inl hx).trans hsame'
    have hnext : findBuddy (2 ^ k) (k + 1) = 0 := by
      rw [findBuddy_eq, Nat.testBit_two_pow_of_ne (by omega), if_neg Bool.false_ne_true]
    have hpos := Nat.two_pow_pos k
    have hp0 : 0 ≠ p := by
      rintro rfl
      rw [Nat.zero_testBit] at hbit
      exact nomatch hbit
    -- page 0 is no free block of order `k + 1`, it would meet the block just merged
    have hfail : s.firstPpn ≤ 0 → ¬t.FreeHead 0 (k + 1) := by
      intro hzero hf
      rw [Phys.freeHead_congr (hall.info 0 fun hor => hor.elim hp0 fun heq => by omega)] at hf
      have hmem := (hl.freeHead h ⟨hzero, Nat.zero_le _⟩ hf).1
      have hpage : 2 ^ k ∈ (Block.mk 0 (k + 1)).pages := by
        rw [Block.mem_pages_mk, Nat.pow_succ]
        omega
      by_cases hself : 2 ^ k = p
      · exact hl.not_inFree (Block.ppn_mem ⟨p, k⟩) ⟨_, hmem, hself ▸ hpage⟩
      · rw [Phys.freeHead_congr (hsame.info _ hself)] at hbuddy
        have hmem' := (hl.freeHead h ⟨hfirst, hlast⟩ hbuddy).1
        refine Extent.apart_of_pairwise h.blocks.apart hmem hmem' (fun heq => ?_) _ hpage
          (Block.ppn_mem ⟨2 ^ k, k⟩)
        have := congrArg Block.order heq
        simp only at this
        omega
    by_cases hzero : s.firstPpn ≤ 0
    · refine ((mergeLoop_stop hhead.order fun _ hc => ?_).mono (fun _ _ => trivial)
        fun _ _ h => h).imp ?_
      · rw [hnext] at hc
        exact hfail hzero ⟨hc.2.1, hc.1, hc.2.2⟩
      · rintro r u ⟨rfl, rfl, -⟩
        exact .inr ⟨rfl, hfirst, hlast, hhead, hall⟩
    · cases rounds with
      | zero => exact .inr ⟨rfl, hfirst, hlast, hhead, hall⟩
      | succ rounds =>
        rw [mergeLoop, bind_read, show (blockOrderOf (2 ^ k)).get t = k + 1 from hhead.order,
          ppageToPpn, hnext]
        refine Ends.bind ((ppnToPpage_range 0 t).mono (fun _ _ => trivial) fun _ _ h => h) ?_
        rintro r u ⟨-, -, hfirst', -⟩
        rw [hall.firstPpn] at hfirst'
        exact absurd hfirst' hzero

theorem ppageBlockFree_merges (h : s.FreeSound free) (hl : s.Live free p k)
    (hmerge : s.Merges p k) :
    Ends (fun _ => True) (fun _ t => ¬t.Freed free p k) (ppageBlockFree_ p k s) := by
  rw [ppageBlockFree_live hl]
  have hunlink : Ends (fun _ => True) (fun _ t => Phys.OnlyRing .used k s t)
      (clistDeleteEl (usedPpagesBlocksClist k) prevOf nextOf p s) :=
    Ends.of_ok fun _ t hrun => .of_touched (clistDeleteEl_frame (lawful_clist .used k) hrun).1
  refine Ends.bind hunlink ?_
  rintro - s₁ honly
  refine Ends.step (Place.write_ok (countOf p) 0 s₁) ?_
  have hinfo : ∀ x, (((countOf p).set 0 s₁).dscrs x).unlinked =
      if x = p then { (s.dscrs p).unlinked with count := 0 } else (s.dscrs x).unlinked := by
    intro x
    rw [setCount_unlinked, honly.info, honly.info]
  have hsame : s.SameInfo ((countOf p).set 0 s₁) (· = p) :=
    ⟨honly.firstPpn, honly.lastPpn, fun x hx => by rw [hinfo, if_neg hx]⟩
  have hp : ((countOf p).set 0 s₁).FreeHead p k := by
    have hinfo := hinfo p
    rw [if_pos rfl] at hinfo
    exact ⟨(congrArg Ppage.blockHead hinfo).trans hl.blockHead, congrArg Ppage.count hinfo,
      (congrArg Ppage.blockOrder hinfo).trans hl.blockOrder⟩
  refine Ends.bind (mergeLoop_mismerged h hl hmerge hsame hp) ?_
  rintro ⟨block, order⟩ s₃ hmis
  refine Ends.of_ok fun _ t hrun => ?_
  have hpush := Phys.OnlyRing.of_touched (clistPushTail_frame (lawful_clist .free order) hrun).1
  have hpushed : ∀ P, s.SameInfo s₃ P → s.SameInfo t P := fun P hP =>
    hP.trans ⟨hpush.firstPpn, hpush.lastPpn, fun x _ => hpush.info x⟩
  rcases hmis with ⟨heq, hbit, hzero, hhead, hall⟩ | ⟨heq, hfirst, hlast, hhead, hall⟩
  · exact h.not_freed_zero hl hbit hmerge.1 hmerge hzero
      ((Phys.freeHead_congr (hpush.info 0)).mpr hhead) (hpushed _ hall)
  · exact Phys.not_freed_odd hfirst hlast ((Phys.freeHead_congr (hpush.info _)).mpr hhead)
      (hpushed _ hall)

/-! ### Unlinking the block from its used ring -/

/-- Unlinking a block writes to its own pointers, or links its neighbours with each other. -/
inductive Phys.UnlinkedLinks (s t : Phys) (p k : Nat) : Prop
  | single (a : Nat) : s.usedClists k = some a → s.links.prev a = some a →
      s.links.next a = some a → (∀ y, y ≠ p → SamePointers s.links t.links y) →
      Phys.UnlinkedLinks s t p k
  | between (a b n : Nat) : s.usedClists k = some a →
      ¬(s.links.prev a = some a ∧ s.links.next a = some a) → s.links.prev p = some b →
      s.links.next p = some n →
      (∀ y, t.links.next y = if y = b then some n else s.links.next y) →
      (∀ y, t.links.prev y = if y = n then some b else s.links.prev y) →
      Phys.UnlinkedLinks s t p k

/-- Unlinking `p` from the used ring of order `k` leaves the rings of free blocks as they are,
but for a pointer that the last free block of order `k` gets anew when `p` is appended to it. -/
def Phys.UnlinksOff (s : Phys) (free : List Block) (p k : Nat) : Prop :=
  ∃ a, s.usedClists k = some a ∧
    (s.links.prev a = some a ∧ s.links.next a = some a ∨
      ∃ b n, s.links.prev p = some b ∧ s.links.next p = some n ∧
        (IsHead free b → s.links.next b = some n ∨
          ∃ h, s.freeClists k = some h ∧ s.links.prev h = some b) ∧
        (IsHead free n → s.links.prev n = some b))

theorem unlink (s : Phys) (free : List Block) (p k : Nat) :
    Ends (fun _ => ¬s.UnlinksOff free p k)
      (fun _ t => Phys.OnlyRing .used k s t ∧ s.UnlinkedLinks t p k)
      (clistDeleteEl (usedPpagesBlocksClist k) prevOf nextOf p s) := by
  have L := lawful_clist .used k
  cases ha : s.usedClists k with
  | none =>
    have hget : (usedPpagesBlocksClist k).get s = none := ha
    simp only [clistDeleteEl, bind_read, hget, bind_follow_none]
    rintro ⟨a, ha', -⟩
    cases ha.symm.trans ha'
  | some a =>
    have hget : (usedPpagesBlocksClist k).get s = some a := ha
    by_cases hsingle : s.links.prev a = some a ∧ s.links.next a = some a
    · have hrun : clistDeleteEl (PpageStatus.used.clist k) prevOf nextOf p s = _ :=
        clistDeleteEl_singleton hget hsingle.1 hsingle.2
      rw [show clistDeleteEl (usedPpagesBlocksClist k) prevOf nextOf p s = _ from hrun]
      refine ⟨.of_touched (clistDeleteEl_frame L hrun).1, .single a ha hsingle.1 hsingle.2 ?_⟩
      intro y hy
      simp only [SamePointers, Phys.links, linksOf, L.next_list, L.next_prev, L.next_next,
        L.prev_list, L.prev_prev, L.prev_next, if_neg hy, and_self]
    · cases hp : s.links.prev p with
      | none =>
        have hp' : (prevOf p).get s = none := hp
        simp only [clistDeleteEl, bind_read, hget, bind_follow, if_neg
          (show ¬((prevOf a).get s = some a ∧ (nextOf a).get s = some a) from hsingle), hp',
          bind_follow_none]
        rintro ⟨c, hc, hcase⟩
        cases ha.symm.trans hc
        rcases hcase with hboth | ⟨b, n, hb, -⟩
        · exact hsingle hboth
        · cases hp.symm.trans hb
      | some b =>
        cases hn : s.links.next p with
        | none =>
          have hp' : (prevOf p).get s = some b := hp
          have hn' : (nextOf p).get ((nextOf b).set none s) = none := by
            rw [L.next_next, show (nextOf p).get s = none from hn, ite_self]
          simp only [clistDeleteEl, bind_read, hget, bind_follow, if_neg
            (show ¬((prevOf a).get s = some a ∧ (nextOf a).get s = some a) from hsingle), hp',
            show (nextOf p).get s = none from hn, bind_write, hn', bind_follow_none]
          rintro ⟨c, hc, hcase⟩
          cases ha.symm.trans hc
          rcases hcase with hboth | ⟨b, n, -, hn₁, -⟩
          · exact hsingle hboth
          · cases hn.symm.trans hn₁
        | some n =>
          have hrun := clistDeleteEl_of_some L hget hsingle hp hn
          rw [show clistDeleteEl (usedPpagesBlocksClist k) prevOf nextOf p s = _ from hrun]
          refine ⟨.of_touched (clistDeleteEl_frame L hrun).1, .between a b n ha hsingle hp
            hn ?_ ?_⟩
          · intro y
            split <;> simp only [Phys.links, linksOf, L.next_list, L.next_prev, L.next_next]
          · intro y
            split <;> simp only [Phys.links, linksOf, L.prev_list, L.prev_prev, L.prev_next]

theorem Phys.Live.partition (hl : s.Live free p k) (h : s.FreeSound free) :
    s.Partition free [⟨p, k⟩] := by
  refine ⟨h.partition.rings, h.partition.order_lt, ?_, ?_, ?_, h.blocks.last_lt⟩
  · refine List.pairwise_append.mpr ⟨h.blocks.apart, List.pairwise_singleton .., ?_⟩
    intro b hb c hc
    rw [List.mem_singleton.mp hc]
    exact hl.apart b hb
  · intro b hb
    rcases List.mem_append.mp hb with hb | hb
    · exact h.blocks.first_le b hb
    · rw [List.mem_singleton.mp hb]
      exact hl.first_le
  · intro b hb
    rcases List.mem_append.mp hb with hb | hb
    · exact h.blocks.le_last b hb
    · rw [List.mem_singleton.mp hb]
      exact hl.le_last

theorem Phys.Live.ne_head (hl : s.Live free p k) (hy : IsHead free y) : y ≠ p := by
  rintro rfl
  exact hl.not_inFree (Block.ppn_mem ⟨y, k⟩) hy.inFree

theorem Phys.Live.append (hl : s.Live free p k) (h : s.FreeSound free)
    (hf : t.firstPpn = s.firstPpn) (hlast : t.lastPpn = s.lastPpn)
    (hlist : t.freeClists = s.freeClists)
    (hsame : ∀ y, IsHead free y → SamePointers s.links t.links y) :
    ∃ u, clistPushTail (freePpagesBlocksClist k) prevOf nextOf p t = .ok ((), u) ∧
      u.Partition (free ++ [⟨p, k⟩]) [] ∧ Phys.OnlyRing .free k t u := by
  have hpart := (hl.partition h).transport hf hlast hlist fun b hb => hsame b.ppn ⟨b, hb, rfl⟩
  obtain ⟨u, hrun, hpart', honly, -⟩ := hpart.push hl.order_lt
  exact ⟨u, hrun, hpart', honly⟩

/-- The last block of the free ring may have a wrong successor, it gets the new block as one. -/
theorem Phys.Live.append_last (hl : s.Live free p k) (h : s.FreeSound free)
    (hf : t.firstPpn = s.firstPpn) (hlast : t.lastPpn = s.lastPpn)
    (hlist : t.freeClists = s.freeClists) (ha : s.freeClists k = some a)
    (hb : s.links.prev a = some b)
    (hnext : ∀ y, IsHead free y → y ≠ b → t.links.next y = s.links.next y)
    (hprev : ∀ y, IsHead free y → t.links.prev y = s.links.prev y) :
    ∃ u, clistPushTail (freePpagesBlocksClist k) prevOf nextOf p t = .ok ((), u) ∧
      u.Partition (free ++ [⟨p, k⟩]) [] ∧ Phys.OnlyRing .free k t u := by
  have L := lawful_clist .free k
  have hhead : IsHead free a := ⟨_, h.mem ha, rfl⟩
  have hat : (PpageStatus.free.clist k).get t = some a := by
    rw [← ha, ← hlist]
    rfl
  have hbt : t.links.prev a = some b := by rw [hprev a hhead, hb]
  obtain ⟨u, hrun, honly, hul, hun, hup⟩ := push_some .free k p hat hbt
  -- the same push with the successor put right
  have hbn : ∀ y, ((nextOf b).set (s.links.next b) t).links.next y =
      if y = b then s.links.next b else t.links.next y := fun y => L.next_next y b _ t
  have hbp : ∀ y, ((nextOf b).set (s.links.next b) t).links.prev y = t.links.prev y :=
    fun y => L.prev_next y b _ t
  obtain ⟨u', hrun', hpart, honly'⟩ := hl.append (t := (nextOf b).set (s.links.next b) t) h hf
    hlast hlist fun y hy => ⟨by
      rw [hbn]
      split
      · rw [‹y = b›]
      · exact hnext y hy ‹_›, by rw [hbp, hprev y hy]⟩
  have hat' : (PpageStatus.free.clist k).get ((nextOf b).set (s.links.next b) t) = some a := by
    rw [L.list_next, hat]
  obtain ⟨u'', hrun'', -, hul', hun', hup'⟩ := push_some .free k p hat' ((hbp a).trans hbt)
  cases hrun'.symm.trans hrun''
  refine ⟨u, hrun, hpart.transport ?_ ?_ ?_ ?_, honly⟩
  · rw [honly.firstPpn, honly'.firstPpn]
    rfl
  · rw [honly.lastPpn, honly'.lastPpn]
    rfl
  · funext i
    by_cases hi : i = k
    · subst hi
      exact hul.trans hul'.symm
    · exact (honly.others .free i fun hc => hi hc.2).trans
        ((honly'.others .free i fun hc => hi hc.2).trans rfl).symm
  · intro c _
    refine ⟨?_, ?_⟩
    · rw [hun, hun']
      by_cases hcb : c.ppn = b
      · rw [if_pos hcb, if_pos hcb]
      · rw [if_neg hcb, if_neg hcb, hbn, if_neg hcb]
    · rw [hup, hup', hbp]

theorem Phys.UnlinkedLinks.append (hu : s.UnlinkedLinks t p k) (hoff : s.UnlinksOff free p k)
    (h : s.FreeSound free) (hl : s.Live free p k) (honly : Phys.OnlyRing .used k s t) :
    ∃ u, clistPushTail (freePpagesBlocksClist k) prevOf nextOf p ((countOf p).set 0 t) =
      .ok ((), u) ∧ u.Partition (free ++ [⟨p, k⟩]) [] ∧
      Phys.OnlyRing .free k ((countOf p).set 0 t) u := by
  have hcount := t.sameRings_count p 0
  have hf := hcount.firstPpn.trans honly.firstPpn
  have hlast := hcount.lastPpn.trans honly.lastPpn
  have hlist := hcount.freeClists.trans honly.freeClists_of_used
  generalize (countOf p).set 0 t = t₂ at hcount hf hlast hlist ⊢
  obtain ⟨a', ha', hcase⟩ := hoff
  cases hu with
  | single a ha _ _ hsame =>
    refine hl.append h hf hlast hlist fun y hy => ?_
    obtain ⟨hn, hp⟩ := hsame y (hl.ne_head hy)
    exact ⟨(hcount.pointers y).1.trans hn, (hcount.pointers y).2.trans hp⟩
  | between a b n ha hsingle hpb hpn hnext hprev =>
    cases ha.symm.trans ha'
    obtain ⟨b', n', hb', hn', hbnext, hnprev⟩ := hcase.resolve_left hsingle
    cases hpb.symm.trans hb'
    cases hpn.symm.trans hn'
    have hprev₂ : ∀ y, IsHead free y → t₂.links.prev y = s.links.prev y := by
      intro y hy
      rw [(hcount.pointers y).2, hprev]
      split
      · rename_i heq
        subst heq
        exact (hnprev hy).symm
      · rfl
    have hnext₂ : ∀ y, y ≠ b → t₂.links.next y = s.links.next y := by
      intro y hy
      rw [(hcount.pointers y).1, hnext, if_neg hy]
    by_cases hb : IsHead free b → s.links.next b = some n
    · refine hl.append h hf hlast hlist fun y hy => ⟨?_, hprev₂ y hy⟩
      by_cases hyb : y = b
      · subst hyb
        rw [(hcount.pointers y).1, hnext, if_pos rfl, hb hy]
      · exact hnext₂ y hyb
    · obtain ⟨hhead, hne⟩ := Classical.not_imp.mp hb
      obtain ⟨c, hc, hcb⟩ := (hbnext hhead).resolve_left hne
      exact hl.append_last h hf hlast hlist hc hcb (fun y _ hyb => hnext₂ y hyb) hprev₂

theorem Phys.UnlinkedLinks.off (hu : s.UnlinkedLinks t p k) (h : s.FreeSound free)
    (hl : s.Live free p k) (honly : Phys.OnlyRing .used k s t)
    (hrun : clistPushTail (freePpagesBlocksClist k) prevOf nextOf p ((countOf p).set 0 t) =
      .ok ((), u)) (hsound : u.FreeSound free') (hheads : ∀ y, IsHead free y → IsHead free' y) :
    s.UnlinksOff free p k := by
  have hcount := t.sameRings_count p 0
  cases hu with
  | single a ha hp hn _ => exact ⟨a, ha, .inl ⟨hp, hn⟩⟩
  | between a b n ha hsingle hpb hpn hnext hprev =>
    have hnext₂ : ∀ y, ((countOf p).set 0 t).links.next y =
        if y = b then some n else s.links.next y := fun y => by
      rw [(hcount.pointers y).1, hnext]
    have hprev₂ : ∀ y, ((countOf p).set 0 t).links.prev y =
        if y = n then some b else s.links.prev y := fun y => by
      rw [(hcount.pointers y).2, hprev]
    have hlist : ((countOf p).set 0 t).freeClists k = s.freeClists k := by
      rw [hcount.freeClists, honly.freeClists_of_used]
    generalize (countOf p).set 0 t = t₂ at hnext₂ hprev₂ hlist hrun
    refine ⟨a, ha, .inr ⟨b, n, hpb, hpn, ?_⟩⟩
    -- the links at the end, by whether the free ring of order `k` was empty
    have hends : ∀ y, y ≠ p →
        (u.links.next y = t₂.links.next y ∨ ∃ c, s.freeClists k = some c ∧
          t₂.links.prev c = some y ∧ u.links.next y = some p) ∧
        (u.links.prev y = t₂.links.prev y ∨ s.freeClists k = some y ∧
          u.links.prev y = some p) := by
      intro y hy
      cases hc : s.freeClists k with
      | none =>
        obtain ⟨u', hrun', -, -, hun, hup⟩ := push_none .free k p (hlist.trans hc)
        cases hrun.symm.trans hrun'
        exact ⟨.inl (by rw [hun, if_neg hy]), .inl (by rw [hup, if_neg hy])⟩
      | some c =>
        cases hq : t₂.links.prev c with
        | none =>
          exact nomatch hrun.symm.trans
            (clistPushTail_null (x := p) (lawful_clist .free k) (hlist.trans hc) hq)
        | some q =>
          obtain ⟨u', hrun', -, -, hun, hup⟩ := push_some .free k p (hlist.trans hc) hq
          cases hrun.symm.trans hrun'
          refine ⟨?_, ?_⟩
          · by_cases hyq : y = q
            · subst hyq
              exact .inr ⟨c, rfl, hq, by rw [hun, if_pos rfl]⟩
            · exact .inl (by rw [hun, if_neg hyq, if_neg hy])
          · by_cases hyc : y = c
            · subst hyc
              exact .inr ⟨rfl, by rw [hup, if_pos rfl]⟩
            · exact .inl (by rw [hup, if_neg hyc, if_neg hy])
    have hnprev : IsHead free n → s.links.prev n = some b := by
      intro hn
      obtain ⟨y, hy, hny, hyn⟩ := h.prev_of_head hn
      by_contra hne
      have hyb : y ≠ b := fun heq => hne (heq ▸ hny)
      have hty : t₂.links.next y = some n := by rw [hnext₂, if_neg hyb, hyn]
      obtain ⟨w, -, hyw, hwy⟩ := hsound.next_of_head (hheads y hy)
      rcases (hends y (hl.ne_head hy)).1 with heq | ⟨c, hc, hcy, -⟩
      · cases (heq.trans hty).symm.trans hyw
        rcases (hends n (hl.ne_head hn)).2 with heq' | ⟨-, hnp⟩
        · rw [hprev₂, if_pos rfl, hwy] at heq'
          exact hyb (Option.some.inj heq')
        · exact hl.ne_head hy (Option.some.inj (hwy.symm.trans hnp))
      · rw [hprev₂] at hcy
        split at hcy
        · exact hyb (Option.some.inj hcy).symm
        · obtain ⟨z, -, hcz, hzc⟩ := h.prev_of_head ⟨_, h.mem hc, rfl⟩
          cases hcy.symm.trans hcz
          exact ‹c ≠ n› (Option.some.inj (hzc.symm.trans hyn))
    refine ⟨fun hb => ?_, hnprev⟩
    by_contra hno
    obtain ⟨hne, hlast⟩ := not_or.mp hno
    obtain ⟨m, hm, hbm, hmb⟩ := h.next_of_head hb
    have hmn : m ≠ n := fun heq => hne (heq ▸ hbm)
    have hub : u.links.next b = some n := by
      rcases (hends b (hl.ne_head hb)).1 with heq | ⟨c, hc, hcb, -⟩
      · rw [heq, hnext₂, if_pos rfl]
      · rw [hprev₂] at hcb
        split at hcb
        · rename_i hcn
          subst hcn
          exact absurd ⟨c, hc, hnprev ⟨_, h.mem hc, rfl⟩⟩ hlast
        · exact absurd ⟨c, hc, hcb⟩ hlast
    have hum : u.links.prev m = some b := by
      rcases (hends m (hl.ne_head hm)).2 with heq | ⟨hc, -⟩
      · rw [heq, hprev₂, if_neg hmn, hmb]
      · exact absurd ⟨m, hc, hmb⟩ hlast
    obtain ⟨w, -, hmw, hwm⟩ := hsound.prev_of_head (hheads m hm)
    cases hum.symm.trans hmw
    exact hmn (Option.some.inj (hwm.symm.trans hub))

/-! ### Freeing -/

/-- When a free does what it should: the used ring does not lead to free blocks, the test for a
merge looks at a page in the managed range and fails, and the block of the same order that the
freed one could be joined to is not free. -/
structure Phys.FreesOff (s : Phys) (free : List Block) (p k : Nat) : Prop where
  unlinks : s.UnlinksOff free p k
  stops : ¬s.Merges p k
  range : k < maxPpageBlockOrder - 1 → s.firstPpn ≤ findBuddy p k ∧ findBuddy p k ≤ s.lastPpn
  alone : k < maxPpageBlockOrder - 1 → ⟨p ^^^ 2 ^ k, k⟩ ∉ free

theorem Phys.Live.marked (hl : s.Live free p k) (h : s.FreeSound free)
    (hinfo : ∀ x, (t.dscrs x).unlinked =
      if x = p then { (s.dscrs p).unlinked with count := 0 } else (s.dscrs x).unlinked)
    (hfirst : s.firstPpn ≤ x) (hlast : x ≤ s.lastPpn) :
    t.FreeHead x j ↔ ⟨x, j⟩ ∈ free ++ [⟨p, k⟩] := by
  rw [List.mem_append, List.mem_singleton]
  have hx := hinfo x
  by_cases hxp : x = p
  · subst hxp
    rw [if_pos rfl] at hx
    have hhead := (congrArg Ppage.blockHead hx).trans hl.blockHead
    have hcount := congrArg Ppage.count hx
    have horder := (congrArg Ppage.blockOrder hx).trans hl.blockOrder
    rw [or_iff_right fun hmem => hl.ne_head ⟨_, hmem, rfl⟩ rfl]
    constructor
    · exact fun hf => congrArg (Block.mk x) (hf.order.symm.trans horder)
    · exact fun heq => ⟨hhead, hcount, horder.trans (congrArg Block.order heq).symm⟩
  · rw [if_neg hxp] at hx
    rw [Phys.freeHead_congr hx, h.marked x j hfirst hlast,
      or_iff_left fun heq => hxp (congrArg Block.ppn heq)]

theorem xor_two_pow_ne (p k : Nat) : p ^^^ 2 ^ k ≠ p := by
  intro heq
  have hbit := congrArg (Nat.testBit · k) heq
  simp only [Nat.testBit_xor, Nat.testBit_two_pow_self, Bool.xor_true] at hbit
  cases hb : p.testBit k <;> rw [hb] at hbit <;> exact nomatch hbit

theorem NoBuddies.append (h : NoBuddies free)
    (hp : k < maxPpageBlockOrder - 1 → ⟨p ^^^ 2 ^ k, k⟩ ∉ free) :
    NoBuddies (free ++ [⟨p, k⟩]) := by
  intro b hb c hc heq hlt
  rcases List.mem_append.mp hb with hb | hb
  · rcases List.mem_append.mp hc with hc | hc
    · exact h b hb c hc heq hlt
    · rw [List.mem_singleton.mp hc] at heq ⊢
      intro hbuddy
      have horder : b.order = k := heq
      rw [horder] at hlt hbuddy
      have hpb : p ^^^ 2 ^ k = b.ppn := by
        rw [show p = b.ppn ^^^ 2 ^ k from hbuddy, Nat.xor_assoc, Nat.xor_self, Nat.xor_zero]
      exact hp hlt (by rwa [hpb, ← horder])
  · rw [List.mem_singleton.mp hb] at heq hlt ⊢
    rcases List.mem_append.mp hc with hc | hc
    · intro hbuddy
      refine hp hlt ?_
      rwa [← hbuddy, show k = c.order from heq]
    · rw [List.mem_singleton.mp hc]
      exact fun hbuddy => xor_two_pow_ne p k hbuddy.symm

theorem inFree_append : InFree (free ++ [b]) x ↔ InFree free x ∨ x ∈ b.pages := by
  simp only [InFree, List.mem_append, List.mem_singleton, or_and_right, exists_or, exists_eq_left]

theorem ppageBlockFree_stops (hl : s.Live free p k) (hstops : ¬s.Merges p k)
    (hrun : ppageBlockFree_ p k s = .ok ((), u)) : ∃ t, Phys.OnlyRing .used k s t ∧
      s.UnlinkedLinks t p k ∧
      (k < maxPpageBlockOrder - 1 →
        s.firstPpn ≤ findBuddy p k ∧ findBuddy p k ≤ s.lastPpn) ∧
      clistPushTail (freePpagesBlocksClist k) prevOf nextOf p ((countOf p).set 0 t) =
        .ok ((), u) := by
  rw [ppageBlockFree_live hl] at hrun
  obtain ⟨_, t, hdelete, hrun⟩ := of_bind_ok hrun
  obtain ⟨honly, hu⟩ := (unlink s free p k).ok hdelete
  obtain ⟨_, t₂, hcount, hrun⟩ := of_bind_ok hrun
  cases hcount
  obtain ⟨r, t₃, hmerge, hrun⟩ := of_bind_ok hrun
  obtain ⟨rfl, rfl, hrange⟩ := (mergeLoop_stops hstops honly.info hl.blockOrder).ok hmerge
  rw [honly.firstPpn, honly.lastPpn] at hrange
  exact ⟨t, honly, hu, fun hk => hrange (by omega), hrun⟩

theorem Phys.OnlyRing.freedInfo (ht : Phys.OnlyRing .used k s t)
    (hu : Phys.OnlyRing .free k ((countOf p).set 0 t) u) (x : Nat) : (u.dscrs x).unlinked =
      if x = p then { (s.dscrs p).unlinked with count := 0 } else (s.dscrs x).unlinked := by
  rw [hu.info, setCount_unlinked, ht.info, ht.info]

/-- The condition is necessary. -/
theorem Phys.Freed.off (h : s.FreeSound free) (hl : s.Live free p k)
    (hrun : ppageBlockFree_ p k s = .ok ((), u)) (hfreed : u.Freed free p k) :
    s.FreesOff free p k := by
  have hstops : ¬s.Merges p k := fun hm => (ppageBlockFree_merges h hl hm).ok hrun hfreed
  obtain ⟨t, honly, hu, hrange, hpush⟩ := ppageBlockFree_stops hl hstops hrun
  obtain ⟨free', hsound, -, hnb⟩ := hfreed
  have hpushed := Phys.OnlyRing.of_touched (clistPushTail_frame (lawful_clist .free k) hpush).1
  have hfirst : u.firstPpn = s.firstPpn := hpushed.firstPpn.trans honly.firstPpn
  have hlast : u.lastPpn = s.lastPpn := hpushed.lastPpn.trans honly.lastPpn
  have hmem : ∀ b, b ∈ free ++ [⟨p, k⟩] → b ∈ free' := by
    intro b hb
    have hblocks := (hl.partition h).blocks
    have hle := hblocks.first_le b hb
    have hge := hblocks.le_last b hb
    have hpos := Nat.two_pow_pos b.order
    exact (hsound.marked b.ppn b.order (by rwa [hfirst]) (by rw [hlast]; omega)).mp
      ((hl.marked h (honly.freedInfo hpushed) hle (by omega)).mpr hb)
  refine ⟨hu.off h hl honly hpush hsound ?_, hstops, hrange, fun hk hbuddy => ?_⟩
  · rintro y ⟨b, hb, rfl⟩
    exact ⟨b, hmem b (List.mem_append_left _ hb), rfl⟩
  · exact hnb ⟨p, k⟩ (hmem _ (List.mem_append_right _ List.mem_cons_self))
      ⟨p ^^^ 2 ^ k, k⟩ (hmem _ (List.mem_append_left _ hbuddy)) rfl hk rfl

/-- A free that spares the free rings and does not merge makes the block a free one. -/
theorem ppageBlockFree_sound (h : s.FreeSound free) (hl : s.Live free p k)
    (hunlinks : s.UnlinksOff free p k) (hstops : ¬s.Merges p k)
    (hrange : k < maxPpageBlockOrder - 1 →
      s.firstPpn ≤ findBuddy p k ∧ findBuddy p k ≤ s.lastPpn) :
    ∃ u, ppageBlockFree_ p k s = .ok ((), u) ∧ u.FreeSound (free ++ [⟨p, k⟩]) := by
  obtain ⟨_, t, hdelete, honly, hu⟩ :=
    ((unlink s free p k).mono (fun _ hno => hno hunlinks) fun _ _ h => h).returns
  obtain ⟨u, hpush, hpart, hpushed⟩ := hu.append hunlinks h hl honly
  have hmerge := mergeLoop_stops hstops honly.info hl.blockOrder
  rw [honly.firstPpn, honly.lastPpn] at hmerge
  obtain ⟨r, t₃, hmerge, rfl, rfl, -⟩ := (hmerge.mono (fun _ hno => hno.2
    (hrange (Nat.lt_of_sub_ne_zero hno.1))) fun _ _ h => h).returns
  have hrun : ppageBlockFree_ p k s = .ok ((), u) := by
    rw [ppageBlockFree_live hl, bind_ok hdelete]
    exact (bind_ok (Place.write_ok (countOf p) 0 t)).trans ((bind_ok hmerge).trans hpush)
  refine ⟨u, hrun, hpart, ?_, ?_⟩
  · intro b hb
    rcases List.mem_append.mp hb with hb | hb
    · exact h.aligned b hb
    · rw [List.mem_singleton.mp hb]
      exact hl.aligned
  · intro x j hfirst hlast
    rw [hpushed.firstPpn] at hfirst
    rw [hpushed.lastPpn] at hlast
    exact hl.marked h (honly.freedInfo hpushed) (honly.firstPpn ▸ hfirst) (honly.lastPpn ▸ hlast)

/-- The condition is sufficient. -/
theorem Phys.FreesOff.freed (hoff : s.FreesOff free p k) (h : s.FreeSound free)
    (hnone : NoBuddies free) (hl : s.Live free p k) :
    ∃ u, ppageBlockFree_ p k s = .ok ((), u) ∧ u.Freed free p k := by
  obtain ⟨u, hrun, hsound⟩ := ppageBlockFree_sound h hl hoff.unlinks hoff.stops hoff.range
  exact ⟨u, hrun, _, hsound, fun x => inFree_append, hnone.append hoff.alone⟩

theorem firstFree_eval : Ends (fun _ => False) (fun (r : Phys × Option Nat × Phys × Phys) _ =>
    ((∀ i < 10, r.1.freeClists i = if i = 2 then some 260 else none) ∧
      r.1.links.next 260 = some 260) ∧
    r.2.1 = some 260 ∧
    (r.2.2.1.usedClists 0 = some 260 ∧ r.2.2.1.links.prev 260 = some 260 ∧
      r.2.2.1.links.next 260 = some 260 ∧ r.2.2.1.firstPpn = 0 ∧
      (r.2.2.1.dscrs 260).unlinked = ⟨true, 0, 1, 0, 0, none, none⟩ ∧
      (r.2.2.1.dscrs 0).count = 1) ∧
    r.2.2.2.freeClists 1 = some 262 ∧ r.2.2.2.usedClists 1 = some 256 ∧
      r.2.2.2.links.prev 256 = some 260)
    (physBootThen 0x100000 0x102000 263 (do
      let s₀ ← get
      let block ← ppageBlockAlloc_ 0
      let s₁ ← get
      ppageBlockFree_ 260 0
      return (s₀, block, s₁, ← get)) smallKernel) := by
  decide +kernel

/-- After boot with 264 pages, a page is allocated and freed again. -/
structure FirstFree (s₀ s₁ s₂ : Phys) (free used : List Block) : Prop where
  boot : s₀.RingsSound free used
  only : ∀ b ∈ free, b = ⟨260, 2⟩
  empty : s₀.freeClists 0 = none ∧ s₀.freeClists 1 = none
  served : s₀.freeClists 2 = some 260
  alloc : ppageBlockAlloc_ 0 s₀ = .ok (some 260, s₁)
  sound : s₁.FreeSound (afterSplit free 260 0 2)
  live : s₁.Live (afterSplit free 260 0 2) 260 0
  noBuddies : NoBuddies (afterSplit free 260 0 2)
  freed : ppageBlockFree_ 260 0 s₁ = .ok ((), s₂)
  sound' : s₂.FreeSound (afterSplit free 260 0 2 ++ [⟨260, 0⟩])
  next : s₂.freeClists 1 = some 262
  stale : s₂.usedClists 1 = some 256 ∧ s₂.links.prev 256 = some 260

theorem firstFree : ∃ s₀ s₁ s₂ free used, FirstFree s₀ s₁ s₂ free used := by
  obtain ⟨k, ⟨s₀, block, s₁, s₂⟩, k', hboot, hrun, ⟨hlists, hself⟩, hblock,
    ⟨hused, hprev, hnext, hfirst, hdscr, hzero⟩, hnext₂, hstale⟩ := of_physBootThen firstFree_eval
  simp only at hlists hself hblock hused hprev hnext hfirst hdscr hzero hnext₂ hstale
  obtain ⟨F, hover⟩ := smallKernel_ready.handover hboot
  have hrings := hover.starts.ringsSound (by decide)
  obtain ⟨_, _, hget, hrun⟩ := of_bind_ok hrun
  cases hget
  obtain ⟨_, s₁', halloc, hrun⟩ := of_bind_ok hrun
  obtain ⟨_, _, hget, hrun⟩ := of_bind_ok hrun
  cases hget
  obtain ⟨_, s₂', hfree, hrun⟩ := of_bind_ok hrun
  cases hrun
  subst hblock
  have hlast : k.phys.lastPpn = 263 := hover.starts.lastPpn
  generalize k.phys = s₀ at *
  have hsound := hrings.freeSound
  have h2 : s₀.freeClists (0 + 2) = some 260 := hlists 2 (by decide)
  have hempty : ∀ j, 0 ≤ j → j < 0 + 2 → s₀.freeClists j = none := by
    intro j _ hj
    rw [hlists j (by omega), if_neg (by omega)]
  obtain ⟨-, hout⟩ := (ppageBlockAlloc_outcome hsound h2 hempty).ok halloc
  have hkept := hout.kept (hrings.pushesOff (hsound.mem h2))
  have hsound₁ := hkept.freeSound hout.carved hsound (hsound.mem h2)
  have hlast₁ := hout.carved.lastPpn.trans hlast
  have honly : ∀ b ∈ F .free, b = ⟨260, 2⟩ := by
    intro b hb
    have hring := hsound.ring b.order
    have hin := mem_headsOf.mpr hb
    rw [hlists b.order (hsound.partition.order_lt b hb)] at hring
    split at hring
    · rw [hring.eq_singleton hself, List.mem_singleton] at hin
      exact Block.ext hin ‹b.order = 2›
    · rw [hring.eq_nil] at hin
      exact nomatch hin
  have hlive : s₁.Live (afterSplit (F .free) 260 0 2) 260 0 := by
    refine ⟨congrArg Ppage.blockHead hdscr, congrArg Ppage.blockOrder hdscr,
      congrArg Ppage.count hdscr, congrArg Ppage.mapping hdscr, congrArg Ppage.slab hdscr,
      by decide, rfl, by rw [hfirst]; decide, by rw [hlast₁]; decide, fun b hb => ?_⟩
    exact (List.pairwise_append.mp hkept.partition.blocks.apart).2.2 b hb _ List.mem_cons_self
  have hbuddy : findBuddy 260 0 = 0 := by decide
  obtain ⟨u, hrunFree, hsound₂⟩ := ppageBlockFree_sound hsound₁ hlive
    ⟨260, hused, .inl ⟨hprev, hnext⟩⟩ (fun hm => by
      have hcount := hm.2.1
      rw [hbuddy, hzero] at hcount
      omega) fun _ => by
      rw [hbuddy, hfirst]
      exact ⟨le_refl 0, Nat.zero_le _⟩
  cases hfree.symm.trans hrunFree
  refine ⟨s₀, s₁, _, F .free, F .used, hrings, honly, ⟨?_, ?_⟩, h2, halloc, hsound₁, hlive, ?_,
    hfree, hsound₂, hnext₂, hstale⟩
  · exact hempty 0 (le_refl 0) (by decide)
  · exact hempty 1 (by decide) (by decide)
  · intro b hb c hc heq _
    rw [mem_afterSplit hsound.partition.nodup] at hb hc
    have hpart : ∀ d, ((d ∈ F .free ∧ d ≠ ⟨260, 0 + 2⟩) ∨
        ∃ i, 0 ≤ i ∧ i < 0 + 2 ∧ d = ⟨260 + 2 ^ i, i⟩) → d = ⟨261, 0⟩ ∨ d = ⟨262, 1⟩ := by
      rintro d (⟨hd, hne⟩ | ⟨i, -, hi, rfl⟩)
      · exact absurd (honly d hd) hne
      · obtain rfl | rfl : i = 0 ∨ i = 1 := by omega
        · exact .inl rfl
        · exact .inr rfl
    rcases hpart b hb with rfl | rfl <;> rcases hpart c hc with rfl | rfl <;>
      first | exact absurd heq (by decide) | decide

/-- The free blocks are as they should be after a free exactly when it meets the condition. -/
theorem ppageBlockFree_frees_iff (s : Phys) (free : List Block) (p k : Nat)
    (h : s.FreeSound free) (hnone : NoBuddies free) (hl : s.Live free p k) :
    (∃ t, ppageBlockFree_ p k s = .ok ((), t) ∧ t.Freed free p k) ↔ s.FreesOff free p k := by
  constructor
  · rintro ⟨t, hrun, hfreed⟩
    exact hfreed.off h hl hrun
  · exact fun hoff => hoff.freed h hnone hl

theorem ppageBlockFree_frees_small : ∃ s free, s.FreeSound free ∧ NoBuddies free ∧
    s.Live free 260 0 ∧ ((∃ t, ppageBlockFree_ 260 0 s = .ok ((), t) ∧ t.Freed free 260 0) ↔
      s.FreesOff free 260 0) := by
  obtain ⟨s₀, s₁, s₂, free, used, h⟩ := firstFree
  exact ⟨s₁, _, h.sound, h.noBuddies, h.live,
    ppageBlockFree_frees_iff s₁ _ 260 0 h.sound h.noBuddies h.live⟩

/-- Page 260 is freed while page 261, its buddy, is free; they are not joined. -/
theorem ppageBlockFree_apart : ¬∀ (s : Phys) (free : List Block) (p k : Nat),
    s.FreeSound free → NoBuddies free → s.Live free p k →
      ∃ t, ppageBlockFree_ p k s = .ok ((), t) ∧ t.Freed free p k := by
  intro hclaim
  obtain ⟨s₀, s₁, s₂, free, used, h⟩ := firstFree
  obtain ⟨t, hrun, hfreed⟩ := hclaim s₁ _ 260 0 h.sound h.noBuddies h.live
  refine (hfreed.off h.sound h.live hrun).alone (by decide) ?_
  exact (mem_afterSplit h.boot.freeSound.partition.nodup).mpr (.inr ⟨0, le_refl 0, by decide, rfl⟩)

end Atros
