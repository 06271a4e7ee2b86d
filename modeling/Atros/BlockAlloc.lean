import Mathlib.Data.Nat.Find
import Atros.BlockFree

namespace Atros
set_option autoImplicit true

variable {s t : Phys} {free used : List Block}

theorem Phys.SplitsTo.pushesOff (hsplits : s.SplitsTo t free k (k + d) p)
    (h : s.FreeSound free) (hp : s.freeClists (k + d) = some p)
    (hempty : ∀ j, k ≤ j → j < k + d → s.freeClists j = none)
    (hrun : ppageBlockAlloc_ k s = .ok (some p, t)) : s.PushesOff free p (k + d) d := by
  obtain ⟨-, ho⟩ := (ppageBlockAlloc_outcome h hp hempty).ok hrun
  obtain ⟨free', ht, hpages⟩ := hsplits.sound
  by_contra hno
  refine ho.carved.not_bent h (h.mem hp) ht (fun hhead => ?_) (ho.bent hno)
  exact ((hpages p).mp hhead.inFree).2 (Block.ppn_mem ⟨p, k⟩)

/-- A block is split as it should be when no push onto a used ring stores to a free head, and
only then. -/
theorem ppageBlockAlloc_splits_iff (s : Phys) (free : List Block) (k m p : Nat)
    (h : s.FreeSound free) (hkm : k ≤ m) (hp : s.freeClists m = some p)
    (hempty : ∀ j, k ≤ j → j < m → s.freeClists j = none) :
    (∃ t, ppageBlockAlloc_ k s = .ok (some p, t) ∧ s.SplitsTo t free k m p) ↔
      s.PushesOff free p m (m - k) := by
  obtain ⟨d, rfl⟩ := Nat.exists_eq_add_of_le hkm
  rw [Nat.add_sub_cancel_left]
  constructor
  · rintro ⟨t, hrun, hsplits⟩
    exact hsplits.pushesOff h hp hempty hrun
  · intro hoff
    obtain ⟨r, t, hrun, rfl, ho⟩ := ((ppageBlockAlloc_outcome h hp hempty).mono
      (fun _ hno => hno hoff) fun _ _ h => h).returns
    exact ⟨t, hrun, ho.splitsTo h hp hoff⟩

theorem ppageBlockAlloc_splits_small : ∃ s free, s.FreeSound free ∧
    s.freeClists 2 = some 260 ∧
    ((∃ t, ppageBlockAlloc_ 0 s = .ok (some 260, t) ∧ s.SplitsTo t free 0 2 260) ↔
      s.PushesOff free 260 2 2) := by
  obtain ⟨s₀, s₁, s₂, free, used, h⟩ := firstFree
  refine ⟨s₀, free, h.boot.freeSound, h.served, ppageBlockAlloc_splits_iff s₀ free 0 2 260
    h.boot.freeSound (by decide) h.served fun j _ hj => ?_⟩
  obtain rfl | rfl : j = 0 ∨ j = 1 := by omega
  · exact h.empty.1
  · exact h.empty.2

/-- The used ring of order 1 leads to page 260, which is free: the block at 262 is pushed behind
it. -/
theorem ppageBlockAlloc_splits_stale : ¬∀ (s : Phys) (free : List Block) (k m p : Nat),
    s.FreeSound free → k ≤ m → s.freeClists m = some p →
      (∀ j, k ≤ j → j < m → s.freeClists j = none) →
      ∃ t, ppageBlockAlloc_ k s = .ok (some p, t) ∧ s.SplitsTo t free k m p := by
  intro hclaim
  obtain ⟨s₀, s₁, s₂, free, used, h⟩ := firstFree
  have hempty : ∀ j, 1 ≤ j → j < 1 + 0 → s₂.freeClists j = none := fun j _ _ => by omega
  obtain ⟨t, hrun, hsplits⟩ := hclaim s₂ _ 1 1 262 h.sound' (le_refl 1) h.next hempty
  have hoff := hsplits.pushesOff (d := 0) h.sound' h.next hempty hrun
  obtain ⟨-, q, hq, hnot⟩ := hoff 0 (le_refl 0) 256 h.stale.1
  rw [Phys.usedPrevs, Function.update_of_ne (by decide), h.stale.2] at hq
  cases hq
  refine hnot ⟨⟨260, 0⟩, (mem_afterSplit h.sound'.partition.nodup).mpr (.inl ⟨?_, ?_⟩), rfl⟩
  · exact List.mem_append_right _ List.mem_cons_self
  · decide

/-! ### The used rings -/

/-- The used ring of order `k` has got `p` as a new last block, the others are as before, and
they hold the heads of the used blocks. -/
structure Phys.UsedExact (s t : Phys) (used : List Block) (k p : Nat) : Prop where
  ring : ∀ j, t.links.Ring (t.usedClists j)
    (if j = k then headsOf k used ++ [p] else headsOf j used)
  same : ∀ j, j ≠ k → t.usedClists j = s.usedClists j
  marked : ∀ x j, t.firstPpn ≤ x → x ≤ t.lastPpn →
    (t.UsedHead x j ↔ x ∈ if j = k then headsOf k used ++ [p] else headsOf j used)

/-- Once `p` has been pushed onto the used ring of order `m`, it precedes its head. -/
theorem usedPrevs_head (s : Phys) (hap : a ≠ p) (ha : s.usedClists m = some a) (d : Nat) :
    s.usedPrevs p m (d + 1) a = some p := by
  induction d with
  | zero =>
    rw [Phys.usedPrevs, Nat.sub_zero, ha, pushedPrev, Function.update_self]
  | succ d ih =>
    rw [Phys.usedPrevs]
    cases s.usedClists (m - (d + 1)) with
    | none => rw [pushedPrev, Function.update_of_ne hap, ih]
    | some b =>
      rw [pushedPrev]
      by_cases hab : a = b
      · rw [hab, Function.update_self]
      · rw [Function.update_of_ne hab, Function.update_of_ne hap, ih]

theorem Phys.Outcome.not_usedExact (ho : s.Outcome t free p k (d + 1))
    (h : s.RingsSound free used) (hmem : ⟨p, k + (d + 1)⟩ ∈ free) :
    ¬s.UsedExact t used k p := by
  intro hexact
  have hkept := ho.kept (h.pushesOff hmem)
  have hsame := hexact.same (k + (d + 1)) (by omega)
  have hused := ho.carved.used (k + (d + 1)) (by omega) (le_refl _)
  rw [hsame] at hused
  have hring := hexact.ring (k + (d + 1))
  rw [if_neg (by omega), hsame] at hring
  cases ha : s.usedClists (k + (d + 1)) with
  | none =>
    rw [ha] at hused
    exact nomatch hused
  | some a =>
    rw [ha] at hring
    obtain ⟨as, has⟩ := hring.eq_cons
    have hin : a ∈ headsOf (k + (d + 1)) used := by
      rw [has]
      exact List.mem_cons_self
    have hap := h.ne_used hmem (mem_headsOf.mp hin)
    have hprev := (hkept.prevs a p (h.not_head hmem (mem_headsOf.mp hin))
      (h.freeSound.not_head hmem)).mpr (usedPrevs_head s hap ha (d + 1))
    obtain ⟨q, hq, hlink, -⟩ := hring.prev_mem hin
    cases hprev.symm.trans hlink
    exact h.ne_used hmem (mem_headsOf.mp hq) rfl

/-- The blocks of a status. -/
def blocksOf (free used : List Block) : PpageStatus → List Block
  | .free => free
  | .used => used

theorem Phys.RingsSound.rings (h : s.RingsSound free used) :
    s.Rings everyStatus fun st k => headsOf k (blocksOf free used st) := by
  have hin : ∀ st, ∀ b ∈ blocksOf free used st, b ∈ free ++ used := by
    intro st b hb
    cases st with
    | free => exact List.mem_append_left _ hb
    | used => exact List.mem_append_right _ hb
  refine ⟨fun st k _ => ?_, fun st k st' k' x _ _ hx hx' => ?_⟩
  · cases st with
    | free => exact h.freeSound.ring k
    | used => exact h.usedRing k
  · rw [mem_headsOf] at hx hx'
    have heq := h.blocks.head_inj (hin st _ hx) (hin st' _ hx') rfl
    refine ⟨?_, congrArg Block.order heq⟩
    rw [heq] at hx
    cases st <;> cases st' <;> try rfl
    · exact absurd rfl (h.ne_used hx hx')
    · exact absurd rfl (h.ne_used hx' hx)

/-- Without a split the block leaves its free ring for the used ring of its order. -/
theorem Phys.RingsSound.alloc_pop (h : s.RingsSound free used) (hp : s.freeClists k = some p) :
    ∃ t, ppageBlockAlloc_ k s = .ok (some p, t) ∧ s.UsedExact t used k p := by
  have hin := h.freeSound.mem hp
  have hk := h.freeSound.partition.order_lt _ hin
  simp only at hk
  obtain ⟨r, t, hrun, rfl, ho⟩ := ((ppageBlockAlloc_outcome (d := 0) h.freeSound hp
    (fun j h₁ h₂ => by omega)).mono (fun _ hno => hno (h.pushesOff hin)) fun _ _ h => h).returns
  obtain ⟨xs, hxs⟩ := h.freeSound.first_mem hp
  obtain ⟨s₁, hpop, hrings₁, honly₁, -⟩ := h.rings.pop (show everyStatus .free from trivial) hxs
  have hfresh : ∀ st j, everyStatus st → p ∉ (RingFamily.set (fun st k => headsOf k
      (blocksOf free used st)) .free k xs) st j := by
    intro st j _ hmem
    by_cases heq : st = .free ∧ j = k
    · obtain ⟨rfl, rfl⟩ := heq
      rw [RingFamily.set_self] at hmem
      have hnd := (h.freeSound.ring j).nodup
      rw [hxs] at hnd
      exact (List.nodup_cons.mp hnd).1 hmem
    · rw [RingFamily.set_of_ne _ heq] at hmem
      have hpk : p ∈ headsOf k (blocksOf free used .free) := by
        rw [blocksOf, hxs]
        exact List.mem_cons_self
      obtain ⟨hst, hj⟩ := h.rings.apart st j .free k p trivial trivial hmem hpk
      exact heq ⟨hst, hj⟩
  obtain ⟨s₂, hpush, hrings₂, honly₂, -⟩ :=
    hrings₁.push k (show everyStatus .used from trivial) hfresh
  have hrun₂ : ppageBlockAlloc_ k s = .ok (some p, (countOf p).set 1 s₂) := by
    obtain ⟨rounds, hr⟩ : ∃ rounds, maxPpageBlockOrder - k = rounds + 1 :=
      ⟨maxPpageBlockOrder - k - 1, by omega⟩
    have hsome : (freePpagesBlocksClist k).get s = some p := hp
    rw [ppageBlockAlloc_, hr, ppageBlockAllocFrom, bind_ok (check_ok hk), bind_read, hsome,
      if_neg (Option.some_ne_none p)]
    exact (bind_ok hpop).trans (bind_ok hpush)
  cases hrun.symm.trans hrun₂
  have hcount := s₂.sameRings_count p 1
  have hnodes : ∀ j, (RingFamily.set (RingFamily.set (fun st k => headsOf k
      (blocksOf free used st)) .free k xs) .used k
      (RingFamily.set (fun st k => headsOf k (blocksOf free used st)) .free k xs .used k ++ [p]))
      .used j = if j = k then headsOf k used ++ [p] else headsOf j used := by
    intro j
    have hne : ∀ i, ¬(PpageStatus.used = .free ∧ i = k) := by
      rintro i ⟨hc, -⟩
      cases hc
    by_cases hj : j = k
    · subst hj
      rw [RingFamily.set_self, RingFamily.set_of_ne _ (hne j), if_pos rfl]
      rfl
    · rw [RingFamily.set_of_ne _ (fun hc => hj hc.2), RingFamily.set_of_ne _ (hne j), if_neg hj]
      rfl
  refine ⟨_, hrun, ?_, ?_, ?_⟩
  · intro j
    have hring := hrings₂.ring .used j trivial
    rw [hnodes] at hring
    rw [hcount.usedClists]
    exact hring.transport (fun x _ => (hcount.pointers x).1) fun x _ => (hcount.pointers x).2
  · intro j hj
    exact ho.carved.otherUsed j (by omega)
  · intro x j hfirst hlast
    rw [ho.carved.firstPpn] at hfirst
    rw [ho.carved.lastPpn] at hlast
    have hnot : ∀ i, p ∉ headsOf i used := fun i hi => h.ne_used hin (mem_headsOf.mp hi) rfl
    by_cases hxp : x = p
    · subst hxp
      have hhead : ((((countOf x).set 1 s₂).dscrs x).blockHead) = true :=
        (congrArg Ppage.blockHead ho.carved.block).trans (h.freeSound.freeHead hin).head
      have hone := congrArg Ppage.count ho.carved.block
      have horder := congrArg Ppage.blockOrder ho.carved.block
      by_cases hj : j = k
      · subst hj
        rw [if_pos rfl]
        refine iff_of_true ⟨hhead, ?_, horder⟩ (List.mem_append_right _ List.mem_cons_self)
        exact fun hzero => absurd (hone.symm.trans hzero) (Nat.succ_ne_zero 0)
      · rw [if_neg hj]
        exact iff_of_false (fun hu => hj (hu.order.symm.trans horder)) (hnot j)
    · rw [Phys.usedHead_congr (ho.carved.others x hxp fun i h₁ h₂ => by omega),
        h.usedMarked x j hfirst hlast, ← mem_headsOf]
      split
      · rename_i hj
        rw [hj, List.mem_append, List.mem_singleton, or_iff_left hxp]
      · exact Iff.rfl

theorem exists_first_order {f : Nat → Option Nat} (h : ∃ m, k ≤ m ∧ f m ≠ none) :
    ∃ d p, f (k + d) = some p ∧ ∀ j, k ≤ j → j < k + d → f j = none := by
  have hex : ∃ d, f (k + d) ≠ none := by
    obtain ⟨m, hm, hne⟩ := h
    exact ⟨m - k, by rwa [Nat.add_sub_of_le hm]⟩
  obtain ⟨p, hp⟩ := Option.ne_none_iff_exists'.mp (Nat.find_spec hex)
  refine ⟨Nat.find hex, p, hp, fun j h₁ h₂ => ?_⟩
  have hlt := Nat.find_min hex (m := j - k) (by omega)
  rw [Nat.add_sub_of_le h₁] at hlt
  exact not_not.mp hlt

theorem Phys.RingsSound.alloc_split (h : s.RingsSound free used) (hnone : s.freeClists k = none)
    (hserved : ∃ m, k ≤ m ∧ s.freeClists m ≠ none)
    (hrun : ppageBlockAlloc_ k s = .ok (some p, t)) : ¬s.UsedExact t used k p := by
  obtain ⟨d, q, hq, hempty⟩ := exists_first_order hserved
  obtain ⟨heq, ho⟩ := (ppageBlockAlloc_outcome h.freeSound hq hempty).ok hrun
  cases heq
  cases d with
  | zero => exact nomatch hnone.symm.trans hq
  | succ d => exact ho.not_usedExact h (h.freeSound.mem hq)

/-- The used rings stay exact when the request is served without a split, and only then. -/
theorem ppageBlockAlloc_usedExact_iff (s : Phys) (free used : List Block) (k : Nat)
    (h : s.RingsSound free used)
    (hserved : ∃ m, k ≤ m ∧ m < maxPpageBlockOrder ∧ s.freeClists m ≠ none) :
    (∃ p t, ppageBlockAlloc_ k s = .ok (some p, t) ∧ s.UsedExact t used k p) ↔
      s.freeClists k ≠ none := by
  obtain ⟨m, hm, -, hne⟩ := hserved
  constructor
  · rintro ⟨p, t, hrun, hexact⟩ hnone
    exact h.alloc_split hnone ⟨m, hm, hne⟩ hrun hexact
  · intro hne
    obtain ⟨p, hp⟩ := Option.ne_none_iff_exists'.mp hne
    exact ⟨p, h.alloc_pop hp⟩

theorem ppageBlockAlloc_usedExact_small : ∃ s free used, s.RingsSound free used ∧
    ((∃ p t, ppageBlockAlloc_ 2 s = .ok (some p, t) ∧ s.UsedExact t used 2 p) ↔
      s.freeClists 2 ≠ none) := by
  obtain ⟨s₀, s₁, s₂, free, used, h⟩ := firstFree
  refine ⟨s₀, free, used, h.boot, ppageBlockAlloc_usedExact_iff s₀ free used 2 h.boot
    ⟨2, le_refl 2, by decide, ?_⟩⟩
  rw [h.served]
  exact Option.some_ne_none 260

/-- The first allocation after boot splits a block of order 2, which stays on the used ring of
that order. -/
theorem ppageBlockAlloc_usedExact_split : ¬∀ (s : Phys) (free used : List Block) (k : Nat),
    s.RingsSound free used →
      (∃ m, k ≤ m ∧ m < maxPpageBlockOrder ∧ s.freeClists m ≠ none) →
      ∃ p t, ppageBlockAlloc_ k s = .ok (some p, t) ∧ s.UsedExact t used k p := by
  intro hclaim
  obtain ⟨s₀, s₁, s₂, free, used, h⟩ := firstFree
  have hserved : s₀.freeClists 2 ≠ none := by
    rw [h.served]
    exact Option.some_ne_none 260
  obtain ⟨p, t, hrun, hexact⟩ := hclaim s₀ free used 0 h.boot ⟨2, by decide, by decide, hserved⟩
  exact h.boot.alloc_split h.empty.1 ⟨2, by decide, hserved⟩ hrun hexact

end Atros
