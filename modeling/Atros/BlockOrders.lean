import Atros.BlockAlloc

namespace Atros
set_option autoImplicit true

variable {s t : Phys} {free used : List Block}

/-! ### Exhaustion -/

/-- The recursion climbs through empty rings until the order is too large. -/
theorem ppageBlockAllocFrom_exhausted (h : ∀ j, order ≤ j → j < maxPpageBlockOrder →
    s.freeClists j = none) (hr : order + rounds = maxPpageBlockOrder) :
    ppageBlockAllocFrom rounds order s = .error .blockOrderTooLarge := by
  induction rounds generalizing order with
  | zero => rfl
  | succ rounds ih =>
    have hnone : (freePpagesBlocksClist order).get s = none := h order (le_refl _) (by omega)
    rw [ppageBlockAllocFrom, bind_ok (check_ok (by omega)), bind_read, if_pos hnone]
    exact bind_error (ih (fun j h₁ h₂ => h j (by omega) h₂) (by omega))

/-- An exhausted allocator never returns `NULL`: its own assertion fails. -/
theorem ppageBlockAlloc_exhausted (s : Phys) (k : Nat) (hk : k < maxPpageBlockOrder)
    (h : ∀ j, k ≤ j → j < maxPpageBlockOrder → s.freeClists j = none) :
    ppageBlockAlloc_ k s = .error .blockOrderTooLarge ∧ ppageBlockAlloc_ k s ≠ .ok (none, s) := by
  have herror := ppageBlockAllocFrom_exhausted h (Nat.add_sub_of_le hk.le)
  refine ⟨herror, fun hok => ?_⟩
  exact nomatch herror.symm.trans hok

theorem Phys.FreeSound.freeClists_nil (h : s.FreeSound []) (j : Nat) : s.freeClists j = none := by
  cases hj : s.freeClists j with
  | none => rfl
  | some p => exact absurd (h.mem hj) List.not_mem_nil

/-- After boot the only free block has four pages; when it is taken nothing is left. -/
theorem exhausted : ∃ s : Phys, s.FreeSound [] := by
  obtain ⟨s₀, s₁, s₂, free, used, h⟩ := firstFree
  have hsound := h.boot.freeSound
  have hin := hsound.mem h.served
  obtain ⟨r, t, hrun, rfl, ho⟩ := ((ppageBlockAlloc_outcome (k := 2) (d := 0) hsound
    h.served fun j _ _ => by omega).mono (fun _ hno => hno (h.boot.pushesOff hin))
    fun _ _ h => h).returns
  have hleft := (ho.kept (h.boot.pushesOff hin)).freeSound ho.carved hsound hin
  have hnil : afterSplit free 260 2 0 = [] := by
    refine List.eq_nil_iff_forall_not_mem.mpr fun b hb => ?_
    rcases (mem_afterSplit hsound.partition.nodup).mp hb with ⟨hb, hne⟩ | ⟨i, h₁, h₂, -⟩
    · exact hne (h.only b hb)
    · omega
  rw [hnil] at hleft
  exact ⟨t, hleft⟩

theorem ppageBlockAlloc_exhausted_none : ∃ s : Phys,
    ppageBlockAlloc_ 0 s = .error .blockOrderTooLarge ∧ ppageBlockAlloc_ 0 s ≠ .ok (none, s) := by
  obtain ⟨s, h⟩ := exhausted
  exact ⟨s, ppageBlockAlloc_exhausted s 0 (by decide) fun j _ _ => h.freeClists_nil j⟩

theorem ppageBlockAlloc_exhausted_asserts : ¬∀ (s : Phys) (free : List Block) (k : Nat),
    s.FreeSound free → k < maxPpageBlockOrder →
      (∀ j, k ≤ j → j < maxPpageBlockOrder → s.freeClists j = none) →
      ppageBlockAlloc_ k s = .ok (none, s) := by
  intro hclaim
  obtain ⟨s, h⟩ := exhausted
  have hempty : ∀ j, 0 ≤ j → j < maxPpageBlockOrder → s.freeClists j = none :=
    fun j _ _ => h.freeClists_nil j
  have hok := hclaim s [] 0 h (by decide) hempty
  exact nomatch (ppageBlockAllocFrom_exhausted hempty rfl).symm.trans hok

/-! ### Requests of several pages -/

theorem enoughOrder_spec (nbrPpages rounds order : Nat) :
    order ≤ enoughOrder nbrPpages rounds order ∧
    enoughOrder nbrPpages rounds order ≤ order + rounds ∧
    (∀ j, order ≤ j → j < enoughOrder nbrPpages rounds order → 2 ^ j < nbrPpages) ∧
    (enoughOrder nbrPpages rounds order < order + rounds →
      nbrPpages ≤ 2 ^ enoughOrder nbrPpages rounds order) := by
  induction rounds generalizing order with
  | zero => exact ⟨le_refl _, le_refl _, fun j h₁ h₂ => absurd h₂ (not_lt.mpr h₁),
      fun h => absurd h (lt_irrefl _)⟩
  | succ rounds ih =>
    rw [enoughOrder, Nat.one_shiftLeft]
    split
    · rename_i hle
      exact ⟨le_refl _, Nat.le_add_right _ _, fun j h₁ h₂ => absurd h₂ (not_lt.mpr h₁),
        fun _ => hle⟩
    · rename_i hgt
      obtain ⟨hlow, hhigh, hpassed, henough⟩ := ih (order + 1)
      refine ⟨by omega, by omega, fun j h₁ h₂ => ?_, fun h => henough (by omega)⟩
      rcases Nat.eq_or_lt_of_le h₁ with rfl | h₁
      · exact not_le.mp hgt
      · exact hpassed j h₁ h₂

/-- The order `k` is the smallest that holds `nbrPpages` pages. -/
structure OrderFits (nbrPpages k : Nat) : Prop where
  order_lt : k < maxPpageBlockOrder
  enough : nbrPpages ≤ 2 ^ k
  least : k = 0 ∧ nbrPpages = 1 ∨ 0 < k ∧ 2 ^ (k - 1) < nbrPpages

/-- The pages from `p` on belong to the block of order `k` at `p`, which is a used block now and
was part of a free block before. -/
structure Phys.Holds (s t : Phys) (free : List Block) (nbrPpages p k : Nat) : Prop where
  used : t.UsedHead p k
  pages : Extent.Within ⟨p, nbrPpages⟩ (Block.mk p k).pages
  free : ∃ b ∈ free, (Block.mk p k).pages.Within b.pages

/-- What `ppages_alloc` owes to a request that its guard admits. -/
structure Phys.Covers (s : Phys) (free : List Block) (nbrPpages k : Nat) : Prop where
  fits : OrderFits nbrPpages k
  passed : ppagesAlloc nbrPpages s = ppageBlockAlloc k s
  holds : ∀ p t, ppagesAlloc nbrPpages s = .ok (p, t) → s.Holds t free nbrPpages p k
  served : ∀ used m, s.RingsSound free used → k ≤ m → s.freeClists m ≠ none →
    ∃ p t, ppagesAlloc nbrPpages s = .ok (p, t)

theorem ppagesAlloc_passed (h : nbrPpages < 1024) (s : Phys) :
    ppagesAlloc nbrPpages s = ppageBlockAlloc (enoughOrder nbrPpages maxPpageBlockOrder 0) s :=
  bind_ok (check_ok (not_le.mpr h))

theorem of_ppageBlockAlloc_ok (h : ppageBlockAlloc k s = .ok (p, t)) :
    ppageBlockAlloc_ k s = .ok (some p, t) := by
  obtain ⟨block, s', hrun, h⟩ := of_bind_ok h
  cases block with
  | none => exact nomatch h
  | some block =>
    cases h
    exact hrun

theorem Phys.FreeSound.holds (h : s.FreeSound free) (hk : k < maxPpageBlockOrder)
    (hle : nbrPpages ≤ 2 ^ k) (hrun : ppageBlockAlloc k s = .ok (p, t)) :
    s.Holds t free nbrPpages p k := by
  have hrun := of_ppageBlockAlloc_ok hrun
  by_cases hempty : ∀ j, k ≤ j → j < maxPpageBlockOrder → s.freeClists j = none
  · exact nomatch (ppageBlockAllocFrom_exhausted hempty (Nat.add_sub_of_le hk.le)).symm.trans hrun
  · push Not at hempty
    obtain ⟨m, hm, -, hne⟩ := hempty
    obtain ⟨d, q, hq, hnone⟩ := exists_first_order ⟨m, hm, hne⟩
    obtain ⟨heq, ho⟩ := (ppageBlockAlloc_outcome h hq hnone).ok hrun
    cases heq
    have hin := h.mem hq
    have hblock := ho.carved.block
    refine ⟨⟨?_, ?_, congrArg Ppage.blockOrder hblock⟩, ?_, _, hin, ?_⟩
    · exact (congrArg Ppage.blockHead hblock).trans (h.freeHead hin).head
    · have hone : (t.dscrs p).count = 1 := congrArg Ppage.count hblock
      omega
    · exact Extent.within_of_le (le_refl p) (Nat.add_le_add_left hle p)
    · exact Extent.within_of_le (le_refl p)
        (Nat.add_le_add_left (Nat.pow_le_pow_right (by decide) (Nat.le_add_right k d)) p)

/-- With sound used rings too, a request is served when there is a block for it. -/
theorem Phys.RingsSound.served (h : s.RingsSound free used) (hkm : k ≤ m)
    (hne : s.freeClists m ≠ none) : ∃ p t, ppageBlockAlloc k s = .ok (p, t) := by
  obtain ⟨d, p, hp, hnone⟩ := exists_first_order ⟨m, hkm, hne⟩
  obtain ⟨r, t, hrun, rfl, -⟩ := ((ppageBlockAlloc_outcome h.freeSound hp hnone).mono
    (fun _ hno => hno (h.pushesOff (h.freeSound.mem hp))) fun _ _ h => h).returns
  exact ⟨p, t, bind_ok hrun⟩

theorem enoughOrder_fits (hpos : 1 ≤ nbrPpages) (hle : nbrPpages ≤ 512) :
    OrderFits nbrPpages (enoughOrder nbrPpages maxPpageBlockOrder 0) := by
  obtain ⟨-, hhigh, hpassed, henough⟩ := enoughOrder_spec nbrPpages maxPpageBlockOrder 0
  generalize enoughOrder nbrPpages maxPpageBlockOrder 0 = k at *
  have hk : k < maxPpageBlockOrder := by
    by_contra hk
    exact absurd (hpassed 9 (Nat.zero_le _) (by rw [maxPpageBlockOrder] at hk; omega))
      (not_lt.mpr hle)
  have henough := henough (by omega)
  refine ⟨hk, henough, ?_⟩
  rcases Nat.eq_zero_or_pos k with rfl | hk
  · exact .inl ⟨rfl, by omega⟩
  · exact .inr ⟨hk, hpassed (k - 1) (Nat.zero_le _) (by omega)⟩

theorem enoughOrder_max (hgt : 512 < nbrPpages) :
    enoughOrder nbrPpages maxPpageBlockOrder 0 = maxPpageBlockOrder := by
  obtain ⟨-, hhigh, -, henough⟩ := enoughOrder_spec nbrPpages maxPpageBlockOrder 0
  generalize enoughOrder nbrPpages maxPpageBlockOrder 0 = k at *
  by_contra hne
  have hk : k ≤ 9 := by
    rw [maxPpageBlockOrder] at hhigh hne
    omega
  have hpow : (2 : Nat) ^ k ≤ 2 ^ 9 := Nat.pow_le_pow_right (by decide) hk
  have henough := henough (by rw [maxPpageBlockOrder]; omega)
  omega

theorem ppagesAlloc_order_ten (hgt : 512 < nbrPpages) (hlt : nbrPpages < 1024) (s : Phys) :
    ppagesAlloc nbrPpages s = .error .blockOrderTooLarge := by
  rw [ppagesAlloc_passed hlt, enoughOrder_max hgt]
  rfl

theorem ppagesAlloc_refused (h : 1024 ≤ nbrPpages) (s : Phys) :
    ppagesAlloc nbrPpages s = .error .tooManyPpages :=
  bind_error (check_error (not_not.mpr h))

/-- Every request is refused or covered, but for those of 513 to 1023 pages. -/
theorem ppagesAlloc_covers_iff (s : Phys) (free : List Block) (nbrPpages : Nat)
    (h : s.FreeSound free) (hpos : 1 ≤ nbrPpages) (hword : nbrPpages < 2 ^ 32) :
    ppagesAlloc nbrPpages s = .error .tooManyPpages ∨
        s.Covers free nbrPpages (enoughOrder nbrPpages maxPpageBlockOrder 0) ↔
      nbrPpages ≤ 512 ∨ 1024 ≤ nbrPpages := by
  constructor
  · intro hor
    by_contra hno
    push Not at hno
    rcases hor with hrefused | hcovers
    · exact nomatch (ppagesAlloc_order_ten hno.1 hno.2 s).symm.trans hrefused
    · have hlt := hcovers.fits.order_lt
      rw [enoughOrder_max hno.1] at hlt
      exact lt_irrefl _ hlt
  · rintro (hle | hge)
    · have hfits := enoughOrder_fits hpos hle
      have hpassed := ppagesAlloc_passed (by omega : nbrPpages < 1024) s
      refine .inr ⟨hfits, hpassed, fun p t hrun => ?_, fun used m hrings hkm hne => ?_⟩
      · exact h.holds hfits.order_lt hfits.enough (hpassed.symm.trans hrun)
      · rw [hpassed]
        exact hrings.served hkm hne
    · exact .inl (ppagesAlloc_refused hge s)

theorem ppagesAlloc_covers_three : ∃ (s : Phys) (free : List Block), s.FreeSound free ∧
    (ppagesAlloc 3 s = .error .tooManyPpages ∨
        s.Covers free 3 (enoughOrder 3 maxPpageBlockOrder 0) ↔ 3 ≤ 512 ∨ 1024 ≤ 3) := by
  obtain ⟨s₀, s₁, s₂, free, used, h⟩ := firstFree
  exact ⟨s₀, free, h.boot.freeSound,
    ppagesAlloc_covers_iff s₀ free 3 h.boot.freeSound (by decide) (by decide)⟩

/-- A request for 600 pages passes the guard and fails the assertion on the order. -/
theorem ppagesAlloc_covers_fails : ¬∀ (s : Phys) (free : List Block) (nbrPpages : Nat),
    s.FreeSound free → 1 ≤ nbrPpages → nbrPpages < 2 ^ 32 →
      ppagesAlloc nbrPpages s = .error .tooManyPpages ∨
        s.Covers free nbrPpages (enoughOrder nbrPpages maxPpageBlockOrder 0) := by
  intro hclaim
  obtain ⟨s₀, s₁, s₂, free, used, h⟩ := firstFree
  rcases hclaim s₀ free 600 h.boot.freeSound (by decide) (by decide) with hrefused | hcovers
  · exact nomatch (ppagesAlloc_order_ten (by decide) (by decide) s₀).symm.trans hrefused
  · exact absurd hcovers.fits.order_lt (by decide)

end Atros
