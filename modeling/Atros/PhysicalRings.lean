import Atros.PhysicalPages

namespace Atros
set_option autoImplicit true

/-! ### Descriptors and list heads as places -/

@[simp] theorem Phys.dscrs_setDscr (s : Phys) (i : Nat) (d : Ppage) (x : Nat) :
    (s.setDscr i d).dscrs x = if x = i then d else s.dscrs x := Function.update_apply ..

@[simp] theorem Phys.setDscr_setDscr (s : Phys) (i : Nat) (d d' : Ppage) :
    (s.setDscr i d).setDscr i d' = s.setDscr i d' := by
  simp only [setDscr, Function.update_idem]

theorem PpageStatus.get_set (st st' : PpageStatus) (k k' : Nat) (v : Option Nat) (s : Phys) :
    (st.clist k).get ((st'.clist k').set v s) =
      if st = st' ∧ k = k' then v else (st.clist k).get s := by
  cases st <;> cases st' <;>
    simp [clist, freePpagesBlocksClist, usedPpagesBlocksClist, Function.update_apply]

@[simp] theorem PpageStatus.get_setDscr (st : PpageStatus) (k i : Nat) (d : Ppage) (s : Phys) :
    (st.clist k).get (s.setDscr i d) = (st.clist k).get s := by
  cases st <;> rfl

@[simp] theorem PpageStatus.dscrs_set (st : PpageStatus) (k : Nat) (v : Option Nat) (s : Phys) :
    ((st.clist k).set v s).dscrs = s.dscrs := by
  cases st <;> rfl

theorem lawful_clist (st : PpageStatus) (k : Nat) :
    LawfulPlaces (st.clist k) prevOf nextOf where
  list_list v s := by rw [PpageStatus.get_set, if_pos ⟨rfl, rfl⟩]
  list_prev a v s := PpageStatus.get_setDscr ..
  list_next a v s := PpageStatus.get_setDscr ..
  prev_list a v s := by simp only [prevOf, PpageStatus.dscrs_set]
  prev_prev a b v s := by
    simp only [prevOf, Phys.dscrs_setDscr]
    split <;> rfl
  prev_next a b v s := by
    simp only [prevOf, nextOf, Phys.dscrs_setDscr]
    split
    · rw [‹a = b›]
    · rfl
  next_list a v s := by simp only [nextOf, PpageStatus.dscrs_set]
  next_prev a b v s := by
    simp only [prevOf, nextOf, Phys.dscrs_setDscr]
    split
    · rw [‹a = b›]
    · rfl
  next_next a b v s := by
    simp only [nextOf, Phys.dscrs_setDscr]
    split <;> rfl

/-- The pointers of all descriptors. -/
def Phys.links (s : Phys) : Links Nat := linksOf prevOf nextOf s

/-- A descriptor without its pointers. -/
def Ppage.unlinked (d : Ppage) : Ppage := { d with prev := none, next := none }

theorem Phys.links_setDscr_of_unlinked (s : Phys) (x : Nat)
    (hp : d.prev = (s.dscrs i).prev) (hn : d.next = (s.dscrs i).next) :
    SamePointers s.links (s.setDscr i d).links x := by
  simp only [SamePointers, links, linksOf, prevOf, nextOf, dscrs_setDscr]
  split
  · rw [‹x = i›]
    exact ⟨hn, hp⟩
  · exact ⟨rfl, rfl⟩

/-- Two states that differ by one list head and by pointers. -/
structure Phys.OnlyRing (st : PpageStatus) (k : Nat) (s s' : Phys) : Prop where
  firstPpn : s'.firstPpn = s.firstPpn
  lastPpn : s'.lastPpn = s.lastPpn
  info : ∀ x, (s'.dscrs x).unlinked = (s.dscrs x).unlinked
  others : ∀ st' k', ¬(st' = st ∧ k' = k) → (st'.clist k').get s' = (st'.clist k').get s

theorem Phys.unlinked_set_prev (s : Phys) (a x : Nat) (v : Option Nat) :
    (((prevOf a).set v s).dscrs x).unlinked = (s.dscrs x).unlinked := by
  simp only [prevOf, dscrs_setDscr]
  split
  · rw [‹x = a›]
    rfl
  · rfl

theorem Phys.unlinked_set_next (s : Phys) (a x : Nat) (v : Option Nat) :
    (((nextOf a).set v s).dscrs x).unlinked = (s.dscrs x).unlinked := by
  simp only [nextOf, dscrs_setDscr]
  split
  · rw [‹x = a›]
    rfl
  · rfl

theorem Phys.OnlyRing.of_touched (h : Touched (st.clist k) prevOf nextOf s s') :
    Phys.OnlyRing st k s s' := by
  induction h with
  | refl => exact ⟨rfl, rfl, fun _ => rfl, fun _ _ _ => rfl⟩
  | list v _ ih =>
    refine ⟨?_, ?_, ?_, ?_⟩
    · rw [← ih.firstPpn]
      cases st <;> rfl
    · rw [← ih.lastPpn]
      cases st <;> rfl
    · intro x
      rw [PpageStatus.dscrs_set, ih.info]
    · intro st' k' hne
      rw [PpageStatus.get_set, if_neg hne, ih.others st' k' hne]
  | prev a v _ ih =>
    refine ⟨ih.firstPpn, ih.lastPpn, ?_, ?_⟩
    · intro x
      rw [unlinked_set_prev, ih.info]
    · intro st' k' hne
      rw [← ih.others st' k' hne]
      exact PpageStatus.get_setDscr ..
  | next a v _ ih =>
    refine ⟨ih.firstPpn, ih.lastPpn, ?_, ?_⟩
    · intro x
      rw [unlinked_set_next, ih.info]
    · intro st' k' hne
      rw [← ih.others st' k' hne]
      exact PpageStatus.get_setDscr ..

theorem Phys.OnlyRing.usedClists_of_free (h : Phys.OnlyRing .free k s s') (i : Nat) :
    s'.usedClists i = s.usedClists i := h.others .used i fun hc => nomatch hc.1

theorem Phys.OnlyRing.usedClists_of_ne (h : Phys.OnlyRing .used k s s') (hi : i ≠ k) :
    s'.usedClists i = s.usedClists i := h.others .used i fun hc => hi hc.2

theorem Phys.OnlyRing.freeClists_of_used (h : Phys.OnlyRing .used k s s') :
    s'.freeClists = s.freeClists :=
  funext fun i => h.others .free i fun hc => nomatch hc.1

/-! ### Families of rings -/

/-- The nodes of the rings, by status and order. -/
abbrev RingFamily := PpageStatus → Nat → List Nat

def RingFamily.set (R : RingFamily) (st : PpageStatus) (k : Nat) (xs : List Nat) : RingFamily :=
  fun st' k' => if st' = st ∧ k' = k then xs else R st' k'

@[simp] theorem RingFamily.set_self (R : RingFamily) (st : PpageStatus) (k : Nat)
    (xs : List Nat) : R.set st k xs st k = xs := if_pos ⟨rfl, rfl⟩

theorem RingFamily.set_of_ne (R : RingFamily) (h : ¬(st' = st ∧ k' = k)) (xs : List Nat) :
    R.set st k xs st' k' = R st' k' := if_neg h

/-- The list heads of the kinds in `A` point to rings, with no node on two of them. -/
structure Phys.Rings (A : PpageStatus → Prop) (s : Phys) (R : RingFamily) : Prop where
  ring : ∀ st k, A st → s.links.Ring ((st.clist k).get s) (R st k)
  apart : ∀ st k st' k' x, A st → A st' → x ∈ R st k → x ∈ R st' k' → st = st' ∧ k = k'

variable {A : PpageStatus → Prop} {R : RingFamily} {s s' : Phys} {st : PpageStatus}

theorem Phys.Rings.transport (h : Phys.Rings A s R)
    (hlist : ∀ st k, A st → (st.clist k).get s' = (st.clist k).get s)
    (hsame : ∀ st k x, A st → x ∈ R st k → SamePointers s.links s'.links x) :
    s'.Rings A R := by
  refine ⟨fun st k hA => ?_, h.apart⟩
  rw [hlist st k hA]
  exact (h.ring st k hA).transport (fun x hx => (hsame st k x hA hx).1)
    (fun x hx => (hsame st k x hA hx).2)

theorem Phys.Rings.push (h : Phys.Rings A s R) (k : Nat) (hst : A st)
    (hx : ∀ st' k', A st' → x ∉ R st' k') :
    ∃ s', clistPushTail (st.clist k) prevOf nextOf x s = .ok ((), s') ∧
      s'.Rings A (R.set st k (R st k ++ [x])) ∧ Phys.OnlyRing st k s s' ∧
      ∀ y ∉ R st k, y ≠ x → SamePointers s.links s'.links y := by
  obtain ⟨s', hrun, hring, ht, hsame⟩ :=
    clistPushTail_ring (lawful_clist st k) (h.ring st k hst) (hx st k hst)
  have honly := Phys.OnlyRing.of_touched ht
  refine ⟨s', hrun, ⟨?_, ?_⟩, honly, hsame⟩
  · intro st' k' hA
    by_cases heq : st' = st ∧ k' = k
    · obtain ⟨rfl, rfl⟩ := heq
      rw [RingFamily.set_self]
      exact hring
    · rw [R.set_of_ne heq, honly.others st' k' heq]
      have hout : ∀ y ∈ R st' k', SamePointers s.links s'.links y := by
        intro y hy
        refine hsame y ?_ ?_
        · exact fun hy' => heq (h.apart _ _ _ _ y hA hst hy hy')
        · exact fun heq => hx st' k' hA (heq ▸ hy)
      exact (h.ring st' k' hA).transport (fun y hy => (hout y hy).1)
        (fun y hy => (hout y hy).2)
  · have hmem : ∀ st' k' y, A st' → y ∈ R.set st k (R st k ++ [x]) st' k' →
        y ∈ R st' k' ∨ (y = x ∧ st' = st ∧ k' = k) := by
      intro st' k' y hA hy
      by_cases heq : st' = st ∧ k' = k
      · obtain ⟨rfl, rfl⟩ := heq
        rw [RingFamily.set_self] at hy
        rcases List.mem_append.mp hy with hy | hy
        · exact .inl hy
        · exact .inr ⟨List.mem_singleton.mp hy, rfl, rfl⟩
      · rw [R.set_of_ne heq] at hy
        exact .inl hy
    intro st₁ k₁ st₂ k₂ y hA₁ hA₂ hy₁ hy₂
    rcases hmem st₁ k₁ y hA₁ hy₁ with hold₁ | ⟨rfl, rfl, rfl⟩
    · rcases hmem st₂ k₂ y hA₂ hy₂ with hold₂ | ⟨rfl, rfl, rfl⟩
      · exact h.apart _ _ _ _ y hA₁ hA₂ hold₁ hold₂
      · exact absurd hold₁ (hx st₁ k₁ hA₁)
    · rcases hmem st₂ k₂ y hA₂ hy₂ with hold₂ | ⟨-, rfl, rfl⟩
      · exact absurd hold₂ (hx st₂ k₂ hA₂)
      · exact ⟨rfl, rfl⟩

theorem Phys.Rings.shrink (h : Phys.Rings A s R) (hst : A st)
    (hsub : ∀ y ∈ xs, y ∈ R st k) (hring : s'.links.Ring ((st.clist k).get s') xs)
    (honly : Phys.OnlyRing st k s s')
    (hsame : ∀ y ∉ R st k, SamePointers s.links s'.links y) :
    s'.Rings A (R.set st k xs) := by
  have hmem : ∀ st' k' y, y ∈ R.set st k xs st' k' → y ∈ R st' k' := by
    intro st' k' y hy
    by_cases heq : st' = st ∧ k' = k
    · obtain ⟨rfl, rfl⟩ := heq
      rw [RingFamily.set_self] at hy
      exact hsub y hy
    · rwa [R.set_of_ne heq] at hy
  refine ⟨?_, ?_⟩
  · intro st' k' hA
    by_cases heq : st' = st ∧ k' = k
    · obtain ⟨rfl, rfl⟩ := heq
      rw [RingFamily.set_self]
      exact hring
    · rw [R.set_of_ne heq, honly.others st' k' heq]
      have hout : ∀ y ∈ R st' k', SamePointers s.links s'.links y := fun y hy =>
        hsame y fun hy' => heq (h.apart _ _ _ _ y hA hst hy hy')
      exact (h.ring st' k' hA).transport (fun y hy => (hout y hy).1)
        (fun y hy => (hout y hy).2)
  · intro st₁ k₁ st₂ k₂ y hA₁ hA₂ hy₁ hy₂
    exact h.apart _ _ _ _ y hA₁ hA₂ (hmem _ _ y hy₁) (hmem _ _ y hy₂)

theorem Phys.Rings.pop (h : Phys.Rings A s R) (hst : A st) (hx : R st k = x :: xs) :
    ∃ s', clistPopHead (st.clist k) prevOf nextOf s = .ok (x, s') ∧
      s'.Rings A (R.set st k xs) ∧ Phys.OnlyRing st k s s' ∧
      ∀ y ∉ R st k, SamePointers s.links s'.links y := by
  have hring := h.ring st k hst
  rw [hx] at hring
  obtain ⟨s', hrun, hring', ht, hsame⟩ := clistPopHead_ring (lawful_clist st k) hring
  have honly := Phys.OnlyRing.of_touched ht
  rw [← hx] at hsame
  refine ⟨s', hrun, h.shrink hst ?_ hring' honly hsame, honly, hsame⟩
  intro y hy
  rw [hx]
  exact List.mem_cons_of_mem x hy

end Atros
