import Atros.Ring
import Atros.ListMacros

namespace Atros
set_option autoImplicit true

variable {σ P : Type} [DecidableEq P]

/-- Reads and writes of a list head and of the `prev` and `next` fields of its nodes do not
interfere. -/
structure LawfulPlaces (list : Place σ (Option P)) (prev next : P → Place σ (Option P)) :
    Prop where
  list_list : ∀ v s, list.get (list.set v s) = v
  list_prev : ∀ a v s, list.get ((prev a).set v s) = list.get s
  list_next : ∀ a v s, list.get ((next a).set v s) = list.get s
  prev_list : ∀ a v s, (prev a).get (list.set v s) = (prev a).get s
  prev_prev : ∀ a b v s, (prev a).get ((prev b).set v s) = if a = b then v else (prev a).get s
  prev_next : ∀ a b v s, (prev a).get ((next b).set v s) = (prev a).get s
  next_list : ∀ a v s, (next a).get (list.set v s) = (next a).get s
  next_prev : ∀ a b v s, (next a).get ((prev b).set v s) = (next a).get s
  next_next : ∀ a b v s, (next a).get ((next b).set v s) = if a = b then v else (next a).get s

/-- The pointers found in a state. -/
def linksOf (prev next : P → Place σ (Option P)) (s : σ) : Links P where
  next a := (next a).get s
  prev a := (prev a).get s

/-- The second state differs from the first by writes to the list head and to pointers. -/
inductive Touched (list : Place σ (Option P)) (prev next : P → Place σ (Option P)) (s : σ) :
    σ → Prop
  | refl : Touched list prev next s s
  | list (v) : Touched list prev next s s' → Touched list prev next s (list.set v s')
  | prev (a v) : Touched list prev next s s' → Touched list prev next s ((prev a).set v s')
  | next (a v) : Touched list prev next s s' → Touched list prev next s ((next a).set v s')

/-- The pointers of a node are the same in two states. -/
def SamePointers (l l' : Links P) (x : P) : Prop := l'.next x = l.next x ∧ l'.prev x = l.prev x

variable {list : Place σ (Option P)} {prev next : P → Place σ (Option P)} {s s' : σ} {x : P}

/-- The node becomes the only one of a ring. -/
def linkAlone (list : Place σ (Option P)) (prev next : P → Place σ (Option P)) (x : P) (s : σ) :
    σ :=
  list.set (some x) ((prev x).set (some x) ((next x).set (some x) s))

theorem linkAlone_ring (L : LawfulPlaces list prev next) :
    (linksOf prev next (linkAlone list prev next x s)).Ring
      (list.get (linkAlone list prev next x s)) [x] := by
  rw [linkAlone, L.list_list]
  refine .singleton ?_ ?_
  · simp only [linksOf, L.next_list, L.next_prev, L.next_next, if_true]
  · simp only [linksOf, L.prev_list, L.prev_prev, if_true]

theorem linkAlone_same (L : LawfulPlaces list prev next) (hy : y ≠ x) :
    SamePointers (linksOf prev next s) (linksOf prev next (linkAlone list prev next x s)) y := by
  simp only [linkAlone, SamePointers, linksOf, L.next_list, L.next_prev, L.next_next, L.prev_list,
    L.prev_prev, L.prev_next, if_neg hy, and_self]

omit [DecidableEq P] in
theorem clistPushTail_of_none (prev next : P → Place σ (Option P)) (x : P)
    (h : list.get s = none) :
    clistPushTail list prev next x s =
      .ok ((), list.set (some x) ((prev x).set (some x) ((next x).set (some x) s))) := by
  simp only [clistPushTail, bind_read, h, bind_write, Place.write_ok]

theorem clistPushTail_of_some (L : LawfulPlaces list prev next) (h : list.get s = some a)
    (hq : (prev a).get s = some q) :
    clistPushTail list prev next x s = .ok ((), (prev a).set (some x) ((next q).set (some x)
      ((prev x).set (some q) ((next x).set (some a) s)))) := by
  have hq' : (prev a).get ((prev x).set (some q) ((next x).set (some a) s)) = some q := by
    rw [L.prev_prev, L.prev_next, hq, ite_self]
  simp only [clistPushTail, bind_read, h, bind_write, L.prev_next, hq, hq', bind_follow,
    Place.write_ok]

theorem clistPushTail_null (L : LawfulPlaces list prev next) (h : list.get s = some a)
    (hq : (prev a).get s = none) :
    clistPushTail list prev next x s = .error .nullDereference := by
  have hq' : (prev a).get ((prev x).set none ((next x).set (some a) s)) = none := by
    rw [L.prev_prev, L.prev_next, hq, ite_self]
  simp only [clistPushTail, bind_read, h, bind_write, L.prev_next, hq, hq', bind_follow_none]

/-- Whatever the pointers are, `clist_push_tail` writes to the new node, to the head and to
the predecessor of the head only. -/
theorem clistPushTail_frame (L : LawfulPlaces list prev next)
    (h : clistPushTail list prev next x s = .ok ((), s')) :
    Touched list prev next s s' ∧ ∀ y, y ≠ x →
      (∀ a, list.get s = some a → y ≠ a ∧ (prev a).get s ≠ some y) →
      SamePointers (linksOf prev next s) (linksOf prev next s') y := by
  cases hl : list.get s with
  | none =>
    rw [clistPushTail_of_none _ _ _ hl] at h
    cases h
    exact ⟨.list _ (.prev _ _ (.next _ _ .refl)), fun y hy _ => linkAlone_same L hy⟩
  | some a =>
    cases hq : (prev a).get s with
    | none =>
      rw [clistPushTail_null L hl hq] at h
      cases h
    | some q =>
      rw [clistPushTail_of_some L hl hq] at h
      cases h
      refine ⟨.prev _ _ (.next _ _ (.prev _ _ (.next _ _ .refl))), ?_⟩
      intro y hy hout
      obtain ⟨hya, hyq⟩ := hout a rfl
      rw [hq, ne_eq, Option.some.injEq, eq_comm] at hyq
      simp only [SamePointers, linksOf, L.next_prev, L.next_next, L.prev_prev, L.prev_next,
        if_neg hy, if_neg hya, if_neg hyq, and_self]

theorem clistPushTail_prev (L : LawfulPlaces list prev next)
    (h : clistPushTail list prev next x s = .ok ((), s')) (hy : y ≠ x) :
    (prev y).get s' = (prev y).get s ∨ (prev y).get s' = some x := by
  cases hl : list.get s with
  | none =>
    rw [clistPushTail_of_none _ _ _ hl] at h
    cases h
    exact .inl (by rw [L.prev_list, L.prev_prev, if_neg hy, L.prev_next])
  | some a =>
    cases hq : (prev a).get s with
    | none =>
      rw [clistPushTail_null L hl hq] at h
      cases h
    | some q =>
      rw [clistPushTail_of_some L hl hq] at h
      cases h
      rw [L.prev_prev]
      split
      · exact .inr rfl
      · exact .inl (by rw [L.prev_next, L.prev_prev, if_neg hy, L.prev_next])

/-- The node `x` is linked between `q` and `a`. -/
def linkBetween (prev next : P → Place σ (Option P)) (q x a : P) (s : σ) : σ :=
  (prev a).set (some x) ((next q).set (some x) ((prev x).set (some q) ((next x).set (some a) s)))

omit [DecidableEq P] in
theorem linkBetween_touched (q x a : P) :
    Touched list prev next s (linkBetween prev next q x a s) :=
  .prev _ _ (.next _ _ (.prev _ _ (.next _ _ .refl)))

/-- Between the last and the first node of a ring the new node is the last one. -/
theorem linkBetween_ring (L : LawfulPlaces list prev next)
    (h : (linksOf prev next s).Ring (some a) (a :: as)) (hx : x ∉ a :: as)
    (hq : (prev a).get s = some q) :
    (linksOf prev next (linkBetween prev next q x a s)).Ring (some a) (a :: as ++ [x]) ∧
      ∀ y ∉ a :: as, y ≠ x →
        SamePointers (linksOf prev next s)
          (linksOf prev next (linkBetween prev next q x a s)) y := by
  obtain ⟨q', hqmem, hq', -⟩ := h.prev_mem (x := a) List.mem_cons_self
  rw [Option.some.inj (hq'.symm.trans hq)] at hqmem
  have hmem : ∀ y ∈ a :: as, y ≠ x := fun y hy heq => hx (heq ▸ hy)
  have hxa : x ≠ a := (hmem a List.mem_cons_self).symm
  have hxq : x ≠ q := (hmem q hqmem).symm
  refine ⟨h.push hx hq ?_ ?_ ⟨?_, ?_⟩ ⟨?_, ?_⟩, ?_⟩
  · intro y hy hyq
    simp only [linkBetween, linksOf, L.next_prev, L.next_next, if_neg hyq, if_neg (hmem y hy)]
  · intro y hy hya
    simp only [linkBetween, linksOf, L.prev_prev, L.prev_next, if_neg hya, if_neg (hmem y hy)]
  · simp only [linkBetween, linksOf, L.next_prev, L.next_next, if_true]
  · simp only [linkBetween, linksOf, L.prev_prev, L.prev_next, if_neg hxa, if_true]
  · simp only [linkBetween, linksOf, L.next_prev, L.next_next, if_neg hxq, if_true]
  · simp only [linkBetween, linksOf, L.prev_prev, if_true]
  · intro y hy hyx
    have hya : y ≠ a := fun heq => hy (heq ▸ List.mem_cons_self)
    have hyq : y ≠ q := fun heq => hy (heq ▸ hqmem)
    simp only [linkBetween, SamePointers, linksOf, L.next_prev, L.next_next, L.prev_prev,
      L.prev_next, if_neg hyx, if_neg hya, if_neg hyq, and_self]

theorem linkBetween_list (L : LawfulPlaces list prev next) (q x a : P) :
    list.get (linkBetween prev next q x a s) = list.get s := by
  rw [linkBetween, L.list_prev, L.list_next, L.list_prev, L.list_next]

/-- On a ring, `clist_push_tail` appends the node. -/
theorem clistPushTail_ring (L : LawfulPlaces list prev next)
    (h : (linksOf prev next s).Ring (list.get s) xs) (hx : x ∉ xs) :
    ∃ s', clistPushTail list prev next x s = .ok ((), s') ∧
      (linksOf prev next s').Ring (list.get s') (xs ++ [x]) ∧ Touched list prev next s s' ∧
      ∀ y ∉ xs, y ≠ x → SamePointers (linksOf prev next s) (linksOf prev next s') y := by
  cases xs with
  | nil =>
    exact ⟨_, clistPushTail_of_none prev next x h.eq_none, linkAlone_ring L,
      .list _ (.prev _ _ (.next _ _ .refl)), fun y _ hy => linkAlone_same L hy⟩
  | cons a as =>
    have ha : list.get s = some a := h.head
    obtain ⟨q, -, hq, -⟩ := h.prev_mem (x := a) List.mem_cons_self
    rw [ha] at h
    obtain ⟨hring, hsame⟩ := linkBetween_ring L h hx hq
    refine ⟨_, clistPushTail_of_some L ha hq, ?_, linkBetween_touched q x a, hsame⟩
    change (linksOf prev next (linkBetween prev next q x a s)).Ring
      (list.get (linkBetween prev next q x a s)) _
    rw [linkBetween_list L, ha]
    exact hring

theorem clistDeleteEl_singleton (h : list.get s = some a) (hprev : (prev a).get s = some a)
    (hnext : (next a).get s = some a) :
    clistDeleteEl list prev next x s =
      .ok ((), list.set none ((next x).set none ((prev x).set none s))) := by
  simp only [clistDeleteEl, bind_read, h, bind_follow, hprev, hnext, and_self, if_true,
    bind_write, Place.write_ok]

theorem clistDeleteEl_of_some (L : LawfulPlaces list prev next) (h : list.get s = some a)
    (hsingle : ¬((prev a).get s = some a ∧ (next a).get s = some a))
    (hp : (prev x).get s = some p) (hn : (next x).get s = some n) :
    clistDeleteEl list prev next x s =
      .ok ((), if a = x then
          list.set ((next a).get ((next p).set (some n) s))
            ((prev n).set (some p) ((next p).set (some n) s))
        else (prev n).set (some p) ((next p).set (some n) s)) := by
  have hn' : (next x).get ((next p).set (some n) s) = some n := by
    rw [L.next_next, hn, ite_self]
  simp only [clistDeleteEl, bind_read, h, bind_follow, if_neg hsingle, hp, hn, bind_write, hn',
    L.prev_next, L.list_prev, L.list_next, Option.some.injEq]
  by_cases hax : a = x
  · rw [if_pos hax, if_pos hax]
    simp only [bind_read, L.next_prev, Place.write_ok]
  · rw [if_neg hax, if_neg hax]
    rfl

/-- Whatever the pointers are, `clist_delete_el` writes to the node and to its neighbours
only. -/
theorem clistDeleteEl_frame (L : LawfulPlaces list prev next)
    (h : clistDeleteEl list prev next x s = .ok ((), s')) :
    Touched list prev next s s' ∧ ∀ y, y ≠ x → (prev x).get s ≠ some y →
      (next x).get s ≠ some y → SamePointers (linksOf prev next s) (linksOf prev next s') y := by
  cases hl : list.get s with
  | none =>
    simp only [clistDeleteEl, bind_read, hl, bind_follow_none] at h
    cases h
  | some a =>
    by_cases hsingle : (prev a).get s = some a ∧ (next a).get s = some a
    · rw [clistDeleteEl_singleton hl hsingle.1 hsingle.2] at h
      cases h
      refine ⟨.list _ (.next _ _ (.prev _ _ .refl)), ?_⟩
      intro y hy _ _
      simp only [SamePointers, linksOf, L.next_list, L.next_prev, L.next_next, L.prev_list,
        L.prev_prev, L.prev_next, if_neg hy, and_self]
    · cases hp : (prev x).get s with
      | none =>
        simp only [clistDeleteEl, bind_read, hl, bind_follow, if_neg hsingle, hp,
          bind_follow_none] at h
        cases h
      | some p =>
        cases hn : (next x).get s with
        | none =>
          have hn' : (next x).get ((next p).set none s) = none := by
            rw [L.next_next, hn, ite_self]
          simp only [clistDeleteEl, bind_read, hl, bind_follow, if_neg hsingle, hp, hn,
            bind_write, hn', bind_follow_none] at h
          cases h
        | some n =>
          rw [clistDeleteEl_of_some L hl hsingle hp hn] at h
          have hsame : ∀ y, some p ≠ some y → some n ≠ some y →
              SamePointers (linksOf prev next s) (linksOf prev next
                ((prev n).set (some p) ((next p).set (some n) s))) y := by
            intro y hyp hyn
            rw [ne_eq, Option.some.injEq, eq_comm] at hyp hyn
            simp only [SamePointers, linksOf, L.next_prev, L.next_next, L.prev_prev,
              L.prev_next, if_neg hyp, if_neg hyn, and_self]
          split at h
          · cases h
            refine ⟨.list _ (.prev _ _ (.next _ _ .refl)), ?_⟩
            intro y _ hyp hyn
            have hs := hsame y hyp hyn
            simp only [SamePointers, linksOf, L.next_list, L.prev_list] at hs ⊢
            exact hs
          · cases h
            exact ⟨.prev _ _ (.next _ _ .refl), fun y _ => hsame y⟩

/-- On a ring, `clist_delete_el` removes the node. -/
theorem clistDeleteEl_ring (L : LawfulPlaces list prev next)
    (h : (linksOf prev next s).Ring (list.get s) (as ++ x :: bs)) :
    ∃ s', clistDeleteEl list prev next x s = .ok ((), s') ∧
      (linksOf prev next s').Ring (list.get s') (as ++ bs) ∧ Touched list prev next s s' ∧
      ∀ y ∉ as ++ x :: bs, SamePointers (linksOf prev next s) (linksOf prev next s') y := by
  have hxmem : x ∈ as ++ x :: bs := List.mem_append_right _ List.mem_cons_self
  obtain ⟨p, hpmem, hp, -⟩ := h.prev_mem hxmem
  obtain ⟨n, hnmem, hn, -⟩ := h.next_mem hxmem
  have hframe : ∀ s', clistDeleteEl list prev next x s = .ok ((), s') →
      Touched list prev next s s' ∧ ∀ y ∉ as ++ x :: bs,
        SamePointers (linksOf prev next s) (linksOf prev next s') y := by
    intro s' hrun
    obtain ⟨ht, hsame⟩ := clistDeleteEl_frame L hrun
    refine ⟨ht, fun y hy => hsame y ?_ ?_ ?_⟩
    · exact fun heq => hy (heq ▸ hxmem)
    · exact fun heq => hy (Option.some.inj (hp.symm.trans heq) ▸ hpmem)
    · exact fun heq => hy (Option.some.inj (hn.symm.trans heq) ▸ hnmem)
  obtain ⟨a, has⟩ : ∃ a, list.get s = some a := by
    rw [h.head]
    cases as with
    | nil => exact ⟨x, rfl⟩
    | cons a as => exact ⟨a, rfl⟩
  by_cases hne : as ++ bs = []
  · obtain ⟨rfl, rfl⟩ := List.append_eq_nil_iff.mp hne
    have hax : a = x := Option.some.inj (has.symm.trans h.head)
    subst hax
    have hlink := h.path a [] rfl
    have hrun := clistDeleteEl_singleton (x := a) has hlink.2 hlink.1
    refine ⟨_, hrun, ?_, hframe _ hrun⟩
    rw [L.list_list]
    exact .nil _
  · have hsingle : ¬((prev a).get s = some a ∧ (next a).get s = some a) := by
      rintro ⟨-, hself⟩
      rw [has] at h
      have hlen := congrArg List.length (h.eq_singleton hself)
      rw [List.length_append, List.length_cons, List.length_singleton] at hlen
      exact hne (List.append_eq_nil_iff.mpr
        ⟨List.length_eq_zero_iff.mp (by omega), List.length_eq_zero_iff.mp (by omega)⟩)
    have hrun := clistDeleteEl_of_some L has hsingle hp hn
    refine ⟨_, hrun, ?_, hframe _ hrun⟩
    have hring : (linksOf prev next ((prev n).set (some p) ((next p).set (some n) s))).Ring
        (as ++ bs).head? (as ++ bs) := by
      refine h.remove hne hp hn ?_ ?_ ⟨?_, ?_⟩
      · intro y _ hyp
        simp only [linksOf, L.next_prev, L.next_next, if_neg hyp]
      · intro y _ hyn
        simp only [linksOf, L.prev_prev, L.prev_next, if_neg hyn]
      · simp only [linksOf, L.next_prev, L.next_next, if_true]
      · simp only [linksOf, L.prev_prev, if_true]
    cases as with
    | nil =>
      have hax : a = x := Option.some.inj (has.symm.trans h.head)
      subst hax
      have hn' : (next a).get s = some n := hn
      rw [if_pos rfl, L.list_list, L.next_next, hn', ite_self]
      cases bs with
      | nil => exact absurd rfl hne
      | cons b bs =>
        have hnb : n = b := Option.some.inj (hn.symm.trans (h.path a (b :: bs) rfl).1.1)
        subst hnb
        exact hring.transport (fun y _ => L.next_list ..) (fun y _ => L.prev_list ..)
    | cons b as =>
      have hab : a = b := Option.some.inj (has.symm.trans h.head)
      subst hab
      have hax : a ≠ x := by
        rintro rfl
        exact (List.nodup_cons.mp h.nodup).1 (List.mem_append_right _ List.mem_cons_self)
      rw [if_neg hax, L.list_prev, L.list_next, has]
      exact hring

theorem clistPopHead_ring (L : LawfulPlaces list prev next)
    (h : (linksOf prev next s).Ring (list.get s) (x :: xs)) :
    ∃ s', clistPopHead list prev next s = .ok (x, s') ∧
      (linksOf prev next s').Ring (list.get s') xs ∧ Touched list prev next s s' ∧
      ∀ y ∉ x :: xs, SamePointers (linksOf prev next s) (linksOf prev next s') y := by
  have hstart : (linksOf prev next s).Ring (list.get s) ([] ++ x :: xs) := h
  obtain ⟨s', hrun, hring⟩ := clistDeleteEl_ring L hstart
  have hx : list.get s = some x := h.head
  refine ⟨s', ?_, hring⟩
  simp only [clistPopHead, bind_read, hx, bind_follow]
  rw [bind_ok hrun]
  rfl

theorem clistPopHead_prev (L : LawfulPlaces list prev next)
    (h : (linksOf prev next s).Ring (list.get s) (x :: xs))
    (hrun : clistPopHead list prev next s = .ok (x, s')) (hq : (prev x).get s' = some q) :
    q ∈ xs := by
  have hx : list.get s = some x := h.head
  have hpath := h.path x xs rfl
  simp only [clistPopHead, bind_read, hx, bind_follow] at hrun
  cases xs with
  | nil =>
    rw [bind_ok (clistDeleteEl_singleton hx hpath.2 hpath.1)] at hrun
    cases hrun
    rw [L.prev_list, L.prev_next, L.prev_prev, if_pos rfl] at hq
    cases hq
  | cons b bs =>
    have hxb : x ≠ b := fun heq => (List.nodup_cons.mp h.nodup).1 (heq ▸ List.mem_cons_self)
    have hnext : (next x).get s = some b := hpath.1.1
    have hprev : (prev x).get s = some ((x :: b :: bs).getLast (List.cons_ne_nil _ _)) :=
      hpath.prev_end
    have hsingle : ¬((prev x).get s = some x ∧ (next x).get s = some x) := fun hboth =>
      hxb (Option.some.inj (hboth.2.symm.trans hnext))
    rw [bind_ok (clistDeleteEl_of_some L hx hsingle hprev hnext), if_pos rfl] at hrun
    cases hrun
    rw [L.prev_list, L.prev_prev, if_neg hxb, L.prev_next, hprev, Option.some.injEq,
      List.getLast_cons_cons] at hq
    rw [← hq]
    exact List.getLast_mem _

end Atros
