import Atros.ClistRing
import Atros.ListInsertion

namespace Atros
set_option autoImplicit true

variable {σ P : Type} [DecidableEq P] {list : Place σ (Option P)}
  {prev next : P → Place σ (Option P)} {cmp : P → P → Int} {s : σ} {x : P}

theorem clistPushBefore_of_some (L : LawfulPlaces list prev next) (hq : (prev a).get s = some q) :
    clistPushBefore prev next (some a) x s = .ok ((), linkBetween prev next q x a s) := by
  have hq' : (prev a).get ((prev x).set (some q) ((next x).set (some a) s)) = some q := by
    rw [L.prev_prev, L.prev_next, hq, ite_self]
  simp only [clistPushBefore, bind_read, bind_write, L.prev_next, hq, hq', bind_follow,
    Place.write_ok, linkBetween]

/-- On a ring, `clist_push_head` puts the node before the others. -/
theorem clistPushHead_ring (L : LawfulPlaces list prev next)
    (h : (linksOf prev next s).Ring (list.get s) xs) (hx : x ∉ xs) :
    ∃ s', clistPushHead list prev next x s = .ok ((), s') ∧
      (linksOf prev next s').Ring (list.get s') (x :: xs) ∧ Touched list prev next s s' ∧
      ∀ y ∉ xs, y ≠ x → SamePointers (linksOf prev next s) (linksOf prev next s') y := by
  cases xs with
  | nil =>
    have hrun : clistPushHead list prev next x s =
        .ok ((), list.set (some x) ((prev x).set (some x) ((next x).set (some x) s))) := by
      simp only [clistPushHead, clistPushBefore, bind_read, h.eq_none, bind_assoc, bind_write,
        Place.write_ok]
    exact ⟨_, hrun, linkAlone_ring L, .list _ (.prev _ _ (.next _ _ .refl)),
      fun y _ hy => linkAlone_same L hy⟩
  | cons a as =>
    have ha : list.get s = some a := h.head
    obtain ⟨q, -, hq, -⟩ := h.prev_mem (x := a) List.mem_cons_self
    rw [ha] at h
    obtain ⟨hring, hsame⟩ := linkBetween_ring L h hx hq
    have hrun : clistPushHead list prev next x s =
        .ok ((), list.set (some x) (linkBetween prev next q x a s)) := by
      rw [clistPushHead, bind_read, ha, bind_ok (clistPushBefore_of_some L hq)]
      rfl
    refine ⟨_, hrun, ?_, .list _ (linkBetween_touched q x a), fun y hy hyx => ?_⟩
    · rw [L.list_list]
      exact hring.rotate.transport (fun y _ => L.next_list ..) (fun y _ => L.prev_list ..)
    · refine ⟨(L.next_list ..).trans (hsame y hy hyx).1, (L.prev_list ..).trans (hsame y hy hyx).2⟩

/-! ### `clist_insert_ordered` -/

omit [DecidableEq P] in
theorem clistInsertOrderedLoop_step (ha : 0 < cmp x a) (hnext : (next a).get s = some b)
    (rounds : Nat) :
    clistInsertOrderedLoop next x (comparing cmp) (rounds + 1) (some a) s =
      clistInsertOrderedLoop next x (comparing cmp) rounds (some b) s := by
  rw [clistInsertOrderedLoop, bind_comparing, if_pos ha, bind_follow, bind_read, hnext]

omit [DecidableEq P] in
theorem clistInsertOrderedLoop_stops (h : (linksOf prev next s).Path a as c)
    (has : ∀ y ∈ a :: as, 0 < cmp x y) (hc : cmp x c ≤ 0) (hr : as.length + 1 < rounds) :
    clistInsertOrderedLoop next x (comparing cmp) rounds (some a) s = .ok (some c, s) := by
  obtain ⟨rounds, rfl⟩ := Nat.exists_eq_succ_of_ne_zero (Nat.ne_of_gt (Nat.zero_lt_of_lt hr))
  have ha := has a List.mem_cons_self
  induction as generalizing a rounds with
  | nil =>
    obtain ⟨rounds, rfl⟩ := Nat.exists_eq_succ_of_ne_zero (Nat.ne_of_gt (Nat.lt_of_succ_lt_succ hr))
    rw [clistInsertOrderedLoop_step ha h.1, clistInsertOrderedLoop, bind_comparing,
      if_neg (Int.not_lt.mpr hc)]
    rfl
  | cons b bs ih =>
    rw [List.length_cons] at hr
    obtain ⟨rounds, rfl⟩ : ∃ n, rounds = n + 1 := Nat.exists_eq_succ_of_ne_zero (by omega)
    have hbs : ∀ y ∈ b :: bs, 0 < cmp x y := fun y hy => has y (List.mem_cons_of_mem a hy)
    rw [clistInsertOrderedLoop_step ha h.1.1]
    exact ih h.2 hbs rounds (by omega) (hbs b List.mem_cons_self)

theorem clistPushBefore_ring (L : LawfulPlaces list prev next)
    (h : (linksOf prev next s).Ring (list.get s) (a :: as ++ c :: bs))
    (hx : x ∉ a :: as ++ c :: bs) :
    ∃ s', clistPushBefore prev next (some c) x s = .ok ((), s') ∧
      (linksOf prev next s').Ring (list.get s') (a :: as ++ x :: c :: bs) ∧
      Touched list prev next s s' ∧
      ∀ y ∉ a :: as ++ c :: bs, y ≠ x →
        SamePointers (linksOf prev next s) (linksOf prev next s') y := by
  have hperm : (c :: bs ++ a :: as).Perm (a :: as ++ c :: bs) := List.perm_append_comm
  have hmem : ∀ y, y ∈ c :: (bs ++ a :: as) ↔ y ∈ a :: as ++ c :: bs := fun y => hperm.mem_iff
  obtain ⟨q, -, hq, -⟩ := h.prev_mem ((hmem c).mp List.mem_cons_self)
  have hrot : (linksOf prev next s).Ring (some c) (c :: (bs ++ a :: as)) := h.rotate
  obtain ⟨hring, hsame⟩ := linkBetween_ring L hrot (fun hy => hx ((hmem x).mp hy)) hq
  refine ⟨_, clistPushBefore_of_some L hq, ?_, linkBetween_touched q x c,
    fun y hy hyx => hsame y (fun hy' => hy ((hmem y).mp hy')) hyx⟩
  have hlist : c :: (bs ++ a :: as) ++ [x] = c :: bs ++ a :: (as ++ [x]) := by simp
  rw [hlist] at hring
  have hback := hring.rotate
  have hhead : list.get s = some a := h.head
  have hlist' : a :: (as ++ [x]) ++ c :: bs = a :: as ++ x :: c :: bs := by simp
  rw [hlist'] at hback
  rw [linkBetween_list L, hhead]
  exact hback

/-- The place that `clist_insert_ordered` gives to `x`, in a list that need not be sorted. -/
def clistInserted (cmp : P → P → Int) (x : P) : List P → List P
  | [] => [x]
  | a :: as =>
    if cmp x a ≤ 0 then x :: a :: as
    else if cmp x ((a :: as).getLast (List.cons_ne_nil a as)) > 0 then a :: as ++ [x]
    else insertBefore cmp x (a :: as)

omit [DecidableEq P] in
/-- In a sorted list it is the place before the first node that is not smaller. -/
theorem clistInserted_of_sorted (h : TotalPreorder cmp) (hs : SortedBy cmp xs) (x : P) :
    clistInserted cmp x xs = insertBefore cmp x xs := by
  cases xs with
  | nil => rfl
  | cons a as =>
    rw [clistInserted]
    split_ifs with hfirst hlast
    · exact (insertBefore_head hfirst as).symm
    · refine (insertBefore_of_smaller (hs.all_smaller h ?_)).symm
      intro y hy
      rw [List.getLast?_eq_getLast_of_ne_nil (List.cons_ne_nil a as)] at hy
      rw [← Option.some.inj hy]
      exact hlast
    · rfl

theorem clistInsertOrdered_ring (L : LawfulPlaces list prev next)
    (h : (linksOf prev next s).Ring (list.get s) xs) (hx : x ∉ xs) (cmp : P → P → Int) :
    ∃ s', (∀ rounds, xs.length < rounds →
        clistInsertOrdered list prev next rounds x (comparing cmp) s = .ok ((), s')) ∧
      (linksOf prev next s').Ring (list.get s') (clistInserted cmp x xs) ∧
      Touched list prev next s s' ∧
      ∀ y ∉ xs, y ≠ x → SamePointers (linksOf prev next s) (linksOf prev next s') y := by
  cases xs with
  | nil =>
    obtain ⟨s', hrun, hring⟩ := clistPushHead_ring L h hx
    refine ⟨s', fun rounds _ => ?_, hring⟩
    rw [clistInsertOrdered, bind_read, h.eq_none]
    exact hrun
  | cons a as =>
    have ha : list.get s = some a := h.head
    have hlast : (prev a).get s = some ((a :: as).getLast (List.cons_ne_nil a as)) :=
      (h.path a as rfl).prev_end
    rw [clistInserted]
    split_ifs with hle hgt
    · obtain ⟨s', hrun, hring⟩ := clistPushHead_ring L h hx
      refine ⟨s', fun rounds _ => ?_, hring⟩
      rw [clistInsertOrdered, bind_read, ha]
      change (comparing cmp x (some a) >>= _) s = _
      rw [bind_comparing, if_pos hle]
      exact hrun
    · obtain ⟨s', hrun, hring⟩ := clistPushTail_ring L h hx
      refine ⟨s', fun rounds _ => ?_, hring⟩
      rw [clistInsertOrdered, bind_read, ha]
      change (comparing cmp x (some a) >>= _) s = _
      rw [bind_comparing, if_neg hle, bind_read, hlast, bind_comparing, if_pos hgt]
      exact hrun
    · obtain ⟨cs, c, bs, heq, hcs, hc⟩ : ∃ cs c bs, a :: as = cs ++ c :: bs ∧
          (∀ y ∈ cs, 0 < cmp x y) ∧ cmp x c ≤ 0 :=
        exists_first_not_smaller ⟨_, List.getLast_mem (List.cons_ne_nil a as), Int.not_lt.mp hgt⟩
      rw [heq, insertBefore_append hcs hc]
      cases cs with
      | nil =>
        rw [List.nil_append, List.cons.injEq] at heq
        exact absurd (heq.1 ▸ hc) hle
      | cons b cs =>
        rw [List.cons_append, List.cons.injEq] at heq
        obtain ⟨rfl, rfl⟩ := heq
        have hpath := h.path a (cs ++ c :: bs) rfl
        rw [Links.Path.append] at hpath
        obtain ⟨s', hrun, hring⟩ := clistPushBefore_ring L h hx
        refine ⟨s', fun rounds hr => ?_, hring⟩
        have hwalk : clistInsertOrderedLoop next x (comparing cmp) rounds (some a) s =
            .ok (some c, s) := by
          refine clistInsertOrderedLoop_stops hpath.1 hcs hc ?_
          rw [List.length_append, List.length_cons, List.length_cons] at hr
          omega
        rw [clistInsertOrdered, bind_read, ha]
        change (comparing cmp x (some a) >>= _) s = _
        rw [bind_comparing, if_neg hle, bind_read, hlast, bind_comparing, if_neg hgt, bind_ok hwalk]
        exact hrun

end Atros
