import Atros.SimpleLists
import Atros.SortedLists

namespace Atros
set_option autoImplicit true

variable {σ P : Type} {list : Place σ (Option P)} {next : P → Place σ (Option P)}
  {cmp : P → P → Int} {s : σ} {el : P}

/-- A comparison function of the kernel. It must not be called on a null pointer. -/
def comparing (cmp : P → P → Int) (a : P) (b : Option P) : Prog Panic σ Int := do
  return cmp a (← follow b)

@[simp] theorem bind_comparing (cmp : P → P → Int) (a b : P) (f : Int → Prog Panic σ β) (s : σ) :
    (comparing cmp a (some b) >>= f) s = f (cmp a b) s := rfl

@[simp] theorem bind_comparing_none (cmp : P → P → Int) (a : P) (f : Int → Prog Panic σ β) (s : σ) :
    (comparing cmp a none >>= f) s = .error .nullDereference := rfl

/-! ### The walk of `list_insert_ordered` -/

/-- The walk stops at the first element that is not smaller, and yields the one before it. -/
theorem insertOrderedLoop_stops {cur prevEl : Option P}
    (h : Chain (fun a => (next a).get s) cur (as ++ b :: bs)) (has : ∀ a ∈ as, 0 < cmp el a)
    (hb : cmp el b ≤ 0) (hr : as.length < rounds) :
    insertOrderedLoop next el (comparing cmp) rounds prevEl cur s =
      .ok (as.getLast?.or prevEl, s) := by
  induction as generalizing rounds cur prevEl with
  | nil =>
    obtain ⟨rounds, rfl⟩ := Nat.exists_eq_succ_of_ne_zero (Nat.ne_of_gt hr)
    obtain ⟨rfl, -⟩ := h
    rw [insertOrderedLoop, bind_comparing, if_neg (Int.not_lt.mpr hb)]
    rfl
  | cons a as ih =>
    obtain ⟨rounds, rfl⟩ := Nat.exists_eq_succ_of_ne_zero (Nat.ne_of_gt (Nat.zero_lt_of_lt hr))
    obtain ⟨rfl, htail⟩ := h
    rw [List.length_cons] at hr
    rw [insertOrderedLoop, bind_comparing, if_pos (has a List.mem_cons_self), bind_follow,
      bind_read, ih htail (fun x hx => has x (List.mem_cons_of_mem a hx)) (by omega)]
    cases as with
    | nil => rfl
    | cons c cs => rfl

theorem insertOrderedLoop_null {cur prevEl : Option P}
    (h : Chain (fun a => (next a).get s) cur xs) (hxs : ∀ a ∈ xs, 0 < cmp el a) (rounds : Nat) :
    ∃ e, insertOrderedLoop next el (comparing cmp) rounds prevEl cur s = .error e := by
  induction xs generalizing rounds cur prevEl with
  | nil =>
    cases h
    cases rounds with
    | zero => exact ⟨_, rfl⟩
    | succ rounds => exact ⟨_, rfl⟩
  | cons a as ih =>
    obtain ⟨rfl, htail⟩ := h
    cases rounds with
    | zero => exact ⟨_, rfl⟩
    | succ rounds =>
      rw [insertOrderedLoop, bind_comparing, if_pos (hxs a List.mem_cons_self), bind_follow,
        bind_read]
      exact ih htail (fun x hx => hxs x (List.mem_cons_of_mem a hx)) rounds

/-! ### `list_insert_ordered` -/

/-- The sorted list `xs` has become a sorted list with `el` among its elements. -/
def InsertedInto (list : Place σ (Option P)) (next : P → Place σ (Option P)) (cmp : P → P → Int)
    (el : P) (xs : List P) (s : σ) : Prop :=
  ∃ as bs, xs = as ++ bs ∧ NullTerminated list next s (as ++ el :: bs) ∧
    SortedBy cmp (as ++ el :: bs)

theorem listInsertOrdered_inserts (L : SimplePlaces list next) (hcmp : TotalPreorder cmp)
    (h : NullTerminated list next s xs) (hs : SortedBy cmp xs) (hel : el ∉ xs)
    (hxs : xs = [] ∨ ∃ x ∈ xs, cmp el x ≤ 0) (hr : xs.length < rounds) :
    ∃ s', listInsertOrdered list next rounds el (comparing cmp) s = .ok ((), s') ∧
      InsertedInto list next cmp el xs s' := by
  have hsorted := hs.insert hcmp el
  rcases hxs with rfl | hxs
  · have hnull : list.get s = none := h
    have hpush : listInsertOrdered list next rounds el (comparing cmp) s =
        listPushHead list next el s := by
      rw [listInsertOrdered, bind_read, hnull]
    exact ⟨_, hpush.trans (listPushHead_ok ..), [], [], rfl, L.pushHead h hel, hsorted⟩
  · obtain ⟨as, b, bs, rfl, has, hb⟩ := exists_first_not_smaller hxs
    rw [insertBefore_append has hb] at hsorted
    rcases List.eq_nil_or_concat' as with rfl | ⟨as, p, rfl⟩
    · have hfirst : list.get s = some b := h.1
      have hpush : listInsertOrdered list next rounds el (comparing cmp) s =
          listPushHead list next el s := by
        rw [listInsertOrdered, bind_read, hfirst]
        change (comparing cmp el (some b) >>= _) s = _
        rw [bind_comparing, if_pos hb]
      exact ⟨_, hpush.trans (listPushHead_ok ..), [], b :: bs, rfl, L.pushHead h hel, hsorted⟩
    · obtain ⟨a, cs, hcons⟩ : ∃ a cs, as ++ [p] = a :: cs :=
        List.exists_cons_of_ne_nil (List.concat_ne_nil p as)
      have hfirst : list.get s = some a := by
        have hhead := h.head
        rw [hcons] at hhead
        exact hhead
      have ha : 0 < cmp el a := has a (hcons ▸ List.mem_cons_self)
      have hlength : (as ++ [p]).length < rounds := by
        rw [List.length_append, List.length_cons] at hr
        omega
      have hwalk : insertOrderedLoop next el (comparing cmp) rounds none (list.get s) s =
          .ok ((as ++ [p]).getLast?.or none, s) := insertOrderedLoop_stops h has hb hlength
      rw [List.getLast?_concat] at hwalk
      have hlist : as ++ [p] ++ b :: bs = as ++ p :: b :: bs := List.append_assoc ..
      rw [hlist] at h hel
      obtain ⟨s', hinsert, hnew⟩ := L.insertAfter h hel
      refine ⟨s', ?_, as ++ [p], b :: bs, rfl, ?_, hsorted⟩
      · rw [listInsertOrdered, bind_read, hfirst]
        change (comparing cmp el (some a) >>= _) s = _
        rw [bind_comparing, if_neg (Int.not_le.mpr ha), ← hfirst, bind_ok hwalk]
        exact hinsert
      · rw [List.append_assoc]
        exact hnew

theorem listInsertOrdered_null (h : NullTerminated list next s xs) (hne : xs ≠ [])
    (hxs : ∀ x ∈ xs, 0 < cmp el x) (rounds : Nat) :
    ∃ e, listInsertOrdered list next rounds el (comparing cmp) s = .error e := by
  obtain ⟨a, as, rfl⟩ := List.exists_cons_of_ne_nil hne
  have hfirst : list.get s = some a := h.1
  obtain ⟨e, hwalk⟩ : ∃ e, insertOrderedLoop next el (comparing cmp) rounds none (list.get s) s =
      .error e := insertOrderedLoop_null h hxs rounds
  refine ⟨e, ?_⟩
  rw [listInsertOrdered, bind_read, hfirst]
  change (comparing cmp el (some a) >>= _) s = _
  rw [bind_comparing, if_neg (Int.not_le.mpr (hxs a List.mem_cons_self)), ← hfirst, bind_eq, hwalk]

/-- An element is inserted in its place exactly when it does not belong after the last one of a
list that is not empty. -/
theorem listInsertOrdered_inserts_iff (L : SimplePlaces list next) (hcmp : TotalPreorder cmp)
    (h : NullTerminated list next s xs) (hs : SortedBy cmp xs) (hel : el ∉ xs) :
    (∃ rounds s', listInsertOrdered list next rounds el (comparing cmp) s = .ok ((), s') ∧
      InsertedInto list next cmp el xs s') ↔ xs = [] ∨ ∃ x ∈ xs, cmp el x ≤ 0 := by
  constructor
  · rintro ⟨rounds, s', hrun, -⟩
    by_contra hnot
    rw [not_or] at hnot
    obtain ⟨e, herror⟩ := listInsertOrdered_null h hnot.1
      (fun x hx => Int.not_le.mp fun hle => hnot.2 ⟨x, hx, hle⟩) rounds
    rw [herror] at hrun
    cases hrun
  · intro hxs
    exact ⟨xs.length + 1, listInsertOrdered_inserts L hcmp h hs hel hxs (Nat.lt_succ_self _)⟩

/-! ### A list of numbers -/

/-- A list head and the `next` fields of the nodes. -/
structure NumberList where
  list : Option Nat
  next : Nat → Option Nat

def NumberList.head : Place NumberList (Option Nat) where
  get s := s.list
  set v s := { s with list := v }

def NumberList.nextOf (a : Nat) : Place NumberList (Option Nat) where
  get s := s.next a
  set v s := { s with next := Function.update s.next a v }

theorem NumberList.places : SimplePlaces NumberList.head NumberList.nextOf where
  list_list _ _ := rfl
  list_next _ _ _ := rfl
  next_list _ _ _ := rfl
  next_self _ _ _ := Function.update_self ..
  next_other _ _ _ _ h := Function.update_of_ne h ..

def numberCmp (a b : Nat) : Int := a - b

theorem numbers_totalPreorder : TotalPreorder numberCmp where
  swap a b := by
    rw [numberCmp, numberCmp]
    omega
  trans a b c := by
    rw [numberCmp, numberCmp, numberCmp]
    omega

def oneNumber (a : Nat) : NumberList := ⟨some a, fun _ => none⟩

theorem oneNumber_nullTerminated (a : Nat) :
    NullTerminated NumberList.head NumberList.nextOf (oneNumber a) [a] := ⟨rfl, rfl⟩

/-- The list of 1, 2, 5 and 9. -/
def fourNumbers : NumberList where
  list := some 1
  next a := if a = 1 then some 2 else if a = 2 then some 5 else if a = 5 then some 9 else none

theorem fourNumbers_nullTerminated :
    NullTerminated NumberList.head NumberList.nextOf fourNumbers [1, 2, 5, 9] :=
  ⟨rfl, rfl, rfl, rfl, rfl⟩

theorem listInsertOrdered_inserts_middle : ∃ rounds s',
    listInsertOrdered NumberList.head NumberList.nextOf rounds 3
      (comparing numberCmp) fourNumbers = .ok ((), s') ∧
      InsertedInto NumberList.head NumberList.nextOf numberCmp 3 [1, 2, 5, 9] s' :=
  (listInsertOrdered_inserts_iff NumberList.places numbers_totalPreorder
    fourNumbers_nullTerminated (show List.Pairwise _ _ by decide) (by decide)).mpr
    (.inr ⟨5, by decide, by decide⟩)

/-- The number 2 cannot be inserted into the list of the number 1. -/
theorem listInsertOrdered_last : ¬∀ (σ P : Type) (list : Place σ (Option P))
    (next : P → Place σ (Option P)) (cmp : P → P → Int) (s : σ) (xs : List P) (el : P),
    SimplePlaces list next → TotalPreorder cmp → NullTerminated list next s xs →
    SortedBy cmp xs → el ∉ xs →
    ∃ rounds s', listInsertOrdered list next rounds el (comparing cmp) s = .ok ((), s') ∧
      InsertedInto list next cmp el xs s' := by
  intro hclaim
  obtain ⟨rounds, s', hrun, -⟩ := hclaim NumberList Nat NumberList.head NumberList.nextOf
    numberCmp (oneNumber 1) [1] 2 NumberList.places
    numbers_totalPreorder (oneNumber_nullTerminated 1) (List.pairwise_singleton _ 1) (by decide)
  have hgreater : ∀ x ∈ [(1 : Nat)], 0 < numberCmp 2 x := by decide
  obtain ⟨e, herror⟩ := listInsertOrdered_null (oneNumber_nullTerminated 1)
    (List.cons_ne_nil 1 []) hgreater rounds
  rw [herror] at hrun
  cases hrun

end Atros
