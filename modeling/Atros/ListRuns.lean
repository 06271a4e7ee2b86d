import Atros.ListInsertion
import Atros.Sequences

namespace Atros
set_option autoImplicit true

/-! ### Many simple lists -/

/-- The heads of the lists and the `next` fields of all nodes. -/
structure ListHeap (I P : Type) where
  list : I → Option P
  next : P → Option P

variable {I P : Type} [DecidableEq I] [DecidableEq P] {s s' : ListHeap I P} {xs ys : List P}

def ListHeap.listOf (i : I) : Place (ListHeap I P) (Option P) where
  get s := s.list i
  set v s := { s with list := Function.update s.list i v }

def ListHeap.nextOf (a : P) : Place (ListHeap I P) (Option P) where
  get s := s.next a
  set v s := { s with next := Function.update s.next a v }

/-- What a call yields. -/
inductive ListAnswer (P : Type)
  | done
  | node (el : Option P)
  | length (n : Nat)

/-- The operations of list.h on simple lists. -/
inductive ListOp (I P : Type)
  | pushHead (i : I) (el : P)
  | popHead (i : I)
  | deleteEl (i : I) (prevEl : Option P) (el : P)
  | insertAfter (i : I) (prevEl : Option P) (el : P)
  | insertOrdered (i : I) (el : P) (cmp : P → P → Int)
  | length (i : I)

def ListOp.run (rounds : Nat) : ListOp I P → Prog Panic (ListHeap I P) (ListAnswer P)
  | pushHead i el => do
    listPushHead (ListHeap.listOf i) ListHeap.nextOf el
    return .done
  | popHead i => do
    return .node (← listPopHead (ListHeap.listOf i) ListHeap.nextOf)
  | deleteEl i prevEl el => do
    listDeleteEl (ListHeap.listOf i) ListHeap.nextOf prevEl el
    return .done
  | insertAfter i prevEl el => do
    listInsertAfter (ListHeap.listOf i) ListHeap.nextOf prevEl el
    return .done
  | insertOrdered i el cmp => do
    listInsertOrdered (ListHeap.listOf i) ListHeap.nextOf rounds el (comparing cmp)
    return .done
  | length i => do
    return .length (← listLength (ListHeap.listOf i) ListHeap.nextOf rounds)

/-! ### The same operations on sequences -/

def insertedAfter (p el : P) : List P → List P
  | [] => []
  | x :: xs => if x = p then x :: el :: xs else x :: insertedAfter p el xs

def ListOp.list : ListOp I P → I
  | pushHead i _ | popHead i | deleteEl i _ _ | insertAfter i _ _ | insertOrdered i _ _
  | length i => i

def ListOp.nodes : ListOp I P → List P → List P
  | pushHead _ el, xs | insertAfter _ none el, xs => el :: xs
  | popHead _, xs => xs.tail
  | deleteEl _ _ el, xs => xs.erase el
  | insertAfter _ (some p) el, xs => insertedAfter p el xs
  | insertOrdered _ el cmp, xs => insertBefore cmp el xs
  | length _, xs => xs

def ListOp.answer : ListOp I P → List P → ListAnswer P
  | popHead _, xs => .node xs.head?
  | length _, xs => .length xs.length
  | _, _ => .done

/-- A new node is on no list; a node is deleted with the one before it, which does not matter for
the first; and an ordered insertion finds a node that is not smaller. -/
def ListOp.Allowed (lists : I → List P) : ListOp I P → Prop
  | pushHead _ el | insertAfter _ none el => ∀ j, el ∉ lists j
  | popHead i => lists i ≠ []
  | deleteEl i prevEl el => ∃ as bs, lists i = as ++ el :: bs ∧ (as = [] ∨ prevEl = as.getLast?)
  | insertAfter i (some p) el => p ∈ lists i ∧ ∀ j, el ∉ lists j
  | insertOrdered i el cmp => (lists i = [] ∨ ∃ x ∈ lists i, cmp el x ≤ 0) ∧ ∀ j, el ∉ lists j
  | length _ => True

omit [DecidableEq I] in
theorem mem_insertedAfter (h : x ∈ insertedAfter p el xs) : x = el ∨ x ∈ xs := by
  induction xs with
  | nil => exact absurd h List.not_mem_nil
  | cons y ys ih =>
    rw [insertedAfter] at h
    split at h
    · simp only [List.mem_cons] at h ⊢
      tauto
    · rcases List.mem_cons.mp h with rfl | h
      · exact .inr List.mem_cons_self
      · exact (ih h).imp id fun hy => List.mem_cons_of_mem y hy

theorem insertedAfter_append (has : p ∉ as) (el : P) (bs : List P) :
    insertedAfter p el (as ++ p :: bs) = as ++ p :: el :: bs := by
  induction as with
  | nil => exact if_pos rfl
  | cons a as ih =>
    have hne : a ≠ p := fun heq => has (heq ▸ List.mem_cons_self)
    rw [List.cons_append, insertedAfter, if_neg hne,
      ih fun hmem => has (List.mem_cons_of_mem a hmem), List.cons_append]

omit [DecidableEq I] in
theorem ListOp.fresh {lists : I → List P} {op : ListOp I P} (h : op.Allowed lists) :
    ∀ x ∈ op.nodes (lists op.list), x ∈ lists op.list ∨ ∀ j, x ∉ lists j := by
  intro x hx
  cases op with
  | pushHead i el =>
    rcases List.mem_cons.mp hx with rfl | hx
    · exact .inr h
    · exact .inl hx
  | popHead i => exact .inl (List.mem_of_mem_tail hx)
  | deleteEl i prevEl el => exact .inl (List.mem_of_mem_erase hx)
  | insertAfter i prevEl el =>
    cases prevEl with
    | none =>
      rcases List.mem_cons.mp hx with rfl | hx
      · exact .inr h
      · exact .inl hx
    | some p =>
      rcases mem_insertedAfter hx with rfl | hx
      · exact .inr h.2
      · exact .inl hx
  | insertOrdered i el cmp =>
    rcases mem_insertBefore.mp hx with rfl | hx
    · exact .inr h.2
    · exact .inl hx
  | length i => exact .inl hx

def listOps : SequenceOps I P (ListAnswer P) (ListOp I P) where
  list := ListOp.list
  Allowed := ListOp.Allowed
  nodes := ListOp.nodes
  answer := ListOp.answer
  fresh := ListOp.fresh

/-! ### The links -/

def ListHeap.setList (s : ListHeap I P) (i : I) (v : Option P) : ListHeap I P :=
  { s with list := Function.update s.list i v }

def ListHeap.setNext (s : ListHeap I P) (a : P) (v : Option P) : ListHeap I P :=
  { s with next := Function.update s.next a v }

omit [DecidableEq P] in
@[simp] theorem ListHeap.setList_next (i : I) (v : Option P) : (s.setList i v).next = s.next := rfl

omit [DecidableEq P] in
@[simp] theorem ListHeap.setList_list (i j : I) (v : Option P) :
    (s.setList i v).list j = if j = i then v else s.list j :=
  Function.update_apply ..

omit [DecidableEq I] in
@[simp] theorem ListHeap.setNext_list (a : P) (v : Option P) : (s.setNext a v).list = s.list := rfl

omit [DecidableEq I] in
@[simp] theorem ListHeap.setNext_next (a b : P) (v : Option P) :
    (s.setNext a v).next b = if b = a then v else s.next b :=
  Function.update_apply ..

def listLinking : Linking (ListHeap I P) I P where
  OnList s i xs := Chain s.next (s.list i) xs
  Unlinked s x := s.next x = none

omit [DecidableEq I] [DecidableEq P] in
/-- Only the head of one list and the links of its nodes change, and those that leave it lose
theirs. -/
theorem listLinking_relinks (hchain : Chain s'.next (s'.list i) ys)
    (hlists : ∀ j ≠ i, s'.list j = s.list j)
    (hnext : ∀ y, y ∉ xs → y ∉ ys → s'.next y = s.next y)
    (hleft : ∀ x ∈ xs, x ∉ ys → s'.next x = none) : listLinking.Relinks i xs ys s s' := by
  refine ⟨hchain, fun j hj zs hzs h => ?_, fun x hx h => ?_⟩
  · change Chain s'.next (s'.list j) zs
    rw [hlists j hj]
    exact Chain.congr h fun z hz => hnext z (hzs z hz).1 (hzs z hz).2
  · by_cases hxs : x ∈ xs
    · exact hleft x hxs hx
    · exact (hnext x hxs hx).trans (h hxs)

def ListHeap.linkFirst (s : ListHeap I P) (i : I) (el : P) : ListHeap I P :=
  (s.setNext el (s.list i)).setList i (some el)

theorem ListHeap.linkFirst_relinks (h : Chain s.next (s.list i) xs) (hel : el ∉ xs) :
    listLinking.Relinks i xs (el :: xs) s (s.linkFirst i el) := by
  refine listLinking_relinks ⟨?_, ?_⟩ (fun j hj => ?_) (fun y _ hy => ?_) fun x hx hx' => ?_
  · exact (s.setNext el (s.list i)).setList_list i i _ |>.trans (if_pos rfl)
  · rw [linkFirst, setList_next, setNext_next, if_pos rfl]
    refine h.congr fun x hx => ?_
    have hne : x ≠ el := fun heq => hel (heq ▸ hx)
    rw [setNext_next, if_neg hne]
  · rw [linkFirst, setList_list, if_neg hj, setNext_list]
  · rw [linkFirst, setList_next, setNext_next, if_neg (List.ne_of_not_mem_cons hy)]
  · exact absurd (List.mem_cons_of_mem el hx) hx'

def ListHeap.unlinkFirst (s : ListHeap I P) (i : I) (x : P) : ListHeap I P :=
  (s.setList i (s.next x)).setNext x none

theorem ListHeap.unlinkFirst_relinks (h : Chain s.next (s.list i) (x :: xs)) :
    listLinking.Relinks i (x :: xs) xs s (s.unlinkFirst i x) := by
  have hx := (List.nodup_cons.mp h.nodup).1
  refine listLinking_relinks ?_ (fun j hj => ?_) (fun y hy _ => ?_) fun y hy hy' => ?_
  · rw [unlinkFirst, setNext_list, setList_list, if_pos rfl]
    refine h.2.congr fun y hy => ?_
    have hne : y ≠ x := fun heq => hx (heq ▸ hy)
    rw [setNext_next, if_neg hne, setList_next]
  · rw [unlinkFirst, setNext_list, setList_list, if_neg hj]
  · rw [unlinkFirst, setNext_next, if_neg (List.ne_of_not_mem_cons hy), setList_next]
  · rw [unlinkFirst, setNext_next, if_pos ((List.mem_cons.mp hy).resolve_right hy')]

def ListHeap.linkAfter (s : ListHeap I P) (p el : P) : ListHeap I P :=
  (s.setNext el (s.next p)).setNext p (some el)

omit [DecidableEq I] in
theorem ListHeap.linkAfter_relinks (h : Chain s.next (s.list i) (as ++ p :: bs))
    (hel : el ∉ as ++ p :: bs) :
    listLinking.Relinks i (as ++ p :: bs) (as ++ p :: el :: bs) s (s.linkAfter p el) := by
  have hp : p ≠ el := fun heq => hel (heq ▸ List.mem_append_right as List.mem_cons_self)
  have hnodup := List.nodup_append.mp h.nodup
  have hpbs := (List.nodup_cons.mp hnodup.2.1).1
  have hsame : ∀ y, y ≠ p → y ≠ el → (s.linkAfter p el).next y = s.next y := by
    intro y hyp hyel
    rw [linkAfter, setNext_next, if_neg hyp, setNext_next, if_neg hyel]
  refine listLinking_relinks ?_ (fun j _ => rfl) (fun y hy hy' => ?_) fun x hx hx' => ?_
  · refine h.relink (fun y hy => hsame y ?_ ?_) ⟨?_, ?_⟩
    · exact hnodup.2.2 y hy p List.mem_cons_self
    · exact fun heq => hel (heq ▸ List.mem_append_left _ hy)
    · rw [linkAfter, setNext_next, if_pos rfl]
    · rw [linkAfter, setNext_next, if_neg hp.symm, setNext_next, if_pos rfl]
      refine h.tail.congr fun y hy => hsame y (fun heq => hpbs (heq ▸ hy)) fun heq => hel ?_
      exact List.mem_append_right as (List.mem_cons_of_mem p (heq ▸ hy))
  · refine hsame y (fun heq => hy ?_) fun heq => hy' ?_
    · exact heq ▸ List.mem_append_right as List.mem_cons_self
    · exact heq ▸ List.mem_append_right as (List.mem_cons_of_mem p List.mem_cons_self)
  · refine absurd ?_ hx'
    simp only [List.mem_append, List.mem_cons] at hx ⊢
    tauto

def ListHeap.unlinkAfter (s : ListHeap I P) (p x : P) : ListHeap I P :=
  (s.setNext p (s.next x)).setNext x none

omit [DecidableEq I] in
theorem ListHeap.unlinkAfter_relinks (h : Chain s.next (s.list i) (as ++ p :: x :: bs)) :
    listLinking.Relinks i (as ++ p :: x :: bs) (as ++ p :: bs) s (s.unlinkAfter p x) := by
  have hnodup := List.nodup_append.mp h.nodup
  have hrest := List.nodup_cons.mp hnodup.2.1
  have hp : p ≠ x := fun heq => hrest.1 (heq ▸ List.mem_cons_self)
  have hx := (List.nodup_cons.mp hrest.2).1
  have hsame : ∀ y, y ≠ p → y ≠ x → (s.unlinkAfter p x).next y = s.next y := by
    intro y hyp hyx
    rw [unlinkAfter, setNext_next, if_neg hyx, setNext_next, if_neg hyp]
  refine listLinking_relinks ?_ (fun j _ => rfl) (fun y hy _ => ?_) fun y hy hy' => ?_
  · refine h.relink (fun y hy => hsame y ?_ ?_) ?_
    · exact hnodup.2.2 y hy p List.mem_cons_self
    · exact hnodup.2.2 y hy x (List.mem_cons_of_mem p List.mem_cons_self)
    · rw [unlinkAfter, setNext_next, if_neg hp, setNext_next, if_pos rfl]
      refine h.tail.2.congr fun y hy => hsame y (fun heq => hrest.1 ?_) fun heq => hx (heq ▸ hy)
      exact List.mem_cons_of_mem x (heq ▸ hy)
  · refine hsame y (fun heq => hy ?_) fun heq => hy ?_
    · exact heq ▸ List.mem_append_right as List.mem_cons_self
    · exact heq ▸ List.mem_append_right as (List.mem_cons_of_mem p List.mem_cons_self)
  · have hyx : y = x := by
      simp only [List.mem_append, List.mem_cons] at hy hy'
      tauto
    rw [unlinkAfter, setNext_next, if_pos hyx]

/-! ### The macros -/

theorem listPushHead_linkFirst (i : I) (el : P) (s : ListHeap I P) :
    listPushHead (ListHeap.listOf i) ListHeap.nextOf el s = .ok ((), s.linkFirst i el) :=
  listPushHead_ok ..

theorem listPopHead_unlinkFirst (h : Chain s.next (s.list i) (x :: xs)) :
    listPopHead (ListHeap.listOf i) ListHeap.nextOf s = .ok (some x, s.unlinkFirst i x) := by
  obtain ⟨hx, htail⟩ := h
  cases xs with
  | nil =>
    change s.next x = none at htail
    have hnone : (s.setList i none).setNext x none = s.setList i none := by
      have hsame : Function.update s.next x none = s.next :=
        htail ▸ Function.update_eq_self x s.next
      rw [ListHeap.setNext, ListHeap.setList_next, hsame]
      rfl
    rw [ListHeap.unlinkFirst, htail, hnone]
    exact listPopHead_last hx htail
  | cons y ys =>
    rw [ListHeap.unlinkFirst, htail.1]
    exact listPopHead_more hx htail.1

/-- The first node leaves its list, whichever node is given as the one before it. -/
theorem listDeleteEl_first (h : s.list i = some x) (prevEl : Option P) :
    listDeleteEl (ListHeap.listOf i) ListHeap.nextOf prevEl x s = .ok ((), s.unlinkFirst i x) := by
  have hlist : (ListHeap.listOf i).get s = some x := h
  have hcheck : ¬(prevEl = none ∧ some x ≠ some x) := fun hc => hc.2 rfl
  rw [listDeleteEl, bind_read, hlist, bind_ok (check_ok hcheck)]
  cases prevEl with
  | none => rfl
  | some p =>
    simp only [bind_read, hlist, if_pos]
    rfl

theorem listDeleteEl_after (h : s.list i ≠ some x) (p : P) :
    listDeleteEl (ListHeap.listOf i) ListHeap.nextOf (some p) x s =
      .ok ((), s.unlinkAfter p x) := by
  have hlist : (ListHeap.listOf i).get s ≠ some x := h
  have hcheck : ¬(some p = none ∧ (ListHeap.listOf i).get s ≠ some x) := fun hc => nomatch hc.1
  rw [listDeleteEl, bind_read, bind_ok (check_ok hcheck)]
  simp only [bind_read, if_neg hlist]
  rfl

theorem listDeleteEl_relinks (h : Chain s.next (s.list i) (as ++ x :: bs))
    (hprev : as = [] ∨ prevEl = as.getLast?) :
    ∃ s', listDeleteEl (ListHeap.listOf i) ListHeap.nextOf prevEl x s = .ok ((), s') ∧
      listLinking.Relinks i (as ++ x :: bs) ((as ++ x :: bs).erase x) s s' := by
  have hnot : x ∉ as := fun hx => (List.nodup_append.mp h.nodup).2.2 x hx x List.mem_cons_self rfl
  rw [List.erase_append_right _ hnot, List.erase_cons_head]
  rcases List.eq_nil_or_concat' as with rfl | ⟨cs, p, rfl⟩
  · exact ⟨s.unlinkFirst i x, listDeleteEl_first h.1 prevEl, ListHeap.unlinkFirst_relinks h⟩
  · have hp : prevEl = some p := by
      rw [hprev.resolve_left (List.concat_ne_nil p cs), List.getLast?_concat]
    have hfirst : s.list i ≠ some x := by
      rw [h.head, List.head?_append_of_ne_nil _ (List.concat_ne_nil p cs)]
      exact fun heq => hnot (List.mem_of_head? heq)
    rw [List.append_assoc] at h
    rw [List.append_assoc, List.append_assoc, hp]
    exact ⟨s.unlinkAfter p x, listDeleteEl_after hfirst p, ListHeap.unlinkAfter_relinks h⟩

theorem listInsertAfter_linkAfter (i : I) (p el : P) (s : ListHeap I P) :
    listInsertAfter (ListHeap.listOf i) ListHeap.nextOf (some p) el s =
      .ok ((), s.linkAfter p el) :=
  rfl

theorem listInsertOrdered_relinks {cmp : P → P → Int} (h : Chain s.next (s.list i) xs)
    (hxs : xs = [] ∨ ∃ x ∈ xs, cmp el x ≤ 0) (hel : el ∉ xs) :
    ∃ s', (∀ rounds > xs.length, listInsertOrdered (ListHeap.listOf i) ListHeap.nextOf rounds el
      (comparing cmp) s = .ok ((), s')) ∧
      listLinking.Relinks i xs (insertBefore cmp el xs) s s' := by
  have hpush := s.linkFirst_relinks (i := i) h hel
  rcases hxs with rfl | hxs
  · have hnone : (ListHeap.listOf i).get s = none := h
    refine ⟨s.linkFirst i el, fun rounds _ => ?_, hpush⟩
    rw [listInsertOrdered, bind_read, hnone]
    exact listPushHead_linkFirst i el s
  · obtain ⟨as, b, bs, rfl, has, hb⟩ := exists_first_not_smaller hxs
    rw [insertBefore_append has hb]
    rcases List.eq_nil_or_concat' as with rfl | ⟨cs, p, rfl⟩
    · have hfirst : (ListHeap.listOf i).get s = some b := h.1
      refine ⟨s.linkFirst i el, fun rounds _ => ?_, hpush⟩
      rw [listInsertOrdered, bind_read, hfirst]
      change (comparing cmp el (some b) >>= _) s = _
      rw [bind_comparing, if_pos hb]
      exact listPushHead_linkFirst i el s
    · obtain ⟨a, ds, hds⟩ := List.exists_cons_of_ne_nil (List.concat_ne_nil p cs)
      have hfirst : (ListHeap.listOf i).get s = some a := by
        rw [hds] at h
        exact h.1
      have ha : 0 < cmp el a := has a (by rw [hds]; exact List.mem_cons_self)
      have hlist : cs ++ [p] ++ b :: bs = cs ++ p :: b :: bs := List.append_assoc ..
      have hlist' : cs ++ [p] ++ el :: b :: bs = cs ++ p :: el :: b :: bs :=
        List.append_assoc ..
      refine ⟨s.linkAfter p el, fun rounds hr => ?_, ?_⟩
      · have hlength : (cs ++ [p]).length < rounds := by
          rw [List.length_append] at hr
          omega
        have hwalk : insertOrderedLoop ListHeap.nextOf el (comparing cmp) rounds none
            ((ListHeap.listOf i).get s) s = .ok ((cs ++ [p]).getLast?.or none, s) :=
          insertOrderedLoop_stops h has hb hlength
        rw [List.getLast?_concat] at hwalk
        rw [listInsertOrdered, bind_read, hfirst]
        change (comparing cmp el (some a) >>= _) s = _
        rw [bind_comparing, if_neg (Int.not_le.mpr ha), ← hfirst, bind_ok hwalk]
        exact listInsertAfter_linkAfter i p el s
      · rw [hlist] at h hel ⊢
        rw [hlist']
        exact s.linkAfter_relinks h hel

/-! ### Sequences of operations -/

/-- On the list it is called on, an operation does what it does to the sequence of the nodes. -/
theorem ListOp.does {N : P → Prop} {lists : I → List P} {op : ListOp I P}
    (h : listLinking.Holds N s lists) (hop : op.Allowed lists) :
    ∃ s', listLinking.Does listOps (fun rounds => op.run rounds) lists op s s' := by
  cases op with
  | pushHead i el =>
    exact ⟨s.linkFirst i el, .of_all fun _ => bind_ok (listPushHead_linkFirst i el s),
      ListHeap.linkFirst_relinks (h.onList i) (hop i)⟩
  | popHead i =>
    obtain ⟨x, xs, hxs⟩ := List.exists_cons_of_ne_nil hop
    have hchain : Chain s.next (s.list i) (x :: xs) := hxs ▸ h.onList i
    have hrelinks := ListHeap.unlinkFirst_relinks hchain
    refine ⟨s.unlinkFirst i x, .of_all fun _ => ?_, ?_⟩
    · change _ = Except.ok (ListAnswer.node (lists i).head?, _)
      rw [hxs]
      exact bind_ok (listPopHead_unlinkFirst hchain)
    · change listLinking.Relinks i (lists i) (lists i).tail s _
      rwa [hxs]
  | deleteEl i prevEl x =>
    obtain ⟨as, bs, hxs, hprev⟩ := hop
    have hchain : Chain s.next (s.list i) (as ++ x :: bs) := hxs ▸ h.onList i
    obtain ⟨s', hrun, hrelinks⟩ := listDeleteEl_relinks hchain hprev
    refine ⟨s', .of_all fun _ => bind_ok hrun, ?_⟩
    change listLinking.Relinks i (lists i) ((lists i).erase x) s s'
    rwa [hxs]
  | insertAfter i prevEl el =>
    cases prevEl with
    | none =>
      exact ⟨s.linkFirst i el, .of_all fun _ => bind_ok (listPushHead_linkFirst i el s),
        ListHeap.linkFirst_relinks (h.onList i) (hop i)⟩
    | some p =>
      obtain ⟨as, bs, hxs⟩ := List.append_of_mem hop.1
      have hchain : Chain s.next (s.list i) (as ++ p :: bs) := hxs ▸ h.onList i
      have hnot : p ∉ as := fun hp =>
        (List.nodup_append.mp hchain.nodup).2.2 p hp p List.mem_cons_self rfl
      refine ⟨s.linkAfter p el, .of_all fun _ => bind_ok (listInsertAfter_linkAfter i p el s), ?_⟩
      change listLinking.Relinks i (lists i) (insertedAfter p el (lists i)) s _
      rw [hxs, insertedAfter_append hnot]
      exact ListHeap.linkAfter_relinks hchain (hxs ▸ hop.2 i)
  | insertOrdered i el cmp =>
    obtain ⟨s', hrun, hrelinks⟩ := listInsertOrdered_relinks (h.onList i) hop.1 (hop.2 i)
    exact ⟨s', ⟨_, fun rounds hr => bind_ok (hrun rounds hr)⟩, hrelinks⟩
  | length i =>
    refine ⟨s, ⟨(lists i).length + 1, fun rounds hr => ?_⟩, ?_⟩
    · have hlength : listLength (ListHeap.listOf i) ListHeap.nextOf rounds s =
          .ok ((lists i).length, s) := listLength_ok (h.onList i) hr
      exact bind_ok hlength
    · exact listLinking_relinks (h.onList i) (fun _ _ => rfl) (fun _ _ _ => rfl)
        fun x hx hx' => absurd hx hx'

/-- Over a heap of nodes, every sequence of operations on simple lists answers as it does on the
sequences of their nodes and ends with the lists of those, and leaves no link in a node that has
been taken off. -/
theorem listOps_refine {N : P → Prop} {lists : I → List P} {ops : List (ListOp I P)}
    (h : listLinking.Holds N s lists) (hops : listOps.AllowedAll lists ops) :
    ∃ s', EndsBounded (fun rounds => ops.mapM (ListOp.run rounds)) s (listOps.answers lists ops)
      s' ∧ listLinking.Holds N s' (ops.foldl listOps.after lists) :=
  h.refines (fun _ _ _ hs hop => ListOp.does hs hop) hops

theorem listOps_refine_small : ∃ s' : ListHeap Bool Nat,
    EndsBounded (fun rounds => List.mapM (ListOp.run rounds)
      [.pushHead true 5, .insertAfter true (some 5) 7, .insertOrdered true 3 numberCmp,
        .deleteEl true (some 5) 7, .length true, .popHead true])
      ⟨fun _ => none, fun _ => none⟩
      [.done, .done, .done, .done, .length 2, .node (some 3)] s' ∧
    s'.list true = some 5 ∧ s'.next 7 = none := by
  have hstart : listLinking.Holds (fun _ => True)
      (⟨fun _ => none, fun _ => none⟩ : ListHeap Bool Nat) fun _ => [] :=
    ⟨fun _ => rfl, fun _ _ _ hx => (nomatch hx), fun _ _ _ => rfl⟩
  have hops : listOps.AllowedAll (fun _ : Bool => []) [.pushHead true 5,
      .insertAfter true (some 5) 7, .insertOrdered true 3 numberCmp, .deleteEl true (some 5) 7,
      .length true, .popHead true] :=
    ⟨fun _ => List.not_mem_nil, ⟨List.mem_singleton_self 5, by decide⟩,
      ⟨.inr ⟨5, List.mem_cons_self, by decide⟩, by decide⟩, ⟨[3, 5], [], rfl, .inr rfl⟩, trivial,
      (by decide : _ ≠ []), trivial⟩
  obtain ⟨s', hrun, hholds⟩ := listOps_refine hstart hops
  exact ⟨s', hrun, (hholds.onList true).1, hholds.unlinked 7 trivial (by decide)⟩

end Atros
