import Atros.ClistInsertion
import Atros.Sequences

namespace Atros
set_option autoImplicit true

/-! ### Many circular lists -/

/-- The heads of the lists and the fields `prev` and `next` of all nodes. -/
structure ClistHeap (I P : Type) where
  list : I → Option P
  prev : P → Option P
  next : P → Option P

variable {I P : Type} [DecidableEq I] [DecidableEq P]

def ClistHeap.listOf (i : I) : Place (ClistHeap I P) (Option P) where
  get s := s.list i
  set v s := { s with list := Function.update s.list i v }

def ClistHeap.prevOf (a : P) : Place (ClistHeap I P) (Option P) where
  get s := s.prev a
  set v s := { s with prev := Function.update s.prev a v }

def ClistHeap.nextOf (a : P) : Place (ClistHeap I P) (Option P) where
  get s := s.next a
  set v s := { s with next := Function.update s.next a v }

theorem ClistHeap.places (i : I) :
    LawfulPlaces (listOf i) (prevOf (P := P)) nextOf where
  list_list _ _ := Function.update_self ..
  list_prev _ _ _ := rfl
  list_next _ _ _ := rfl
  prev_list _ _ _ := rfl
  prev_prev _ _ _ _ := Function.update_apply ..
  prev_next _ _ _ _ := rfl
  next_list _ _ _ := rfl
  next_prev _ _ _ _ := rfl
  next_next _ _ _ _ := Function.update_apply ..

def ClistHeap.links (s : ClistHeap I P) : Links P := ⟨s.next, s.prev⟩

/-- The operations of list.h, each on one list. -/
inductive ClistOp (I P : Type)
  | pushHead (i : I) (el : P)
  | pushTail (i : I) (el : P)
  | popHead (i : I)
  | deleteEl (i : I) (el : P)
  | insertOrdered (i : I) (el : P) (cmp : P → P → Int)

def ClistOp.list : ClistOp I P → I
  | pushHead i _ | pushTail i _ | popHead i | deleteEl i _ | insertOrdered i _ _ => i

/-- The call of the operation; only `clist_pop_head` yields a node. -/
def ClistOp.run (rounds : Nat) : ClistOp I P → Prog Panic (ClistHeap I P) (Option P)
  | pushHead i el => do
    clistPushHead (ClistHeap.listOf i) ClistHeap.prevOf ClistHeap.nextOf el
    return none
  | pushTail i el => do
    clistPushTail (ClistHeap.listOf i) ClistHeap.prevOf ClistHeap.nextOf el
    return none
  | popHead i => do
    return some (← clistPopHead (ClistHeap.listOf i) ClistHeap.prevOf ClistHeap.nextOf)
  | deleteEl i el => do
    clistDeleteEl (ClistHeap.listOf i) ClistHeap.prevOf ClistHeap.nextOf el
    return none
  | insertOrdered i el cmp => do
    clistInsertOrdered (ClistHeap.listOf i) ClistHeap.prevOf ClistHeap.nextOf rounds el
      (comparing cmp)
    return none

/-! ### The same operations on sequences -/

/-- What the callers see to. -/
def ClistOp.Allowed (lists : I → List P) : ClistOp I P → Prop
  | pushHead _ el | pushTail _ el | insertOrdered _ el _ => ∀ j, el ∉ lists j
  | popHead i => lists i ≠ []
  | deleteEl i el => el ∈ lists i

/-- The nodes of the list after the operation. -/
def ClistOp.nodes : ClistOp I P → List P → List P
  | pushHead _ el, xs => el :: xs
  | pushTail _ el, xs => xs ++ [el]
  | popHead _, xs => xs.tail
  | deleteEl _ el, xs => xs.erase el
  | insertOrdered _ el cmp, xs => clistInserted cmp el xs

def ClistOp.answer : ClistOp I P → List P → Option P
  | popHead _, xs => xs.head?
  | _, _ => none

omit [DecidableEq I] [DecidableEq P] in
theorem mem_clistInserted {cmp : P → P → Int} {xs : List P} :
    y ∈ clistInserted cmp x xs ↔ y = x ∨ y ∈ xs := by
  cases xs with
  | nil => rw [clistInserted, List.mem_singleton, or_iff_left (List.not_mem_nil)]
  | cons a as =>
    rw [clistInserted]
    split_ifs
    · exact List.mem_cons
    · rw [List.mem_append, List.mem_singleton, or_comm]
    · exact mem_insertBefore

omit [DecidableEq I] in
theorem ClistOp.fresh {lists : I → List P} {op : ClistOp I P} (h : op.Allowed lists) :
    ∀ x ∈ op.nodes (lists op.list), x ∈ lists op.list ∨ ∀ j, x ∉ lists j := by
  intro x hx
  cases op with
  | pushHead i el =>
    rcases List.mem_cons.mp hx with rfl | hx
    · exact .inr h
    · exact .inl hx
  | pushTail i el =>
    rcases List.mem_append.mp hx with hx | hx
    · exact .inl hx
    · exact .inr (List.mem_singleton.mp hx ▸ h)
  | popHead i => exact .inl (List.mem_of_mem_tail hx)
  | deleteEl i el => exact .inl (List.mem_of_mem_erase hx)
  | insertOrdered i el cmp =>
    rcases mem_clistInserted.mp hx with rfl | hx
    · exact .inr h
    · exact .inl hx

def clistOps : SequenceOps I P (Option P) (ClistOp I P) where
  list := ClistOp.list
  Allowed := ClistOp.Allowed
  nodes := ClistOp.nodes
  answer := ClistOp.answer
  fresh := ClistOp.fresh

/-- An insertion into a sorted list goes before the first node that is not smaller, and the list
stays sorted. -/
def ClistOp.KeepsOrder (op : ClistOp I P) (lists : I → List P) : Prop :=
  ∀ i el cmp, op = insertOrdered i el cmp → TotalPreorder cmp → SortedBy cmp (lists i) →
    clistOps.after lists op i = insertBefore cmp el (lists i) ∧
      SortedBy cmp (clistOps.after lists op i)

theorem ClistOp.keepsOrder (op : ClistOp I P) (lists : I → List P) : op.KeepsOrder lists := by
  rintro i el cmp rfl hcmp hs
  have hnodes : clistOps.after lists (.insertOrdered i el cmp) i =
      insertBefore cmp el (lists i) :=
    (clistOps.after_self lists (.insertOrdered i el cmp)).trans
      (clistInserted_of_sorted hcmp hs el)
  exact ⟨hnodes, hnodes ▸ hs.insert hcmp el⟩

/-! ### The rings -/

/-- Each list is a ring of its nodes. `clist_delete_el` leaves the pointers of a node that it takes
off a longer list, so nothing is said of those of the nodes on no list. -/
def clistLinking : Linking (ClistHeap I P) I P where
  OnList s i xs := s.links.Ring (s.list i) xs
  Unlinked _ _ := True

theorem Touched.other_list {s s' : ClistHeap I P}
    (h : Touched (ClistHeap.listOf i) ClistHeap.prevOf ClistHeap.nextOf s s') (hj : j ≠ i) :
    s'.list j = s.list j := by
  induction h with
  | refl => rfl
  | list v _ ih => exact (Function.update_of_ne hj ..).trans ih
  | prev a v _ ih => exact ih
  | next a v _ ih => exact ih

/-- Outside its list and the new nodes of it, an operation changes no pointer. -/
theorem clistLinking_relinks {s s' : ClistHeap I P} {xs ys : List P}
    (hring : s'.links.Ring (s'.list i) ys)
    (ht : Touched (ClistHeap.listOf i) ClistHeap.prevOf ClistHeap.nextOf s s')
    (hsame : ∀ y ∉ xs, y ∉ ys → SamePointers s.links s'.links y) :
    clistLinking.Relinks i xs ys s s' := by
  refine ⟨hring, fun j hj zs hzs h => ?_, fun _ _ _ => trivial⟩
  change s'.links.Ring (s'.list j) zs
  rw [ht.other_list hj]
  exact Links.Ring.transport h (fun z hz => (hsame z (hzs z hz).1 (hzs z hz).2).1)
    fun z hz => (hsame z (hzs z hz).1 (hzs z hz).2).2

/-! ### One operation -/

/-- On the list it is called on, an operation does what it does to the sequence of the nodes. -/
theorem ClistOp.ends {op : ClistOp I P} {s : ClistHeap I P} {lists : I → List P}
    (hring : s.links.Ring (s.list op.list) (lists op.list)) (hop : op.Allowed lists) :
    ∃ s', EndsBounded (fun rounds => op.run rounds) s (op.answer (lists op.list)) s' ∧
      s'.links.Ring (s'.list op.list) (op.nodes (lists op.list)) ∧
      Touched (ClistHeap.listOf op.list) ClistHeap.prevOf ClistHeap.nextOf s s' ∧
      ∀ y ∉ lists op.list, y ∉ op.nodes (lists op.list) → SamePointers s.links s'.links y := by
  cases op with
  | pushHead i el =>
    obtain ⟨s', hrun, hring', ht, hsame⟩ :=
      clistPushHead_ring (ClistHeap.places i) hring (hop i)
    refine ⟨s', .of_all fun _ => bind_ok hrun, hring', ht, fun y hy hy' => hsame y hy ?_⟩
    exact fun heq => hy' (heq ▸ List.mem_cons_self)
  | pushTail i el =>
    obtain ⟨s', hrun, hring', ht, hsame⟩ :=
      clistPushTail_ring (ClistHeap.places i) hring (hop i)
    refine ⟨s', .of_all fun _ => bind_ok hrun, hring', ht, fun y hy hy' => hsame y hy ?_⟩
    exact fun heq => hy' (heq ▸ List.mem_append_right _ List.mem_cons_self)
  | popHead i =>
    obtain ⟨x, xs, hxs⟩ := List.exists_cons_of_ne_nil hop
    change s.links.Ring (s.list i) (lists i) at hring
    rw [hxs] at hring
    obtain ⟨s', hrun, hring', ht, hsame⟩ := clistPopHead_ring (ClistHeap.places i) hring
    refine ⟨s', .of_all fun _ => ?_, ?_, ht, fun y hy _ => hsame y (hxs ▸ hy)⟩
    · change _ = Except.ok ((lists i).head?, s')
      rw [hxs]
      exact bind_ok hrun
    · change s'.links.Ring (s'.list i) (lists i).tail
      rw [hxs]
      exact hring'
  | deleteEl i el =>
    obtain ⟨as, bs, hxs⟩ := List.append_of_mem hop
    change s.links.Ring (s.list i) (lists i) at hring
    rw [hxs] at hring
    obtain ⟨s', hrun, hring', ht, hsame⟩ := clistDeleteEl_ring (ClistHeap.places i) hring
    refine ⟨s', .of_all fun _ => bind_ok hrun, ?_, ht, fun y hy _ => hsame y (hxs ▸ hy)⟩
    have hel : el ∉ as := by
      intro hmem
      exact (List.nodup_append.mp hring.nodup).2.2 el hmem el List.mem_cons_self rfl
    change s'.links.Ring (s'.list i) ((lists i).erase el)
    rw [hxs, List.erase_append_right _ hel, List.erase_cons_head]
    exact hring'
  | insertOrdered i el cmp =>
    obtain ⟨s', hrun, hring', ht, hsame⟩ :=
      clistInsertOrdered_ring (ClistHeap.places i) hring (hop i) cmp
    refine ⟨s', ⟨(lists i).length + 1, fun rounds hr => bind_ok (hrun rounds hr)⟩, hring', ht,
      fun y hy hy' => hsame y hy fun heq => hy' (mem_clistInserted.mpr (.inl heq))⟩

/-- What an operation does. -/
structure ClistOp.Does (op : ClistOp I P) (lists : I → List P) (s s' : ClistHeap I P) : Prop
    extends clistLinking.Does clistOps (fun rounds => op.run rounds) lists op s s' where
  others : ∀ j ≠ op.list, ∀ x ∈ lists j, SamePointers s.links s'.links x
  order : op.KeepsOrder lists

theorem ClistOp.does {N : P → Prop} {s : ClistHeap I P} {lists : I → List P} {op : ClistOp I P}
    (h : clistLinking.Holds N s lists) (hop : op.Allowed lists) : ∃ s', op.Does lists s s' := by
  obtain ⟨s', hends, hring, ht, hsame⟩ := ClistOp.ends (h.onList op.list) hop
  refine ⟨s', ⟨⟨hends, clistLinking_relinks hring ht hsame⟩, fun j hj x hx => ?_,
    op.keepsOrder lists⟩⟩
  have hnot : x ∉ lists op.list := fun hx' => hj (h.apart _ _ x hx hx')
  exact hsame x hnot fun hx' => (op.fresh hop x hx').elim hnot fun hnew => hnew j hx

/-! ### Sequences of operations -/

/-- A sequence of operations on the heap does what it does to the sequences of nodes, and so does
any operation after it. -/
theorem clistOps_refine {N : P → Prop} {s : ClistHeap I P} {lists : I → List P}
    {ops : List (ClistOp I P)} (h : clistLinking.Holds N s lists)
    (hops : clistOps.AllowedAll lists ops) :
    ∃ s', EndsBounded (fun rounds => ops.mapM (ClistOp.run rounds)) s (clistOps.answers lists ops)
        s' ∧
      clistLinking.Holds N s' (ops.foldl clistOps.after lists) ∧
      ∀ op : ClistOp I P, op.Allowed (ops.foldl clistOps.after lists) →
        ∃ s'', op.Does (ops.foldl clistOps.after lists) s' s'' ∧
          clistLinking.Holds N s'' (clistOps.after (ops.foldl clistOps.after lists) op) := by
  have hstep : ∀ s lists (op : ClistOp I P), clistLinking.Holds N s lists →
      clistOps.Allowed lists op →
      ∃ s', clistLinking.Does clistOps (fun rounds => op.run rounds) lists op s s' := by
    intro s lists op hs hop
    obtain ⟨s', hdoes⟩ := ClistOp.does hs hop
    exact ⟨s', hdoes.toDoes⟩
  obtain ⟨s', hends, hholds⟩ := h.refines hstep hops
  refine ⟨s', hends, hholds, fun op hop => ?_⟩
  obtain ⟨s'', hdoes⟩ := ClistOp.does hholds hop
  exact ⟨s'', hdoes, hholds.after hop hdoes.relinks⟩

theorem clistOps_refine_small : ∃ s' : ClistHeap Bool Nat,
    EndsBounded (fun rounds => List.mapM (ClistOp.run rounds)
      [.pushHead true 5, .insertOrdered true 3 numberCmp, .pushTail false 7, .popHead true,
        .deleteEl false 7])
      ⟨fun _ => none, fun _ => none, fun _ => none⟩ [none, none, none, some 3, none] s' ∧
    s'.list true = some 5 := by
  have hstart : clistLinking.Holds (fun _ => True)
      (⟨fun _ => none, fun _ => none, fun _ => none⟩ : ClistHeap Bool Nat) fun _ => [] :=
    ⟨fun _ => .nil _, fun _ _ _ hx => (nomatch hx), fun _ _ _ => trivial⟩
  have hops : clistOps.AllowedAll (fun _ : Bool => []) [.pushHead true 5,
      .insertOrdered true 3 numberCmp, .pushTail false 7, .popHead true, .deleteEl false 7] :=
    ⟨fun _ => List.not_mem_nil, (by decide : ∀ j, 3 ∉ _), (by decide : ∀ j, 7 ∉ _),
      (by decide : _ ≠ []), List.mem_cons_self, trivial⟩
  obtain ⟨s', hrun, hholds, -⟩ := clistOps_refine hstart hops
  exact ⟨s', hrun, (hholds.onList true).head⟩

end Atros
