import Atros.ClistRuns

namespace Atros
set_option autoImplicit true

/-! ### Many doubly linked lists -/

variable {I P : Type} [DecidableEq I] [DecidableEq P] {s s' : ClistHeap I P} {xs ys : List P}

/-- The operations of list.h on doubly linked lists. -/
inductive DlistOp (I P : Type)
  | pushHead (i : I) (el : P)
  | deleteHead (i : I) (head : P)
  | deleteEl (i : I) (el : P)

def DlistOp.run : DlistOp I P → Prog Panic (ClistHeap I P) Unit
  | pushHead i el => dlistPushHead (ClistHeap.listOf i) ClistHeap.prevOf ClistHeap.nextOf el
  | deleteHead i head => dlistDeleteHead (ClistHeap.listOf i) ClistHeap.prevOf ClistHeap.nextOf head
  | deleteEl i el => dlistDeleteEl (ClistHeap.listOf i) ClistHeap.prevOf ClistHeap.nextOf el

def DlistOp.list : DlistOp I P → I
  | pushHead i _ | deleteHead i _ | deleteEl i _ => i

def DlistOp.nodes : DlistOp I P → List P → List P
  | pushHead _ el, xs => el :: xs
  | deleteHead _ _, xs => xs.tail
  | deleteEl _ el, xs => xs.erase el

/-- A new node is on no list, and a node is deleted from the list it is on. -/
def DlistOp.Allowed (lists : I → List P) : DlistOp I P → Prop
  | pushHead _ el => ∀ j, el ∉ lists j
  | deleteHead i head => (lists i).head? = some head
  | deleteEl i el => el ∈ lists i

omit [DecidableEq I] in
theorem DlistOp.fresh {lists : I → List P} {op : DlistOp I P} (h : op.Allowed lists) :
    ∀ x ∈ op.nodes (lists op.list), x ∈ lists op.list ∨ ∀ j, x ∉ lists j := by
  intro x hx
  cases op with
  | pushHead i el =>
    rcases List.mem_cons.mp hx with rfl | hx
    · exact .inr h
    · exact .inl hx
  | deleteHead i head => exact .inl (List.mem_of_mem_tail hx)
  | deleteEl i el => exact .inl (List.mem_of_mem_erase hx)

def dlistOps : SequenceOps I P Unit (DlistOp I P) where
  list := DlistOp.list
  Allowed := DlistOp.Allowed
  nodes := DlistOp.nodes
  answer _ _ := ()
  fresh := DlistOp.fresh

/-! ### The links -/

def ClistHeap.setList (s : ClistHeap I P) (i : I) (v : Option P) : ClistHeap I P :=
  { s with list := Function.update s.list i v }

def ClistHeap.setPrev (s : ClistHeap I P) (a : P) (v : Option P) : ClistHeap I P :=
  { s with prev := Function.update s.prev a v }

def ClistHeap.setNext (s : ClistHeap I P) (a : P) (v : Option P) : ClistHeap I P :=
  { s with next := Function.update s.next a v }

section
omit [DecidableEq P]

@[simp] theorem ClistHeap.setList_prev (i : I) (v : Option P) : (s.setList i v).prev = s.prev := rfl

@[simp] theorem ClistHeap.setList_next (i : I) (v : Option P) : (s.setList i v).next = s.next := rfl

@[simp] theorem ClistHeap.setList_list (i j : I) (v : Option P) :
    (s.setList i v).list j = if j = i then v else s.list j :=
  Function.update_apply ..

end

section
omit [DecidableEq I]

@[simp] theorem ClistHeap.setPrev_list (a : P) (v : Option P) : (s.setPrev a v).list = s.list := rfl

@[simp] theorem ClistHeap.setPrev_next (a : P) (v : Option P) : (s.setPrev a v).next = s.next := rfl

@[simp] theorem ClistHeap.setPrev_prev (a b : P) (v : Option P) :
    (s.setPrev a v).prev b = if b = a then v else s.prev b :=
  Function.update_apply ..

@[simp] theorem ClistHeap.setNext_list (a : P) (v : Option P) : (s.setNext a v).list = s.list := rfl

@[simp] theorem ClistHeap.setNext_prev (a : P) (v : Option P) : (s.setNext a v).prev = s.prev := rfl

@[simp] theorem ClistHeap.setNext_next (a b : P) (v : Option P) :
    (s.setNext a v).next b = if b = a then v else s.next b :=
  Function.update_apply ..

end

def dlistLinking : Linking (ClistHeap I P) I P where
  OnList s i xs := DChain s.next s.prev none (s.list i) xs
  Unlinked s x := s.next x = none ∧ s.prev x = none

omit [DecidableEq I] [DecidableEq P] in
/-- Only the head of one list and the links of its nodes change, and those that leave it lose
theirs. -/
theorem dlistLinking_relinks (hchain : DChain s'.next s'.prev none (s'.list i) ys)
    (hlists : ∀ j ≠ i, s'.list j = s.list j)
    (hsame : ∀ y, y ∉ xs → y ∉ ys → s'.next y = s.next y ∧ s'.prev y = s.prev y)
    (hleft : ∀ x ∈ xs, x ∉ ys → s'.next x = none ∧ s'.prev x = none) :
    dlistLinking.Relinks i xs ys s s' := by
  refine ⟨hchain, fun j hj zs hzs h => ?_, fun x hx h => ?_⟩
  · change DChain s'.next s'.prev none (s'.list j) zs
    rw [hlists j hj]
    exact DChain.congr h (fun z hz => (hsame z (hzs z hz).1 (hzs z hz).2).1)
      fun z hz => (hsame z (hzs z hz).1 (hzs z hz).2).2
  · by_cases hxs : x ∈ xs
    · exact hleft x hxs hx
    · obtain ⟨hnext, hprev⟩ := hsame x hxs hx
      exact ⟨hnext.trans (h hxs).1, hprev.trans (h hxs).2⟩

/-- The node that a pointer leads to, if any, gets another one before it. -/
def ClistHeap.setPrevAt (s : ClistHeap I P) (p v : Option P) : ClistHeap I P :=
  match p with
  | some a => s.setPrev a v
  | none => s

section
omit [DecidableEq I]

@[simp] theorem ClistHeap.setPrevAt_list (p v : Option P) : (s.setPrevAt p v).list = s.list := by
  cases p <;> rfl

@[simp] theorem ClistHeap.setPrevAt_next (p v : Option P) : (s.setPrevAt p v).next = s.next := by
  cases p <;> rfl

@[simp] theorem ClistHeap.setPrevAt_prev (p v : Option P) (b : P) :
    (s.setPrevAt p v).prev b = if p = some b then v else s.prev b := by
  cases p with
  | none => rfl
  | some a =>
    rw [setPrevAt, setPrev_prev]
    exact if_congr ⟨fun h => congrArg some h.symm, fun h => (Option.some.inj h).symm⟩ rfl rfl

end

omit [DecidableEq P] in
theorem DChain.head_ne {next prev : P → Option P} (h : DChain next prev q list xs) (hz : z ∉ xs) :
    list ≠ some z :=
  fun heq => hz (List.mem_of_head? (h.toChain.head.symm.trans heq))

/-! ### A new first node -/

def ClistHeap.linkHead (s : ClistHeap I P) (i : I) (el : P) : ClistHeap I P :=
  (((s.setPrevAt (s.list i) (some el)).setPrev el none).setNext el (s.list i)).setList i (some el)

theorem ClistHeap.linkHead_relinks (h : DChain s.next s.prev none (s.list i) xs) (hel : el ∉ xs) :
    dlistLinking.Relinks i xs (el :: xs) s (s.linkHead i el) := by
  have hne : ∀ z ∈ xs, z ≠ el := fun z hz heq => hel (heq ▸ hz)
  have hnext : (s.linkHead i el).next el = s.list i := by simp [linkHead]
  refine dlistLinking_relinks ⟨by simp [linkHead], by simp [linkHead], ?_⟩
    (fun j hj => by simp [linkHead, hj]) (fun z hz hz' => ?_)
    fun x hx hx' => absurd (List.mem_cons_of_mem el hx) hx'
  · rw [hnext]
    refine h.rehead (fun z hz => ?_) (fun z hz hhead => ?_) fun z hhead => ?_
    · simp [linkHead, hne z hz]
    · have hfirst : s.list i ≠ some z := fun heq => hhead (heq.symm.trans h.toChain.head)
      simp [linkHead, hne z hz, hfirst]
    · simp [linkHead, hne z (List.mem_of_head? hhead), h.toChain.head, hhead]
  · simp [linkHead, List.ne_of_not_mem_cons hz', h.head_ne hz]

theorem dlistPushHead_linkHead (i : I) (el : P) (s : ClistHeap I P) :
    dlistPushHead (ClistHeap.listOf i) ClistHeap.prevOf ClistHeap.nextOf el s =
      .ok ((), s.linkHead i el) := by
  have hget : (ClistHeap.listOf i).get s = s.list i := rfl
  rw [dlistPushHead, bind_read, hget, ClistHeap.linkHead]
  cases hlist : s.list i with
  | none =>
    have hkept : (ClistHeap.listOf i).get ((ClistHeap.prevOf el).set none s) = none := hlist
    simp only [bind_write, bind_read, hkept]
    rfl
  | some y =>
    have hkept : (ClistHeap.listOf i).get ((ClistHeap.prevOf el).set none
        ((ClistHeap.prevOf y).set (some el) s)) = some y := hlist
    simp only [bind_write, bind_read, hkept]
    rfl

/-! ### The first node leaves -/

def ClistHeap.unlinkHead (s : ClistHeap I P) (i : I) (x : P) : ClistHeap I P :=
  (((s.setList i (s.next x)).setPrevAt (s.next x) none).setPrev x none).setNext x none

theorem ClistHeap.unlinkHead_relinks (h : DChain s.next s.prev none (s.list i) (x :: xs)) :
    dlistLinking.Relinks i (x :: xs) xs s (s.unlinkHead i x) := by
  have hx := (List.nodup_cons.mp h.toChain.nodup).1
  obtain ⟨-, -, htail⟩ := h
  have hne : ∀ z ∈ xs, z ≠ x := fun z hz heq => hx (heq ▸ hz)
  have hlist : (s.unlinkHead i x).list i = s.next x := by simp [unlinkHead]
  refine dlistLinking_relinks ?_ (fun j hj => by simp [unlinkHead, hj]) (fun z hz hz' => ?_)
    fun z hz hz' => ?_
  · rw [hlist]
    refine htail.rehead (fun z hz => ?_) (fun z hz hhead => ?_) fun z hhead => ?_
    · simp [unlinkHead, hne z hz]
    · have hfirst : s.next x ≠ some z := fun heq => hhead (heq.symm.trans htail.toChain.head)
      simp [unlinkHead, hne z hz, hfirst]
    · simp [unlinkHead, hne z (List.mem_of_head? hhead), htail.toChain.head, hhead]
  · simp [unlinkHead, List.ne_of_not_mem_cons hz, htail.head_ne hz']
  · simp [unlinkHead, (List.mem_cons.mp hz).resolve_right hz']

omit [DecidableEq I] in
theorem ClistHeap.unlink_self (hprev : s.prev x = none) (hnext : s.next x = none) :
    (s.setPrev x none).setNext x none = s := by
  have hprev' : Function.update s.prev x none = s.prev := hprev ▸ Function.update_eq_self x s.prev
  have hnext' : Function.update s.next x none = s.next := hnext ▸ Function.update_eq_self x s.next
  rw [setNext, setPrev, hprev', hnext']

theorem dlistDeleteHead_unlinkHead (h : DChain s.next s.prev none (s.list i) (x :: xs)) :
    dlistDeleteHead (ClistHeap.listOf i) ClistHeap.prevOf ClistHeap.nextOf x s =
      .ok ((), s.unlinkHead i x) := by
  obtain ⟨hlist, hprev, -⟩ := h
  have hx : (ClistHeap.listOf i).get s = some x := hlist
  have hget : (ClistHeap.nextOf x).get s = s.next x := rfl
  rw [dlistDeleteHead, bind_read, hx, bind_follow, bind_read, hget, ClistHeap.unlinkHead]
  cases hnext : s.next x with
  | none =>
    rw [if_pos rfl, ClistHeap.setPrevAt,
      ClistHeap.unlink_self (s := s.setList i none) hprev hnext]
    rfl
  | some y =>
    have hhead : (ClistHeap.listOf i).get ((ClistHeap.listOf i).set (some y) s) = some y :=
      Function.update_self ..
    rw [if_neg (Option.some_ne_none y), bind_read, hget, hnext, bind_write, bind_read, hhead]
    rfl

/-! ### Another node leaves -/

def ClistHeap.unlinkBehind (s : ClistHeap I P) (p x : P) : ClistHeap I P :=
  (((s.setNext p (s.next x)).setPrevAt (s.next x) (some p)).setPrev x none).setNext x none

omit [DecidableEq I] in
theorem ClistHeap.unlinkBehind_relinks
    (h : DChain s.next s.prev none (s.list i) (as ++ p :: x :: bs)) :
    dlistLinking.Relinks i (as ++ p :: x :: bs) (as ++ p :: bs) s (s.unlinkBehind p x) := by
  have hnodup := List.nodup_append.mp h.toChain.nodup
  have hrest := List.nodup_cons.mp hnodup.2.1
  have hpx : p ≠ x := fun heq => hrest.1 (heq ▸ List.mem_cons_self)
  have hxbs := (List.nodup_cons.mp hrest.2).1
  have hbs : DChain s.next s.prev (some x) (s.next x) bs := h.tail.2.2
  have has : ∀ y ∈ as ++ [p], y ≠ x ∧ y ∉ bs := by
    intro y hy
    rcases List.mem_append.mp hy with hy | hy
    · have hne := hnodup.2.2 y hy
      refine ⟨hne x (List.mem_cons_of_mem p List.mem_cons_self), fun hmem => ?_⟩
      exact hne y (List.mem_cons_of_mem p (List.mem_cons_of_mem x hmem)) rfl
    · obtain rfl := List.mem_singleton.mp hy
      exact ⟨hpx, fun hmem => hrest.1 (List.mem_cons_of_mem x hmem)⟩
  refine dlistLinking_relinks ?_ (fun j _ => by simp [unlinkBehind]) (fun y hy _ => ?_)
    fun y hy hy' => ?_
  · have hlist : (s.unlinkBehind p x).list i = s.list i := by simp [unlinkBehind]
    have hlink : (s.unlinkBehind p x).next p = s.next x := by simp [unlinkBehind, hpx]
    rw [hlist]
    refine h.relink (fun y hy => ?_) (fun y hy => ?_) ?_
    · have hyp : y ≠ p := hnodup.2.2 y hy p List.mem_cons_self
      simp [unlinkBehind, (has y (List.mem_append_left _ hy)).1, hyp]
    · simp [unlinkBehind, (has y hy).1, hbs.head_ne (has y hy).2]
    · rw [hlink]
      have hne : ∀ z ∈ bs, z ≠ x := fun z hz heq => hxbs (heq ▸ hz)
      refine hbs.rehead (fun z hz => ?_) (fun z hz hhead => ?_) fun z hhead => ?_
      · have hzp : z ≠ p := fun heq => hrest.1 (List.mem_cons_of_mem x (heq ▸ hz))
        simp [unlinkBehind, hne z hz, hzp]
      · have hfirst : s.next x ≠ some z := fun heq => hhead (heq.symm.trans hbs.toChain.head)
        simp [unlinkBehind, hne z hz, hfirst]
      · simp [unlinkBehind, hne z (List.mem_of_head? hhead), hbs.toChain.head, hhead]
  · simp only [List.mem_append, List.mem_cons, not_or] at hy
    obtain ⟨-, hyp, hyx, hybs⟩ := hy
    simp [unlinkBehind, hyp, hyx, hbs.head_ne hybs]
  · have hyx : y = x := by
      simp only [List.mem_append, List.mem_cons] at hy hy'
      tauto
    simp [unlinkBehind, hyx]

theorem dlistDeleteEl_unlinkBehind (hfirst : s.list i ≠ some x) (hprev : s.prev x = some p)
    (hne : x ≠ p) : dlistDeleteEl (ClistHeap.listOf i) ClistHeap.prevOf ClistHeap.nextOf x s =
      .ok ((), s.unlinkBehind p x) := by
  have hfirst' : (ClistHeap.listOf i).get s ≠ some x := hfirst
  have hprev' : (ClistHeap.prevOf x).get s = some p := hprev
  have hget : (ClistHeap.nextOf x).get s = s.next x := rfl
  have hkept : (ClistHeap.nextOf x).get ((ClistHeap.nextOf p).set (s.next x) s) = s.next x := by
    simp [ClistHeap.nextOf, hne]
  have hkept' : (ClistHeap.prevOf x).get ((ClistHeap.nextOf p).set (s.next x) s) = some p := hprev
  rw [dlistDeleteEl, bind_read, if_pos hfirst', bind_read, hprev', bind_follow, bind_read, hget,
    bind_write, bind_read, hkept, ClistHeap.unlinkBehind]
  cases hnext : s.next x with
  | none => rfl
  | some b =>
    rw [hnext] at hkept'
    simp only [bind_read, bind_write, hkept']
    rfl

theorem dlistDeleteEl_relinks (h : DChain s.next s.prev none (s.list i) xs) (hx : x ∈ xs) :
    ∃ s', dlistDeleteEl (ClistHeap.listOf i) ClistHeap.prevOf ClistHeap.nextOf x s =
      .ok ((), s') ∧ dlistLinking.Relinks i xs (xs.erase x) s s' := by
  obtain ⟨as, bs, rfl⟩ := List.append_of_mem hx
  have hnot : x ∉ as := fun hmem =>
    (List.nodup_append.mp h.toChain.nodup).2.2 x hmem x List.mem_cons_self rfl
  rw [List.erase_append_right _ hnot, List.erase_cons_head]
  rcases List.eq_nil_or_concat' as with rfl | ⟨cs, p, rfl⟩
  · have hfirst : (ClistHeap.listOf i).get s = some x := h.1
    refine ⟨s.unlinkHead i x, ?_, ClistHeap.unlinkHead_relinks h⟩
    rw [dlistDeleteEl, bind_read, if_neg (not_not_intro hfirst)]
    exact dlistDeleteHead_unlinkHead h
  · have hfirst : s.list i ≠ some x := by
      rw [h.toChain.head, List.head?_append_of_ne_nil _ (List.concat_ne_nil p cs)]
      exact fun heq => hnot (List.mem_of_head? heq)
    have hne : x ≠ p := fun heq => hnot (heq ▸ List.mem_append_right cs List.mem_cons_self)
    rw [List.append_assoc] at h
    rw [List.append_assoc, List.append_assoc]
    exact ⟨s.unlinkBehind p x, dlistDeleteEl_unlinkBehind hfirst h.tail.2.1 hne,
      ClistHeap.unlinkBehind_relinks h⟩

/-! ### Sequences of operations -/

theorem DlistOp.does {N : P → Prop} {lists : I → List P} {op : DlistOp I P}
    (h : dlistLinking.Holds N s lists) (hop : op.Allowed lists) :
    ∃ s', dlistLinking.Does dlistOps (fun _ => op.run) lists op s s' := by
  cases op with
  | pushHead i el =>
    exact ⟨s.linkHead i el, .of_all fun _ => dlistPushHead_linkHead i el s,
      ClistHeap.linkHead_relinks (h.onList i) (hop i)⟩
  | deleteHead i head =>
    obtain ⟨xs, hxs⟩ := List.head?_eq_some_iff.mp hop
    have hchain : DChain s.next s.prev none (s.list i) (head :: xs) := hxs ▸ h.onList i
    refine ⟨s.unlinkHead i head, .of_all fun _ => dlistDeleteHead_unlinkHead hchain, ?_⟩
    change dlistLinking.Relinks i (lists i) (lists i).tail s _
    rw [hxs]
    exact ClistHeap.unlinkHead_relinks hchain
  | deleteEl i el =>
    obtain ⟨s', hrun, hrelinks⟩ := dlistDeleteEl_relinks (h.onList i) hop
    exact ⟨s', .of_all fun _ => hrun, hrelinks⟩

/-- Over a heap of nodes, every sequence of operations on doubly linked lists ends with the lists
of the same operations on sequences, linked in both directions, and leaves no link in a node that
has been taken off. -/
theorem dlistOps_refine {N : P → Prop} {lists : I → List P} {ops : List (DlistOp I P)}
    (h : dlistLinking.Holds N s lists) (hops : dlistOps.AllowedAll lists ops) :
    ∃ s', ops.mapM DlistOp.run s = .ok (dlistOps.answers lists ops, s') ∧
      dlistLinking.Holds N s' (ops.foldl dlistOps.after lists) := by
  have hstep : ∀ (s : ClistHeap I P) lists op, dlistLinking.Holds N s lists →
      dlistOps.Allowed lists op →
      ∃ s', dlistLinking.Does dlistOps (fun _ => DlistOp.run op) lists op s s' :=
    fun _ _ _ hs hop => DlistOp.does hs hop
  obtain ⟨s', ⟨bound, hrun⟩, hholds⟩ := h.refines hstep hops
  exact ⟨s', hrun bound (Nat.le_refl bound), hholds⟩

theorem dlistOps_refine_small : ∃ s' : ClistHeap Bool Nat,
    List.mapM DlistOp.run [.pushHead true 5, .pushHead true 3, .pushHead true 7, .deleteEl true 3,
      .deleteHead true 7, .pushHead false 7] ⟨fun _ => none, fun _ => none, fun _ => none⟩ =
      .ok ([(), (), (), (), (), ()], s') ∧
    s'.list true = some 5 ∧ s'.prev 5 = none ∧ s'.next 3 = none := by
  have hstart : dlistLinking.Holds (fun _ => True)
      (⟨fun _ => none, fun _ => none, fun _ => none⟩ : ClistHeap Bool Nat) fun _ => [] :=
    ⟨fun _ => rfl, fun _ _ _ hx => (nomatch hx), fun _ _ _ => ⟨rfl, rfl⟩⟩
  have hops : dlistOps.AllowedAll (fun _ : Bool => []) [.pushHead true 5, .pushHead true 3,
      .pushHead true 7, .deleteEl true 3, .deleteHead true 7, .pushHead false 7] :=
    ⟨fun _ => List.not_mem_nil, (by decide : ∀ j, 3 ∉ _), (by decide : ∀ j, 7 ∉ _),
      (by decide : 3 ∈ _), rfl, (by decide : ∀ j, 7 ∉ _), trivial⟩
  obtain ⟨s', hrun, hholds⟩ := dlistOps_refine hstart hops
  have hchain := hholds.onList true
  exact ⟨s', hrun, hchain.1, hchain.2.1, (hholds.unlinked 3 trivial (by decide)).1⟩

end Atros
