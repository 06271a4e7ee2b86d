import Mathlib.Algebra.Group.Nat.Defs
import Mathlib.Data.List.Nodup
import Mathlib.Tactic.Common

namespace Atros
set_option autoImplicit true

/-- The successor and predecessor pointers of a set of nodes. -/
structure Links (P : Type) where
  next : P → Option P
  prev : P → Option P

variable {P : Type} {l l' : Links P}

/-- `b` follows `a`. -/
def Links.Linked (l : Links P) (a b : P) : Prop := l.next a = some b ∧ l.prev b = some a

/-- The nodes `xs` lead from `a` to `b`. -/
def Links.Path (l : Links P) : P → List P → P → Prop
  | a, [], b => l.Linked a b
  | a, x :: xs, b => l.Linked a x ∧ l.Path x xs b

theorem Links.Path.append :
    l.Path a (xs ++ y :: ys) b ↔ l.Path a xs y ∧ l.Path y ys b := by
  induction xs generalizing a with
  | nil => rfl
  | cons x xs ih =>
    rw [List.cons_append, Path, ih, Path, and_assoc]

theorem Links.Path.transport (h : l.Path a xs b)
    (hnext : ∀ x ∈ a :: xs, l'.next x = l.next x)
    (hprev : ∀ x ∈ xs ++ [b], l'.prev x = l.prev x) : l'.Path a xs b := by
  induction xs generalizing a with
  | nil =>
    exact ⟨by rw [hnext a List.mem_cons_self, h.1], by rw [hprev b List.mem_cons_self, h.2]⟩
  | cons x xs ih =>
    refine ⟨⟨?_, ?_⟩, ih h.2 ?_ ?_⟩
    · rw [hnext a List.mem_cons_self, h.1.1]
    · rw [hprev x List.mem_cons_self, h.1.2]
    · exact fun y hy => hnext y (List.mem_cons_of_mem a hy)
    · exact fun y hy => hprev y (List.mem_cons_of_mem x hy)

theorem Links.Path.prev_end (h : l.Path a xs b) :
    l.prev b = some ((a :: xs).getLast (List.cons_ne_nil a xs)) := by
  induction xs generalizing a with
  | nil => exact h.2
  | cons x xs ih => exact ih h.2

theorem Links.Path.redirect (h : l.Path a xs b) (hnd : (a :: xs).Nodup)
    (hq : q = (a :: xs).getLast (List.cons_ne_nil a xs))
    (hnext : ∀ x ∈ a :: xs, x ≠ q → l'.next x = l.next x)
    (hprev : ∀ x ∈ xs, l'.prev x = l.prev x) (hlink : l'.Linked q c) : l'.Path a xs c := by
  induction xs generalizing a with
  | nil =>
    subst hq
    exact hlink
  | cons x xs ih =>
    have hne : a ≠ q := by
      rintro rfl
      rw [List.getLast_cons_cons] at hq
      exact (List.nodup_cons.mp hnd).1 (hq ▸ List.getLast_mem (List.cons_ne_nil x xs))
    refine ⟨⟨?_, ?_⟩, ih h.2 hnd.of_cons hq ?_ ?_⟩
    · rw [hnext a List.mem_cons_self hne, h.1.1]
    · rw [hprev x List.mem_cons_self, h.1.2]
    · exact fun y hy => hnext y (List.mem_cons_of_mem a hy)
    · exact fun y hy => hprev y (List.mem_cons_of_mem x hy)

theorem Links.Path.next_mem (h : l.Path a xs b) (hx : x ∈ a :: xs) :
    ∃ y ∈ xs ++ [b], l.next x = some y ∧ l.prev y = some x := by
  induction xs generalizing a with
  | nil =>
    rw [List.mem_singleton.mp hx]
    exact ⟨b, List.mem_cons_self, h.1, h.2⟩
  | cons y ys ih =>
    rcases List.mem_cons.mp hx with rfl | hx
    · exact ⟨y, List.mem_cons_self, h.1.1, h.1.2⟩
    · obtain ⟨z, hz, hlink⟩ := ih h.2 hx
      exact ⟨z, List.mem_cons_of_mem _ hz, hlink⟩

theorem Links.Path.prev_mem (h : l.Path a xs b) (hx : x ∈ xs ++ [b]) :
    ∃ y ∈ a :: xs, l.prev x = some y ∧ l.next y = some x := by
  induction xs generalizing a with
  | nil =>
    rw [List.mem_singleton.mp hx]
    exact ⟨a, List.mem_cons_self, h.2, h.1⟩
  | cons y ys ih =>
    rcases List.mem_cons.mp hx with rfl | hx
    · exact ⟨a, List.mem_cons_self, h.1.2, h.1.1⟩
    · obtain ⟨z, hz, hlink⟩ := ih h.2 hx
      exact ⟨z, List.mem_cons_of_mem _ hz, hlink⟩

/-- A circular list: `list` points to the first of the nodes `xs`, and the last one leads back
to the first. -/
structure Links.Ring (l : Links P) (list : Option P) (xs : List P) : Prop where
  nodup : xs.Nodup
  head : list = xs.head?
  path : ∀ a as, xs = a :: as → l.Path a as a

theorem Links.Ring.nil (l : Links P) : l.Ring none [] :=
  ⟨.nil, rfl, fun _ _ h => nomatch h⟩

theorem Links.Ring.cons_iff : l.Ring (some a) (b :: bs) ↔
    a = b ∧ (b :: bs).Nodup ∧ l.Path b bs b := by
  constructor
  · intro h
    exact ⟨Option.some.inj h.head, h.nodup, h.path b bs rfl⟩
  · rintro ⟨rfl, hnd, hp⟩
    refine ⟨hnd, rfl, ?_⟩
    intro a as heq
    cases heq
    exact hp

theorem Links.Ring.eq_nil (h : l.Ring none xs) : xs = [] := by
  cases xs with
  | nil => rfl
  | cons x xs => exact nomatch h.head

theorem Links.Ring.eq_none (h : l.Ring list []) : list = none := h.head

theorem Links.Ring.eq_cons (h : l.Ring (some a) xs) : ∃ as, xs = a :: as := by
  cases xs with
  | nil => exact nomatch h.head
  | cons x xs => exact ⟨xs, by rw [Option.some.inj h.head]⟩

theorem Links.Ring.singleton (hnext : l.next a = some a) (hprev : l.prev a = some a) :
    l.Ring (some a) [a] :=
  cons_iff.mpr ⟨rfl, List.nodup_singleton a, hnext, hprev⟩

theorem Links.Ring.eq_singleton (h : l.Ring (some a) xs) (hself : l.next a = some a) :
    xs = [a] := by
  obtain ⟨as, rfl⟩ := h.eq_cons
  cases as with
  | nil => rfl
  | cons b bs =>
    have hlink := (h.path a (b :: bs) rfl).1.1
    have hab : a = b := Option.some.inj (hself.symm.trans hlink)
    exact absurd (hab ▸ List.mem_cons_self) (List.nodup_cons.mp h.nodup).1

theorem Links.Ring.transport (h : l.Ring list xs)
    (hnext : ∀ x ∈ xs, l'.next x = l.next x) (hprev : ∀ x ∈ xs, l'.prev x = l.prev x) :
    l'.Ring list xs := by
  refine ⟨h.nodup, h.head, ?_⟩
  rintro a as rfl
  refine (h.path a as rfl).transport hnext ?_
  intro x hx
  refine hprev x ?_
  rcases List.mem_append.mp hx with hx | hx
  · exact List.mem_cons_of_mem a hx
  · rw [List.mem_singleton.mp hx]
    exact List.mem_cons_self

theorem Links.Ring.next_mem (h : l.Ring list xs) (hx : x ∈ xs) :
    ∃ y ∈ xs, l.next x = some y ∧ l.prev y = some x := by
  cases xs with
  | nil => cases hx
  | cons a as =>
    obtain ⟨y, hy, hlink⟩ := (h.path a as rfl).next_mem hx
    refine ⟨y, ?_, hlink⟩
    rcases List.mem_append.mp hy with hy | hy
    · exact List.mem_cons_of_mem a hy
    · rw [List.mem_singleton.mp hy]
      exact List.mem_cons_self

theorem Links.Ring.prev_mem (h : l.Ring list xs) (hx : x ∈ xs) :
    ∃ y ∈ xs, l.prev x = some y ∧ l.next y = some x := by
  cases xs with
  | nil => cases hx
  | cons a as =>
    have hx' : x ∈ as ++ [a] := by
      rcases List.mem_cons.mp hx with rfl | hx
      · exact List.mem_append_right _ List.mem_cons_self
      · exact List.mem_append_left _ hx
    exact (h.path a as rfl).prev_mem hx'

theorem Links.Ring.rotate (h : l.Ring list (as ++ b :: bs)) :
    l.Ring (some b) (b :: bs ++ as) := by
  have hperm : (b :: bs ++ as).Nodup := (List.perm_append_comm.nodup_iff).mp h.nodup
  cases as with
  | nil =>
    rw [List.append_nil]
    exact cons_iff.mpr ⟨rfl, h.nodup, h.path b bs rfl⟩
  | cons a as =>
    have hp := h.path a (as ++ b :: bs) rfl
    rw [Path.append] at hp
    refine cons_iff.mpr ⟨rfl, hperm, ?_⟩
    exact Path.append.mpr ⟨hp.2, hp.1⟩

theorem Links.Ring.push (h : l.Ring (some a) (a :: as)) (hx : x ∉ a :: as)
    (hq : l.prev a = some q)
    (hnext : ∀ y ∈ a :: as, y ≠ q → l'.next y = l.next y)
    (hprev : ∀ y ∈ a :: as, y ≠ a → l'.prev y = l.prev y)
    (hlast : l'.Linked q x) (hfirst : l'.Linked x a) :
    l'.Ring (some a) (a :: as ++ [x]) := by
  have hp := h.path a as rfl
  have hqlast : q = (a :: as).getLast (List.cons_ne_nil a as) :=
    Option.some.inj (hq.symm.trans hp.prev_end)
  refine cons_iff.mpr ⟨rfl, ?_, ?_⟩
  · exact List.Nodup.append h.nodup (List.nodup_singleton x)
      (List.disjoint_singleton.mpr hx)
  · refine Path.append.mpr ⟨hp.redirect h.nodup hqlast hnext ?_ hlast, hfirst⟩
    intro y hy
    refine hprev y (List.mem_cons_of_mem a hy) ?_
    rintro rfl
    exact (List.nodup_cons.mp h.nodup).1 hy

theorem Links.Ring.pop (h : l.Ring list (a :: b :: bs)) (hp : l.prev a = some p)
    (hnext : ∀ y ∈ b :: bs, y ≠ p → l'.next y = l.next y)
    (hprev : ∀ y ∈ b :: bs, y ≠ b → l'.prev y = l.prev y) (hlink : l'.Linked p b) :
    l'.Ring (some b) (b :: bs) := by
  have hpath := h.path a (b :: bs) rfl
  have hlast : p = (b :: bs).getLast (List.cons_ne_nil b bs) :=
    Option.some.inj (hp.symm.trans hpath.prev_end)
  refine cons_iff.mpr ⟨rfl, h.nodup.of_cons, ?_⟩
  refine hpath.2.redirect h.nodup.of_cons hlast hnext ?_ hlink
  intro y hy
  refine hprev y (List.mem_cons_of_mem b hy) ?_
  rintro rfl
  exact (List.nodup_cons.mp h.nodup.of_cons).1 hy

/-- Linking the neighbours of any node with each other removes it. -/
theorem Links.Ring.remove (h : l.Ring list (as ++ x :: bs)) (hne : as ++ bs ≠ [])
    (hp : l.prev x = some p) (hn : l.next x = some n)
    (hnext : ∀ y ∈ as ++ bs, y ≠ p → l'.next y = l.next y)
    (hprev : ∀ y ∈ as ++ bs, y ≠ n → l'.prev y = l.prev y) (hlink : l'.Linked p n) :
    l'.Ring (as ++ bs).head? (as ++ bs) := by
  have hrot := h.rotate
  have hmem : ∀ y, y ∈ bs ++ as → y ∈ as ++ bs := fun y hy => List.perm_append_comm.mem_iff.mp hy
  cases hbs : bs ++ as with
  | nil => exact absurd (List.append_eq_nil_iff.mp hbs) (fun h => hne (by rw [h.1, h.2]; rfl))
  | cons b cs =>
    rw [List.cons_append, hbs] at hrot
    have hbn : b = n := by
      have hlink := (hrot.path x (b :: cs) rfl).1.1
      exact Option.some.inj (hlink.symm.trans hn)
    subst hbn
    have hring : l'.Ring (some b) (bs ++ as) := by
      rw [hbs]
      refine hrot.pop hp ?_ ?_ hlink
      · exact fun y hy => hnext y (hmem y (hbs ▸ hy))
      · exact fun y hy => hprev y (hmem y (hbs ▸ hy))
    cases as with
    | nil =>
      rw [List.append_nil] at hring
      rw [List.nil_append, ← hring.head]
      exact hring
    | cons a as => exact hring.rotate

/-- The nodes reached from the head of a circular list along either kind of pointer. -/
inductive Links.Reach (l : Links P) (list : Option P) : P → Prop
  | head : list = some a → l.Reach list a
  | next : l.Reach list a → l.next a = some b → l.Reach list b
  | prev : l.Reach list a → l.prev a = some b → l.Reach list b

theorem Links.Ring.reach (h : l.Ring list xs) (hx : l.Reach list x) : x ∈ xs := by
  induction hx with
  | head heq => exact List.mem_of_mem_head? (h.head ▸ heq)
  | next _ heq ih =>
    obtain ⟨y, hy, hlink⟩ := h.next_mem ih
    rwa [Option.some.inj (heq.symm.trans hlink.1)]
  | prev _ heq ih =>
    obtain ⟨y, hy, hlink⟩ := h.prev_mem ih
    rwa [Option.some.inj (heq.symm.trans hlink.1)]

theorem Links.Path.reach (h : l.Path a xs b) (ha : l.Reach list a) (hx : x ∈ xs) :
    l.Reach list x := by
  induction xs generalizing a with
  | nil => cases hx
  | cons y ys ih =>
    have hy := Reach.next ha h.1.1
    rcases List.mem_cons.mp hx with rfl | hx
    · exact hy
    · exact ih h.2 hy hx

theorem Links.Ring.mem_iff_reach (h : l.Ring list xs) : x ∈ xs ↔ l.Reach list x := by
  constructor
  · intro hx
    cases xs with
    | nil => cases hx
    | cons a as =>
      rcases List.mem_cons.mp hx with rfl | hx
      · exact .head h.head
      · exact (h.path a as rfl).reach (.head h.head) hx
  · exact h.reach

end Atros
