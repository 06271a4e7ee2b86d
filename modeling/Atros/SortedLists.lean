import Mathlib.Data.List.Basic
import Mathlib.Tactic.Common

namespace Atros
set_option autoImplicit true

/-! ### Lists sorted by a comparison -/

variable {P : Type} {cmp : P → P → Int} {x : P} {xs as : List P}

/-- The sign of `cmp a b` tells how `a` stands to `b` in a total preorder. -/
structure TotalPreorder (cmp : P → P → Int) : Prop where
  swap : ∀ a b, 0 < cmp a b ↔ cmp b a < 0
  trans : ∀ a b c, cmp a b ≤ 0 → cmp b c ≤ 0 → cmp a c ≤ 0

/-- Each element is followed by elements that do not compare smaller only. -/
def SortedBy (cmp : P → P → Int) (xs : List P) : Prop := xs.Pairwise fun a b => ¬cmp b a < 0

theorem TotalPreorder.not_lt_iff (h : TotalPreorder cmp) : ¬cmp b a < 0 ↔ cmp a b ≤ 0 := by
  rw [← h.swap, Int.not_lt]

theorem TotalPreorder.not_lt_trans (h : TotalPreorder cmp) (hba : ¬cmp b a < 0)
    (hcb : ¬cmp c b < 0) : ¬cmp c a < 0 :=
  h.not_lt_iff.mpr (h.trans a b c (h.not_lt_iff.mp hba) (h.not_lt_iff.mp hcb))

/-- A list with an element not smaller than `x` falls into the part before the first such element
and the part from it on. -/
theorem exists_first_not_smaller (h : ∃ y ∈ xs, cmp x y ≤ 0) :
    ∃ as b bs, xs = as ++ b :: bs ∧ (∀ a ∈ as, 0 < cmp x a) ∧ cmp x b ≤ 0 := by
  induction xs with
  | nil =>
    obtain ⟨y, hy, -⟩ := h
    cases hy
  | cons z zs ih =>
    by_cases hz : cmp x z ≤ 0
    · exact ⟨[], z, zs, rfl, fun _ ha => (nomatch ha), hz⟩
    · have htail : ∃ y ∈ zs, cmp x y ≤ 0 := by
        obtain ⟨y, hy, hle⟩ := h
        rcases List.mem_cons.mp hy with rfl | hy
        · exact absurd hle hz
        · exact ⟨y, hy, hle⟩
      obtain ⟨as, b, bs, rfl, has, hb⟩ := ih htail
      refine ⟨z :: as, b, bs, rfl, fun a ha => ?_, hb⟩
      rcases List.mem_cons.mp ha with rfl | ha
      · exact Int.not_le.mp hz
      · exact has a ha

/-- `x` before the first element that is not smaller. -/
def insertBefore (cmp : P → P → Int) (x : P) (xs : List P) : List P :=
  xs.takeWhile (fun y => 0 < cmp x y) ++ x :: xs.dropWhile fun y => 0 < cmp x y

theorem insertBefore_head (hb : cmp x b ≤ 0) (bs : List P) :
    insertBefore cmp x (b :: bs) = x :: b :: bs := by
  have hnot : ¬0 < cmp x b := Int.not_lt.mpr hb
  simp only [insertBefore, List.takeWhile_cons, List.dropWhile_cons, hnot, decide_false,
    Bool.false_eq_true, if_false, List.nil_append]

theorem insertBefore_cons (ha : 0 < cmp x a) (xs : List P) :
    insertBefore cmp x (a :: xs) = a :: insertBefore cmp x xs := by
  simp only [insertBefore, List.takeWhile_cons, List.dropWhile_cons, ha, decide_true, if_true,
    List.cons_append]

theorem insertBefore_append (has : ∀ a ∈ as, 0 < cmp x a) (hb : cmp x b ≤ 0) (bs : List P) :
    insertBefore cmp x (as ++ b :: bs) = as ++ x :: b :: bs := by
  induction as with
  | nil => exact insertBefore_head hb bs
  | cons a as ih =>
    rw [List.cons_append, insertBefore_cons (has a List.mem_cons_self),
      ih fun c hc => has c (List.mem_cons_of_mem a hc), List.cons_append]

theorem insertBefore_of_smaller (hxs : ∀ y ∈ xs, 0 < cmp x y) :
    insertBefore cmp x xs = xs ++ [x] := by
  induction xs with
  | nil => rfl
  | cons y ys ih =>
    rw [insertBefore_cons (hxs y List.mem_cons_self),
      ih fun z hz => hxs z (List.mem_cons_of_mem y hz), List.cons_append]

theorem mem_insertBefore : y ∈ insertBefore cmp x xs ↔ y = x ∨ y ∈ xs := by
  rw [insertBefore, List.mem_append, List.mem_cons, or_left_comm, ← List.mem_append,
    List.takeWhile_append_dropWhile]

theorem SortedBy.insert (h : TotalPreorder cmp) (hs : SortedBy cmp xs) (x : P) :
    SortedBy cmp (insertBefore cmp x xs) := by
  have hsmaller : ∀ a, 0 < cmp x a → ¬cmp x a < 0 := fun a ha => by omega
  by_cases hxs : ∃ y ∈ xs, cmp x y ≤ 0
  · obtain ⟨as, b, bs, rfl, has, hb⟩ := exists_first_not_smaller hxs
    rw [insertBefore_append has hb]
    obtain ⟨hsas, hsbs, hacross⟩ := List.pairwise_append.mp hs
    have hxb : ¬cmp b x < 0 := h.not_lt_iff.mpr hb
    refine List.pairwise_append.mpr ⟨hsas, List.pairwise_cons.mpr ⟨?_, hsbs⟩, ?_⟩
    · intro y hy
      rcases List.mem_cons.mp hy with rfl | hy
      · exact hxb
      · exact h.not_lt_trans hxb ((List.pairwise_cons.mp hsbs).1 y hy)
    · intro a ha y hy
      rcases List.mem_cons.mp hy with rfl | hy
      · exact hsmaller a (has a ha)
      · exact hacross a ha y hy
  · have hall : ∀ y ∈ xs, 0 < cmp x y :=
      fun y hy => Int.not_le.mp fun hle => hxs ⟨y, hy, hle⟩
    rw [insertBefore_of_smaller hall]
    refine List.pairwise_append.mpr ⟨hs, List.pairwise_singleton _ x, fun a ha y hy => ?_⟩
    rw [List.mem_singleton.mp hy]
    exact hsmaller a (hall a ha)

theorem SortedBy.all_smaller (h : TotalPreorder cmp) (hs : SortedBy cmp xs)
    (hlast : ∀ y ∈ xs.getLast?, 0 < cmp x y) : ∀ y ∈ xs, 0 < cmp x y := by
  intro y hy
  obtain ⟨ys, z, rfl⟩ := (List.eq_nil_or_concat' xs).resolve_left (List.ne_nil_of_mem hy)
  have hz : 0 < cmp x z := hlast z (by rw [List.getLast?_concat]; rfl)
  rcases List.mem_append.mp hy with hy | hy
  · have hyz : cmp y z ≤ 0 := h.not_lt_iff.mp
      ((List.pairwise_append.mp hs).2.2 y hy z List.mem_cons_self)
    by_contra hxy
    exact absurd (h.trans x y z (Int.not_lt.mp hxy) hyz) (Int.not_le.mpr hz)
  · rw [List.mem_singleton.mp hy]
    exact hz

end Atros
