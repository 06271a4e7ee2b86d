import Mathlib.Data.List.GetD
import Mathlib.Data.List.Lex
import Mathlib.Order.Basic
import Atros.Output
import Atros.Word

namespace Atros
set_option autoImplicit true

/-! ### `strcmp` of string.c -/

/-- A `char`, which is signed on the target. -/
def charValue (c : UInt8) : Int := c.toInt8.toInt

/-- The loop of `strcmp`, with its `i`, which is a 32-bit number, and a bound on the rounds. -/
def strcmpLoop (m : Mem) (str1 str2 : Nat) : Nat → Nat → Option Nat
  | 0, _ => none
  | rounds + 1, i =>
    if m (str1 + i) = m (str2 + i) ∧ m (str1 + i) ≠ 0 ∧ m (str2 + i) ≠ 0 then
      strcmpLoop m str1 str2 rounds (add32 i 1)
    else some i

/-- `strcmp` in an address space of 2 ^ 32 bytes. -/
def strcmp (str1 str2 : Nat) (m : Mem) : Option Int :=
  (strcmpLoop m str1 str2 (2 ^ 32) 0).map fun i =>
    charValue (m (str1 + i)) - charValue (m (str2 + i))

/-- The bytes of the string at `p`, without the zero that ends it. -/
structure StringAt (m : Mem) (p : Nat) (s : List UInt8) : Prop where
  bytes : ∀ i < s.length, m (p + i) = s.getD i 0
  stop : m (p + s.length) = 0
  nonzero : 0 ∉ s
  short : s.length < 2 ^ 32

/-- The first bytes in which two strings differ; a zero follows the last byte of each. -/
def firstDifference : List UInt8 → List UInt8 → Option (UInt8 × UInt8)
  | [], [] => none
  | [], y :: _ => some (0, y)
  | x :: _, [] => some (x, 0)
  | x :: xs, y :: ys => if x = y then firstDifference xs ys else some (x, y)

variable {m : Mem} {p q r : Nat} {a b c : List UInt8}

theorem StringAt.getD (h : StringAt m p a) (hi : i ≤ a.length) : m (p + i) = a.getD i 0 := by
  rcases Nat.lt_or_eq_of_le hi with hi | rfl
  · exact h.bytes i hi
  · rw [h.stop, List.getD_eq_default _ _ (Nat.le_refl _)]

/-- The value of `strcmp`: the difference of the first bytes that differ, as signed numbers. -/
def differenceValue : Option (UInt8 × UInt8) → Int
  | none => 0
  | some (x, y) => charValue x - charValue y

theorem charValue_eq (c : UInt8) :
    charValue c = if c.toNat < 128 then (c.toNat : Int) else (c.toNat : Int) - 256 := by
  change c.toBitVec.toInt = _
  rw [BitVec.toInt_eq_toNat_cond]
  change (if 2 * c.toNat < 2 ^ 8 then (c.toNat : Int) else (c.toNat : Int) - (2 ^ 8 : Nat)) = _
  split <;> split <;> omega

theorem charValue_inj {x y : UInt8} (h : charValue x = charValue y) : x = y := by
  have hx := x.toNat_lt
  have hy := y.toNat_lt
  rw [charValue_eq, charValue_eq] at h
  refine UInt8.toNat_inj.mp ?_
  split at h <;> split at h <;> omega

/-- Signed and unsigned bytes are in the same order when both or neither are ASCII. -/
theorem charValue_lt_iff {x y : UInt8} (hne : x ≠ y) :
    (charValue x < charValue y ↔ x < y) ↔ (x < 128 ↔ y < 128) := by
  have hx := x.toNat_lt
  have hy := y.toNat_lt
  have hne' : x.toNat ≠ y.toNat := fun heq => hne (UInt8.toNat_inj.mp heq)
  have h128 : (128 : UInt8).toNat = 128 := rfl
  rw [charValue_eq, charValue_eq, UInt8.lt_iff_toNat_lt, UInt8.lt_iff_toNat_lt,
    UInt8.lt_iff_toNat_lt, h128]
  split <;> split <;> omega

/-! ### The value that is returned -/

theorem StringAt.head (h : StringAt m p (as ++ a)) : m (p + as.length) = a.getD 0 0 := by
  rw [h.getD (by rw [List.length_append]; omega),
    List.getD_append_right _ _ _ _ (Nat.le_refl _), Nat.sub_self]

/-- The loop stops at the first difference, or at the end of equal strings. -/
theorem strcmpLoop_eq (ha : StringAt m p (as ++ a)) (hb : StringAt m q (as ++ b))
    (hr : a.length < rounds) : ∃ j, strcmpLoop m p q rounds as.length = some j ∧
      charValue (m (p + j)) - charValue (m (q + j)) = differenceValue (firstDifference a b) := by
  have hp := ha.head
  have hq := hb.head
  obtain ⟨rounds, rfl⟩ := Nat.exists_eq_succ_of_ne_zero (Nat.ne_of_gt (Nat.zero_lt_of_lt hr))
  induction a generalizing as b rounds with
  | nil =>
    have hzero : m (p + as.length) = 0 := hp
    refine ⟨as.length, ?_, ?_⟩
    · rw [strcmpLoop, if_neg fun hc => hc.2.1 hzero]
    · rw [hzero, hq]
      cases b with
      | nil => rfl
      | cons y ys => rfl
  | cons x xs ih =>
    have hx : m (p + as.length) = x := hp
    cases b with
    | nil =>
      have hzero : m (q + as.length) = 0 := hq
      refine ⟨as.length, ?_, ?_⟩
      · rw [strcmpLoop, if_neg fun hc => hc.2.2 hzero]
      · rw [hx, hzero]
        rfl
    | cons y ys =>
      have hy : m (q + as.length) = y := hq
      rw [strcmpLoop, firstDifference]
      by_cases hxy : x = y
      · subst hxy
        have hne : x ≠ 0 := fun h0 => ha.nonzero (by rw [← h0]; simp)
        have hlt := ha.short
        rw [List.length_append, List.length_cons] at hlt
        have hnext : add32 as.length 1 = (as ++ [x]).length := by
          rw [add32_of_lt (by omega), List.length_append, List.length_singleton]
        rw [if_pos ⟨by rw [hx, hy], by rwa [hx], by rwa [hy]⟩, if_pos rfl, hnext]
        rw [List.append_cons] at ha hb
        rw [List.length_cons] at hr
        have hr' : xs.length < rounds := by omega
        obtain ⟨rounds, rfl⟩ := Nat.exists_eq_succ_of_ne_zero (Nat.ne_of_gt (Nat.zero_lt_of_lt hr'))
        exact ih ha hb ha.head hb.head rounds hr'
      · refine ⟨as.length, ?_, ?_⟩
        · rw [if_neg fun hc => hxy (by rw [← hx, ← hy, hc.1])]
        · rw [hx, hy, if_neg hxy]
          rfl

theorem strcmp_eq (ha : StringAt m p a) (hb : StringAt m q b) :
    strcmp p q m = some (differenceValue (firstDifference a b)) := by
  have ha' : StringAt m p ([] ++ a) := ha
  have hb' : StringAt m q ([] ++ b) := hb
  obtain ⟨j, hj, hvalue⟩ := strcmpLoop_eq ha' hb' ha.short
  rw [strcmp]
  change (strcmpLoop m p q (2 ^ 32) 0).map _ = _
  rw [List.length_nil] at hj
  rw [hj, Option.map_some, hvalue]

/-! ### The order that it decides -/

/-- The signed bytes of a string and of the zero that ends it. -/
def signedBytes (a : List UInt8) : List Int := (a ++ [0]).map charValue

theorem firstDifference_swap (a b : List UInt8) :
    firstDifference b a = (firstDifference a b).map Prod.swap := by
  induction a generalizing b with
  | nil => cases b <;> rfl
  | cons x xs ih =>
    cases b with
    | nil => rfl
    | cons y ys =>
      rw [firstDifference, firstDifference]
      by_cases hxy : x = y
      · rw [if_pos hxy, if_pos hxy.symm, ih]
      · rw [if_neg hxy, if_neg fun h => hxy h.symm]
        rfl

theorem differenceValue_swap (a b : List UInt8) :
    differenceValue (firstDifference b a) = -differenceValue (firstDifference a b) := by
  rw [firstDifference_swap]
  cases firstDifference a b with
  | none => rfl
  | some d => exact (Int.neg_sub _ _).symm

theorem firstDifference_ne (ha : 0 ∉ a) (hb : 0 ∉ b) (h : firstDifference a b = some (x, y)) :
    x ≠ y := by
  induction a generalizing b with
  | nil =>
    cases b with
    | nil => exact nomatch h
    | cons z zs =>
      obtain ⟨rfl, rfl⟩ := Prod.mk.inj (Option.some.inj h)
      exact fun heq => hb (heq ▸ List.mem_cons_self)
  | cons w ws ih =>
    cases b with
    | nil =>
      obtain ⟨rfl, rfl⟩ := Prod.mk.inj (Option.some.inj h)
      exact fun heq => ha (heq ▸ List.mem_cons_self)
    | cons z zs =>
      rw [firstDifference] at h
      split at h
      · exact ih (fun h0 => ha (List.mem_cons_of_mem w h0))
          (fun h0 => hb (List.mem_cons_of_mem z h0)) h
      · rename_i hne
        obtain ⟨rfl, rfl⟩ := Prod.mk.inj (Option.some.inj h)
        exact hne

theorem firstDifference_eq_none_iff : firstDifference a b = none ↔ a = b := by
  induction a generalizing b with
  | nil => cases b <;> simp [firstDifference]
  | cons x xs ih =>
    cases b with
    | nil => simp [firstDifference]
    | cons y ys =>
      rw [firstDifference, List.cons.injEq]
      by_cases hxy : x = y
      · rw [if_pos hxy, ih, and_iff_right hxy]
      · rw [if_neg hxy]
        exact iff_of_false nofun fun h => hxy h.1

theorem lt_iff_firstDifference (ha : 0 ∉ a) (hb : 0 ∉ b) :
    a < b ↔ ∃ x y, firstDifference a b = some (x, y) ∧ x < y := by
  induction a generalizing b with
  | nil =>
    cases b with
    | nil => exact iff_of_false (List.not_lt_nil []) (by rintro ⟨x, y, h, -⟩; exact nomatch h)
    | cons y ys =>
      have hy : y ≠ 0 := fun h0 => hb (h0 ▸ List.mem_cons_self)
      exact iff_of_true (List.nil_lt_cons y ys) ⟨0, y, rfl, UInt8.pos_iff_ne_zero.mpr hy⟩
  | cons x xs ih =>
    cases b with
    | nil =>
      refine iff_of_false (List.not_lt_nil _) ?_
      rintro ⟨x', y', h, hlt⟩
      obtain ⟨rfl, rfl⟩ := Prod.mk.inj (Option.some.inj h)
      exact UInt8.not_lt_zero hlt
    | cons y ys =>
      rw [List.cons_lt_cons_iff, firstDifference]
      by_cases hxy : x = y
      · rw [if_pos hxy, ← ih (fun h0 => ha (List.mem_cons_of_mem x h0))
          fun h0 => hb (List.mem_cons_of_mem y h0)]
        exact ⟨fun h => (h.resolve_left (hxy ▸ UInt8.lt_irrefl x)).2, fun h => .inr ⟨hxy, h⟩⟩
      · rw [if_neg hxy]
        constructor
        · intro h
          exact ⟨x, y, rfl, h.resolve_right fun hc => hxy hc.1⟩
        · rintro ⟨x', y', h, hlt⟩
          obtain ⟨rfl, rfl⟩ := Prod.mk.inj (Option.some.inj h)
          exact .inl hlt

theorem charValue_ne_zero {x : UInt8} (h : x ≠ 0) : charValue x ≠ charValue 0 :=
  fun heq => h (charValue_inj heq)

theorem differenceValue_neg_iff (ha : 0 ∉ a) (hb : 0 ∉ b) :
    differenceValue (firstDifference a b) < 0 ↔ signedBytes a < signedBytes b := by
  have hzero : charValue 0 = 0 := rfl
  induction a generalizing b with
  | nil =>
    cases b with
    | nil => exact iff_of_false (Int.lt_irrefl 0) (List.lt_irrefl _)
    | cons y ys =>
      have hy : y ≠ 0 := fun h0 => hb (h0 ▸ List.mem_cons_self)
      have hne := charValue_ne_zero hy
      change charValue 0 - charValue y < 0 ↔ charValue 0 :: [] < charValue y :: signedBytes ys
      rw [List.cons_lt_cons_iff]
      grind
  | cons x xs ih =>
    cases b with
    | nil =>
      have hx : x ≠ 0 := fun h0 => ha (h0 ▸ List.mem_cons_self)
      have hne := charValue_ne_zero hx
      change charValue x - charValue 0 < 0 ↔ charValue x :: signedBytes xs < charValue 0 :: []
      rw [List.cons_lt_cons_iff]
      grind
    | cons y ys =>
      change _ ↔ charValue x :: signedBytes xs < charValue y :: signedBytes ys
      rw [List.cons_lt_cons_iff, firstDifference]
      by_cases hxy : x = y
      · have hrest := ih (b := ys) (fun h0 => ha (List.mem_cons_of_mem x h0))
          fun h0 => hb (List.mem_cons_of_mem y h0)
        rw [if_pos hxy, hxy]
        exact ⟨fun h => .inr ⟨rfl, hrest.mp h⟩,
          fun h => hrest.mpr (h.resolve_left (Int.lt_irrefl _)).2⟩
      · have hne : charValue x ≠ charValue y := fun heq => hxy (charValue_inj heq)
        rw [if_neg hxy]
        change charValue x - charValue y < 0 ↔ _
        grind

/-- The sign of `v` tells how the strings are ordered by their unsigned bytes. -/
structure OrdersUnsigned (v : Int) (a b : List UInt8) : Prop where
  equal : v = 0 ↔ a = b
  before : v < 0 ↔ a < b
  after : 0 < v ↔ b < a

theorem differenceValue_eq_zero_iff (ha : 0 ∉ a) (hb : 0 ∉ b) :
    differenceValue (firstDifference a b) = 0 ↔ a = b := by
  rw [← firstDifference_eq_none_iff]
  constructor
  · intro h
    cases hd : firstDifference a b with
    | none => rfl
    | some d =>
      obtain ⟨x, y⟩ := d
      rw [hd] at h
      exact absurd (charValue_inj (Int.sub_eq_zero.mp h)) (firstDifference_ne ha hb hd)
  · intro h
    rw [h]
    rfl

theorem ordersUnsigned_iff (ha : 0 ∉ a) (hb : 0 ∉ b) :
    OrdersUnsigned (differenceValue (firstDifference a b)) a b ↔
      ∀ x y, firstDifference a b = some (x, y) → (x < 128 ↔ y < 128) := by
  cases hd : firstDifference a b with
  | none =>
    obtain rfl := firstDifference_eq_none_iff.mp hd
    refine iff_of_true ⟨?_, ?_, ?_⟩ nofun
    · exact iff_of_true rfl rfl
    · exact iff_of_false (Int.lt_irrefl 0) (List.lt_irrefl a)
    · exact iff_of_false (Int.lt_irrefl 0) (List.lt_irrefl a)
  | some d =>
    obtain ⟨x, y⟩ := d
    have hne := firstDifference_ne ha hb hd
    have hlt : a < b ↔ x < y := by
      rw [lt_iff_firstDifference ha hb, hd]
      simp
    have hgt : b < a ↔ y < x := by
      rw [lt_iff_firstDifference hb ha, firstDifference_swap, hd]
      simp
    have hzero := differenceValue_eq_zero_iff ha hb
    rw [hd] at hzero
    have hsame := charValue_lt_iff hne
    have hsame' := charValue_lt_iff hne.symm
    change OrdersUnsigned (charValue x - charValue y) a b ↔ _
    constructor
    · rintro ⟨-, hbefore, -⟩ x' y' heq
      obtain ⟨rfl, rfl⟩ := Prod.mk.inj (Option.some.inj heq)
      rw [hlt] at hbefore
      refine hsame.mp ?_
      rw [← hbefore]
      omega
    · intro h
      have hside := h x y rfl
      have hbefore := hsame.mpr hside
      have hafter := hsame'.mpr hside.symm
      refine ⟨hzero, ?_, ?_⟩
      · rw [hlt, ← hbefore]
        omega
      · rw [hgt, ← hafter]
        omega

/-- `strcmp` tells the order of unsigned bytes exactly when the first bytes that differ are both
below 128 or both not; it is antisymmetric and transitive always. -/
theorem strcmp_ordersUnsigned_iff (ha : StringAt m p a) (hb : StringAt m q b) :
    ((∃ v, strcmp p q m = some v ∧ OrdersUnsigned v a b) ↔
      ∀ x y, firstDifference a b = some (x, y) → (x < 128 ↔ y < 128)) ∧
    (∃ v, strcmp p q m = some v ∧ strcmp q p m = some (-v)) ∧
    ∀ r c, StringAt m r c → ∃ u v w, strcmp p q m = some u ∧ strcmp q r m = some v ∧
      strcmp p r m = some w ∧ (u ≤ 0 → v ≤ 0 → w ≤ 0) := by
  have hpq := strcmp_eq ha hb
  refine ⟨?_, ⟨_, hpq, ?_⟩, fun r c hc => ⟨_, _, _, hpq, strcmp_eq hb hc, strcmp_eq ha hc, ?_⟩⟩
  · rw [← ordersUnsigned_iff ha.nonzero hb.nonzero]
    constructor
    · rintro ⟨v, hv, horders⟩
      rwa [Option.some.inj (hpq.symm.trans hv)]
    · exact fun horders => ⟨_, hpq, horders⟩
  · rw [strcmp_eq hb ha, differenceValue_swap]
  · have hle : ∀ a b, 0 ∉ a → 0 ∉ b → (differenceValue (firstDifference a b) ≤ 0 ↔
        ¬signedBytes b < signedBytes a) := by
      intro a b ha hb
      have hswap := differenceValue_swap a b
      rw [← differenceValue_neg_iff hb ha]
      omega
    rw [hle a b ha.nonzero hb.nonzero, hle b c hb.nonzero hc.nonzero, hle a c ha.nonzero hc.nonzero]
    exact fun hab hbc => List.not_lt.mpr (List.le_trans (List.not_lt.mp hab) (List.not_lt.mp hbc))

/-- Memory with three strings that differ in their third bytes, at 100, 200 and 300. -/
def threeStrings : Mem := fun x =>
  if x < 200 then [97, 98, 128].getD (x - 100) 0
  else if x < 300 then [97, 98, 97].getD (x - 200) 0
  else [97, 98, 99].getD (x - 300) 0

theorem threeStrings_first : StringAt threeStrings 100 [97, 98, 128] :=
  ⟨by decide, by decide, by decide, by decide⟩

theorem threeStrings_second : StringAt threeStrings 200 [97, 98, 97] :=
  ⟨by decide, by decide, by decide, by decide⟩

theorem threeStrings_third : StringAt threeStrings 300 [97, 98, 99] :=
  ⟨by decide, by decide, by decide, by decide⟩

theorem strcmp_signed : ¬∀ m p q a b, StringAt m p a → StringAt m q b →
    ∃ v, strcmp p q m = some v ∧ OrdersUnsigned v a b := by
  intro hclaim
  obtain ⟨v, hv, horders⟩ := hclaim _ _ _ _ _ threeStrings_first threeStrings_second
  rw [strcmp_eq threeStrings_first threeStrings_second] at hv
  have hbefore := horders.before
  rw [← Option.some.inj hv] at hbefore
  exact absurd (hbefore.mp (by decide)) (by decide)

theorem strcmp_ordersUnsigned_threeStrings :
    (∃ v, strcmp 200 300 threeStrings = some v ∧ OrdersUnsigned v [97, 98, 97] [97, 98, 99]) ∧
    ∃ u v w, strcmp 100 200 threeStrings = some u ∧ strcmp 200 300 threeStrings = some v ∧
      strcmp 100 300 threeStrings = some w ∧ (u ≤ 0 → v ≤ 0 → w ≤ 0) := by
  refine ⟨(strcmp_ordersUnsigned_iff threeStrings_second threeStrings_third).1.mpr ?_,
    (strcmp_ordersUnsigned_iff threeStrings_first threeStrings_second).2.2 300 _
      threeStrings_third⟩
  rintro _ _ ⟨⟩
  decide

end Atros
