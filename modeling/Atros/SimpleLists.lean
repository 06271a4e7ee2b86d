import Atros.Chain
import Atros.ListMacros

namespace Atros
set_option autoImplicit true

/-! ### Lists whose nodes have a `next` field -/

variable {σ P : Type}

/-- Reads and writes of a list head and of the `next` fields do not interfere. -/
structure SimplePlaces (list : Place σ (Option P)) (next : P → Place σ (Option P)) : Prop where
  list_list : ∀ v s, list.get (list.set v s) = v
  list_next : ∀ a v s, list.get ((next a).set v s) = list.get s
  next_list : ∀ a v s, (next a).get (list.set v s) = (next a).get s
  next_self : ∀ a v s, (next a).get ((next a).set v s) = v
  next_other : ∀ a b v s, a ≠ b → (next a).get ((next b).set v s) = (next a).get s

variable {list : Place σ (Option P)} {next : P → Place σ (Option P)} {s : σ}
  {el : P}

/-- The list that `list` leads through has the nodes `xs` and ends in a null pointer. -/
def NullTerminated (list : Place σ (Option P)) (next : P → Place σ (Option P)) (s : σ)
    (xs : List P) : Prop :=
  Chain (fun a => (next a).get s) (list.get s) xs

theorem listPushHead_ok (list : Place σ (Option P)) (next : P → Place σ (Option P)) (el : P)
    (s : σ) : listPushHead list next el s =
      .ok ((), list.set (some el) ((next el).set (list.get s) s)) := by
  simp only [listPushHead, bind_read, bind_write, Place.write_ok]

theorem SimplePlaces.pushHead (L : SimplePlaces list next) (h : NullTerminated list next s xs)
    (hel : el ∉ xs) :
    NullTerminated list next (list.set (some el) ((next el).set (list.get s) s)) (el :: xs) := by
  refine ⟨L.list_list .., ?_⟩
  beta_reduce
  rw [L.next_list, L.next_self]
  refine h.congr fun x hx => ?_
  rw [L.next_list, L.next_other]
  exact fun heq => hel (heq ▸ hx)

theorem SimplePlaces.insertAfter (L : SimplePlaces list next)
    (h : NullTerminated list next s (as ++ p :: bs)) (hel : el ∉ as ++ p :: bs) :
    ∃ s', listInsertAfter list next (some p) el s = .ok ((), s') ∧
      NullTerminated list next s' (as ++ p :: el :: bs) := by
  have hne : ∀ x ∈ as ++ p :: bs, x ≠ el := fun x hx heq => hel (heq ▸ hx)
  have hnd := h.nodup
  rw [List.nodup_append, List.nodup_cons] at hnd
  obtain ⟨-, ⟨hpbs, -⟩, hapart⟩ := hnd
  have hpel : p ≠ el := hne p (List.mem_append_right _ List.mem_cons_self)
  refine ⟨(next p).set (some el) ((next el).set ((next p).get s) s), ?_, ?_⟩
  · simp only [listInsertAfter, bind_read, bind_write, Place.write_ok]
  · unfold NullTerminated
    rw [L.list_next, L.list_next]
    refine h.relink (fun y hy => ?_) ⟨L.next_self .., ?_⟩
    · rw [L.next_other _ _ _ _ (hapart y hy p List.mem_cons_self),
        L.next_other _ _ _ _ (hne y (List.mem_append_left _ hy))]
    · beta_reduce
      rw [L.next_other _ _ _ _ hpel.symm, L.next_self]
      refine h.tail.congr fun y hy => ?_
      have hyp : y ≠ p := fun heq => hpbs (heq ▸ hy)
      rw [L.next_other _ _ _ _ hyp,
        L.next_other _ _ _ _ (hne y (List.mem_append_right _ (List.mem_cons_of_mem p hy)))]

/-! ### The first node -/

theorem listPopHead_last (h : list.get s = some p) (hn : (next p).get s = none) :
    listPopHead list next s = .ok (some p, list.set none s) := by
  simp only [listPopHead, listDeleteHead, bind_read, h, bind_follow, hn, if_true, bind_assoc,
    bind_write]
  rfl

theorem listPopHead_more (h : list.get s = some p) (hn : (next p).get s = some q) :
    listPopHead list next s = .ok (some p, (next p).set none (list.set (some q) s)) := by
  simp only [listPopHead, listDeleteHead, bind_read, h, bind_follow, hn, reduceCtorEq, if_false,
    bind_assoc, bind_write]
  rfl

theorem listLengthLoop_ok {cur : Option P} (h : Chain (fun a => (next a).get s) cur xs)
    (hr : xs.length < rounds) (n : Nat) :
    listLengthLoop next rounds n cur s = .ok (n + xs.length, s) := by
  induction xs generalizing cur n rounds with
  | nil =>
    obtain ⟨rounds, rfl⟩ := Nat.exists_eq_succ_of_ne_zero (Nat.ne_of_gt hr)
    cases h
    rfl
  | cons x xs ih =>
    obtain ⟨rounds, rfl⟩ := Nat.exists_eq_succ_of_ne_zero (Nat.ne_of_gt (Nat.zero_lt_of_lt hr))
    obtain ⟨rfl, htail⟩ := h
    rw [List.length_cons] at hr ⊢
    rw [listLengthLoop, bind_read, ih htail (by omega)]
    congr 2
    omega

theorem listLength_ok (h : NullTerminated list next s xs) (hr : xs.length < rounds) :
    listLength list next rounds s = .ok (xs.length, s) := by
  rw [listLength, bind_read, listLengthLoop_ok h hr, Nat.zero_add]

end Atros
