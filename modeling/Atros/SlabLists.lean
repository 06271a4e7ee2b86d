import Atros.Chain
import Atros.Footprint

namespace Atros
set_option autoImplicit true

variable {H H' H₁ : Heap} {t : View} {L : SlabStatus → List Nat} {X Y : Nat → Prop}

/-- The lists of slabs of the cache `c`, one for each status. -/
structure Heap.Lists (H : Heap) (c : Nat) (L : SlabStatus → List Nat) : Prop where
  cache : H.struct c = some .cache
  slab : ∀ st, ∀ s ∈ L st, H.struct s = some .slab
  chain : ∀ st, DChain (H.ptr .slabNext) (H.ptr .slabPrev) none (H.ptr (.statusList st) c) (L st)
  apart : ∀ st st' s, s ∈ L st → s ∈ L st' → st = st'

/-- The pointers that an operation on the lists of `c` stores to. -/
def listTouch (c : Nat) (X : Nat → Prop) : PointerField → Nat → Prop
  | .slabPrev, a => X a
  | .slabNext, a => X a
  | .statusList _, a => a = c
  | _, _ => False

/-- Only the lists of slabs of `c` have changed, whose nodes are in `X`. -/
structure Heap.Relinked (c : Nat) (X : Nat → Prop) (H H' : Heap) : Prop where
  word : H'.word = H.word
  struct : H'.struct = H.struct
  slot : H'.slot = H.slot
  ptr : ∀ f a, ¬listTouch c X f a → H'.ptr f a = H.ptr f a

theorem Heap.Relinked.refl (c : Nat) (X : Nat → Prop) (H : Heap) : H.Relinked c X H :=
  ⟨rfl, rfl, rfl, fun _ _ _ => rfl⟩

theorem Heap.Relinked.setPtr (h : Heap.Relinked c X H H') (hf : listTouch c X f a)
    (v : Option Nat) : H.Relinked c X (H'.setPtr f a v) := by
  refine ⟨h.word, h.struct, h.slot, ?_⟩
  intro g b hg
  rw [← h.ptr g b hg]
  refine if_neg ?_
  rintro ⟨rfl, rfl⟩
  exact hg hf

theorem Heap.Relinked.trans (h : Heap.Relinked c X H H₁) (h' : Heap.Relinked c X H₁ H') :
    H.Relinked c X H' := by
  refine ⟨h'.word.trans h.word, h'.struct.trans h.struct, h'.slot.trans h.slot, ?_⟩
  intro f a hf
  rw [h'.ptr f a hf, h.ptr f a hf]

theorem Heap.Relinked.weaken (h : Heap.Relinked c X H H') (hXY : ∀ a, X a → Y a) :
    H.Relinked c Y H' := by
  refine ⟨h.word, h.struct, h.slot, fun f a hf => h.ptr f a (mt ?_ hf)⟩
  intro ht
  cases f <;> first | exact hXY a ht | exact ht

theorem Heap.Lists.nodup (h : H.Lists c L) (st : SlabStatus) : (L st).Nodup :=
  (h.chain st).toChain.nodup

theorem Heap.Lists.update (h : H.Lists c L) (hr : H.Relinked c X H')
    (hs : ∀ s ∈ xs, H.struct s = some .slab)
    (hother : ∀ st' ≠ st, (∀ s ∈ L st', ¬X s) ∧ H'.ptr (.statusList st') c =
    H.ptr (.statusList st') c)
    (hchain : DChain (H'.ptr .slabNext) (H'.ptr .slabPrev) none (H'.ptr (.statusList st) c) xs)
    (hnew : ∀ st' ≠ st, ∀ s ∈ xs, s ∉ L st') : H'.Lists c (Function.update L st xs) := by
  refine ⟨by rw [hr.struct, h.cache], ?_, ?_, ?_⟩
  · intro st' s hmem
    rw [hr.struct]
    by_cases hst : st' = st
    · subst hst
      rw [Function.update_self] at hmem
      exact hs s hmem
    · rw [Function.update_of_ne hst] at hmem
      exact h.slab st' s hmem
  · intro st'
    by_cases hst : st' = st
    · subst hst
      rw [Function.update_self]
      exact hchain
    · obtain ⟨hoff, hhead⟩ := hother st' hst
      rw [Function.update_of_ne hst, hhead]
      exact (h.chain st').congr (fun x hx => hr.ptr _ x (hoff x hx))
        fun x hx => hr.ptr _ x (hoff x hx)
  · intro st₁ st₂ s h₁ h₂
    by_cases hst₁ : st₁ = st
    · by_cases hst₂ : st₂ = st
      · rw [hst₁, hst₂]
      · subst hst₁
        rw [Function.update_self] at h₁
        rw [Function.update_of_ne hst₂] at h₂
        exact absurd h₂ (hnew st₂ hst₂ s h₁)
    · rw [Function.update_of_ne hst₁] at h₁
      by_cases hst₂ : st₂ = st
      · subst hst₂
        rw [Function.update_self] at h₂
        exact absurd h₁ (hnew st₁ hst₁ s h₂)
      · rw [Function.update_of_ne hst₂] at h₂
        exact h.apart st₁ st₂ s h₁ h₂

theorem dlistPushHead_runs (h : t.heap.Lists c L) (hs : t.heap.struct s = some .slab)
    (hnew : ∀ st', s ∉ L st') (st : SlabStatus) :
    Runs Shows E (fun _ t' => t'.rest = t.rest ∧
      t'.heap.Lists c (Function.update L st (s :: L st)) ∧
      t.heap.Relinked c (fun x => x = s ∨ x ∈ L st) t'.heap)
      (dlistPushHead (slabsOfStatus st c) slabPrevOf slabNextOf s) t := by
  refine Runs.shown fun k hk => ?_
  have hptr := hk.ptrOk (f := .statusList st) h.cache
  have hsOk := hk.addrOk hs
  have hch := h.chain st
  unfold dlistPushHead
  refine .readPtr (.statusList st) h.cache ?_
  rw [hch.toChain.head] at hptr ⊢
  cases hL : L st with
  | nil =>
    rw [hL] at hch hptr
    refine .writePtr .slabPrev hs .none ?_
    refine .readPtr (.statusList st) h.cache ?_
    have hhead : (t.setPtr .slabPrev s none).heap.ptr (.statusList st) c = none := hch
    rw [hhead]
    refine .writePtr .slabNext hs .none (.writeLast (writes_ptr (.statusList st) h.cache hsOk) ?_)
    have hr : t.heap.Relinked c (fun x => x = s ∨ x ∈ [])
        (((t.heap.setPtr .slabPrev s none).setPtr .slabNext s none).setPtr (.statusList st) c
          (some s)) :=
      (((Heap.Relinked.refl c _ t.heap).setPtr (f := .slabPrev) (.inl rfl) _).setPtr
        (f := .slabNext) (.inl rfl) _).setPtr (f := .statusList st) rfl _
    refine ⟨rfl, h.update hr ?_ ?_ ?_ ?_, hr⟩
    · intro x hx
      rw [List.mem_singleton.mp hx]
      exact hs
    · intro st' hst
      refine ⟨?_, if_neg fun hc => hst (PointerField.statusList.inj hc.1)⟩
      rintro x hx (rfl | hx')
      · exact hnew st' hx
      · cases hx'
    · exact ⟨if_pos ⟨rfl, rfl⟩, if_pos ⟨rfl, rfl⟩, if_pos ⟨rfl, rfl⟩⟩
    · intro st' hst x hx
      rw [List.mem_singleton.mp hx]
      exact hnew st'
  | cons y ys =>
    rw [hL] at hch hptr
    have hy : t.heap.struct y = some .slab := h.slab st y (by rw [hL]; exact List.mem_cons_self)
    have hsy : s ∉ y :: ys := hL ▸ hnew st
    have hne : y ≠ s := fun heq => hsy (heq ▸ List.mem_cons_self)
    refine .writePtr .slabPrev hy hsOk ?_
    refine .writePtr .slabPrev hs .none ?_
    refine .readPtr (.statusList st) h.cache ?_
    have hhead : ((t.setPtr .slabPrev y (some s)).setPtr .slabPrev s none).heap.ptr
        (.statusList st) c = some y := hch.1
    rw [hhead]
    refine .writePtr .slabNext hs hptr (.writeLast (writes_ptr (.statusList st) h.cache hsOk) ?_)
    have hr : t.heap.Relinked c (fun x => x = s ∨ x ∈ y :: ys)
        ((((t.heap.setPtr .slabPrev y (some s)).setPtr .slabPrev s none).setPtr .slabNext s
          (some y)).setPtr (.statusList st) c (some s)) :=
      ((((Heap.Relinked.refl c _ t.heap).setPtr (f := .slabPrev)
        (.inr List.mem_cons_self) _).setPtr (f := .slabPrev) (.inl rfl) _).setPtr
        (f := .slabNext) (.inl rfl) _).setPtr (f := .statusList st) rfl _
    refine ⟨rfl, h.update hr ?_ ?_ ?_ ?_, hr⟩
    · intro x hx
      rcases List.mem_cons.mp hx with rfl | hx
      · exact hs
      · exact h.slab st x (by rwa [hL])
    · intro st' hst
      refine ⟨?_, if_neg fun hc => hst (PointerField.statusList.inj hc.1)⟩
      rintro x hx (rfl | hx')
      · exact hnew st' hx
      · exact hst (h.apart st' st x hx (by rwa [hL]))
    · refine ⟨if_pos ⟨rfl, rfl⟩, if_pos ⟨rfl, rfl⟩, ?_⟩
      have hnext : ((((t.heap.setPtr .slabPrev y (some s)).setPtr .slabPrev s none).setPtr
          .slabNext s (some y)).setPtr (.statusList st) c (some s)).ptr .slabNext s = some y :=
        if_pos ⟨rfl, rfl⟩
      change DChain _ _ _ (((((t.heap.setPtr .slabPrev y (some s)).setPtr .slabPrev s none).setPtr
          .slabNext s (some y)).setPtr (.statusList st) c (some s)).ptr .slabNext s) _
      rw [hnext, ← hch.1]
      refine hch.rehead ?_ ?_ ?_
      · intro x hx
        have hxs : x ≠ s := fun heq => hsy (heq ▸ hx)
        exact if_neg fun hc => hxs hc.2
      · intro x hx hxy
        have hxs : x ≠ s := fun heq => hsy (heq ▸ hx)
        have hxy' : x ≠ y := fun heq => hxy (heq ▸ rfl)
        exact (if_neg fun hc => hxs hc.2).trans (if_neg fun hc => hxy' hc.2)
      · rintro _ ⟨rfl⟩
        exact (if_neg fun hc => hne hc.2).trans (if_pos ⟨rfl, rfl⟩)
    · intro st' hst x hx
      rcases List.mem_cons.mp hx with rfl | hx
      · exact hnew st'
      · exact fun hx' => hst (h.apart st' st x hx' (by rwa [hL]))

theorem dlistDeleteHead_runs (h : t.heap.Lists c L) (hL : L st = s :: xs) :
    Runs Shows E (fun _ t' => t'.rest = t.rest ∧
      t'.heap.Lists c (Function.update L st xs) ∧
      t.heap.Relinked c (fun x => x ∈ L st) t'.heap)
      (dlistDeleteHead (slabsOfStatus st c) slabPrevOf slabNextOf s) t := by
  refine Runs.shown fun k hk => ?_
  have hs : t.heap.struct s = some .slab := h.slab st s (hL ▸ List.mem_cons_self)
  have hch := h.chain st
  rw [hL] at hch ⊢
  obtain ⟨hhead, hprev, htail⟩ := hch
  have hnodup := List.nodup_cons.mp (hL ▸ h.nodup st)
  have hother : ∀ st' ≠ st, ∀ x ∈ L st', x ∉ s :: xs := fun st' hst x hx hx' =>
    hst (h.apart st' st x hx (hL ▸ hx'))
  unfold dlistDeleteHead
  refine .readPtr (.statusList st) h.cache ?_
  rw [hhead]
  refine .follow ?_
  refine .readPtr .slabNext hs ?_
  cases xs with
  | nil =>
    change t.heap.ptr .slabNext s = none at htail
    rw [if_pos htail]
    have hr : t.heap.Relinked c (fun x => x ∈ [s]) (t.heap.setPtr (.statusList st) c none) :=
      (Heap.Relinked.refl c _ t.heap).setPtr (f := .statusList st) rfl _
    refine .writeLast (writes_ptr (.statusList st) h.cache .none) ⟨rfl, h.update hr ?_ ?_ ?_ ?_, hr⟩
    · exact fun x hx => nomatch hx
    · exact fun st' hst => ⟨hother st' hst, if_neg fun hc => hst (PointerField.statusList.inj hc.1)⟩
    · exact if_pos ⟨rfl, rfl⟩
    · exact fun st' _ x hx => nomatch hx
  | cons y ys =>
    have hnext := htail.1
    rw [if_neg (by rw [hnext]; exact Option.some_ne_none y)]
    have hyL : y ∈ L st := hL ▸ List.mem_cons_of_mem s List.mem_cons_self
    have hy : t.heap.struct y = some .slab := h.slab st y hyL
    refine .readPtr .slabNext hs ?_
    rw [hnext]
    refine .writePtr (.statusList st) h.cache (hk.addrOk hy) ?_
    refine .readPtr (.statusList st) h.cache ?_
    rw [View.setPtr_heap, Heap.setPtr_self]
    refine .follow ?_
    refine .writePtr .slabPrev hy .none ?_
    refine .writePtr .slabPrev hs .none (.writeLast (writes_ptr .slabNext hs .none) ?_)
    have hr : t.heap.Relinked c (fun x => x ∈ s :: y :: ys)
        ((((t.heap.setPtr (.statusList st) c (some y)).setPtr .slabPrev y none).setPtr
          .slabPrev s none).setPtr .slabNext s none) :=
      ((((Heap.Relinked.refl c _ t.heap).setPtr (f := .statusList st) rfl _).setPtr
        (f := .slabPrev) (List.mem_cons_of_mem s List.mem_cons_self) _).setPtr
        (f := .slabPrev) List.mem_cons_self _).setPtr (f := .slabNext) List.mem_cons_self _
    refine ⟨rfl, h.update hr ?_ ?_ ?_ ?_, hr⟩
    · exact fun x hx => h.slab st x (hL ▸ List.mem_cons_of_mem s hx)
    · exact fun st' hst => ⟨hother st' hst, if_neg fun hc => hst (PointerField.statusList.inj hc.1)⟩
    · have hlist : ((((t.heap.setPtr (.statusList st) c (some y)).setPtr .slabPrev y none).setPtr
          .slabPrev s none).setPtr .slabNext s none).ptr (.statusList st) c = some y :=
        if_pos ⟨rfl, rfl⟩
      change DChain _ _ _ (((((t.heap.setPtr (.statusList st) c (some y)).setPtr .slabPrev y
        none).setPtr .slabPrev s none).setPtr .slabNext s none).ptr (.statusList st) c) _
      rw [hlist, ← hnext]
      refine htail.rehead ?_ ?_ ?_
      · intro x hx
        have hxs : x ≠ s := fun heq => hnodup.1 (heq ▸ hx)
        exact if_neg fun hc => hxs hc.2
      · intro x hx hxy
        have hxs : x ≠ s := fun heq => hnodup.1 (heq ▸ hx)
        have hxy' : x ≠ y := fun heq => hxy (heq ▸ rfl)
        exact (if_neg fun hc => hxs hc.2).trans (if_neg fun hc => hxy' hc.2)
      · rintro _ ⟨rfl⟩
        have hxs : y ≠ s := fun heq => hnodup.1 (heq ▸ List.mem_cons_self)
        exact (if_neg fun hc => hxs hc.2).trans (if_pos ⟨rfl, rfl⟩)
    · exact fun st' hst x hx hx' =>
        hother st' hst x hx' (List.mem_cons_of_mem s hx)

/-- A slab that goes from the head of one list to another. -/
def moved (L : SlabStatus → List Nat) (source target : SlabStatus) (s : Nat) (xs : List Nat) :
    SlabStatus → List Nat :=
  Function.update (Function.update L source xs) target (s :: L target)

theorem moveSlab_runs (h : t.heap.Lists c L) (hL : L source = s :: xs) (hne : source ≠ target)
    (hcount : ∀ st, t.heap.word (.statusCount st) c = (L st).length)
    (hlt : (L source).length + (L target).length < 2 ^ 32) :
    Runs Shows E (fun _ t' => t'.rest = t.rest ∧ t'.heap.Lists c (moved L source target s xs) ∧
      (∀ st, t'.heap.word (.statusCount st) c = (moved L source target s xs st).length) ∧
      (∀ f a, (∀ st, f ≠ .statusCount st) ∨ a ≠ c → t'.heap.word f a = t.heap.word f a) ∧
      t'.heap.struct = t.heap.struct ∧ t'.heap.slot = t.heap.slot ∧
      ∀ f a, ¬listTouch c (fun x => ∃ st, x ∈ L st) f a → t'.heap.ptr f a = t.heap.ptr f a)
      (moveSlab c s source target) t := by
  have hs : t.heap.struct s = some .slab := h.slab source s (hL ▸ List.mem_cons_self)
  unfold moveSlab
  refine .bind (dlistDeleteHead_runs h hL) ?_
  rintro - t₁ ⟨hrest₁, hlists₁, hr₁⟩
  have hnew : ∀ st, s ∉ Function.update L source xs st := by
    intro st hmem
    by_cases hst : st = source
    · subst hst
      rw [Function.update_self] at hmem
      exact (List.nodup_cons.mp (hL ▸ h.nodup st)).1 hmem
    · rw [Function.update_of_ne hst] at hmem
      exact hst (h.apart st source s hmem (hL ▸ List.mem_cons_self))
  refine .bind (dlistPushHead_runs hlists₁ (by rw [hr₁.struct, hs]) hnew target) ?_
  rintro - t₂ ⟨hrest₂, hlists₂, hr₂⟩
  rw [Function.update_of_ne (Ne.symm hne)] at hlists₂ hr₂
  have hr : t.heap.Relinked c (fun x => ∃ st, x ∈ L st) t₂.heap := by
    refine (hr₁.weaken fun x hx => ⟨source, hx⟩).trans (hr₂.weaken ?_)
    rintro x (rfl | hx)
    · exact ⟨source, hL ▸ List.mem_cons_self⟩
    · exact ⟨target, hx⟩
  have hword : ∀ st, t₂.heap.word (.statusCount st) c = (L st).length := by
    intro st
    rw [hr.word, hcount]
  refine .decrease (.statusCount source) hlists₂.cache ?_ ?_ ?_
  · rw [hword, hL, List.length_cons]
    omega
  · rw [hword]
    omega
  have hword' : (t₂.setWord (.statusCount source) c
    (t₂.heap.word (.statusCount source) c - 1)).heap.word
      (.statusCount target) c = (L target).length := by
    rw [← hword target]
    exact if_neg fun hc => hne (WordField.statusCount.inj hc.1).symm
  have hlt' : (L target).length + 1 < 2 ^ 32 := by
    rw [hL, List.length_cons] at hlt
    omega
  rw [← hword'] at hlt'
  rw [← bind_pure (Place.increase _ _)]
  refine Runs.increase (.statusCount target) ?_ hlt' (.pure ?_)
  · exact hlists₂.cache
  refine ⟨hrest₂.trans hrest₁, ⟨hlists₂.cache, hlists₂.slab, hlists₂.chain, hlists₂.apart⟩,
    ?_, ?_, hr.struct, hr.slot, hr.ptr⟩
  · intro st
    rw [hword', View.setWord_heap, Heap.setWord_word, View.setWord_heap, Heap.setWord_word, hword,
      hword, moved]
    by_cases ht : st = target
    · subst ht
      rw [if_pos ⟨rfl, rfl⟩, Function.update_self, List.length_cons]
    · rw [if_neg fun hc => ht (WordField.statusCount.inj hc.1), Function.update_of_ne ht]
      by_cases hsrc : st = source
      · subst hsrc
        rw [if_pos ⟨rfl, rfl⟩, Function.update_self, hL, List.length_cons, Nat.add_sub_cancel]
      · rw [if_neg fun hc => hsrc (WordField.statusCount.inj hc.1), Function.update_of_ne hsrc]
  · intro f a hf
    have hoff : ∀ st, ¬(f = .statusCount st ∧ a = c) := by
      rintro st ⟨hfs, hac⟩
      rcases hf with hf | hf
      · exact hf st hfs
      · exact hf hac
    rw [View.setWord_heap, Heap.setWord_word, if_neg (hoff target), View.setWord_heap,
      Heap.setWord_word, if_neg (hoff source), hr.word]

end Atros
