import Atros.Chain
import Atros.Footprint
import Atros.VirtualPages

namespace Atros
set_option autoImplicit true

variable {H H' : Heap} {t t' : View} {E : Panic → Prop} {X Y : Nat → Prop}

/-- The lists `free_vregions` and `used_vregions`. -/
inductive RegionList
  | free
  | used
  deriving DecidableEq

def RegionList.var : RegionList → Place Kernel (Option Nat)
  | free => freeVregionsVar
  | used => usedVregionsVar

def RegionList.head (l : RegionList) (t : View) : Option Nat :=
  match l with
  | free => t.rest.freeVregions
  | used => t.rest.usedVregions

def View.setHead (t : View) (l : RegionList) (v : Option Nat) : View :=
  { t with rest :=
      match l with
      | .free => { t.rest with freeVregions := v }
      | .used => { t.rest with usedVregions := v } }

@[simp] theorem View.setHead_heap (t : View) (l : RegionList) (v : Option Nat) :
    (t.setHead l v).heap = t.heap := rfl

@[simp] theorem View.setHead_head (t : View) (l : RegionList) (v : Option Nat) :
    l.head (t.setHead l v) = v := by
  cases l <;> rfl

theorem RegionList.reads (l : RegionList) (t : View) : Reads Shows l.var t (l.head t) := by
  cases l with
  | free => exact reads_freeVregions t
  | used => exact reads_usedVregions t

theorem RegionList.writes (l : RegionList) (t : View) (v : Option Nat) :
    Writes Shows l.var v t (t.setHead l v) := by
  cases l with
  | free => exact writes_freeVregions t v
  | used => exact writes_usedVregions t v

/-- The nodes of a list. -/
def RegionList.Holds (l : RegionList) (t : View) (xs : List Nat) : Prop :=
  Chain (t.heap.ptr .vregionNext) (l.head t) xs ∧ ∀ x ∈ xs, t.heap.struct x = some .vregion

/-- Only the list `l` has changed, whose nodes are in `X`. -/
structure View.Relisted (l : RegionList) (X : Nat → Prop) (t t' : View) : Prop where
  word : t'.heap.word = t.heap.word
  struct : t'.heap.struct = t.heap.struct
  slot : t'.heap.slot = t.heap.slot
  ptr : ∀ f a, ¬(f = .vregionNext ∧ X a) → t'.heap.ptr f a = t.heap.ptr f a
  rest : t'.rest = (t.setHead l (l.head t')).rest

theorem View.Relisted.refl (l : RegionList) (X : Nat → Prop) (t : View) : t.Relisted l X t :=
  ⟨rfl, rfl, rfl, fun _ _ _ => rfl, by cases l <;> rfl⟩

theorem View.Relisted.setPtr (h : View.Relisted l X t t') (hX : X a) (v : Option Nat) :
    t.Relisted l X (t'.setPtr .vregionNext a v) := by
  refine ⟨h.word, h.struct, h.slot, ?_, ?_⟩
  · intro f b hf
    rw [← h.ptr f b hf]
    refine if_neg ?_
    rintro ⟨rfl, rfl⟩
    exact hf ⟨rfl, hX⟩
  · rw [View.setPtr_rest, h.rest]
    cases l <;> rfl

theorem View.Relisted.setHead (h : View.Relisted l X t t') (v : Option Nat) :
    t.Relisted l X (t'.setHead l v) := by
  refine ⟨h.word, h.struct, h.slot, h.ptr, ?_⟩
  have hrest := h.rest
  cases l with
  | free =>
    simp only [View.setHead, RegionList.head] at *
    rw [hrest]
  | used =>
    simp only [View.setHead, RegionList.head] at *
    rw [hrest]

theorem View.Relisted.weaken (h : View.Relisted l X t t') (hXY : ∀ a, X a → Y a) :
    t.Relisted l Y t' :=
  ⟨h.word, h.struct, h.slot, fun f a hf => h.ptr f a fun hc => hf ⟨hc.1, hXY a hc.2⟩, h.rest⟩

theorem RegionList.Holds.congr {l : RegionList} (h : l.Holds t xs) (hhead : l.head t' = l.head t)
    (hstruct : ∀ x ∈ xs, t.heap.struct x = some .vregion → t'.heap.struct x = some .vregion)
    (hnext : ∀ x ∈ xs, t'.heap.ptr .vregionNext x = t.heap.ptr .vregionNext x) : l.Holds t' xs := by
  refine ⟨?_, fun x hx => hstruct x hx (h.2 x hx)⟩
  rw [hhead]
  exact h.1.congr hnext

theorem RegionList.Holds.other {l l' : RegionList} (h : l'.Holds t xs)
    (hr : View.Relisted l X t t') (hne : l' ≠ l) (hX : ∀ x ∈ xs, ¬X x) : l'.Holds t' xs := by
  have hhead : l'.head t' = l'.head t := by
    have hrest := hr.rest
    cases l <;> cases l' <;> first | exact absurd rfl hne | skip
    all_goals
      simp only [View.setHead, RegionList.head] at *
      rw [hrest]
  refine h.congr hhead (fun x _ hs => ?_) fun x hx => hr.ptr _ x fun hc => hX x hx hc.2
  rw [hr.struct]
  exact hs

/-! ### The macros on simple lists -/

theorem listPushHead_runs (h : l.Holds t xs) (hel : t.heap.struct el = some .vregion)
    (hnew : el ∉ xs) :
    Runs Shows E (fun _ t' => l.Holds t' (el :: xs) ∧ t.Relisted l (· = el) t')
      (listPushHead l.var vregionNextOf el) t := by
  refine Runs.shown fun k hk => ?_
  obtain ⟨hch, hxs⟩ := h
  unfold listPushHead
  refine .read (l.reads t) ?_
  refine .writePtr .vregionNext hel ?_ (.writeLast (l.writes _ _) ⟨⟨?_, ?_⟩, ?_⟩)
  · rw [hch.head]
    cases xs with
    | nil => exact .none
    | cons x xs => exact hk.addrOk (hxs x List.mem_cons_self)
  · rw [View.setHead_head]
    refine ⟨rfl, ?_⟩
    have hnext : ((t.setPtr .vregionNext el (l.head t)).setHead l (some el)).heap.ptr .vregionNext
        el = l.head t := if_pos ⟨rfl, rfl⟩
    rw [hnext]
    refine hch.congr fun x hx => ?_
    have hne : x ≠ el := fun heq => hnew (heq ▸ hx)
    exact if_neg fun hc => hne hc.2
  · intro x hx
    rcases List.mem_cons.mp hx with rfl | hx
    · exact hel
    · exact hxs x hx
  · exact ((View.Relisted.refl l (fun a => a = el) t).setPtr rfl _).setHead _

/-- Insertion after a prefix of the nodes; `prev` is the last node of the prefix. -/
theorem listInsertAfter_runs (h : l.Holds t (as ++ bs)) (hel : t.heap.struct el = some .vregion)
    (hnew : el ∉ as ++ bs) :
    Runs Shows E (fun _ t' => l.Holds t' (as ++ el :: bs) ∧
      t.Relisted l (fun a => a = el ∨ a ∈ as) t')
      (listInsertAfter l.var vregionNextOf as.getLast? el) t := by
  refine Runs.shown fun k hk => ?_
  rcases List.eq_nil_or_concat as with rfl | ⟨cs, p, rfl⟩
  · exact (listPushHead_runs h hel hnew).imp fun _ t' hq => ⟨hq.1, hq.2.weaken fun a ha => .inl ha⟩
  · rw [List.concat_eq_append] at *
    rw [List.append_assoc, List.singleton_append] at *
    obtain ⟨hch, hxs⟩ := h
    have hp : t.heap.struct p = some .vregion :=
      hxs p (List.mem_append_right cs List.mem_cons_self)
    have hnodup := hch.nodup
    have hpcs : p ∉ cs := fun hmem =>
      (List.nodup_append.mp hnodup).2.2 p hmem p List.mem_cons_self rfl
    have help : p ≠ el := fun heq => hnew (heq ▸ List.mem_append_right cs List.mem_cons_self)
    have hlast : (cs ++ [p]).getLast? = some p := List.getLast?_concat
    rw [hlast]
    refine .readPtr .vregionNext hp (.writePtr .vregionNext hel (hk.ptrOk hp) ?_)
    refine .writeLast (writes_ptr .vregionNext hp (hk.addrOk hel)) ⟨⟨?_, ?_⟩, ?_⟩
    · have hhead : l.head ((t.setPtr .vregionNext el (t.heap.ptr .vregionNext p)).setPtr
        .vregionNext
          p (some el)) = l.head t := by cases l <;> rfl
      rw [hhead]
      refine hch.relink ?_ ?_
      · intro y hy
        have hyp : y ≠ p := fun heq => hpcs (heq ▸ hy)
        have hye : y ≠ el := fun heq => hnew (heq ▸ List.mem_append_left _ hy)
        exact (if_neg fun hc => hyp hc.2).trans (if_neg fun hc => hye hc.2)
      · rw [View.setPtr_heap, Heap.setPtr_self]
        refine ⟨rfl, ?_⟩
        rw [Heap.setPtr_of_addr _ _ help.symm, View.setPtr_heap, Heap.setPtr_self]
        refine hch.tail.congr fun y hy => ?_
        have hyp : y ≠ p := by
          rintro rfl
          exact (List.nodup_cons.mp (List.nodup_append.mp hnodup).2.1).1 hy
        have hye : y ≠ el := fun heq =>
          hnew (heq ▸ List.mem_append_right cs (List.mem_cons_of_mem p hy))
        exact (if_neg fun hc => hyp hc.2).trans (if_neg fun hc => hye hc.2)
    · intro x hx
      rcases List.mem_append.mp hx with hx | hx
      · exact hxs x (List.mem_append_left _ hx)
      · rcases List.mem_cons.mp hx with rfl | hx
        · exact hp
        · rcases List.mem_cons.mp hx with rfl | hx
          · exact hel
          · exact hxs x (List.mem_append_right cs (List.mem_cons_of_mem p hx))
    · exact ((View.Relisted.refl l _ t).setPtr (.inl rfl) _).setPtr
        (.inr (List.mem_append_right cs List.mem_cons_self)) _

theorem listDeleteEl_runs (h : l.Holds t (as ++ el :: bs)) :
    Runs Shows E (fun _ t' => l.Holds t' (as ++ bs) ∧
      t.Relisted l (fun a => a = el ∨ a ∈ as) t')
      (listDeleteEl l.var vregionNextOf as.getLast? el) t := by
  refine Runs.shown fun k hk => ?_
  obtain ⟨hch, hxs⟩ := h
  have hel : t.heap.struct el = some .vregion :=
    hxs el (List.mem_append_right as List.mem_cons_self)
  have hnodup := hch.nodup
  have htail := hch.tail
  have helbs : el ∉ bs := (List.nodup_cons.mp (List.nodup_append.mp hnodup).2.1).1
  unfold listDeleteEl
  refine .read (l.reads t) ?_
  rcases List.eq_nil_or_concat as with rfl | ⟨cs, p, rfl⟩
  · have hhead : l.head t = some el := hch.1
    refine .passes (fun hc => hc.2 hhead) ?_
    refine .readPtr .vregionNext hel (.write (l.writes t _) ?_)
    refine .writeLast (writes_ptr .vregionNext hel .none) ⟨⟨?_, ?_⟩, ?_⟩
    · have hhead' : l.head ((t.setHead l (t.heap.ptr .vregionNext el)).setPtr .vregionNext el
        none) =
          t.heap.ptr .vregionNext el := by cases l <;> rfl
      rw [hhead']
      refine htail.congr fun x hx => ?_
      have hne : x ≠ el := fun heq => helbs (heq ▸ hx)
      exact if_neg fun hc => hne hc.2
    · exact fun x hx => hxs x (List.mem_cons_of_mem el hx)
    · exact ((View.Relisted.refl l _ t).setHead _).setPtr (.inl rfl) _
  · rw [List.concat_eq_append] at *
    have hlast : (cs ++ [p]).getLast? = some p := List.getLast?_concat
    rw [List.append_assoc, List.singleton_append] at hch hxs hnodup
    have hp : t.heap.struct p = some .vregion :=
      hxs p (List.mem_append_right cs List.mem_cons_self)
    have hpcs : p ∉ cs := fun hmem =>
      (List.nodup_append.mp hnodup).2.2 p hmem p List.mem_cons_self rfl
    have helcs : el ∉ cs := fun hmem => (List.nodup_append.mp hnodup).2.2 el hmem el
      (List.mem_cons_of_mem p List.mem_cons_self) rfl
    have hpel := List.nodup_cons.mp (List.nodup_append.mp hnodup).2.1
    have hpne : p ≠ el := fun heq => hpel.1 (heq ▸ List.mem_cons_self)
    have hhead : l.head t ≠ some el := by
      rw [hch.head]
      cases cs with
      | nil => exact fun hc => hpne (Option.some.inj hc)
      | cons y ys => exact fun hc => helcs (Option.some.inj hc ▸ List.mem_cons_self)
    rw [hlast]
    refine .passes (fun hc => nomatch hc.1) ?_
    refine .read (l.reads t) ?_
    rw [if_neg hhead]
    refine .readPtr .vregionNext hel (.writePtr .vregionNext hp (hk.ptrOk hel) ?_)
    refine .writeLast (writes_ptr .vregionNext hel .none) ⟨⟨?_, ?_⟩, ?_⟩
    · have hhead' : l.head ((t.setPtr .vregionNext p (t.heap.ptr .vregionNext el)).setPtr
        .vregionNext
          el none) = l.head t := by cases l <;> rfl
      rw [hhead', List.append_assoc, List.singleton_append]
      refine hch.relink ?_ ?_
      · intro y hy
        have hyp : y ≠ p := fun heq => hpcs (heq ▸ hy)
        have hye : y ≠ el := fun heq => helcs (heq ▸ hy)
        exact (if_neg fun hc => hye hc.2).trans (if_neg fun hc => hyp hc.2)
      · rw [View.setPtr_heap, Heap.setPtr_of_addr _ _ hpne, View.setPtr_heap, Heap.setPtr_self]
        refine htail.congr fun y hy => ?_
        have hyp : y ≠ p := fun heq => hpel.1 (heq ▸ List.mem_cons_of_mem el hy)
        have hye : y ≠ el := fun heq => helbs (heq ▸ hy)
        exact (if_neg fun hc => hye hc.2).trans (if_neg fun hc => hyp hc.2)
    · intro x hx
      rw [List.append_assoc, List.singleton_append] at hx
      refine hxs x ?_
      rcases List.mem_append.mp hx with hx | hx
      · exact List.mem_append_left _ hx
      · rcases List.mem_cons.mp hx with rfl | hx
        · exact List.mem_append_right cs List.mem_cons_self
        · exact List.mem_append_right cs (List.mem_cons_of_mem p (List.mem_cons_of_mem el hx))
    · exact ((View.Relisted.refl l _ t).setPtr (.inr (List.mem_append_right cs
        List.mem_cons_self)) _).setPtr (.inl rfl) _

end Atros
