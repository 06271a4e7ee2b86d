import Atros.World

namespace Atros
set_option autoImplicit true

variable {W W' : World} {H H' H₁ : Heap} {t t' : View} {E : Panic → Prop}

/-! ### One object of a slab -/

/-- The heap after the first object of the slab `s` has been taken; `os` are the others. -/
def Heap.takeObject (H : Heap) (s o : Nat) (os : List Nat) : Heap :=
  (((H.setPtr .freeObjsList s os.head?).setPtr .objectNext o none).setWord
    .slabFreeObjsCount s os.length).forget o

def View.takeObject (t : View) (s o : Nat) (os : List Nat) : View :=
  { t with heap := t.heap.takeObject s o os }

theorem allocObjFromSlab_runs (hs : t.heap.struct s = some .slab)
    (ho : t.heap.struct o = some .object)
    (hcount : t.heap.word .slabFreeObjsCount s = (o :: os).length)
    (hlt : (o :: os).length < 2 ^ 32)
    (hchain : Chain (t.heap.ptr .objectNext) (t.heap.ptr .freeObjsList s) (o :: os)) :
    Runs Shows E (fun r t' => r = some o ∧ t' = t.takeObject s o os) (allocObjFromSlab s) t := by
  refine Runs.shown fun k hk => ?_
  obtain ⟨hhead, htail⟩ := hchain
  rw [List.length_cons] at hcount hlt
  unfold allocObjFromSlab
  refine .readWord .slabFreeObjsCount hs (.ite (fun _ => ?_) fun hn => absurd (by omega) hn)
  have hdelete : Runs Shows E (fun _ t' => t'.rest = t.rest ∧ t'.heap =
      (t.heap.setPtr .freeObjsList s os.head?).setPtr .objectNext o none)
      (listDeleteHead (freeObjsListOf s) objectNextOf o) t := by
    unfold listDeleteHead
    refine .readPtr .freeObjsList hs ?_
    rw [hhead]
    refine .follow ?_
    refine .readPtr .objectNext ho ?_
    cases os with
    | nil =>
      change t.heap.ptr .objectNext o = none at htail
      rw [if_pos htail]
      refine .writeLast (writes_ptr .freeObjsList hs .none) ⟨rfl, ?_⟩
      have hsame : (t.heap.setPtr .freeObjsList s none).ptr .objectNext o = none := htail
      exact (Heap.setPtr_same hsame).symm
    | cons o' os =>
      rw [if_neg (by rw [htail.1]; exact Option.some_ne_none o')]
      refine .readPtr .objectNext ho ?_
      refine .writePtr .freeObjsList hs (hk.ptrOk ho) ?_
      refine .writeLast (writes_ptr .objectNext ho .none) ⟨rfl, ?_⟩
      rw [htail.1]
      rfl
  have hpop : Runs Shows E (fun r t' => r = some o ∧ t'.rest = t.rest ∧ t'.heap =
      (t.heap.setPtr .freeObjsList s os.head?).setPtr .objectNext o none)
      (listPopHead (freeObjsListOf s) objectNextOf) t := by
    unfold listPopHead
    refine .readPtr .freeObjsList hs ?_
    rw [hhead]
    refine .follow ?_
    exact .bind hdelete fun _ _ h => .pure ⟨rfl, h⟩
  refine .bind hpop ?_
  rintro _ t₁ ⟨rfl, hrest, hheap⟩
  refine .passes (Option.some_ne_none o) ?_
  have hs₁ : t₁.heap.struct s = some .slab := by rw [hheap]; exact hs
  have ho₁ : t₁.heap.struct o = some .object := by rw [hheap]; exact ho
  have hword₁ : t₁.heap.word .slabFreeObjsCount s = os.length + 1 := by rw [hheap]; exact hcount
  refine .readWord .slabFreeObjsCount hs₁ ?_
  rw [hword₁, sub32_of_le (by omega) hlt, Nat.add_sub_cancel]
  refine .writeWord .slabFreeObjsCount hs₁ (by omega) ?_
  refine .redescribe (fun k hk => hk.forget ho₁) (.pure ⟨rfl, ?_⟩)
  rw [View.takeObject, Heap.takeObject, ← hheap, ← hrest]
  rfl

theorem Heap.takeObject_changes (hF : F .slab s) (hFo : F .object o)
    (ho : H.struct o = some .object) (os : List Nat) : H.ChangesOnly F (H.takeObject s o os) := by
  refine ((((Heap.ChangesOnly.refl F H).setPtr (f := .freeObjsList) hF _).setPtr
    (f := .objectNext) hFo _).setWord (f := .slabFreeObjsCount) hF _).forget ?_
  intro k hk
  rw [ho] at hk
  cases hk
  exact hFo

theorem Heap.takeObject_links (H : Heap) (s o : Nat) (os : List Nat) :
    H.SameLinks (H.takeObject s o os) := by
  have hother : ∀ f : PointerField, f ≠ .freeObjsList → f ≠ .objectNext →
      (H.takeObject s o os).ptr f = H.ptr f := by
    intro f hf hf'
    change ((H.setPtr .freeObjsList s os.head?).setPtr .objectNext o none).ptr f = _
    rw [Heap.setPtr_of_field _ hf', Heap.setPtr_of_field _ hf]
  exact ⟨hother _ PointerField.noConfusion PointerField.noConfusion,
    hother _ PointerField.noConfusion PointerField.noConfusion⟩

/-! ### One object of a cache -/

/-- The object `o` of the cache `c` has been handed out. -/
structure Retrieved (W : World) (H : Heap) (c o : Nat) (W' : World) (H' : Heap) : Prop where
  cache : W'.CacheOk H' c
  changes : H.ChangesOnly (W.Owned c) H'
  obj : H.struct o = some .object
  slot : ∃ s ∈ W.all c, H.slot o = some ⟨s, W.size c⟩
  struct : H'.struct = Function.update H.struct o none
  slots : H'.slot = H.slot
  count : H'.word .freeObjsCount c + 1 = H.word .freeObjsCount c
  links : H.SameLinks H'
  world : ∃ s os L, W' = { W with
    slabs := Function.update W.slabs c L, objs := Function.update W.objs s os } ∧
    s ∈ W.all c ∧ W.objs s = o :: os ∧ (allOf L).Perm (W.all c)

theorem sum_map_update {l : List Nat} (g : Nat → List Nat) (h : l.Nodup) (hs : s ∈ l)
    (hg : g s = o :: os) :
    (l.map fun x => (Function.update g s os x).length).sum + 1 =
    (l.map fun x => (g x).length).sum := by
  obtain ⟨as, bs, rfl⟩ := List.append_of_mem hs
  have hnd := List.nodup_middle.mp h
  have hoff : ∀ x ∈ as ++ bs, (Function.update g s os x).length = (g x).length := by
    intro x hx
    have hne : x ≠ s := fun heq => (List.nodup_cons.mp hnd).1 (heq ▸ hx)
    rw [Function.update_of_ne hne]
  have ha := List.map_congr_left fun x hx => hoff x (List.mem_append_left bs hx)
  have hb := List.map_congr_left fun x hx => hoff x (List.mem_append_right as hx)
  rw [List.map_append, List.map_append, List.map_cons, List.map_cons, List.sum_append,
    List.sum_append, List.sum_cons, List.sum_cons, ha, hb, Function.update_self, hg,
    List.length_cons]
  omega

/-- The state of the counters after the object was taken, before the slab goes to its list. -/
def View.taken (t : View) (c s o : Nat) (os : List Nat) : View :=
  ((t.takeObject s o os).setWord .freeObjsCount c (t.heap.word .freeObjsCount c - 1)).setWord
    .usedObjsCount c (t.heap.word .usedObjsCount c + 1)

theorem View.taken_lists (h : W.CacheOk t.heap c) (hs : s ∈ W.all c) (ho : W.objs s = o :: os) :
    (t.taken c s o os).heap.Lists c (W.slabs c) := by
  have hobj := ((h.slabOk hs).obj o (ho ▸ List.mem_cons_self)).1
  have hstruct : ∀ a k, k ≠ .object → t.heap.struct a = some k →
      (t.taken c s o os).heap.struct a = some k := by
    intro a k hk ha
    refine (Function.update_of_ne ?_ _ _).trans ha
    rintro rfl
    rw [hobj] at ha
    exact hk (Option.some.inj ha).symm
  exact ⟨hstruct c _ (by decide) h.lists.cache,
    fun st x hx => hstruct x _ (by decide) (h.lists.slab st x hx), h.lists.chain, h.lists.apart⟩

theorem View.taken_changes (h : W.CacheOk t.heap c) (hs : s ∈ W.all c) (ho : W.objs s = o :: os) :
    t.heap.ChangesOnly (W.Owned c) (t.taken c s o os).heap :=
  ((Heap.takeObject_changes (F := W.Owned c) hs ⟨s, hs, ho ▸ List.mem_cons_self⟩
    ((h.slabOk hs).obj o (ho ▸ List.mem_cons_self)).1 os).setWord (f :=
    .freeObjsCount) rfl _).setWord (f := .usedObjsCount) rfl _

/-- After the object has been taken, the slabs of the cache are on the lists `L`. -/
structure View.Regrouped (W : World) (t : View) (c s o : Nat) (os : List Nat)
    (L : SlabStatus → List Nat) (H' : Heap) : Prop where
  lists : H'.Lists c L
  count : ∀ st, H'.word (.statusCount st) c = (L st).length
  word : ∀ f a, (∀ st, f ≠ .statusCount st) ∨ a ≠ c →
    H'.word f a = (t.taken c s o os).heap.word f a
  struct : H'.struct = (t.taken c s o os).heap.struct
  slot : H'.slot = (t.taken c s o os).heap.slot
  ptr : ∀ f a, ¬listTouch c (fun x => ∃ st, x ∈ W.slabs c st) f a →
    H'.ptr f a = (t.taken c s o os).heap.ptr f a

/-- The world in which the slabs of `c` are on the lists `L` and `s` has the free objects `os`. -/
def World.regrouped (W : World) (c s : Nat) (os : List Nat) (L : SlabStatus → List Nat) : World :=
  { W with slabs := Function.update W.slabs c L, objs := Function.update W.objs s os }

section
variable {L : SlabStatus → List Nat}

@[simp] theorem World.regrouped_slabs (W : World) (c s : Nat) (os : List Nat) :
    (W.regrouped c s os L).slabs c = L :=
  Function.update_self ..

@[simp] theorem World.regrouped_objs_self (W : World) (c s : Nat) (os : List Nat) :
    (W.regrouped c s os L).objs s = os :=
  Function.update_self ..

theorem World.regrouped_objs_other (W : World) (c : Nat) (os : List Nat) (hx : x ≠ s) :
    (W.regrouped c s os L).objs x = W.objs x :=
  Function.update_of_ne hx ..

variable (hm : t.Regrouped W c s o os L H')
include hm

theorem View.Regrouped.freeObjsCount :
    H'.word .freeObjsCount c = t.heap.word .freeObjsCount c - 1 := by
  rw [hm.word _ _ (.inl fun st => WordField.noConfusion), View.taken, View.setWord_heap,
    Heap.setWord_of_field _ WordField.noConfusion, View.setWord_heap, Heap.setWord_self]

theorem View.Regrouped.usedObjsCount :
    H'.word .usedObjsCount c = t.heap.word .usedObjsCount c + 1 := by
  rw [hm.word _ _ (.inl fun st => WordField.noConfusion)]
  exact if_pos ⟨rfl, rfl⟩

theorem View.Regrouped.slabFreeObjsCount (x : Nat) : H'.word .slabFreeObjsCount x =
    if x = s then os.length else t.heap.word .slabFreeObjsCount x := by
  rw [hm.word _ _ (.inl fun st => WordField.noConfusion)]
  by_cases hx : x = s
  · rw [if_pos hx, hx]
    exact if_pos ⟨rfl, rfl⟩
  · rw [if_neg hx]
    exact if_neg fun hc => hx hc.2

theorem View.Regrouped.freeObjsList (x : Nat) : H'.ptr .freeObjsList x =
    if x = s then os.head? else t.heap.ptr .freeObjsList x := by
  rw [hm.ptr .freeObjsList x id]
  by_cases hx : x = s
  · rw [if_pos hx, hx]
    exact if_pos ⟨rfl, rfl⟩
  · rw [if_neg hx]
    exact if_neg fun hc => hx hc.2

theorem View.Regrouped.objectNext (hp : p ≠ o) :
    H'.ptr .objectNext p = t.heap.ptr .objectNext p := by
  rw [hm.ptr .objectNext p id]
  exact if_neg fun hc => hp hc.2

theorem View.Regrouped.vregion (x : Nat) : H'.ptr .slabVregion x = t.heap.ptr .slabVregion x :=
  hm.ptr .slabVregion x id

theorem View.Regrouped.struct_other (hp : p ≠ o) : H'.struct p = t.heap.struct p := by
  rw [hm.struct]
  exact Function.update_of_ne hp _ _

theorem View.Regrouped.slot_same : H'.slot = t.heap.slot := hm.slot

theorem View.Regrouped.changes (h : W.CacheOk t.heap c) (hs : s ∈ W.all c)
    (ho : W.objs s = o :: os) :
    t.heap.ChangesOnly (W.Owned c) H' := by
  have htaken := View.taken_changes h hs ho
  refine ⟨?_, ?_, ?_, ?_, ?_⟩
  · intro f a hF
    rw [← htaken.word f a hF]
    refine hm.word f a ?_
    by_cases hac : a = c
    · refine .inl ?_
      rintro st rfl
      exact hF hac
    · exact .inr hac
  · intro f a hF
    rw [← htaken.ptr f a hF]
    refine hm.ptr f a ?_
    intro ht
    cases f <;> first | exact hF (mem_allOf.mpr ht) | exact ht | exact hF ht
  · intro k a hF ha
    rw [hm.struct]
    exact htaken.struct k a hF ha
  · intro a hF ha hs
    rw [hm.struct]
    exact htaken.untyped a hF ha hs
  · intro a u hu
    rw [hm.slot]
    exact htaken.slot a u hu

/-- The slab has one free object less. -/
theorem View.Regrouped.slabOk_self (hok : W.SlabOk t.heap c s) (ho : W.objs s = o :: os) :
    (W.regrouped c s os L).SlabOk H' c s := by
  have hnodup : (o :: os).Nodup := ho ▸ hok.chain.nodup
  have hoff : ∀ p ∈ os, p ≠ o := fun p hp heq => (List.nodup_cons.mp hnodup).1 (heq ▸ hp)
  have hchain := hok.chain
  rw [ho] at hchain
  refine ⟨?_, ?_, fun p hp => ?_, (hm.vregion s).trans hok.region, hok.owner, ?_⟩
  · rw [hm.slabFreeObjsCount, if_pos rfl, World.regrouped_objs_self]
  · rw [hm.freeObjsList, if_pos rfl, World.regrouped_objs_self, ← hchain.2.head]
    exact hchain.2.congr fun p hp => hm.objectNext (hoff p hp)
  · rw [World.regrouped_objs_self] at hp
    rw [hm.struct_other (hoff p hp), hm.slot_same]
    exact hok.obj p (ho ▸ List.mem_cons_of_mem o hp)
  · have hroom := hok.room
    rw [ho, List.length_cons] at hroom
    rw [World.regrouped_objs_self]
    exact Nat.le_of_succ_le hroom

/-- Another slab, which the object is not in, is as it was. -/
theorem View.Regrouped.slabOk_other (hok : W.SlabOk t.heap c x) (hx : x ≠ s)
    (hslot : t.heap.slot o = some ⟨s, W.size c⟩) : (W.regrouped c s os L).SlabOk H' c x := by
  have hoff : ∀ p ∈ W.objs x, p ≠ o := by
    rintro p hp rfl
    have hslot' := (hok.obj p hp).2
    rw [hslot] at hslot'
    cases hslot'
    exact hx rfl
  have hobjs := W.regrouped_objs_other (L := L) c os hx
  refine ⟨?_, ?_, fun p hp => ?_, (hm.vregion x).trans hok.region, hok.owner, ?_⟩
  · rw [hm.slabFreeObjsCount, if_neg hx, hok.count, hobjs]
  · rw [hm.freeObjsList, if_neg hx, hobjs]
    exact hok.chain.congr fun p hp => hm.objectNext (hoff p hp)
  · rw [hobjs] at hp
    rw [hm.struct_other (hoff p hp), hm.slot_same]
    exact hok.obj p hp
  · rw [hobjs]
    exact hok.room

theorem View.Regrouped.freeObjs (h : W.CacheOk t.heap c) (hs : s ∈ W.all c)
    (ho : W.objs s = o :: os) (hperm : (allOf L).Perm (W.all c)) :
    H'.word .freeObjsCount c = (W.regrouped c s os L).freeObjs c ∧
      H'.word .freeObjsCount c + 1 = t.heap.word .freeObjsCount c := by
  have hsum : ((W.all c).map fun x => (Function.update W.objs s os x).length).sum + 1 =
      ((W.all c).map fun x => (W.objs x).length).sum :=
    sum_map_update W.objs h.lists.nodup_all hs ho
  have hfree : t.heap.word .freeObjsCount c = ((W.all c).map fun x => (W.objs x).length).sum :=
    h.freeCount
  have hall : (W.regrouped c s os L).freeObjs c =
      ((W.all c).map fun x => (Function.update W.objs s os x).length).sum := by
    rw [World.freeObjs, World.all, World.regrouped_slabs]
    exact (hperm.map _).sum_eq
  rw [hm.freeObjsCount, hfree, hall]
  omega

theorem View.Regrouped.cacheOk (h : W.CacheOk t.heap c) (hs : s ∈ W.all c) (ho : W.objs s = o :: os)
    (hperm : (allOf L).Perm (W.all c))
    (hstatus : ∀ st, ∀ x ∈ L st, statusOf (W.per c) ((W.regrouped c s os L).objs x).length = st) :
    (W.regrouped c s os L).CacheOk H' c := by
  have hslot := ((h.slabOk hs).obj o (ho ▸ List.mem_cons_self)).2
  have hlength : ((W.regrouped c s os L).all c).length = (W.all c).length := by
    rw [World.all, World.regrouped_slabs, hperm.length_eq]
  have hfree := hm.freeObjs h hs ho hperm
  have hother : ∀ f, (∀ st, f ≠ .statusCount st) →
      H'.word f c = (t.taken c s o os).heap.word f c := fun f hf => hm.word f c (.inl hf)
  refine ⟨?_, fun st x hx => ?_, fun st => ?_, ?_, hfree.1, ?_, ?_, ?_, ?_, h.size_ge, h.per_pos,
    ?_⟩
  · rw [World.regrouped_slabs]
    exact hm.lists
  · rw [World.regrouped_slabs] at hx
    have hall : x ∈ W.all c := hperm.mem_iff.mp (mem_allOf.mpr ⟨st, hx⟩)
    refine ⟨?_, hstatus st x hx⟩
    by_cases hxs : x = s
    · subst hxs
      exact hm.slabOk_self (h.slabOk hall) ho
    · exact hm.slabOk_other (h.slabOk hall) hxs hslot
  · rw [World.regrouped_slabs]
    exact hm.count st
  · rw [hother _ fun st => WordField.noConfusion, hlength]
    exact h.slabsCount
  · rw [hm.usedObjsCount, hlength]
    have hused : _ = W.per c * (W.all c).length := h.usedCount
    change _ = W.per c * (W.all c).length
    omega
  · rw [hother _ fun st => WordField.noConfusion]
    exact h.actualObjSize
  · rw [hother _ fun st => WordField.noConfusion]
    exact h.pagesPerSlab
  · rw [hother _ fun st => WordField.noConfusion]
    exact h.objsPerSlab
  · rw [hlength]
    exact h.room

/-- A slab in its new list gives a cache in order. -/
theorem View.Regrouped.retrieved (h : W.CacheOk t.heap c) (hs : s ∈ W.all c)
    (ho : W.objs s = o :: os) (hperm : (allOf L).Perm (W.all c))
    (hstatus : ∀ st, ∀ x ∈ L st, statusOf (W.per c) ((W.regrouped c s os L).objs x).length = st) :
    Retrieved W t.heap c o (W.regrouped c s os L) H' where
  cache := hm.cacheOk h hs ho hperm hstatus
  changes := hm.changes h hs ho
  obj := ((h.slabOk hs).obj o (ho ▸ List.mem_cons_self)).1
  slot := ⟨s, hs, ((h.slabOk hs).obj o (ho ▸ List.mem_cons_self)).2⟩
  struct := hm.struct
  slots := hm.slot
  count := (hm.freeObjs h hs ho hperm).2
  links := ⟨(funext fun a => hm.ptr .cachePrev a id).trans (Heap.takeObject_links _ s o os).prev,
    (funext fun a => hm.ptr .cacheNext a id).trans (Heap.takeObject_links _ s o os).next⟩
  world := ⟨s, os, L, rfl, hs, ho, hperm⟩

end

theorem mem_moved {L : SlabStatus → List Nat} (hL : L source = s :: xs)
    (hx : x ∈ moved L source target s xs st) : x = s ∧ st = target ∨ x ∈ L st := by
  rw [moved] at hx
  by_cases ht : st = target
  · subst ht
    rw [Function.update_self] at hx
    rcases List.mem_cons.mp hx with hx | hx
    · exact .inl ⟨hx, rfl⟩
    · exact .inr hx
  · rw [Function.update_of_ne ht] at hx
    by_cases hs : st = source
    · subst hs
      rw [Function.update_self] at hx
      exact .inr (hL ▸ List.mem_cons_of_mem s hx)
    · rw [Function.update_of_ne hs] at hx
      exact .inr hx

theorem not_mem_moved {L : SlabStatus → List Nat} (h : H.Lists c L) (hL : L source = s :: xs)
    (hne : source ≠ target) (hx : s ∈ moved L source target s xs st) : st = target := by
  by_contra ht
  rw [moved, Function.update_of_ne ht] at hx
  by_cases hs : st = source
  · subst hs
    rw [Function.update_self] at hx
    exact (List.nodup_cons.mp (hL ▸ h.nodup st)).1 hx
  · rw [Function.update_of_ne hs] at hx
    exact hs (h.apart st source s hx (hL ▸ List.mem_cons_self))

/-- The first part of `_retrieve_free_obj_from_objs_cache`, the same for both lists. -/
theorem take_runs (h : W.CacheOk t.heap c) (hs : s ∈ W.all c) (ho : W.objs s = o :: os)
    {f : Nat → Prog Panic Kernel α} {Q : α → View → Prop}
    (hf : Runs Shows E Q (f o) (t.taken c s o os)) :
    Runs Shows E Q (do
      let allocatedObj ← deref (← allocObjFromSlab s) .retrieveFailed
      (freeObjsCountOf c).decrease 1
      (usedObjsCountOf c).increase 1
      f allocatedObj) t := by
  have hok := h.slabOk hs
  have hobj := hok.obj o (ho ▸ List.mem_cons_self)
  have hslab := h.typed (k := .slab) hs
  have hroom := hok.room
  have hlen : 1 ≤ (W.all c).length := List.length_pos_of_mem hs
  have hper : W.per c ≤ W.per c * (W.all c).length := Nat.le_mul_of_pos_right _ hlen
  have hbound := h.room
  have hused := h.usedCount
  have hfree : 1 ≤ t.heap.word .freeObjsCount c := by
    have hsum := sum_map_update W.objs h.lists.nodup_all (show s ∈ allOf (W.slabs c) from hs) ho
    rw [h.freeCount, World.freeObjs, World.all]
    omega
  have hcache : (t.takeObject s o os).heap.struct c = some .cache :=
    (View.taken_lists h hs ho).cache
  have hcount := hok.count
  have hchain := hok.chain
  rw [ho] at hcount hchain hroom
  refine .bind (allocObjFromSlab_runs hslab hobj.1 hcount (by omega) hchain) ?_
  rintro _ _ ⟨rfl, rfl⟩
  have hfreeWord : (t.takeObject s o os).heap.word .freeObjsCount c =
      t.heap.word .freeObjsCount c := rfl
  have husedWord : ((t.takeObject s o os).setWord .freeObjsCount c
      (t.heap.word .freeObjsCount c - 1)).heap.word .usedObjsCount c =
      t.heap.word .usedObjsCount c := rfl
  refine .deref ?_
  refine Runs.decrease .freeObjsCount hcache (by rw [hfreeWord]; exact hfree)
    (by rw [hfreeWord]; omega) ?_
  rw [hfreeWord]
  refine Runs.increase .usedObjsCount ?_ ?_ ?_
  · exact hcache
  · rw [husedWord]
    omega
  · rw [husedWord]
    exact hf

theorem isSlabFull_runs (h : W.CacheOk t.heap c) (hs : s ∈ W.all c) (ho : W.objs s = o :: os) :
    Runs Shows E (fun r t' => (r = true ↔ os = []) ∧ t' = t.taken c s o os) (isSlabFull s)
      (t.taken c s o os) := by
  have hslab : (t.taken c s o os).heap.struct s = some .slab := by
    obtain ⟨st, hst⟩ := mem_allOf.mp hs
    exact (View.taken_lists h hs ho).slab st s hst
  unfold isSlabFull
  refine .readWord .slabFreeObjsCount hslab (.pure ⟨?_, rfl⟩)
  have hword : (t.taken c s o os).heap.word .slabFreeObjsCount s = os.length := by
    rw [View.taken, View.setWord_heap, Heap.setWord_of_field _ WordField.noConfusion,
      View.setWord_heap, Heap.setWord_of_field _ WordField.noConfusion]
    exact if_pos ⟨rfl, rfl⟩
  rw [hword, decide_eq_true_iff, List.length_eq_zero_iff]

theorem taken_moved (h : W.CacheOk t.heap c) (hL : W.slabs c source = s :: xs)
    (ho : W.objs s = o :: os) (hne : source ≠ target)
    (htarget : statusOf (W.per c) os.length = target) :
    Runs Shows E (fun _ t' => t'.rest = t.rest ∧ ∃ W', Retrieved W t.heap c o W' t'.heap)
      (moveSlab c s source target) (t.taken c s o os) := by
  have hs : s ∈ W.all c := mem_allOf.mpr ⟨source, hL ▸ List.mem_cons_self⟩
  have hlists := View.taken_lists h hs ho
  have hroom := h.room
  have hlen : (W.slabs c source).length + (W.slabs c target).length ≤ (W.all c).length := by
    rw [World.all, allOf, List.length_append, List.length_append]
    cases source <;> cases target <;> first | exact absurd rfl hne | omega
  have hall : (W.all c).length ≤ W.per c * (W.all c).length :=
    Nat.le_mul_of_pos_left _ h.per_pos
  refine (moveSlab_runs hlists hL hne h.statusCount (by omega)).imp ?_
  · rintro - t' ⟨hrest, hlists', hcount, hword, hstruct, hslot, hptr⟩
    have hm : t.Regrouped W c s o os _ t'.heap := ⟨hlists', hcount, hword, hstruct, hslot, hptr⟩
    refine ⟨hrest, _, hm.retrieved h hs ho (moved_perm hL hne) fun st x hx => ?_⟩
    rcases mem_moved hL hx with ⟨rfl, rfl⟩ | hx'
    · rw [World.regrouped_objs_self, htarget]
    · by_cases hxs : x = s
      · subst hxs
        rw [World.regrouped_objs_self, htarget, not_mem_moved h.lists hL hne hx]
      · rw [World.regrouped_objs_other W c os hxs]
        exact (h.slab st x hx').2

/-- `_retrieve_free_obj_from_objs_cache` hands out an object, if there is one. -/
theorem retrieve_runs (h : W.CacheOk t.heap c) :
    Runs Shows E (fun r t' => r = none ∧ t' = t ∧ W.freeObjs c = 0 ∨
      ∃ o, r = some o ∧ t'.rest = t.rest ∧ ∃ W', Retrieved W t.heap c o W' t'.heap)
      (retrieveFreeObjFromObjsCache c) t := by
  have hpos : ∀ st s, s ∈ W.slabs c st → st ≠ .statusFull → ∃ o os, W.objs s = o :: os := by
    intro st s hs hst
    have hstatus := (h.slab st s hs).2
    have hper := h.per_pos
    cases ho : W.objs s with
    | nil =>
      rw [ho, List.length_nil, statusOf_zero hper] at hstatus
      exact absurd hstatus.symm hst
    | cons o os => exact ⟨o, os, rfl⟩
  unfold retrieveFreeObjFromObjsCache
  refine .readPtr (.statusList .statusPartial) h.lists.cache ?_
  rw [(h.lists.chain .statusPartial).toChain.head]
  cases hpartly : W.slabs c .statusPartial with
  | cons s xs =>
    have hmem : s ∈ W.slabs c .statusPartial := hpartly ▸ List.mem_cons_self
    have hs : s ∈ W.all c := mem_allOf.mpr ⟨_, hmem⟩
    obtain ⟨o, os, ho⟩ := hpos _ s hmem (by decide)
    have hroom := (h.slabOk hs).room
    rw [ho, List.length_cons] at hroom
    refine take_runs h hs ho (.bind (isSlabFull_runs h hs ho) ?_)
    rintro full _ ⟨hfull, rfl⟩
    refine .ite (fun hb => ?_) fun hb => ?_
    · have hstatus : statusOf (W.per c) os.length = .statusFull := by
        rw [hfull.mp hb, List.length_nil, statusOf_zero h.per_pos]
      refine .bind (taken_moved h hpartly ho (by decide) hstatus) ?_
      rintro - t' ⟨hrest, W', hW'⟩
      exact .pure (.inr ⟨o, rfl, hrest, W', hW'⟩)
    · have hne : os.length ≠ 0 := fun h0 => hb (hfull.mpr (List.length_eq_zero_iff.mp h0))
      have hstatus := statusOf_between hne hroom
      have hm : t.Regrouped W c s o os (W.slabs c) (t.taken c s o os).heap :=
        ⟨View.taken_lists h hs ho, h.statusCount, fun _ _ _ => rfl, rfl, rfl, fun _ _ _ => rfl⟩
      refine .pure (.inr ⟨o, rfl, rfl, _, hm.retrieved h hs ho (.refl _) fun st x hx => ?_⟩)
      by_cases hxs : x = s
      · subst hxs
        rw [World.regrouped_objs_self, hstatus, h.lists.apart st _ x hx hmem]
      · rw [World.regrouped_objs_other W c os hxs]
        exact (h.slab st x hx).2
  | nil =>
    refine .readPtr (.statusList .statusFree) h.lists.cache ?_
    rw [(h.lists.chain .statusFree).toChain.head]
    cases hfree : W.slabs c .statusFree with
    | cons s xs =>
      have hmem : s ∈ W.slabs c .statusFree := hfree ▸ List.mem_cons_self
      have hs : s ∈ W.all c := mem_allOf.mpr ⟨_, hmem⟩
      obtain ⟨o, os, ho⟩ := hpos _ s hmem (by decide)
      have hroom := (h.slabOk hs).room
      rw [ho, List.length_cons] at hroom
      refine take_runs h hs ho (.bind (isSlabFull_runs h hs ho) ?_)
      rintro full _ ⟨hfull, rfl⟩
      refine .ite (fun hb => ?_) fun hb => ?_
      · have hne : os.length ≠ 0 := fun h0 => hb (hfull.mpr (List.length_eq_zero_iff.mp h0))
        have hstatus := statusOf_between hne hroom
        refine .bind (taken_moved h hfree ho (by decide) hstatus) ?_
        rintro - t' ⟨hrest, W', hW'⟩
        exact .pure (.inr ⟨o, rfl, hrest, W', hW'⟩)
      · have hb' : full = true := not_not.mp hb
        have hstatus : statusOf (W.per c) os.length = .statusFull := by
          rw [hfull.mp hb', List.length_nil, statusOf_zero h.per_pos]
        refine .bind (taken_moved h hfree ho (by decide) hstatus) ?_
        rintro - t' ⟨hrest, W', hW'⟩
        exact .pure (.inr ⟨o, rfl, hrest, W', hW'⟩)
    | nil =>
      refine .pure (.inl ⟨rfl, rfl, ?_⟩)
      rw [World.freeObjs, List.sum_eq_zero_iff_forall_eq_nat]
      intro n hn
      obtain ⟨s, hs, rfl⟩ := List.mem_map.mp hn
      have hfull : s ∈ W.slabs c .statusFull := by
        obtain ⟨st, hst⟩ := mem_allOf.mp hs
        cases st with
        | statusFree => rw [hfree] at hst; cases hst
        | statusPartial => rw [hpartly] at hst; cases hst
        | statusFull => exact hst
      have hstatus := (h.slab _ s hfull).2
      rw [statusOf] at hstatus
      split at hstatus
      · cases hstatus
      · split at hstatus
        · assumption
        · cases hstatus

end Atros
