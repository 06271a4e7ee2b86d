import Atros.BootLayout

namespace Atros
set_option autoImplicit true

variable {t t' : View} {E : Panic → Prop} {Q : α → View → Prop} {v : Nat} {spare : Option Nat}
  {ds dc : List Struct} {block : Struct → Block} {free live : List Block}

theorem View.retype_struct_other (h : x ≠ a) :
    (t.retype m a k).heap.struct x = t.heap.struct x := Function.update_of_ne h _ _

/-! ### The structures made at boot -/

/-- The structures in memory when the slabs in `ds` and the caches in `dc` have been made. -/
def BootTyped (v : Nat) (ds dc : List Struct) : Struct → Nat → Prop
  | .vregion, x => ∃ k ∈ bootKinds, x = bootPlace v .vregion k.rank
  | .slab, x => ∃ k ∈ ds, x = bootPlace v .slab k.rank
  | .cache, x => ∃ k ∈ dc, x = bootPlace v .cache k.rank
  | .object, x => ∃ k ∈ ds, x ∈ objsFrom (bootPlace v k 3) k.size (k.perPage - 3)

/-- The memory at boot once the regions have been made; `spare` is where the first free object for
a region would have its successor. -/
structure Booting (v : Nat) (spare : Option Nat) (ds dc : List Struct) (t : View) : Prop where
  kinds : ds ⊆ bootKinds ∧ dc ⊆ bootKinds
  slot : t.heap.slot = bootSlot v
  struct : ∀ x k, t.heap.struct x = some k ↔ BootTyped v ds dc k x
  words : ∀ k ∈ bootKinds, t.heap.word .firstVpn (bootPlace v .vregion k.rank) = v + k.rank ∧
    t.heap.word .nbrPages (bootPlace v .vregion k.rank) = 1
  next : Chain (t.heap.ptr .vregionNext) (some (bootPlace v .vregion 0))
    (bootKinds.map fun k => bootPlace v .vregion k.rank)
  spare_eq : t.heap.ptr .vregionNext (bootPlace v .vregion 3) = spare
  slab : ∀ k ∈ ds, (bootWorld v [] (fun _ => ⟨0, 0⟩) [] []).SlabOk t.heap
    (bootPlace v .cache k.rank) (bootPlace v .slab k.rank)

theorem mem_bootObjs : x ∈ objsFrom (bootPlace v k 3) k.size (k.perPage - 3) ↔
    ∃ j, 3 ≤ j ∧ j < k.perPage ∧ x = bootPlace v k j := by
  rw [mem_objsFrom]
  constructor
  · rintro ⟨j, hj, rfl⟩
    refine ⟨3 + j, Nat.le_add_right _ _, by omega, ?_⟩
    rw [bootPlace, bootPlace, Nat.add_mul 3 j k.size, Nat.add_assoc]
  · rintro ⟨j, h3, hj, rfl⟩
    obtain ⟨i, rfl⟩ := Nat.exists_eq_add_of_le h3
    refine ⟨i, by omega, ?_⟩
    rw [bootPlace, bootPlace, Nat.add_mul 3 i k.size, Nat.add_assoc]

theorem BootTyped.place (h : BootTyped v ds dc k' (bootPlace v k j)) (hds : ds ⊆ bootKinds)
    (hdc : dc ⊆ bootKinds) (hj : j < k.perPage) :
    (k' = .object ∧ k ∈ ds ∧ 3 ≤ j) ∨ k' = k ∧ j < 3 ∧
      (k = .slab → ∃ i ∈ ds, j = i.rank) ∧ (k = .cache → ∃ i ∈ dc, j = i.rank) := by
  cases k' with
  | object =>
    obtain ⟨i, hi, hx⟩ := h
    obtain ⟨j', h3, hj', heq⟩ := mem_bootObjs.mp hx
    obtain ⟨rfl, rfl⟩ := bootPlace_inj hj hj' heq
    exact .inl ⟨rfl, hi, h3⟩
  | vregion =>
    obtain ⟨i, hi, heq⟩ := h
    obtain ⟨rfl, rfl⟩ := bootPlace_inj hj (rank_lt_perPage hi _) heq
    exact .inr ⟨rfl, rank_lt hi, fun hc => (nomatch hc), fun hc => (nomatch hc)⟩
  | slab =>
    obtain ⟨i, hi, heq⟩ := h
    obtain ⟨rfl, rfl⟩ := bootPlace_inj hj (rank_lt_perPage (hds hi) _) heq
    exact .inr ⟨rfl, rank_lt (hds hi), fun _ => ⟨i, hi, rfl⟩, fun hc => (nomatch hc)⟩
  | cache =>
    obtain ⟨i, hi, heq⟩ := h
    obtain ⟨rfl, rfl⟩ := bootPlace_inj hj (rank_lt_perPage (hdc hi) _) heq
    exact .inr ⟨rfl, rank_lt (hdc hi), fun hc => (nomatch hc), fun _ => ⟨i, hi, rfl⟩⟩

section
variable (h : Booting v spare ds dc t)
include h

theorem Booting.untyped (hx : ∀ k, ¬BootTyped v ds dc k x) : t.heap.struct x = none := by
  by_contra hne
  obtain ⟨k, hk⟩ := Option.ne_none_iff_exists'.mp hne
  exact hx k ((h.struct x k).mp hk)

theorem Booting.slab_untyped (hk : k ∈ bootKinds) (hnew : k ∉ ds) :
    t.heap.struct (bootPlace v .slab k.rank) = none := by
  refine h.untyped fun k' hk' => ?_
  rcases hk'.place h.kinds.1 h.kinds.2 (rank_lt_perPage hk _) with ⟨-, -, h3⟩ | ⟨-, -, hds, -⟩
  · have hrank := rank_lt hk
    omega
  · obtain ⟨i, hi, heq⟩ := hds rfl
    exact hnew (rank_inj.mp heq ▸ hi)

theorem Booting.objects_untyped (hnew : k ∉ ds)
    (hx : x ∈ objsFrom (bootPlace v k 3) k.size (k.perPage - 3)) : t.heap.struct x = none := by
  obtain ⟨j, h3, hj, rfl⟩ := mem_bootObjs.mp hx
  refine h.untyped fun k' hk' => ?_
  rcases hk'.place h.kinds.1 h.kinds.2 hj with ⟨-, hk, -⟩ | ⟨-, hlt, -⟩
  · exact hnew hk
  · omega

theorem Booting.cache_untyped (hk : k ∈ bootKinds) (hnew : k ∉ dc) :
    t.heap.struct (bootPlace v .cache k.rank) = none := by
  refine h.untyped fun k' hk' => ?_
  rcases hk'.place h.kinds.1 h.kinds.2 (rank_lt_perPage hk _) with ⟨-, -, h3⟩ | ⟨-, -, -, hdc⟩
  · have hrank := rank_lt hk
    omega
  · obtain ⟨i, hi, heq⟩ := hdc rfl
    exact hnew (rank_inj.mp heq ▸ hi)

theorem Booting.slot_place (hk : k ∈ bootKinds) (hj : j < k.perPage) :
    t.heap.slot (bootPlace v k j) = some ⟨bootPlace v .slab k.rank, k.size⟩ := by
  rw [h.slot]
  exact bootSlot_iff.mpr ⟨k, hk, j, hj, rfl, rfl⟩

end

section
variable (hk : k ∈ bootKinds) (hds : ds ⊆ bootKinds) (hdc : dc ⊆ bootKinds)
include hk hds hdc

theorem bootTyped_slab :
    BootTyped v (k :: ds) dc k' (bootPlace v .slab k.rank) ↔ k' = .slab := by
  constructor
  · intro hk'
    have hrank := rank_lt hk
    rcases hk'.place (List.cons_subset.mpr ⟨hk, hds⟩) hdc (rank_lt_perPage hk _) with
      ⟨-, -, h3⟩ | ⟨rfl, -⟩
    · omega
    · rfl
  · rintro rfl
    exact ⟨k, List.mem_cons_self, rfl⟩

theorem bootTyped_object (hx : x ∈ objsFrom (bootPlace v k 3) k.size (k.perPage - 3)) :
    BootTyped v (k :: ds) dc k' x ↔ k' = .object := by
  obtain ⟨j, h3, hj, rfl⟩ := mem_bootObjs.mp hx
  constructor
  · intro hk'
    rcases hk'.place (List.cons_subset.mpr ⟨hk, hds⟩) hdc hj with ⟨rfl, -⟩ | ⟨-, hlt, -⟩
    · rfl
    · omega
  · rintro rfl
    exact ⟨k, List.mem_cons_self, hx⟩

end

theorem bootTyped_other (hxs : x ≠ bootPlace v .slab k.rank)
    (hxo : x ∉ objsFrom (bootPlace v k 3) k.size (k.perPage - 3)) :
    BootTyped v (k :: ds) dc k' x ↔ BootTyped v ds dc k' x := by
  cases k' with
  | vregion | cache => exact Iff.rfl
  | slab => exact (List.exists_mem_cons_iff ..).trans (or_iff_right hxs)
  | object => exact (List.exists_mem_cons_iff ..).trans (or_iff_right hxo)

theorem bootPlace_vregion_ne_slab (hi : i ∈ bootKinds) (hk : k ∈ bootKinds) :
    bootPlace v .vregion i.rank ≠ bootPlace v .slab k.rank := fun heq =>
  nomatch (bootPlace_inj (rank_lt_perPage hi _) (rank_lt_perPage hk _) heq).1

section
variable (h : Booting v spare ds dc t) (hk : k ∈ bootKinds)
  (hinit : Initialized (bootPlace v .slab k.rank) (bootPlace v .vregion k.rank)
    (bootPlace v k 3) k.size (k.perPage - 3)
    (t.heap.retype m (bootPlace v .slab k.rank) .slab) t'.heap)
include h hk hinit

theorem Booting.struct_slab (x : Nat) (k' : Struct) :
    t'.heap.struct x = some k' ↔ BootTyped v (k :: ds) dc k' x := by
  by_cases hx : x ∈ objsFrom (bootPlace v k 3) k.size (k.perPage - 3)
  · rw [hinit.object x hx, bootTyped_object hk h.kinds.1 h.kinds.2 hx, Option.some_inj]
    exact eq_comm
  rw [hinit.struct x hx]
  by_cases hxs : x = bootPlace v .slab k.rank
  · subst hxs
    have hself : (t.heap.retype m (bootPlace v .slab k.rank) .slab).struct
        (bootPlace v .slab k.rank) = some .slab := Function.update_self ..
    rw [hself, bootTyped_slab hk h.kinds.1 h.kinds.2, Option.some_inj]
    exact eq_comm
  · rw [bootTyped_other hxs hx, ← h.struct]
    exact Eq.congr_left (Function.update_of_ne hxs _ _)

omit h in
theorem bootWords_slab (hf : f.struct = .vregion) (hi : i ∈ bootKinds) :
    t'.heap.word f (bootPlace v .vregion i.rank) =
      t.heap.word f (bootPlace v .vregion i.rank) := by
  rw [hinit.changes.word f]
  · exact if_neg fun hc => bootPlace_vregion_ne_slab hi hk hc.1
  · rintro (⟨hc, -⟩ | ⟨hc, -⟩) <;> rw [hf] at hc <;> exact nomatch hc

/-- The slab just made holds the rest of its page. -/
theorem Booting.slab_made : (bootWorld v [] (fun _ => ⟨0, 0⟩) [] []).SlabOk t'.heap
    (bootPlace v .cache k.rank) (bootPlace v .slab k.rank) := by
  refine ⟨?_, ?_, fun o ho => ?_, ?_, bootWorld_owner hk, ?_⟩
  · rw [hinit.count, bootWorld_objs hk, objsFrom_length]
  · rw [bootWorld_objs hk]
    exact hinit.chain
  · rw [bootWorld_objs hk] at ho
    obtain ⟨j, -, hj, rfl⟩ := mem_bootObjs.mp ho
    rw [bootWorld_size hk, hinit.slot]
    exact ⟨hinit.object _ ho, h.slot_place hk hj⟩
  · rw [hinit.region, bootWorld_region hk]
  · rw [bootWorld_objs hk, objsFrom_length, bootWorld_per hk]
    exact Nat.sub_le _ _

theorem Booting.slab_kept (hnew : k ∉ ds) (hi : i ∈ ds) :
    (bootWorld v [] (fun _ => ⟨0, 0⟩) [] []).SlabOk t'.heap
      (bootPlace v .cache i.rank) (bootPlace v .slab i.rank) := by
  have hik : i ≠ k := ne_of_mem_of_not_mem hi hnew
  have hmem := h.kinds.1 hi
  have hbefore := (Heap.ChangesOnly.refl (fun k' b => k' = .slab ∧
    b = bootPlace v .slab k.rank ∨ k' = .object ∧
    b ∈ objsFrom (bootPlace v k 3) k.size (k.perPage - 3)) t.heap).retype (m := m)
    (.inl ⟨rfl, rfl⟩) (h.slab_untyped hk hnew)
  refine (h.slab i hi).congr rfl rfl rfl rfl rfl (hbefore.trans hinit.changes) ?_ ?_
  · rintro (⟨-, heq⟩ | ⟨hc, -⟩)
    · exact hik (bootPlace_rank_inj hmem hk heq)
    · exact nomatch hc
  · rintro o ho (⟨hc, -⟩ | ⟨-, hin⟩)
    · exact nomatch hc
    · rw [bootWorld_objs hmem] at ho
      obtain ⟨j, -, hj, rfl⟩ := mem_bootObjs.mp ho
      obtain ⟨j', -, hj', heq⟩ := mem_bootObjs.mp hin
      exact hik (bootPlace_inj hj hj' heq).1

end

theorem Booting.withSlab (h : Booting v spare ds dc t) (hk : k ∈ bootKinds) (hnew : k ∉ ds)
    (m : Mem) (hinit : Initialized (bootPlace v .slab k.rank) (bootPlace v .vregion k.rank)
    (bootPlace v k 3)
      k.size (k.perPage - 3) (t.heap.retype m (bootPlace v .slab k.rank) .slab) t'.heap) :
    Booting v spare (k :: ds) dc t' where
  kinds := ⟨List.cons_subset.mpr ⟨hk, h.kinds.1⟩, h.kinds.2⟩
  slot := hinit.slot.trans h.slot
  struct := h.struct_slab hk hinit
  words i hi := by
    rw [bootWords_slab hk hinit rfl hi, bootWords_slab hk hinit rfl hi]
    exact h.words i hi
  next := by
    refine h.next.congr fun x hx => ?_
    obtain ⟨i, hi, rfl⟩ := List.mem_map.mp hx
    rw [hinit.changes.ptr]
    · exact if_neg fun hc => bootPlace_vregion_ne_slab hi hk hc.1
    · rintro (⟨hc, -⟩ | ⟨hc, -⟩) <;> exact nomatch hc
  spare_eq := by
    rw [hinit.changes.ptr]
    · exact (if_neg fun hc => nomatch hc.2).trans h.spare_eq
    · rintro (⟨hc, -⟩ | ⟨hc, -⟩) <;> exact nomatch hc
  slab i hi := by
    rcases List.mem_cons.mp hi with rfl | hi
    · exact h.slab_made hk hinit
    · exact h.slab_kept hk hinit hnew hi

theorem Booting.initSlab (h : Booting v spare ds dc t) (hv : 1 ≤ v) (hlt : v + 3 ≤ 2 ^ 20)
    (hk : k ∈ bootKinds) (hnew : k ∉ ds) :
    Runs Shows E (fun _ t' => Booting v spare (k :: ds) dc t' ∧ t'.rest = t.rest)
      (initializeSlab (bootPlace v .slab k.rank) (bootPlace v .vregion k.rank) k.size 3) t := by
  have hslab := h.slab_untyped hk hnew
  have hrank := rank_lt hk
  have hregion : t.heap.struct (bootPlace v .vregion k.rank) = some .vregion :=
    (h.struct _ .vregion).mpr ⟨k, hk, rfl⟩
  have hne : bootPlace v .vregion k.rank ≠ bootPlace v .slab k.rank := by
    intro heq
    rw [heq, hslab] at hregion
    exact nomatch hregion
  have hper : 3 + (k.perPage - 3) = k.perPage ∧ 1 ≤ k.perPage - 3 ∧ 4 ≤ k.size := by
    revert hk
    cases k <;> decide
  have hslot : t.heap.slot (bootPlace v .slab k.rank) =
      some ⟨bootPlace v .slab Struct.slab.rank, Struct.slab.size⟩ :=
    h.slot_place (by decide) (rank_lt_perPage hk _)
  refine Runs.retype (s := .slab) hslot hslab ?_ fun m => ?_
  · exact Nat.le_refl Struct.slab.size
  have hword : ∀ f, ((t.retype m (bootPlace v .slab k.rank) .slab).heap.word f
      (bootPlace v .vregion k.rank)) = t.heap.word f (bootPlace v .vregion k.rank) := fun f =>
    if_neg fun hc => hne hc.1
  have hregion' : (t.retype m (bootPlace v .slab k.rank) .slab).heap.struct
      (bootPlace v .vregion k.rank) = some .vregion := by
    rw [View.retype_struct_other hne, hregion]
  refine (initializeSlab_runs (Function.update_self ..) hregion'
    ((hword _).trans (h.words k hk).1) ((hword _).trans (h.words k hk).2) (by omega)
    hper.2.1 (by omega) hper.2.2 (by rw [hper.1, Nat.one_mul, Struct.perPage]) ?_).imp ?_
  · intro j hj
    have hobj : (v + k.rank) * 4096 + (3 + j) * k.size ∈
        objsFrom (bootPlace v k 3) k.size (k.perPage - 3) :=
      mem_bootObjs.mpr ⟨3 + j, Nat.le_add_right _ _, by omega, rfl⟩
    refine ⟨h.slot_place hk (by omega), ?_⟩
    rw [View.retype_struct_other, h.objects_untyped hnew hobj]
    intro heq
    have hinj := bootPlace_inj (k := k) (j := 3 + j) (by omega) (rank_lt_perPage hk _) heq
    omega
  rintro x t' ⟨-, hrest, hinit⟩
  exact ⟨h.withSlab hk hnew m hinit, hrest⟩

/-! ### The regions of the first slabs -/

/-- The regions of the slabs in `done` have been described. -/
structure RegionsBegun (v : Nat) (spare : Option Nat) (done : List Struct) (t : View) : Prop where
  kinds : done ⊆ bootKinds
  slot : t.heap.slot = bootSlot v
  struct : ∀ x k, t.heap.struct x = some k ↔
    k = .vregion ∧ ∃ i ∈ done, x = bootPlace v .vregion i.rank
  words : ∀ i ∈ done, t.heap.word .firstVpn (bootPlace v .vregion i.rank) = v + i.rank ∧
    t.heap.word .nbrPages (bootPlace v .vregion i.rank) = 1
  spare_eq : t.heap.ptr .vregionNext (bootPlace v .vregion 3) = spare

/-- Where the first free object for a region has its successor in the memory before boot. -/
def bootSpare (v : Nat) (m : Mem) : Option Nat :=
  toPtr (load32 m (bootPlace v .vregion 3 + PointerField.vregionNext.offset))

theorem RegionsBegun.nil (hheap : t.heap = bootHeap v m) : RegionsBegun v (bootSpare v m) [] t := by
  refine ⟨List.nil_subset _, by rw [hheap]; rfl, fun x k => ?_, fun i hi => (nomatch hi), ?_⟩
  rotate_left
  · rw [hheap]
    exact bootHeap_spare (k := .vregion) (by decide) (by decide) _
  rw [hheap]
  constructor
  · exact fun h => nomatch h
  · rintro ⟨-, i, hi, -⟩
    exact nomatch hi

theorem bootPlace_three_ne (hk : k ∈ bootKinds) :
    bootPlace v .vregion k.rank ≠ bootPlace v .vregion 3 := by
  intro heq
  have hrank := rank_lt hk
  have hinj := (bootPlace_inj (rank_lt_perPage hk _) (by decide) heq).2
  omega

theorem View.regionInit_eq {t t' : View} (ht : ((t.retype m a .vregion).setWord .firstVpn a
    first).setWord .nbrPages a n = t') :
    t'.rest = t.rest ∧ t'.heap.slot = t.heap.slot ∧
      t'.heap.struct = Function.update t.heap.struct a (some .vregion) ∧
      (t'.heap.word .firstVpn a = first ∧ t'.heap.word .nbrPages a = n) ∧
      (∀ b, b ≠ a → ∀ f, t'.heap.word f b = t.heap.word f b) ∧
      ∀ b, b ≠ a → t'.heap.ptr .vregionNext b = t.heap.ptr .vregionNext b := by
  subst ht
  refine ⟨rfl, rfl, rfl, ⟨?_, ?_⟩, fun b hb f => ?_, fun b hb => if_neg fun hc => hb hc.1⟩
  · rw [View.setWord_heap, Heap.setWord_of_field _ WordField.noConfusion, View.setWord_heap,
      Heap.setWord_self]
  · rw [View.setWord_heap, Heap.setWord_self]
  · rw [View.setWord_heap, Heap.setWord_of_addr _ _ hb, View.setWord_heap,
      Heap.setWord_of_addr _ _ hb]
    exact if_neg fun hc => hb hc.1

theorem RegionsBegun.init (h : RegionsBegun v spare done t) (hk : k ∈ bootKinds) (hnew : k ∉ done)
    (hlt : v + 3 ≤ 2 ^ 20)
    {x : Unit → Prog Panic Kernel α}
    (hx : ∀ t', RegionsBegun v spare (k :: done) t' → t'.rest = t.rest → Runs Shows E Q (x ()) t') :
    Runs Shows E Q (vregionInit (bootPlace v .vregion k.rank) (v + k.rank) 1 >>= x) t := by
  have hrank := rank_lt hk
  have hslot : t.heap.slot (bootPlace v .vregion k.rank) =
      some ⟨bootPlace v .slab Struct.vregion.rank, Struct.vregion.size⟩ := by
    rw [h.slot]
    exact bootSlot_iff.mpr ⟨.vregion, by decide, k.rank, rank_lt_perPage hk _, rfl, rfl⟩
  have hn : t.heap.struct (bootPlace v .vregion k.rank) = none := by
    by_contra hne
    obtain ⟨k', hk'⟩ := Option.ne_none_iff_exists'.mp hne
    obtain ⟨-, i, hi, heq⟩ := (h.struct _ _).mp hk'
    exact hnew (bootPlace_rank_inj hk (h.kinds hi) heq ▸ hi)
  refine Runs.retype (s := .vregion) hslot hn ?_ fun m => ?_
  · exact Nat.le_refl Struct.vregion.size
  have hself : (t.retype m (bootPlace v .vregion k.rank) .vregion).heap.struct
      (bootPlace v .vregion k.rank) = some .vregion := Function.update_self ..
  unfold vregionInit
  simp only [bind_assoc]
  refine .writeWord .firstVpn hself (by omega) (.writeWord .nbrPages hself (by decide) ?_)
  generalize ht₁ : ((t.retype m (bootPlace v .vregion k.rank) .vregion).setWord .firstVpn
    (bootPlace v .vregion k.rank) (v + k.rank)).setWord .nbrPages
    (bootPlace v .vregion k.rank) 1 = t₁
  obtain ⟨hrest, hslots, hstruct, hself₁, hother, hnext⟩ := View.regionInit_eq ht₁
  refine hx t₁ ⟨List.cons_subset.mpr ⟨hk, h.kinds⟩, hslots.trans h.slot, fun x k' => ?_,
    fun i hi => ?_, ?_⟩ hrest
  rotate_left 2
  · rw [hnext _ (bootPlace_three_ne hk).symm, h.spare_eq]
  · rw [hstruct, Function.update_apply]
    split
    · refine ⟨fun heq => ⟨(Option.some.inj heq).symm, k, List.mem_cons_self, ‹_›⟩, ?_⟩
      rintro ⟨rfl, -⟩
      rfl
    · rw [h.struct]
      refine and_congr_right fun _ => ⟨?_, ?_⟩
      · rintro ⟨i, hi, heq⟩
        exact ⟨i, List.mem_cons_of_mem k hi, heq⟩
      · rintro ⟨i, hi, heq⟩
        rcases List.mem_cons.mp hi with rfl | hi
        · exact absurd heq ‹_›
        · exact ⟨i, hi, heq⟩
  · by_cases hik : i = k
    · rw [hik]
      exact hself₁
    · have hold := (List.mem_cons.mp hi).resolve_left hik
      have hne : bootPlace v .vregion i.rank ≠ bootPlace v .vregion k.rank := fun heq =>
        hik (bootPlace_rank_inj (h.kinds hold) hk heq)
      rw [hother _ hne, hother _ hne]
      exact h.words i hold

theorem Chain.three {next : Nat → Option Nat} (hab : next a = some b) (hbc : next b = some c)
    (hc : next c = none) : Chain next (some a) [a, b, c] := by
  refine ⟨rfl, ?_⟩
  rw [hab]
  refine ⟨rfl, ?_⟩
  rw [hbc]
  exact ⟨rfl, hc⟩

theorem RegionsBegun.link (h : RegionsBegun v spare [.vregion, .slab, .cache] t)
    {x : Prog Panic Kernel α}
    (hx : ∀ t', Booting v spare [] [] t' → t'.rest = t.rest → Runs Shows E Q x t') :
    Runs Shows E Q (do
      (vregionNextOf (bootPlace v .vregion 0)).write (some (bootPlace v .vregion 1))
      (vregionNextOf (bootPlace v .vregion 1)).write (some (bootPlace v .vregion 2))
      (vregionNextOf (bootPlace v .vregion 2)).write none
      x) t := by
  refine Runs.shown fun s hs => ?_
  have hmem : ∀ k, k ∈ bootKinds ↔ k ∈ [Struct.vregion, .slab, .cache] := by
    intro k
    cases k <;> decide
  have hregion : ∀ k ∈ bootKinds, t.heap.struct (bootPlace v .vregion k.rank) = some .vregion :=
    fun k hk => (h.struct _ _).mpr ⟨rfl, k, (hmem k).mp hk, rfl⟩
  have h0 := hregion .cache (by decide)
  have h1 := hregion .slab (by decide)
  have h2 := hregion .vregion (by decide)
  have hne : ∀ i < 3, ∀ j < 3, i ≠ j → bootPlace v .vregion i ≠ bootPlace v .vregion j := by
    intro i hi j hj hij heq
    have hper : (3 : Nat) ≤ Struct.vregion.perPage := by decide
    exact hij (bootPlace_inj (by omega) (by omega) heq).2
  change t.heap.struct (bootPlace v .vregion 0) = _ at h0
  change t.heap.struct (bootPlace v .vregion 1) = _ at h1
  change t.heap.struct (bootPlace v .vregion 2) = _ at h2
  refine .writePtr .vregionNext h0 (hs.addrOk h1) (.writePtr .vregionNext h1 (hs.addrOk h2) ?_)
  refine .writePtr .vregionNext h2 .none (hx _ ⟨⟨List.nil_subset _, List.nil_subset _⟩, h.slot,
    fun x k => ?_, fun k hk => ?_, ?_, ?_, fun k hk => (nomatch hk)⟩ rfl)
  · change t.heap.struct x = some k ↔ _
    rw [h.struct]
    cases k with
    | vregion =>
      refine (and_iff_right rfl).trans ⟨?_, ?_⟩
      · rintro ⟨i, hi, heq⟩
        exact ⟨i, (hmem i).mpr hi, heq⟩
      · rintro ⟨i, hi, heq⟩
        exact ⟨i, (hmem i).mp hi, heq⟩
    | slab | cache | object =>
      constructor
      · rintro ⟨hc, -⟩
        exact nomatch hc
      · rintro ⟨i, hi, -⟩
        exact nomatch hi
  · exact h.words k ((hmem k).mp hk)
  · have h01 := hne 0 (by decide) 1 (by decide) (by decide)
    have h02 := hne 0 (by decide) 2 (by decide) (by decide)
    have h12 := hne 1 (by decide) 2 (by decide) (by decide)
    change Chain _ (some (bootPlace v .vregion 0)) [bootPlace v .vregion 0, bootPlace v .vregion 1,
      bootPlace v .vregion 2]
    refine .three ?_ ?_ ?_
    · rw [View.setPtr_heap, Heap.setPtr_of_addr _ _ h02, View.setPtr_heap,
        Heap.setPtr_of_addr _ _ h01, View.setPtr_heap, Heap.setPtr_self]
    · rw [View.setPtr_heap, Heap.setPtr_of_addr _ _ h12, View.setPtr_heap, Heap.setPtr_self]
    · rw [View.setPtr_heap, Heap.setPtr_self]
  · have hthree : ∀ i < 3, bootPlace v .vregion 3 ≠ bootPlace v .vregion i := by
      intro i hi heq
      have hper : (3 : Nat) ≤ Struct.vregion.perPage := by decide
      have hinj := (bootPlace_inj (by decide) (by omega) heq).2
      omega
    rw [View.setPtr_heap, Heap.setPtr_of_addr _ _ (hthree 2 (by decide)), View.setPtr_heap,
      Heap.setPtr_of_addr _ _ (hthree 1 (by decide)), View.setPtr_heap,
      Heap.setPtr_of_addr _ _ (hthree 0 (by decide)), h.spare_eq]

end Atros
