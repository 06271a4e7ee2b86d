import Atros.SlabCreate

namespace Atros
set_option autoImplicit true

/-! ### The first slabs

The slabs for caches, for slabs and for regions lie in the pages `v`, `v + 1` and `v + 2`; the
first three objects of each describe the three caches, the three slabs and the three regions. -/

/-- The structures that have a cache of their own, in the order of their pages. -/
def bootKinds : List Struct := [.cache, .slab, .vregion]

def Struct.rank : Struct → Nat
  | cache => 0
  | slab => 1
  | vregion => 2
  | object => 3

/-- The objects of a slab of one page. -/
def Struct.perPage (k : Struct) : Nat := 4096 / k.size

/-- The `j`th place in the first slab of the structures `k`. -/
def bootPlace (v : Nat) (k : Struct) (j : Nat) : Nat := (v + k.rank) * 4096 + j * k.size

def bootPlaces (v : Nat) (k : Struct) : List Nat := objsFrom ((v + k.rank) * 4096) k.size k.perPage

theorem mem_bootPlaces : x ∈ bootPlaces v k ↔ ∃ j < k.perPage, x = bootPlace v k j := mem_objsFrom

theorem rank_inj : Struct.rank k = Struct.rank k' ↔ k = k' := by
  cases k <;> cases k' <;> decide

theorem rank_lt (hk : k ∈ bootKinds) : Struct.rank k < 3 := by
  revert hk
  cases k <;> decide

theorem rank_lt_perPage (hk : k ∈ bootKinds) (k' : Struct) : k.rank < k'.perPage := by
  revert hk
  cases k <;> cases k' <;> decide

theorem bootPlace_bounds (hj : j < Struct.perPage k) : (v + k.rank) * 4096 ≤ bootPlace v k j ∧
    bootPlace v k j + k.size ≤ (v + k.rank + 1) * 4096 := by
  have hmul : (j + 1) * k.size ≤ k.perPage * k.size := Nat.mul_le_mul_right _ hj
  have hper : k.perPage * k.size ≤ 4096 := Nat.div_mul_le_self _ _
  rw [Nat.succ_mul] at hmul
  rw [bootPlace]
  omega

theorem bootPlace_apart (hj : j < Struct.perPage k) (hj' : j' < Struct.perPage k')
    (hne : bootPlace v k j ≠ bootPlace v k' j') :
    bootPlace v k j + k.size ≤ bootPlace v k' j' ∨ bootPlace v k' j' + k'.size ≤
    bootPlace v k j := by
  have hb := bootPlace_bounds (v := v) hj
  have hb' := bootPlace_bounds (v := v) hj'
  by_cases hk : k = k'
  · subst hk
    exact objsFrom_apart (mem_bootPlaces.mpr ⟨j, hj, rfl⟩) (mem_bootPlaces.mpr ⟨j', hj', rfl⟩) hne
  · have hrank := mt rank_inj.mp hk
    omega

theorem bootPlace_inj (hj : j < Struct.perPage k) (hj' : j' < Struct.perPage k')
    (h : bootPlace v k j = bootPlace v k' j') : k = k' ∧ j = j' := by
  have hb := bootPlace_bounds (v := v) hj
  have hb' := bootPlace_bounds (v := v) hj'
  have hpos := k.size_pos
  have hpos' := k'.size_pos
  have hkk : k = k' := rank_inj.mp (by omega)
  subst hkk
  rw [bootPlace, bootPlace] at h
  exact ⟨rfl, Nat.eq_of_mul_eq_mul_right hpos (by omega)⟩

/-- What goes with the structure `k'` that describes the kind `k`. -/
def bootPick (v : Nat) (k' : Struct) (d : α) (f : Struct → α) (x : Nat) : α :=
  ((bootKinds.find? fun k => x = bootPlace v k' k.rank).map f).getD d

theorem bootPick_rank (d : α) (f : Struct → α) (hk : k ∈ bootKinds) :
    bootPick v k' d f (bootPlace v k' k.rank) = f k := by
  have hfind : (bootKinds.find? fun i => bootPlace v k' k.rank = bootPlace v k' i.rank) =
    some k := by
    have hsome : (bootKinds.find? fun i => bootPlace v k' k.rank =
      bootPlace v k' i.rank).isSome := by
      rw [List.find?_isSome]
      exact ⟨k, hk, by simp⟩
    obtain ⟨i, hi⟩ := Option.isSome_iff_exists.mp hsome
    have heq := List.find?_some hi
    have hmem := List.mem_of_find?_eq_some hi
    have hinj := bootPlace_inj (rank_lt_perPage hk k') (rank_lt_perPage hmem k')
      (of_decide_eq_true heq)
    rw [hi, rank_inj.mp hinj.2]
  rw [bootPick, hfind]
  rfl

theorem bootPick_other (d : α) (f : Struct → α) (hx : ∀ k ∈ bootKinds, x ≠ bootPlace v k' k.rank) :
    bootPick v k' d f x = d := by
  have hfind : (bootKinds.find? fun i => x = bootPlace v k' i.rank) = none := by
    rw [List.find?_eq_none]
    intro k hk
    simpa using hx k hk
  rw [bootPick, hfind]
  rfl

/-- The slot at an address of the first slabs. -/
def bootSlot (v x : Nat) : Option Slot :=
  (bootKinds.find? fun k => x ∈ bootPlaces v k).map fun k => ⟨bootPlace v .slab k.rank, k.size⟩

theorem bootSlot_iff : bootSlot v x = some u ↔
    ∃ k ∈ bootKinds, ∃ j < k.perPage, x = bootPlace v k j ∧
    u = ⟨bootPlace v .slab k.rank, k.size⟩ := by
  rw [bootSlot, Option.map_eq_some_iff]
  constructor
  · rintro ⟨k, hk, rfl⟩
    have hplaces := List.find?_some hk
    obtain ⟨j, hj, hx⟩ := mem_bootPlaces.mp (of_decide_eq_true hplaces)
    exact ⟨k, List.mem_of_find?_eq_some hk, j, hj, hx, rfl⟩
  · rintro ⟨k, hk, j, hj, rfl, rfl⟩
    have hsome : (bootKinds.find? fun i => bootPlace v k j ∈ bootPlaces v i).isSome := by
      rw [List.find?_isSome]
      exact ⟨k, hk, decide_eq_true (mem_bootPlaces.mpr ⟨j, hj, rfl⟩)⟩
    obtain ⟨i, hi⟩ := Option.isSome_iff_exists.mp hsome
    have hplaces := List.find?_some hi
    obtain ⟨j', hj', heq⟩ := mem_bootPlaces.mp (of_decide_eq_true hplaces)
    have hki := (bootPlace_inj hj hj' heq).1
    exact ⟨i, hi, by rw [hki]⟩

/-- The memory `m` before any structure is made. -/
def bootHeap (v : Nat) (m : Mem) : Heap where
  word _ _ := 0
  ptr _ a := match bootSlot v a with
    | some _ => toPtr (load32 m (a + PointerField.vregionNext.offset))
    | none => some 0
  struct _ := none
  slot := bootSlot v

theorem bootHeap_spare (hj : j < Struct.perPage k) (hk : k ∈ bootKinds) (f : PointerField) :
    (bootHeap v m).ptr f (bootPlace v k j) =
      toPtr (load32 m (bootPlace v k j + PointerField.vregionNext.offset)) := by
  have hslot : bootSlot v (bootPlace v k j) = some ⟨bootPlace v .slab k.rank, k.size⟩ :=
    bootSlot_iff.mpr ⟨k, hk, j, hj, rfl, rfl⟩
  simp only [bootHeap, hslot]

theorem bootHeap_models (hv : 1 ≤ v) (hlt : v + 3 ≤ 2 ^ 20) (m : Mem) :
    (bootHeap v m).Models m := by
  refine ⟨fun _ _ h => (nomatch h), fun _ _ h => (nomatch h), fun _ _ h => (nomatch h),
    fun _ _ h => (nomatch h), fun a b t u ha hb hne => ?_, fun a t ha => ?_, fun a t ha _ _ => ?_,
    fun a ha => ?_⟩
  rotate_left 2
  · obtain ⟨k, hk, j, hj, rfl, -⟩ := bootSlot_iff.mp ha
    rw [bootHeap_spare hj hk, ofPtr_toPtr]
    exact .inr rfl
  · change bootSlot v a = none at ha
    simp only [bootHeap, ha]
  · obtain ⟨k, -, j, hj, rfl, rfl⟩ := bootSlot_iff.mp ha
    obtain ⟨k', -, j', hj', rfl, rfl⟩ := bootSlot_iff.mp hb
    exact bootPlace_apart hj hj' hne
  · obtain ⟨k, hk, j, hj, rfl, rfl⟩ := bootSlot_iff.mp ha
    have hb := bootPlace_bounds (v := v) hj
    have hrank := rank_lt hk
    simp only
    omega

/-- The world of the first slabs, of which those of the kinds in `added` are on their list. -/
def bootWorld (v : Nat) (added : List Struct) (block : Struct → Block) (free live : List Block) :
    World where
  cacheObjsCache := bootPlace v .cache 0
  cacheSlab := bootPlace v .cache 1
  cacheVregion := bootPlace v .cache 2
  caches := bootKinds.map fun k => bootPlace v .cache k.rank
  slabs := bootPick v .cache (fun _ => []) fun k st =>
    if k ∈ added ∧ st = .statusPartial then [bootPlace v .slab k.rank] else []
  objs := bootPick v .slab [] fun k => objsFrom (bootPlace v k 3) k.size (k.perPage - 3)
  owner := bootPick v .slab 0 fun k => bootPlace v .cache k.rank
  size := bootPick v .cache 0 Struct.size
  pages _ := 1
  region := bootPick v .slab 0 fun k => bootPlace v .vregion k.rank
  freeRegions := []
  usedRegions := bootKinds.map fun k => bootPlace v .vregion k.rank
  extent := bootPick v .vregion ⟨0, 0⟩ fun k => ⟨v + k.rank, 1⟩
  block := bootPick v .slab ⟨0, 0⟩ block
  freeBlocks := free
  live := live

section
variable {v : Nat} {added : List Struct} {block : Struct → Block} {free live : List Block}

theorem bootWorld_homeOf (hk : k ∈ bootKinds) :
    (bootWorld v added block free live).homeOf k = bootPlace v .cache k.rank := by
  revert hk
  cases k with
  | object => exact fun hk => absurd hk (by decide)
  | _ => exact fun _ => rfl

theorem mem_bootCaches : c ∈ (bootWorld v added block free live).caches ↔
    ∃ k ∈ bootKinds, bootPlace v .cache k.rank = c := List.mem_map

theorem bootWorld_size (hk : k ∈ bootKinds) :
    (bootWorld v added block free live).size (bootPlace v .cache k.rank) = k.size :=
  bootPick_rank _ _ hk

theorem bootWorld_per (hk : k ∈ bootKinds) :
    (bootWorld v added block free live).per (bootPlace v .cache k.rank) = k.perPage := by
  have hsize : mul32 1 vpageSize = 4096 := by decide
  rw [World.per, bootWorld_size hk]
  change mul32 1 vpageSize / k.size = _
  rw [hsize, Struct.perPage]

theorem bootWorld_slabs (hk : k ∈ bootKinds) (st : SlabStatus) :
    (bootWorld v added block free live).slabs (bootPlace v .cache k.rank) st =
      if k ∈ added ∧ st = .statusPartial then [bootPlace v .slab k.rank] else [] :=
  congrFun (bootPick_rank (fun _ => []) (fun k (st : SlabStatus) =>
    if k ∈ added ∧ st = .statusPartial then [bootPlace v .slab k.rank] else []) hk) st

theorem mem_bootWorld_all (hk : k ∈ bootKinds) :
    s ∈ (bootWorld v added block free live).all (bootPlace v .cache k.rank) ↔
      k ∈ added ∧ s = bootPlace v .slab k.rank := by
  rw [World.all, mem_allOf]
  simp only [bootWorld_slabs hk]
  constructor
  · rintro ⟨st, hs⟩
    split at hs
    · exact ⟨(‹_ ∧ _› : k ∈ added ∧ st = .statusPartial).1, List.mem_singleton.mp hs⟩
    · exact absurd hs List.not_mem_nil
  · rintro ⟨hadded, rfl⟩
    exact ⟨.statusPartial, by rw [if_pos ⟨hadded, rfl⟩]; exact List.mem_singleton_self _⟩

theorem bootWorld_objs (hk : k ∈ bootKinds) :
    (bootWorld v added block free live).objs (bootPlace v .slab k.rank) =
      objsFrom (bootPlace v k 3) k.size (k.perPage - 3) :=
  bootPick_rank _ _ hk

theorem bootWorld_region (hk : k ∈ bootKinds) :
    (bootWorld v added block free live).region (bootPlace v .slab k.rank) =
      bootPlace v .vregion k.rank :=
  bootPick_rank _ _ hk

theorem bootWorld_extent (hk : k ∈ bootKinds) :
    (bootWorld v added block free live).extent (bootPlace v .vregion k.rank) = ⟨v + k.rank, 1⟩ :=
  bootPick_rank _ _ hk

theorem bootWorld_block (hk : k ∈ bootKinds) :
    (bootWorld v added block free live).block (bootPlace v .slab k.rank) = block k :=
  bootPick_rank _ _ hk

theorem bootWorld_owner (hk : k ∈ bootKinds) :
    (bootWorld v added block free live).owner (bootPlace v .slab k.rank) =
      bootPlace v .cache k.rank :=
  bootPick_rank _ _ hk

theorem bootWorld_places (hk : k ∈ bootKinds) :
    (bootWorld v added block free live).places (bootPlace v .cache k.rank)
      (bootPlace v .slab k.rank) = bootPlaces v k := by
  rw [World.places, bootWorld_region hk, bootWorld_extent hk, bootWorld_size hk, bootWorld_per hk]
  rfl

theorem bootPlace_rank_inj (hk : k ∈ bootKinds) (hk' : k' ∈ bootKinds)
    (h : bootPlace v s k.rank = bootPlace v s k'.rank) : k = k' :=
  rank_inj.mp (bootPlace_inj (rank_lt_perPage hk s) (rank_lt_perPage hk' s) h).2

theorem bootWorld_withSlab (hk : k ∈ bootKinds) (hnew : k ∉ added) :
    (bootWorld v added block free live).withSlab (bootPlace v .cache k.rank)
      (bootPlace v .slab k.rank) .statusPartial = bootWorld v (k :: added) block free live := by
  have hslabs : Function.update (bootWorld v added block free live).slabs
    (bootPlace v .cache k.rank)
      (Function.update ((bootWorld v added block free live).slabs (bootPlace v .cache k.rank))
        .statusPartial (bootPlace v .slab k.rank ::
          (bootWorld v added block free live).slabs (bootPlace v .cache k.rank) .statusPartial)) =
      (bootWorld v (k :: added) block free live).slabs := by
    funext c st
    by_cases hc : ∃ k' ∈ bootKinds, c = bootPlace v .cache k'.rank
    · obtain ⟨k', hk', rfl⟩ := hc
      rw [bootWorld_slabs hk']
      by_cases hkk : k' = k
      · subst hkk
        rw [Function.update_self]
        by_cases hst : st = .statusPartial
        · rw [hst, Function.update_self, bootWorld_slabs hk, if_neg fun hc => hnew hc.1,
            if_pos ⟨List.mem_cons_self, rfl⟩]
        · rw [Function.update_of_ne hst, bootWorld_slabs hk, if_neg fun hc => hst hc.2,
            if_neg fun hc => hst hc.2]
      · have hne : bootPlace v .cache k'.rank ≠ bootPlace v .cache k.rank := fun heq =>
          hkk (bootPlace_rank_inj hk' hk heq)
        rw [Function.update_of_ne hne, bootWorld_slabs hk']
        refine if_congr (and_congr_left fun _ => ?_) rfl rfl
        rw [List.mem_cons, or_iff_right hkk]
    · push Not at hc
      have hne := hc k hk
      rw [Function.update_of_ne hne]
      have hother : ∀ added, (bootWorld v added block free live).slabs c = fun _ => [] :=
        fun _ => bootPick_other _ _ hc
      rw [hother, hother]
  rw [World.withSlab, hslabs]
  rfl

end

end Atros
