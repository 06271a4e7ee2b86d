import Mathlib.Data.List.Range
import Atros.SlabAdd

namespace Atros
set_option autoImplicit true

variable {H H' H₁ : Heap} {t t' t₁ : View} {E : Panic → Prop}

/-! ### The free objects of a new slab -/

/-- `n` objects of `z` bytes from `a` on. -/
def objsFrom (a z : Nat) : Nat → List Nat
  | 0 => []
  | n + 1 => a :: objsFrom (a + z) z n

theorem mem_objsFrom : x ∈ objsFrom a z n ↔ ∃ j < n, x = a + j * z := by
  induction n generalizing a with
  | zero => simp only [objsFrom, List.not_mem_nil, Nat.not_lt_zero, false_and, exists_false]
  | succ n ih =>
    rw [objsFrom, List.mem_cons, ih]
    constructor
    · rintro (rfl | ⟨j, hj, rfl⟩)
      · exact ⟨0, Nat.succ_pos n, by rw [Nat.zero_mul, Nat.add_zero]⟩
      · exact ⟨j + 1, Nat.succ_lt_succ hj, by rw [Nat.succ_mul]; omega⟩
    · rintro ⟨j, hj, rfl⟩
      cases j with
      | zero => exact .inl (by rw [Nat.zero_mul, Nat.add_zero])
      | succ j => exact .inr ⟨j, Nat.lt_of_succ_lt_succ hj, by rw [Nat.succ_mul]; omega⟩

theorem objsFrom_length (a z n : Nat) : (objsFrom a z n).length = n := by
  induction n generalizing a with
  | zero => rfl
  | succ n ih => rw [objsFrom, List.length_cons, ih]

theorem objsFrom_add (a z m n : Nat) :
    objsFrom a z (m + n) = objsFrom a z m ++ objsFrom (a + m * z) z n := by
  induction m generalizing a with
  | zero => rw [Nat.zero_add, Nat.zero_mul, Nat.add_zero]; rfl
  | succ m ih =>
    rw [Nat.succ_add, objsFrom, ih, objsFrom, List.cons_append]
    congr 3
    rw [Nat.succ_mul]
    omega

theorem objsFrom_succ (a z n : Nat) : objsFrom a z (n + 1) = objsFrom a z n ++ [a + n * z] :=
  objsFrom_add a z n 1

theorem objsFrom_apart (ha : a ∈ objsFrom x z n) (hb : b ∈ objsFrom x z n) (hne : a ≠ b) :
    a + z ≤ b ∨ b + z ≤ a := by
  obtain ⟨i, -, rfl⟩ := mem_objsFrom.mp ha
  obtain ⟨j, -, rfl⟩ := mem_objsFrom.mp hb
  rcases Nat.lt_trichotomy i j with hij | rfl | hij
  · have hmul : (i + 1) * z ≤ j * z := Nat.mul_le_mul_right z hij
    rw [Nat.succ_mul] at hmul
    omega
  · exact absurd rfl hne
  · have hmul : (j + 1) * z ≤ i * z := Nat.mul_le_mul_right z hij
    rw [Nat.succ_mul] at hmul
    omega

theorem objsFrom_nodup (hz : 0 < z) (a n : Nat) : (objsFrom a z n).Nodup := by
  induction n generalizing a with
  | zero => exact .nil
  | succ n ih =>
    refine List.nodup_cons.mpr ⟨fun hmem => ?_, ih _⟩
    obtain ⟨j, -, heq⟩ := mem_objsFrom.mp hmem
    omega

/-- The objects `os` have become free objects of a slab, with a pointer to the next one; the
last of them is still to be linked. -/
structure Heap.Linking (a z n : Nat) (H H' : Heap) : Prop where
  word : ∀ f b, H'.word f b = H.word f b
  ptr : ∀ f b, f ≠ .objectNext ∨ b ∉ objsFrom a z n → H'.ptr f b = H.ptr f b
  next : ∀ j < n, H'.ptr .objectNext (a + j * z) = some (a + (j + 1) * z)
  object : ∀ b ∈ objsFrom a z n, H'.struct b = some .object
  struct : ∀ b, b ∉ objsFrom a z n → H'.struct b = H.struct b
  slot : H'.slot = H.slot

theorem Heap.linkObject_word (H : Heap) (m : Mem) (a : Nat) (v : Option Nat) :
    ((H.retype m a .object).setPtr .objectNext a v).word = H.word := by
  funext f b
  refine if_neg ?_
  rintro ⟨-, hf⟩
  cases f <;> cases hf

theorem Heap.linkObject_ptr (H : Heap) (m : Mem) (v : Option Nat) (hb : f ≠ .objectNext ∨ b ≠ a) :
    ((H.retype m a .object).setPtr .objectNext a v).ptr f b = H.ptr f b := by
  rcases hb with hf | hb
  · refine (if_neg fun hc => hf hc.1).trans (if_neg ?_)
    rintro ⟨-, hc⟩
    cases f <;> first | exact hf rfl | cases hc
  · exact (if_neg fun hc => hb hc.2).trans (if_neg fun hc => hb hc.1)

theorem initializeLoop_runs (hs : t.heap.struct s = some .slab)
    (hcount : t.heap.word .slabFreeObjsCount s = i + m) (hr : m < rounds) (hz : 4 ≤ z)
    (hslot : ∀ j ≤ m, t.heap.slot (cur + j * z) = some ⟨s, z⟩ ∧ t.heap.struct (cur + j * z) = none)
    (hpos : 0 < cur) (hlt : cur + m * z < 2 ^ 32) :
    Runs Shows E (fun r t' => r = cur + m * z ∧ t'.rest = t.rest ∧
      Heap.Linking cur z m t.heap t'.heap) (initializeLoop s z rounds i cur) t := by
  induction m generalizing rounds i cur t with
  | zero =>
    obtain ⟨rounds, rfl⟩ := Nat.exists_eq_succ_of_ne_zero (Nat.ne_of_gt hr)
    rw [initializeLoop]
    refine .readWord .slabFreeObjsCount hs ?_
    rw [hcount, Nat.add_zero, if_neg (Nat.lt_irrefl i)]
    refine .pure ⟨by rw [Nat.zero_mul, Nat.add_zero], rfl, ?_⟩
    exact ⟨fun _ _ => rfl, fun _ _ _ => rfl, fun j hj => by omega, fun b hb => (nomatch hb),
      fun _ _ => rfl, rfl⟩
  | succ m ih =>
    obtain ⟨rounds, rfl⟩ := Nat.exists_eq_succ_of_ne_zero (Nat.ne_of_gt (Nat.zero_lt_of_lt hr))
    have hmul : (m + 1) * z = m * z + z := Nat.succ_mul m z
    have hcur := hslot 0 (Nat.zero_le _)
    rw [Nat.zero_mul, Nat.add_zero] at hcur
    rw [initializeLoop]
    refine .readWord .slabFreeObjsCount hs ?_
    rw [hcount, if_pos (by omega), add32_of_lt (by omega)]
    have hnext : toPtr (cur + z) = some (cur + z) := if_neg (by omega)
    refine .retype (s := .object) hcur.1 hcur.2 (by exact hz) fun mem => ?_
    refine .writePtr .objectNext (Function.update_self ..) ?_ ?_
    · rw [hnext]
      exact .some (by omega) (by omega)
    rw [hnext]
    have hoff : ∀ j ≤ m, cur + z + j * z ≠ cur := fun j _ => by omega
    have hadd : ∀ j, cur + z + j * z = cur + (j + 1) * z := fun j => by
      rw [Nat.succ_mul]
      omega
    have hsc : s ≠ cur := by
      rintro rfl
      rw [hs] at hcur
      cases hcur.2
    refine (ih (i := i + 1) ?_ ?_ (by omega) ?_ (by omega) (by omega)).imp ?_
    · exact (Function.update_of_ne hsc _ _).trans hs
    · refine Eq.trans ?_ (hcount.trans (by omega))
      exact if_neg fun hc => hsc hc.1
    · intro j hj
      rw [hadd]
      have hold := hslot (j + 1) (by omega)
      refine ⟨hold.1, (Function.update_of_ne ?_ _ _).trans hold.2⟩
      rw [← hadd]
      exact hoff j hj
    · rintro r t' ⟨rfl, hrest, hlink⟩
      have hmem : ∀ b, b ∉ objsFrom cur z (m + 1) → b ≠ cur ∧ b ∉ objsFrom (cur + z) z m := by
        intro b hb
        rw [objsFrom, List.mem_cons, not_or] at hb
        exact hb
      have hcurOff : cur ∉ objsFrom (cur + z) z m := by
        rw [mem_objsFrom]
        rintro ⟨j, hj, heq⟩
        exact hoff j (Nat.le_of_lt hj) heq.symm
      refine ⟨by rw [hmul]; omega, hrest, ?_, ?_, ?_, ?_, ?_, hlink.slot⟩
      · intro f b
        rw [hlink.word]
        exact congrFun (congrFun (t.heap.linkObject_word mem cur (some (cur + z))) f) b
      · rintro f b (hf | hb)
        · rw [hlink.ptr f b (.inl hf)]
          exact t.heap.linkObject_ptr mem (some (cur + z)) (.inl hf)
        · obtain ⟨hb₁, hb₂⟩ := hmem b hb
          rw [hlink.ptr f b (.inr hb₂)]
          exact t.heap.linkObject_ptr mem (some (cur + z)) (.inr hb₁)
      · intro j hj
        cases j with
        | zero =>
          rw [Nat.zero_mul, Nat.add_zero, hlink.ptr _ _ (.inr hcurOff), Nat.zero_add, Nat.one_mul]
          exact if_pos ⟨rfl, rfl⟩
        | succ j =>
          rw [← hadd, hlink.next j (by omega), hadd]
      · intro b hb
        rw [objsFrom, List.mem_cons] at hb
        rcases hb with rfl | hb
        · rw [hlink.struct b hcurOff]
          exact Function.update_self b _ _
        · exact hlink.object b hb
      · intro b hb
        obtain ⟨hb₁, hb₂⟩ := hmem b hb
        rw [hlink.struct b hb₂]
        exact Function.update_of_ne hb₁ _ _

theorem chain_objsFrom {next : Nat → Option Nat}
    (hnext : ∀ j < n, next (a + j * z) = some (a + (j + 1) * z))
    (hlast : next (a + n * z) = none) : Chain next (some a) (objsFrom a z (n + 1)) := by
  induction n generalizing a with
  | zero =>
    rw [Nat.zero_mul, Nat.add_zero] at hlast
    exact ⟨rfl, hlast⟩
  | succ n ih =>
    have hadd : ∀ j, a + z + j * z = a + (j + 1) * z := fun j => by
      rw [Nat.succ_mul]
      omega
    refine ⟨rfl, ?_⟩
    have h₀ := hnext 0 (Nat.succ_pos n)
    rw [Nat.zero_mul, Nat.add_zero, Nat.zero_add, Nat.one_mul] at h₀
    rw [h₀]
    refine ih ?_ (by rw [hadd, hlast])
    intro j hj
    rw [hadd, hadd]
    exact hnext (j + 1) (by omega)

theorem listLengthLoop_runs (hch : Chain (t.heap.ptr .objectNext) cur xs)
    (hxs : ∀ x ∈ xs, t.heap.struct x = some .object) (hr : xs.length < rounds) :
    Runs Shows E (fun r t' => r = len + xs.length ∧ t' = t)
      (listLengthLoop objectNextOf rounds len cur) t := by
  induction xs generalizing rounds len cur with
  | nil =>
    obtain ⟨rounds, rfl⟩ := Nat.exists_eq_succ_of_ne_zero (Nat.ne_of_gt hr)
    cases hch
    exact .pure ⟨rfl, rfl⟩
  | cons x xs ih =>
    obtain ⟨rounds, rfl⟩ := Nat.exists_eq_succ_of_ne_zero (Nat.ne_of_gt (Nat.zero_lt_of_lt hr))
    obtain ⟨rfl, htail⟩ := hch
    rw [List.length_cons] at hr ⊢
    rw [listLengthLoop]
    refine .readPtr .objectNext (hxs x List.mem_cons_self) ?_
    refine (ih htail (fun y hy => hxs y (List.mem_cons_of_mem x hy)) (by omega)).imp ?_
    rintro r t' ⟨rfl, rfl⟩
    exact ⟨by omega, rfl⟩

/-- The free objects of a slab have been linked. -/
structure Heap.Linked (a z n : Nat) (H H' : Heap) : Prop where
  word : ∀ f b, H'.word f b = H.word f b
  ptr : ∀ f b, f ≠ .objectNext ∨ b ∉ objsFrom a z n → H'.ptr f b = H.ptr f b
  chain : Chain (H'.ptr .objectNext) (some a) (objsFrom a z n)
  object : ∀ b ∈ objsFrom a z n, H'.struct b = some .object
  struct : ∀ b, b ∉ objsFrom a z n → H'.struct b = H.struct b
  slot : H'.slot = H.slot

theorem Heap.Linking.close (h : Heap.Linking a z m H H') (hz : 4 ≤ z) (mem : Mem) :
    Heap.Linked a z (m + 1) H ((H'.retype mem (a + m * z) .object).setPtr .objectNext
      (a + m * z) none) := by
  have hne : ∀ j < m, a + j * z ≠ a + m * z := by
    intro j hj heq
    exact Nat.ne_of_lt hj (Nat.eq_of_mul_eq_mul_right (by omega) (Nat.add_left_cancel heq))
  have hmem : ∀ b, b ∉ objsFrom a z (m + 1) → b ≠ a + m * z ∧ b ∉ objsFrom a z m := by
    intro b hb
    rw [objsFrom_succ, List.mem_append, not_or, List.mem_singleton] at hb
    exact ⟨hb.2, hb.1⟩
  refine ⟨?_, ?_, ?_, ?_, ?_, h.slot⟩
  · intro f b
    rw [← h.word, H'.linkObject_word]
  · rintro f b (hf | hb)
    · rw [← h.ptr f b (.inl hf)]
      exact H'.linkObject_ptr mem none (.inl hf)
    · obtain ⟨hb₁, hb₂⟩ := hmem b hb
      rw [← h.ptr f b (.inr hb₂)]
      exact H'.linkObject_ptr mem none (.inr hb₁)
  · refine chain_objsFrom ?_ (if_pos ⟨rfl, rfl⟩)
    intro j hj
    rw [← h.next j hj]
    exact H'.linkObject_ptr mem none (.inr (hne j hj))
  · intro b hb
    by_cases hlast : b = a + m * z
    · rw [hlast]
      exact Function.update_self (a + m * z) _ _
    · rw [objsFrom_succ, List.mem_append, List.mem_singleton, or_iff_left hlast] at hb
      exact (Function.update_of_ne hlast _ _).trans (h.object b hb)
  · intro b hb
    obtain ⟨hb₁, hb₂⟩ := hmem b hb
    exact (Function.update_of_ne hb₁ _ _).trans (h.struct b hb₂)

theorem linkObjects_runs (hs : t.heap.struct s = some .slab)
    (hcount : t.heap.word .slabFreeObjsCount s = m + 1)
    (hlist : t.heap.ptr .freeObjsList s = some a) (hz : 4 ≤ z) (hm : m + 2 ≤ listRounds)
    (hslot : ∀ j ≤ m, t.heap.slot (a + j * z) = some ⟨s, z⟩ ∧ t.heap.struct (a + j * z) = none)
    (hpos : 0 < a) (hlt : a + m * z < 2 ^ 32) :
    Runs Shows E (fun x t' => x = some s ∧ t'.rest = t.rest ∧
      Heap.Linked a z (m + 1) t.heap t'.heap) (do
        let lastObj ← initializeLoop s z listRounds 1 a
        (objectNextOf lastObj).write none
        let length ← listLength (freeObjsListOf s) objectNextOf listRounds
        check ((← (slabFreeObjsCountOf s).read) = length) .slabListLength
        return some s) t := by
  refine .bind (initializeLoop_runs hs (by rw [hcount, Nat.add_comm]) (by omega) hz hslot hpos
    hlt) ?_
  rintro _ t₁ ⟨rfl, hrest, hlink⟩
  have hoff : ∀ b, t.heap.struct b ≠ none → b ∉ objsFrom a z m := by
    intro b hb hmem
    obtain ⟨j, hj, rfl⟩ := mem_objsFrom.mp hmem
    exact hb (hslot j (Nat.le_of_lt hj)).2
  have hlast : t₁.heap.slot (a + m * z) = some ⟨s, z⟩ := by
    rw [hlink.slot]
    exact (hslot m (le_refl m)).1
  have hlastStruct : t₁.heap.struct (a + m * z) = none := by
    rw [hlink.struct, (hslot m (le_refl m)).2]
    intro hmem
    obtain ⟨j, hj, heq⟩ := mem_objsFrom.mp hmem
    have hjm : j * z = m * z := by omega
    exact Nat.ne_of_lt hj (Nat.eq_of_mul_eq_mul_right (by omega) hjm)
  refine .retype (s := .object) hlast hlastStruct (by exact hz) fun mem => ?_
  refine .writePtr .objectNext (Function.update_self ..) .none ?_
  have hclosed := hlink.close hz mem
  generalize ht₂ : (t₁.retype mem (a + m * z) .object).setPtr .objectNext (a + m * z) none = t₂
  have hheap : t₂.heap = (t₁.heap.retype mem (a + m * z) .object).setPtr .objectNext
      (a + m * z) none := by
    rw [← ht₂]
    rfl
  have hrest₂ : t₂.rest = t.rest := by
    rw [← hrest, ← ht₂]
    rfl
  rw [← hheap] at hclosed
  have hs₂ : t₂.heap.struct s = some .slab := by
    rw [hclosed.struct s, hs]
    intro hmem
    obtain ⟨j, hj, heq⟩ := mem_objsFrom.mp hmem
    rw [heq, (hslot j (Nat.le_of_lt_succ hj)).2] at hs
    cases hs
  have hlist₂ : t₂.heap.ptr .freeObjsList s = some a := by
    rw [hclosed.ptr _ _ (.inl PointerField.noConfusion), hlist]
  have hlength : Runs Shows E (fun r t' => r = m + 1 ∧ t' = t₂)
      (listLength (freeObjsListOf s) objectNextOf listRounds) t₂ := by
    refine .readPtr .freeObjsList hs₂ ?_
    rw [hlist₂]
    refine (listLengthLoop_runs hclosed.chain hclosed.object ?_).imp ?_
    · rw [objsFrom_length]
      omega
    · rintro r t' ⟨rfl, rfl⟩
      exact ⟨by rw [objsFrom_length, Nat.zero_add], rfl⟩
  refine .bind hlength ?_
  rintro _ _ ⟨rfl, rfl⟩
  refine .readWord .slabFreeObjsCount hs₂ (.passes ?_ (.pure ⟨rfl, hrest₂, hclosed⟩))
  rw [hclosed.word, hcount]

/-- What `initialize_slab` leaves: `n` free objects of `z` bytes from `a` on in the slab `s`, whose
region is `r`. -/
structure Initialized (s r a z n : Nat) (H H' : Heap) : Prop where
  count : H'.word .slabFreeObjsCount s = n
  chain : Chain (H'.ptr .objectNext) (H'.ptr .freeObjsList s) (objsFrom a z n)
  region : H'.ptr .slabVregion s = some r
  object : ∀ b ∈ objsFrom a z n, H'.struct b = some .object
  struct : ∀ b, b ∉ objsFrom a z n → H'.struct b = H.struct b
  slot : H'.slot = H.slot
  changes : H.ChangesOnly (fun k b => k = .slab ∧ b = s ∨ k = .object ∧ b ∈ objsFrom a z n) H'

/-- The descriptor of the slab `s` once it has been filled in, for `n` free objects from `a` on. -/
def Heap.newSlab (H : Heap) (s r a n : Nat) : Heap :=
  (((((H.setWord .slabFreeObjsCount s n).setPtr .slabVregion s (some r)).setPtr .freeObjsList s
    none).setPtr .slabPrev s none).setPtr .slabNext s none).setPtr .freeObjsList s (some a)

def View.newSlab (t : View) (s r a n : Nat) : View := { t with heap := t.heap.newSlab s r a n }

theorem Heap.newSlab_changes (H : Heap) (s r a n : Nat) :
    H.ChangesOnly (fun k b => k = .slab ∧ b = s) (H.newSlab s r a n) :=
  ((((((Heap.ChangesOnly.refl _ H).setWord (f := .slabFreeObjsCount) ⟨rfl, rfl⟩ _).setPtr
    (f := .slabVregion) ⟨rfl, rfl⟩ _).setPtr (f := .freeObjsList) ⟨rfl, rfl⟩ _).setPtr
    (f := .slabPrev) ⟨rfl, rfl⟩ _).setPtr (f := .slabNext) ⟨rfl, rfl⟩ _).setPtr
    (f := .freeObjsList) ⟨rfl, rfl⟩ _

theorem Heap.Linked.changes (h : Heap.Linked a z n H H')
    (hobjs : ∀ b ∈ objsFrom a z n, H.struct b = none) :
    H.ChangesOnly (fun k b => k = .object ∧ b ∈ objsFrom a z n) H' := by
  refine ⟨fun f b _ => h.word f b, fun f b hF => ?_, fun k b _ hb => ?_, fun b hF hb _ => ?_,
    fun b u hu => ?_⟩
  · refine h.ptr f b ?_
    by_cases hf : f = .objectNext
    · exact .inr fun hmem => hF ⟨hf ▸ rfl, hmem⟩
    · exact .inl hf
  · rw [h.struct b, hb]
    intro hmem
    rw [hobjs b hmem] at hb
    cases hb
  · rw [h.struct b fun hmem => hF .object ⟨rfl, hmem⟩, hb]
  · rw [h.slot, hu]

theorem Heap.Linked.initialized (h : Heap.Linked a z n (H.newSlab s r a n) H')
    (hobjs : ∀ b ∈ objsFrom a z n, H.struct b = none) : Initialized s r a z n H H' where
  count := (h.word _ _).trans (if_pos ⟨rfl, rfl⟩)
  chain := by
    have hlist : (H.newSlab s r a n).ptr .freeObjsList s = some a := if_pos ⟨rfl, rfl⟩
    rw [h.ptr _ _ (.inl PointerField.noConfusion), hlist]
    exact h.chain
  region := (h.ptr _ _ (.inl PointerField.noConfusion)).trans (if_pos ⟨rfl, rfl⟩)
  object := h.object
  struct := h.struct
  slot := h.slot
  changes := ((H.newSlab_changes s r a n).weaken fun _ _ => .inl).trans
    ((h.changes hobjs).weaken fun _ _ => .inr)

theorem initializeSlab_runs (hs : t.heap.struct s = some .slab)
    (hr : t.heap.struct r = some .vregion) (hfirst : t.heap.word .firstVpn r = first)
    (hpages : t.heap.word .nbrPages r = pages) (h1 : 1 ≤ first) (hn : 1 ≤ n)
    (hlast : first + pages ≤ 2 ^ 20) (hz : 4 ≤ z) (hper : pages * 4096 / z = used + n)
    (hslot : ∀ j < n, t.heap.slot (first * 4096 + (used + j) * z) = some ⟨s, z⟩ ∧
      t.heap.struct (first * 4096 + (used + j) * z) = none) :
    Runs Shows E (fun x t' => x = some s ∧ t'.rest = t.rest ∧
      Initialized s r (first * 4096 + used * z) z n t.heap t'.heap)
      (initializeSlab s r z used) t := by
  refine Runs.shown fun k hk => ?_
  obtain ⟨m, rfl⟩ := Nat.exists_eq_succ_of_ne_zero (Nat.ne_of_gt hn)
  have hzpages : (used + (m + 1)) * z ≤ pages * 4096 := by
    rw [← hper]
    exact Nat.div_mul_le_self _ _
  have hmul : (used + (m + 1)) * z = used * z + m * z + z := by
    rw [Nat.add_mul, Nat.succ_mul]
    omega
  have hvaddr : vpnToVaddr first = first * 4096 := by
    rw [vpnToVaddr, Nat.shiftLeft_eq]
    omega
  have hsize : mul32 pages vpageSize = pages * 4096 := mul32_of_lt (by
    rw [show vpageSize = 4096 from rfl]
    omega)
  have hcount : sub32 (mul32 pages vpageSize / z) used = m + 1 := by
    have hle := Nat.div_le_self (pages * 4096) z
    rw [hper] at hle
    rw [hsize, hper, sub32_of_le (by omega) (by omega)]
    omega
  have hadd : ∀ j, first * 4096 + used * z + j * z = first * 4096 + (used + j) * z := fun j => by
    rw [Nat.add_mul]
    omega
  have hobj : toPtr (first * 4096 + used * z) = some (first * 4096 + used * z) := if_neg (by omega)
  have hmz : m ≤ m * z := Nat.le_mul_of_pos_right m (by omega)
  unfold initializeSlab vregionFirstVpn vregionSize
  simp only [bind_assoc, pure_bind]
  refine .readWord .firstVpn hr ?_
  rw [hfirst, hvaddr]
  refine .passes (by omega) ?_
  refine .readWord .nbrPages hr ?_
  rw [hpages, hcount]
  refine .writeWord .slabFreeObjsCount hs (by omega) ?_
  refine Runs.writePtr .slabVregion hs (hk.addrOk hr) ?_
  refine Runs.writePtr .freeObjsList hs .none ?_
  refine Runs.writePtr .slabPrev hs .none ?_
  refine Runs.writePtr .slabNext hs .none ?_
  -- the words of the region are as they were
  have hkept : ∀ f, f ≠ .slabFreeObjsCount →
      (((((t.setWord .slabFreeObjsCount s (m + 1)).setPtr .slabVregion s (some r)).setPtr
        .freeObjsList s none).setPtr .slabPrev s none).setPtr .slabNext s none).heap.word f r =
      t.heap.word f r := by
    intro f hf
    simp only [View.setPtr_heap, Heap.setPtr_word, View.setWord_heap]
    rw [Heap.setWord_of_field _ hf]
  refine Runs.readWord .nbrPages hr ?_
  rw [hkept _ WordField.noConfusion, hpages, hsize]
  refine .ite (fun _ => ?_) fun hc => absurd (by omega) hc
  refine Runs.readWord .firstVpn hr ?_
  rw [hkept _ WordField.noConfusion, hfirst, hvaddr, mul32_of_lt (by omega),
    add32_of_lt (by omega), hobj]
  refine Runs.writePtr .freeObjsList hs (.some (by omega) (by omega)) ?_
  refine (linkObjects_runs (t := t.newSlab s r (first * 4096 + used * z) (m + 1)) hs
    (if_pos ⟨rfl, rfl⟩) (if_pos ⟨rfl, rfl⟩) hz ?_ (fun j hj => ?_) (by omega) (by omega)).imp ?_
  · rw [listRounds]
    omega
  · rw [hadd]
    exact hslot j (by omega)
  · rintro x t' ⟨rfl, hrest, hlinked⟩
    refine ⟨rfl, hrest, hlinked.initialized fun b hb => ?_⟩
    obtain ⟨j, hj, rfl⟩ := mem_objsFrom.mp hb
    rw [hadd]
    exact (hslot j hj).2

end Atros
