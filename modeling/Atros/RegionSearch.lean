import Atros.RegionLists

namespace Atros
set_option autoImplicit true

variable {t t' : View} {E : Panic → Prop}

/-- The search of `_vregion_alloc` finds the first region that is large enough. -/
theorem firstFitLoop_runs (as : List Nat) (hch : Chain (t.heap.ptr .vregionNext) cur bs)
    (hbs : ∀ b ∈ bs, t.heap.struct b = some .vregion) (hr : bs.length < rounds) :
    Runs Shows E (fun r t' => t' = t ∧
      ((∃ ds x es, bs = ds ++ x :: es ∧ r = ((as ++ ds).getLast?, some x) ∧
        (∀ d ∈ ds, t.heap.word .nbrPages d < n) ∧ n ≤ t.heap.word .nbrPages x) ∨
      r.2 = none ∧ ∀ b ∈ bs, t.heap.word .nbrPages b < n))
      (firstFitLoop n rounds as.getLast? cur) t := by
  induction bs generalizing as cur rounds with
  | nil =>
    obtain ⟨rounds, rfl⟩ := Nat.exists_eq_succ_of_ne_zero (Nat.ne_of_gt hr)
    cases hch
    exact .pure ⟨rfl, .inr ⟨rfl, fun b hb => (nomatch hb)⟩⟩
  | cons b bs ih =>
    obtain ⟨rounds, rfl⟩ := Nat.exists_eq_succ_of_ne_zero (Nat.ne_of_gt (Nat.zero_lt_of_lt hr))
    obtain ⟨rfl, htail⟩ := hch
    have hb := hbs b List.mem_cons_self
    rw [List.length_cons] at hr
    rw [firstFitLoop]
    refine .readWord .nbrPages hb (.ite (fun hfit => ?_) fun hsmall => ?_)
    · refine .pure ⟨rfl, .inl ⟨[], b, bs, rfl, ?_, fun d hd => (nomatch hd), hfit⟩⟩
      rw [List.append_nil]
    · have hlast : some b = (as ++ [b]).getLast? := List.getLast?_concat.symm
      refine .readPtr .vregionNext hb ?_
      rw [hlast]
      refine (ih (as ++ [b]) htail (fun x hx => hbs x (List.mem_cons_of_mem b hx))
        (by omega)).imp ?_
      rintro r t' ⟨rfl, ⟨ds, x, es, rfl, rfl, hds, hx⟩ | ⟨hnone, hall⟩⟩
      · refine ⟨rfl, .inl ⟨b :: ds, x, es, rfl, ?_, ?_, hx⟩⟩
        · rw [List.append_assoc, List.singleton_append]
        · intro d hd
          rcases List.mem_cons.mp hd with rfl | hd
          · omega
          · exact hds d hd
      · refine ⟨rfl, .inr ⟨hnone, ?_⟩⟩
        intro d hd
        rcases List.mem_cons.mp hd with rfl | hd
        · omega
        · exact hall d hd

/-- The last page of a region, as a 32-bit word. -/
def lastVpn (first pages : Nat) : Nat := sub32 (add32 first pages) 1

/-- The check of `vregion_cmp`. -/
def Heap.NotNested (H : Heap) (x y : Nat) : Prop :=
  H.word .firstVpn x ≤ H.word .firstVpn y ∧
    lastVpn (H.word .firstVpn x) (H.word .nbrPages x) ≤
    lastVpn (H.word .firstVpn y) (H.word .nbrPages y) ∨
  H.word .firstVpn y ≤ H.word .firstVpn x ∧
    lastVpn (H.word .firstVpn y) (H.word .nbrPages y) ≤
    lastVpn (H.word .firstVpn x) (H.word .nbrPages x)

theorem vregionCmp_runs (hx : t.heap.struct x = some .vregion)
    (hy : t.heap.struct y = some .vregion) (hE : ¬t.heap.NotNested x y → E .vregionCmpNested) :
    Runs Shows E (fun v t' => t' = t ∧
      (v > 0 ↔ t.heap.word .firstVpn y > t.heap.word .firstVpn x)) (vregionCmp x (some y)) t := by
  unfold vregionCmp vregionFirstVpn vregionLastVpn
  simp only [bind_assoc, pure_bind]
  refine .deref ?_
  refine .readWord .firstVpn hx (.readWord .firstVpn hx (.readWord .nbrPages hx ?_))
  refine .readWord .firstVpn hy (.readWord .firstVpn hy (.readWord .nbrPages hy ?_))
  refine .check hE fun _ => .pure ⟨rfl, ?_⟩
  by_cases heq : t.heap.word .firstVpn y = t.heap.word .firstVpn x
  · rw [if_pos heq]
    omega
  · rw [if_neg heq]
    by_cases hgt : t.heap.word .firstVpn y > t.heap.word .firstVpn x
    · rw [if_pos hgt]
      omega
    · rw [if_neg hgt]
      omega

theorem insertOrderedLoop_runs (as : List Nat) (hch : Chain (t.heap.ptr .vregionNext) cur bs)
    (hbs : ∀ b ∈ bs, t.heap.struct b = some .vregion) (hel : t.heap.struct el = some .vregion)
    (hE : ∀ e, E e) :
    Runs Shows E (fun r t' => t' = t ∧ ∃ ds e es, bs = ds ++ e :: es ∧
      r = (as ++ ds).getLast? ∧ t.heap.word .firstVpn e ≤ t.heap.word .firstVpn el)
      (insertOrderedLoop vregionNextOf el vregionCmp rounds as.getLast? cur) t := by
  induction bs generalizing as cur rounds with
  | nil =>
    cases hch
    cases rounds with
    | zero => exact .throw (hE _)
    | succ rounds => exact fun _ _ => hE _
  | cons b bs ih =>
    obtain ⟨rfl, htail⟩ := hch
    have hb := hbs b List.mem_cons_self
    cases rounds with
    | zero => exact .throw (hE _)
    | succ rounds =>
      rw [insertOrderedLoop]
      refine .bind (vregionCmp_runs hel hb fun _ => hE _) ?_
      rintro v _ ⟨rfl, hv⟩
      refine .ite (fun _ => ?_) fun hle => ?_
      · have hlast : some b = (as ++ [b]).getLast? := List.getLast?_concat.symm
        refine .follow (.readPtr .vregionNext hb ?_)
        rw [hlast]
        refine (ih (as ++ [b]) htail fun x hx => hbs x (List.mem_cons_of_mem b hx)).imp ?_
        rintro r t' ⟨rfl, ds, e, es, rfl, rfl, he⟩
        refine ⟨rfl, b :: ds, e, es, rfl, ?_, he⟩
        rw [List.append_assoc, List.singleton_append]
      · refine .pure ⟨rfl, [], b, bs, rfl, ?_, Nat.le_of_not_lt fun hlt => hle (hv.mpr hlt)⟩
        rw [List.append_nil]

/-- The region `el` has been inserted between `as` and `bs`, next to a node that is not above it. -/
structure Heap.InsertedAt (H : Heap) (xs : List Nat) (el : Nat) (as bs : List Nat) : Prop where
  parts : xs = as ++ bs
  stopped : bs = [] → xs = []
  next : ∀ b, bs.head? = some b → H.word .firstVpn b ≤ H.word .firstVpn el

/-- `list_insert_ordered` adds the region once; when the first node of the list is below it, that
is at the head, and no check fails. -/
theorem listInsertOrdered_runs (h : RegionList.Holds .used t xs)
    (hel : t.heap.struct el = some .vregion) (hnew : el ∉ xs)
    (hE : (∀ e, E e) ∨ ∀ x, xs.head? = some x →
      t.heap.word .firstVpn x ≤ t.heap.word .firstVpn el ∧ t.heap.NotNested el x) :
    Runs Shows E (fun _ t' => ∃ as bs, t.heap.InsertedAt xs el as bs ∧
      RegionList.Holds .used t' (as ++ el :: bs) ∧
      t.Relisted .used (fun a => a = el ∨ a ∈ xs) t')
      (listInsertOrdered usedVregionsVar vregionNextOf listRounds el vregionCmp) t := by
  have hpush (hle : ∀ x, xs.head? = some x →
      t.heap.word .firstVpn x ≤ t.heap.word .firstVpn el) :
      Runs Shows E (fun _ t' => ∃ as bs, t.heap.InsertedAt xs el as bs ∧
        RegionList.Holds .used t' (as ++ el :: bs) ∧
        t.Relisted .used (fun a => a = el ∨ a ∈ xs) t')
        (listPushHead usedVregionsVar vregionNextOf el) t :=
    (listPushHead_runs h hel hnew).imp fun _ t' hq =>
      ⟨[], xs, ⟨rfl, id, hle⟩, hq.1, hq.2.weaken fun a ha => .inl ha⟩
  unfold listInsertOrdered
  refine .read (reads_usedVregions t) ?_
  have hhead : t.rest.usedVregions = xs.head? := h.1.head
  rw [hhead]
  cases xs with
  | nil => exact hpush fun x hx => nomatch hx
  | cons x xs =>
    have hx := h.2 x List.mem_cons_self
    refine .bind (vregionCmp_runs hel hx ?_) ?_
    · intro hn
      rcases hE with hE | hE
      · exact hE _
      · exact absurd (hE x rfl).2 hn
    · rintro v t' ⟨rfl, hv⟩
      refine .ite (fun hle => hpush ?_) fun hle => ?_
      · rintro _ ⟨⟩
        exact Nat.le_of_not_lt fun hlt => absurd (hv.mpr hlt) (Int.not_lt.mpr hle)
      rcases hE with hE | hE
      · have hch : Chain (t'.heap.ptr .vregionNext) (some x) (x :: xs) := ⟨rfl, h.1.2⟩
        refine .bind (insertOrderedLoop_runs [] hch h.2 hel hE) ?_
        rintro _ _ ⟨rfl, ds, e, es, heq, rfl, he⟩
        rw [heq] at h hnew ⊢
        refine (listInsertAfter_runs h hel hnew).imp fun _ t' hq =>
          ⟨ds, e :: es, ⟨rfl, fun hnil => (nomatch hnil), ?_⟩, hq.1, hq.2.weaken ?_⟩
        · rintro _ ⟨⟩
          exact he
        · exact fun a ha => ha.imp id (List.mem_append_left _)
      · have hlow := (hE x rfl).1
        exact absurd (Int.not_lt.mp fun hc => absurd (hv.mp hc) (by omega)) hle

end Atros
