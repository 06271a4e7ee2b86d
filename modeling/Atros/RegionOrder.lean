import Mathlib.Data.List.Chain
import Atros.RegionSearch
import Atros.SlabBoot

namespace Atros
set_option autoImplicit true

variable {H : Heap} {t t' : View} {E : Panic → Prop}

/-! ### The check of the used regions -/

/-- What the check of `virtual_page_boot_init` asks of a region and its successor. -/
def Heap.InOrder (H : Heap) (x y : Nat) : Prop :=
  H.word .firstVpn x ≤ H.word .firstVpn y ∧
    lastVpn (H.word .firstVpn x) (H.word .nbrPages x) < H.word .firstVpn y

/-- The loop passes when every region is in order with its successor, and panics otherwise. -/
theorem usedVregionsLoop_runs (hch : Chain (t.heap.ptr .vregionNext) cur xs)
    (hxs : ∀ x ∈ xs, t.heap.struct x = some .vregion) (hr : xs.length < rounds) :
    Runs Shows (fun _ => ¬xs.IsChain t.heap.InOrder) (fun _ t' => t' = t ∧
    xs.IsChain t.heap.InOrder)
      (usedVregionsLoop rounds cur) t := by
  induction xs generalizing rounds cur with
  | nil =>
    obtain ⟨rounds, rfl⟩ := Nat.exists_eq_succ_of_ne_zero (Nat.ne_of_gt hr)
    cases hch
    exact .pure ⟨rfl, .nil⟩
  | cons x xs ih =>
    obtain ⟨rounds, rfl⟩ := Nat.exists_eq_succ_of_ne_zero (Nat.ne_of_gt (Nat.zero_lt_of_lt hr))
    obtain ⟨rfl, htail⟩ := hch
    have hx := hxs x List.mem_cons_self
    have hrest := ih htail (fun y hy => hxs y (List.mem_cons_of_mem x hy))
      (Nat.lt_of_succ_lt_succ hr)
    rw [usedVregionsLoop]
    refine .readPtr .vregionNext hx ?_
    cases xs with
    | nil =>
      have hnone : t.heap.ptr .vregionNext x = none := htail
      rw [hnone] at hrest ⊢
      refine hrest.mono (fun _ hn _ => hn .nil) ?_
      rintro - t' ⟨rfl, -⟩
      exact ⟨rfl, .singleton x⟩
    | cons y ys =>
      have hy := hxs y (List.mem_cons_of_mem x List.mem_cons_self)
      rw [htail.1] at hrest ⊢
      simp only [List.isChain_cons_cons]
      unfold vregionFirstVpn vregionLastVpn
      simp only [bind_assoc, pure_bind]
      refine .readWord .firstVpn hx (.readWord .firstVpn hy (.check (fun hn => ?_) fun hle => ?_))
      · exact fun hc => hn (Nat.not_lt.mpr hc.1.1)
      refine .readWord .firstVpn hx (.readWord .nbrPages hx (.readWord .firstVpn hy ?_))
      refine .check (fun hn => ?_) fun hlt => ?_
      · exact fun hc => hn (Nat.not_le.mpr hc.1.2)
      refine hrest.mono (fun _ hn hc => hn hc.2) ?_
      rintro - t' ⟨rfl, hc⟩
      exact ⟨rfl, ⟨Nat.not_lt.mp hle, Nat.not_le.mp hlt⟩, hc⟩

end Atros
