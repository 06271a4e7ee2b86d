import Atros.Emission
import Atros.FormatStores

namespace Atros
set_option autoImplicit true

/-- The output index after an emission at index `j`, and nothing when the emission makes the
output leave a buffer of `n` bytes. -/
def Emission.room (n j : Nat) : Emission → Option Nat
  | .byte _ => if j + 2 ≤ n then some (j + 1) else none
  | .numeral ds =>
    if j + ds.length < n then some (j + ds.length)
    else if j + ds.length = n then none
    else some j
  | .text s => some (min (j + s.length) (n - 1))
  | .nothing => some j

def endIndex (n j : Nat) (es : List Emission) : Option Nat := es.foldlM (Emission.room n) j

/-- The emissions, sent to a buffer of `n` bytes one after the other, stay in it. -/
def Roomy (n : Nat) (es : List Emission) : Prop := (endIndex n 0 es).isSome

instance (n : Nat) (es : List Emission) : Decidable (Roomy n es) :=
  inferInstanceAs (Decidable (_ = true))

theorem endIndex_cons (n j : Nat) (e : Emission) (es : List Emission) :
    endIndex n j (e :: es) = (e.room n j).bind fun j' => endIndex n j' es := rfl

/-- The result of a `vsnprintf` that stays in its buffer: stores inside it only, a terminator
at the returned index, and this index inside. -/
structure Inside (n str : Nat) (r : Nat × Output) : Prop where
  stores : ∀ x, r.2.written x = true → str ≤ x ∧ x < str + n
  terminated : r.2.mem (str + r.1) = 0
  index : r.1 ≤ n - 1

/-! ### Staying inside -/

theorem Emission.Effect.inside {e : Emission} (h : e.Effect n str j o j' o') (hj : j < n)
    (hroom : e.room n j = some k) : j' = k ∧ k < n ∧ o.Confined o' str n := by
  cases e with
  | byte b =>
    obtain ⟨rfl, rfl⟩ := h
    rw [room] at hroom
    split at hroom
    · cases hroom
      exact ⟨rfl, by omega, (o.confined_put (str + j) b).mono (by omega) (by omega)⟩
    · cases hroom
  | numeral ds =>
    rw [room] at hroom
    split_ifs at hroom with hlt heq
    · cases hroom
      obtain ⟨rfl, rfl⟩ := h.1 (by omega)
      refine ⟨rfl, hlt, (o.confined_puts (str + j) (ds ++ [0])).mono (by omega) ?_⟩
      rw [List.length_append, List.length_singleton]
      omega
    · cases hroom
      obtain ⟨rfl, hc⟩ := h.2 (by omega)
      exact ⟨rfl, hj, hc.mono (by omega) (by omega)⟩
  | text s =>
    obtain ⟨rfl, rfl⟩ := h
    cases hroom
    refine ⟨rfl, by omega,
      (o.confined_puts (str + j) (s.take (n - 1 - j))).mono (by omega) ?_⟩
    have hlen := List.length_take_le (n - 1 - j) s
    omega
  | nothing =>
    obtain ⟨rfl, rfl⟩ := h
    cases hroom
    exact ⟨rfl, hj, .refl o' str n⟩

theorem vsnprintfLoop_inside (hn : n < 2 ^ 32) (format : List UInt8) (h0 : 0 ∉ format)
    (hi : i + format.length + 1 ≤ n) (hj : j < n)
    (hes : emissions spec format args = some es) (hroom : endIndex n j es = some k) :
    ∃ o', vsnprintfLoop n str format i j spec args o = some (k, o') ∧ k < n ∧
      o.Confined o' str n := by
  induction format generalizing i j spec args es o with
  | nil =>
    cases hes
    cases hroom
    exact ⟨o, rfl, hj, .refl o str n⟩
  | cons c format ih =>
    obtain ⟨e, es', spec', args', hscan, hes', rfl⟩ := emissions_cons_some hes
    rw [List.length_cons] at hi
    have hc : c ≠ 0 := fun h => h0 (h ▸ List.mem_cons_self)
    rw [endIndex_cons] at hroom
    obtain ⟨j₁, hj₁, hroom⟩ := Option.bind_eq_some_iff.mp hroom
    obtain ⟨j', o₁, heff, hstep⟩ :=
      vsnprintfLoop_step str o format hn hj hc (i := i) (by omega) hscan
    obtain ⟨rfl, hlt, hc₁⟩ := heff.inside hj hj₁
    obtain ⟨o₂, hloop, hk, hc₂⟩ := ih (o := o₁) (fun h => h0 (List.mem_cons_of_mem _ h))
      (i := i + 1) (by omega) hlt hes' hroom
    exact ⟨o₂, by rw [hstep, hloop], hk, hc₁.trans hc₂⟩

/-! ### Leaving the buffer -/

/-- The output has left the buffer, or is about to: the index stands one past its end. -/
def Overrun (n str j : Nat) (o : Output) : Prop := j = n ∨ o.written (str + n) = true

theorem copyString_overrun (s : List UInt8) (o : Output) :
    Overrun n str (copyString n str s n o).1 (copyString n str s n o).2 := by
  cases s with
  | nil => exact .inl rfl
  | cons c s =>
    rw [copyString]
    split
    · exact .inr ((copyString_stores _ _ _ _ _).keeps (o.written_put_self _ _))
    · exact .inl rfl

/-- A number at the end of the buffer is not printed, except a negative one, whose remaining
space `n - j - 1` has wrapped around. -/
theorem iToNstr_overrun (hb : 2 ≤ base) (hb' : base ≤ 36) (hn : n < 2 ^ 32) (hw : w < 2 ^ 32)
    (o : Output) : Overrun n str (add32 n (iToNstr w 0 (str + n) base o).1)
      (iToNstr w 0 (str + n) base o).2 := by
  rcases Nat.lt_or_ge w (2 ^ 31) with h | h
  · rw [iToNstr, if_neg (Nat.not_le.mpr h), uToNstr, if_pos rfl]
    exact .inl (add32_of_lt hn)
  · have hroom : sub32 0 1 = 2 ^ 32 - 1 := sub32_of_gt (by decide)
    have hlen := unsignedNumeral_length_le hb (v := 2 ^ 32 - w) (by omega)
    rw [iToNstr_neg_fits h hw hb hb' (by omega)]
    refine .inr (o.written_puts_mem _ _ _ ⟨le_refl _, ?_⟩)
    rw [List.length_append, List.length_singleton]
    omega

theorem convert_overrun (hn : n < 2 ^ 32)
    (h : convert n str (convOf c) n args o = some (j', args', o')) : Overrun n str j' o' := by
  have hsub : sub32 n n = 0 := by rw [sub32_of_le (le_refl n) hn, Nat.sub_self]
  cases hconv : convOf c with
  | signed base =>
    rw [hconv] at h
    obtain ⟨⟨w, as⟩, hva, heq⟩ := Option.map_eq_some_iff.mp h
    obtain ⟨hb, hb'⟩ := convOf_signed hconv
    rw [hsub] at heq
    cases heq
    exact iToNstr_overrun hb hb' hn (vaWord_lt hva) o
  | unsigned base =>
    rw [hconv] at h
    obtain ⟨⟨w, as⟩, -, heq⟩ := Option.map_eq_some_iff.mp h
    simp only [hsub, uToNstr, if_true] at heq
    cases heq
    exact .inl (add32_of_lt hn)
  | char =>
    rw [hconv] at h
    obtain ⟨⟨w, as⟩, -, heq⟩ := Option.map_eq_some_iff.mp h
    cases heq
    exact .inr (o.written_put_self _ _)
  | string =>
    rw [hconv] at h
    obtain ⟨⟨s, as⟩, -, heq⟩ := Option.map_eq_some_iff.mp h
    cases heq
    exact copyString_overrun s o
  | percent =>
    rw [hconv] at h
    cases h
    exact .inr (o.written_put_self _ _)
  | other =>
    rw [hconv] at h
    cases h
    exact .inl rfl

/-- Once the index has reached the end of the buffer, the byte after it is written. -/
theorem vsnprintfLoop_overrun (hn : n < 2 ^ 32) (format : List UInt8)
    (hover : Overrun n str j o)
    (h : vsnprintfLoop n str format i j spec args o = some (k, o')) : Overrun n str k o' := by
  induction format generalizing i j spec args o with
  | nil =>
    cases h
    exact hover
  | cons c format ih =>
    rw [vsnprintfLoop] at h
    split_ifs at h
    · obtain ⟨⟨j₁, args₁, o₁⟩, hconv, h⟩ := Option.bind_eq_some_iff.mp h
      refine ih ?_ h
      rcases hover with rfl | hw
      · exact convert_overrun hn hconv
      · exact .inr ((convert_stores hconv).keeps hw)
    · exact ih hover h
    · refine ih ?_ h
      rcases hover with rfl | hw
      · exact .inr (o.written_put_self _ _)
      · exact .inr ((o.confined_put _ _).keeps _ hw)
    · cases h
      exact hover

theorem Emission.Effect.overrun {e : Emission} (h : e.Effect n str j o j' o') (hj : j < n)
    (hroom : e.room n j = none) : Overrun n str j' o' := by
  cases e with
  | byte b =>
    rw [room] at hroom
    split at hroom
    · cases hroom
    · exact .inl (by rw [h.1]; omega)
  | numeral ds =>
    rw [room] at hroom
    split_ifs at hroom with hlt heq
    exact .inl (by rw [(h.1 (by omega)).1, heq])
  | text s => cases hroom
  | nothing => cases hroom

theorem vsnprintfLoop_leaves (hn : n < 2 ^ 32) (format : List UInt8) (h0 : 0 ∉ format)
    (hi : i + format.length + 1 ≤ n) (hj : j < n)
    (hes : emissions spec format args = some es) (hroom : endIndex n j es = none)
    (h : vsnprintfLoop n str format i j spec args o = some (k, o')) : Overrun n str k o' := by
  induction format generalizing i j spec args es o with
  | nil =>
    cases hes
    cases hroom
  | cons c format ih =>
    obtain ⟨e, es', spec', args', hscan, hes', rfl⟩ := emissions_cons_some hes
    rw [List.length_cons] at hi
    have hc : c ≠ 0 := fun h => h0 (h ▸ List.mem_cons_self)
    obtain ⟨j', o₁, heff, hstep⟩ :=
      vsnprintfLoop_step str o format hn hj hc (i := i) (by omega) hscan
    rw [hstep] at h
    rw [endIndex_cons] at hroom
    cases hroom₁ : e.room n j with
    | none => exact vsnprintfLoop_overrun hn format (heff.overrun hj hroom₁) h
    | some j₁ =>
      rw [hroom₁, Option.bind_some] at hroom
      obtain ⟨rfl, hlt, -⟩ := heff.inside hj hroom₁
      exact ih (fun h => h0 (List.mem_cons_of_mem _ h)) (i := i + 1) (by omega) hlt hes' hroom h

/-! ### The condition -/

/-- `vsnprintf` stays in its buffer exactly when the emissions of the first `n - 1` format
characters do. -/
theorem vsnprintf_inside_iff (str n : Nat) (format : List UInt8) (args : List Arg) (m : Mem)
    (hn : 1 ≤ n) (hn' : n < 2 ^ 32) (hargs : emissions false (cstr format) args = some es) :
    (∃ r, vsnprintf str n format args m = some r ∧ Inside n str r) ↔
      Roomy n (es.take (n - 1)) := by
  have h0 : (0 : UInt8) ∉ (cstr format).take (n - 1) := fun h =>
    zero_notMem_cstr format (List.mem_of_mem_take h)
  have hlen := List.length_take_le (n - 1) (cstr format)
  have hes := emissions_take hargs (n - 1)
  rw [vsnprintf, vsnprintfLoop_truncate hn hn', Nat.sub_zero]
  constructor
  · rintro ⟨r, hr, hin⟩
    obtain ⟨⟨k, o'⟩, hloop, rfl⟩ := Option.map_eq_some_iff.mp hr
    rw [Roomy, Option.isSome_iff_ne_none]
    intro hnone
    have hover := vsnprintfLoop_leaves hn' _ h0 (i := 0) (by omega) (by omega) hes hnone hloop
    have hout : (o'.put (str + k) 0).written (str + n) = true := by
      rcases hover with rfl | hw
      · exact o'.written_put_self _ _
      · exact (o'.confined_put _ _).keeps _ hw
    have hlt := (hin.stores _ hout).2
    omega
  · intro hroomy
    obtain ⟨k, hk⟩ := Option.isSome_iff_exists.mp hroomy
    obtain ⟨o', hloop, hlt, hc⟩ := vsnprintfLoop_inside (o := Output.start m) hn' _ h0 (i := 0)
      (by omega) (by omega) hes hk
    refine ⟨(k, o'.put (str + k) 0), by rw [hloop, Option.map_some], ?_, ?_, ?_⟩
    · intro x hx
      have hc' := hc.trans ((o'.confined_put (str + k) 0).mono (by omega) (by omega))
      rcases hc'.inside x hx with hx | hx
      · cases hx
      · exact hx
    · rw [Output.mem_put, if_pos rfl]
    · simp only
      omega

theorem vsnprintf_inside_minus5 :
    ∃ r, vsnprintf 0x1000 4 [ch '%', ch 'd', ch '%', ch '%', 0] [.word 4294967291]
      (fun _ => 0) = some r ∧ Inside 4 0x1000 r :=
  (vsnprintf_inside_iff 0x1000 4 _ _ _ (by decide) (by decide) rfl).mpr (by decide)

/-- `vsnprintf(0x1000, 4, "%sab", "xxx")` returns 4 and stores a terminator at `str[4]`. -/
theorem vsnprintf_sab_overruns :
    (emissions false (cstr [ch '%', ch 's', ch 'a', ch 'b', 0])
      [.str [ch 'x', ch 'x', ch 'x', 0]]).isSome ∧
    ∃ r, vsnprintf 0x1000 4 [ch '%', ch 's', ch 'a', ch 'b', 0]
        [.str [ch 'x', ch 'x', ch 'x', 0]] (fun _ => 0) = some r ∧
      r.1 = 4 ∧ r.2.written (0x1000 + 4) = true ∧ ¬Inside 4 0x1000 r :=
  ⟨by decide, _, rfl, by decide, by decide, fun h => absurd h.index (by decide)⟩

end Atros
