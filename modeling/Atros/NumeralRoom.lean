import Atros.Numeral

namespace Atros
set_option autoImplicit true

/-- What the conversions promise about their buffer of `n` bytes, for a call whose numeral would
be `numeral`: nothing is stored outside, a refused call leaves the empty string and returns 0,
and any other result leaves room for the terminator. -/
structure WithinBuffer (str n base : Nat) (numeral : List UInt8) (r : Nat × Output) : Prop where
  inside : ∀ x, r.2.written x = true → str ≤ x ∧ x < str + n
  refused : 1 ≤ n → (n - 1 < numeral.length ∨ ¬(2 ≤ base ∧ base ≤ 36)) →
    r.2.mem str = 0 ∧ r.1 = 0
  returned : ¬(1 ≤ n ∧ (n - 1 < numeral.length ∨ ¬(2 ≤ base ∧ base ≤ 36))) → r.1 ≤ n - 1

theorem Output.Confined.inside_start {o : Output} (h : (Output.start m).Confined o str n) :
    ∀ x, o.written x = true → str ≤ x ∧ x < str + n := by
  intro x hx
  rcases h.inside x hx with hx | hx
  · cases hx
  · exact hx

theorem WithinBuffer.of_refused {r : Nat × Output} (h : (Output.start m).Confined r.2 str n)
    (hmem : 1 ≤ n → r.2.mem str = 0) (hlen : r.1 = 0) : WithinBuffer str n base numeral r :=
  ⟨h.inside_start, fun hn _ => ⟨hmem hn, hlen⟩, fun _ => by omega⟩

theorem WithinBuffer.of_room (m : Mem) (hb : 2 ≤ base ∧ base ≤ 36) (hroom : numeral.length < n) :
    WithinBuffer str n base numeral
      (numeral.length, (Output.start m).puts str (numeral ++ [0])) := by
  refine ⟨?_, ?_, ?_⟩
  · have h := ((Output.start m).confined_puts str (numeral ++ [0])).inside_start
    intro x hx
    have hx' := h x hx
    rw [List.length_append, List.length_singleton] at hx'
    omega
  · rintro hn (hlen | hbase)
    · omega
    · exact absurd hb hbase
  · intro _
    change numeral.length ≤ n - 1
    omega

/-- The terminator of a numeral that fills the buffer lies outside it. -/
theorem not_withinBuffer_of_full (m : Mem) (hfull : numeral.length = n) :
    ¬WithinBuffer str n base numeral
      (numeral.length, (Output.start m).puts str (numeral ++ [0])) := by
  intro h
  have hx := h.inside (str + n) (Output.written_puts_mem _ _ _ _ (by
    rw [List.length_append, List.length_singleton]
    omega))
  omega

theorem uToNstr_of_base (v str : Nat) (o : Output) (hn : 0 < n) (hb : ¬(2 ≤ base ∧ base ≤ 36)) :
    uToNstr v n str base o = (0, o.put str 0) := by
  rw [uToNstr, if_neg (by omega), if_pos (by omega)]

theorem uToNstr_zero_room (v str base : Nat) (o : Output) : uToNstr v 0 str base o = (0, o) := by
  rw [uToNstr, if_pos rfl]

theorem uToNstr_cut_empty (str : Nat) (o : Output) (hb : 2 ≤ base ∧ base ≤ 36) (hv : v < 2 ^ 32)
    (hn : 0 < n) (hroom : n < (unsignedNumeral base v).length) :
    (uToNstr v n str base o).2.mem str = 0 := by
  rw [unsignedNumeral, List.length_append] at hroom
  rcases Nat.lt_or_ge (basePrefix base).length n with hp | hp
  · rw [uToNstr_eq hb.1 hb.2 hn hp]
    obtain ⟨bs, heq, -⟩ := uToNstrDigits_cut str (o.puts str (basePrefix base)) hb.1 hv hp hroom
    rw [heq, Output.mem_put, if_pos rfl]
  · rw [uToNstr_no_prefix_room hb.1 hb.2 hn hp, Output.mem_put, if_pos rfl]

theorem uToNstr_withinBuffer_iff (m : Mem) (str n : Nat) (hv : v < 2 ^ 32) :
    WithinBuffer str n base (unsignedNumeral base v)
        (uToNstr v n str base (Output.start m)) ↔
      (2 ≤ base ∧ base ≤ 36 → (unsignedNumeral base v).length ≠ n) := by
  have hlen := unsignedNumeral_length_pos base v
  by_cases hb : 2 ≤ base ∧ base ≤ 36
  · rcases Nat.lt_trichotomy (unsignedNumeral base v).length n with hlt | heq | hgt
    · rw [uToNstr_fits str _ hb.1 hb.2 hv (Nat.le_of_lt hlt)]
      exact ⟨fun _ _ => Nat.ne_of_lt hlt, fun _ => .of_room m hb hlt⟩
    · rw [uToNstr_fits str _ hb.1 hb.2 hv (Nat.le_of_eq heq)]
      exact ⟨fun h => absurd h (not_withinBuffer_of_full m heq), fun h => absurd heq (h hb)⟩
    · refine ⟨fun _ _ => Nat.ne_of_gt hgt, fun _ => ?_⟩
      rcases Nat.eq_zero_or_pos n with rfl | hn
      · rw [uToNstr_zero_room]
        exact .of_refused (Output.Confined.refl _ _ _) (fun h => absurd h (by omega)) rfl
      · obtain ⟨o', heq, hc⟩ := uToNstr_cut str (Output.start m) hb.1 hb.2 hv hn hgt
        have hmem := uToNstr_cut_empty str (Output.start m) hb hv hn hgt
        rw [heq] at hmem ⊢
        exact .of_refused hc (fun _ => hmem) rfl
  · refine ⟨fun _ h => absurd h hb, fun _ => ?_⟩
    rcases Nat.eq_zero_or_pos n with rfl | hn
    · rw [uToNstr_zero_room]
      exact .of_refused (Output.Confined.refl _ _ _) (fun h => absurd h (by omega)) rfl
    · rw [uToNstr_of_base v str _ hn hb]
      refine .of_refused (((Output.start m).confined_put str 0).mono (le_refl _) (by omega)) ?_ rfl
      intro _
      rw [Output.mem_put, if_pos rfl]

/-- A refused call that leaves the first byte of the buffer as it was keeps the promise only if
that byte was 0 before. -/
theorem withinBuffer_untouched_iff {o : Output} (hn : 1 ≤ n)
    (hc : (Output.start m).Confined o str n) (hmem : o.mem str = m str)
    (href : n - 1 < numeral.length ∨ ¬(2 ≤ base ∧ base ≤ 36)) :
    WithinBuffer str n base numeral (0, o) ↔ m str = 0 := by
  refine ⟨fun h => ?_, fun h => .of_refused hc (fun _ => hmem.trans h) rfl⟩
  have hz := (h.refused hn href).1
  rwa [hmem] at hz

theorem iToNstr_of_refused (h : 2 ^ 31 ≤ w)
    (hr : uToNstr (sub32 0 w) (sub32 n 1) (str + 1) base o = (0, o')) :
    iToNstr w n str base o = (0, o') := by
  rw [iToNstr_of_neg h hr, if_neg (by omega)]

/-- With no room at all the length `n - 1` passed on for the magnitude wraps around, and bytes
outside the buffer are stored to. -/
theorem iToNstr_neg_zero_room (m : Mem) (h : 2 ^ 31 ≤ w) (hw : w < 2 ^ 32) :
    ¬WithinBuffer str 0 base numeral (iToNstr w 0 str base (Output.start m)) := by
  intro hok
  by_cases hb : 2 ≤ base ∧ base ≤ 36
  · have hlen := unsignedNumeral_length_le hb.1 (v := 2 ^ 32 - w) (by omega)
    rw [iToNstr_neg_fits h hw hb.1 hb.2 (by rw [sub32]; omega)] at hok
    have hx := hok.inside str (Output.written_puts_mem _ _ _ _ (by
      rw [List.length_append, List.length_singleton]
      omega))
    omega
  · have hr := uToNstr_of_base (sub32 0 w) (str + 1) (Output.start m) (n := sub32 0 1)
      (by decide) hb
    rw [iToNstr_of_refused h hr] at hok
    have hx := hok.inside (str + 1) (Output.written_put_self _ _ _)
    omega

/-- A negative value keeps to the buffer if its numeral has room, or, when it has none or the
base is not valid, if the first byte of the buffer happens to be 0 already. -/
theorem iToNstr_neg_withinBuffer_iff (m : Mem) (str : Nat) (h : 2 ^ 31 ≤ w) (hw : w < 2 ^ 32)
    (hn' : n < 2 ^ 32) :
    WithinBuffer str n base (signedNumeral base (toInt32 w))
        (iToNstr w n str base (Output.start m)) ↔
      1 ≤ n ∧
        ((2 ≤ base ∧ base ≤ 36 ∧ (signedNumeral base (toInt32 w)).length < n) ∨
          m str = 0 ∧
            (2 ≤ base ∧ base ≤ 36 → (signedNumeral base (toInt32 w)).length ≠ n)) := by
  have hL : (signedNumeral base (toInt32 w)).length =
      (unsignedNumeral base (2 ^ 32 - w)).length + 1 := by
    rw [signedNumeral_neg h hw, List.length_cons]
  have hpos := unsignedNumeral_length_pos base (2 ^ 32 - w)
  rcases Nat.eq_zero_or_pos n with rfl | hn
  · exact ⟨fun hok => absurd hok (iToNstr_neg_zero_room m h hw), fun hok => absurd hok.1 (by omega)⟩
  have hone : sub32 n 1 = n - 1 := sub32_of_le hn hn'
  rcases Nat.lt_or_ge 1 n with hn₁ | hn₁
  · by_cases hb : 2 ≤ base ∧ base ≤ 36
    · rcases Nat.lt_trichotomy (signedNumeral base (toInt32 w)).length n with hlt | heq | hgt
      · rw [iToNstr_fits hb.1 hb.2 hw hn hn' (Nat.le_of_lt hlt)]
        exact ⟨fun _ => ⟨hn, .inl ⟨hb.1, hb.2, hlt⟩⟩, fun _ => .of_room m hb hlt⟩
      · rw [iToNstr_fits hb.1 hb.2 hw hn hn' (Nat.le_of_eq heq)]
        refine ⟨fun hok => absurd hok (not_withinBuffer_of_full m heq), ?_⟩
        rintro ⟨-, ⟨-, -, hlt⟩ | ⟨-, hne⟩⟩
        · omega
        · exact absurd heq (hne hb)
      · obtain ⟨o', heq, hc⟩ := uToNstr_cut (str + 1) (Output.start m) (n := sub32 n 1) hb.1 hb.2
          (v := sub32 0 w) (sub32_lt _ _) (by omega) (by rw [sub32_zero_of_pos (by omega)]; omega)
        rw [hone] at hc
        rw [iToNstr_of_refused h heq, withinBuffer_untouched_iff hn
          (hc.mono (by omega) (by omega)) (hc.frame str (by omega)) (.inl (by omega))]
        refine ⟨fun hm => ⟨hn, .inr ⟨hm, fun _ => by omega⟩⟩, ?_⟩
        rintro ⟨-, ⟨-, -, hlt⟩ | ⟨hm, -⟩⟩
        · omega
        · exact hm
    · have hr := uToNstr_of_base (sub32 0 w) (str + 1) (Output.start m) (n := sub32 n 1)
        (by omega) hb
      have hc := (Output.start m).confined_put (str + 1) 0
      rw [iToNstr_of_refused h hr, withinBuffer_untouched_iff hn
        (hc.mono (by omega) (by omega)) (hc.frame str (by omega)) (.inr hb)]
      refine ⟨fun hm => ⟨hn, .inr ⟨hm, fun hb' => absurd hb' hb⟩⟩, ?_⟩
      rintro ⟨-, ⟨hb₁, hb₂, -⟩ | ⟨hm, -⟩⟩
      · exact absurd ⟨hb₁, hb₂⟩ hb
      · exact hm
  · -- a buffer of one byte: the magnitude has no room and nothing is stored at all
    have hr : uToNstr (sub32 0 w) (sub32 n 1) (str + 1) base (Output.start m) =
        (0, Output.start m) := by
      rw [show sub32 n 1 = 0 by omega, uToNstr_zero_room]
    rw [iToNstr_of_refused h hr, withinBuffer_untouched_iff hn
      (Output.Confined.refl _ _ _) rfl (.inl (by omega))]
    refine ⟨fun hm => ⟨hn, .inr ⟨hm, fun _ => by omega⟩⟩, ?_⟩
    rintro ⟨-, ⟨-, -, hlt⟩ | ⟨hm, -⟩⟩
    · omega
    · exact hm

/-- Exactly when the two conversions keep to their buffer and to their documented result. -/
theorem nstr_withinBuffer_iff (m : Mem) (str base : Nat) (hn : n < 2 ^ 32) (hw : w < 2 ^ 32) :
    (WithinBuffer str n base (unsignedNumeral base w) (uToNstr w n str base (Output.start m)) ↔
      (2 ≤ base ∧ base ≤ 36 → (unsignedNumeral base w).length ≠ n)) ∧
    (WithinBuffer str n base (signedNumeral base (toInt32 w))
        (iToNstr w n str base (Output.start m)) ↔
      if 0 ≤ toInt32 w then
        2 ≤ base ∧ base ≤ 36 → (signedNumeral base (toInt32 w)).length ≠ n
      else
        1 ≤ n ∧
          ((2 ≤ base ∧ base ≤ 36 ∧ (signedNumeral base (toInt32 w)).length < n) ∨
            m str = 0 ∧
              (2 ≤ base ∧ base ≤ 36 → (signedNumeral base (toInt32 w)).length ≠ n))) := by
  refine ⟨uToNstr_withinBuffer_iff m str n hw, ?_⟩
  rcases Nat.lt_or_ge w (2 ^ 31) with h | h
  · rw [if_pos (by rw [toInt32_of_lt h]; omega), signedNumeral_nonneg h, iToNstr,
      if_neg (Nat.not_le.mpr h)]
    exact uToNstr_withinBuffer_iff m str n hw
  · rw [if_neg (by rw [toInt32_of_ge h]; omega)]
    exact iToNstr_neg_withinBuffer_iff m str h hw hn

/-- 5 in base 10 and a buffer of two bytes. -/
theorem nstr_withinBuffer_five :
    WithinBuffer 100 2 10 (unsignedNumeral 10 5)
      (uToNstr 5 2 100 10 (Output.start fun _ => 255)) :=
  ((nstr_withinBuffer_iff (fun _ => 255) 100 10 (n := 2) (w := 5) (by decide) (by decide)).1).mpr
    (fun _ => by decide)

/-- 5 in base 10 and a buffer of one byte: the terminator is stored after the buffer. -/
theorem uToNstr_overruns :
    (uToNstr 5 1 100 10 (Output.start fun _ => 255)).2.written 101 = true ∧
      ¬WithinBuffer 100 1 10 (unsignedNumeral 10 5)
        (uToNstr 5 1 100 10 (Output.start fun _ => 255)) := by
  have hwritten : (uToNstr 5 1 100 10 (Output.start fun _ => 255)).2.written 101 = true := by
    rw [uToNstr_fits 100 _ (by decide) (by decide) (by decide) (by decide)]
    exact Output.written_puts_mem _ _ _ _ (by decide)
  refine ⟨hwritten, fun hok => ?_⟩
  have hx := hok.inside 101 hwritten
  omega

end Atros
