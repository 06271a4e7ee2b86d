import Mathlib.Data.List.GetD
import Mathlib.Data.Nat.Digits.Lemmas
import Atros.Word
import Atros.Output

namespace Atros
set_option autoImplicit true

/-- The byte of an ASCII character. -/
def ch (c : Char) : UInt8 := UInt8.ofNat c.toNat

/-- `digits = "0123456789ABCDEFGHIJKLMNOPQRSTUVWXYZ"`. -/
def digits : List Char :=
  ['0', '1', '2', '3', '4', '5', '6', '7', '8', '9', 'A', 'B', 'C', 'D', 'E', 'F', 'G', 'H',
    'I', 'J', 'K', 'L', 'M', 'N', 'O', 'P', 'Q', 'R', 'S', 'T', 'U', 'V', 'W', 'X', 'Y', 'Z']

def digit (r : Nat) : UInt8 := ch (digits.getD r '0')

/-- The `do … while` loop of `u_to_nstr`, with its `value`, `i` and `str`. A 32-bit value
has at most 32 digits, so 32 rounds are enough. -/
def digitLoop (base n str : Nat) : Nat → Nat → Nat → Output → Nat × Nat × Output
  | 0, value, i, o => (value, i, o)
  | rounds + 1, value, i, o =>
    let o := o.put (str + i) (digit (value % base))
    let value := value / base
    let i := i + 1
    if value ≠ 0 ∧ i < n then digitLoop base n str rounds value i o else (value, i, o)

/-- The loop that reverses `str[j..i]`. -/
def reverseLoop (str : Nat) : Nat → Nat → Output → Output
  | 0, _, o => o
  | i + 1, j, o =>
    if i + 1 > j then
      let c := o.mem (str + j)
      let o := o.put (str + j) (o.mem (str + (i + 1)))
      let o := o.put (str + (i + 1)) c
      reverseLoop str i (j + 1) o
    else o

/-- The part of `u_to_nstr` after the prefix, which has set `i = j`. -/
def uToNstrDigits (value n : Nat) (str : Nat) (base j : Nat) (o : Output) : Nat × Output :=
  let (value, i, o) := digitLoop base n str 32 value j o
  if value = 0 then
    let length := i
    let o := o.put (str + i) 0
    (length, reverseLoop str (i - 1) j o)
  else
    (0, o.put str 0)

def uToNstr (value n : Nat) (str : Nat) (base : Nat) (o : Output) : Nat × Output :=
  if n = 0 then (0, o)
  else if base < 2 ∨ base > 36 then (0, o.put str 0)
  else if base = 2 then
    if n > 2 then
      uToNstrDigits value n str base 2 ((o.put str (ch '0')).put (str + 1) (ch 'b'))
    else (0, o.put str 0)
  else if base = 16 then
    if n > 2 then
      uToNstrDigits value n str base 2 ((o.put str (ch '0')).put (str + 1) (ch 'x'))
    else (0, o.put str 0)
  else uToNstrDigits value n str base 0 o

/-- `value` is the 32-bit pattern of an `int32_t`. -/
def iToNstr (value n : Nat) (str : Nat) (base : Nat) (o : Output) : Nat × Output :=
  if 2 ^ 31 ≤ value then
    let r := uToNstr (sub32 0 value) (sub32 n 1) (str + 1) base o
    if r.1 > 0 then (add32 r.1 1, r.2.put str (ch '-')) else (0, r.2)
  else
    uToNstr value n str base o

/-! ### Numerals -/

/-- The digits of a number, least significant first; 0 has one digit. -/
def lsDigits (base v : Nat) : List Nat :=
  if v = 0 then [0] else Nat.digits base v

/-- The canonical numeral, most significant digit first. -/
def canonical (base v : Nat) : List UInt8 := (lsDigits base v).reverse.map digit

def basePrefix (base : Nat) : List UInt8 :=
  if base = 2 then [ch '0', ch 'b'] else if base = 16 then [ch '0', ch 'x'] else []

/-- The numeral of an unsigned value: the prefix of its base and its canonical digits. -/
def unsignedNumeral (base v : Nat) : List UInt8 := basePrefix base ++ canonical base v

/-- The numeral of a signed value, the minus sign first. -/
def signedNumeral (base : Nat) (v : Int) : List UInt8 :=
  if v < 0 then ch '-' :: unsignedNumeral base v.natAbs else unsignedNumeral base v.natAbs

/-- The value of a 32-bit pattern read as an `int32_t`. -/
def toInt32 (w : Nat) : Int := if w < 2 ^ 31 then w else (w : Int) - 2 ^ 32

theorem lsDigits_ne_nil (base v : Nat) : lsDigits base v ≠ [] := by
  rw [lsDigits]
  split
  · simp
  · exact Nat.digits_ne_nil_iff_ne_zero.mpr ‹_›

theorem lsDigits_of_div_eq_zero (hb : 2 ≤ base) (h : v / base = 0) :
    lsDigits base v = [v % base] := by
  have hlt : v < base := by
    rcases (Nat.div_eq_zero_iff).mp h with h | h
    · omega
    · exact h
  rw [lsDigits, Nat.mod_eq_of_lt hlt]
  split
  · rw [‹v = 0›]
  · rw [Nat.digits_of_lt base v ‹_› hlt]

theorem lsDigits_of_div_ne_zero (hb : 2 ≤ base) (h : v / base ≠ 0) :
    lsDigits base v = v % base :: lsDigits base (v / base) := by
  have hv : v ≠ 0 := by
    rintro rfl
    simp at h
  rw [lsDigits, lsDigits, if_neg hv, if_neg h, Nat.digits_def' (by omega) (by omega)]

theorem lsDigits_length_le (hb : 2 ≤ base) (k : Nat) (h : v < base ^ (k + 1)) :
    (lsDigits base v).length ≤ k + 1 := by
  rw [lsDigits]
  split
  · simp
  · exact (Nat.digits_length_le_iff (by omega) v).mpr h

theorem canonical_length (base v : Nat) :
    (canonical base v).length = (lsDigits base v).length := by
  rw [canonical, List.length_map, List.length_reverse]

/-! ### The digit loop -/

/-- When there is room for all digits, the loop writes them, least significant first. -/
theorem digitLoop_all (hb : 2 ≤ base) (hv : v < base ^ rounds) (hr : 0 < rounds)
    (hroom : i + (lsDigits base v).length ≤ n) :
    digitLoop base n str rounds v i o =
      (0, i + (lsDigits base v).length, o.puts (str + i) ((lsDigits base v).map digit)) := by
  induction rounds generalizing v i o with
  | zero => omega
  | succ rounds ih =>
    simp only [digitLoop]
    by_cases hdiv : v / base = 0
    · rw [if_neg (fun h => h.1 hdiv), hdiv, lsDigits_of_div_eq_zero hb hdiv]
      rfl
    · have hds := lsDigits_of_div_ne_zero hb hdiv
      have hlen : (lsDigits base v).length = (lsDigits base (v / base)).length + 1 := by
        rw [hds, List.length_cons]
      have hpos := List.length_pos_iff.mpr (lsDigits_ne_nil base (v / base))
      have hlt : v / base < base ^ rounds := by
        rw [Nat.div_lt_iff_lt_mul (by omega)]
        exact hv
      have hrounds : 0 < rounds := by
        rcases Nat.eq_zero_or_pos rounds with rfl | h
        · exact absurd (Nat.lt_one_iff.mp hlt) hdiv
        · exact h
      rw [if_pos ⟨hdiv, by omega⟩, ih hlt hrounds (by omega), hds, List.map_cons,
        Output.puts_cons, List.length_cons]
      refine Prod.ext rfl (Prod.ext ?_ ?_)
      · simp only
        omega
      · simp only [Nat.add_assoc]

/-- When there is no room for all digits, the loop stops at the end of the buffer with a
value that is not exhausted. -/
theorem digitLoop_cut (str : Nat) (o : Output) (hb : 2 ≤ base) (hv : v < base ^ rounds) (hi : i < n)
    (hroom : n < i + (lsDigits base v).length) :
    ∃ v' bs, digitLoop base n str rounds v i o = (v', n, o.puts (str + i) bs) ∧ v' ≠ 0 ∧
      bs.length = n - i := by
  induction rounds generalizing v i o with
  | zero =>
    have hv0 : v = 0 := by
      rw [Nat.pow_zero] at hv
      omega
    rw [hv0, lsDigits, if_pos rfl, List.length_singleton] at hroom
    omega
  | succ rounds ih =>
    simp only [digitLoop]
    by_cases hdiv : v / base = 0
    · rw [lsDigits_of_div_eq_zero hb hdiv, List.length_singleton] at hroom
      omega
    · have hlt : v / base < base ^ rounds := by
        rw [Nat.div_lt_iff_lt_mul (by omega)]
        exact hv
      rw [lsDigits_of_div_ne_zero hb hdiv, List.length_cons] at hroom
      rcases Nat.lt_or_ge (i + 1) n with hlt' | hge
      · rw [if_pos ⟨hdiv, hlt'⟩]
        obtain ⟨v', bs, heq, hne, hlen⟩ :=
          ih (o := o.put (str + i) (digit (v % base))) hlt hlt' (by omega)
        refine ⟨v', digit (v % base) :: bs, ?_, hne, ?_⟩
        · rw [heq, Output.puts_cons, Nat.add_assoc]
        · rw [List.length_cons]
          omega
      · rw [if_neg (fun h => by omega)]
        have hn : i + 1 = n := by omega
        refine ⟨v / base, [digit (v % base)], ?_, hdiv, ?_⟩
        · rw [hn]
          rfl
        · rw [List.length_singleton]
          omega

/-! ### The reversal -/

theorem reverseLoop_mem (str i j : Nat) (o : Output) (x : Nat) :
    (reverseLoop str i j o).mem x =
      if str + j ≤ x ∧ x ≤ str + i then o.mem (2 * str + i + j - x) else o.mem x := by
  induction i generalizing j o with
  | zero =>
    rw [reverseLoop]
    split
    · congr 1
      omega
    · rfl
  | succ i ih =>
    rw [reverseLoop]
    by_cases hij : i + 1 > j
    · rw [if_pos hij, ih]
      simp only [Output.mem_put]
      by_cases hx : str + j ≤ x ∧ x ≤ str + (i + 1)
      · rw [if_pos hx]
        by_cases hin : str + (j + 1) ≤ x ∧ x ≤ str + i
        · rw [if_pos hin, if_neg (by omega), if_neg (by omega)]
          congr 1
          omega
        · rw [if_neg hin]
          by_cases hxi : x = str + (i + 1)
          · rw [if_pos hxi, hxi]
            congr 1
            omega
          · rw [if_neg hxi, if_pos (by omega), show x = str + j by omega]
            congr 1
            omega
      · rw [if_neg hx, if_neg (by omega), if_neg (by omega), if_neg (by omega)]
    · rw [if_neg hij]
      split
      · congr 1
        omega
      · rfl

theorem reverseLoop_written (str i j : Nat) (o : Output)
    (h : ∀ x, str + j ≤ x → x ≤ str + i → o.written x = true) :
    (reverseLoop str i j o).written = o.written := by
  induction i generalizing j o with
  | zero => rw [reverseLoop]
  | succ i ih =>
    rw [reverseLoop]
    by_cases hij : i + 1 > j
    · have hput : ∀ b c, ((o.put (str + j) b).put (str + (i + 1)) c).written = o.written := by
        intro b c
        funext x
        rw [Output.written_put, Output.written_put]
        split
        · rw [‹x = _›, h (str + (i + 1)) (by omega) (by omega)]
        · split
          · rw [‹x = str + j›, h (str + j) (by omega) (by omega)]
          · rfl
      rw [if_pos hij, ih _ _ (fun x hx hx' => ?_), hput]
      rw [hput]
      exact h x (by omega) (by omega)
    · rw [if_neg hij]

/-- Reversing a block that has just been written, and its terminator, is writing the reversed
block. -/
theorem reverseLoop_puts (str j : Nat) (bs : List UInt8) (c : UInt8) (o : Output)
    (hbs : bs ≠ []) :
    reverseLoop str (j + bs.length - 1) j
        ((o.puts (str + j) bs).put (str + (j + bs.length)) c) =
      o.puts (str + j) (bs.reverse ++ [c]) := by
  have hpos := List.length_pos_iff.mpr hbs
  have hputs : (o.puts (str + j) bs).put (str + (j + bs.length)) c =
      o.puts (str + j) (bs ++ [c]) := by
    rw [Output.puts_append, Output.puts_singleton, Nat.add_assoc]
  apply Output.ext
  · funext x
    rw [reverseLoop_mem, hputs, Output.mem_puts, Output.mem_puts, Output.mem_puts]
    simp only [List.length_append, List.length_reverse, List.length_singleton]
    by_cases hx : str + j ≤ x ∧ x < str + j + bs.length
    · rw [if_pos (by omega), if_pos (by omega), if_pos (by omega)]
      have hl : 2 * str + (j + bs.length - 1) + j - x - (str + j) =
          bs.length - 1 - (x - (str + j)) := by omega
      rw [hl, List.getD_append _ _ _ _ (by omega),
        List.getD_append _ _ _ _ (by rw [List.length_reverse]; omega),
        List.getD_eq_getElem _ _ (by omega),
        List.getD_eq_getElem _ _ (by rw [List.length_reverse]; omega),
        List.getElem_reverse]
    · rw [if_neg (by omega)]
      split
      · have hx' : x - (str + j) = bs.length := by omega
        rw [hx', List.getD_append_right _ _ _ _ (le_refl _),
          List.getD_append_right _ _ _ _ (by rw [List.length_reverse]), List.length_reverse]
      · rfl
  · rw [reverseLoop_written, hputs]
    · funext x
      rw [Output.written_puts, Output.written_puts]
      simp only [List.length_append, List.length_reverse]
    · intro x hx hx'
      rw [hputs]
      refine Output.written_puts_mem _ _ _ _ ⟨hx, ?_⟩
      rw [List.length_append, List.length_singleton]
      omega

/-! ### `u_to_nstr` and `i_to_nstr` -/

theorem uToNstrDigits_fits (hb : 2 ≤ base) (hv : v < 2 ^ 32)
    (hroom : j + (canonical base v).length ≤ n) :
    uToNstrDigits v n str base j o =
      (j + (canonical base v).length, o.puts (str + j) (canonical base v ++ [0])) := by
  rw [canonical_length] at *
  have hvb : v < base ^ 32 := Nat.lt_of_lt_of_le hv (Nat.pow_le_pow_left hb 32)
  rw [uToNstrDigits, digitLoop_all hb hvb (by decide) hroom]
  have hne : (lsDigits base v).map digit ≠ [] := by
    rw [ne_eq, List.map_eq_nil_iff]
    exact lsDigits_ne_nil base v
  have hrev := reverseLoop_puts str j ((lsDigits base v).map digit) 0 o hne
  rw [List.length_map, ← List.map_reverse] at hrev
  simp only [if_true, hrev, canonical]

theorem uToNstrDigits_cut (str : Nat) (o : Output) (hb : 2 ≤ base) (hv : v < 2 ^ 32) (hj : j < n)
    (hroom : n < j + (canonical base v).length) :
    ∃ bs, uToNstrDigits v n str base j o = (0, (o.puts (str + j) bs).put str 0) ∧
      bs.length = n - j := by
  rw [canonical_length] at hroom
  have hvb : v < base ^ 32 := Nat.lt_of_lt_of_le hv (Nat.pow_le_pow_left hb 32)
  obtain ⟨v', bs, heq, hne, hlen⟩ := digitLoop_cut str o hb hvb hj hroom
  refine ⟨bs, ?_, hlen⟩
  rw [uToNstrDigits, heq]
  simp only [if_neg hne]

theorem canonical_length_pos (base v : Nat) : 0 < (canonical base v).length := by
  rw [canonical_length]
  exact List.length_pos_iff.mpr (lsDigits_ne_nil base v)

theorem basePrefix_other (h2 : base ≠ 2) (h16 : base ≠ 16) : basePrefix base = [] := by
  rw [basePrefix, if_neg h2, if_neg h16]

theorem uToNstr_eq (hb : 2 ≤ base) (hb' : base ≤ 36) (hn : 0 < n)
    (hp : (basePrefix base).length < n) : uToNstr v n str base o =
      uToNstrDigits v n str base (basePrefix base).length (o.puts str (basePrefix base)) := by
  rw [uToNstr, if_neg (by omega), if_neg (by omega)]
  by_cases h2 : base = 2
  · subst h2
    rw [if_pos rfl, if_pos (show n > 2 from hp)]
    rfl
  · rw [if_neg h2]
    by_cases h16 : base = 16
    · subst h16
      rw [if_pos rfl, if_pos (show n > 2 from hp)]
      rfl
    · rw [if_neg h16, basePrefix_other h2 h16]
      rfl

theorem uToNstr_no_prefix_room (hb : 2 ≤ base) (hb' : base ≤ 36) (hn : 0 < n)
    (hp : n ≤ (basePrefix base).length) : uToNstr v n str base o = (0, o.put str 0) := by
  rw [uToNstr, if_neg (by omega), if_neg (by omega)]
  by_cases h2 : base = 2
  · subst h2
    rw [if_pos rfl, if_neg (show ¬n > 2 from Nat.not_lt.mpr hp)]
  · rw [if_neg h2]
    by_cases h16 : base = 16
    · subst h16
      rw [if_pos rfl, if_neg (show ¬n > 2 from Nat.not_lt.mpr hp)]
    · rw [basePrefix_other h2 h16, List.length_nil] at hp
      omega

/-- A numeral of at most `n` characters is written, followed by a terminator that lies
outside the buffer when it has exactly `n`. -/
theorem uToNstr_fits (str : Nat) (o : Output) (hb : 2 ≤ base) (hb' : base ≤ 36)
    (hv : v < 2 ^ 32) (hroom : (unsignedNumeral base v).length ≤ n) :
    uToNstr v n str base o =
      ((unsignedNumeral base v).length, o.puts str (unsignedNumeral base v ++ [0])) := by
  rw [unsignedNumeral, List.length_append] at *
  have hpos := canonical_length_pos base v
  rw [uToNstr_eq hb hb' (by omega) (by omega), uToNstrDigits_fits hb hv hroom,
    ← Output.puts_append, List.append_assoc]

/-- A longer numeral leaves an empty string and some characters of the buffer overwritten. -/
theorem uToNstr_cut (str : Nat) (o : Output) (hb : 2 ≤ base) (hb' : base ≤ 36)
    (hv : v < 2 ^ 32) (hn : 0 < n) (hroom : n < (unsignedNumeral base v).length) :
    ∃ o', uToNstr v n str base o = (0, o') ∧ o.Confined o' str n := by
  rw [unsignedNumeral, List.length_append] at hroom
  rcases Nat.lt_or_ge (basePrefix base).length n with hp | hp
  · rw [uToNstr_eq hb hb' hn hp]
    obtain ⟨bs, heq, hlen⟩ := uToNstrDigits_cut str (o.puts str (basePrefix base)) hb hv hp
      hroom
    refine ⟨_, heq, ?_⟩
    have h₁ := (o.confined_puts str (basePrefix base)).mono (b := str) (k := n)
      (le_refl _) (by omega)
    have h₂ := ((o.puts str (basePrefix base)).confined_puts
      (str + (basePrefix base).length) bs).mono (b := str) (k := n) (by omega) (by omega)
    have h₃ := (((o.puts str (basePrefix base)).puts
      (str + (basePrefix base).length) bs).confined_put str 0).mono (b := str) (k := n)
      (le_refl _) (by omega)
    exact (h₁.trans h₂).trans h₃
  · exact ⟨_, uToNstr_no_prefix_room hb hb' hn hp,
      (o.confined_put str 0).mono (le_refl _) (by omega)⟩

theorem unsignedNumeral_length_pos (base v : Nat) : 0 < (unsignedNumeral base v).length := by
  rw [unsignedNumeral, List.length_append]
  have hpos := canonical_length_pos base v
  omega

theorem unsignedNumeral_length_le (hb : 2 ≤ base) (hv : v < 2 ^ 32) :
    (unsignedNumeral base v).length ≤ 34 := by
  have hd := lsDigits_length_le hb 31 (Nat.lt_of_lt_of_le hv (Nat.pow_le_pow_left hb 32))
  have hp : (basePrefix base).length ≤ 2 := by
    rw [basePrefix]
    split
    · exact le_refl _
    · split
      · exact le_refl _
      · exact Nat.zero_le _
  rw [unsignedNumeral, List.length_append, canonical_length]
  omega

theorem toInt32_of_lt (h : w < 2 ^ 31) : toInt32 w = w := by
  rw [toInt32, if_pos h]

theorem toInt32_of_ge (h : 2 ^ 31 ≤ w) : toInt32 w = (w : Int) - 2 ^ 32 := by
  rw [toInt32, if_neg (by omega)]

theorem signedNumeral_nonneg (h : w < 2 ^ 31) :
    signedNumeral base (toInt32 w) = unsignedNumeral base w := by
  rw [toInt32_of_lt h, signedNumeral, if_neg (by omega), Int.natAbs_natCast]

theorem signedNumeral_neg (h : 2 ^ 31 ≤ w) (hw : w < 2 ^ 32) :
    signedNumeral base (toInt32 w) = ch '-' :: unsignedNumeral base (2 ^ 32 - w) := by
  rw [toInt32_of_ge h, signedNumeral, if_pos (by omega)]
  congr 2
  omega

theorem iToNstr_of_neg (h : 2 ^ 31 ≤ w)
    (hr : uToNstr (sub32 0 w) (sub32 n 1) (str + 1) base o = (width, o')) :
    iToNstr w n str base o =
      if width > 0 then (add32 width 1, o'.put str (ch '-')) else (0, o') := by
  rw [iToNstr, if_pos h, hr]

theorem sub32_zero_of_pos (h : 0 < w) : sub32 0 w = 2 ^ 32 - w := by
  rw [sub32_of_gt h, Nat.zero_add]

/-- For a negative value the minus sign stands in front of the numeral of the magnitude. -/
theorem iToNstr_neg_fits (h : 2 ^ 31 ≤ w) (hw : w < 2 ^ 32) (hb : 2 ≤ base) (hb' : base ≤ 36)
    (hroom : (unsignedNumeral base (2 ^ 32 - w)).length ≤ sub32 n 1) :
    iToNstr w n str base o = ((signedNumeral base (toInt32 w)).length,
      o.puts str (signedNumeral base (toInt32 w) ++ [0])) := by
  have hlen := unsignedNumeral_length_le hb (v := 2 ^ 32 - w) (by omega)
  have hpos := unsignedNumeral_length_pos base (2 ^ 32 - w)
  have hr := uToNstr_fits (str + 1) o hb hb' (by omega) hroom
  rw [← sub32_zero_of_pos (by omega)] at hr hpos
  rw [iToNstr_of_neg h hr, if_pos hpos, sub32_zero_of_pos (by omega),
    signedNumeral_neg h hw, add32_of_lt (by omega), Output.puts_put_before, List.length_cons,
    List.cons_append]

theorem iToNstr_fits (hb : 2 ≤ base) (hb' : base ≤ 36) (hw : w < 2 ^ 32) (hn : 0 < n)
    (hn' : n < 2 ^ 32) (hroom : (signedNumeral base (toInt32 w)).length ≤ n) :
    iToNstr w n str base o = ((signedNumeral base (toInt32 w)).length,
      o.puts str (signedNumeral base (toInt32 w) ++ [0])) := by
  rcases Nat.lt_or_ge w (2 ^ 31) with h | h
  · rw [signedNumeral_nonneg h] at *
    rw [iToNstr, if_neg (Nat.not_le.mpr h), uToNstr_fits str o hb hb' hw hroom]
  · refine iToNstr_neg_fits h hw hb hb' ?_
    rw [signedNumeral_neg h hw, List.length_cons] at hroom
    rw [sub32_of_le (by omega) hn']
    omega

theorem iToNstr_cut (str : Nat) (o : Output) (hb : 2 ≤ base) (hb' : base ≤ 36)
    (hw : w < 2 ^ 32) (hn : 0 < n) (hn' : n < 2 ^ 32)
    (hroom : n < (signedNumeral base (toInt32 w)).length) :
    ∃ o', iToNstr w n str base o = (0, o') ∧ o.Confined o' str n := by
  rcases Nat.lt_or_ge w (2 ^ 31) with h | h
  · rw [signedNumeral_nonneg h] at hroom
    rw [iToNstr, if_neg (Nat.not_le.mpr h)]
    exact uToNstr_cut str o hb hb' hw hn hroom
  · rw [signedNumeral_neg h hw, List.length_cons] at hroom
    rcases Nat.lt_or_ge 1 n with hn₁ | hn₁
    · obtain ⟨o', heq, hc⟩ := uToNstr_cut (str + 1) o (n := sub32 n 1) hb hb'
        (v := sub32 0 w) (sub32_lt _ _) (by rw [sub32_of_le hn hn']; omega)
        (by rw [sub32_of_le hn hn', sub32_zero_of_pos (by omega)]; omega)
      rw [sub32_of_le hn hn'] at hc
      refine ⟨o', ?_, hc.mono (by omega) (by omega)⟩
      rw [iToNstr_of_neg h heq]
      rfl
    · -- a buffer of one byte: the call for the magnitude has no room at all
      have heq : uToNstr (sub32 0 w) (sub32 n 1) (str + 1) base o = (0, o) := by
        rw [uToNstr, if_pos (by rw [sub32_of_le hn hn']; omega)]
      refine ⟨o, ?_, Output.Confined.refl o str n⟩
      rw [iToNstr_of_neg h heq]
      rfl

end Atros
