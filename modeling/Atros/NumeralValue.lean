import Atros.Numeral

namespace Atros
set_option autoImplicit true

/-- The value of a digit character: its place in `digits`. -/
def digitValue (c : UInt8) : Nat := (digits.map ch).idxOf c

/-- Reads a numeral in a base, most significant digit first. -/
def parse (base : Nat) (ds : List UInt8) : Nat :=
  ds.foldl (fun acc c => acc * base + digitValue c) 0

/-- The canonical numeral of a value: digits of the base, no leading zero but for 0 itself, and
the value back when it is read. -/
structure IsNumeral (base v : Nat) (ds : List UInt8) : Prop where
  nonempty : ds ≠ []
  digits : ∀ c ∈ ds, ∃ r < base, c = digit r
  leading : ds.head? = some (ch '0') → v = 0 ∧ ds = [ch '0']
  value : parse base ds = v

theorem digitValue_digit : ∀ r < 36, digitValue (digit r) = r := by decide

theorem digit_eq_zero (hr : r < 36) (h : digit r = ch '0') : r = 0 := by
  have hv : digitValue (digit r) = digitValue (digit 0) := by rw [h]; rfl
  rw [digitValue_digit r hr, digitValue_digit 0 (by decide)] at hv
  exact hv

/-- Reading digits most significant first is evaluating them least significant first. -/
theorem parse_reverse_map_digit (base : Nat) (h : ∀ r ∈ rs, r < 36) :
    parse base (rs.reverse.map digit) = Nat.ofDigits base rs := by
  rw [parse, List.foldl_map, List.foldl_reverse]
  induction rs with
  | nil => rfl
  | cons r rs ih =>
    have hr := digitValue_digit r (h r List.mem_cons_self)
    have ht := ih fun r hr => h r (List.mem_cons_of_mem _ hr)
    rw [List.foldr_cons, ht, hr, Nat.ofDigits_cons, Nat.mul_comm, Nat.add_comm]

theorem lsDigits_lt (hb : 2 ≤ base) (h : r ∈ lsDigits base v) : r < base := by
  rw [lsDigits] at h
  split at h
  · rw [List.mem_singleton] at h
    omega
  · exact Nat.digits_lt_base (by omega) h

theorem ofDigits_lsDigits (base v : Nat) : Nat.ofDigits base (lsDigits base v) = v := by
  rw [lsDigits]
  split
  · rw [‹v = 0›]
    rfl
  · exact Nat.ofDigits_digits base v

theorem lsDigits_getLast_ne_zero (base : Nat) (hv : v ≠ 0) :
    (lsDigits base v).getLast (lsDigits_ne_nil base v) ≠ 0 := by
  simp only [lsDigits, if_neg hv]
  exact Nat.getLast_digit_ne_zero base hv

theorem canonical_head? (base v : Nat) :
    (canonical base v).head? =
      some (digit ((lsDigits base v).getLast (lsDigits_ne_nil base v))) := by
  rw [canonical, List.head?_map, List.head?_reverse, List.getLast?_eq_some_getLast]
  rfl

theorem canonical_isNumeral (v : Nat) (hb : 2 ≤ base) (hb' : base ≤ 36) :
    IsNumeral base v (canonical base v) := by
  have hlt : ∀ r ∈ lsDigits base v, r < base := fun r => lsDigits_lt hb
  refine ⟨?_, ?_, ?_, ?_⟩
  · exact List.length_pos_iff.mp (canonical_length_pos base v)
  · intro c hc
    rw [canonical, List.mem_map] at hc
    obtain ⟨r, hr, rfl⟩ := hc
    exact ⟨r, hlt r (List.mem_reverse.mp hr), rfl⟩
  · intro hhead
    rw [canonical_head?, Option.some.injEq] at hhead
    by_cases hv : v = 0
    · subst hv
      exact ⟨rfl, rfl⟩
    · have hlast := hlt _ (List.getLast_mem (lsDigits_ne_nil base v))
      exact absurd (digit_eq_zero (by omega) hhead) (lsDigits_getLast_ne_zero base hv)
  · have hdigits : ∀ r ∈ lsDigits base v, r < 36 := by
      intro r hr
      have := hlt r hr
      omega
    rw [canonical, parse_reverse_map_digit base hdigits, ofDigits_lsDigits]

/-- The minus sign of negative values. -/
def minusSign (v : Int) : List UInt8 := if v < 0 then [ch '-'] else []

theorem signedNumeral_eq (base : Nat) (v : Int) :
    signedNumeral base v = minusSign v ++ unsignedNumeral base v.natAbs := by
  rw [signedNumeral, minusSign]
  split <;> rfl

/-- Given room, `u_to_nstr` stores the prefix and the canonical numeral of an unsigned value, and
`i_to_nstr` the minus sign of negatives before those of the magnitude. -/
theorem nstr_denotes (o : Output) (str : Nat) (hb : 2 ≤ base) (hb' : base ≤ 36)
    (hn : n < 2 ^ 32) :
    (∀ value < 2 ^ 32, (basePrefix base ++ canonical base value).length < n →
      IsNumeral base value (canonical base value) ∧
      uToNstr value n str base o =
        ((basePrefix base ++ canonical base value).length,
          o.puts str (basePrefix base ++ canonical base value ++ [0]))) ∧
    ∀ w < 2 ^ 32, ∀ value : Int, value = toInt32 w →
      (minusSign value ++ (basePrefix base ++ canonical base value.natAbs)).length < n →
      IsNumeral base value.natAbs (canonical base value.natAbs) ∧
      iToNstr w n str base o =
        ((minusSign value ++ (basePrefix base ++ canonical base value.natAbs)).length,
          o.puts str (minusSign value ++ (basePrefix base ++ canonical base value.natAbs) ++
            [0])) := by
  refine ⟨?_, ?_⟩
  · intro value hv hroom
    refine ⟨canonical_isNumeral value hb hb', ?_⟩
    exact uToNstr_fits str o hb hb' hv (Nat.le_of_lt hroom)
  · intro w hw value hvalue hroom
    subst hvalue
    refine ⟨canonical_isNumeral _ hb hb', ?_⟩
    have hsigned := signedNumeral_eq base (toInt32 w)
    rw [unsignedNumeral] at hsigned
    rw [← hsigned] at hroom ⊢
    exact iToNstr_fits hb hb' hw (by omega) hn (Nat.le_of_lt hroom)

/-- The most negative value in base 16, written to a buffer of 32 bytes. -/
theorem nstr_denotes_min :
    IsNumeral 16 (2 ^ 31) (canonical 16 (2 ^ 31)) ∧
      iToNstr (2 ^ 31) 32 100 16 (Output.start fun _ => 255) =
        (11, (Output.start fun _ => 255).puts 100 ("-0x80000000".toList.map ch ++ [0])) := by
  have hspace : (minusSign (toInt32 (2 ^ 31)) ++
      (basePrefix 16 ++ canonical 16 (toInt32 (2 ^ 31)).natAbs)) =
        "-0x80000000".toList.map ch := by
    simp [toInt32, minusSign, basePrefix, canonical, lsDigits]
    decide
  have h := (nstr_denotes (Output.start fun _ => 255) 100 (n := 32) (by decide : 2 ≤ 16) (by decide)
    (by decide)).2 (2 ^ 31) (by decide) _ rfl
  rw [hspace] at h
  exact h (by decide)

end Atros
