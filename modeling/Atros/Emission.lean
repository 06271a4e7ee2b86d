import Atros.Vsnprintf

namespace Atros
set_option autoImplicit true

/-- What one character of a format sends to the buffer. -/
inductive Emission
  | byte (b : UInt8)
  | numeral (ds : List UInt8)
  | text (s : List UInt8)
  | nothing
  deriving DecidableEq

/-- The bytes of an emission that finds room. -/
def Emission.bytes : Emission → List UInt8
  | .byte b => [b]
  | .numeral ds => ds
  | .text s => s
  | .nothing => []

def Conv.emission : Conv → List Arg → Option (Emission × List Arg)
  | .signed base, args =>
    (vaWord args).map fun (w, args) => (.numeral (signedNumeral base (toInt32 w)), args)
  | .unsigned base, args =>
    (vaWord args).map fun (w, args) => (.numeral (unsignedNumeral base w), args)
  | .char, args => (vaWord args).map fun (w, args) => (.byte (UInt8.ofNat w), args)
  | .string, args => (vaString args).map fun (s, args) => (.text (cstr s), args)
  | .percent, args => some (.byte (ch '%'), args)
  | .other, args => some (.nothing, args)

/-- The emission of a character, and whether a specifier is expected after it. -/
def scan (specifierExpected : Bool) (c : UInt8) (args : List Arg) :
    Option (Emission × Bool × List Arg) :=
  if specifierExpected then
    ((convOf c).emission args).map fun (e, args) => (e, false, args)
  else if c = ch '%' then some (.nothing, true, args)
  else some (.byte c, false, args)

/-- The emissions of a format, one for each of its characters. There are none when the
arguments do not match the format. -/
def emissions : Bool → List UInt8 → List Arg → Option (List Emission)
  | _, [], _ => some []
  | specifierExpected, c :: format, args =>
    (scan specifierExpected c args).bind fun (e, specifierExpected, args) =>
      (emissions specifierExpected format args).map (e :: ·)

theorem emissions_cons (hscan : scan spec c args = some (e, spec', args'))
    (format : List UInt8) :
    emissions spec (c :: format) args = (emissions spec' format args').map (e :: ·) := by
  rw [emissions, hscan, Option.bind_some]

theorem emissions_cons_some (h : emissions spec (c :: format) args = some es) :
    ∃ e es' spec' args', scan spec c args = some (e, spec', args') ∧
      emissions spec' format args' = some es' ∧ es = e :: es' := by
  rw [emissions] at h
  obtain ⟨⟨e, spec', args'⟩, hscan, h⟩ := Option.bind_eq_some_iff.mp h
  obtain ⟨es', hes', rfl⟩ := Option.map_eq_some_iff.mp h
  exact ⟨e, es', spec', args', hscan, hes', rfl⟩

theorem emissions_take (h : emissions spec format args = some es) (k : Nat) :
    emissions spec (format.take k) args = some (es.take k) := by
  induction format generalizing spec args es k with
  | nil =>
    rw [emissions, Option.some.injEq] at h
    rw [← h, List.take_nil, List.take_nil, emissions]
  | cons c format ih =>
    obtain ⟨e, es', spec', args', hscan, hes', rfl⟩ := emissions_cons_some h
    cases k with
    | zero => rfl
    | succ k =>
      rw [List.take_succ_cons, List.take_succ_cons, emissions_cons hscan, ih hes' k,
        Option.map_some]

/-- What an emission does to the output index and the buffer, while the index is inside. -/
def Emission.Effect (n str j : Nat) (o : Output) (j' : Nat) (o' : Output) : Emission → Prop
  | .byte b => j' = j + 1 ∧ o' = o.put (str + j) b
  | .numeral ds =>
    (ds.length ≤ n - j → j' = j + ds.length ∧ o' = o.puts (str + j) (ds ++ [0])) ∧
    (n - j < ds.length → j' = j ∧ o.Confined o' (str + j) (n - j))
  | .text s => j' = min (j + s.length) (n - 1) ∧ o' = o.puts (str + j) (s.take (n - 1 - j))
  | .nothing => j' = j ∧ o' = o

theorem vaWord_lt (h : vaWord args = some (w, args')) : w < 2 ^ 32 := by
  cases args with
  | nil => cases h
  | cons a args =>
    cases a with
    | word v =>
      rw [vaWord, Option.some.injEq, Prod.mk.injEq] at h
      rw [← h.1]
      exact v.toNat_lt
    | str s => cases h

theorem convOf_signed (h : convOf c = .signed base) : 2 ≤ base ∧ base ≤ 36 := by
  unfold convOf at h
  split_ifs at h <;> cases h <;> omega

theorem convOf_unsigned (h : convOf c = .unsigned base) : 2 ≤ base ∧ base ≤ 36 := by
  unfold convOf at h
  split_ifs at h <;> cases h <;> omega

theorem signed_effect (str : Nat) (o : Output) (hb : 2 ≤ base) (hb' : base ≤ 36) (hn : n < 2 ^ 32)
    (hj : j < n) (hw : w < 2 ^ 32) :
    ∃ j' o', (Emission.numeral (signedNumeral base (toInt32 w))).Effect n str j o j' o' ∧
      (add32 j (iToNstr w (sub32 n j) (str + j) base o).1,
        (iToNstr w (sub32 n j) (str + j) base o).2) = (j', o') := by
  rw [sub32_of_le (by omega) hn]
  rcases Nat.lt_or_ge (n - j) (signedNumeral base (toInt32 w)).length with hroom | hroom
  · obtain ⟨o', heq, hc⟩ := iToNstr_cut (str + j) o hb hb' hw (by omega)
      (by omega) hroom
    refine ⟨j, o', ⟨fun h => absurd h (by omega), fun _ => ⟨rfl, hc⟩⟩, ?_⟩
    rw [heq, add32_of_lt (by omega), Nat.add_zero]
  · refine ⟨_, _, ⟨fun _ => ⟨rfl, rfl⟩, fun h => absurd h (by omega)⟩, ?_⟩
    rw [iToNstr_fits hb hb' hw (by omega) (by omega) hroom, add32_of_lt (by omega)]

theorem unsigned_effect (str : Nat) (o : Output) (hb : 2 ≤ base) (hb' : base ≤ 36) (hn : n < 2 ^ 32)
    (hj : j < n) (hw : w < 2 ^ 32) :
    ∃ j' o', (Emission.numeral (unsignedNumeral base w)).Effect n str j o j' o' ∧
      (add32 j (uToNstr w (sub32 n j) (str + j) base o).1,
        (uToNstr w (sub32 n j) (str + j) base o).2) = (j', o') := by
  rw [sub32_of_le (by omega) hn]
  rcases Nat.lt_or_ge (n - j) (unsignedNumeral base w).length with hroom | hroom
  · obtain ⟨o', heq, hc⟩ := uToNstr_cut (str + j) o hb hb' hw (by omega) hroom
    refine ⟨j, o', ⟨fun h => absurd h (by omega), fun _ => ⟨rfl, hc⟩⟩, ?_⟩
    rw [heq, add32_of_lt (by omega), Nat.add_zero]
  · refine ⟨_, _, ⟨fun _ => ⟨rfl, rfl⟩, fun h => absurd h (by omega)⟩, ?_⟩
    rw [uToNstr_fits _ _ hb hb' hw hroom, add32_of_lt (by omega)]

theorem convert_effect (str : Nat) (o : Output) (hn : n < 2 ^ 32) (hj : j < n)
    (h : (convOf c).emission args = some (e, args')) :
    ∃ j' o', e.Effect n str j o j' o' ∧
      convert n str (convOf c) j args o = some (j', args', o') := by
  cases hconv : convOf c with
  | signed base =>
    rw [hconv] at h
    obtain ⟨⟨w, as⟩, hva, heq⟩ := Option.map_eq_some_iff.mp h
    cases heq
    obtain ⟨hb, hb'⟩ := convOf_signed hconv
    obtain ⟨j', o', heff, heq⟩ :=
      signed_effect str o hb hb' hn hj (vaWord_lt hva)
    cases heq
    exact ⟨_, _, heff, by rw [convert, hva, Option.map_some]⟩
  | unsigned base =>
    rw [hconv] at h
    obtain ⟨⟨w, as⟩, hva, heq⟩ := Option.map_eq_some_iff.mp h
    cases heq
    obtain ⟨hb, hb'⟩ := convOf_unsigned hconv
    obtain ⟨j', o', heff, heq⟩ :=
      unsigned_effect str o hb hb' hn hj (vaWord_lt hva)
    cases heq
    exact ⟨_, _, heff, by rw [convert, hva, Option.map_some]⟩
  | char =>
    rw [hconv] at h
    obtain ⟨⟨w, as⟩, hva, heq⟩ := Option.map_eq_some_iff.mp h
    cases heq
    refine ⟨j + 1, _, ⟨rfl, rfl⟩, ?_⟩
    rw [convert, hva, Option.map_some, add32_of_lt (by omega)]
  | string =>
    rw [hconv] at h
    obtain ⟨⟨s, as⟩, hva, heq⟩ := Option.map_eq_some_iff.mp h
    cases heq
    refine ⟨_, _, ⟨rfl, rfl⟩, ?_⟩
    rw [convert, hva, Option.map_some]
    simp only
    rw [copyString_eq hn (by omega)]
  | percent =>
    rw [hconv] at h
    cases h
    refine ⟨j + 1, _, ⟨rfl, rfl⟩, ?_⟩
    rw [convert, add32_of_lt (by omega)]
  | other =>
    rw [hconv] at h
    cases h
    exact ⟨j, o, ⟨rfl, rfl⟩, rfl⟩

theorem vsnprintfLoop_step (str : Nat) (o : Output) (format : List UInt8) (hn : n < 2 ^ 32)
    (hj : j < n) (hc : c ≠ 0) (hi : i + 1 < n)
    (hscan : scan spec c args = some (e, spec', args')) :
    ∃ j' o', e.Effect n str j o j' o' ∧ vsnprintfLoop n str (c :: format) i j spec args o =
      vsnprintfLoop n str format (i + 1) j' spec' args' o' := by
  rw [vsnprintfLoop_cons (by omega) hn hc hi]
  cases spec with
  | true =>
    rw [scan, if_pos rfl] at hscan
    obtain ⟨⟨e', as⟩, hemit, heq⟩ := Option.map_eq_some_iff.mp hscan
    cases heq
    obtain ⟨j', o', heff, hconv⟩ := convert_effect str o hn hj hemit
    exact ⟨j', o', heff, by rw [if_pos rfl, hconv, Option.bind_some]⟩
  | false =>
    rw [scan, if_neg Bool.false_ne_true] at hscan
    rw [if_neg Bool.false_ne_true]
    by_cases hpercent : c = ch '%'
    · rw [if_pos hpercent] at hscan
      cases hscan
      exact ⟨j, o, ⟨rfl, rfl⟩, by rw [if_pos hpercent]⟩
    · rw [if_neg hpercent] at hscan
      cases hscan
      exact ⟨j + 1, _, ⟨rfl, rfl⟩, by rw [if_neg hpercent, add32_of_lt (by omega)]⟩

end Atros
