import Atros.Emission

namespace Atros
set_option autoImplicit true

/-! ### The format language -/

/-- The letters that print an `int32_t`. -/
inductive SignedLetter
  | d | i | o | x | X
  deriving DecidableEq, Repr

/-- The letters that print a `uint32_t`. -/
inductive UnsignedLetter
  | u | b | p
  deriving DecidableEq, Repr

def SignedLetter.char : SignedLetter → UInt8
  | .d => ch 'd'
  | .i => ch 'i'
  | .o => ch 'o'
  | .x => ch 'x'
  | .X => ch 'X'

def SignedLetter.base : SignedLetter → Nat
  | .d | .i => 10
  | .o => 8
  | .x | .X => 16

def UnsignedLetter.char : UnsignedLetter → UInt8
  | .u => ch 'u'
  | .b => ch 'b'
  | .p => ch 'p'

def UnsignedLetter.base : UnsignedLetter → Nat
  | .u => 10
  | .b => 2
  | .p => 16

/-- A literal character, or a conversion with its argument. -/
inductive Piece
  | literal (c : UInt8) (hc : c ≠ 0 ∧ c ≠ ch '%')
  | signed (letter : SignedLetter) (w : UInt32)
  | unsigned (letter : UnsignedLetter) (w : UInt32)
  | char (w : UInt32)
  | string (s : List UInt8)
  | percent

def Piece.format : Piece → List UInt8
  | .literal c _ => [c]
  | .signed letter _ => [ch '%', letter.char]
  | .unsigned letter _ => [ch '%', letter.char]
  | .char _ => [ch '%', ch 'c']
  | .string _ => [ch '%', ch 's']
  | .percent => [ch '%', ch '%']

def Piece.args : Piece → List Arg
  | .literal _ _ | .percent => []
  | .signed _ w | .unsigned _ w | .char w => [.word w]
  | .string s => [.str s]

def Piece.expansion : Piece → List UInt8
  | .literal c _ => [c]
  | .signed letter w => signedNumeral letter.base (toInt32 w.toNat)
  | .unsigned letter w => unsignedNumeral letter.base w.toNat
  | .char w => [UInt8.ofNat w.toNat]
  | .string s => cstr s
  | .percent => [ch '%']

/-- The expansion of a format, from its pieces. -/
def expansion (ps : List Piece) : List UInt8 := ps.flatMap Piece.expansion

def Piece.emission : Piece → Emission
  | .literal c _ => .byte c
  | .signed letter w => .numeral (signedNumeral letter.base (toInt32 w.toNat))
  | .unsigned letter w => .numeral (unsignedNumeral letter.base w.toNat)
  | .char w => .byte (UInt8.ofNat w.toNat)
  | .string s => .text (cstr s)
  | .percent => .byte (ch '%')

theorem Piece.emission_bytes (p : Piece) : p.emission.bytes = p.expansion := by
  cases p <;> rfl

theorem convOf_signedLetter (letter : SignedLetter) :
    convOf letter.char = .signed letter.base := by
  cases letter <;> decide

theorem convOf_unsignedLetter (letter : UnsignedLetter) :
    convOf letter.char = .unsigned letter.base := by
  cases letter <;> decide

theorem emissions_conversion (letter : UInt8) (args : List Arg)
    (h : (convOf letter).emission args = some (e, args')) (format : List UInt8) :
    emissions false ([ch '%', letter] ++ format) args =
      (emissions false format args').map fun es => .nothing :: e :: es := by
  have hscan : scan true letter args = some (e, false, args') := by
    rw [scan, if_pos rfl, h, Option.map_some]
  rw [List.cons_append, List.singleton_append, emissions_cons rfl, emissions_cons hscan,
    Option.map_map]
  rfl

theorem emissions_piece (p : Piece) (format : List UInt8) (args : List Arg)
    (h : emissions false format args = some es) :
    ∃ es', emissions false (p.format ++ format) (p.args ++ args) = some es' ∧
      es'.flatMap Emission.bytes = p.expansion ++ es.flatMap Emission.bytes := by
  have conversion : ∀ letter : UInt8,
      (convOf letter).emission (p.args ++ args) = some (p.emission, args) →
      ∃ es', emissions false ([ch '%', letter] ++ format) (p.args ++ args) = some es' ∧
        es'.flatMap Emission.bytes = p.expansion ++ es.flatMap Emission.bytes := by
    intro letter hemit
    refine ⟨.nothing :: p.emission :: es, ?_, ?_⟩
    · rw [emissions_conversion letter _ hemit, h, Option.map_some]
    · rw [List.flatMap_cons, List.flatMap_cons, p.emission_bytes]
      rfl
  cases p with
  | literal c hc =>
    have hscan : scan false c args = some (.byte c, false, args) := by
      rw [scan, if_neg Bool.false_ne_true, if_neg hc.2]
    refine ⟨.byte c :: es, ?_, rfl⟩
    rw [Piece.format, Piece.args, List.singleton_append, List.nil_append,
      emissions_cons hscan, h, Option.map_some]
  | signed letter w =>
    exact conversion letter.char (by rw [convOf_signedLetter]; rfl)
  | unsigned letter w =>
    exact conversion letter.char (by rw [convOf_unsignedLetter]; rfl)
  | char w => exact conversion (ch 'c') rfl
  | string s => exact conversion (ch 's') rfl
  | percent => exact conversion (ch '%') rfl

theorem emissions_pieces (ps : List Piece) (rest : List Arg) :
    ∃ es, emissions false (ps.flatMap Piece.format) (ps.flatMap Piece.args ++ rest) = some es ∧
      es.flatMap Emission.bytes = expansion ps := by
  induction ps with
  | nil => exact ⟨[], rfl, rfl⟩
  | cons p ps ih =>
    obtain ⟨es, hes, hbytes⟩ := ih
    obtain ⟨es', hes', hbytes'⟩ := emissions_piece p _ _ hes
    refine ⟨es', ?_, ?_⟩
    · rw [List.flatMap_cons, List.flatMap_cons, List.append_assoc, hes']
    · rw [hbytes', hbytes]
      rfl

/-! ### Printing within the buffer -/

/-- `o'` is `o` with the bytes `bs` stored from `a` on, possibly with a terminator after
them, which only the numeral routines leave. -/
def Printed (o : Output) (a : Nat) (bs : List UInt8) (o' : Output) : Prop :=
  o' = o.puts a bs ∨ o' = o.puts a (bs ++ [0])

theorem Output.put_put (o : Output) (a : Nat) (b c : UInt8) :
    (o.put a b).put a c = o.put a c := by
  rw [put, put, put, Function.update_idem, Function.update_idem]

theorem Printed.puts (h : Printed o a bs o') (c : UInt8) (cs : List UInt8) :
    o'.puts (a + bs.length) (c :: cs) = o.puts a (bs ++ c :: cs) := by
  rcases h with rfl | rfl
  · rw [Output.puts_append]
  · rw [Output.puts_append, Output.puts_append, Output.puts_singleton, Output.puts_cons,
      Output.put_put, Output.puts_cons]

theorem Printed.trans (h : Printed o a bs o') (h' : Printed o' (a + bs.length) cs o'') :
    Printed o a (bs ++ cs) o'' := by
  cases cs with
  | nil =>
    rw [List.append_nil]
    rcases h' with rfl | rfl
    · exact h
    · exact .inr (h.puts 0 [])
  | cons c cs =>
    rcases h' with rfl | rfl
    · exact .inl (h.puts c cs)
    · refine .inr ?_
      rw [List.cons_append, h.puts, List.append_assoc, List.cons_append]

theorem Emission.Effect.printed {e : Emission} (h : e.Effect n str j o j' o')
    (hroom : j + e.bytes.length + 1 ≤ n) :
    j' = j + e.bytes.length ∧ Printed o (str + j) e.bytes o' := by
  cases e with
  | byte b => exact ⟨h.1, .inl h.2⟩
  | numeral ds =>
    rw [bytes] at hroom
    obtain ⟨hj, ho⟩ := h.1 (by omega)
    exact ⟨hj, .inr ho⟩
  | text s =>
    rw [bytes] at hroom
    refine ⟨?_, .inl ?_⟩
    · rw [h.1, bytes]
      omega
    · rw [h.2, List.take_of_length_le (by omega), bytes]
  | nothing => exact ⟨h.1, .inl h.2⟩

/-- The scan prints the emissions of the format as long as all of them find room. -/
theorem vsnprintfLoop_printed (str : Nat) (o : Output) (hn : n < 2 ^ 32)
    (format : List UInt8) (h0 : 0 ∉ format)
    (hi : i + format.length + 1 ≤ n) (hes : emissions spec format args = some es)
    (hroom : j + (es.flatMap Emission.bytes).length + 1 ≤ n) :
    ∃ o', vsnprintfLoop n str format i j spec args o =
        some (j + (es.flatMap Emission.bytes).length, o') ∧
      Printed o (str + j) (es.flatMap Emission.bytes) o' := by
  induction format generalizing i j spec args es o with
  | nil =>
    cases hes
    exact ⟨o, rfl, .inl rfl⟩
  | cons c format ih =>
    obtain ⟨e, es', spec', args', hscan, hes', rfl⟩ := emissions_cons_some hes
    rw [List.flatMap_cons, List.length_append] at *
    rw [List.length_cons] at hi
    have hc : c ≠ 0 := fun h => h0 (h ▸ List.mem_cons_self)
    obtain ⟨j', o₁, heff, hstep⟩ :=
      vsnprintfLoop_step str o format (j := j) hn (by omega) hc (i := i) (by omega) hscan
    obtain ⟨rfl, hprint⟩ := heff.printed (by omega)
    obtain ⟨o₂, hloop, hprint'⟩ := ih o₁ (j := j + e.bytes.length)
      (fun h => h0 (List.mem_cons_of_mem _ h)) (i := i + 1) (by omega) hes' (by omega)
    refine ⟨o₂, ?_, ?_⟩
    · rw [hstep, hloop, Nat.add_assoc]
    · rw [← Nat.add_assoc] at hprint'
      exact hprint.trans hprint'

theorem vsnprintf_emissions (str : Nat) (m : Mem) (hn : n < 2 ^ 32)
    (hes : emissions false (cstr format) args = some es) (hlen : (cstr format).length + 1 ≤ n)
    (hroom : (es.flatMap Emission.bytes).length + 1 ≤ n) :
    vsnprintf str n format args m = some ((es.flatMap Emission.bytes).length,
      (Output.start m).puts str (es.flatMap Emission.bytes ++ [0])) := by
  obtain ⟨o', hloop, hprint⟩ := vsnprintfLoop_printed str (Output.start m) hn (cstr format)
    (zero_notMem_cstr format) (i := 0) (by omega) hes (j := 0) (by omega)
  rw [Nat.zero_add, Nat.add_zero] at *
  rw [vsnprintf, vsnprintfLoop_truncate (by omega) hn, List.take_of_length_le (by omega),
    hloop, Option.map_some]
  refine congrArg some (Prod.ext rfl ?_)
  exact hprint.puts 0 []

/-- A format whose expansion fits is printed as its expansion and a terminator. -/
theorem vsnprintf_expansion (str n : Nat) (m : Mem) (format : List UInt8)
    (ps : List Piece) (rest : List Arg) (hn : n < 2 ^ 32)
    (hformat : cstr format = ps.flatMap Piece.format)
    (hlen : (cstr format).length + 1 ≤ n) (hroom : (expansion ps).length + 1 ≤ n) :
    vsnprintf str n format (ps.flatMap Piece.args ++ rest) m =
      some ((expansion ps).length, (Output.start m).puts str (expansion ps ++ [0])) := by
  obtain ⟨es, hes, hbytes⟩ := emissions_pieces ps rest
  rw [← hformat] at hes
  rw [← hbytes] at hroom ⊢
  exact vsnprintf_emissions str m hn hes hlen hroom

/-- `vsnprintf(0x1000, 9, "x%s%d%p", "ab", -5, 10)` fills its buffer exactly. -/
theorem vsnprintf_expansion_exact :
    vsnprintf 0x1000 9 ([ch 'x', ch '%', ch 's', ch '%', ch 'd', ch '%', ch 'p'] ++ [0])
        [.str [ch 'a', ch 'b', 0], .word 4294967291, .word 10] (fun _ => 0) =
      some (8, (Output.start (fun _ => 0)).puts 0x1000
        [ch 'x', ch 'a', ch 'b', ch '-', ch '5', ch '0', ch 'x', ch 'A', 0]) :=
  vsnprintf_expansion _ _ _ _
    [.literal (ch 'x') (by decide), .string [ch 'a', ch 'b', 0], .signed .d 4294967291,
      .unsigned .p 10] [] (by decide) (by decide) (by decide) (by decide)

end Atros
