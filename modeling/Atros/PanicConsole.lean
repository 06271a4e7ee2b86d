import Atros.ConsoleRun
import Atros.FormatArguments
import Atros.FormatLanguage
import Atros.NumeralValue

namespace Atros
set_option autoImplicit true

variable {s : Screen}

/-- `"\nPANIC: "`. -/
def announcement : List UInt8 :=
  [newline, ch 'P', ch 'A', ch 'N', ch 'I', ch 'C', ch ':', ch ' ']

/-- `panic(format, args)` up to `hlt`, with all that it prints: the message is formatted into the
buffer of panic.c, which is then the format of a `kprintf` without arguments. -/
def panic (panicBuffer buffer : Nat) (format : List UInt8) (args : List Arg) (s : Screen) :
    Option (List UInt8 × Screen) := do
  let (_, o) ← vsnprintf panicBuffer 1024 format args s.out.mem
  let (announced, s) ← kprintfs buffer [⟨announcement ++ [0], []⟩]
    { s with out := ⟨o.mem, s.out.written⟩ }
  let (text, s) ← kprintfs buffer [⟨bytesAt s.out.mem panicBuffer 1024, []⟩] s
  return (announced ++ text, s)

/-! ### A format without arguments -/

theorem vaReads_none_emission (args : List Arg) (h : (convOf c).vaKind = none) :
    ∃ e, (convOf c).emission args = some (e, args) ∧
      (e = .nothing ∨ c = ch '%' ∧ e = .byte (ch '%')) := by
  cases hconv : convOf c with
  | percent =>
    refine ⟨_, rfl, .inr ⟨?_, rfl⟩⟩
    unfold convOf at hconv
    split_ifs at hconv with h₁ h₂ h₃ h₄ h₅ h₆ h₇ h₈ h₉
    exact h₉
  | other => exact ⟨_, rfl, .inl rfl⟩
  | signed base => rw [hconv] at h; cases h
  | unsigned base => rw [hconv] at h; cases h
  | char => rw [hconv] at h; cases h
  | string => rw [hconv] at h; cases h

/-- What is printed of a format that reads no argument: at most its own characters, and less
than all of them if there is a `%` among them. -/
structure Reprinted (spec : Bool) (format bytes : List UInt8) : Prop where
  chars : ∀ b ∈ bytes, b ∈ format
  length : bytes.length ≤ format.length
  drops : spec = false → ch '%' ∈ format → bytes.length < format.length
  keeps : spec = false → ch '%' ∉ format → bytes = format

theorem Reprinted.skip (h : Reprinted spec' format bytes) (hc : spec = false → c = ch '%') :
    Reprinted spec (c :: format) bytes := by
  have hlen := h.length
  refine ⟨fun b hb => List.mem_cons_of_mem _ (h.chars b hb), ?_, fun _ _ => ?_, ?_⟩
  · rw [List.length_cons]
    omega
  · rw [List.length_cons]
    omega
  · intro hspec hp
    exact absurd (hc hspec ▸ List.mem_cons_self) hp

theorem Reprinted.print (h : Reprinted false format bytes) (hc : spec = false → c ≠ ch '%') :
    Reprinted spec (c :: format) (c :: bytes) := by
  have hlen := h.length
  refine ⟨?_, ?_, fun hspec hp => ?_, fun hspec hp => ?_⟩
  · intro b hb
    rcases List.mem_cons.mp hb with rfl | hb
    · exact List.mem_cons_self
    · exact List.mem_cons_of_mem _ (h.chars b hb)
  · rw [List.length_cons, List.length_cons]
    omega
  · have hin := (List.mem_cons.mp hp).resolve_left (Ne.symm (hc hspec))
    have hdrops := h.drops rfl hin
    rw [List.length_cons, List.length_cons]
    omega
  · rw [h.keeps rfl fun hin => hp (List.mem_cons_of_mem _ hin)]

theorem emissions_no_reads (format : List UInt8) (h0 : 0 ∉ format)
    (hi : i + format.length ≤ sub32 n 1) (h : vaReads n format i spec [] = []) :
    ∃ es, emissions spec format [] = some es ∧
      Reprinted spec format (es.flatMap Emission.bytes) := by
  induction format generalizing i spec with
  | nil => exact ⟨[], rfl, fun _ hb => hb, le_refl _, fun _ hp => absurd hp List.not_mem_nil,
    fun _ _ => rfl⟩
  | cons c format ih =>
    have hc : c ≠ 0 := fun hz => h0 (hz ▸ List.mem_cons_self)
    have htail : 0 ∉ format := fun hz => h0 (List.mem_cons_of_mem _ hz)
    rw [List.length_cons] at hi
    rw [vaReads, if_pos ⟨hc, by omega⟩] at h
    cases spec with
    | false =>
      rw [if_neg Bool.false_ne_true] at h
      obtain ⟨es, hes, hprinted⟩ := ih htail (by omega) h
      by_cases hp : c = ch '%'
      · have hscan : scan false c [] = some (.nothing, true, []) := by
          rw [scan, if_neg Bool.false_ne_true, if_pos hp]
        rw [decide_eq_true hp] at hes
        refine ⟨.nothing :: es, ?_, hprinted.skip fun _ => hp⟩
        rw [emissions_cons hscan, hes, Option.map_some]
      · have hscan : scan false c [] = some (.byte c, false, []) := by
          rw [scan, if_neg Bool.false_ne_true, if_neg hp]
        rw [decide_eq_false hp] at hes hprinted
        refine ⟨.byte c :: es, ?_, hprinted.print fun _ => hp⟩
        rw [emissions_cons hscan, hes, Option.map_some]
    | true =>
      rw [if_pos rfl] at h
      cases hk : (convOf c).vaKind with
      | some kind =>
        rw [hk] at h
        cases h
      | none =>
        rw [hk] at h
        obtain ⟨es, hes, hprinted⟩ := ih htail (by omega) h
        obtain ⟨e, hemit, he⟩ := vaReads_none_emission [] hk
        have hscan : scan true c [] = some (e, false, []) := by
          rw [scan, if_pos rfl, hemit, Option.map_some]
        refine ⟨e :: es, by rw [emissions_cons hscan, hes, Option.map_some], ?_⟩
        rcases he with rfl | ⟨rfl, rfl⟩
        · exact hprinted.skip fun hspec => absurd hspec.symm Bool.false_ne_true
        · exact hprinted.print fun hspec => absurd hspec.symm Bool.false_ne_true

theorem not_matches_none (kind : VaKind) : ¬VaRead.Matches ⟨kind, none⟩ := by
  cases kind <;> exact id

theorem vaReads_no_args_mem (format : List UInt8) (h : r ∈ vaReads n format i spec []) :
    ¬r.Matches := by
  induction format generalizing i spec with
  | nil => exact absurd h List.not_mem_nil
  | cons c format ih =>
    rw [vaReads] at h
    split at h
    · split at h
      · split at h
        · rcases List.mem_cons.mp h with rfl | h
          · exact not_matches_none _
          · exact ih h
        · exact ih h
      · exact ih h
    · exact absurd h List.not_mem_nil

theorem vaReads_no_percent (format : List UInt8) (h : ch '%' ∉ format) :
    vaReads n format i false args = [] := by
  induction format generalizing i with
  | nil => rfl
  | cons c format ih =>
    have htail : ch '%' ∉ format := fun hp => h (List.mem_cons_of_mem _ hp)
    have hne : c ≠ ch '%' := fun hp => h (hp ▸ List.mem_cons_self)
    rw [vaReads]
    split
    · rw [if_neg Bool.false_ne_true, decide_eq_false hne]
      exact ih htail
    · rfl

theorem bytesAt_add (m : Mem) (a k l : Nat) :
    bytesAt m a (k + l) = bytesAt m a k ++ bytesAt m (a + k) l := by
  induction k generalizing a with
  | zero => rw [Nat.zero_add]; rfl
  | succ k ih =>
    rw [Nat.add_right_comm, bytesAt, ih, bytesAt, List.cons_append, Nat.add_right_comm,
      Nat.add_assoc]

theorem bytesAt_puts (o : Output) (a : Nat) (bs : List UInt8) :
    bytesAt (o.puts a bs).mem a bs.length = bs := by
  induction bs generalizing o a with
  | nil => rfl
  | cons b bs ih =>
    have hhead : (o.puts a (b :: bs)).mem a = b := by
      rw [Output.mem_puts, if_pos ⟨le_refl _, by rw [List.length_cons]; omega⟩, Nat.sub_self]
      rfl
    rw [List.length_cons, bytesAt, hhead, Output.puts_cons, ih]

theorem cstr_append_terminator {text : List UInt8} (h : 0 ∉ text) (rest : List UInt8) :
    cstr (text ++ 0 :: rest) = text := by
  induction text with
  | nil => rfl
  | cons c text ih =>
    have hc : c ≠ 0 := fun hz => h (hz ▸ List.mem_cons_self)
    rw [List.cons_append, cstr_cons hc, ih fun hz => h (List.mem_cons_of_mem _ hz)]

theorem formatted_emissions (buffer : Nat) (m : Mem)
    (hes : emissions false (cstr format) args = some es) (hlen : (cstr format).length ≤ 1023)
    (hroom : (es.flatMap Emission.bytes).length ≤ 1023)
    (hzero : 0 ∉ es.flatMap Emission.bytes) :
    formatted buffer format args m = some (es.flatMap Emission.bytes) := by
  have hlength : (es.flatMap Emission.bytes ++ [0]).length =
      (es.flatMap Emission.bytes).length + 1 := by
    rw [List.length_append, List.length_singleton]
  rw [formatted, vsnprintf_emissions buffer m (by decide) hes (by omega) (by omega),
    Option.map_some]
  simp only [← hlength, bytesAt_puts]
  exact congrArg some (cstr_append_terminator hzero [])

theorem formatted_no_args (buffer : Nat) (format : List UInt8) (m : Mem)
    (hlen : (cstr format).length ≤ 1023) :
    (∃ j o bytes, vsnprintf buffer 1024 format [] m = some (j, o) ∧ j ≤ 1023 ∧
        formatted buffer format [] m = some bytes ∧ vaReads 1024 format 0 false [] = [] ∧
        Reprinted false (cstr format) bytes ∧ (Output.start m).Confined o buffer 1024) ∨
      vsnprintf buffer 1024 format [] m = none ∧ ch '%' ∈ cstr format := by
  have hsub : sub32 1024 1 = 1023 := rfl
  by_cases h : vaReads 1024 format 0 false [] = []
  · refine .inl ?_
    have hreads := h
    rw [vaReads_cstr] at hreads
    obtain ⟨es, hes, hprinted⟩ := emissions_no_reads (cstr format) (zero_notMem_cstr format)
      (by rw [hsub]; omega) hreads
    have hshort := hprinted.length
    have hrun := vsnprintf_emissions buffer m (n := 1024) (by decide) hes (by omega) (by omega)
    have hzero : (0 : UInt8) ∉ es.flatMap Emission.bytes := fun hz =>
      zero_notMem_cstr format (hprinted.chars 0 hz)
    have htext := formatted_emissions buffer m hes hlen (by omega) hzero
    refine ⟨_, _, es.flatMap Emission.bytes, hrun, by omega, htext, h, hprinted, ?_⟩
    refine ((Output.start m).confined_puts buffer _).mono (le_refl _) ?_
    rw [List.length_append, List.length_singleton]
    omega
  · refine .inr ⟨?_, ?_⟩
    · obtain ⟨r, hr⟩ := List.exists_mem_of_ne_nil _ h
      rw [← Option.not_isSome_iff_eq_none, vsnprintf_isSome_iff]
      exact fun hall => vaReads_no_args_mem format hr (hall r hr)
    · refine Decidable.byContradiction fun hp => h ?_
      rw [vaReads_cstr]
      exact vaReads_no_percent _ hp

/-! ### `kprintf` of one text -/

theorem Screen.InRange.print_frame (h : s.InRange) (text : List UInt8) :
    (text.foldl Screen.put s).InRange ∧
      ∀ x, videoBase + 4000 ≤ x → (text.foldl Screen.put s).out.mem x = s.out.mem x := by
  induction text generalizing s with
  | nil => exact ⟨h, fun _ _ => rfl⟩
  | cons c text ih =>
    obtain ⟨hrange, hframe⟩ := ih (h.put c)
    refine ⟨hrange, fun x hx => ?_⟩
    rw [List.foldl_cons, hframe x hx]
    exact (h.put_confined c).frame x (by omega)

theorem kprintfs_single (hs : s.InRange) (habove : videoBase + 4000 ≤ buffer)
    (h : vsnprintf buffer 1024 format args s.out.mem = some (j, o)) (hend : buffer + j < 2 ^ 32)
    (htext : formatted buffer format args s.out.mem = some text) :
    ∃ s', kprintfs buffer [⟨format, args⟩] s = some (text, s') ∧ s'.InRange ∧
      ∀ x, videoBase + 4000 ≤ x → s'.out.mem x = o.mem x := by
  obtain ⟨text', num, htext', hrun⟩ := kprintf_eq hs habove h hend
  rw [htext] at htext'
  cases htext'
  obtain ⟨hrange, hframe⟩ := Screen.InRange.print_frame
    (s := { s with out := ⟨o.mem, s.out.written⟩ }) ⟨hs.line, hs.column⟩ text
  refine ⟨_, ?_, hrange, hframe⟩
  rw [kprintfs, htext, hrun]
  simp only [Option.bind_eq_bind, Option.bind_some, kprintfs, List.append_nil]
  rfl

theorem kprintfs_single_none (h : vsnprintf buffer 1024 format args s.out.mem = none) :
    kprintfs buffer [⟨format, args⟩] s = none := by
  rw [kprintfs, formatted, h]
  rfl

/-! ### The message -/

/-- The two static buffers, apart from each other and above the video memory. -/
structure BuffersApart (panicBuffer buffer : Nat) : Prop where
  panicAbove : videoBase + 4000 ≤ panicBuffer
  above : videoBase + 4000 ≤ buffer
  panicEnd : panicBuffer + 1024 ≤ 2 ^ 32
  bufferEnd : buffer + 1024 ≤ 2 ^ 32
  apart : panicBuffer + 1024 ≤ buffer ∨ buffer + 1024 ≤ panicBuffer

theorem cstr_of_inside (h : vsnprintf buffer 1024 format args m = some (j, o)) (hj : j ≤ 1023)
    (hE : formatted buffer format args m = some E) :
    cstr (bytesAt o.mem buffer 1024) = E ∧ E.length ≤ 1023 := by
  obtain ⟨hlen, hbytes⟩ := vsnprintf_text h
  rw [formatted, h, Option.map_some, Option.some.injEq] at hE
  simp only at hE
  rw [hE] at hlen hbytes
  have hzero : (0 : UInt8) ∉ E := hE ▸ zero_notMem_cstr _
  refine ⟨?_, by omega⟩
  obtain ⟨rest, hrest⟩ : ∃ rest, bytesAt o.mem buffer 1024 = E ++ 0 :: rest := by
    refine ⟨bytesAt o.mem (buffer + (E.length + 1)) (1024 - (E.length + 1)), ?_⟩
    have hsplit := bytesAt_add o.mem buffer (E.length + 1) (1024 - (E.length + 1))
    rw [hbytes, Nat.add_sub_cancel' (by omega), List.append_assoc] at hsplit
    exact hsplit
  rw [hrest, cstr_append_terminator hzero]

theorem kprintfs_announcement (hs : s.InRange) (habove : videoBase + 4000 ≤ buffer)
    (hend : buffer + 1024 ≤ 2 ^ 32) :
    ∃ s', kprintfs buffer [⟨announcement ++ [0], []⟩] s = some (announcement, s') ∧ s'.InRange ∧
      ∀ x, videoBase + 4000 ≤ x → ¬(buffer ≤ x ∧ x < buffer + 1024) →
        s'.out.mem x = s.out.mem x := by
  have hcstr : cstr (announcement ++ [0]) = announcement := by decide
  rcases formatted_no_args buffer (announcement ++ [0]) s.out.mem (by rw [hcstr]; decide) with
    ⟨j, o, bytes, hrun, hj, htext, -, hprinted, hc⟩ | ⟨-, hp⟩
  · have hbytes : bytes = announcement := by
      have hkeeps := hprinted.keeps rfl (by rw [hcstr]; decide)
      rw [hkeeps, hcstr]
    subst hbytes
    obtain ⟨s', hprint, hrange, hframe⟩ := kprintfs_single hs habove hrun (by omega) htext
    refine ⟨s', hprint, hrange, fun x hx hout => ?_⟩
    rw [hframe x hx, hc.frame x hout]
    rfl
  · rw [hcstr] at hp
    exact absurd hp (by decide)

theorem panic_eq (hp : vsnprintf panicBuffer 1024 format args s.out.mem = some (j, o))
    (ha : kprintfs buffer [⟨announcement ++ [0], []⟩] { s with out := ⟨o.mem, s.out.written⟩ } =
      some (announced, s₁)) :
    panic panicBuffer buffer format args s =
      (kprintfs buffer [⟨bytesAt s₁.out.mem panicBuffer 1024, []⟩] s₁).map fun (text, s₂) =>
        (announced ++ text, s₂) := by
  rw [panic, hp]
  simp only [Option.bind_eq_bind, Option.bind_some, ha]
  cases kprintfs buffer [⟨bytesAt s₁.out.mem panicBuffer 1024, []⟩] s₁ <;> rfl

/-- The message `E` of a panic is shown as it is, and no argument is read that was not passed. -/
structure Verbatim (panicBuffer buffer : Nat) (format : List UInt8) (args : List Arg) (s : Screen)
    (E : List UInt8) : Prop where
  shown : ∃ s', panic panicBuffer buffer format args s = some (announcement ++ E, s')
  reads : ∀ r ∈ vaReads 1024 format 0 false args ++ vaReads 1024 E 0 false [], r.Matches

/-- A message that fits the buffer comes through the second formatting unless it has a `%`. -/
theorem verbatim_iff (hs : s.InRange) (hbuffers : BuffersApart panicBuffer buffer)
    (hp : vsnprintf panicBuffer 1024 format args s.out.mem = some (j, o)) (hj : j ≤ 1023)
    (hE : formatted panicBuffer format args s.out.mem = some E) :
    Verbatim panicBuffer buffer format args s E ↔ ch '%' ∉ E := by
  obtain ⟨hcstr, hlen⟩ := cstr_of_inside hp hj hE
  obtain ⟨s₁, ha, hrange, hframe⟩ := kprintfs_announcement
    (s := { s with out := ⟨o.mem, s.out.written⟩ }) ⟨hs.line, hs.column⟩ hbuffers.above
    hbuffers.bufferEnd
  -- the message is still in its buffer
  have hmessage : cstr (bytesAt s₁.out.mem panicBuffer 1024) = E := by
    rw [← hcstr]
    refine congrArg cstr (bytesAt_congr fun x hx hx' => ?_)
    have habove := hbuffers.panicAbove
    have hapart := hbuffers.apart
    exact hframe x (by omega) (by omega)
  have hfirst : ∀ r ∈ vaReads 1024 format 0 false args, r.Matches :=
    vsnprintf_isSome_iff.mp (by rw [hp]; rfl)
  have hreads : vaReads 1024 (bytesAt s₁.out.mem panicBuffer 1024) 0 false [] =
      vaReads 1024 E 0 false [] := by
    rw [vaReads_cstr, hmessage]
  have hsecond := formatted_no_args buffer (bytesAt s₁.out.mem panicBuffer 1024) s₁.out.mem
    (by rw [hmessage]; exact hlen)
  rw [hmessage, hreads] at hsecond
  rcases hsecond with ⟨k, o', bytes, hrun, hk, htext, hnone, hprinted, -⟩ | ⟨hnone, hin⟩
  · have hend := hbuffers.bufferEnd
    obtain ⟨s₂, hprint, -⟩ := kprintfs_single hrange hbuffers.above hrun (by omega) htext
    constructor
    · rintro ⟨⟨s', heq⟩, -⟩ hin
      rw [panic_eq hp ha, hprint, Option.map_some] at heq
      cases heq
      have hless := hprinted.drops rfl hin
      omega
    · intro hout
      refine ⟨⟨s₂, ?_⟩, ?_⟩
      · rw [panic_eq hp ha, hprint, Option.map_some, hprinted.keeps rfl hout]
      · rw [hnone, List.append_nil]
        exact hfirst
  · refine ⟨?_, fun h => absurd hin h⟩
    rintro ⟨⟨s', heq⟩, -⟩
    rw [panic_eq hp ha, kprintfs_single_none hnone, Option.map_none] at heq
    cases heq

/-! ### Where a `%` comes from -/

/-- The pieces that print a `%`. -/
def Piece.carriesPercent : Piece → Bool
  | .percent => true
  | .char w => UInt8.ofNat w.toNat = ch '%'
  | .string s => ch '%' ∈ cstr s
  | .literal _ _ | .signed _ _ | .unsigned _ _ => false

theorem percent_notMem_unsignedNumeral (base v : Nat) (hb : 2 ≤ base) (hb' : base ≤ 36) :
    ch '%' ∉ unsignedNumeral base v := by
  have hdigit : ∀ r < 36, digit r ≠ ch '%' := by decide
  intro h
  rcases List.mem_append.mp h with h | h
  · rw [basePrefix] at h
    split_ifs at h
    · exact absurd h (by decide)
    · exact absurd h (by decide)
    · exact List.not_mem_nil h
  · obtain ⟨r, hr, heq⟩ := (canonical_isNumeral v hb hb').digits _ h
    exact hdigit r (by omega) heq.symm

theorem percent_notMem_signedNumeral (base : Nat) (v : Int) (hb : 2 ≤ base) (hb' : base ≤ 36) :
    ch '%' ∉ signedNumeral base v := by
  have habs := percent_notMem_unsignedNumeral base v.natAbs hb hb'
  intro h
  rw [signedNumeral_eq, minusSign] at h
  rcases List.mem_append.mp h with h | h
  · split at h
    · exact absurd h (by decide)
    · exact List.not_mem_nil h
  · exact habs h

theorem Piece.percent_mem_expansion (p : Piece) :
    ch '%' ∈ p.expansion ↔ p.carriesPercent = true := by
  cases p with
  | literal c hc =>
    have hne : ch '%' ∉ [c] := fun h => hc.2 (List.mem_singleton.mp h).symm
    exact ⟨fun h => absurd h hne, fun h => nomatch h⟩
  | signed letter w =>
    have hne := percent_notMem_signedNumeral letter.base (toInt32 w.toNat)
      (by cases letter <;> decide) (by cases letter <;> decide)
    exact ⟨fun h => absurd h hne, fun h => nomatch h⟩
  | unsigned letter w =>
    have hne := percent_notMem_unsignedNumeral letter.base w.toNat
      (by cases letter <;> decide) (by cases letter <;> decide)
    exact ⟨fun h => absurd h hne, fun h => nomatch h⟩
  | char w =>
    rw [expansion, carriesPercent, List.mem_singleton, decide_eq_true_iff]
    exact eq_comm
  | string s =>
    rw [expansion, carriesPercent, decide_eq_true_iff]
  | percent => exact ⟨fun _ => rfl, fun _ => List.mem_cons_self⟩

theorem formatted_expansion (buffer : Nat) (m : Mem) (rest : List Arg)
    (hformat : cstr format = ps.flatMap Piece.format) (hlen : (cstr format).length ≤ 1023)
    (hroom : (expansion ps).length ≤ 1023) (hzero : 0 ∉ expansion ps) :
    formatted buffer format (ps.flatMap Piece.args ++ rest) m = some (expansion ps) := by
  obtain ⟨es, hes, hbytes⟩ := emissions_pieces ps rest
  rw [← hformat] at hes
  rw [← hbytes] at hroom hzero ⊢
  exact formatted_emissions buffer m hes hlen hroom hzero

/-- A panic whose message fits its buffer shows the message as it is, and reads no argument that
was not passed, exactly when there is no `%` in the message: when the format has no `%%`, no
`%c` is passed a `%` and no `%s` a string with one. -/
theorem panic_verbatim_iff (hs : s.InRange) (hbuffers : BuffersApart panicBuffer buffer)
    (hp : vsnprintf panicBuffer 1024 format args s.out.mem = some (j, o)) (hj : j ≤ 1023)
    (hE : formatted panicBuffer format args s.out.mem = some E) :
    (Verbatim panicBuffer buffer format args s E ↔ ch '%' ∉ E) ∧
    ∀ ps rest, cstr format = ps.flatMap Piece.format → args = ps.flatMap Piece.args ++ rest →
      (cstr format).length ≤ 1023 → (expansion ps).length ≤ 1023 → 0 ∉ expansion ps →
      (Verbatim panicBuffer buffer format args s E ↔ ∀ p ∈ ps, p.carriesPercent = false) := by
  have hiff := verbatim_iff hs hbuffers hp hj hE
  refine ⟨hiff, fun ps rest hformat hargs hlen hroom hzero => hiff.trans ?_⟩
  have hexpansion := formatted_expansion panicBuffer s.out.mem rest hformat hlen hroom hzero
  rw [← hargs, hE, Option.some.injEq] at hexpansion
  rw [hexpansion, expansion, List.mem_flatMap]
  simp only [Piece.percent_mem_expansion, not_exists, not_and, Bool.not_eq_true]

/-- `panic("line %d", 7)` on a blank screen. -/
theorem panic_verbatim_line :
    Verbatim 0xC0110000 0xC0111000 ("line %d".toList.map ch ++ [0]) [.word 7] (.boot fun _ => 0)
      ("line 7".toList.map ch) :=
  ((panic_verbatim_iff (s := .boot fun _ => 0) (j := 6) (E := "line 7".toList.map ch)
    ⟨by decide, by decide⟩ ⟨by decide, by decide, by decide, by decide, by decide⟩
    rfl (by decide) (by decide)).1).mpr (by decide)

/-- `panic("%s", "100%")`: the second formatting drops the `%` of the message. -/
theorem panic_drops_percent :
    (formatted 0xC0110000 [ch '%', ch 's', 0] [.str ("100%".toList.map ch ++ [0])] fun _ => 0) =
      some ("100%".toList.map ch) ∧
    ¬Verbatim 0xC0110000 0xC0111000 [ch '%', ch 's', 0] [.str ("100%".toList.map ch ++ [0])]
      (.boot fun _ => 0) ("100%".toList.map ch) := by
  have hE : (formatted 0xC0110000 [ch '%', ch 's', 0] [.str ("100%".toList.map ch ++ [0])]
      fun _ => 0) = some ("100%".toList.map ch) := by decide
  refine ⟨hE, fun h => ?_⟩
  have hiff : Verbatim 0xC0110000 0xC0111000 [ch '%', ch 's', 0]
      [.str ("100%".toList.map ch ++ [0])] (.boot fun _ => 0) ("100%".toList.map ch) ↔
        ch '%' ∉ "100%".toList.map ch :=
    verbatim_iff (j := 4) ⟨by decide, by decide⟩
      ⟨by decide, by decide, by decide, by decide, by decide⟩ rfl (by decide) hE
  exact hiff.mp h (by decide)

end Atros
