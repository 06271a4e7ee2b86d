import Atros.Dispatcher

namespace Atros
set_option autoImplicit true

variable {s s' s'' : Screen} {t : Interrupts} {D : Drivers}

/-! ### Texts on the console -/

/-- The text has been typed on the page that the console shows. -/
structure Screen.Typed (s : Screen) (text : List UInt8) (s' : Screen) : Prop where
  inRange : s'.InRange
  page : ∀ p, s.Shows p p.top → s'.Shows (text.foldl Page.type p) (text.foldl Page.type p).top

theorem Screen.Typed.trans (h : s.Typed text s') (h' : s'.Typed text' s'') :
    s.Typed (text ++ text') s'' := by
  refine ⟨h'.inRange, fun p hp => ?_⟩
  rw [List.foldl_append]
  exact h'.page _ (h.page p hp)

theorem Screen.InRange.typed_nil (hs : s.InRange) (o : Output)
    (h : ∀ x, x < videoBase + 4000 → o.mem x = s.out.mem x) :
    s.Typed [] { s with out := o } := by
  refine ⟨⟨hs.line, hs.column⟩, fun p hp => ⟨hp.line, hp.column, fun i j hi hj => ?_, hp.below⟩⟩
  refine Eq.trans ?_ (hp.cells i j hi hj)
  exact Cell.ext (h _ (by omega)) (h _ (by omega))

theorem kprintf_typed (hs : s.InRange) (habove : videoBase + 4000 ≤ buffer)
    (h : vsnprintf buffer 1024 format args s.out.mem = some (j, o)) (hend : buffer + j < 2 ^ 32)
    (htext : formatted buffer format args s.out.mem = some text) :
    ∃ n s', kprintf buffer format args s = some (n, s') ∧ s.Typed text s' ∧
      ∀ x, videoBase + 4000 ≤ x → s'.out.mem x = o.mem x := by
  obtain ⟨text', n, htext', hrun⟩ := kprintf_eq hs habove h hend
  rw [htext] at htext'
  cases htext'
  have hstored := hs.typed_nil ⟨o.mem, s.out.written⟩ fun x hx =>
    vsnprintf_below (o := o) h (Nat.lt_of_lt_of_le hx habove)
  obtain ⟨hrange, hframe⟩ := hstored.inRange.print_frame text
  refine ⟨n, _, hrun, ⟨hrange, fun p hp => ?_⟩, hframe⟩
  exact ((hstored.page p hp).print hstored.inRange text).1

theorem kprintfs_one (h : kprintf buffer format args s = some (n, s'))
    (htext : formatted buffer format args s.out.mem = some text) :
    kprintfs buffer [⟨format, args⟩] s = some (text, s') := by
  rw [kprintfs, htext, h]
  simp only [Option.bind_eq_bind, Option.bind_some, kprintfs, List.append_nil]
  rfl

theorem kprintf_typed_format (hs : s.InRange) (habove : videoBase + 4000 ≤ buffer)
    (hend : buffer + 1024 ≤ 2 ^ 32) (format : List UInt8) (hlen : (cstr format).length ≤ 1023)
    (hpercent : ch '%' ∉ cstr format) :
    ∃ s', kprintfs buffer [⟨format, []⟩] s = some (cstr format, s') ∧
      s.Typed (cstr format) s' ∧
      ∀ x, videoBase + 4000 ≤ x → ¬(buffer ≤ x ∧ x < buffer + 1024) →
        s'.out.mem x = s.out.mem x := by
  rcases formatted_no_args buffer format s.out.mem hlen with
    ⟨j, o, bytes, hrun, hj, htext, -, hprinted, hc⟩ | ⟨-, hp⟩
  · rw [hprinted.keeps rfl hpercent] at htext
    obtain ⟨n, s', hprint, htyped, hframe⟩ := kprintf_typed hs habove hrun (by omega) htext
    refine ⟨s', kprintfs_one hprint htext, htyped, fun x hx hout => ?_⟩
    rw [hframe x hx, hc.frame x hout]
    rfl
  · exact absurd hp hpercent

/-- A panic types its announcement and then its message, which has no `%`. -/
theorem panic_typed (hs : s.InRange) (hbuffers : BuffersApart panicBuffer buffer)
    (hp : vsnprintf panicBuffer 1024 format args s.out.mem = some (j, o)) (hj : j ≤ 1023)
    (hE : formatted panicBuffer format args s.out.mem = some E) (hpercent : ch '%' ∉ E) :
    ∃ s', panic panicBuffer buffer format args s = some (announcement ++ E, s') ∧
      s.Typed (announcement ++ E) s' := by
  obtain ⟨hcstr, hlen⟩ := cstr_of_inside hp hj hE
  have hstored := hs.typed_nil ⟨o.mem, s.out.written⟩ fun x hx =>
    vsnprintf_below (o := o) hp (Nat.lt_of_lt_of_le hx hbuffers.panicAbove)
  have hann : cstr (announcement ++ [0]) = announcement := by decide
  obtain ⟨s₁, ha, htyped₁, hframe⟩ := kprintf_typed_format hstored.inRange hbuffers.above
    hbuffers.bufferEnd (announcement ++ [0]) (by rw [hann]; decide) (by rw [hann]; decide)
  rw [hann] at ha htyped₁
  -- the message is still in its buffer
  have hmessage : cstr (bytesAt s₁.out.mem panicBuffer 1024) = E := by
    rw [← hcstr]
    refine congrArg cstr (bytesAt_congr fun x hx hx' => ?_)
    have habove := hbuffers.panicAbove
    have hapart := hbuffers.apart
    exact hframe x (by omega) (by omega)
  obtain ⟨s₂, hm, htyped₂, -⟩ := kprintf_typed_format htyped₁.inRange hbuffers.above
    hbuffers.bufferEnd (bytesAt s₁.out.mem panicBuffer 1024) (by rw [hmessage]; exact hlen)
    (by rw [hmessage]; exact hpercent)
  rw [hmessage] at hm htyped₂
  refine ⟨s₂, ?_, ?_⟩
  · rw [panic_eq hp ha, hm, Option.map_some]
  · exact (hstored.trans htyped₁).trans htyped₂

/-! ### Formats of text and numbers -/

/-- A text without `%`, as pieces of a format. -/
def textPieces (text : String) : List Piece :=
  (chars text).filterMap fun c =>
    if hc : c ≠ 0 ∧ c ≠ ch '%' then some (.literal c hc) else none

def Piece.IsPlain : Piece → Prop
  | .literal _ _ | .unsigned _ _ => True
  | .signed _ _ | .char _ | .string _ | .percent => False

theorem digit_ne : ∀ r < 36, digit r ≠ 0 ∧ digit r ≠ ch '%' := by decide

theorem Piece.IsPlain.notMem (h : Piece.IsPlain p) : ∀ c ∈ p.expansion, c ≠ 0 ∧ c ≠ ch '%' := by
  intro c hc
  cases p with
  | literal c' hc' =>
    rw [List.mem_singleton.mp hc]
    exact hc'
  | unsigned letter w =>
    rcases List.mem_append.mp hc with hc | hc
    · rw [basePrefix] at hc
      split_ifs at hc <;> simp only [List.mem_cons, List.not_mem_nil, or_false] at hc
      · rcases hc with rfl | rfl <;> decide
      · rcases hc with rfl | rfl <;> decide
    · have hbase : 2 ≤ letter.base ∧ letter.base ≤ 36 := by
        cases letter <;> decide
      obtain ⟨r, hr, rfl⟩ := (canonical_isNumeral w.toNat hbase.1 hbase.2).digits _ hc
      exact digit_ne r (Nat.lt_of_lt_of_le hr hbase.2)
  | signed | char | string | percent => exact h.elim

theorem Piece.IsPlain.length_le (h : Piece.IsPlain p) :
    p.expansion.length ≤ 1 + 33 * p.args.length := by
  cases p with
  | literal => exact le_refl 1
  | unsigned letter w =>
    exact unsignedNumeral_length_le (by cases letter <;> decide) w.toNat_lt
  | signed | char | string | percent => exact h.elim

/-- A format of text and numbers, short enough for the buffers whatever the numbers are. -/
structure Message (format : String) (ps : List Piece) : Prop where
  plain : ∀ p ∈ ps, p.IsPlain
  pieces : chars format = ps.flatMap Piece.format
  nonzero : 0 ∉ chars format
  length : (chars format).length ≤ 1023
  room : ps.length + 33 * (ps.flatMap Piece.args).length ≤ 1023

variable {ps : List Piece}

theorem expansion_length_le (h : ∀ p ∈ ps, p.IsPlain) :
    (expansion ps).length ≤ ps.length + 33 * (ps.flatMap Piece.args).length := by
  induction ps with
  | nil => exact Nat.zero_le _
  | cons p ps ih =>
    have hhead := (h p List.mem_cons_self).length_le
    have htail := ih fun q hq => h q (List.mem_cons_of_mem _ hq)
    rw [expansion, List.flatMap_cons, List.flatMap_cons, List.length_append, List.length_append,
      List.length_cons]
    rw [expansion] at htail
    omega

theorem expansion_notMem (h : ∀ p ∈ ps, p.IsPlain) : ∀ c ∈ expansion ps, c ≠ 0 ∧ c ≠ ch '%' := by
  intro c hc
  obtain ⟨p, hp, hcp⟩ := List.mem_flatMap.mp hc
  exact (h p hp).notMem c hcp

theorem Message.cstr_format (h : Message format ps) :
    cstr (chars format ++ [0]) = ps.flatMap Piece.format := by
  rw [cstr_append_terminator h.nonzero, h.pieces]

theorem Message.vsnprintf (h : Message format ps) (buffer : Nat) (m : Mem) :
    ∃ j o, Atros.vsnprintf buffer 1024 (chars format ++ [0]) (ps.flatMap Piece.args) m =
    some (j, o) ∧
      j ≤ 1023 ∧
      formatted buffer (chars format ++ [0]) (ps.flatMap Piece.args) m = some (expansion ps) := by
  have hcstr := h.cstr_format
  have hlen : (cstr (chars format ++ [0])).length ≤ 1023 := by
    rw [cstr_append_terminator h.nonzero]
    exact h.length
  have hroom := (expansion_length_le h.plain).trans h.room
  have hzero : 0 ∉ expansion ps := fun hz => (expansion_notMem h.plain 0 hz).1 rfl
  obtain ⟨es, hes, hbytes⟩ := emissions_pieces ps []
  rw [List.append_nil, ← hcstr] at hes
  have htext := formatted_expansion buffer m [] hcstr hlen hroom hzero
  rw [List.append_nil] at htext
  rw [← hbytes] at hroom
  exact ⟨_, _, vsnprintf_emissions buffer m (by decide) hes (by omega) (by omega), hroom, htext⟩

theorem Message.print (h : Message format ps) (hD : BuffersApart D.panicBuffer D.buffer)
    (hs : t.screen.InRange) : ∃ screen,
      D.print format (ps.flatMap Piece.args) t = .ok ((), { t with screen }) ∧
      t.screen.Typed (expansion ps) screen := by
  obtain ⟨j, o, hrun, hj, htext⟩ := h.vsnprintf D.buffer t.screen.out.mem
  have hend := hD.bufferEnd
  obtain ⟨n, screen, hprint, htyped, -⟩ := kprintf_typed hs hD.above hrun (by omega) htext
  refine ⟨screen, ?_, htyped⟩
  rw [Drivers.print, bind_get, hprint]
  rfl

theorem Message.halt (h : Message format ps) (hD : BuffersApart D.panicBuffer D.buffer)
    (hs : t.screen.InRange) : ∃ screen, D.halt format (ps.flatMap Piece.args) t =
        .error (.panic (announcement ++ expansion ps) screen) ∧
      t.screen.Typed (announcement ++ expansion ps) screen := by
  obtain ⟨j, o, hrun, hj, htext⟩ := h.vsnprintf D.panicBuffer t.screen.out.mem
  have hpercent : ch '%' ∉ expansion ps := fun hp => (expansion_notMem h.plain _ hp).2 rfl
  obtain ⟨screen, hpanic, htyped⟩ := panic_typed hs hD hrun hj htext hpercent
  refine ⟨screen, ?_, htyped⟩
  rw [Drivers.halt, bind_get, hpanic]
  rfl

/-! ### The texts of the dispatcher -/

theorem textPieces_isPlain (text : String) : ∀ p ∈ textPieces text, p.IsPlain := by
  intro p hp
  obtain ⟨c, -, hc⟩ := List.mem_filterMap.mp hp
  split at hc
  · cases hc
    trivial
  · cases hc

theorem number_isPlain (text : String) (letter : UnsignedLetter) (w : UInt32)
    (h : ∀ p ∈ ps, Piece.IsPlain p) : ∀ p ∈ textPieces text ++ .unsigned letter w :: ps,
    p.IsPlain := by
  intro p hp
  rcases List.mem_append.mp hp with hp | hp
  · exact textPieces_isPlain text p hp
  · rcases List.mem_cons.mp hp with rfl | hp
    · trivial
    · exact h p hp

def exceptionPieces (n : UInt32) : List Piece :=
  textPieces "Unhandled exception " ++ .unsigned .u n :: textPieces "!\n"

theorem exception_message (n : UInt32) :
    Message "Unhandled exception %u!\n" (exceptionPieces n) :=
  ⟨number_isPlain _ _ _ (textPieces_isPlain _), rfl, by decide, by decide,
    Nat.le_of_ble_eq_true rfl⟩

def faultPieces (cr2 eip : UInt32) : List Piece :=
  textPieces "Fault's address: " ++ .unsigned .p cr2 :: (textPieces " (instruction at " ++
    .unsigned .p eip :: textPieces ")\n")

theorem fault_message (cr2 eip : UInt32) :
    Message "Fault's address: %p (instruction at %p)\n" (faultPieces cr2 eip) :=
  ⟨number_isPlain _ _ _ (number_isPlain _ _ _ (textPieces_isPlain _)), rfl, by decide, by decide,
    Nat.le_of_ble_eq_true rfl⟩

/-! ### Exceptions that nobody handles -/

/-- What the dispatcher prints about a page fault. -/
def faultReport (cr2 eip errorCode : BitVec 32) : List UInt8 :=
  chars "Fault's address: " ++ unsignedNumeral 16 cr2.toNat ++ chars " (instruction at " ++
    unsignedNumeral 16 eip.toNat ++ chars ")\n" ++
    chars (if errorCode &&& 1 = 0 then "Non-present page\n"
      else "Page-level protection violation\n")

/-- The message of the panic. -/
def exceptionReport (n : BitVec 32) : List UInt8 :=
  chars "Unhandled exception " ++ unsignedNumeral 10 n.toNat ++ chars "!\n"

theorem exceptionPieces_expansion (n : BitVec 32) :
    expansion (exceptionPieces (.ofBitVec n)) = exceptionReport n := by
  rw [exceptionReport, List.append_assoc]
  rfl

theorem faultPieces_expansion (cr2 eip : BitVec 32) :
    expansion (faultPieces (.ofBitVec cr2) (.ofBitVec eip)) = chars "Fault's address: " ++
      unsignedNumeral 16 cr2.toNat ++ chars " (instruction at " ++
      unsignedNumeral 16 eip.toNat ++ chars ")\n" := by
  simp only [List.append_assoc]
  rfl

theorem reportFault_typed (hD : BuffersApart D.panicBuffer D.buffer) (hs : t.screen.InRange) :
    ∃ screen, reportFault D t = .ok ((), { t with screen }) ∧
      t.screen.Typed (faultReport t.cr2 t.frame.context.eip t.frame.context.errorCode) screen := by
  have hmissing : Message "Non-present page\n" (textPieces "Non-present page\n") :=
    ⟨textPieces_isPlain _, rfl, by decide, by decide, by decide⟩
  have hprotected : Message "Page-level protection violation\n"
      (textPieces "Page-level protection violation\n") :=
    ⟨textPieces_isPlain _, rfl, by decide, by decide, by decide⟩
  obtain ⟨s₁, hr₁, h₁⟩ := (fault_message (.ofBitVec t.cr2)
    (.ofBitVec t.frame.context.eip)).print hD hs
  rw [faultPieces_expansion] at h₁
  have hr₁ : D.print "Fault's address: %p (instruction at %p)\n"
      [.word (.ofBitVec t.cr2), .word (.ofBitVec t.frame.context.eip)] t =
        .ok ((), { t with screen := s₁ }) := hr₁
  rw [reportFault, bind_get, bind_ok hr₁, faultReport]
  by_cases h : t.frame.context.errorCode &&& 1 = 0
  · obtain ⟨s₂, hr₂, h₂⟩ := hmissing.print (t := { t with screen := s₁ }) hD h₁.inRange
    refine ⟨s₂, ?_, ?_⟩
    · rw [if_neg (not_not.mpr h)]
      exact hr₂
    · rw [if_pos h]
      exact h₁.trans h₂
  · obtain ⟨s₂, hr₂, h₂⟩ := hprotected.print (t := { t with screen := s₁ }) hD h₁.inRange
    refine ⟨s₂, ?_, ?_⟩
    · rw [if_pos h]
      exact hr₂
    · rw [if_neg h]
      exact h₁.trans h₂

/-- All that the console shows of an exception that has no handler. -/
def Interrupts.report (t : Interrupts) : List UInt8 :=
  (if t.frame.context.intNumber = 14 then
    faultReport t.cr2 t.frame.context.eip t.frame.context.errorCode else []) ++
  (announcement ++ exceptionReport t.frame.context.intNumber)

theorem unhandledException_panics (hD : BuffersApart D.panicBuffer D.buffer)
    (hs : t.screen.InRange) : ∃ screen, unhandledException D t =
        .error (.panic (announcement ++ exceptionReport t.frame.context.intNumber) screen) ∧
      t.screen.Typed t.report screen := by
  have hpanics : ∀ t : Interrupts, t.screen.InRange → ∃ screen,
      D.halt "Unhandled exception %u!\n" [.word (.ofBitVec t.frame.context.intNumber)] t =
        .error (.panic (announcement ++ exceptionReport t.frame.context.intNumber) screen) ∧
      t.screen.Typed (announcement ++ exceptionReport t.frame.context.intNumber) screen := by
    intro t hs
    rw [← exceptionPieces_expansion]
    exact (exception_message (.ofBitVec t.frame.context.intNumber)).halt hD hs
  rw [unhandledException, bind_get, Interrupts.report]
  by_cases h : t.frame.context.intNumber = 14
  · obtain ⟨s₁, hr₁, h₁⟩ := reportFault_typed hD hs
    obtain ⟨s₂, hr₂, h₂⟩ := hpanics { t with screen := s₁ } h₁.inRange
    rw [if_pos h, if_pos h]
    exact ⟨s₂, (bind_ok hr₁).trans hr₂, h₁.trans h₂⟩
  · rw [if_neg h, if_neg h]
    exact hpanics t hs

theorem handlerOf_table (h : n.toNat < nbrIdtEntries) :
    handlerOf n t = .ok (t.handlers (n.setWidth 8), t) := by
  rw [handlerOf, bind_ok (check_ok h)]
  rfl

/-! ### System calls -/

/-- What a system call prints: its string, as far as the buffer of `kprintf` holds it. Other
interrupts print nothing. -/
def Drivers.systemText (D : Drivers) (t : Interrupts) : Except Nat (List UInt8) :=
  if t.frame.context.intNumber = BitVec.ofNat 32 syscallVector then
    (·.take 1023) <$> D.readString t.screen.out.mem t.frame.context.eax.toNat 1024 0
  else .ok []

theorem Drivers.readString_error {m : Mem} {a : Nat}
    (h : D.readString m a rounds i = .error x) : D.mapped x = false := by
  induction rounds generalizing i with
  | zero => cases h
  | succ rounds ih =>
    rw [readString] at h
    split at h
    · split at h
      · cases hrest : D.readString m a rounds (i + 1) with
        | error y =>
          rw [hrest] at h
          cases h
          exact ih hrest
        | ok bytes =>
          rw [hrest] at h
          cases h
      · cases h
    · cases h
      exact Bool.eq_false_iff.mpr ‹_›

theorem Drivers.readString_nonzero {m : Mem} {a : Nat}
    (h : D.readString m a rounds i = .ok bytes) : 0 ∉ bytes := by
  induction rounds generalizing i bytes with
  | zero =>
    cases h
    exact List.not_mem_nil
  | succ rounds ih =>
    rw [readString] at h
    split at h
    · split at h
      · rename_i hbyte
        cases hrest : D.readString m a rounds (i + 1) with
        | error y =>
          rw [hrest] at h
          cases h
        | ok rest =>
          rw [hrest] at h
          cases h
          exact fun hzero => (List.mem_cons.mp hzero).elim (fun heq => hbyte heq.symm) (ih hrest)
      · cases h
        exact List.not_mem_nil
    · cases h

/-- Only a system call faults, and at an address that is not mapped. -/
theorem Drivers.systemText_error (h : D.systemText t = .error address) :
    t.frame.context.intNumber = BitVec.ofNat 32 syscallVector ∧ D.mapped address = false := by
  rw [systemText] at h
  split at h
  · refine ⟨‹_›, ?_⟩
    cases hread : D.readString t.screen.out.mem t.frame.context.eax.toNat 1024 0 with
    | error x =>
      rw [hread] at h
      cases h
      exact D.readString_error hread
    | ok bytes =>
      rw [hread] at h
      cases h
  · cases h

theorem vsnprintf_string (buffer : Nat) (bs : List UInt8) (m : Mem) :
    vsnprintf buffer 1024 (chars "%s" ++ [0]) [.str bs] m =
      some (((cstr bs).take 1023).length,
        (Output.start m).puts buffer ((cstr bs).take 1023 ++ [0])) := by
  have hrun : vsnprintf buffer 1024 (chars "%s" ++ [0]) [.str bs] m =
      some ((copyString 1024 buffer bs 0 (Output.start m)).1,
        (copyString 1024 buffer bs 0 (Output.start m)).2.put
          (buffer + (copyString 1024 buffer bs 0 (Output.start m)).1) 0) := rfl
  rw [hrun, copyString_eq (by decide) (by decide), List.length_take, Output.puts_append,
    Output.puts_singleton, List.length_take, Nat.zero_add, Nat.min_comm]
  rfl

theorem print_string (hD : BuffersApart D.panicBuffer D.buffer) (hs : t.screen.InRange)
    (bs : List UInt8) : ∃ screen, D.print "%s" [.str bs] t = .ok ((), { t with screen }) ∧
      t.screen.Typed ((cstr bs).take 1023) screen := by
  have hend := hD.bufferEnd
  have hrun := vsnprintf_string D.buffer bs t.screen.out.mem
  have hlen : ((cstr bs).take 1023).length ≤ 1023 := List.length_take_le ..
  have hzero : 0 ∉ (cstr bs).take 1023 := fun hz => zero_notMem_cstr bs (List.mem_of_mem_take hz)
  have htext : formatted D.buffer (chars "%s" ++ [0]) [.str bs] t.screen.out.mem =
      some ((cstr bs).take 1023) := by
    rw [formatted, hrun, Option.map_some]
    have hlength : ((cstr bs).take 1023 ++ [0]).length = ((cstr bs).take 1023).length + 1 := by
      rw [List.length_append, List.length_singleton]
    simp only [← hlength, bytesAt_puts]
    exact congrArg some (cstr_append_terminator hzero [])
  obtain ⟨n, screen, hprint, htyped, -⟩ := kprintf_typed hs hD.above hrun (by omega) htext
  refine ⟨screen, ?_, htyped⟩
  rw [Drivers.print, bind_get, hprint]
  rfl

theorem systemCall_typed (hD : BuffersApart D.panicBuffer D.buffer) (hs : t.screen.InRange) :
    match D.systemText t with
    | .ok text => ∃ screen, systemCall D t = .ok ((), { t with screen }) ∧
        t.screen.Typed text screen
    | .error address => systemCall D t = .error (.pageFault address) := by
  rw [systemCall, bind_get, Drivers.systemText]
  split_ifs with hn
  · cases hread : D.readString t.screen.out.mem t.frame.context.eax.toNat 1024 0 with
    | error address =>
      refine bind_error ?_
      rw [Drivers.stringAt, bind_get, hread]
      rfl
    | ok bytes =>
      have hcstr : cstr bytes = bytes := List.takeWhile_eq_self_iff.mpr fun c hc =>
        decide_eq_true fun hzero => D.readString_nonzero hread (hzero ▸ hc)
      obtain ⟨screen, hprint, htyped⟩ := print_string (t := t) hD hs bytes
      rw [hcstr] at htyped
      have hvalue : D.stringAt t.frame.context.eax t = .ok (.str bytes, t) := by
        rw [Drivers.stringAt, bind_get, hread]
        rfl
      exact ⟨screen, (bind_ok hvalue).trans hprint, htyped⟩
  · exact ⟨t.screen, rfl, hs, fun _ hp => hp⟩

/-! ### The dispatcher -/

theorem waitEnter_none_iff (polls : List (Option (BitVec 8))) :
    waitEnter polls = none ↔ some enterScanCode ∉ polls := by
  induction polls with
  | nil => exact iff_of_true rfl List.not_mem_nil
  | cons poll polls ih =>
    cases poll with
    | none => rw [waitEnter, ih, List.mem_cons, or_iff_right (by decide)]
    | some i =>
      rw [waitEnter]
      by_cases hi : i = enterScanCode
      · subst hi
        rw [if_pos rfl]
        exact iff_of_false (Option.some_ne_none _) fun h => h List.mem_cons_self
      · rw [if_neg hi, ih, List.mem_cons, Option.some_inj, or_iff_right (Ne.symm hi)]

/-- All that can come of an interrupt. -/
inductive Dispatched (D : Drivers) (t : Interrupts) : Except Halt (Unit × Interrupts) → Prop
  | breakpoint {screen keyboard} (hn : t.frame.context.intNumber = 3)
      (hwait : waitEnter t.keyboard = some keyboard)
      (htyped : t.screen.Typed (chars "Breakpoint!\n") screen) :
      Dispatched D t (.ok ((), { t with screen, keyboard }))
  | waits (hn : t.frame.context.intNumber = 3) (hwait : some enterScanCode ∉ t.keyboard) :
      Dispatched D t (.error .endless)
  | handled {handler screen text} (hn : t.frame.context.intNumber ≠ 3)
      (hhandler : t.handlers (t.frame.context.intNumber.setWidth 8) = some handler)
      (htext : D.systemText t = .ok text) (htyped : t.screen.Typed text screen) :
      Dispatched D t (.ok ((), { D.call t handler with screen }))
  | ignored {screen text} (hn : vectorLastException < t.frame.context.intNumber)
      (hhandler : t.handlers (t.frame.context.intNumber.setWidth 8) = none)
      (htext : D.systemText t = .ok text) (htyped : t.screen.Typed text screen) :
      Dispatched D t (.ok ((), { t with screen }))
  | faults {address} (hn : t.frame.context.intNumber = BitVec.ofNat 32 syscallVector)
      (htext : D.systemText t = .error address) : Dispatched D t (.error (.pageFault address))
  | panics {screen} (hn : t.frame.context.intNumber ≤ vectorLastException)
      (hn' : t.frame.context.intNumber ≠ 3)
      (hhandler : t.handlers (t.frame.context.intNumber.setWidth 8) = none)
      (htyped : t.screen.Typed t.report screen) :
      Dispatched D t
        (.error (.panic (announcement ++ exceptionReport t.frame.context.intNumber) screen))

/-- What handlers call leaves the console and the context of the program alone. -/
theorem Drivers.call_frame (D : Drivers) (t : Interrupts) (handler : InterruptHandler) :
    (D.call t handler).screen = t.screen ∧ (D.call t handler).frame = t.frame := by
  have hcall : ∀ (s : Interrupts) (c : DriverCall),
      (c.run s).screen = s.screen ∧ (c.run s).frame = s.frame := by
    intro s c
    cases c <;> exact ⟨rfl, rfl⟩
  cases handler with
  | pitIrqHandler => exact ⟨rfl, rfl⟩
  | other address =>
    rw [Drivers.call]
    induction D.code address generalizing t with
    | nil => exact ⟨rfl, rfl⟩
    | cons c calls ih =>
      rw [List.foldl_cons, (ih _).1, (ih _).2]
      exact hcall t c

theorem dispatched_of_dispatcher (hD : BuffersApart D.panicBuffer D.buffer)
    (hs : t.screen.InRange) (hlt : t.frame.context.intNumber.toNat < nbrIdtEntries) :
    Dispatched D t (interruptDispatcher D t) := by
  rw [interruptDispatcher, bind_get]
  by_cases h3 : t.frame.context.intNumber = 3
  · have hmessage : Message "Breakpoint!\n" (textPieces "Breakpoint!\n") :=
      ⟨textPieces_isPlain _, rfl, by decide, by decide, by decide⟩
    obtain ⟨screen, hrun, htyped⟩ := hmessage.print hD hs
    have hrun : D.print "Breakpoint!\n" [] t = .ok ((), { t with screen }) := hrun
    rw [if_pos h3, breakpoint, bind_ok hrun, bind_get]
    cases hwait : waitEnter t.keyboard with
    | none => exact .waits h3 ((waitEnter_none_iff _).mp hwait)
    | some keyboard => exact .breakpoint h3 hwait htyped
  · rw [if_neg h3]
    cases hhandler : t.handlers (t.frame.context.intNumber.setWidth 8) with
    | some handler =>
      have hcall : handleInterrupt D t = .ok ((), D.call t handler) := by
        rw [handleInterrupt, bind_get, bind_ok (handlerOf_table hlt), hhandler]
        rfl
      obtain ⟨hscreen, hframe⟩ := D.call_frame t handler
      have hcall' := systemCall_typed (t := D.call t handler) hD (hscreen ▸ hs)
      have htext : D.systemText (D.call t handler) = D.systemText t := by
        rw [Drivers.systemText, hscreen, hframe]
        rfl
      rw [bind_ok hcall]
      rw [htext] at hcall'
      cases hread : D.systemText t with
      | error address =>
        rw [hread] at hcall'
        rw [hcall']
        exact .faults (D.systemText_error hread).1 hread
      | ok text =>
        rw [hread, hscreen] at hcall'
        obtain ⟨screen, hrun, htyped⟩ := hcall'
        rw [hrun]
        exact .handled h3 hhandler hread htyped
    | none =>
      by_cases hn : t.frame.context.intNumber ≤ vectorLastException
      · obtain ⟨screen, hrun, htyped⟩ := unhandledException_panics hD hs
        have hpanic : handleInterrupt D t = unhandledException D t := by
          rw [handleInterrupt, bind_get, bind_ok (handlerOf_table hlt), hhandler]
          simp only [if_pos hn]
        rw [bind_error (hpanic.trans hrun)]
        exact .panics hn h3 hhandler htyped
      · have hnothing : handleInterrupt D t = .ok ((), t) := by
          rw [handleInterrupt, bind_get, bind_ok (handlerOf_table hlt), hhandler]
          simp only [if_neg hn]
          rfl
        have hcall := systemCall_typed hD hs
        rw [bind_ok hnothing]
        cases hread : D.systemText t with
        | error address =>
          rw [hread] at hcall
          rw [hcall]
          exact .faults (D.systemText_error hread).1 hread
        | ok text =>
          rw [hread] at hcall
          obtain ⟨screen, hrun, htyped⟩ := hcall
          rw [hrun]
          exact .ignored (BitVec.not_le.mp hn) hhandler hread htyped

/-- What the dispatcher does with any interrupt, and what it has then printed. -/
theorem interruptDispatcher_dispatched (hD : BuffersApart D.panicBuffer D.buffer)
    (hs : t.screen.InRange) (hlt : t.frame.context.intNumber.toNat < nbrIdtEntries) :
    Dispatched D t (interruptDispatcher D t) :=
  dispatched_of_dispatcher hD hs hlt

/-- A program that has been interrupted at `0x1000`. -/
def interruptedContext (n eax : BitVec 32) : UserContext where
  context := ⟨0x23, 0x23, 0x23, 0x23, 0, 0, 0, 0, 0, 0, 0, eax, n, 0, 0x1000, 0x1B, 0x202⟩
  esp := 0x2000
  ss := 0x23

/-- The kernel before `main`, on a blank screen. -/
def bootInterrupts (u : UserContext) : Interrupts :=
  ⟨fun _ => none, resetPics, ⟨0, none, none⟩, 0, .boot fun _ => 0, [], 0, u⟩

/-- Every address is mapped but those of page 0. -/
def bootDrivers (code : BitVec 32 → List DriverCall) : Drivers :=
  ⟨0xC0110000, 0xC0111000, (4096 ≤ ·), code⟩

theorem bootDrivers_apart (code : BitVec 32 → List DriverCall) :
    BuffersApart (bootDrivers code).panicBuffer (bootDrivers code).buffer :=
  show BuffersApart 0xC0110000 0xC0111000 from
    ⟨by decide, by decide, by decide, by decide, by decide⟩

theorem interruptDispatcher_dispatched_fault :
    Dispatched (bootDrivers fun _ => []) (bootInterrupts (interruptedContext 14 0))
      (interruptDispatcher (bootDrivers fun _ => [])
        (bootInterrupts (interruptedContext 14 0))) :=
  interruptDispatcher_dispatched (bootDrivers_apart _) ⟨by decide, by decide⟩ (by decide)

end Atros
