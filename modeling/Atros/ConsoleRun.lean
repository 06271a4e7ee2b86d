import Atros.ConsoleWindow
import Atros.FormatStores

namespace Atros
set_option autoImplicit true

variable {s s' : Screen} {p : Page}

/-! ### What one character stores -/

theorem Screen.InRange.move_confined (h : s.InRange) (c : UInt8) :
    s.out.Confined (s.move c).out videoBase 4000 := by
  have hline := h.line
  have hcolumn := h.column
  have hbase : videoBase = 3221979136 := by decide
  unfold Screen.move
  split_ifs
  · exact .refl _ _ _
  · exact .refl _ _ _
  · exact .refl _ _ _
  · exact .refl _ _ _
  · exact .refl _ _ _
  · rw [videoAddr_eq hline hcolumn, add32_of_lt (by omega)]
    exact ((s.out.confined_put _ c).mono (by omega) (by omega)).trans
      ((Output.confined_put _ _ 7).mono (by omega) (by omega))

theorem Screen.wrap_out (s : Screen) : s.wrap.out = s.out := by
  unfold Screen.wrap
  split <;> rfl

theorem Screen.scroll_confined (s : Screen) :
    s.out.Confined s.scroll.out videoBase 4000 := by
  unfold Screen.scroll
  split
  · simp only [scroll_stores]
    exact ((s.out.confined_puts _ _).mono (Nat.le_refl _) (by rw [length_bytesAt]; omega)).trans
      ((Output.confined_puts _ _ _).mono (Nat.le_add_right _ _)
        (by rw [List.length_replicate]))
  · exact .refl _ _ _

theorem Screen.move_cursors (s : Screen) (c : UInt8) : (s.move c).cursors = s.cursors := by
  unfold Screen.move
  split_ifs <;> rfl

theorem Screen.wrap_cursors (s : Screen) : s.wrap.cursors = s.cursors := by
  unfold Screen.wrap
  split <;> rfl

theorem Screen.scroll_cursors (s : Screen) : s.scroll.cursors = s.cursors := by
  unfold Screen.scroll
  split <;> rfl

theorem Screen.InRange.put_confined (h : s.InRange) (c : UInt8) :
    s.out.Confined (s.put c).out videoBase 4000 := by
  have hmove := Screen.InRange.move_confined
    (s := { s with cursors := (s.line, s.column) :: s.cursors }) ⟨h.line, h.column⟩ c
  rw [← wrap_out (Screen.move c _)] at hmove
  exact hmove.trans (scroll_confined _)

/-- What holds after `count` characters. -/
structure Screen.Prints (s s' : Screen) (count : Nat) : Prop where
  inRange : s'.InRange
  inside : ∀ x, s'.out.written x = true →
    s.out.written x = true ∨ videoBase ≤ x ∧ x < videoBase + 4000
  count : s'.cursors.length = s.cursors.length + count
  cursors : ∀ q ∈ s'.cursors, q ∈ s.cursors ∨ q.1 ≤ 24 ∧ q.2 ≤ 79

theorem Screen.InRange.refl (h : s.InRange) : s.Prints s 0 :=
  ⟨h, fun _ hx => .inl hx, rfl, fun _ hq => .inl hq⟩

theorem Screen.Prints.trans (h : s.Prints s' a) (h' : s'.Prints s'' b) :
    s.Prints s'' (a + b) := by
  refine ⟨h'.inRange, fun x hx => ?_, ?_, fun q hq => ?_⟩
  · rcases h'.inside x hx with hx | hx
    · exact h.inside x hx
    · exact .inr hx
  · rw [h'.count, h.count, Nat.add_assoc]
  · rcases h'.cursors q hq with hq | hq
    · exact h.cursors q hq
    · exact .inr hq

theorem Screen.InRange.prints (h : s.InRange) (c : UInt8) : s.Prints (s.put c) 1 := by
  have hcursors : (s.put c).cursors = (s.line, s.column) :: s.cursors := by
    rw [Screen.put, scroll_cursors, wrap_cursors, move_cursors]
  refine ⟨h.put c, (h.put_confined c).inside, by rw [hcursors, List.length_cons], fun q hq => ?_⟩
  rw [hcursors] at hq
  rcases List.mem_cons.mp hq with rfl | hq
  · exact .inr ⟨h.line, h.column⟩
  · exact .inl hq

theorem Screen.Shows.print (h : s.Shows p p.top) (hs : s.InRange) (text : List UInt8) :
    (text.foldl Screen.put s).Shows (text.foldl Page.type p) (text.foldl Page.type p).top ∧
      s.Prints (text.foldl Screen.put s) text.length := by
  induction text generalizing s p with
  | nil => exact ⟨h, hs.refl⟩
  | cons c text ih =>
    obtain ⟨hshows, hprints⟩ := ih (h.put hs c) (hs.put c)
    refine ⟨hshows, ?_⟩
    have hboth := (hs.prints c).trans hprints
    rwa [Nat.add_comm] at hboth

/-! ### The loop -/

/-- The loop of `kprintf` prints the text in the buffer, which its stores do not change. -/
theorem printLoop_eq (printed : Nat) (hs : s.InRange) (h0 : 0 ∉ text)
    (hmem : bytesAt s.out.mem (buffer + i) (text.length + 1) = text ++ [0])
    (habove : videoBase + 4000 ≤ buffer) (hend : buffer + i + text.length < 2 ^ 32)
    (hrounds : text.length < rounds) :
    ∃ n, printLoop buffer rounds i printed s = some (n, text.foldl Screen.put s) := by
  induction text generalizing i rounds printed s with
  | nil =>
    obtain ⟨rounds, rfl⟩ := Nat.exists_eq_add_of_lt hrounds
    have hzero : s.out.mem (buffer + i) = 0 := (List.cons.inj hmem).1
    rw [List.length_nil, Nat.add_zero] at hend
    refine ⟨printed, ?_⟩
    rw [printLoop, add32_of_lt hend, hzero, if_neg (fun h => h rfl)]
    rfl
  | cons c text ih =>
    obtain ⟨rounds, rfl⟩ : ∃ r, rounds = r + 1 := ⟨rounds - 1, by omega⟩
    rw [List.length_cons] at hend hrounds
    obtain ⟨hc, hrest⟩ := List.cons.inj hmem
    have hne : c ≠ 0 := fun h => h0 (h ▸ List.mem_cons_self)
    have hframe : bytesAt (s.put c).out.mem (buffer + (i + 1)) (text.length + 1) = text ++ [0] := by
      refine Eq.trans (bytesAt_congr fun x hx _ => ?_) hrest
      exact (hs.put_confined c).frame x (by omega)
    obtain ⟨n, hrun⟩ := ih (if isEscape c then printed else add32 printed 1) (hs.put c)
      (fun h => h0 (List.mem_cons_of_mem c h)) hframe (by omega)
      (Nat.lt_of_succ_lt_succ hrounds)
    refine ⟨n, ?_⟩
    rw [printLoop, add32_of_lt (by omega), hc, if_pos hne, add32_of_lt (by omega), hrun,
      List.foldl_cons]

/-! ### Calls of `kprintf` -/

/-- The formatted contents of the buffer. -/
def formatted (buffer : Nat) (format : List UInt8) (args : List Arg) (m : Mem) :
    Option (List UInt8) :=
  (vsnprintf buffer 1024 format args m).map fun (j, o) => cstr (bytesAt o.mem buffer (j + 1))

/-- A format and its arguments. -/
structure PrintCall where
  format : List UInt8
  args : List Arg

/-- Calls of `kprintf` one after the other, with all that is printed. -/
def kprintfs (buffer : Nat) : List PrintCall → Screen → Option (List UInt8 × Screen)
  | [], s => some ([], s)
  | call :: calls, s => do
    let text ← formatted buffer call.format call.args s.out.mem
    let (_, s) ← kprintf buffer call.format call.args s
    let (rest, s) ← kprintfs buffer calls s
    return (text ++ rest, s)

/-- The arguments match the format, and what is formatted ends before the address space does. Text
that overruns the 1024 bytes of the buffer is admitted: the line and the column are no part of this
memory, and where the image is linked they are the variables that the overrun would have to miss. -/
def PrintCall.Valid (buffer : Nat) (call : PrintCall) : Prop :=
  ∀ m, ∃ j o, vsnprintf buffer 1024 call.format call.args m = some (j, o) ∧
    buffer + j < 2 ^ 32

theorem cstr_append_zero {bs : List UInt8} (h : 0 ∈ bs) : ∃ rest, bs = cstr bs ++ 0 :: rest := by
  induction bs with
  | nil => exact absurd h List.not_mem_nil
  | cons c bs ih =>
    by_cases hc : c = 0
    · subst hc
      exact ⟨bs, rfl⟩
    · obtain ⟨rest, hrest⟩ := ih ((List.mem_cons.mp h).resolve_left (Ne.symm hc))
      refine ⟨rest, ?_⟩
      rw [cstr_cons hc, List.cons_append, ← hrest]

theorem bytesAt_prefix (h : bytesAt m a num = xs ++ ys) : bytesAt m a xs.length = xs := by
  induction xs generalizing a num with
  | nil => rfl
  | cons x xs ih =>
    cases num with
    | zero => exact nomatch h
    | succ num =>
      obtain ⟨hx, hrest⟩ := List.cons.inj h
      rw [List.length_cons, bytesAt, hx, ih hrest]

theorem vsnprintf_text (h : vsnprintf buffer n format args m = some (j, o)) :
    (cstr (bytesAt o.mem buffer (j + 1))).length ≤ j ∧
    bytesAt o.mem buffer ((cstr (bytesAt o.mem buffer (j + 1))).length + 1) =
      cstr (bytesAt o.mem buffer (j + 1)) ++ [0] := by
  obtain ⟨⟨k, o'⟩, -, heq⟩ := Option.map_eq_some_iff.mp h
  cases heq
  have hlast : (o'.put (buffer + j) 0).mem (buffer + j) = 0 := by
    rw [Output.mem_put, if_pos rfl]
  have hin : 0 ∈ bytesAt (o'.put (buffer + j) 0).mem buffer (j + 1) := by
    rw [bytesAt_succ, hlast]
    exact List.mem_append_right _ List.mem_cons_self
  obtain ⟨rest, hrest⟩ := cstr_append_zero hin
  generalize cstr (bytesAt (o'.put (buffer + j) 0).mem buffer (j + 1)) = text at *
  constructor
  · have hlen := congrArg List.length hrest
    rw [length_bytesAt, List.length_append, List.length_cons] at hlen
    omega
  · rw [List.append_cons] at hrest
    have hpre := bytesAt_prefix hrest
    rwa [List.length_append] at hpre

theorem kprintf_eq (hs : s.InRange) (habove : videoBase + 4000 ≤ buffer)
    (h : vsnprintf buffer 1024 format args s.out.mem = some (j, o)) (hend : buffer + j < 2 ^ 32) :
    ∃ text n, formatted buffer format args s.out.mem = some text ∧
      kprintf buffer format args s =
        some (n, text.foldl Screen.put { s with out := ⟨o.mem, s.out.written⟩ }) := by
  obtain ⟨hlen, hbytes⟩ := vsnprintf_text h
  have hrounds : (cstr (bytesAt o.mem buffer (j + 1))).length < 2 ^ 32 := by omega
  obtain ⟨n, hrun⟩ := printLoop_eq (s := { s with out := ⟨o.mem, s.out.written⟩ }) (i := 0) 0
    ⟨hs.line, hs.column⟩ (zero_notMem_cstr _) hbytes habove (by omega) hrounds
  refine ⟨cstr (bytesAt o.mem buffer (j + 1)), n, ?_, ?_⟩
  · rw [formatted, h]
    rfl
  · rw [kprintf, h]
    exact hrun

theorem kprintfs_shows (h : s.Shows p p.top) (hs : s.InRange)
    (habove : videoBase + 4000 ≤ buffer) (hvalid : ∀ call ∈ calls, PrintCall.Valid buffer call) :
    ∃ text s', kprintfs buffer calls s = some (text, s') ∧
      s'.Shows (text.foldl Page.type p) (text.foldl Page.type p).top ∧
      s.Prints s' text.length := by
  induction calls generalizing s p with
  | nil => exact ⟨[], s, rfl, h, hs.refl⟩
  | cons call calls ih =>
    obtain ⟨j, o, hformat, hend⟩ := hvalid call List.mem_cons_self s.out.mem
    obtain ⟨text, n, htext, hrun⟩ := kprintf_eq hs habove hformat hend
    -- the formatting has not touched the video memory
    have hwindow : ∀ x, x < videoBase + 4000 → o.mem x = s.out.mem x := fun x hx =>
      vsnprintf_below hformat (by omega)
    have h₁ : Screen.Shows { s with out := ⟨o.mem, s.out.written⟩ } p p.top := by
      refine ⟨h.line, h.column, fun i j hi hj => ?_, h.below⟩
      rw [← h.cells i j hi hj]
      exact Cell.ext (hwindow _ (by omega)) (hwindow _ (by omega))
    have hs₁ : Screen.InRange { s with out := ⟨o.mem, s.out.written⟩ } := ⟨hs.line, hs.column⟩
    obtain ⟨h₂, hprints⟩ := h₁.print hs₁ text
    obtain ⟨rest, s', hrest, h₃, hprints'⟩ := ih h₂ hprints.inRange
      fun call hcall => hvalid call (List.mem_cons_of_mem _ hcall)
    refine ⟨text ++ rest, s', ?_, ?_, ?_⟩
    · rw [kprintfs, htext, hrun]
      simp only [Option.bind_eq_bind, Option.bind_some, hrest]
      rfl
    · rwa [List.foldl_append]
    · rw [List.length_append]
      have hprints : s.Prints (text.foldl Screen.put { s with out := ⟨o.mem, s.out.written⟩ })
          text.length := ⟨hprints.inRange, hprints.inside, hprints.count, hprints.cursors⟩
      exact hprints.trans hprints'

/-- `line` and `column` start at 0. -/
def Screen.boot (m : Mem) : Screen := ⟨Output.start m, 0, 0, []⟩

/-- The old screen above blank rows. -/
def Page.boot (m : Mem) : Page :=
  ⟨fun i j => if i ≤ 24 then cellAt m i j else .blank, 0, 0⟩

/-- However often `kprintf` is called, the console is the window on the last 25 rows reached of the
page on which all its text is typed. -/
theorem kprintfs_window (buffer : Nat) (calls : List PrintCall) (m : Mem)
    (habove : videoBase + 4000 ≤ buffer) (hvalid : ∀ call ∈ calls, call.Valid buffer) :
    ∃ text s, kprintfs buffer calls (.boot m) = some (text, s) ∧
      (s.cursors.length = text.length ∧ ∀ q ∈ s.cursors, q.1 ≤ 24 ∧ q.2 ≤ 79) ∧
      (∀ x, s.out.written x = true → videoBase ≤ x ∧ x < videoBase + 4000) ∧
      ∀ i j, i ≤ 24 → j ≤ 79 → cellAt s.out.mem i j =
        (text.foldl Page.type (.boot m)).cell ((text.foldl Page.type (.boot m)).top + i) j := by
  have hstart : (Screen.boot m).Shows (.boot m) (Page.boot m).top := by
    refine ⟨rfl, rfl, fun i j hi _ => ?_, fun i j hi => ?_⟩
    · rw [Page.top, Page.boot, Nat.zero_sub, Nat.zero_add]
      exact (if_pos hi).symm
    · exact if_neg (by rw [Page.top] at hi; omega)
  obtain ⟨text, s, hrun, hshows, hprints⟩ :=
    kprintfs_shows hstart ⟨Nat.zero_le _, Nat.zero_le _⟩ habove hvalid
  refine ⟨text, s, hrun, ⟨?_, fun q hq => ?_⟩, fun x hx => ?_, hshows.cells⟩
  · rw [hprints.count]
    exact Nat.zero_add _
  · exact (hprints.cursors q hq).resolve_left List.not_mem_nil
  · exact (hprints.inside x hx).resolve_left Bool.false_ne_true

/-- `kprintf("hi\n%c", 'x')` on a blank screen. -/
theorem kprintfs_window_hi :
    let calls : List PrintCall :=
      [⟨[ch 'h', ch 'i', newline, ch '%', ch 'c', 0], [.word 120]⟩]
    ∃ text s, kprintfs 0xC0110000 calls (.boot fun _ => 0) = some (text, s) ∧
      (s.cursors.length = text.length ∧ ∀ q ∈ s.cursors, q.1 ≤ 24 ∧ q.2 ≤ 79) ∧
      (∀ x, s.out.written x = true → videoBase ≤ x ∧ x < videoBase + 4000) ∧
      ∀ i j, i ≤ 24 → j ≤ 79 → cellAt s.out.mem i j =
        (text.foldl Page.type (.boot fun _ => 0)).cell
          ((text.foldl Page.type (.boot fun _ => 0)).top + i) j :=
  kprintfs_window _ _ _ (by decide) fun call hcall m => by
    cases List.mem_singleton.mp hcall
    exact ⟨4, _, rfl, by decide⟩

end Atros
