import Atros.Vsnprintf

namespace Atros
set_option autoImplicit true

/-! ### The arguments read -/

/-- What `va_arg` is asked for. -/
inductive VaKind
  | word
  | string
  deriving DecidableEq, Repr

/-- One `va_arg`: what is asked for, and the argument met there, if there is one left. -/
structure VaRead where
  kind : VaKind
  arg : Option Arg
  deriving DecidableEq

/-- The read meets an argument of its type. -/
def VaRead.Matches : VaRead → Prop
  | ⟨.word, some (.word _)⟩ | ⟨.string, some (.str _)⟩ => True
  | _ => False

instance (r : VaRead) : Decidable r.Matches := by
  unfold VaRead.Matches
  split <;> infer_instance

/-- What a case of the `switch` asks `va_arg` for. -/
def Conv.vaKind : Conv → Option VaKind
  | .signed _ | .unsigned _ | .char => some .word
  | .string => some .string
  | .percent | .other => none

/-- The `va_arg`s of the scan of a format, with the variables `i` and `specifier_expected`. -/
def vaReads (n : Nat) : List UInt8 → Nat → Bool → List Arg → List VaRead
  | [], _, _, _ => []
  | c :: format, i, specifierExpected, args =>
    if c ≠ 0 ∧ i < sub32 n 1 then
      if specifierExpected then
        match (convOf c).vaKind with
        | some kind => ⟨kind, args.head?⟩ :: vaReads n format (i + 1) false args.tail
        | none => vaReads n format (i + 1) false args
      else vaReads n format (i + 1) (c = ch '%') args
    else []

theorem convert_of_vaKind_none (n str j : Nat) (args : List Arg) (o : Output)
    (h : conv.vaKind = none) :
    ∃ j' o', convert n str conv j args o = some (j', args, o') := by
  cases conv with
  | percent => exact ⟨_, _, rfl⟩
  | other => exact ⟨_, _, rfl⟩
  | signed base => cases h
  | unsigned base => cases h
  | char => cases h
  | string => cases h

theorem vaWord_of_matches (h : VaRead.Matches ⟨.word, args.head?⟩) :
    ∃ w, vaWord args = some (w, args.tail) := by
  cases args with
  | nil => exact h.elim
  | cons a args =>
    cases a with
    | word w => exact ⟨w.toNat, rfl⟩
    | str s => exact h.elim

theorem vaWord_none (h : ¬VaRead.Matches ⟨.word, args.head?⟩) : vaWord args = none := by
  cases args with
  | nil => rfl
  | cons a args =>
    cases a with
    | word w => exact absurd trivial h
    | str s => rfl

theorem vaString_none (h : ¬VaRead.Matches ⟨.string, args.head?⟩) : vaString args = none := by
  cases args with
  | nil => rfl
  | cons a args =>
    cases a with
    | word w => rfl
    | str s => exact absurd trivial h

theorem vaString_of_matches (h : VaRead.Matches ⟨.string, args.head?⟩) :
    ∃ s, vaString args = some (s, args.tail) := by
  cases args with
  | nil => exact h.elim
  | cons a args =>
    cases a with
    | word w => exact h.elim
    | str s => exact ⟨s, rfl⟩

/-- A case of the `switch` that reads an argument takes the first one, if it has the type asked
for. -/
theorem convert_of_matches (n str j : Nat) (o : Output) (h : conv.vaKind = some kind)
    (hm : VaRead.Matches ⟨kind, args.head?⟩) :
    ∃ j' o', convert n str conv j args o = some (j', args.tail, o') := by
  cases conv with
  | percent => cases h
  | other => cases h
  | string =>
    cases h
    obtain ⟨s, hs⟩ := vaString_of_matches hm
    exact ⟨_, _, by rw [convert, hs, Option.map_some]⟩
  | signed base =>
    cases h
    obtain ⟨w, hw⟩ := vaWord_of_matches hm
    exact ⟨_, _, by rw [convert, hw, Option.map_some]⟩
  | unsigned base =>
    cases h
    obtain ⟨w, hw⟩ := vaWord_of_matches hm
    exact ⟨_, _, by rw [convert, hw, Option.map_some]⟩
  | char =>
    cases h
    obtain ⟨w, hw⟩ := vaWord_of_matches hm
    exact ⟨_, _, by rw [convert, hw, Option.map_some]⟩

theorem convert_of_not_matches (h : conv.vaKind = some kind)
    (hm : ¬VaRead.Matches ⟨kind, args.head?⟩) : convert n str conv j args o = none := by
  cases conv with
  | percent => cases h
  | other => cases h
  | string =>
    cases h
    rw [convert, vaString_none hm, Option.map_none]
  | signed base =>
    cases h
    rw [convert, vaWord_none hm, Option.map_none]
  | unsigned base =>
    cases h
    rw [convert, vaWord_none hm, Option.map_none]
  | char =>
    cases h
    rw [convert, vaWord_none hm, Option.map_none]

/-- The scan has a defined outcome exactly when each of its reads meets an argument of its
type. -/
theorem vsnprintfLoop_isSome_iff (format : List UInt8) :
    (vsnprintfLoop n str format i j spec args o).isSome ↔
      ∀ r ∈ vaReads n format i spec args, r.Matches := by
  induction format generalizing i j spec args o with
  | nil => simp [vsnprintfLoop, vaReads]
  | cons c format ih =>
    rw [vsnprintfLoop, vaReads]
    by_cases hc : c ≠ 0 ∧ i < sub32 n 1
    · rw [if_pos hc, if_pos hc]
      cases spec with
      | false =>
        rw [if_neg Bool.false_ne_true, if_neg Bool.false_ne_true]
        by_cases hp : c = ch '%'
        · rw [if_pos hp, decide_eq_true hp]
          exact ih
        · rw [if_neg hp, decide_eq_false hp]
          exact ih
      | true =>
        rw [if_pos rfl, if_pos rfl]
        cases hk : (convOf c).vaKind with
        | none =>
          obtain ⟨j', o', hconv⟩ := convert_of_vaKind_none n str j args o hk
          rw [hconv, Option.bind_some]
          exact ih
        | some kind =>
          simp only [List.forall_mem_cons]
          by_cases hm : VaRead.Matches ⟨kind, args.head?⟩
          · obtain ⟨j', o', hconv⟩ := convert_of_matches n str j o hk hm
            rw [hconv, Option.bind_some, and_iff_right hm]
            exact ih
          · rw [convert_of_not_matches hk hm, Option.bind_none]
            exact ⟨fun h => absurd h Bool.false_ne_true, fun h => absurd h.1 hm⟩
    · rw [if_neg hc, if_neg hc]
      simp

theorem vsnprintf_isSome_iff :
    (vsnprintf str n format args m).isSome ↔ ∀ r ∈ vaReads n format 0 false args, r.Matches := by
  rw [vsnprintf, Option.isSome_map]
  exact vsnprintfLoop_isSome_iff format

/-! ### The formats of the kernel -/

/-- The letters of the kernel's formats that take a 32-bit argument. -/
inductive WordLetter
  | u | d | p | c
  deriving DecidableEq, Repr

def WordLetter.char : WordLetter → UInt8
  | .u => ch 'u'
  | .d => ch 'd'
  | .p => ch 'p'
  | .c => ch 'c'

/-- A literal character or a conversion of the kernel's own formats, with its argument. -/
inductive Directive
  | literal (c : UInt8) (hc : c ≠ 0 ∧ c ≠ ch '%')
  | word (letter : WordLetter) (w : UInt32)
  | longUnsigned (w : UInt32)
  | string (s : List UInt8)
  | percent

def Directive.format : Directive → List UInt8
  | .literal c _ => [c]
  | .word letter _ => [ch '%', letter.char]
  | .longUnsigned _ => [ch '%', ch 'l', ch 'u']
  | .string _ => [ch '%', ch 's']
  | .percent => [ch '%', ch '%']

def Directive.args : Directive → List Arg
  | .literal _ _ | .percent => []
  | .word _ w | .longUnsigned w => [.word w]
  | .string s => [.str s]

def Directive.isLong : Directive → Bool
  | .longUnsigned _ => true
  | _ => false

/-- The read that takes an argument at its own type. -/
def Arg.read : Arg → VaRead
  | .word w => ⟨.word, some (.word w)⟩
  | .str s => ⟨.string, some (.str s)⟩

theorem Arg.read_matches (a : Arg) : a.read.Matches := by
  cases a <;> trivial

/-- Every conversion that takes an argument ends within the first `limit` characters, the first
directive standing at index `i`. -/
def InReach (limit : Nat) : Nat → List Directive → Prop
  | _, [] => True
  | i, p :: ps =>
    (p.args ≠ [] → i + p.format.length ≤ limit) ∧ InReach limit (i + p.format.length) ps

instance : (limit i : Nat) → (ps : List Directive) → Decidable (InReach limit i ps)
  | _, _, [] => isTrue trivial
  | limit, i, p :: ps =>
    have : Decidable (InReach limit (i + p.format.length) ps) := instDecidableInReach ..
    inferInstanceAs (Decidable (_ ∧ _))

/-! ### The reads of a format -/

theorem vaReads_cstr (format : List UInt8) :
    vaReads n format i spec args = vaReads n (cstr format) i spec args := by
  induction format generalizing i spec args with
  | nil => rfl
  | cons c format ih =>
    by_cases hc : c = 0
    · subst hc
      simp only [cstr_cons_zero, vaReads, ne_eq, not_true_eq_false, false_and, if_false]
    · rw [cstr_cons hc, vaReads, vaReads]
      simp only [← ih]

theorem vaReads_stop (hi : sub32 n 1 ≤ i) (format : List UInt8) :
    vaReads n format i spec args = [] := by
  cases format with
  | nil => rfl
  | cons c format => rw [vaReads, if_neg (fun h => by omega)]

theorem vaReads_skip (hc : c ≠ 0) (hread : spec = true → (convOf c).vaKind = none)
    (hspec : spec = false → c ≠ ch '%') (format : List UInt8) :
    vaReads n (c :: format) i spec args = vaReads n format (i + 1) false args := by
  rcases Nat.lt_or_ge i (sub32 n 1) with hi | hi
  · rw [vaReads, if_pos ⟨hc, hi⟩]
    cases spec with
    | false => rw [if_neg Bool.false_ne_true, decide_eq_false (hspec rfl)]
    | true => simp only [if_true, hread rfl]
  · rw [vaReads_stop hi, vaReads_stop (by omega)]

theorem vaReads_percent (format : List UInt8) :
    vaReads n (ch '%' :: format) i false args = vaReads n format (i + 1) true args := by
  rcases Nat.lt_or_ge i (sub32 n 1) with hi | hi
  · rw [vaReads, if_pos ⟨by decide, hi⟩, if_neg Bool.false_ne_true, decide_eq_true rfl]
  · rw [vaReads_stop hi, vaReads_stop (by omega)]

theorem vaReads_conversion (hc : c ≠ 0) (hk : (convOf c).vaKind = some kind)
    (format : List UInt8) :
    vaReads n (ch '%' :: c :: format) i false args =
      if i + 2 ≤ sub32 n 1 then
        ⟨kind, args.head?⟩ :: vaReads n format (i + 2) false args.tail
      else [] := by
  rw [vaReads_percent]
  split
  · rw [vaReads, if_pos ⟨hc, by omega⟩, if_pos rfl, hk]
  · exact vaReads_stop (by omega) _

theorem convOf_wordLetter (letter : WordLetter) : (convOf letter.char).vaKind = some .word := by
  cases letter <;> decide

theorem wordLetter_ne_zero (letter : WordLetter) : letter.char ≠ 0 := by
  cases letter <;> decide

/-- The `l` of `%lu` is dropped and its `u` is a literal character. -/
theorem vaReads_longUnsigned (format : List UInt8) :
    vaReads n (ch '%' :: ch 'l' :: ch 'u' :: format) i false args =
      vaReads n format (i + 3) false args := by
  rw [vaReads_percent, vaReads_skip (by decide) (fun _ => by decide) (fun h => by cases h),
    vaReads_skip (by decide) (fun h => by cases h) (fun _ => by decide)]

theorem vaReads_directive (p : Directive) (format : List UInt8) (args : List Arg) :
    (p.isLong ∨ p.args = []) ∧
        vaReads n (p.format ++ format) i false args =
          vaReads n format (i + p.format.length) false args ∨
      ∃ a kind, p.isLong = false ∧ p.args = [a] ∧ a.read = ⟨kind, some a⟩ ∧
        vaReads n (p.format ++ format) i false args =
          if i + p.format.length ≤ sub32 n 1 then
            ⟨kind, args.head?⟩ :: vaReads n format (i + p.format.length) false args.tail
          else [] := by
  cases p with
  | literal c hc =>
    exact .inl ⟨.inr rfl, vaReads_skip hc.1 (fun h => by cases h) (fun _ => hc.2) format⟩
  | word letter w =>
    exact .inr ⟨.word w, .word, rfl, rfl, rfl,
      vaReads_conversion (wordLetter_ne_zero letter) (convOf_wordLetter letter) format⟩
  | longUnsigned w => exact .inl ⟨.inl rfl, vaReads_longUnsigned format⟩
  | string s =>
    exact .inr ⟨.str s, .string, rfl, rfl, rfl, vaReads_conversion (by decide) (by decide) format⟩
  | percent =>
    refine .inl ⟨.inr rfl, ?_⟩
    exact (vaReads_percent _).trans
      (vaReads_skip (by decide) (fun _ => by decide) (fun h => by cases h) format)

/-- Without `%lu` and within reach, each conversion reads its own argument. -/
theorem vaReads_served (ps : List Directive) (hlong : ∀ p ∈ ps, p.isLong = false)
    (hreach : InReach (sub32 n 1) i ps) :
    vaReads n (ps.flatMap Directive.format) i false (ps.flatMap Directive.args) =
      (ps.flatMap Directive.args).map Arg.read := by
  induction ps generalizing i with
  | nil => rfl
  | cons p ps ih =>
    have htail := ih (fun q hq => hlong q (List.mem_cons_of_mem _ hq)) hreach.2
    rw [List.flatMap_cons, List.flatMap_cons]
    rcases vaReads_directive (n := n) (i := i) p (ps.flatMap Directive.format)
      (p.args ++ ps.flatMap Directive.args) with ⟨hargs, heq⟩ | ⟨a, kind, -, hargs, hread, heq⟩
    · have hnone : p.args = [] := by
        rcases hargs with h | h
        · rw [hlong p List.mem_cons_self] at h
          cases h
        · exact h
      rw [heq, hnone, List.nil_append, htail]
    · have hin := hreach.1 (by rw [hargs]; exact List.cons_ne_nil _ _)
      rw [heq, if_pos hin, hargs, List.singleton_append, List.head?_cons, List.tail_cons, htail,
        List.map_cons, hread]

/-- Whatever the arguments, no more of them are read than there are conversions. -/
theorem vaReads_length_le (ps : List Directive) (args : List Arg) :
    (vaReads n (ps.flatMap Directive.format) i false args).length ≤
      (ps.flatMap Directive.args).length := by
  induction ps generalizing i args with
  | nil => exact le_refl _
  | cons p ps ih =>
    rw [List.flatMap_cons, List.flatMap_cons, List.length_append]
    rcases vaReads_directive (n := n) (i := i) p (ps.flatMap Directive.format) args with
      ⟨-, heq⟩ | ⟨a, kind, -, hargs, -, heq⟩
    · rw [heq]
      have := ih (i := i + p.format.length) args
      omega
    · rw [heq, hargs]
      split
      · have := ih (i := i + p.format.length) args.tail
        rw [List.length_cons, List.length_singleton]
        omega
      · exact Nat.zero_le _

theorem served_of_length (ps : List Directive) (args : List Arg)
    (h : (ps.flatMap Directive.args).length ≤
      (vaReads n (ps.flatMap Directive.format) i false args).length) :
    (∀ p ∈ ps, p.isLong = false) ∧ InReach (sub32 n 1) i ps := by
  induction ps generalizing i args with
  | nil => exact ⟨fun p hp => absurd hp List.not_mem_nil, trivial⟩
  | cons p ps ih =>
    rw [List.flatMap_cons, List.flatMap_cons, List.length_append] at h
    rcases vaReads_directive (n := n) (i := i) p (ps.flatMap Directive.format) args with
      ⟨hargs, heq⟩ | ⟨a, kind, hlong, hargs, -, heq⟩
    · have hle := vaReads_length_le (n := n) (i := i + p.format.length) ps args
      rw [heq] at h
      obtain ⟨hlong, hreach⟩ := ih (i := i + p.format.length) args (by omega)
      have hnone : p.args = [] := List.length_eq_zero_iff.mp (by omega)
      have hshort : p.isLong = false := by
        cases p <;> first | rfl | cases hnone
      refine ⟨?_, fun hne => absurd hnone hne, hreach⟩
      intro q hq
      rcases List.mem_cons.mp hq with rfl | hq
      · exact hshort
      · exact hlong q hq
    · rw [heq, hargs, List.length_singleton] at h
      split at h
      · rw [List.length_cons] at h
        obtain ⟨htail, hreach⟩ := ih (i := i + p.format.length) args.tail (by omega)
        refine ⟨?_, fun _ => ‹_›, hreach⟩
        intro q hq
        rcases List.mem_cons.mp hq with rfl | hq
        · exact hlong
        · exact htail q hq
      · rw [List.length_nil] at h
        omega

/-- `vsnprintf` reads the arguments one by one, each at its own type, exactly when the format has
no `%lu` and each of its conversions ends within the characters that are scanned. Its outcome is
then defined. -/
theorem vsnprintf_inStep_iff (str n : Nat) (format : List UInt8) (ps : List Directive) (m : Mem)
    (hformat : cstr format = ps.flatMap Directive.format) :
    (vaReads n format 0 false (ps.flatMap Directive.args) =
        (ps.flatMap Directive.args).map Arg.read ↔
      (∀ p ∈ ps, p.isLong = false) ∧ InReach (sub32 n 1) 0 ps) ∧
    ((∀ p ∈ ps, p.isLong = false) ∧ InReach (sub32 n 1) 0 ps →
      (vsnprintf str n format (ps.flatMap Directive.args) m).isSome) := by
  have hserved : (∀ p ∈ ps, p.isLong = false) ∧ InReach (sub32 n 1) 0 ps →
      vaReads n format 0 false (ps.flatMap Directive.args) =
        (ps.flatMap Directive.args).map Arg.read := by
    rintro ⟨hlong, hreach⟩
    rw [vaReads_cstr, hformat]
    exact vaReads_served ps hlong hreach
  refine ⟨⟨fun h => ?_, hserved⟩, fun h => ?_⟩
  · rw [vaReads_cstr, hformat] at h
    refine served_of_length ps (ps.flatMap Directive.args) ?_
    rw [h, List.length_map]
  · rw [vsnprintf_isSome_iff, hserved h]
    intro r hr
    obtain ⟨a, -, rfl⟩ := List.mem_map.mp hr
    exact a.read_matches

/-- `%u%s` with a number and a string. -/
theorem vsnprintf_inStep_numberString :
    vaReads 1024 [ch '%', ch 'u', ch '%', ch 's', 0] 0 false [.word 7, .str [ch 'x', 0]] =
      [⟨.word, some (.word 7)⟩, ⟨.string, some (.str [ch 'x', 0])⟩] :=
  ((vsnprintf_inStep_iff 0x1000 1024 [ch '%', ch 'u', ch '%', ch 's', 0]
    [.word .u 7, .string [ch 'x', 0]] (fun _ => 0) (by decide)).1).mpr ⟨by decide, by decide⟩

/-- The characters of a text as literals. -/
def literals (text : String) : List Directive :=
  (text.toList.map ch).filterMap fun c =>
    if hc : c ≠ 0 ∧ c ≠ ch '%' then some (.literal c hc) else none

/-- The out-of-memory panic of `_boot_physical_pages_alloc`:
`panic("Can't allocate %lu physical page(s) in %s!\n", nbr_ppages, __func__)`. -/
def outOfPages (nbrPpages : UInt32) : List Directive :=
  literals "Can't allocate " ++ [.longUnsigned nbrPpages] ++ literals " physical page(s) in " ++
    [.string ("_boot_physical_pages_alloc".toList.map ch ++ [0])] ++ literals "!\n"

def outOfPagesFormat : List UInt8 :=
  "Can't allocate %lu physical page(s) in %s!\n".toList.map ch ++ [0]

/-- For a refused request of 3000 pages `%s` takes the number of pages as its string, the name of
the function is never read, and the outcome is undefined. -/
theorem outOfPages_reads_number :
    cstr outOfPagesFormat = (outOfPages 3000).flatMap Directive.format ∧
    vaReads 1024 outOfPagesFormat 0 false ((outOfPages 3000).flatMap Directive.args) =
      [⟨.string, some (.word 3000)⟩] ∧
    vaReads 1024 outOfPagesFormat 0 false ((outOfPages 3000).flatMap Directive.args) ≠
      ((outOfPages 3000).flatMap Directive.args).map Arg.read ∧
    vsnprintf 0x1000 1024 outOfPagesFormat ((outOfPages 3000).flatMap Directive.args)
      (fun _ => 0) = none := by
  have hreads : vaReads 1024 outOfPagesFormat 0 false
      ((outOfPages 3000).flatMap Directive.args) = [⟨.string, some (.word 3000)⟩] := by decide
  refine ⟨by decide, hreads, ?_, ?_⟩
  · rw [hreads]
    decide
  · rw [← Option.not_isSome_iff_eq_none, vsnprintf_isSome_iff, hreads]
    exact fun h => absurd (h _ List.mem_cons_self) (by decide)

end Atros
