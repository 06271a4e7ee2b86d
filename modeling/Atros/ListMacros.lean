import Atros.Program
import Atros.Panic

namespace Atros
set_option autoImplicit true

/-- A variable, or a field of an object, of a program state. -/
structure Place (σ α : Type) where
  get : σ → α
  set : α → σ → σ

section
variable {σ P : Type}

def Place.read (x : Place σ α) : Prog Panic σ α := do
  return x.get (← getThe σ)

def Place.write (x : Place σ α) (a : α) : Prog Panic σ Unit :=
  modify (x.set a)

/-- The object a pointer leads to. -/
def follow (p : Option P) : Prog Panic σ P := deref p .nullDereference

@[simp] theorem Place.read_ok (x : Place σ α) (s : σ) : x.read s = .ok (x.get s, s) := rfl

@[simp] theorem Place.write_ok (x : Place σ α) (a : α) (s : σ) :
    x.write a s = .ok ((), x.set a s) := rfl

@[simp] theorem bind_read (x : Place σ α) (f : α → Prog Panic σ β) (s : σ) :
    (x.read >>= f) s = f (x.get s) s := rfl

@[simp] theorem bind_write (x : Place σ α) (a : α) (f : Unit → Prog Panic σ β) (s : σ) :
    (x.write a >>= f) s = f () (x.set a s) := rfl

@[simp] theorem bind_follow (p : P) (f : P → Prog Panic σ β) (s : σ) :
    (follow (some p) >>= f) s = f p s := rfl

@[simp] theorem bind_follow_none (f : P → Prog Panic σ β) (s : σ) :
    (follow none >>= f) s = .error .nullDereference := rfl

variable (list : Place σ (Option P)) (prev next : P → Place σ (Option P))

/-! ### Simple lists -/

def listPushHead (el : P) : Prog Panic σ Unit := do
  (next el).write (← list.read)
  list.write (some el)

def listDeleteHead (head : P) : Prog Panic σ Unit := do
  let first ← follow (← list.read)
  if (← (next first).read) = none then
    list.write none
  else
    list.write (← (next head).read)
    (next head).write none

/-- `list_pop_head`: the head, a null pointer included. -/
def listPopHead : Prog Panic σ (Option P) := do
  let el2pop ← list.read
  let first ← follow el2pop
  listDeleteHead list next first
  return el2pop

def listDeleteEl [DecidableEq P] (prevEl : Option P) (el : P) : Prog Panic σ Unit := do
  check (¬(prevEl = none ∧ (← list.read) ≠ some el)) .deleteElWithoutPrev
  match prevEl with
  | none => list.write (← (next el).read)
  | some p =>
    if (← list.read) = some el then
      list.write (← (next el).read)
    else
      (next p).write (← (next el).read)
  (next el).write none

def listInsertAfter (prevEl : Option P) (el : P) : Prog Panic σ Unit := do
  match prevEl with
  | some p =>
    (next el).write (← (next p).read)
    (next p).write (some el)
  | none => listPushHead list next el

/-- The loop of `list_insert_ordered`, with its `__prev` and `__current`. -/
def insertOrderedLoop (el : P) (cmp : P → Option P → Prog Panic σ Int) :
    Nat → Option P → Option P → Prog Panic σ (Option P)
  | 0, _, _ => throw .endless
  | rounds + 1, prevEl, current => do
    if (← cmp el current) > 0 then
      let node ← follow current
      insertOrderedLoop el cmp rounds current (← (next node).read)
    else
      return prevEl

/-- `list_insert_ordered`, with a bound on the rounds of its loop. -/
def listInsertOrdered (rounds : Nat) (el : P) (cmp : P → Option P → Prog Panic σ Int) :
    Prog Panic σ Unit := do
  match (← list.read) with
  | none => listPushHead list next el
  | some first =>
    if (← cmp el (some first)) ≤ 0 then
      listPushHead list next el
    else
      let prevEl ← insertOrderedLoop next el cmp rounds none (some first)
      listInsertAfter list next prevEl el

def listLengthLoop : Nat → Nat → Option P → Prog Panic σ Nat
  | 0, _, _ => throw .endless
  | rounds + 1, length, current =>
    match current with
    | none => pure length
    | some node => do listLengthLoop rounds (length + 1) (← (next node).read)

/-- `list_length`, with a bound on the rounds of its loop. -/
def listLength (rounds : Nat) : Prog Panic σ Nat := do
  listLengthLoop next rounds 0 (← list.read)

/-! ### Doubly linked lists -/

def dlistPushHead (el : P) : Prog Panic σ Unit := do
  match (← list.read) with
  | some first => (prev first).write (some el)
  | none => pure ()
  (prev el).write none
  (next el).write (← list.read)
  list.write (some el)

def dlistDeleteHead (head : P) : Prog Panic σ Unit := do
  let first ← follow (← list.read)
  if (← (next first).read) = none then
    list.write none
  else
    list.write (← (next head).read)
    let first ← follow (← list.read)
    (prev first).write none
    (prev head).write none
    (next head).write none

def dlistDeleteEl [DecidableEq P] (el : P) : Prog Panic σ Unit := do
  if (← list.read) ≠ some el then
    let before ← follow (← (prev el).read)
    (next before).write (← (next el).read)
    match (← (next el).read) with
    | some after => (prev after).write (← (prev el).read)
    | none => pure ()
    (prev el).write none
    (next el).write none
  else
    dlistDeleteHead list prev next el

/-! ### Circular lists -/

/-- `clist_push_head` up to its last assignment, on a list whose head is `list`. -/
def clistPushBefore (list : Option P) (el : P) : Prog Panic σ Unit := do
  match list with
  | some first =>
    (next el).write (some first)
    (prev el).write (← (prev first).read)
    let last ← follow (← (prev first).read)
    (next last).write (some el)
    (prev first).write (some el)
  | none =>
    (next el).write (some el)
    (prev el).write (some el)

def clistPushHead (el : P) : Prog Panic σ Unit := do
  clistPushBefore prev next (← list.read) el
  list.write (some el)

def clistPushTail (el : P) : Prog Panic σ Unit := do
  match (← list.read) with
  | some first =>
    (next el).write (some first)
    (prev el).write (← (prev first).read)
    let last ← follow (← (prev first).read)
    (next last).write (some el)
    (prev first).write (some el)
  | none =>
    (next el).write (some el)
    (prev el).write (some el)
    list.write (some el)

def clistDeleteEl [DecidableEq P] (el : P) : Prog Panic σ Unit := do
  let first ← follow (← list.read)
  if (← (prev first).read) = some first ∧ (← (next first).read) = some first then
    (prev el).write none
    (next el).write none
    list.write none
  else
    let before ← follow (← (prev el).read)
    (next before).write (← (next el).read)
    let after ← follow (← (next el).read)
    (prev after).write (← (prev el).read)
    if (← list.read) = some el then
      list.write (← (next first).read)

/-- `clist_pop_head`. -/
def clistPopHead [DecidableEq P] : Prog Panic σ P := do
  let el2pop ← follow (← list.read)
  clistDeleteEl list prev next el2pop
  return el2pop

/-- The loop of `clist_insert_ordered`, with its `__current`. -/
def clistInsertOrderedLoop (el : P) (cmp : P → Option P → Prog Panic σ Int) :
    Nat → Option P → Prog Panic σ (Option P)
  | 0, _ => throw .endless
  | rounds + 1, current => do
    if (← cmp el current) > 0 then
      let node ← follow current
      clistInsertOrderedLoop el cmp rounds (← (next node).read)
    else
      return current

/-- `clist_insert_ordered`, with a bound on the rounds of its loop. -/
def clistInsertOrdered (rounds : Nat) (el : P) (cmp : P → Option P → Prog Panic σ Int) :
    Prog Panic σ Unit := do
  match (← list.read) with
  | none => clistPushHead list prev next el
  | some first =>
    if (← cmp el (some first)) ≤ 0 then
      clistPushHead list prev next el
    else if (← cmp el (← (prev first).read)) > 0 then
      clistPushTail list prev next el
    else
      -- the head that `clist_push_head` sets here is the local variable `__current`
      let current ← clistInsertOrderedLoop next el cmp rounds (some first)
      clistPushBefore prev next current el

end

end Atros
