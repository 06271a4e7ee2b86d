import Atros.Numeral

namespace Atros
set_option autoImplicit true

/-! What the text console is for: a page on which a text is typed. -/

def carriageReturn : UInt8 := 13
def newline : UInt8 := 10
def horizontalTab : UInt8 := 9
def backspace : UInt8 := 8

/-- A character with its attribute. -/
@[ext] structure Cell where
  char : UInt8
  attr : UInt8
  deriving DecidableEq

def Cell.blank : Cell := ⟨0, 0⟩

/-- A page of any number of rows of 80 cells, and its cursor. -/
structure Page where
  cell : Nat → Nat → Cell
  row : Nat
  column : Nat

def Page.move (c : UInt8) (p : Page) : Page :=
  if c = carriageReturn then { p with column := 0 }
  else if c = newline then { p with row := p.row + 1, column := 0 }
  else if c = horizontalTab then { p with column := p.column + 4 }
  else if c = backspace then { p with column := p.column - 1 }
  else
    { p with
      cell := fun r k => if r = p.row ∧ k = p.column then ⟨c, 7⟩ else p.cell r k
      column := p.column + 1 }

/-- Past the last column the cursor goes on in the next row. -/
def Page.wrap (p : Page) : Page :=
  if p.column > 79 then { p with row := p.row + 1, column := p.column - 80 } else p

def Page.type (p : Page) (c : UInt8) : Page := (p.move c).wrap

/-- The first of the last 25 rows reached. -/
def Page.top (p : Page) : Nat := p.row - 24

end Atros
