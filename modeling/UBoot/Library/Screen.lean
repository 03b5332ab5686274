import Mathlib.Tactic

/-!
A terminal: cells in rows and columns, and a cursor that is on one of them.
-/

namespace UBoot.Library.Screen

universe u

structure Terminal (rows cols : Nat) (Cell : Type u) where
  cells : Nat → Nat → Cell
  row : Nat
  col : Nat
  row_lt : row < rows
  col_lt : col < cols

variable {rows cols : Nat} {Cell : Type u}

def setCell (cells : Nat → Nat → Cell) (row col : Nat) (cell : Cell) : Nat → Nat → Cell :=
  fun r c => if r = row ∧ c = col then cell else cells r c

/-- Everything has gone up by one row, and the last is blank. -/
def scrolled (rows : Nat) (blank : Cell) (cells : Nat → Nat → Cell) : Nat → Nat → Cell :=
  fun r c => if r + 1 < rows then cells (r + 1) c else blank

namespace Terminal
variable (terminal : Terminal rows cols Cell)

def carriageReturn : Terminal rows cols Cell :=
  { terminal with col := 0, col_lt := Nat.zero_lt_of_lt terminal.col_lt }

def newLine (blank : Cell) : Terminal rows cols Cell :=
  if below : terminal.row + 1 < rows then
    { terminal with
      row := terminal.row + 1, row_lt := below
      col := 0, col_lt := Nat.zero_lt_of_lt terminal.col_lt }
  else
    { terminal with
      cells := scrolled rows blank terminal.cells
      col := 0, col_lt := Nat.zero_lt_of_lt terminal.col_lt }

/-- On to the next multiple of 8, or to a new line. -/
def tab (blank : Cell) : Terminal rows cols Cell :=
  if right : 8 * (terminal.col / 8 + 1) < cols then
    { terminal with col := 8 * (terminal.col / 8 + 1), col_lt := right }
  else terminal.newLine blank

/-- Back by one cell, which is blank then; there is none before the first. -/
def back (blank : Cell) : Terminal rows cols Cell :=
  if 0 < terminal.col then
    { terminal with
      cells := setCell terminal.cells terminal.row (terminal.col - 1) blank
      col := terminal.col - 1, col_lt := Nat.lt_of_le_of_lt (Nat.sub_le _ _) terminal.col_lt }
  else if 0 < terminal.row then
    { cells := setCell terminal.cells (terminal.row - 1) (cols - 1) blank
      row := terminal.row - 1, row_lt := Nat.lt_of_le_of_lt (Nat.sub_le _ _) terminal.row_lt
      col := cols - 1, col_lt := Nat.sub_lt (Nat.zero_lt_of_lt terminal.col_lt) Nat.one_pos }
  else terminal

def put (blank cell : Cell) : Terminal rows cols Cell :=
  let written := { terminal with cells := setCell terminal.cells terminal.row terminal.col cell }
  if right : terminal.col + 1 < cols then { written with col := terminal.col + 1, col_lt := right }
  else written.newLine blank

end Terminal

end UBoot.Library.Screen
