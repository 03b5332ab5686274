import Mathlib.Logic.Function.Basic
import Mathlib.Tactic

/-!
Cells that are reached through addresses. Two addresses may stand for one cell, and an address may
stand for none. Writing back what the cells held, the last write first, undoes the writes.
-/

namespace UBoot.Library.UndoLog

universe u v w
variable {Address : Type u} {Cell : Type v} {Value : Type w} [DecidableEq Cell]
variable (place : Address → Option Cell)

def put (cells : Cell → Value) (address : Address) (value : Value) : Cell → Value :=
  match place address with
  | some cell => Function.update cells cell value
  | none => cells

/-- Writes back the entries of a log, whose first entry is the newest one. -/
def undo : List (Address × Value) → (Cell → Value) → Cell → Value
  | [], cells => cells
  | entry :: older, cells => undo older (put place cells entry.1 entry.2)

def Logged (log : List (Address × Value)) (cell : Cell) : Prop :=
  ∃ entry ∈ log, place entry.1 = some cell

/-- The log takes its cells back to what they held, from any later contents. -/
def Undoes (log : List (Address × Value)) (before : Cell → Value) : Prop :=
  ∀ cells cell, (Logged place log cell → undo place log cells cell = before cell) ∧
    (¬ Logged place log cell → undo place log cells cell = cells cell)

variable {place}

theorem put_same {address : Address} {cell : Cell} (there : place address = some cell)
    (cells : Cell → Value) (value : Value) : put place cells address value cell = value := by
  rw [put, there]
  exact Function.update_self cell value cells

theorem put_other {address : Address} {cell : Cell} (other : place address ≠ some cell)
    (cells : Cell → Value) (value : Value) : put place cells address value cell = cells cell := by
  unfold put
  cases there : place address with
  | none => rfl
  | some written =>
      rw [there] at other
      exact Function.update_of_ne (fun same => other (congrArg some same.symm)) value cells

omit [DecidableEq Cell] in
theorem logged_cons {entry : Address × Value} {log : List (Address × Value)} {cell : Cell} :
    Logged place (entry :: log) cell ↔ place entry.1 = some cell ∨ Logged place log cell := by
  simp only [Logged, List.mem_cons, exists_eq_or_imp]

theorem undoes_nil (before : Cell → Value) : Undoes place [] before :=
  fun _ _ => ⟨fun ⟨_, member, _⟩ => absurd member List.not_mem_nil, fun _ => rfl⟩

/-- One write more: what its cell held stands in front of the log. -/
theorem undoes_cons {log : List (Address × Value)} {before cells : Cell → Value}
    (undoes : Undoes place log before) (kept : ∀ cell, ¬ Logged place log cell → cells cell = before cell)
    {address : Address} {value : Value}
    (saved : ∀ cell, place address = some cell → value = cells cell) :
    Undoes place ((address, value) :: log) before := by
  intro later cell
  obtain ⟨back, rest⟩ := undoes (put place later address value) cell
  constructor
  · intro logged
    by_cases older : Logged place log cell
    · exact back older
    · have here := (logged_cons.mp logged).resolve_right older
      refine (rest older).trans ?_
      rw [put_same here, saved cell here, kept cell older]
  · intro unlogged
    have older : ¬ Logged place log cell := fun logged => unlogged (logged_cons.mpr (Or.inr logged))
    refine (rest older).trans (put_other ?_ later value)
    exact fun here => unlogged (logged_cons.mpr (Or.inl here))

end UBoot.Library.UndoLog
