import Mathlib.Tactic

/-!
Programs over a state that need not come to an end, and triples of partial
correctness for them: what holds after a program whenever it ends.
-/

namespace UBoot.Library.Programs

universe u
variable {State : Type u} {α β : Type u}

abbrev Program (State : Type u) (α : Type u) := StateT State Option α

def Triple (before : State → Prop) (program : Program State α) (after : α → State → Prop) : Prop :=
  ∀ state value next, before state → program.run state = some (value, next) → after value next

theorem triple_pure (value : α) (after : α → State → Prop) :
    Triple (after value) (pure value) after := by
  intro state result next holds ended
  cases ended
  exact holds

/-- A program that always ends. -/
theorem triple_step {program : Program State α} {before : State → Prop} {after : α → State → Prop}
    (step : State → α × State) (runs : ∀ state, program.run state = some (step state))
    (holds : ∀ state, before state → after (step state).1 (step state).2) :
    Triple before program after := by
  intro state result next start ended
  rw [runs] at ended
  have same : step state = (result, next) := Option.some.inj ended
  have reached := holds state start
  rw [same] at reached
  exact reached

theorem triple_none (before : State → Prop) (after : α → State → Prop) :
    Triple before (fun _ => none : Program State α) after := by
  intro state result next _ ended
  cases ended

theorem triple_bind {before : State → Prop} {first : Program State α} {middle : α → State → Prop}
    {rest : α → Program State β} {after : β → State → Prop} (one : Triple before first middle)
    (other : ∀ value, Triple (middle value) (rest value) after) :
    Triple before (first >>= rest) after := by
  intro state result next holds ended
  cases ran : first.run state with
  | none =>
      rw [StateT.run_bind, ran] at ended
      cases ended
  | some pair =>
      rw [StateT.run_bind, ran] at ended
      exact other pair.1 pair.2 result next (one state pair.1 pair.2 holds ran) ended

theorem triple_weaken {before stronger : State → Prop} {program : Program State α}
    {after weaker : α → State → Prop} (triple : Triple before program after)
    (narrow : ∀ state, stronger state → before state)
    (wide : ∀ value state, after value state → weaker value state) :
    Triple stronger program weaker :=
  fun state value next holds ended => wide value next (triple state value next (narrow state holds) ended)

theorem triple_ite {condition : Prop} [Decidable condition] {before : State → Prop}
    {yes no : Program State α} {after : α → State → Prop}
    (taken : condition → Triple before yes after) (left : ¬ condition → Triple before no after) :
    Triple before (if condition then yes else no) after := by
  split
  · next holds => exact taken holds
  · next fails => exact left fails

/-- A fact that does not depend on the state comes out of the precondition. -/
theorem triple_fact {fact : Prop} {before : State → Prop} {program : Program State α}
    {after : α → State → Prop} (triple : fact → Triple before program after) :
    Triple (fun state => fact ∧ before state) program after :=
  fun state value next holds => triple holds.1 state value next holds.2

end UBoot.Library.Programs
