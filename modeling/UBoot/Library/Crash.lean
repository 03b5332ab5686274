import Mathlib.Tactic

/-!
Sequences of device operations during which the power can fail. `complete` is
the effect of an operation that finishes; `interrupted` relates the states
before and after one that does not.
-/

namespace UBoot.Library.Crash

universe u v
variable {State : Type u} {Op : Type v}

structure Device (State : Type u) (Op : Type v) where
  complete : State → Op → State
  interrupted : State → Op → State → Prop

def runOps (device : Device State Op) (before : State) (ops : List Op) : State :=
  ops.foldl device.complete before

/-- The power fails during `op`; the operations in front of it have completed. -/
def CrashAt (device : Device State Op) : List Op → State → Op → State → Prop
  | [], _, _, _ => False
  | first :: rest, before, op, after =>
      (op = first ∧ device.interrupted before first after) ∨
        CrashAt device rest (device.complete before first) op after

theorem run_ops_append (device : Device State Op) (before : State) (front back : List Op) :
    runOps device before (front ++ back) = runOps device (runOps device before front) back :=
  List.foldl_append

theorem crash_at_append (device : Device State Op) (front back : List Op) (before : State) (op : Op)
    (after : State) : CrashAt device (front ++ back) before op after ↔
      CrashAt device front before op after ∨
        CrashAt device back (runOps device before front) op after := by
  induction front generalizing before with
  | nil => simp [CrashAt, runOps]
  | cons first rest ih =>
      rw [List.cons_append, CrashAt, CrashAt, ih, or_assoc]
      rfl

end UBoot.Library.Crash
