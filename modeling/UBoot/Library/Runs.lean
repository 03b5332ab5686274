import Mathlib.Tactic

/-!
Finite runs of a labelled transition relation, with the induction rules the
other modules use. `Guarded` restricts every step of a run by a condition on
the state before the step and the label, so a law that fails in general can be
stated for exactly those runs whose steps all meet the condition.
-/

namespace UBoot.Library.Runs

universe u v
variable {State : Type u} {Event : Type v}

inductive Run (step : State → Event → State → Prop) : State → List Event → State → Prop where
  | refl (state) : Run step state [] state
  | next {before middle after : State} {event : Event} {rest : List Event} :
      step before event middle → Run step middle rest after →
      Run step before (event :: rest) after

/-- The step relation of a deterministic machine. -/
def stepOf (next : State → Event → State) (before : State) (event : Event) (after : State) :
    Prop := after = next before event

def Guarded (guard : State → Event → Prop) (step : State → Event → State → Prop)
    (before : State) (event : Event) (after : State) : Prop :=
  guard before event ∧ step before event after

theorem run_preserves (step : State → Event → State → Prop) (invariant : State → Prop)
    (keeps : ∀ before event after, invariant before → step before event after → invariant after)
    {before after : State} {events : List Event} (run : Run step before events after)
    (initial : invariant before) : invariant after := by
  induction run with
  | refl => exact initial
  | next first _ ih => exact ih (keeps _ _ _ initial first)

theorem run_append {step : State → Event → State → Prop} {first middle last : State}
    {front back : List Event} (one : Run step first front middle) (other : Run step middle back last) :
    Run step first (front ++ back) last := by
  induction one with
  | refl => exact other
  | next step _ ih => exact Run.next step (ih other)

/-- A deterministic machine runs through any events. -/
theorem run_foldl (next : State → Event → State) (events : List Event) (start : State) :
    Run (stepOf next) start events (events.foldl next start) := by
  induction events generalizing start with
  | nil => exact Run.refl start
  | cons event rest ih => exact Run.next rfl (ih (next start event))

theorem unguarded {guard : State → Event → Prop} {step : State → Event → State → Prop}
    {first last : State} {events : List Event} (run : Run (Guarded guard step) first events last) :
    Run step first events last := by
  induction run with
  | refl state => exact Run.refl state
  | next step _ ih => exact Run.next step.2 ih

/-- The runs of a deterministic machine end where it takes them. -/
theorem run_end {next : State → Event → State} {first last : State} {events : List Event}
    (run : Run (stepOf next) first events last) : last = events.foldl next first := by
  induction run with
  | refl => rfl
  | next step _ ih =>
      rw [ih, show _ = next _ _ from step]
      rfl

/-- The guard along the run of a deterministic machine, to be computed. -/
def Passes (guard : State → Event → Prop) (next : State → Event → State) : State → List Event → Prop
  | _, [] => True
  | state, event :: rest => guard state event ∧ Passes guard next (next state event) rest

instance decidePasses (guard : State → Event → Prop) (next : State → Event → State)
    [∀ state event, Decidable (guard state event)] :
    ∀ state events, Decidable (Passes guard next state events)
  | _, [] => isTrue trivial
  | state, event :: rest =>
      @instDecidableAnd _ _ _ (decidePasses guard next (next state event) rest)

theorem run_passes (guard : State → Event → Prop) (next : State → Event → State)
    {events : List Event} {start : State} (passes : Passes guard next start events) :
    Run (Guarded guard (stepOf next)) start events (events.foldl next start) := by
  induction events generalizing start with
  | nil => exact Run.refl start
  | cons event rest ih => exact Run.next ⟨passes.1, rfl⟩ (ih passes.2)

end UBoot.Library.Runs
