import Mathlib.Tactic

/-!
A loop whose body either goes on with a new state or leaves with a result. A
loop may run for ever, so its meaning is whether some number of rounds ends it,
and with what result.
-/

namespace UBoot.Library.Loop

universe u v
variable {State : Type u} {Result : Type v} (step : State → State ⊕ Result)

def run : (fuel : Nat) → State → Option Result
  | 0, _ => none
  | fuel + 1, state =>
      match step state with
      | .inl next => run fuel next
      | .inr result => some result

def Ends (state : State) (result : Result) : Prop := ∃ fuel, run step fuel state = some result

/-- The loop comes from one state to the other. -/
def Leads (first last : State) : Prop := ∃ fuel, ∀ more, run step (fuel + more) first = run step more last

variable {step}

theorem run_next {state next : State} (goes : step state = .inl next) (fuel : Nat) :
    run step (fuel + 1) state = run step fuel next := by
  simp only [run, goes]

theorem run_add {fuel : Nat} {state : State} {result : Result}
    (ended : run step fuel state = some result) (more : Nat) :
    run step (fuel + more) state = some result := by
  induction fuel generalizing state with
  | zero => cases ended
  | succ fuel ih =>
      rw [Nat.succ_add]
      cases body : step state with
      | inl next =>
          rw [run_next body] at ended ⊢
          exact ih ended
      | inr left =>
          simp only [run, body] at ended ⊢
          exact ended

theorem ends_unique {state : State} {left right : Result} (one : Ends step state left)
    (other : Ends step state right) : left = right := by
  obtain ⟨fuel, one⟩ := one
  obtain ⟨more, other⟩ := other
  have long := run_add one more
  rw [Nat.add_comm, run_add other fuel] at long
  exact (Option.some.inj long).symm

theorem ends_same {one other : State} (same : step one = step other) (result : Result) :
    Ends step one result ↔ Ends step other result := by
  have rounds : ∀ fuel, run step fuel one = run step fuel other := by
    intro fuel
    cases fuel with
    | zero => rfl
    | succ fuel => simp only [run, same]
  unfold Ends
  simp only [rounds]

theorem leads_refl (state : State) : Leads step state state :=
  ⟨0, fun more => by rw [Nat.zero_add]⟩

theorem leads_step {state next : State} (goes : step state = .inl next) : Leads step state next := by
  refine ⟨1, fun more => ?_⟩
  rw [Nat.add_comm, run_next goes]

theorem leads_trans {first middle last : State} (front : Leads step first middle)
    (back : Leads step middle last) : Leads step first last := by
  obtain ⟨early, front⟩ := front
  obtain ⟨late, back⟩ := back
  refine ⟨early + late, fun more => ?_⟩
  rw [Nat.add_assoc, front, back]

theorem ends_done {state : State} {result : Result} (leaves : step state = .inr result) :
    Ends step state result := by
  refine ⟨1, ?_⟩
  simp only [run, leaves]

theorem ends_leads {first last : State} {result : Result} (front : Leads step first last)
    (back : Ends step last result) : Ends step first result := by
  obtain ⟨early, front⟩ := front
  obtain ⟨late, back⟩ := back
  exact ⟨early + late, by rw [front, back]⟩

theorem ends_step {state next : State} {result : Result} (goes : step state = .inl next)
    (back : Ends step next result) : Ends step state result :=
  ends_leads (leads_step goes) back

/-- What ends the loop from a state also ends it from where that state leads. -/
theorem leads_ends {first last : State} {result : Result} (front : Leads step first last)
    (whole : Ends step first result) : Ends step last result := by
  obtain ⟨early, front⟩ := front
  obtain ⟨fuel, whole⟩ := whole
  refine ⟨fuel, ?_⟩
  rw [← front, Nat.add_comm]
  exact run_add whole early

/-- A loop that keeps an invariant ends with a result that the invariant allows. -/
theorem ends_keeps (invariant : State → Prop) (allowed : Result → Prop)
    (goes : ∀ state next, invariant state → step state = .inl next → invariant next)
    (leaves : ∀ state result, invariant state → step state = .inr result → allowed result)
    {state : State} {result : Result} (start : invariant state) (ended : Ends step state result) :
    allowed result := by
  obtain ⟨fuel, ended⟩ := ended
  induction fuel generalizing state with
  | zero => cases ended
  | succ fuel ih =>
      cases body : step state with
      | inl next =>
          rw [run_next body] at ended
          exact ih (goes state next start body) ended
      | inr left =>
          simp only [run, body] at ended
          cases ended
          exact leaves state _ start body

/-- A loop that always goes on from the states of an invariant never ends. -/
theorem never_ends (invariant : State → Prop)
    (goes : ∀ state, invariant state → ∃ next, step state = .inl next ∧ invariant next)
    {state : State} (start : invariant state) (result : Result) : ¬ Ends step state result := by
  intro ended
  refine ends_keeps invariant (fun _ => False) ?_ ?_ start ended
  · intro state next holds body
    obtain ⟨other, taken, kept⟩ := goes state holds
    rw [taken] at body
    cases body
    exact kept
  · intro state left holds body
    obtain ⟨other, taken, -⟩ := goes state holds
    rw [taken] at body
    cases body

/-- The states that a loop comes through, whether it ends or not. -/
inductive Reaches (step : State → State ⊕ Result) (first : State) : State → Prop where
  | start : Reaches step first first
  | next {state next : State} : Reaches step first state → step state = .inl next →
      Reaches step first next

theorem reaches_keeps (invariant : State → Prop)
    (goes : ∀ state next, invariant state → step state = .inl next → invariant next)
    {first last : State} (start : invariant first) (reached : Reaches step first last) :
    invariant last := by
  induction reached with
  | start => exact start
  | next _ body inductive_hypothesis => exact goes _ _ inductive_hypothesis body

theorem reaches_ends {first last : State} {result : Result} (reached : Reaches step first last)
    (ended : Ends step first result) : Ends step last result := by
  induction reached with
  | start => exact ended
  | next _ goes inductive_hypothesis => exact leads_ends (leads_step goes) inductive_hypothesis

/-- A loop that ends leaves from a state that it reaches. -/
theorem ends_reaches {first : State} {result : Result} (ended : Ends step first result) :
    ∃ last, Reaches step first last ∧ step last = .inr result := by
  refine ends_keeps (Reaches step first)
    (fun result => ∃ last, Reaches step first last ∧ step last = .inr result) ?_ ?_ .start ended
  · exact fun state next reached goes => .next reached goes
  · exact fun state result reached leaves => ⟨state, reached, leaves⟩

/-- A loop ends where every round makes a measure smaller. -/
theorem ends_measure (invariant : State → Prop) (measure : State → Nat)
    (goes : ∀ state next, invariant state → step state = .inl next →
      invariant next ∧ measure next < measure state)
    {state : State} (start : invariant state) : ∃ result, Ends step state result := by
  generalize bound : measure state = n
  induction n using Nat.strong_induction_on generalizing state with
  | h n inductive_hypothesis =>
      cases body : step state with
      | inl next =>
          obtain ⟨kept, smaller⟩ := goes state next start body
          obtain ⟨result, ended⟩ := inductive_hypothesis (measure next) (bound ▸ smaller) kept rfl
          exact ⟨result, ends_step body ended⟩
      | inr result => exact ⟨result, ends_done body⟩

end UBoot.Library.Loop
