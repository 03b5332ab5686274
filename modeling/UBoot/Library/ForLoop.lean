import Mathlib.Tactic

/-!
Counted loops that may be left for good: `for (i = start; i < limit; i = next i)`. A part of a program
goes on with a state, or stops; without a result its fuel has not been enough.
-/

namespace UBoot.Library.ForLoop

universe u v
variable {State : Type u} {Stop : Type v}

abbrev Part (State : Type u) (Stop : Type v) := Option (State ⊕ Stop)

/-- The part has a result, and this is as it should be. -/
def Gives (after : State → Prop) (stopped : Stop → Prop) (part : Part State Stop) : Prop :=
  ∃ result, part = some result ∧ result.elim after stopped

/-- One part behind another. -/
def andThen (part : Part State Stop) (rest : State → Part State Stop) : Part State Stop :=
  match part with
  | none => none
  | some (.inl state) => rest state
  | some (.inr stop) => some (.inr stop)

def forLoop (limit : Nat) (next : Nat → Nat) (body : Nat → State → Part State Stop) :
    (fuel i : Nat) → State → Part State Stop
  | 0, _, _ => none
  | fuel + 1, i, state =>
      if i < limit then andThen (body i state) (forLoop limit next body fuel (next i))
      else some (.inl state)

section Rules
variable {after : State → Prop} {stopped : Stop → Prop} {part : Part State Stop}

theorem gives_state {state : State} (holds : after state) :
    Gives after stopped (some (.inl state) : Part State Stop) := ⟨_, rfl, holds⟩

theorem gives_stop {stop : Stop} (holds : stopped stop) :
    Gives after stopped (some (.inr stop) : Part State Stop) := ⟨_, rfl, holds⟩

theorem gives_then (middle : State → Prop) {rest : State → Part State Stop} (first : Gives middle stopped part)
    (second : ∀ state, middle state → Gives after stopped (rest state)) :
    Gives after stopped (andThen part rest) := by
  obtain ⟨result, rfl, holds⟩ := first
  cases result with
  | inl state => exact second state holds
  | inr stop => exact gives_stop holds

theorem gives_weaken (middle : State → Prop) (first : Gives middle stopped part) (wide : ∀ state, middle state → after state) :
    Gives after stopped part := by
  obtain ⟨result, rfl, holds⟩ := first
  cases result with
  | inl state => exact gives_state (wide state holds)
  | inr stop => exact gives_stop holds

/-- A loop that keeps an invariant comes to its limit, unless it is left. -/
theorem for_gives {limit : Nat} {next : Nat → Nat} {body : Nat → State → Part State Stop}
    (invariant : Nat → State → Prop)
    (keeps : ∀ i state, i < limit → invariant i state →
      i < next i ∧ Gives (invariant (next i)) stopped (body i state))
    {fuel i : Nat} {state : State} (enough : limit - i < fuel) (start : invariant i state) :
    Gives (fun state => ∃ last, limit ≤ last ∧ invariant last state) stopped
      (forLoop limit next body fuel i state) := by
  induction fuel generalizing i state with
  | zero => omega
  | succ fuel ih =>
      rw [forLoop]
      by_cases more : i < limit
      · obtain ⟨further, first⟩ := keeps i state more start
        rw [if_pos more]
        apply gives_then _ first
        intro state kept
        exact ih (by omega) kept
      · rw [if_neg more]
        exact gives_state ⟨i, Nat.not_lt.mp more, start⟩

end Rules

section Counters
variable {modulus limit : Nat} {body : Nat → State → Part State Stop} {step : State → State} {state : State}

/-- A limit below the modulus of the counter: so many steps. -/
theorem for_counted (small : limit < modulus) (steps : ∀ i state, body i state = some (.inl (step state)))
    {fuel i : Nat} (enough : limit - i < fuel) (below : i ≤ limit) :
    forLoop limit (fun i => (i + 1) % modulus) body fuel i state = some (.inl (step^[limit - i] state)) := by
  induction fuel generalizing i state with
  | zero => omega
  | succ fuel ih =>
      rw [forLoop]
      by_cases more : i < limit
      · have next : (i + 1) % modulus = i + 1 := Nat.mod_eq_of_lt (by omega)
        have count : limit - i = limit - (i + 1) + 1 := by omega
        rw [if_pos more, steps, andThen, next, ih (by omega) (by omega), count, Function.iterate_succ_apply]
      · have none_left : limit - i = 0 := by omega
        rw [if_neg more, none_left, Function.iterate_zero_apply]

/-- With any fuel, a counted loop has no other result. -/
theorem for_result (small : limit < modulus)
    (steps : ∀ i state, body i state = none ∨ body i state = some (.inl (step state))) {fuel i : Nat} (below : i ≤ limit) :
    forLoop limit (fun i => (i + 1) % modulus) body fuel i state = none ∨
      forLoop limit (fun i => (i + 1) % modulus) body fuel i state = some (.inl (step^[limit - i] state)) := by
  induction fuel generalizing i state with
  | zero => exact Or.inl rfl
  | succ fuel ih =>
      rw [forLoop]
      by_cases more : i < limit
      · have next : (i + 1) % modulus = i + 1 := Nat.mod_eq_of_lt (by omega)
        have count : limit - i = limit - (i + 1) + 1 := by omega
        rw [if_pos more, next, count, Function.iterate_succ_apply]
        rcases steps i state with stuck | goes_on
        · rw [stuck]
          exact Or.inl rfl
        · rw [goes_on]
          exact ih (by omega)
      · have none_left : limit - i = 0 := by omega
        rw [if_neg more, none_left]
        exact Or.inr rfl

/-- A counter that never comes to the limit. -/
theorem for_endless (wide : modulus ≤ limit) (goes_on : ∀ i state stop, body i state ≠ some (.inr stop))
    {fuel i : Nat} (below : i < modulus) :
    forLoop limit (fun i => (i + 1) % modulus) body fuel i state = none := by
  induction fuel generalizing i state with
  | zero => rfl
  | succ fuel ih =>
      rw [forLoop, if_pos (by omega)]
      cases first : body i state with
      | none => rfl
      | some result =>
          cases result with
          | inl after => exact ih (Nat.mod_lt _ (by omega))
          | inr stop => exact absurd first (goes_on i state stop)

/-- A loop whose first step has no result. -/
theorem for_stuck {next : Nat → Nat} {i : Nat} (more : i < limit) (stuck : body i state = none) (fuel : Nat) :
    forLoop limit next body fuel i state = none := by
  cases fuel with
  | zero => rfl
  | succ fuel => rw [forLoop, if_pos more, stuck, andThen]

end Counters

/-! ### Sweeps -/

/-- Every `unit`-th offset below the stride, and from each offset in strides to the limit: the counters
are machine words below `modulus`. The body is given the offset too. -/
def sweep (modulus unit stride limit fuel : Nat) (body : Nat → Nat → State → Part State Stop) (state : State) :
    Part State Stop :=
  forLoop stride (fun offset => (offset + unit) % modulus)
    (fun offset => forLoop limit (fun i => (i + stride) % modulus) (body offset) fuel offset) fuel 0 state

/-- What a sweep has to visit. -/
def units (unit limit : Nat) : Set Nat := {k | k < limit ∧ unit ∣ k}

/-- What it has visited of these, with its counters at `offset` and `i`. -/
def visited (unit stride limit offset i : Nat) : Set Nat :=
  {k | k ∈ units unit limit ∧ (k % stride < offset ∨ k % stride = offset ∧ k < i)}

section Sweeps
variable {modulus unit stride limit offset i k : Nat}

theorem offset_not_visited (rest : i % stride = offset) : i ∉ visited unit stride limit offset i := by
  rintro ⟨-, below | at_offset⟩
  · omega
  · omega

theorem visited_next (below : offset < stride) (within : i < limit) (unit_divides : unit ∣ i)
    (rest : i % stride = offset) :
    visited unit stride limit offset (i + stride) = insert i (visited unit stride limit offset i) := by
  ext k
  constructor
  · rintro ⟨inside, lower | ⟨same, before⟩⟩
    · exact Or.inr ⟨inside, Or.inl lower⟩
    · rcases Nat.lt_trichotomy k i with less | rfl | more
      · exact Or.inr ⟨inside, Or.inr ⟨same, less⟩⟩
      · exact Or.inl rfl
      · have apart : stride ∣ k - i :=
          (Nat.modEq_iff_dvd' more.le).mp (by rw [Nat.ModEq, rest, same])
        have far : stride ≤ k - i := Nat.le_of_dvd (by omega) apart
        omega
  · rintro (rfl | ⟨inside, seen⟩)
    · exact ⟨⟨within, unit_divides⟩, Or.inr ⟨rest, by omega⟩⟩
    · exact ⟨inside, by omega⟩

theorem visited_start : visited unit stride limit 0 0 = ∅ := by
  apply Set.eq_empty_of_forall_notMem
  rintro k ⟨-, lower | at_offset⟩
  · omega
  · omega

/-- Behind the last unit with one offset the next offset begins. -/
theorem visited_offset (unit_stride : unit ∣ stride) (unit_offset : unit ∣ offset) (over_limit : limit ≤ i)
    (positive : 0 < unit) :
    visited unit stride limit offset i = visited unit stride limit (offset + unit) (offset + unit) := by
  ext k
  constructor
  · rintro ⟨inside, seen⟩
    exact ⟨inside, by omega⟩
  · rintro ⟨inside, lower | ⟨same, before⟩⟩
    · have unit_rest : unit ∣ k % stride := (Nat.dvd_mod_iff unit_stride).mpr inside.2
      have spread : k % stride ≤ offset := by
        obtain ⟨a, first⟩ := unit_rest
        obtain ⟨b, second⟩ := unit_offset
        rw [first, second, ← Nat.mul_succ] at lower
        rw [first, second]
        exact Nat.mul_le_mul_left unit (Nat.le_of_lt_succ (Nat.lt_of_mul_lt_mul_left lower))
      have inside_limit : k < limit := inside.1
      exact ⟨inside, by omega⟩
    · have : k % stride ≤ k := Nat.mod_le k stride
      omega

theorem visited_end (positive : 0 < stride) (over_stride : stride ≤ offset) :
    visited unit stride limit offset i = units unit limit := by
  ext k
  constructor
  · rintro ⟨inside, -⟩
    exact inside
  · intro inside
    have : k % stride < stride := Nat.mod_lt k positive
    exact ⟨inside, Or.inl (by omega)⟩

/-- A sweep visits every unit once: an invariant over the units visited has to be kept by the body at a
unit that has not been visited yet. -/
theorem sweep_gives {stopped : Stop → Prop} {fuel : Nat} {body : Nat → Nat → State → Part State Stop}
    (invariant : Set Nat → State → Prop) (positive : 0 < unit) (unit_stride : unit ∣ stride)
    (room : 0 < stride) (no_wrap : limit + stride ≤ modulus) (less : stride ≤ limit)
    (keeps : ∀ offset i seen state, i < limit → unit ∣ i → i ∉ seen → invariant seen state →
      Gives (invariant (insert i seen)) stopped (body offset i state))
    (enough : limit < fuel) {state : State} (start : invariant ∅ state) :
    Gives (invariant (units unit limit)) stopped (sweep modulus unit stride limit fuel body state) := by
  have unit_le : unit ≤ stride := Nat.le_of_dvd room unit_stride
  apply gives_weaken (fun state => ∃ last, stride ≤ last ∧
    (unit ∣ last ∧ invariant (visited unit stride limit last last) state))
  · apply for_gives
    · intro offset state below holds
      obtain ⟨unit_offset, seen⟩ := holds
      have next_offset : (offset + unit) % modulus = offset + unit := Nat.mod_eq_of_lt (by omega)
      rw [next_offset]
      refine ⟨by omega, ?_⟩
      apply gives_weaken (fun state => ∃ last, limit ≤ last ∧ ((unit ∣ last ∧ last % stride = offset)
        ∧ invariant (visited unit stride limit offset last) state))
      · apply for_gives
        · intro i state within holds
          obtain ⟨⟨unit_i, rest⟩, seen⟩ := holds
          have next_i : (i + stride) % modulus = i + stride := Nat.mod_eq_of_lt (by omega)
          rw [next_i]
          refine ⟨by omega, ?_⟩
          apply gives_weaken _ (keeps offset i _ state within unit_i (offset_not_visited rest) seen)
          intro after kept
          rw [← visited_next below within unit_i rest] at kept
          exact ⟨⟨Nat.dvd_add unit_i unit_stride, by rw [Nat.add_mod_right, rest]⟩, kept⟩
        · omega
        · exact ⟨⟨unit_offset, Nat.mod_eq_of_lt below⟩, seen⟩
      · rintro after ⟨last, over_limit, -, kept⟩
        rw [visited_offset unit_stride unit_offset over_limit positive] at kept
        exact ⟨Nat.dvd_add unit_offset (Nat.dvd_refl unit), kept⟩
    · omega
    · exact ⟨Nat.dvd_zero unit, by rw [visited_start]; exact start⟩
  · rintro after ⟨last, over_stride, -, kept⟩
    rw [visited_end room over_stride] at kept
    exact kept

end Sweeps

end UBoot.Library.ForLoop
