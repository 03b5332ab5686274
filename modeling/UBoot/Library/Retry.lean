import Mathlib.Tactic

/-!
Attempts that are repeated until one of them is good, and at most so often.
-/

namespace UBoot.Library.Retry

variable {good : Nat → Bool}

/-- The first good one of `count` attempts from `start` on. -/
def firstGood (good : Nat → Bool) : (count start : Nat) → Option Nat
  | 0, _ => none
  | count + 1, start => if good start then some start else firstGood good count (start + 1)

theorem first_good_here {count start : Nat} (here : good start = true) :
    firstGood good (count + 1) start = some start := by
  rw [firstGood, if_pos here]

theorem first_good_later {count start : Nat} (failed : good start = false) :
    firstGood good (count + 1) start = firstGood good count (start + 1) := by
  rw [firstGood, if_neg (ne_true_of_eq_false failed)]

/-- It is good, and it is one of them. -/
theorem first_good_spec {count start found : Nat} (first : firstGood good count start = some found) :
    good found = true ∧ start ≤ found ∧ found < start + count := by
  induction count generalizing start with
  | zero => cases first
  | succ count ih =>
      cases here : good start with
      | true =>
          rw [first_good_here here] at first
          cases first
          exact ⟨here, Nat.le_refl _, by omega⟩
      | false =>
          rw [first_good_later here] at first
          obtain ⟨holds, after, before⟩ := ih first
          exact ⟨holds, by omega, by omega⟩

/-- There is none exactly where all of them fail. -/
theorem first_good_none_iff {count start : Nat} :
    firstGood good count start = none ↔
      ∀ attempt, start ≤ attempt → attempt < start + count → good attempt = false := by
  induction count generalizing start with
  | zero => exact iff_of_true rfl fun attempt after before => by omega
  | succ count ih =>
      cases here : good start with
      | true =>
          rw [first_good_here here]
          refine iff_of_false nofun fun all => ?_
          exact absurd (here.symm.trans (all start (Nat.le_refl _) (by omega))) (by decide)
      | false =>
          rw [first_good_later here, ih]
          constructor
          · intro later attempt after before
            by_cases same : attempt = start
            · rw [same, here]
            · exact later attempt (by omega) (by omega)
          · exact fun all attempt after before => all attempt (by omega) (by omega)

end UBoot.Library.Retry
