import Mathlib.Tactic

/-!
Comparison functions with a result below, equal to or above zero, on the elements of a domain: those that
order it, and those that only tell equal from different.
-/

namespace UBoot.Library.Compare

variable {Element : Type} {domain : Element → Prop} {compare : Element → Element → Int}

/-- The elements are ordered, and equal ones stand side by side. -/
structure Orders (domain : Element → Prop) (compare : Element → Element → Int) : Prop where
  swap : ∀ a b, domain a → domain b → (compare a b < 0 ↔ 0 < compare b a)
  trans : ∀ a b c, domain a → domain b → domain c →
    compare a b ≤ 0 → compare b c ≤ 0 → compare a c ≤ 0

/-- Zero is an equivalence. -/
structure TestsEqual (domain : Element → Prop) (compare : Element → Element → Int) : Prop where
  refl : ∀ a, domain a → compare a a = 0
  symm : ∀ a b, domain a → domain b → compare a b = 0 → compare b a = 0
  trans : ∀ a b c, domain a → domain b → domain c →
    compare a b = 0 → compare b c = 0 → compare a c = 0

def Sorted (compare : Element → Element → Int) (elements : List Element) : Prop :=
  elements.Pairwise fun a b => compare a b ≤ 0

/-! ### Sorted lists -/

section Ordered
variable {elements : List Element} {item : Element}

theorem not_above_iff (orders : Orders domain compare) {a b : Element} (first : domain a)
    (second : domain b) : compare a b ≤ 0 ↔ 0 ≤ compare b a := by
  have swap := orders.swap b a second first
  omega

/-- What is above an element is above those in front of it. -/
theorem above_earlier (orders : Orders domain compare) (inside : ∀ a ∈ elements, domain a)
    (sorted : Sorted compare elements) (one : domain item) {j k : Nat} (first : j < elements.length)
    (bound : k < elements.length) (earlier : j ≤ k) (above : 0 < compare item elements[k]) :
    0 < compare item elements[j] := by
  have low := inside elements[j] (List.getElem_mem first)
  have high := inside elements[k] (List.getElem_mem bound)
  rcases Nat.eq_or_lt_of_le earlier with rfl | before
  · exact above
  · have step := List.pairwise_iff_getElem.mp sorted j k first bound before
    by_contra other
    have less := orders.trans item elements[j] elements[k] one low high (by omega) step
    omega

theorem below_later (orders : Orders domain compare) (inside : ∀ a ∈ elements, domain a)
    (sorted : Sorted compare elements) (one : domain item) {j k : Nat} (first : j < elements.length)
    (bound : k < elements.length) (later : j ≤ k) (below : compare item elements[j] < 0) :
    compare item elements[k] < 0 := by
  have low := inside elements[j] (List.getElem_mem first)
  have high := inside elements[k] (List.getElem_mem bound)
  rcases Nat.eq_or_lt_of_le later with rfl | behind
  · exact below
  · have step := List.pairwise_iff_getElem.mp sorted j k first bound behind
    by_contra other
    have above := (not_above_iff orders high one).mpr (by omega)
    have reached := (not_above_iff orders low one).mp
      (orders.trans elements[j] elements[k] item low high one step above)
    omega

/-- An item between those below it and those above it keeps the order. -/
theorem insert_sorted (orders : Orders domain compare) (inside : ∀ a ∈ elements, domain a)
    (sorted : Sorted compare elements) (one : domain item) (i : Nat)
    (front : ∀ a ∈ elements.take i, 0 < compare item a)
    (behind : ∀ a ∈ elements.drop i, compare item a < 0) :
    Sorted compare (elements.take i ++ item :: elements.drop i) := by
  unfold Sorted at sorted ⊢
  rw [← List.take_append_drop i elements, List.pairwise_append] at sorted
  obtain ⟨first, second, across⟩ := sorted
  rw [List.pairwise_append, List.pairwise_cons]
  refine ⟨first, ⟨fun a member => (behind a member).le, second⟩, ?_⟩
  intro a member b later
  have known := inside a (List.mem_of_mem_take member)
  rcases List.mem_cons.mp later with rfl | later
  · exact (not_above_iff orders known one).mpr (front a member).le
  · exact across a member b later

end Ordered

/-! ### First occurrences -/

/-- The item is different from all these. -/
def fresh (compare : Element → Element → Int) (front : List Element) (item : Element) : Bool :=
  front.all fun earlier => compare earlier item != 0

/-- The items that are different from all items in front of them. -/
def firsts (compare : Element → Element → Int) : (front items : List Element) → List Element
  | _, [] => []
  | front, item :: rest =>
      if fresh compare front item then item :: firsts compare (front ++ [item]) rest
      else firsts compare (front ++ [item]) rest

/-- Each item that is left takes its equals away. -/
def sweep (compare : Element → Element → Int) : List Element → List Element
  | [] => []
  | item :: rest => item :: sweep compare (rest.filter fun later => compare item later != 0)
  termination_by items => items.length
  decreasing_by simpa using Nat.lt_succ_of_le (List.length_filter_le _ rest)

theorem fresh_append (front : List Element) (item later : Element) :
    fresh compare (front ++ [item]) later = (fresh compare front later && (compare item later != 0)) := by
  simp [fresh]

theorem sweep_filter (equal : TestsEqual domain compare) {front items : List Element}
    (in_front : ∀ a ∈ front, domain a) (inside : ∀ a ∈ items, domain a) :
    sweep compare (items.filter (fresh compare front)) = firsts compare front items := by
  induction items generalizing front with
  | nil => simp [sweep, firsts]
  | cons item rest ih =>
      rw [List.forall_mem_cons] at inside
      have longer : ∀ a ∈ front ++ [item], domain a := by
        simp only [List.forall_mem_append, List.forall_mem_singleton]
        exact ⟨in_front, inside.1⟩
      have next := ih longer inside.2
      rw [firsts]
      by_cases new : fresh compare front item = true
      · rw [if_pos new, List.filter_cons_of_pos new, sweep, List.filter_filter, ← next]
        congr 3
        funext later
        rw [fresh_append, Bool.and_comm]
      · rw [if_neg new, List.filter_cons_of_neg new, ← next]
        congr 1
        apply List.filter_congr
        intro later member
        rw [fresh_append]
        -- an earlier item is equal to this one
        obtain ⟨earlier, place, same⟩ : ∃ earlier ∈ front, compare earlier item = 0 := by
          simpa [fresh] using new
        cases apart : fresh compare front later with
        | false => rfl
        | true =>
            have other := List.all_eq_true.mp apart earlier place
            rw [bne_iff_ne] at other
            symm
            rw [Bool.true_and, bne_iff_ne]
            intro both
            exact other (equal.trans earlier item later (in_front earlier place) inside.1
              (inside.2 later member) same both)

theorem sweep_firsts (equal : TestsEqual domain compare) {items : List Element}
    (inside : ∀ a ∈ items, domain a) : sweep compare items = firsts compare [] items := by
  have whole := sweep_filter equal (fun a member => absurd member List.not_mem_nil) inside
  have all : items.filter (fresh compare []) = items := List.filter_eq_self.mpr fun _ _ => rfl
  rwa [all] at whole

end UBoot.Library.Compare
