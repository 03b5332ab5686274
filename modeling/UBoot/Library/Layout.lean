import Mathlib.Tactic

/-!
Pieces that are laid one behind the other, in an address space that wraps.
-/

namespace UBoot.Library.Layout

/-- Where the pieces start. -/
def starts (first : Nat) : List Nat → List Nat
  | [] => []
  | size :: rest => first :: starts (first + size) rest

theorem starts_length (first : Nat) (sizes : List Nat) : (starts first sizes).length = sizes.length := by
  induction sizes generalizing first with
  | nil => rfl
  | cons size rest ih => rw [starts, List.length_cons, ih, List.length_cons]

theorem starts_append (first : Nat) (sizes others : List Nat) :
    starts first (sizes ++ others) = starts first sizes ++ starts (first + sizes.sum) others := by
  induction sizes generalizing first with
  | nil => rfl
  | cons size rest ih =>
      rw [List.cons_append, starts, starts, ih, List.sum_cons, List.cons_append, Nat.add_assoc]

/-- The addresses ascend exactly where none of the starts wraps, and no piece but the last one is
empty. -/
theorem ascending_iff {wrap first : Nat} {sizes : List Nat} (inside : first < wrap)
    (small : ∀ size ∈ sizes, size < wrap) :
    ((starts first sizes).map (· % wrap)).Pairwise (· < ·) ↔
      (∀ start ∈ starts first sizes, start < wrap) ∧ ∀ size ∈ sizes.dropLast, 0 < size := by
  rw [← List.isChain_iff_pairwise]
  induction sizes generalizing first with
  | nil => simp [starts]
  | cons size rest ih =>
      obtain ⟨less, others⟩ := List.forall_mem_cons.mp small
      cases rest with
      | nil => simp [starts, inside]
      | cons other rest =>
          have wrapped : (first + size) % wrap = first + size ∨
              (first + size) % wrap < first ∧ wrap ≤ first + size := by
            by_cases below : first + size < wrap
            · exact Or.inl (Nat.mod_eq_of_lt below)
            · have beyond : (first + size) % wrap = first + size - wrap := by
                rw [Nat.mod_eq_sub_mod (Nat.le_of_not_lt below), Nat.mod_eq_of_lt (by omega)]
              exact Or.inr ⟨by omega, Nat.le_of_not_lt below⟩
          have chain : ((starts first (size :: other :: rest)).map (· % wrap)).IsChain (· < ·) ↔
              first % wrap < (first + size) % wrap ∧
                ((starts (first + size) (other :: rest)).map (· % wrap)).IsChain (· < ·) :=
            List.isChain_cons_cons
          have head : first + size ∈ starts (first + size) (other :: rest) := List.mem_cons_self
          have places : (∀ start ∈ starts first (size :: other :: rest), start < wrap) ↔
              first < wrap ∧ ∀ start ∈ starts (first + size) (other :: rest), start < wrap :=
            List.forall_mem_cons
          rw [chain, places, Nat.mod_eq_of_lt inside, List.dropLast_cons_cons, List.forall_mem_cons]
          rcases wrapped with same | ⟨under, beyond⟩
          · have below : first + size < wrap := same ▸ Nat.mod_lt _ (Nat.zero_lt_of_lt inside)
            rw [ih below others, same]
            constructor
            · rintro ⟨more, within, positive⟩
              exact ⟨⟨inside, within⟩, by omega, positive⟩
            · rintro ⟨⟨-, within⟩, more, positive⟩
              exact ⟨by omega, within, positive⟩
          · refine iff_of_false (fun both => absurd both.1 (by omega)) fun both => ?_
            exact absurd (both.1.2 _ head) (Nat.not_lt.mpr beyond)

end UBoot.Library.Layout
