import Mathlib.Tactic

/-!
Windows between two address spaces: each takes a range of the one to a range of the same size in the
other. Windows that do not meet on either side are a partial bijection.
-/

namespace UBoot.Library.Windows

structure Window where
  source : Nat
  dest : Nat
  size : Nat
  deriving DecidableEq

def Window.Holds (window : Window) (address : Nat) : Prop :=
  window.source ≤ address ∧ address < window.source + window.size

instance (window : Window) (address : Nat) : Decidable (window.Holds address) :=
  inferInstanceAs (Decidable (_ ∧ _))

/-- The same window in the other direction. -/
def Window.flip (window : Window) : Window := ⟨window.dest, window.source, window.size⟩

def Window.move (window : Window) (address : Nat) : Nat := window.dest + (address - window.source)

/-- No two windows hold one address. -/
def Apart (windows : List Window) : Prop :=
  ∀ one ∈ windows, ∀ other ∈ windows, one ≠ other → ∀ address, one.Holds address → ¬ other.Holds address

def translate (windows : List Window) (address : Nat) : Option Nat :=
  (windows.find? fun window => window.Holds address).map fun window => window.move address

variable {windows : List Window} {window : Window} {address : Nat}

theorem flip_holds (holds : window.Holds address) : window.flip.Holds (window.move address) := by
  simp only [Window.Holds, Window.flip, Window.move] at holds ⊢
  omega

theorem flip_move (holds : window.Holds address) :
    window.flip.move (window.move address) = address := by
  simp only [Window.Holds, Window.flip, Window.move] at holds ⊢
  omega

/-- An address has the window that holds it to go through, and no other. -/
theorem translate_some (apart : Apart windows) (member : window ∈ windows)
    (holds : window.Holds address) : translate windows address = some (window.move address) := by
  cases found : windows.find? fun window => window.Holds address with
  | none =>
      have missed := List.find?_eq_none.mp found window member
      simp [holds] at missed
  | some first =>
      have first_holds : first.Holds address := by
        have taken := List.find?_some found
        exact of_decide_eq_true taken
      have same : first = window := by
        by_contra different
        exact apart first (List.mem_of_find?_eq_some found) window member different address
          first_holds holds
      rw [translate, found, same]
      rfl

theorem translate_none (missed : ∀ window ∈ windows, ¬ window.Holds address) :
    translate windows address = none := by
  have none_found : (windows.find? fun window => window.Holds address) = none :=
    List.find?_eq_none.mpr fun window member => by simpa using missed window member
  rw [translate, none_found]
  rfl

theorem translate_window {result : Nat} (found : translate windows address = some result) :
    ∃ window ∈ windows, window.Holds address ∧ result = window.move address := by
  obtain ⟨window, first, moved⟩ := Option.map_eq_some_iff.mp found
  have taken := List.find?_some first
  exact ⟨window, List.mem_of_find?_eq_some first, of_decide_eq_true taken, moved.symm⟩

theorem apart_single (window : Window) : Apart [window] := by
  intro one first other second different
  rw [List.mem_singleton.mp first, List.mem_singleton.mp second] at different
  exact absurd rfl different

theorem apart_subset {fewer : List Window} (apart : Apart windows) (subset : fewer ⊆ windows) :
    Apart fewer :=
  fun one first other second => apart one (subset first) other (subset second)

/-- What goes through comes back. -/
theorem translate_flip (apart : Apart (windows.map Window.flip)) {result : Nat}
    (found : translate windows address = some result) :
    translate (windows.map Window.flip) result = some address := by
  obtain ⟨window, member, holds, rfl⟩ := translate_window found
  rw [translate_some apart (List.mem_map_of_mem member) (flip_holds holds), flip_move holds]

end UBoot.Library.Windows
