import Mathlib.Tactic
import UBoot.Library.Memory

/-!
NOR flash with a page buffer. A program command carries a start address and data
bytes; it can only clear bits, and a byte past the end of the page that holds the
start address goes to the beginning of that page. Erasing a block sets every bit
of it. `Tiles` says that a list of commands covers an address range once, in
order and without gaps.
-/

namespace UBoot.Library.NorFlash

open Library.Memory

structure Program where
  start : Nat
  data : List UInt8
  deriving DecidableEq

def pageAddress (page start i : Nat) : Nat :=
  start / page * page + (start % page + i) % page

def programByte (mem : Nat → UInt8) (target : Nat) (byte : UInt8) : Nat → UInt8 :=
  fun address => if address = target then mem address &&& byte else mem address

/-- Programs the bytes from the `i`-th one of the command on. -/
def programFrom (page start : Nat) : Nat → List UInt8 → (Nat → UInt8) → (Nat → UInt8)
  | _, [], mem => mem
  | i, byte :: rest, mem =>
      programFrom page start (i + 1) rest (programByte mem (pageAddress page start i) byte)

def program (page : Nat) (mem : Nat → UInt8) (command : Program) : Nat → UInt8 :=
  programFrom page command.start 0 command.data mem

def programAll (page : Nat) (mem : Nat → UInt8) (commands : List Program) : Nat → UInt8 :=
  commands.foldl (program page) mem

def eraseBlock (block : Nat) (mem : Nat → UInt8) (inside : Nat) : Nat → UInt8 :=
  fun address => if address / block = inside / block then 0xff else mem address

def InsidePage (page : Nat) (command : Program) : Prop :=
  command.start % page + command.data.length ≤ page

instance (page : Nat) (command : Program) : Decidable (InsidePage page command) :=
  inferInstanceAs (Decidable (_ ≤ _))

theorem page_address_inside (page start i : Nat) (inside : start % page + i < page) :
    pageAddress page start i = start + i := by
  have split := Nat.div_add_mod' start page
  rw [pageAddress, Nat.mod_eq_of_lt inside]
  omega

theorem program_from_inside (page start i : Nat) (data : List UInt8) (mem : Nat → UInt8)
    (inside : start % page + i + data.length ≤ page) (address : Nat) :
    programFrom page start i data mem address =
      if start + i ≤ address ∧ address < start + i + data.length then
        mem address &&& (data[address - (start + i)]?).getD 0xff
      else mem address := by
  induction data generalizing i mem with
  | nil => simp [programFrom]
  | cons byte rest ih =>
      simp only [List.length_cons] at inside
      rw [programFrom, ih (i + 1) _ (by omega),
        page_address_inside page start i (by omega)]
      by_cases first : address = start + i
      · subst first
        simp [programByte]
      · by_cases later : start + (i + 1) ≤ address ∧ address < start + (i + 1) + rest.length
        · have shift : address - (start + i) = address - (start + (i + 1)) + 1 := by omega
          have covered : start + i ≤ address ∧ address < start + i + (byte :: rest).length := by
            simp only [List.length_cons]
            omega
          rw [if_pos later, if_pos covered, shift]
          simp [programByte, first]
        · have outside : ¬ (start + i ≤ address ∧
              address < start + i + (byte :: rest).length) := by
            simp only [List.length_cons]
            omega
          rw [if_neg later, if_neg outside]
          simp [programByte, first]

theorem program_inside (page : Nat) (mem : Nat → UInt8) (command : Program)
    (inside : InsidePage page command) (address : Nat) :
    program page mem command address =
      if command.start ≤ address ∧ address < command.start + command.data.length then
        mem address &&& (command.data[address - command.start]?).getD 0xff
      else mem address := by
  have result := program_from_inside page command.start 0 command.data mem
    (by simpa [InsidePage] using inside) address
  simpa [program] using result

theorem page_address_same_page (page start i : Nat) (positive : 0 < page) :
    pageAddress page start i / page = start / page := by
  have small := Nat.mod_lt (start % page + i) positive
  rw [pageAddress, Nat.mul_comm, Nat.mul_add_div positive, Nat.div_eq_of_lt small, Nat.add_zero]

theorem program_from_other_page (page start i : Nat) (positive : 0 < page) (data : List UInt8)
    (mem : Nat → UInt8) (address : Nat) (other : address / page ≠ start / page) :
    programFrom page start i data mem address = mem address := by
  induction data generalizing i mem with
  | nil => rfl
  | cons byte rest ih =>
      have apart : address ≠ pageAddress page start i := by
        intro same
        rw [same] at other
        exact other (page_address_same_page page start i positive)
      rw [programFrom, ih]
      exact if_neg apart

/-- Commands leave every page alone in which none of them starts, wrapped or not. -/
theorem program_all_other_page (page : Nat) (positive : 0 < page) (commands : List Program)
    (mem : Nat → UInt8) (address : Nat)
    (other : ∀ command ∈ commands, address / page ≠ command.start / page) :
    programAll page mem commands address = mem address := by
  induction commands generalizing mem with
  | nil => rfl
  | cons command rest ih =>
      have later := ih (program page mem command)
        (fun next member => other next (List.mem_cons_of_mem command member))
      have first := program_from_other_page page command.start 0 positive command.data mem address
        (other command List.mem_cons_self)
      exact later.trans first

/-- The commands write the bytes of `source` to every address of `[start, stop)` in order. -/
def Tiles (source : Nat → UInt8) : Nat → Nat → List Program → Prop
  | start, stop, [] => start = stop
  | start, stop, command :: rest =>
      command.start = start ∧ 0 < command.data.length ∧
        command.data = slice source start command.data.length ∧
        Tiles source (start + command.data.length) stop rest

theorem tiles_ordered (source : Nat → UInt8) (commands : List Program) (start stop : Nat)
    (tiles : Tiles source start stop commands) : start ≤ stop := by
  induction commands generalizing start with
  | nil => exact Nat.le_of_eq tiles
  | cons command rest ih =>
      have tail := ih _ tiles.2.2.2
      omega

/-- A tiling whose commands all stay inside their page programs exactly the tiled range. -/
theorem program_all_tiles (page : Nat) (source : Nat → UInt8) (commands : List Program)
    (mem : Nat → UInt8) (start stop : Nat) (tiles : Tiles source start stop commands)
    (inside : ∀ command ∈ commands, InsidePage page command) (address : Nat) :
    programAll page mem commands address =
      if start ≤ address ∧ address < stop then mem address &&& source address
      else mem address := by
  induction commands generalizing mem start with
  | nil =>
      have same : start = stop := tiles
      have empty : ¬ (start ≤ address ∧ address < stop) := by omega
      simp [programAll, empty]
  | cons command rest ih =>
      obtain ⟨begins, _, data, tail⟩ := tiles
      have order := tiles_ordered source rest _ stop tail
      have first := program_inside page mem command (inside command List.mem_cons_self) address
      have later := ih (program page mem command) _ tail
        (fun other member => inside other (List.mem_cons_of_mem command member))
      rw [show programAll page mem (command :: rest) =
        programAll page (program page mem command) rest from rfl, later, first, begins]
      by_cases here : start ≤ address ∧ address < start + command.data.length
      · have notLater : ¬ (start + command.data.length ≤ address ∧ address < stop) := by omega
        have covered : start ≤ address ∧ address < stop := by omega
        have value : (command.data[address - start]?).getD 0xff = source address := by
          rw [data]
          have bound : address - start < command.data.length := by omega
          have place : start + (address - start) = address := by omega
          simp [slice, bound, place]
        rw [if_neg notLater, if_pos here, if_pos covered, value]
      · rw [if_neg here]
        by_cases covered : start ≤ address ∧ address < stop
        · rw [if_pos covered, if_pos (by omega)]
        · rw [if_neg covered, if_neg (by omega)]

/-- Over an erased range the programmed bytes are the source's own. -/
theorem program_all_erased (page : Nat) (source : Nat → UInt8) (commands : List Program)
    (mem : Nat → UInt8) (start stop : Nat) (tiles : Tiles source start stop commands)
    (inside : ∀ command ∈ commands, InsidePage page command)
    (erased : ∀ address, start ≤ address → address < stop → mem address = 0xff) :
    programAll page mem commands =
      fun address => if start ≤ address ∧ address < stop then source address else mem address := by
  funext address
  rw [program_all_tiles page source commands mem start stop tiles inside address]
  by_cases covered : start ≤ address ∧ address < stop
  · rw [if_pos covered, if_pos covered, erased address covered.1 covered.2]
    exact UInt8.neg_one_and
  · rw [if_neg covered, if_neg covered]

section Windows

/-- What is left of an erased flash when the bytes of `source` are programmed to `[start, stop)`. -/
def window (source : Nat → UInt8) (start stop : Nat) : Nat → UInt8 :=
  fun address => if start ≤ address ∧ address < stop then source address else 0xff

theorem window_empty (source : Nat → UInt8) (start address : Nat) :
    window source start start address = 0xff := by
  rw [window, if_neg (by omega)]

theorem window_join (source : Nat → UInt8) (start middle stop address : Nat)
    (front : start ≤ middle) (back : middle ≤ stop) :
    window source start middle address &&& window source middle stop address =
      window source start stop address := by
  unfold window
  by_cases early : address < middle
  · by_cases covered : start ≤ address
    · rw [if_pos ⟨covered, early⟩, if_neg (by omega), if_pos ⟨covered, by omega⟩]
      exact UInt8.and_neg_one
    · rw [if_neg (by omega), if_neg (by omega), if_neg (by omega)]
      rfl
  · by_cases covered : address < stop
    · rw [if_neg (by omega), if_pos ⟨by omega, covered⟩, if_pos ⟨by omega, covered⟩]
      exact UInt8.neg_one_and
    · rw [if_neg (by omega), if_neg (by omega), if_neg (by omega)]
      rfl

end Windows

section Bursts

/-- Programs bytes from an address on, whatever page they lie in. -/
def burn (mem : Nat → UInt8) (start : Nat) (data : List UInt8) : Nat → UInt8 := fun address =>
  if start ≤ address then mem address &&& (data[address - start]?).getD 0xff else mem address

theorem burn_nil (mem : Nat → UInt8) (start : Nat) : burn mem start [] = mem := by
  funext address
  unfold burn
  split
  · exact UInt8.and_neg_one
  · rfl

theorem burn_outside (mem : Nat → UInt8) (start : Nat) (data : List UInt8) (address : Nat)
    (outside : address < start ∨ start + data.length ≤ address) :
    burn mem start data address = mem address := by
  unfold burn
  split
  · rw [List.getElem?_eq_none (by omega)]
    exact UInt8.and_neg_one
  · rfl

theorem burn_slice (mem source : Nat → UInt8) (start first count address : Nat) :
    burn mem start (slice source first count) address =
      mem address &&& window (fun a => source (first + (a - start))) start (start + count)
        address := by
  unfold window
  by_cases covered : start ≤ address ∧ address < start + count
  · have bound : address - start < (slice source first count).length := by
      rw [slice_length]
      omega
    rw [burn, if_pos covered.1, if_pos covered, List.getElem?_eq_getElem bound, Option.getD_some,
      slice_getElem]
  · rw [if_neg covered, burn_outside _ _ _ _ (by rw [slice_length]; omega)]
    exact UInt8.and_neg_one.symm

/-- Programming what is there already. -/
theorem burn_same (mem source : Nat → UInt8) (start first count : Nat)
    (same : ∀ i < count, source (first + i) = mem (start + i)) :
    burn mem start (slice source first count) = mem := by
  funext address
  rw [burn_slice, window]
  by_cases covered : start ≤ address ∧ address < start + count
  · have byte := same (address - start) (by omega)
    rw [Nat.add_sub_cancel' covered.1] at byte
    rw [if_pos covered, byte]
    exact UInt8.and_self
  · rw [if_neg covered]
    exact UInt8.and_neg_one

theorem burn_append (mem : Nat → UInt8) (start : Nat) (front back : List UInt8) :
    burn (burn mem start front) (start + front.length) back = burn mem start (front ++ back) := by
  funext address
  by_cases early : address < start + front.length
  · rw [burn_outside _ (start + front.length) _ _ (Or.inl early)]
    unfold burn
    split
    · rw [List.getElem?_append_left (by omega)]
    · rfl
  · rw [burn, if_pos (by omega), burn_outside _ start _ _ (Or.inr (by omega)), burn,
      if_pos (by omega), List.getElem?_append_right (by omega), Nat.sub_sub]

end Bursts

end UBoot.Library.NorFlash
