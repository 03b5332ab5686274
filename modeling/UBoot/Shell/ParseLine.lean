import Mathlib.Data.List.TakeWhile
import UBoot.Lib.Strings

/-!
parse_line of the monitor. It splits a command into its words. When there are
more than CFG_MAXARGS of them, or white space behind the last one of just as
many, it stops without the NULL behind the arguments.
-/

namespace UBoot.Shell.ParseLine

/-- The array argv; NULL is `none`. -/
abbrev Argv := Nat → Option (List UInt8)

def isBlank (c : UInt8) : Bool := c == 32 || c == 9

def parseFrom : (left : Nat) → (line : List UInt8) → (nargs : Nat) → Argv → Nat × Argv
  | 0, _, nargs, argv => (nargs, argv)
  | left + 1, line, nargs, argv =>
      match line.dropWhile isBlank with
      | [] => (nargs, Function.update argv nargs none)
      | c :: text =>
          let word := (c :: text).takeWhile fun c => !isBlank c
          let begun := Function.update argv nargs (some word)
          match (c :: text).dropWhile fun c => !isBlank c with
          | [] => (nargs + 1, Function.update begun (nargs + 1) none)
          | _ :: rest => parseFrom left rest (nargs + 1) begun

def parseLine (maxargs : Nat) (line : List UInt8) (argv : Argv) : Nat × Argv :=
  parseFrom maxargs line 0 argv

/-! ### The words of a line -/

def words (line : List UInt8) : List (List UInt8) := (line.splitOnP isBlank).filter (· ≠ [])

theorem words_blank (c : UInt8) (rest : List UInt8) (blank : isBlank c = true) :
    words (c :: rest) = words rest := by
  rw [words, List.splitOnP_cons_eq_if_modifyHead, if_pos blank]
  rfl

theorem words_skip (line : List UInt8) : words (line.dropWhile isBlank) = words line := by
  induction line with
  | nil => rfl
  | cons c rest induction =>
      rw [List.dropWhile_cons]
      split
      · next blank => rw [induction, words_blank c rest blank]
      · rfl

theorem words_last (word : List UInt8) (begun : word ≠ []) (solid : ∀ c ∈ word, isBlank c = false) :
    words word = [word] := by
  rw [words, List.splitOnP_eq_singleton solid]
  simp [begun]

theorem words_first (word rest : List UInt8) (c : UInt8) (begun : word ≠ [])
    (solid : ∀ c ∈ word, isBlank c = false) (blank : isBlank c = true) :
    words (word ++ c :: rest) = word :: words rest := by
  rw [words, List.splitOnP_append_cons_of_forall_mem solid c blank]
  simp [begun, words]

/-- The line ends with a word. -/
def endsSolid (line : List UInt8) : Bool := line.getLast?.any fun c => !isBlank c

theorem ends_solid_words (line : List UInt8) (solid : endsSolid line = true) : words line ≠ [] := by
  induction line with
  | nil => cases solid
  | cons c rest induction =>
      by_cases blank : isBlank c = true
      · rw [words_blank c rest blank]
        cases rest with
        | nil => simp [endsSolid, blank] at solid
        | cons d rest => exact induction (by simpa [endsSolid] using solid)
      · rw [words, List.splitOnP_cons_eq_if_modifyHead, if_neg blank]
        cases split : rest.splitOnP isBlank with
        | nil => exact absurd split (List.splitOnP_ne_nil isBlank rest)
        | cons word later => simp

theorem ends_solid_append (front : List UInt8) (c : UInt8) (back : List UInt8)
    (blank : isBlank c = true) : endsSolid (front ++ c :: back) = endsSolid back := by
  cases back with
  | nil => simp [endsSolid, blank]
  | cons d back =>
      obtain ⟨last, same⟩ := Option.isSome_iff_exists.mp (List.getLast?_isSome.mpr (List.cons_ne_nil d back))
      simp [endsSolid, List.getLast?_append, List.getLast?_cons_cons, same]

theorem ends_solid_skip (line : List UInt8) :
    endsSolid (line.dropWhile isBlank) = endsSolid line := by
  induction line with
  | nil => rfl
  | cons c rest induction =>
      rw [List.dropWhile_cons]
      split
      · next blank => rw [induction, ← ends_solid_append [] c rest blank, List.nil_append]
      · rfl

/-- The loop ends by itself, in front of the limit. -/
def Complete (maxargs : Nat) (line : List UInt8) : Prop :=
  (words line).length < maxargs ∨ (words line).length = maxargs ∧ endsSolid line = true

instance (maxargs : Nat) (line : List UInt8) : Decidable (Complete maxargs line) :=
  inferInstanceAs (Decidable (_ ∨ _))

/-! ### What parse_line leaves -/

/-- The arguments from one on are the words of a line, as many as there is room for. -/
structure Parsed (left : Nat) (line : List UInt8) (nargs : Nat) (argv : Argv)
    (result : Nat × Argv) : Prop where
  count : result.1 = nargs + min (words line).length left
  kept : ∀ i < nargs, result.2 i = argv i
  word : ∀ i < min (words line).length left, result.2 (nargs + i) = (words line)[i]?
  last : result.2 result.1 = if Complete left line then none else argv result.1

section Steps

variable {left nargs : Nat} {line word rest : List UInt8} {argv : Argv}

theorem parsed_blank (blank : words line = []) :
    Parsed (left + 1) line nargs argv (nargs, Function.update argv nargs none) := by
  have ended : Complete (left + 1) line := Or.inl (by rw [blank]; exact Nat.succ_pos left)
  constructor
  · simp [blank]
  · exact fun i bound => Function.update_of_ne (by omega) _ _
  · intro i bound
    simp [blank] at bound
  · rw [if_pos ended]
    exact Function.update_self ..

theorem parsed_last (one : words line = [word]) (closes : endsSolid line = true) :
    Parsed (left + 1) line nargs argv
      (nargs + 1, Function.update (Function.update argv nargs (some word)) (nargs + 1) none) := by
  have ended : Complete (left + 1) line := by
    rcases Nat.eq_zero_or_pos left with none | room
    · exact Or.inr ⟨by rw [one, none]; rfl, closes⟩
    · exact Or.inl (by rw [one]; exact Nat.succ_lt_succ room)
  constructor
  · simp [one]
  · intro i bound
    dsimp only
    rw [Function.update_of_ne (by omega), Function.update_of_ne (by omega)]
  · intro i bound
    have zero : i = 0 := by
      rw [one, List.length_singleton] at bound
      omega
    subst zero
    dsimp only
    rw [Function.update_of_ne (by omega), Nat.add_zero, Function.update_self, one]
    rfl
  · rw [if_pos ended]
    exact Function.update_self ..

theorem parsed_more {result : Nat × Argv} (more : words line = word :: words rest)
    (closes : endsSolid line = endsSolid rest)
    (parsed : Parsed left rest (nargs + 1) (Function.update argv nargs (some word)) result) :
    Parsed (left + 1) line nargs argv result := by
  have again : Complete (left + 1) line ↔ Complete left rest := by
    simp only [Complete, more, closes, List.length_cons, Nat.succ_lt_succ_iff, Nat.succ_inj]
  have smaller : min (words line).length (left + 1) = min (words rest).length left + 1 := by
    rw [more, List.length_cons]
    omega
  have count := parsed.count
  constructor
  · omega
  · intro i bound
    rw [parsed.kept i (by omega), Function.update_of_ne (by omega)]
  · intro i bound
    cases i with
    | zero =>
        rw [Nat.add_zero, parsed.kept nargs (Nat.lt_succ_self nargs), Function.update_self, more]
        rfl
    | succ i =>
        have tail := parsed.word i (by omega)
        rw [Nat.add_right_comm, Nat.add_assoc] at tail
        rw [tail, more, List.getElem?_cons_succ]
  · rw [parsed.last]
    simp only [again]
    split
    · rfl
    · rw [Function.update_of_ne (by omega)]

end Steps

/-- What takeWhile and dropWhile find at the start of a word. -/
theorem word_split (c : UInt8) (text : List UInt8) (first : isBlank c = false) :
    ∃ word, word ≠ [] ∧ (∀ d ∈ word, isBlank d = false) ∧
      (c :: text).takeWhile (fun c => !isBlank c) = word ∧
      c :: text = word ++ (c :: text).dropWhile (fun c => !isBlank c) := by
  refine ⟨(c :: text).takeWhile (fun c => !isBlank c), by simp [first], ?_, rfl, ?_⟩
  · intro d member
    simpa using List.mem_takeWhile_imp member
  · exact List.takeWhile_append_dropWhile.symm

theorem parse_from (left : Nat) (line : List UInt8) (nargs : Nat) (argv : Argv) :
    Parsed left line nargs argv (parseFrom left line nargs argv) := by
  induction left generalizing line nargs argv with
  | zero =>
      have stopped : ¬ Complete 0 line := by
        rintro (few | ⟨none, solid⟩)
        · omega
        · exact ends_solid_words line solid (List.eq_nil_of_length_eq_zero none)
      constructor
      · simp [parseFrom]
      · exact fun i _ => rfl
      · intro i bound
        simp at bound
      · rw [if_neg stopped]
        rfl
  | succ left induction =>
      cases skipped : line.dropWhile isBlank with
      | nil =>
          rw [parseFrom, skipped]
          exact parsed_blank (by rw [← words_skip, skipped]; rfl)
      | cons c text =>
          have first : isBlank c = false := by
            have head := List.head?_dropWhile_not isBlank line
            rw [skipped] at head
            exact head
          have same : words line = words (c :: text) := by rw [← words_skip, skipped]
          have ending : endsSolid line = endsSolid (c :: text) := by rw [← ends_solid_skip, skipped]
          obtain ⟨word, begun, solid, taken, whole⟩ := word_split c text first
          rw [parseFrom, skipped]
          dsimp only
          rw [taken]
          cases tail : (c :: text).dropWhile (fun c => !isBlank c) with
          | nil =>
              rw [tail, List.append_nil] at whole
              rw [whole, words_last word begun solid] at same
              obtain ⟨last, found⟩ := Option.isSome_iff_exists.mp (List.getLast?_isSome.mpr begun)
              apply parsed_last same
              rw [ending, whole]
              simp [endsSolid, found, solid last (List.mem_of_getLast? found)]
          | cons d rest =>
              have blank : isBlank d = true := by
                have head := List.head?_dropWhile_not (fun c => !isBlank c) (c :: text)
                rw [tail] at head
                simpa using head
              rw [tail] at whole
              rw [whole, words_first word rest d begun solid blank] at same
              rw [whole, ends_solid_append word d rest blank] at ending
              exact parsed_more same ending (induction rest (nargs + 1) _)

/-- When it comes to the end of the line, the arguments are the words, and NULL is behind them. -/
theorem parse_complete (maxargs : Nat) (line : List UInt8) (argv : Argv)
    (complete : Complete maxargs line) :
    (parseLine maxargs line argv).1 = (words line).length ∧
      (∀ i < (parseLine maxargs line argv).1, (parseLine maxargs line argv).2 i = (words line)[i]?) ∧
      (parseLine maxargs line argv).2 (parseLine maxargs line argv).1 = none := by
  have parsed : Parsed maxargs line 0 argv (parseLine maxargs line argv) := parse_from _ _ _ _
  have few : (words line).length ≤ maxargs := by
    rcases complete with less | same
    · exact less.le
    · exact same.1.le
  have count := parsed.count
  rw [Nat.min_eq_left few, Nat.zero_add] at count
  refine ⟨count, ?_, ?_⟩
  · intro i bound
    have word := parsed.word i (by omega)
    rwa [Nat.zero_add] at word
  · rw [parsed.last, if_pos complete]

/-- When it does not, the arguments are as many as there may be, and nothing is put behind them. -/
theorem parse_stopped (maxargs : Nat) (line : List UInt8) (argv : Argv)
    (stopped : ¬ Complete maxargs line) :
    (parseLine maxargs line argv).1 = maxargs ∧ maxargs ≤ (words line).length ∧
      (∀ i < maxargs, (parseLine maxargs line argv).2 i = (words line)[i]?) ∧
      (parseLine maxargs line argv).2 maxargs = argv maxargs := by
  have parsed : Parsed maxargs line 0 argv (parseLine maxargs line argv) := parse_from _ _ _ _
  have many : maxargs ≤ (words line).length := not_lt.mp fun less => stopped (Or.inl less)
  have count := parsed.count
  rw [Nat.min_eq_right many, Nat.zero_add] at count
  refine ⟨count, many, ?_, ?_⟩
  · intro i bound
    have word := parsed.word i (by omega)
    rwa [Nat.zero_add] at word
  · have last := parsed.last
    rwa [if_neg stopped, count] at last

end UBoot.Shell.ParseLine
